/-
  Cascade.Proofs.Freshness
  ────────────────────────────────
  **WHEN A DATED ENTRY IS AS GOOD AS THE FILE.**

  Under the policy `mtime` an entry stands until its file is newer.  That is
  as good as loading the file each time if times tell changes:

      stamping — what is put at a path has a time later than any before
      keeping  — and keeps such a time as long as it is there

  Then every request whose physical path is no detour answers what loading
  that path would (`answer_eq_load`), whatever steps a run is made of.  Only
  a path that is too long is told apart (`answer_of_nameTooLong`).

  Keeping is needed: a file that is rewritten with a later time and then
  dated back passes for the one that was loaded before
  (`not_load_of_stampsChanges`).
-/
import Mathlib.Data.List.Basic
import Cascade.Proofs.CacheRun
import Cascade.Proofs.PhysicalPlaces

namespace Cascade

namespace Run

/-! ## §1. What paths hold during a run, and since when. -/

/-- What a path holds at a moment. -/
def holds? (r : Run) (q : Path) (i : Nat) : Option Held := (r.world i).holds? q

/-- The modification time of a path at a moment, if it has one. -/
def time? (r : Run) (q : Path) (i : Nat) : Option Int := ((r.world i).modified q).toOption

/-- A step after which a path holds something else than before. -/
def Changes (r : Run) (q : Path) (k : Nat) : Prop :=
  r.holds? q (k + 1) ≠ r.holds? q k ∧ r.holds? q (k + 1) ≠ none

/-- The time of a path at a moment is later than any it had up to another one. -/
def LaterThan (r : Run) (q : Path) (k i : Nat) : Prop :=
  ∀ j ≤ k, ∀ before now, r.time? q j = some before → r.time? q i = some now → before < now

/-- Every change of what a path holds gives it a later time. -/
def StampsChanges (r : Run) : Prop :=
  ∀ q k, r.Changes q k → r.LaterThan q k (k + 1)

/-- Every change of what a path holds gives it a later time, and leaves it one as long as
the path holds the same. -/
def KeepsStamps (r : Run) : Prop :=
  ∀ q k i, r.Changes q k → k < i → (∀ m, k < m → m ≤ i → r.holds? q m = r.holds? q i) →
    r.LaterThan q k i

variable {r : Run} {q : Path} {i j : Nat}

/-- What keeps its stamps has them. -/
theorem KeepsStamps.stampsChanges (h : r.KeepsStamps) : r.StampsChanges := by
  intro q k hc
  refine h q k (k + 1) hc (by omega) fun m hk hm => ?_
  rw [show m = k + 1 by omega]

/-- Between two moments that differ there is a last step that makes a difference. -/
theorem exists_last_change {α : Type} {f : Nat → α} (hji : j ≤ i) (h : f j ≠ f i) :
    ∃ k, j ≤ k ∧ k < i ∧ f (k + 1) ≠ f k ∧ ∀ m, k < m → m ≤ i → f m = f i := by
  classical
  -- on the later moment: either it makes the difference itself, or an earlier one does
  induction i with
  | zero => exact absurd (by rw [show j = 0 by omega]) h
  | succ i ih =>
    have hj : j ≤ i := by
      by_contra hlt
      exact h (by rw [show j = i + 1 by omega])
    by_cases hi : f (i + 1) = f i
    · rw [hi] at h
      obtain ⟨k, hjk, hki, hc, hsame⟩ := ih hj h
      refine ⟨k, hjk, by omega, hc, fun m hk hm => ?_⟩
      by_cases hlast : m = i + 1
      · rw [hlast]
      · rw [hsame m hk (by omega), hi]
    · exact ⟨i, hj, by omega, hi, fun m hk hm => by rw [show m = i + 1 by omega]⟩

/-- A path that holds something else than it did has a later time. -/
theorem KeepsStamps.later (h : r.KeepsStamps) (hji : j ≤ i)
    (hne : r.holds? q j ≠ r.holds? q i) (hs : r.holds? q i ≠ none) {before now : Int}
    (hb : r.time? q j = some before) (hn : r.time? q i = some now) : before < now := by
  obtain ⟨k, hjk, hki, hc, hsame⟩ := exists_last_change (f := r.holds? q) hji hne
  have hend : r.holds? q (k + 1) ≠ none := by
    rw [hsame (k + 1) (by omega) (by omega)]
    exact hs
  exact h q k i ⟨hc, hend⟩ hki hsame j hjk before now hb hn

/-! ## §2. Requests. -/

/-- The entry of a path that is not newer has what loading would give. -/
theorem KeepsStamps.load_of_entry (h : r.KeepsStamps) {place : Path} {l : Cache.Loaded}
    (entry : (r.moment i).cache.loaded.get? place = some l)
    (direct : (r.world i).IsDirect place) {m : Int}
    (hm : (r.world i).modified place = .ok m) (stands : m ≤ l.modified) :
    EnvFile.load (r.world i) place = .ok l.values := by
  -- the entry was loaded at moment `j`; had the path changed since, its time would be later
  obtain ⟨j, hji, x, -, loads⟩ := loaded_of_entry entry
  have hj : (r.world j).modified place = .ok l.modified := loads.modified
  obtain ⟨held, hs⟩ := direct.holds hm
  have same : r.holds? place j = r.holds? place i := by
    by_contra hne
    have hlater := h.later (by omega) hne (by rw [Run.holds?, hs]; exact fun h => nomatch h)
      (by rw [time?, hj]; rfl) (by rw [time?, hm]; rfl)
    omega
  rw [EnvFile.load_of_holds hs hm]
  rw [holds?, holds?, hs] at same
  rw [← EnvFile.load_of_holds same hj]
  exact loads.values

/-- **A DATED CACHE IS COHERENT.**  When changes give a path a later time and leave it one,
a request at any moment of a run answers what loading its physical path would, if that is no
detour and not too long. -/
theorem answer_eq_load (hp : r.policy = .mtime) (h : r.KeepsStamps) {p place : Path}
    (hplace : (r.world i).physical p = .ok place)
    (above : (r.world i).files.passes [] place.place = true)
    (unlinked : ∀ target, (r.world i).files.node? place.place ≠ some (.link target))
    (short : (r.world i).modified place ≠ .error .nameTooLong) :
    ((r.moment i).cache.get (r.world i) p).answer = EnvFile.load (r.world i) place := by
  obtain ⟨absolute, usable⟩ := World.of_physical hplace
  have direct : (r.world i).IsDirect place := ⟨absolute, above, unlinked⟩
  have hget : (r.moment i).cache.get (r.world i) p =
      (r.moment i).cache.getAt (r.world i) place := by rw [Cache.get, hplace]
  rw [hget]
  have hs := Cache.served_getAt (r.moment i).cache (r.world i) place
  generalize (r.moment i).cache.getAt (r.world i) place = f at hs
  cases hs with
  | held entry stands =>
    rcases stands with once | ⟨m, hm, hle⟩
    · rw [policy_moment, hp] at once
      cases once
    · exact (h.load_of_entry entry direct hm hle).symm
  | nothing absent unheld => exact (EnvFile.load_of_notFound (direct.problem absent).1).symm
  | gone absent dated entry stands =>
    exact (EnvFile.load_of_notFound (direct.problem absent).1).symm
  | lost absent entry fails =>
    -- without a detour the path stands for itself
    rw [direct.physical usable] at fails
    cases fails
  | failed fault other open_ =>
    -- no problem is left: a physical path can be used, and this one is not too long
    obtain ⟨hstat, hc⟩ := direct.problem fault
    rcases hc with rfl | rfl | hu
    · exact absurd rfl other
    · exact absurd fault short
    · rw [usable _ hstat] at hu
      cases hu
  | reloaded time newer =>
    -- the answer is what was just loaded, kept or not
    unfold Cache.reload
    cases EnvFile.load (r.world i) place <;> rfl

/-- A path that is too long is where requests and loading part: the one calls the source
unavailable, the other lets the problem through. -/
theorem answer_of_nameTooLong (hp : r.policy = .mtime) {p place : Path}
    (hplace : (r.world i).physical p = .ok place)
    (long : (r.world i).modified place = .error .nameTooLong) :
    ((r.moment i).cache.get (r.world i) p).answer =
        .error (EnvFile.unavailable place .nameTooLong) ∧
      EnvFile.load (r.world i) place = .error (.files ⟨.nameTooLong, [place.text]⟩) := by
  refine ⟨?_, EnvFile.load_of_nameTooLong long⟩
  have hpolicy : (r.moment i).cache.policy = .mtime := by rw [policy_moment, hp]
  simp only [Cache.get, hplace, Cache.getAt, long, hpolicy]
  cases (r.moment i).cache.loaded.get? place <;> rfl

/-! ## §3. One file, rewritten. -/

/-- The place of a file in the root. -/
def onePlace : Location := [("f" : Text)]

/-- The path of this file. -/
def onePath : Path := .ofLocation onePlace

/-- A tree with this file alone. -/
def oneFile (content : Text.Bytes) (time : Int) : FileSystem :=
  ⟨Table.ofList [(onePlace, .file content time)]⟩

/-- The bytes of `A=1`. -/
def oldBytes : Text.Bytes := [65, 61, 49]

/-- The bytes of `A=2`. -/
def newBytes : Text.Bytes := [65, 61, 50]

/-- The file is asked for, then rewritten with a later time; the rest is left open. -/
def rewritten (rest : List Session.Step) : Run where
  start := ⟨oneFile oldBytes 100, ⟨[], 0⟩, .empty, .none, 0⟩
  policy := .mtime
  steps := .get onePath :: .change (.write onePath newBytes 200) :: rest

section

variable {content : Text.Bytes} {time : Int}

/-- The nodes of such a tree. -/
theorem node?_oneFile (l : Location) :
    (oneFile content time).node? l =
      if l = [] then some (.directory 0)
      else if onePlace = l then some (.file content time) else none := by
  unfold FileSystem.node? oneFile Table.ofList Table.insertAll
  simp only [List.foldl_cons, List.foldl_nil, Table.get?_insert, Table.get?_empty]

/-- What the places of such a tree hold. -/
theorem held?_oneFile (l : Location) :
    (oneFile content time).held? l =
      if l = [] then some .directory
      else if onePlace = l then some (.file content) else none := by
  have hroot : (oneFile content time).isDirectoryAt [] = true := by
    rw [FileSystem.isDirectoryAt, node?_oneFile, if_pos rfl]
  have hpasses : (oneFile content time).passes [] onePlace = true := by
    rw [onePlace, FileSystem.passes, hroot]
    rfl
  unfold FileSystem.held?
  by_cases hl : l = []
  · subst hl
    rw [node?_oneFile, FileSystem.passes]
    rfl
  · by_cases hf : onePlace = l
    · subst hf
      rw [node?_oneFile, hpasses, if_pos rfl, if_neg hl, if_pos rfl, if_neg hl, if_pos rfl]
      rfl
    · rw [node?_oneFile, if_neg hl, if_neg hf, if_neg hl, if_neg hf, Option.bind_none,
        ite_self]

variable {w w' : World} {content' : Text.Bytes} {time' : Int}

/-- Only at its path it makes a difference what the file holds. -/
theorem eq_onePlace_of_holds (hw : w.files = oneFile content time)
    (hw' : w'.files = oneFile content' time') (h : w.holds? q ≠ w'.holds? q) :
    q.anchor ≠ .relative ∧ onePlace = q.place ∧ content ≠ content' := by
  unfold World.holds? at h
  rw [hw, hw', held?_oneFile, held?_oneFile] at h
  by_cases ha : q.anchor = .relative
  · simp [ha] at h
  · by_cases hl : q.place = []
    · simp [ha, hl] at h
    · by_cases hf : onePlace = q.place
      · refine ⟨ha, hf, fun hc => h ?_⟩
        rw [hc]
      · simp [ha, hl, hf] at h

/-- The time that is told of the file is its time. -/
theorem eq_of_modified_oneFile (hw : w.files = oneFile content time)
    (ha : q.anchor ≠ .relative) (hq : onePlace = q.place) {m : Int}
    (hm : w.modified q = .ok m) : m = time := by
  have hplace : q.place ≠ [] := by rw [← hq]; exact List.cons_ne_nil _ _
  have hh : w.holds? q = some (.file content) := by
    rw [World.holds?, if_neg ha, hw, held?_oneFile, if_neg hplace, if_pos hq]
  obtain ⟨direct, -⟩ := World.isDirect_of_holds hh
  obtain ⟨node, hs, ht⟩ := FileSystem.stat_of_modified hm
  have hn := FileSystem.node?_of_stat direct.absolute direct.passes direct.unlinked hs
  rw [hw, node?_oneFile, if_neg hplace, if_pos hq] at hn
  cases hn
  cases ht
  rfl

/-- With such a tree at every moment, the times of the file decide which changes are told. -/
theorem laterThan_oneFile {contents : Nat → Text.Bytes} {times : Nat → Int}
    (hf : ∀ i, (r.world i).files = oneFile (contents i) (times i)) {k : Nat}
    (hc : r.Changes q k)
    (later : contents (k + 1) ≠ contents k → ∀ j ≤ k, times j < times i) :
    r.LaterThan q k i := by
  obtain ⟨ha, hq, hne⟩ := eq_onePlace_of_holds (hf (k + 1)) (hf k) hc.1
  have told {m : Nat} {t : Int} (ht : r.time? q m = some t) : t = times m := by
    unfold time? at ht
    cases hm : (r.world m).modified q with
    | error problem => rw [hm] at ht; cases ht
    | ok t' =>
      rw [hm] at ht
      cases ht
      exact eq_of_modified_oneFile (hf m) ha hq hm
  intro j hj before now hb hn
  rw [told hb, told hn]
  exact later hne j hj

end

/-- Bytes that are old up to the first moment differ there alone. -/
theorem eq_one_of_ne {old new : Text.Bytes} {k : Nat}
    (h : (if k + 1 ≤ 1 then old else new) ≠ if k ≤ 1 then old else new) : k = 1 := by
  by_contra hk
  rcases Nat.lt_or_gt_of_ne hk with hlt | hgt
  · exact h (by rw [if_pos (by omega), if_pos (by omega)])
  · exact h (by rw [if_neg (by omega), if_neg (by omega)])

/-- The trees of a run that rewrites the file. -/
theorem files_rewritten (i : Nat) :
    ((rewritten []).world i).files =
      oneFile (if i ≤ 1 then oldBytes else newBytes) (if i ≤ 1 then 100 else 200) := by
  match i with
  | 0 => rfl
  | 1 => decide +kernel
  | i + 2 =>
    have h : (rewritten []).moment (i + 2) = (rewritten []).moment 2 :=
      moment_of_length_le (by simp [rewritten])
    rw [if_neg (by omega), if_neg (by omega), world, h]
    decide +kernel

/-- A file that is rewritten with a later time is read again. -/
theorem answer_eq_load_rewritten :
    (((rewritten []).moment 2).cache.get ((rewritten []).world 2) onePath).answer =
        .ok (Table.ofList [("A", .int 2)]) ∧
      EnvFile.load ((rewritten []).world 2) onePath = .ok (Table.ofList [("A", .int 2)]) := by
  have hkeeps : (rewritten []).KeepsStamps := by
    intro q k i hc hki _
    refine laterThan_oneFile files_rewritten hc fun hne j hj => ?_
    have hk : k = 1 := eq_one_of_ne hne
    rw [if_pos (by omega), if_neg (by omega)]
    decide
  have hload : EnvFile.load ((rewritten []).world 2) onePath =
      .ok (Table.ofList [("A", .int 2)]) := by decide +kernel
  refine ⟨?_, hload⟩
  rw [← hload]
  refine answer_eq_load rfl hkeeps (by decide +kernel) (by decide +kernel) (fun target h => ?_)
    (by decide +kernel)
  have hfile : ((rewritten []).world 2).files.node? onePath.place =
      some (.file newBytes 200) := by decide +kernel
  rw [hfile] at h
  cases h

/-- A run that sets the time of the file back after it was rewritten. -/
def datedBack : Run := rewritten [.change (.touch onePath 50)]

/-- The trees of this run. -/
theorem files_datedBack (i : Nat) :
    (datedBack.world i).files =
      oneFile (if i ≤ 1 then oldBytes else newBytes)
        (if i ≤ 1 then 100 else if i = 2 then 200 else 50) := by
  match i with
  | 0 => rfl
  | 1 => decide +kernel
  | 2 => decide +kernel
  | i + 3 =>
    have h : datedBack.moment (i + 3) = datedBack.moment 3 :=
      moment_of_length_le (by simp [datedBack, rewritten])
    rw [if_neg (by omega), if_neg (by omega), if_neg (by omega), world, h]
    decide +kernel

/-- That changes give a later time is not enough: it can be set back, and the old entry
stands again. -/
theorem not_load_of_stampsChanges :
    ¬ ∀ (r : Run) (i : Nat) (p place : Path), r.policy = .mtime → r.StampsChanges →
      (r.world i).physical p = .ok place →
      (r.world i).files.passes [] place.place = true →
      ((r.moment i).cache.get (r.world i) p).answer = EnvFile.load (r.world i) place := by
  intro h
  have hstamps : datedBack.StampsChanges := by
    intro q k hc
    refine laterThan_oneFile files_datedBack hc fun hne j hj => ?_
    -- the one change is the rewriting, and it did give a later time
    have hk : k = 1 := eq_one_of_ne hne
    rw [if_pos (by omega), hk]
    decide
  have hanswer := h datedBack 3 onePath onePath rfl hstamps (by decide +kernel)
    (by decide +kernel)
  revert hanswer
  decide +kernel

end Run

end Cascade
