/-
  Cascade.Proofs.LoadOnce
  ────────────────────────────────
  **THE FIRST LOAD STANDS.**

  Under the policy `once` an entry is kept by every step that does not drop
  it (`Session.entry_step`), and no step makes one for a place that is not
  asked for (`Session.no_entry_step`).  So over a whole run

      an entry   — answers every request for its place, under whatever
                   spelling, with the mapping it was made with, and nothing
                   is logged
      a drop     — leaves a cache that answers for the place like one that
                   was never asked for it

  whatever happens to the file in between (`get_of_once`).
-/
import Cascade.Proofs.Freshness

namespace Cascade

namespace Session

variable {s : Session} {place : Path} {l : Cache.Loaded} {x : Step}

/-! ## §1. One step. -/

/-- A step that asks for a place. -/
def Asks (s : Session) (place : Path) : Step → Prop
  | .get p => s.world.physical p = .ok place
  | _ => False

/-- A step that drops the entry of a place: that of a path of this place, or all entries. -/
def Drops (s : Session) (place : Path) : Step → Prop
  | .invalidate p => s.world.physical p = .ok place
  | .reset => True
  | _ => False

/-- A request for a place keeps the entries that stand by themselves. -/
theorem entry_getAt {c : Cache} {w : World} (once : c.policy = .once)
    (entry : c.loaded.get? place = some l) (asked : Path) :
    (c.getAt w asked).cache.loaded.get? place = some l := by
  have hs := Cache.served_getAt c w asked
  generalize c.getAt w asked = f at hs
  -- only a place without an entry is looked at, so this entry is not touched
  have other (h : c.loaded.get? asked = none) : asked ≠ place := by
    intro he
    rw [he, entry] at h
    cases h
  cases hs with
  | held _ _ => exact entry
  | nothing _ _ => exact entry
  | lost _ _ _ => exact entry
  | failed _ _ _ => exact entry
  | gone absent dated held stands =>
    -- only dated entries are dropped
    rw [once] at dated
    cases dated
  | reloaded time newer =>
    have hnone : c.loaded.get? asked = none := by
      cases hh : c.loaded.get? asked with
      | none => rfl
      | some old =>
        have hm := (newer old hh).1
        rw [once] at hm
        cases hm
    unfold Cache.reload
    cases EnvFile.load w asked with
    | error failure => exact entry
    | ok values =>
      show (c.loaded.insert asked _).get? place = some l
      rw [Table.get?_insert, if_neg (other hnone), entry]

/-- **AN ENTRY IS KEPT** by every step that does not drop it. -/
theorem entry_step (once : s.cache.policy = .once)
    (entry : s.cache.loaded.get? place = some l) (kept : ¬ s.Drops place x) :
    (s.step x).cache.loaded.get? place = some l := by
  cases x with
  | change c => exact entry
  | wait now => exact entry
  | entry p => exact entry
  | reset => exact absurd trivial kept
  | get p =>
    show (s.cache.get s.world p).cache.loaded.get? place = some l
    unfold Cache.get
    cases s.world.physical p with
    | error failure => exact entry
    | ok asked => exact entry_getAt once entry asked
  | invalidate p =>
    simp only [step, Cache.invalidate]
    cases hp : s.world.physical p with
    | error failure => exact entry
    | ok asked =>
      have hne : asked ≠ place := fun he => kept (by rw [← he]; exact hp)
      show (s.cache.loaded.erase asked).get? place = some l
      rw [Table.get?_erase, if_neg hne, entry]

/-- No step makes an entry for a place it does not ask for. -/
theorem no_entry_step (absent : s.cache.loaded.get? place = none)
    (unasked : ¬ s.Asks place x) : (s.step x).cache.loaded.get? place = none := by
  cases hl : (s.step x).cache.loaded.get? place with
  | none => rfl
  | some l =>
    rcases entry_of_step hl with h | loads
    · rw [absent] at h
      cases h
    · obtain ⟨p, rfl, hp⟩ := loads.asked
      exact absurd hp unasked

/-- After a step that drops it there is no entry. -/
theorem no_entry_of_drops (h : s.Drops place x) :
    (s.step x).cache.loaded.get? place = none := by
  cases x with
  | reset => rfl
  | invalidate p =>
    have hp : s.world.physical p = .ok place := h
    simp only [step, Cache.invalidate, hp]
    show (s.cache.loaded.erase place).get? place = none
    rw [Table.get?_erase, if_pos rfl]
  | _ => exact h.elim

end Session

/-! ## §2. Requests. -/

namespace Cache

variable {c c' : Cache} {w : World} {p place : Path} {l : Loaded}

/-- Outcomes that are the same for whoever asks for a place: the answer, what is logged, what is
loaded, and the entry that is left. -/
structure Fetched.SameAt (place : Path) (f g : Fetched) : Prop where
  answer : f.answer = g.answer
  log : f.log = g.log
  opened : f.opened = g.opened
  entry : f.cache.loaded.get? place = g.cache.loaded.get? place

/-- An entry that stands by itself is the answer. -/
theorem get_of_entry (once : c.policy = .once) (entry : c.loaded.get? place = some l)
    (hp : w.physical p = .ok place) : c.get w p = ⟨.ok l.values, c, [], none⟩ := by
  simp only [get, hp, getAt, entry, once]
  rfl

/-- Caches without an entry for a place have the same to say about it. -/
theorem sameAt_of_no_entry (policy : c.policy = c'.policy)
    (absent : c.loaded.get? place = none) (absent' : c'.loaded.get? place = none)
    (hp : w.physical p = .ok place) : (c.get w p).SameAt place (c'.get w p) := by
  simp only [get, hp, getAt, absent, absent']
  cases hm : w.modified place with
  | error problem =>
    cases problem with
    | notFound =>
      simp only [vanished, absent, absent']
      exact ⟨rfl, rfl, rfl, absent.trans absent'.symm⟩
    | _ => exact ⟨rfl, rfl, rfl, absent.trans absent'.symm⟩
  | ok m =>
    show (c.reload w place m false).SameAt place (c'.reload w place m false)
    unfold reload
    cases EnvFile.load w place with
    | error failure => exact ⟨rfl, rfl, rfl, absent.trans absent'.symm⟩
    | ok values =>
      refine ⟨rfl, by rw [policy], rfl, ?_⟩
      show (c.loaded.insert place _).get? place = (c'.loaded.insert place _).get? place
      rw [Table.get?_insert, Table.get?_insert, if_pos rfl, if_pos rfl]

end Cache

/-! ## §3. Runs. -/

namespace Run

variable {r : Run} {place : Path} {l : Cache.Loaded} {i j : Nat}

/-- A moment at which a place is asked for. -/
def AsksAt (r : Run) (place : Path) (k : Nat) : Prop :=
  ∃ x, r.steps[k]? = some x ∧ (r.moment k).Asks place x

/-- A moment at which the entry of a place is dropped. -/
def DropsAt (r : Run) (place : Path) (k : Nat) : Prop :=
  ∃ x, r.steps[k]? = some x ∧ (r.moment k).Drops place x

/-- What holds at a moment, and is kept by the steps from there on, holds at a later one. -/
theorem moment_le_induction {P : Session → Prop} (hij : i ≤ j) (start : P (r.moment i))
    (step : ∀ k x, i ≤ k → k < j → r.steps[k]? = some x → P (r.moment k) →
      P ((r.moment k).step x)) : P (r.moment j) := by
  induction j with
  | zero =>
    have hi : i = 0 := by omega
    rw [← hi]
    exact start
  | succ j ih =>
    by_cases hlast : i = j + 1
    · rw [← hlast]
      exact start
    · have hle : i ≤ j := by omega
      have hj : P (r.moment j) :=
        ih hle fun k x hik hkj hx hk => step k x hik (by omega) hx hk
      rw [moment_succ]
      cases hx : r.steps[j]? with
      | none => exact hj
      | some x => exact step j x hle (by omega) hx hj

/-- An entry is there as long as it is not dropped. -/
theorem entry_of_undropped (hp : r.policy = .once) (hij : i ≤ j)
    (entry : (r.moment i).cache.loaded.get? place = some l)
    (undropped : ∀ k, i ≤ k → k < j → ¬ r.DropsAt place k) :
    (r.moment j).cache.loaded.get? place = some l := by
  refine moment_le_induction (P := fun s => s.cache.loaded.get? place = some l) hij entry ?_
  intro k x hik hkj hx hk
  have once : (r.moment k).cache.policy = .once := by rw [policy_moment, hp]
  have kept : ¬ (r.moment k).Drops place x := fun h => undropped k hik hkj ⟨x, hx, h⟩
  exact Session.entry_step once hk kept

/-- There is no entry as long as the place is not asked for. -/
theorem no_entry_of_unasked (hij : i ≤ j)
    (absent : (r.moment i).cache.loaded.get? place = none)
    (unasked : ∀ k, i ≤ k → k < j → ¬ r.AsksAt place k) :
    (r.moment j).cache.loaded.get? place = none := by
  refine moment_le_induction (P := fun s => s.cache.loaded.get? place = none) hij absent ?_
  intro k x hik hkj hx hk
  exact Session.no_entry_step hk fun h => unasked k hik hkj ⟨x, hx, h⟩

/-- **THE FIRST LOAD STANDS.**  Once a request has left an entry, every later request for its
place answers with this mapping, loads nothing and logs nothing, until the entry is dropped.  The first
request after that is served like that of a cache in the same world that was never asked for
the place. -/
theorem get_of_once (hp : r.policy = .once) (place : Path) :
    (∀ i p l, r.steps[i]? = some (.get p) → (r.world i).physical p = .ok place →
      (r.moment (i + 1)).cache.loaded.get? place = some l →
      ((r.moment i).cache.get (r.world i) p).answer = .ok l.values ∧
        ∀ j q, i < j → (∀ k, i < k → k < j → ¬ r.DropsAt place k) →
          (r.world j).physical q = .ok place →
          (r.moment j).cache.get (r.world j) q = ⟨.ok l.values, (r.moment j).cache, [], none⟩) ∧
    (∀ d j q, r.DropsAt place d → d < j → (∀ k, d < k → k < j → ¬ r.AsksAt place k) →
      (r.world j).physical q = .ok place →
      ∀ (r' : Run) (j' : Nat), r'.policy = .once → r'.world j' = r.world j →
        (∀ k < j', ¬ r'.AsksAt place k) →
        ((r.moment j).cache.get (r.world j) q).SameAt place
          ((r'.moment j').cache.get (r'.world j') q)) := by
  have once (k : Nat) : (r.moment k).cache.policy = .once := by rw [policy_moment, hp]
  constructor
  · intro i p l hx hplace entry
    refine ⟨?_, fun j q hij undropped hq => ?_⟩
    · -- asked once more, the request is answered from the entry, and as it was before
      have hnext : r.moment (i + 1) = (r.moment i).step (.get p) := by rw [moment_succ, hx]
      have hagain := Cache.answer_get_get (r.moment i).cache (r.world i) p
      have hcache : ((r.moment i).cache.get (r.world i) p).cache =
          (r.moment (i + 1)).cache := by rw [hnext]; rfl
      rw [hcache, Cache.get_of_entry (once (i + 1)) entry hplace] at hagain
      exact hagain.symm
    · have there := entry_of_undropped hp (show i + 1 ≤ j by omega) entry
        fun k hik hkj => undropped k (by omega) hkj
      exact Cache.get_of_entry (once j) there hq
  · intro d j q hdrop hdj unasked hq r' j' hp' hworld unasked'
    obtain ⟨x, hx, hd⟩ := hdrop
    have hnone : (r.moment (d + 1)).cache.loaded.get? place = none := by
      rw [moment_succ, hx]
      exact Session.no_entry_of_drops hd
    have absent := no_entry_of_unasked (show d + 1 ≤ j by omega) hnone
      fun k hdk hkj => unasked k (by omega) hkj
    have absent' : (r'.moment j').cache.loaded.get? place = none :=
      no_entry_of_unasked (Nat.zero_le j') rfl fun k _ hk => unasked' k hk
    have policy : (r.moment j).cache.policy = (r'.moment j').cache.policy := by
      rw [once, policy_moment, hp']
    rw [hworld]
    exact Cache.sameAt_of_no_entry policy absent absent' hq

/-- A file that is loaded, rewritten, asked for under another spelling, and invalidated. -/
def loadedOnce : Run where
  start := ⟨oneFile oldBytes 100, ⟨[], 0⟩, .empty, .none, 0⟩
  policy := .once
  steps := [.get onePath, .change (.write onePath newBytes 200), .get ⟨.root, ["x", "..", "f"]⟩,
    .invalidate onePath]

/-- The rewritten file is answered with what it held before, and read again once its entry is
dropped. -/
theorem get_of_once_loadedOnce :
    (loadedOnce.moment 2).cache.get (loadedOnce.world 2) ⟨.root, ["x", "..", "f"]⟩ =
        ⟨.ok (Table.ofList [("A", .int 1)]), (loadedOnce.moment 2).cache, [], none⟩ ∧
      ((loadedOnce.moment 4).cache.get (loadedOnce.world 4) onePath).answer =
        .ok (Table.ofList [("A", .int 2)]) := by
  have hentry : (loadedOnce.moment 1).cache.loaded.get? onePath =
      some ⟨onePath, 100, Table.ofList [("A", .int 1)]⟩ := by decide +kernel
  obtain ⟨stands, fresh⟩ := get_of_once (r := loadedOnce) rfl onePath
  constructor
  · refine (stands 0 onePath _ rfl (by decide +kernel) hentry).2 2 _ (by omega) ?_
      (by decide +kernel)
    intro k h0 h2
    rintro ⟨x, hx, hd⟩
    have hk : k = 1 := by omega
    subst hk
    cases hx
    exact hd
  · have hplace : (loadedOnce.world 3).physical onePath = .ok onePath := by decide +kernel
    have hdrop : loadedOnce.DropsAt onePath 3 := ⟨.invalidate onePath, rfl, hplace⟩
    let r' : Run := ⟨loadedOnce.world 4, .once, []⟩
    have hsame := fresh 3 4 onePath hdrop (by omega) (fun k h h' => by omega)
      (by decide +kernel) r' 0 rfl rfl (fun k hk => by omega)
    rw [hsame.answer]
    decide +kernel

end Run

end Cascade
