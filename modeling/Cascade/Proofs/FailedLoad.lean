/-
  Cascade.Proofs.FailedLoad
  ────────────────────────────────
  **A LOAD THAT FAILS IS MADE AGAIN.**

  A request that fails changes nothing (`Cache.get_of_error`): not the
  entries, an older one of its own place among them, and not the log.  What
  it leaves for its place does not stand against the file that could not be
  loaded (`Cache.older_of_error`):

      once   — there is no entry
      mtime  — there is none, or one older than the file

  The time of a file that fails is kept nowhere.  So later requests load the
  file, or answer with what was loaded since, even when a repair leaves it
  the time it had (`Run.failed_get_retried`).
-/
import Cascade.Proofs.LoadOnce

namespace Cascade

/-! ## §1. One request. -/

namespace Cache

variable {c : Cache} {w : World} {p place : Path} {l : Loaded} {m : Int} {failure : Failure}

/-- No entry for a place stands against a file of this time: there is none, or it is dated
and older. -/
def Outdated (c : Cache) (place : Path) (m : Int) : Prop :=
  ∀ l, c.loaded.get? place = some l → c.policy = .mtime ∧ l.modified < m

/-- A request for a place that fails changes nothing. -/
theorem getAt_of_error (fails : (c.getAt w place).answer = .error failure) :
    (c.getAt w place).cache = c ∧ (c.getAt w place).log = [] := by
  have hs := served_getAt c w place
  generalize c.getAt w place = f at hs fails ⊢
  -- what is answered did not fail, and the other ways leave the cache
  cases hs with
  | held entry stands => cases fails
  | nothing absent unheld => cases fails
  | gone absent dated entry stands => cases fails
  | lost absent entry problem => exact ⟨rfl, rfl⟩
  | failed fault other open_ => exact ⟨rfl, rfl⟩
  | reloaded time newer =>
    unfold reload at fails ⊢
    cases hv : EnvFile.load w place with
    | error problem => exact ⟨rfl, rfl⟩
    | ok values => rw [hv] at fails; cases fails

/-- **A REQUEST THAT FAILS CHANGES NOTHING**, and logs nothing. -/
theorem get_of_error (fails : (c.get w p).answer = .error failure) :
    (c.get w p).cache = c ∧ (c.get w p).log = [] := by
  unfold get at fails ⊢
  cases hp : w.physical p with
  | error problem => exact ⟨rfl, rfl⟩
  | ok place => rw [hp] at fails; exact getAt_of_error fails

/-- An entry that a request for its place leaves when it fails is dated, and older than the
file. -/
theorem older_of_error (fails : (c.getAt w place).answer = .error failure)
    (entry : c.loaded.get? place = some l) :
    c.policy = .mtime ∧ ∀ broken, w.modified place = .ok broken → l.modified < broken := by
  rcases getAt_cases c w place with ⟨l', -, -, h⟩ | ⟨open_, h⟩
  · rw [h] at fails
    cases fails
  · have dated : c.policy = .mtime := by
      cases hp : c.policy with
      | mtime => rfl
      | once => rw [open_ hp] at entry; cases entry
    refine ⟨dated, fun broken time => ?_⟩
    by_contra hlt
    -- an entry that is not older would have been the answer
    have hle : broken ≤ l.modified := by omega
    simp only [h, looked, time, entry, if_pos hle] at fails
    cases fails

/-- A file against which no entry stands is loaded. -/
theorem answer_of_outdated (time : w.modified place = .ok m) (h : c.Outdated place m) :
    (c.getAt w place).answer = EnvFile.load w place := by
  rcases getAt_cases c w place with ⟨l, entry, once, -⟩ | ⟨-, hlook⟩
  · have dated := (h l entry).1
    rw [once] at dated
    cases dated
  · have answer (again : Bool) : (c.reload w place m again).answer = EnvFile.load w place := by
      unfold reload
      cases EnvFile.load w place <;> rfl
    rw [hlook]
    unfold looked
    rw [time]
    cases entry : c.loaded.get? place with
    | none => exact answer false
    | some l =>
      have hlt := (h l entry).2
      have hnot : ¬ m ≤ l.modified := by omega
      simp only [if_neg hnot]
      exact answer true

/-- An entry that stands against the file is the answer. -/
theorem answer_of_standing (time : w.modified place = .ok m)
    (entry : c.loaded.get? place = some l) (h : ¬ (c.policy = .mtime ∧ l.modified < m)) :
    (c.getAt w place).answer = .ok l.values := by
  unfold getAt
  rw [entry]
  cases hp : c.policy with
  | once => rfl
  | mtime =>
    have hle : m ≤ l.modified := by
      by_contra hlt
      exact h ⟨hp, by omega⟩
    simp only [time, if_pos hle]
    rfl

end Cache

/-! ## §2. Runs. -/

namespace Run

variable {r : Run} {p q place : Path} {l : Cache.Loaded} {i j : Nat} {m : Int}
  {failure : Failure}

/-- An entry that was loaded from moment `i` on, and before moment `j`. -/
def LoadedSince (r : Run) (place : Path) (i j : Nat) (l : Cache.Loaded) : Prop :=
  ∃ k x, i ≤ k ∧ k < j ∧ r.steps[k]? = some x ∧ (r.moment k).Loads x place l

/-- An entry was there at an earlier moment, or was loaded since. -/
theorem entry_since (hij : i ≤ j) (entry : (r.moment j).cache.loaded.get? place = some l) :
    (r.moment i).cache.loaded.get? place = some l ∨ r.LoadedSince place i j l := by
  refine moment_le_induction (P := fun s => s.cache.loaded.get? place = some l →
    (r.moment i).cache.loaded.get? place = some l ∨ r.LoadedSince place i j l)
    hij (fun h => .inl h) ?_ entry
  intro k x hik hkj hx hk h
  rcases Session.entry_of_step h with h | loads
  · exact hk h
  · exact .inr ⟨k, x, hik, hkj, hx, loads⟩

/-- A moment at which a request fails is like the one after it. -/
theorem moment_succ_of_error (asked : r.steps[i]? = some (.get p))
    (fails : ((r.moment i).cache.get (r.world i) p).answer = .error failure) :
    r.moment (i + 1) = r.moment i := by
  obtain ⟨hcache, hlog⟩ := Cache.get_of_error fails
  rw [moment_succ, asked]
  show (⟨r.world i, ((r.moment i).cache.get (r.world i) p).cache,
    (r.moment i).log ++ ((r.moment i).cache.get (r.world i) p).log⟩ : Session) = r.moment i
  rw [hcache, hlog, List.append_nil]
  rfl

/-- When no entry of moment `i` stands against the file of a later moment, the answer is that
of loading it, or of an entry that was loaded since and does stand. -/
theorem answer_since (hij : i ≤ j) (time : (r.world j).modified place = .ok m)
    (h : (r.moment i).cache.Outdated place m) :
    ((r.moment j).cache.getAt (r.world j) place).answer = EnvFile.load (r.world j) place ∨
      ∃ l, r.LoadedSince place i j l ∧ (r.policy = .mtime → m ≤ l.modified) ∧
        ((r.moment j).cache.getAt (r.world j) place).answer = .ok l.values := by
  by_cases hj : (r.moment j).cache.Outdated place m
  · exact .inl (Cache.answer_of_outdated time hj)
  · obtain ⟨l, hl⟩ := not_forall.1 hj
    obtain ⟨entry, stands⟩ := Classical.not_imp.1 hl
    refine .inr ⟨l, ?_, fun hp => ?_, Cache.answer_of_standing time entry stands⟩
    · rcases entry_since hij entry with old | loaded
      · -- one of moment `i` is dated and older
        have hold := h l old
        rw [policy_moment] at hold
        rw [policy_moment] at stands
        exact absurd hold stands
      · exact loaded
    · rw [policy_moment] at stands
      by_contra hlt
      exact stands ⟨hp, by omega⟩

/-- **A FAILED LOAD IS MADE AGAIN.**  A request that fails leaves the whole session as it was.
A later request for its place answers what loading the file then gives, be it a mapping or a
failure, whenever the entry kept at that moment is older than the file.  And where the entry
kept at the FAILURE is older, as it is when the file has the time of the one that failed, what
answers was loaded after the failure. -/
theorem failed_get_retried (asked : r.steps[i]? = some (.get p))
    (fails : ((r.moment i).cache.get (r.world i) p).answer = .error failure) :
    r.moment (i + 1) = r.moment i ∧
    ∀ place, (r.world i).physical p = .ok place → ∀ j q m, i < j →
      (r.world j).physical q = .ok place → (r.world j).modified place = .ok m →
      ((r.moment j).cache.Outdated place m →
        ((r.moment j).cache.get (r.world j) q).answer = EnvFile.load (r.world j) place) ∧
      (r.policy = .once ∨ (r.moment i).cache.Outdated place m ∨
          (∃ broken ≤ m, (r.world i).modified place = .ok broken) →
        ((r.moment j).cache.get (r.world j) q).answer = EnvFile.load (r.world j) place ∨
          ∃ l, r.LoadedSince place (i + 1) j l ∧ (r.policy = .mtime → m ≤ l.modified) ∧
            ((r.moment j).cache.get (r.world j) q).answer = .ok l.values) := by
  have hsame := moment_succ_of_error asked fails
  refine ⟨hsame, fun place hplace j q m hij hq time => ?_⟩
  have hget : (r.moment j).cache.get (r.world j) q =
      (r.moment j).cache.getAt (r.world j) place := by rw [Cache.get, hq]
  rw [hget]
  refine ⟨Cache.answer_of_outdated time, fun hkept => ?_⟩
  have hfails : ((r.moment i).cache.getAt (r.world i) place).answer = .error failure := by
    rw [← fails, Cache.get, hplace]
  have outdated : (r.moment i).cache.Outdated place m := by
    rcases hkept with once | older | ⟨broken, hle, hbroken⟩
    · intro l entry
      have dated := (Cache.older_of_error hfails entry).1
      rw [policy_moment, once] at dated
      cases dated
    · exact older
    · intro l entry
      obtain ⟨dated, older⟩ := Cache.older_of_error hfails entry
      have hlt := older broken hbroken
      exact ⟨dated, by omega⟩
  rw [← hsame] at outdated
  exact answer_since hij time outdated

/-- A file that is loaded, overwritten with a byte that is no text, asked for in vain, and
repaired without a later time. -/
def repaired : Run where
  start := ⟨oneFile oldBytes 100, ⟨[], 0⟩, .empty, .none, 0⟩
  policy := .mtime
  steps := [.get onePath, .change (.write onePath [255] 200), .get onePath,
    .change (.write onePath newBytes 200)]

/-- The failure leaves the entry of the first load, and the repaired file is read, although
its time is that of the broken one. -/
theorem failed_get_retried_repaired :
    repaired.moment 3 = repaired.moment 2 ∧
      (repaired.moment 3).cache.loaded.get? onePath =
        some ⟨onePath, 100, Table.ofList [("A", .int 1)]⟩ ∧
      ((repaired.moment 4).cache.get (repaired.world 4) onePath).answer =
        .ok (Table.ofList [("A", .int 2)]) := by
  have hfails : ((repaired.moment 2).cache.get (repaired.world 2) onePath).answer =
      .error (.unavailable onePath.text
        "'utf-8' codec can't decode byte 0xff in position 0: invalid start byte") := by
    decide +kernel
  have hplace : (repaired.world 2).physical onePath = .ok onePath := by decide +kernel
  have htime : (repaired.world 4).modified onePath = .ok 200 := by decide +kernel
  have hbroken : (repaired.world 2).modified onePath = .ok 200 := by decide +kernel
  obtain ⟨hsame, later⟩ := failed_get_retried (r := repaired) (i := 2) (p := onePath) rfl hfails
  refine ⟨hsame, by decide +kernel, ?_⟩
  obtain ⟨-, again⟩ := later onePath hplace 4 onePath 200 (by omega) (by decide +kernel) htime
  rcases again (.inr (.inr ⟨200, by omega, hbroken⟩)) with
    fresh | ⟨l, ⟨k, x, hik, hkj, hx, loads⟩, -⟩
  · rw [fresh]
    decide +kernel
  · -- after the failure, nothing was asked for
    have hk : k = 3 := by omega
    subst hk
    cases hx
    obtain ⟨p, hp, -⟩ := loads.asked
    cases hp

end Run

end Cascade
