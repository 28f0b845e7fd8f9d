/-
  Cascade.Proofs.CacheRun
  ────────────────────────────────
  **A CACHE IN A CHANGING WORLD.**

  A session is a cache and the world it looks at.  Its steps are changes of
  files, the passing of time, and the requests of its users; a run is any
  list of steps from a cache without entries.  `moment i` is the session
  after the first `i` of them.

  Main results:
    * `Session.entry_of_step` — an entry after a step was there before it,
      or was loaded in it.
    * `Run.loaded_of_entry` — so every entry was loaded at an earlier moment
      of the run, with the values and the time the file had THEN.
-/
import Cascade.Proofs.CacheAnswers

namespace Cascade

/-- A cache, the world it looks at, and what it has logged. -/
structure Session where
  world : World
  cache : Cache
  log : List Entry

namespace Session

/-! ## §1. Steps. -/

/-- What can happen: the files change, time passes, or the cache is used. -/
inductive Step
  | change (c : FileSystem.Change)
  | wait (now : Int)
  | get (p : Path)
  | entry (p : Path)
  | invalidate (p : Path)
  | reset

/-- The session after a step.  A change that fails still leaves what it has done, and a
request that fails leaves the cache as it was. -/
def step (s : Session) : Step → Session
  | .change c => { s with world := (s.world.change c).2 }
  | .wait now => { s with world := { s.world with now } }
  | .get p =>
    let fetched := s.cache.get s.world p
    { s with cache := fetched.cache, log := s.log ++ fetched.log }
  | .entry _ => s
  | .invalidate p =>
    match s.cache.invalidate s.world p with
    | .error _ => s
    | .ok (_, cache) => { s with cache }
  | .reset => { s with cache := s.cache.reset }

/-- The session after steps, one after another. -/
def after (s : Session) (steps : List Step) : Session := steps.foldl step s

/-- A step that loads an entry: a request for a path of its place, answered from the file. -/
structure Loads (s : Session) (x : Step) (place : Path) (l : Cache.Loaded) : Prop where
  asked : ∃ p, x = .get p ∧ s.world.physical p = .ok place
  kept : l.place = place
  modified : s.world.modified place = .ok l.modified
  values : EnvFile.load s.world place = .ok l.values

variable {s : Session} {x : Step} {place : Path} {l : Cache.Loaded}

/-- No step changes the policy. -/
theorem policy_step (s : Session) (x : Step) : (s.step x).cache.policy = s.cache.policy := by
  cases x with
  | change c => rfl
  | wait now => rfl
  | entry p => rfl
  | reset => rfl
  | get p =>
    simp only [step, Cache.get]
    cases s.world.physical p with
    | error failure => rfl
    | ok place =>
      have hs := Cache.served_getAt s.cache s.world place
      simp only
      generalize s.cache.getAt s.world place = f at hs
      cases hs with
      | held entry stands => rfl
      | nothing absent unheld => rfl
      | gone absent dated entry stands => rfl
      | lost absent entry fails => rfl
      | failed fault other open_ => rfl
      | reloaded time newer =>
        unfold Cache.reload
        cases EnvFile.load s.world place <;> rfl
  | invalidate p =>
    simp only [step, Cache.invalidate]
    cases s.world.physical p <;> rfl

/-- An entry after a request for a place was there before it, or was loaded for it. -/
theorem entry_of_getAt {c : Cache} {w : World} {asked : Path}
    (h : (c.getAt w asked).cache.loaded.get? place = some l) :
    c.loaded.get? place = some l ∨ (place = asked ∧ l.place = place ∧
      w.modified place = .ok l.modified ∧ EnvFile.load w place = .ok l.values) := by
  have hs := Cache.served_getAt c w asked
  generalize c.getAt w asked = f at hs h
  cases hs with
  | held entry stands => exact .inl h
  | nothing absent unheld => exact .inl h
  | lost absent entry fails => exact .inl h
  | failed fault other open_ => exact .inl h
  | gone absent dated entry stands =>
    rw [Table.get?_erase] at h
    split at h
    · cases h
    · exact .inl h
  | reloaded time newer =>
    unfold Cache.reload at h
    cases hv : EnvFile.load w asked with
    -- a load that fails keeps nothing
    | error failure => rw [hv] at h; exact .inl h
    | ok values =>
      rw [hv] at h
      simp only [Table.get?_insert] at h
      split at h
      · next heq =>
        subst heq
        cases h
        exact .inr ⟨rfl, rfl, time, hv⟩
      · exact .inl h

/-- **ONE STEP.**  An entry after a step was there before it, or was loaded in it. -/
theorem entry_of_step (h : (s.step x).cache.loaded.get? place = some l) :
    s.cache.loaded.get? place = some l ∨ s.Loads x place l := by
  cases x with
  | change c => exact .inl h
  | wait now => exact .inl h
  | entry p => exact .inl h
  | reset => cases h
  | invalidate p =>
    simp only [step, Cache.invalidate] at h
    cases hp : s.world.physical p with
    | error failure => rw [hp] at h; exact .inl h
    | ok asked =>
      rw [hp] at h
      simp only [Table.get?_erase] at h
      split at h
      · cases h
      · exact .inl h
  | get p =>
    simp only [step, Cache.get] at h
    cases hp : s.world.physical p with
    | error failure => rw [hp] at h; exact .inl h
    | ok asked =>
      rw [hp] at h
      rcases entry_of_getAt h with h | ⟨rfl, hplace, hm, hv⟩
      · exact .inl h
      · exact .inr ⟨⟨p, rfl, hp⟩, hplace, hm, hv⟩

end Session

/-! ## §2. Runs. -/

/-- A run: the world it starts in, the policy of its cache, and its steps. -/
structure Run where
  start : World
  policy : Policy
  steps : List Session.Step

namespace Run

/-- The session after the first `i` steps. -/
def moment (r : Run) (i : Nat) : Session :=
  Session.after ⟨r.start, .new r.policy, []⟩ (r.steps.take i)

/-- The world after the first `i` steps. -/
def world (r : Run) (i : Nat) : World := (r.moment i).world

/-- A moment comes from the one before it by a step; after the last step nothing changes. -/
theorem moment_succ (r : Run) (i : Nat) :
    r.moment (i + 1) = match r.steps[i]? with
      | some x => (r.moment i).step x
      | none => r.moment i := by
  unfold moment Session.after
  rw [List.take_add_one]
  cases r.steps[i]? with
  | none => rw [Option.toList_none, List.append_nil]
  | some x => rw [Option.toList_some, List.foldl_append]; rfl

/-- After the last step nothing happens. -/
theorem moment_of_length_le {r : Run} {i : Nat} (h : r.steps.length ≤ i) :
    r.moment i = r.moment r.steps.length := by
  unfold moment
  rw [List.take_of_length_le h, List.take_length]

/-- What holds at the start and after every step holds at every moment. -/
theorem moment_induction {P : Nat → Session → Prop} (r : Run)
    (start : P 0 ⟨r.start, .new r.policy, []⟩)
    (step : ∀ i x, r.steps[i]? = some x → P i (r.moment i) → P (i + 1) ((r.moment i).step x))
    (rest : ∀ i s, P i s → P (i + 1) s) (i : Nat) : P i (r.moment i) := by
  induction i with
  | zero => exact start
  | succ i ih =>
    rw [moment_succ]
    cases hx : r.steps[i]? with
    | none => exact rest i _ ih
    | some x => exact step i x hx ih

/-- The policy is that of the run. -/
theorem policy_moment (r : Run) (i : Nat) : (r.moment i).cache.policy = r.policy :=
  r.moment_induction (P := fun _ s => s.cache.policy = r.policy) rfl
    (fun _ _ _ ih => (Session.policy_step _ _).trans ih) (fun _ _ ih => ih) i

/-- **WHERE AN ENTRY COMES FROM.**  Every entry was loaded at an earlier moment. -/
theorem loaded_of_entry {r : Run} {i : Nat} {place : Path} {l : Cache.Loaded}
    (h : (r.moment i).cache.loaded.get? place = some l) :
    ∃ j < i, ∃ x, r.steps[j]? = some x ∧ (r.moment j).Loads x place l := by
  refine r.moment_induction
    (P := fun i s => s.cache.loaded.get? place = some l →
      ∃ j < i, ∃ x, r.steps[j]? = some x ∧ (r.moment j).Loads x place l)
    (fun h => by cases h) (fun i x hx ih h => ?_) (fun i s ih h => ?_) i h
  -- an entry that was there before comes from where it came from then
  · rcases Session.entry_of_step h with h | h
    · obtain ⟨j, hj, rest⟩ := ih h
      exact ⟨j, by omega, rest⟩
    · exact ⟨i, by omega, x, hx, h⟩
  · obtain ⟨j, hj, rest⟩ := ih h
    exact ⟨j, by omega, rest⟩

end Run

end Cascade
