/-
  Cascade.Proofs.CacheAnswers
  ────────────────────────────────
  **WHAT A CACHE ANSWERS.**

  While the world stays as it is, a cache is consistent with itself: a
  request made again is answered as it was before (`answer_find_find`), so
  that the many look-ups of one resolution all see ONE env file.

  And a cache makes nothing up.  Whatever requests it has served, every
  mapping it holds or answers with was decoded from the bytes of some file,
  or is empty (`Reached.genuine`, `Genuine.answer`).
-/
import Cascade.Source.Cache

namespace Cascade

namespace Cache

variable {c : Cache} {w : World} {place : Path}

/-! ## §1. The outcomes of a request. -/

/-- The ways in which a place is served. -/
inductive Served (c : Cache) (w : World) (place : Path) : Fetched → Prop
  /-- The entry stands. -/
  | held {l : Loaded} (entry : c.loaded.get? place = some l)
    (stands : c.policy = .once ∨ ∃ m, w.modified place = .ok m ∧ m ≤ l.modified) :
    Served c w place (c.unchanged (.ok l.values))
  /-- There is nothing at the place, and no entry for it. -/
  | nothing (absent : w.modified place = .error .notFound)
    (unheld : c.loaded.get? place = none) : Served c w place (c.unchanged (.ok .empty))
  /-- There is nothing any more at the place, and the entry of what it stands for is
  dropped. -/
  | gone {l : Loaded} {again : Path} (absent : w.modified place = .error .notFound)
    (dated : c.policy = .mtime) (entry : c.loaded.get? place = some l)
    (stands : w.physical place = .ok again) :
    Served c w place ⟨.ok .empty, { c with loaded := c.loaded.erase again }, [], none⟩
  /-- There is nothing any more at the place, and it stands for no place itself. -/
  | lost {l : Loaded} {failure : Failure} (absent : w.modified place = .error .notFound)
    (entry : c.loaded.get? place = some l) (fails : w.physical place = .error failure) :
    Served c w place (c.unchanged (.error failure))
  /-- The place cannot be looked at. -/
  | failed {problem : Files.Problem} (fault : w.modified place = .error problem)
    (other : problem ≠ .notFound) (open_ : c.policy = .once → c.loaded.get? place = none) :
    Served c w place (c.unchanged (.error (EnvFile.unavailable place problem)))
  /-- The file is loaded: there is no entry, or an older one. -/
  | reloaded {m : Int} (time : w.modified place = .ok m)
    (newer : ∀ l, c.loaded.get? place = some l → c.policy = .mtime ∧ l.modified < m) :
    Served c w place (c.reload w place m (c.loaded.get? place).isSome)

/-- What comes of looking at a place. -/
def looked (c : Cache) (w : World) (place : Path) : Fetched :=
  match w.modified place with
  | .error .notFound => c.vanished w place
  | .error problem => c.unchanged (.error (EnvFile.unavailable place problem))
  | .ok modified =>
    match c.loaded.get? place with
    | some l =>
      if modified ≤ l.modified then c.unchanged (.ok l.values)
      else c.reload w place modified true
    | none => c.reload w place modified false

/-- A place is looked at, unless it has an entry that stands by itself. -/
theorem getAt_cases (c : Cache) (w : World) (place : Path) :
    (∃ l, c.loaded.get? place = some l ∧ c.policy = .once ∧
      c.getAt w place = c.unchanged (.ok l.values)) ∨
    ((c.policy = .once → c.loaded.get? place = none) ∧ c.getAt w place = c.looked w place) := by
  unfold getAt looked
  cases hh : c.loaded.get? place with
  | none => exact .inr ⟨fun _ => rfl, rfl⟩
  | some l =>
    cases hp : c.policy with
    | once => exact .inl ⟨l, rfl, rfl, rfl⟩
    | mtime => exact .inr ⟨(fun h => nomatch h), rfl⟩

/-- A place where nothing is found is served in one of the ways. -/
theorem served_vanished (absent : w.modified place = .error .notFound)
    (open_ : c.policy = .once → c.loaded.get? place = none) :
    c.Served w place (c.vanished w place) := by
  unfold vanished invalidate
  cases hh : c.loaded.get? place with
  | none => exact .nothing absent hh
  | some l =>
    have hp : c.policy = .mtime := by
      cases hp : c.policy with
      | once => rw [open_ hp] at hh; cases hh
      | mtime => rfl
    cases hs : w.physical place with
    | error failure => exact .lost absent hh hs
    | ok again => exact .gone absent hp hh hs

/-- A place that is looked at is served in one of the ways. -/
theorem served_looked (open_ : c.policy = .once → c.loaded.get? place = none) :
    c.Served w place (c.looked w place) := by
  cases hm : w.modified place with
  | error problem =>
    by_cases hn : problem = .notFound
    · subst hn
      simp only [looked, hm]
      exact served_vanished hm open_
    · simp only [looked, hm]
      exact .failed hm hn open_
  | ok m =>
    cases hh : c.loaded.get? place with
    | none =>
      have h : c.looked w place = c.reload w place m (c.loaded.get? place).isSome := by
        simp only [looked, hm, hh, Option.isSome_none]
      rw [h]
      exact .reloaded hm fun l hl => by rw [hh] at hl; cases hl
    | some l =>
      -- with an entry there, only the other policy looks at the place
      have hp : c.policy = .mtime := by
        cases hp : c.policy with
        | once => rw [open_ hp] at hh; cases hh
        | mtime => rfl
      by_cases hle : m ≤ l.modified
      · simp only [looked, hm, hh, hle, if_true]
        exact .held hh (.inr ⟨m, hm, hle⟩)
      · have h : c.looked w place = c.reload w place m (c.loaded.get? place).isSome := by
          simp only [looked, hm, hh, hle, if_false, Option.isSome_some]
        rw [h]
        refine .reloaded hm fun l' hl' => ?_
        rw [hh] at hl'
        cases hl'
        exact ⟨hp, by omega⟩

/-- **WHAT A CACHE CAN DO.**  A place is served in one of these ways. -/
theorem served_getAt (c : Cache) (w : World) (place : Path) :
    c.Served w place (c.getAt w place) := by
  rcases getAt_cases c w place with ⟨l, entry, once, h⟩ | ⟨open_, h⟩
  · rw [h]
    exact .held entry (.inl once)
  · rw [h]
    exact served_looked open_

/-! ## §2. The same request again. -/

/-- A place asked for again has the same answer. -/
theorem answer_getAt_getAt (c : Cache) (w : World) (place : Path) :
    ((c.getAt w place).cache.getAt w place).answer = (c.getAt w place).answer := by
  -- a request that changes nothing is simply repeated
  have still (h : (c.getAt w place).cache = c) :
      ((c.getAt w place).cache.getAt w place).answer = (c.getAt w place).answer := by
    rw [h]
  generalize hf : c.getAt w place = f at still
  have hs := served_getAt c w place
  rw [hf] at hs
  cases hs with
  | held entry stands => exact still rfl
  | failed fault other open_ => exact still rfl
  | nothing absent unheld => exact still rfl
  | lost absent entry fails => exact still rfl
  | @gone l again absent dated entry stands =>
    -- nothing is at the place, whether its own entry was the one that went or not
    cases hleft : (c.loaded.erase again).get? place with
    | none => simp only [getAt, dated, absent, vanished, hleft, unchanged]
    | some left =>
      simp only [getAt, dated, absent, vanished, hleft, invalidate, stands, unchanged]
  | reloaded time newer =>
    unfold reload at still ⊢
    cases hl : EnvFile.load w place with
    | error failure =>
      rw [hl] at still
      exact still rfl
    | ok values =>
      -- the entry that was just made is not older than its file
      simp only [getAt, Table.get?_insert, if_true, time]
      cases c.policy with
      | once => rfl
      | mtime => simp [unchanged]

/-- A path asked for again has the same answer. -/
theorem answer_get_get (c : Cache) (w : World) (p : Path) :
    ((c.get w p).cache.get w p).answer = (c.get w p).answer := by
  unfold get
  cases w.physical p with
  | error failure => rfl
  | ok place => exact answer_getAt_getAt c w place

/-- A search made again has the same answer. -/
theorem answer_find_find (c : Cache) (w : World) (start name : Path) :
    ((c.find w start name).cache.find w start name).answer = (c.find w start name).answer := by
  unfold find
  rcases EnvFile.locate w start name with failure | none | p
  · rfl
  · rfl
  · exact answer_get_get c w p

/-! ## §3. Where mappings come from. -/

/-- The mapping of some file's bytes, or the empty one. -/
def IsDecoded (values : Mapping Value) : Prop :=
  values = .empty ∨ ∃ content, Dotenv.decode content = .ok values

/-- A mapping that is loaded comes from a file. -/
theorem isDecoded_of_load {p : Path} {values : Mapping Value}
    (h : EnvFile.load w p = .ok values) : IsDecoded values := by
  unfold EnvFile.load at h
  split at h
  · cases h
  · cases h; exact .inl rfl
  · split at h
    · cases h; exact .inl rfl
    · cases h
    · rename_i content _
      split at h
      · rename_i hd
        cases h
        exact .inr ⟨content, hd⟩
      · cases h

/-- A cache all of whose mappings come from files. -/
def Genuine (c : Cache) : Prop :=
  ∀ {place l}, c.loaded.get? place = some l → IsDecoded l.values

/-- A cache without an entry it had is as genuine as before. -/
theorem Genuine.erase (h : c.Genuine) (place : Path) :
    Genuine { c with loaded := c.loaded.erase place } := by
  intro place' l hl
  rw [Table.get?_erase] at hl
  split at hl
  · cases hl
  · exact h hl

/-- A request that leaves a genuine cache and, if it answers, answers with a mapping of some
file. -/
structure Fetched.Genuine (f : Fetched) : Prop where
  cache : f.cache.Genuine
  answer : ∀ {values}, f.answer = .ok values → IsDecoded values

/-- An answer without a change. -/
theorem Genuine.unchanged (h : c.Genuine) {answer : Except Failure (Mapping Value)}
    (ha : ∀ {values}, answer = .ok values → IsDecoded values) :
    (c.unchanged answer).Genuine := ⟨h, ha⟩

/-- A failure has no mapping. -/
theorem Genuine.failed (h : c.Genuine) (failure : Failure) :
    (c.unchanged (.error failure)).Genuine := h.unchanged fun he => by cases he

/-- Loading keeps a cache genuine. -/
theorem Genuine.reload (h : c.Genuine) (w : World) (place : Path) (modified : Int)
    (again : Bool) : (c.reload w place modified again).Genuine := by
  unfold Cache.reload
  cases hl : EnvFile.load w place with
  | error failure => exact ⟨h, fun he => by cases he⟩
  | ok values =>
    have hd : IsDecoded values := isDecoded_of_load hl
    refine ⟨fun {place' l} hl => ?_, fun he => by cases he; exact hd⟩
    -- an entry is the new one, or it was there before
    rw [Table.get?_insert] at hl
    split at hl
    · cases hl; exact hd
    · exact h hl

/-- Asking for a place keeps a cache genuine. -/
theorem Genuine.getAt (h : c.Genuine) (w : World) (place : Path) :
    (c.getAt w place).Genuine := by
  have hs := served_getAt c w place
  generalize c.getAt w place = f at hs
  cases hs with
  | held entry stands => exact h.unchanged fun he => by cases he; exact h entry
  | failed fault other open_ => exact h.failed _
  | lost absent entry fails => exact h.failed _
  | nothing absent unheld => exact h.unchanged fun he => by cases he; exact .inl rfl
  | gone absent dated entry stands =>
    exact ⟨h.erase _, fun he => by cases he; exact .inl rfl⟩
  | reloaded time newer => exact h.reload w place _ _

/-- Asking for a path keeps a cache genuine. -/
theorem Genuine.get (h : c.Genuine) (w : World) (p : Path) : (c.get w p).Genuine := by
  unfold Cache.get
  cases w.physical p with
  | error failure => exact h.failed failure
  | ok place => exact h.getAt w place

/-- Searching keeps a cache genuine. -/
theorem Genuine.find (h : c.Genuine) (w : World) (start name : Path) :
    (c.find w start name).Genuine := by
  unfold Cache.find
  rcases EnvFile.locate w start name with failure | none | p
  · exact h.failed failure
  · exact h.unchanged fun he => by cases he; exact .inl rfl
  · exact h.get w p

/-- A cache without entries is genuine. -/
theorem genuine_new (policy : Policy) : (new policy).Genuine := fun hl => by cases hl

/-- The caches that requests lead to from an empty one, in any order and in any worlds. -/
inductive Reached : Cache → Prop
  | new (policy : Policy) : Reached (.new policy)
  | get {c : Cache} (w : World) (p : Path) : Reached c → Reached (c.get w p).cache
  | find {c : Cache} (w : World) (start name : Path) :
    Reached c → Reached (c.find w start name).cache
  | invalidate {c c' : Cache} {w : World} {p : Path} {held : Bool} :
    Reached c → c.invalidate w p = .ok (held, c') → Reached c'
  | reset {c : Cache} : Reached c → Reached c.reset

/-- Every cache that is reached is genuine. -/
theorem Reached.genuine (h : c.Reached) : c.Genuine := by
  induction h with
  | new policy => exact genuine_new policy
  | get w p _ ih => exact (ih.get w p).cache
  | find w start name _ ih => exact (ih.find w start name).cache
  | invalidate _ hi ih =>
    unfold Cache.invalidate at hi
    split at hi
    · cases hi
    · cases hi; exact ih.erase _
  | reset _ _ => exact genuine_new _

end Cache

end Cascade
