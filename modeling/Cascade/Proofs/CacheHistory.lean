/-
  Cascade.Proofs.CacheHistory
  ────────────────────────────────
  **WHERE ENTRIES COME FROM, AND WHAT THE LOG SAYS OF IT.**

  A step turns the table of entries in one of four ways (`Session.Turn`):
  it leaves it alone, empties it, drops one entry, or stores one.  Only
  storing is logged, and what is stored is later than what it replaces.  So
  over a run

      entries  — were loaded at an earlier moment, with the time of THEN
      times    — grow from one entry of a place to the next, up to a removal
      log      — has one entry for each that is stored, in order

  A request touches the entry of the place it is for, and no other: with one
  exception.  When the file is gone, its place is resolved once more to drop
  its entry; a place that stands for another one then costs THAT one its
  entry, and keeps its own (`Cache.Displaces`).
-/
import Cascade.Proofs.LoadOnce

namespace Cascade

/-! ## §1. New entries of a table. -/

namespace Table

variable {κ α : Type} [DecidableEq κ] {t u : Table κ α} {k : κ} {v : α}

/-- An entry that is put in is the only one kept, where those of other keys are not. -/
theorem filter_insert {keep : κ × α → Bool} (hk : keep (k, v) = true) {es : List (κ × α)}
    (hd : (es.map Prod.fst).Nodup) (ho : ∀ e ∈ es, e.1 ≠ k → keep e = false) :
    (Entries.insert k v es).filter keep = [(k, v)] := by
  induction es with
  | nil => simp [Entries.insert, hk]
  | cons e es ih =>
    obtain ⟨a, b⟩ := e
    rw [List.map_cons, List.nodup_cons] at hd
    by_cases ha : a = k
    · -- the entry takes the place of this one, and the keys after it are other ones
      have hrest : es.filter keep = [] := by
        rw [List.filter_eq_nil_iff]
        intro e he
        have hne : e.1 ≠ k := fun hek => hd.1 (List.mem_map.2 ⟨e, he, by rw [hek, ha]⟩)
        rw [ho e (List.mem_cons_of_mem _ he) hne]
        exact Bool.false_ne_true
      rw [Entries.insert, if_pos ha, List.filter_cons_of_pos hk, hrest]
    · have hfirst : keep (a, b) = false := ho (a, b) List.mem_cons_self ha
      rw [Entries.insert, if_neg ha, List.filter_cons_of_neg (by simp [hfirst])]
      exact ih hd.2 fun e he => ho e (List.mem_cons_of_mem _ he)

variable [DecidableEq α]

/-- The entries of a table that another one does not have. -/
def newIn (t u : Table κ α) : List (κ × α) := u.entries.filter fun e => t.get? e.1 ≠ some e.2

/-- A table with fewer entries has no new ones. -/
theorem newIn_of_le (h : ∀ k v, u.get? k = some v → t.get? k = some v) : t.newIn u = [] := by
  rw [newIn, List.filter_eq_nil_iff]
  intro e he
  have hu : u.get? e.1 = some e.2 := (get?_eq_some_iff u e.1 e.2).2 he
  simp [h e.1 e.2 hu]

/-- An entry that is put in, and was not there, is the only new one. -/
theorem newIn_insert (h : t.get? k ≠ some v) : t.newIn (t.insert k v) = [(k, v)] := by
  refine filter_insert (by simpa using h) t.distinct fun e he hne => ?_
  have ht : t.get? e.1 = some e.2 := (get?_eq_some_iff t e.1 e.2).2 he
  simp [ht]

end Table

/-! ## §2. One step. -/

namespace Session

variable {s : Session} {x : Step} {place : Path} {l : Cache.Loaded}

/-- What a step can leave of the entries, and what it logs. -/
inductive Turn (s : Session) (x : Step) : Table Path Cache.Loaded → List Entry → Prop
  /-- All entries stay. -/
  | still : Turn s x s.cache.loaded []
  /-- All entries go. -/
  | emptied : Turn s x .empty []
  /-- The entry of one place goes. -/
  | dropped (place : Path) : Turn s x (s.cache.loaded.erase place) []
  /-- A place is asked for and loaded: it has no entry, or an older one. -/
  | stored {p place : Path} {m : Int} {values : Mapping Value} (asked : x = .get p)
    (resolved : s.world.physical p = .ok place) (time : s.world.modified place = .ok m)
    (loads : EnvFile.load s.world place = .ok values)
    (newer : ∀ l, s.cache.loaded.get? place = some l → l.modified < m) :
    Turn s x (s.cache.loaded.insert place ⟨place, m, values⟩)
      [Cache.loadEntry s.cache.policy (s.cache.loaded.contains place) place values]

/-- **WHAT A STEP CAN DO.** -/
theorem turn_step (s : Session) (x : Step) :
    ∃ logged, (s.step x).log = s.log ++ logged ∧ s.Turn x (s.step x).cache.loaded logged := by
  have quiet {s' : Session} (hl : s'.log = s.log) (ht : s.Turn x s'.cache.loaded []) :
      ∃ logged, s'.log = s.log ++ logged ∧ s.Turn x s'.cache.loaded logged :=
    ⟨[], by rw [hl, List.append_nil], ht⟩
  cases x with
  | change c => exact quiet rfl .still
  | wait now => exact quiet rfl .still
  | entry p => exact quiet rfl .still
  | reset => exact quiet rfl .emptied
  | invalidate p =>
    cases hp : s.world.physical p with
    | error failure =>
      have hstep : s.step (.invalidate p) = s := by simp only [step, Cache.invalidate, hp]
      rw [hstep]
      exact quiet rfl .still
    | ok place =>
      have hstep : s.step (.invalidate p) =
          { s with cache := { s.cache with loaded := s.cache.loaded.erase place } } := by
        simp only [step, Cache.invalidate, hp]
      rw [hstep]
      exact quiet rfl (.dropped place)
  | get p =>
    show ∃ logged, s.log ++ (s.cache.get s.world p).log = s.log ++ logged ∧
      s.Turn (.get p) (s.cache.get s.world p).cache.loaded logged
    refine ⟨_, rfl, ?_⟩
    unfold Cache.get
    cases hp : s.world.physical p with
    | error failure => exact .still
    | ok place =>
      have hs := Cache.served_getAt s.cache s.world place
      simp only
      generalize s.cache.getAt s.world place = f at hs
      cases hs with
      | held entry stands => exact .still
      | nothing absent unheld => exact .still
      | lost absent entry fails => exact .still
      | failed fault other open_ => exact .still
      | gone absent dated entry stands => exact .dropped _
      | reloaded time newer =>
        unfold Cache.reload
        cases hv : EnvFile.load s.world place with
        | error failure => exact .still
        | ok values => exact .stored rfl hp time hv fun l hl => (newer l hl).2

/-- The entries a step stores: those it leaves that were not there before. -/
def stored (s : Session) (x : Step) : List Cache.Loaded :=
  (s.cache.loaded.newIn (s.step x).cache.loaded).map Prod.snd

/-- The entry logged when one is stored: `reload` when its place had one before, else
`load`. -/
def storedEntry (s : Session) (l : Cache.Loaded) : Entry :=
  Cache.loadEntry s.cache.policy (s.cache.loaded.contains l.place) l.place l.values

/-- A step stores nothing and logs nothing, or it stores one entry, which is later than the
one it replaces, and logs this. -/
theorem stored_cases (s : Session) (x : Step) :
    (s.stored x = [] ∧ (s.step x).log = s.log) ∨
      ∃ l, s.stored x = [l] ∧ (s.step x).log = s.log ++ [s.storedEntry l] ∧
        (s.step x).cache.loaded.get? l.place = some l ∧
        ∀ old, s.cache.loaded.get? l.place = some old → old.modified < l.modified := by
  obtain ⟨logged, hlog, hturn⟩ := turn_step s x
  unfold stored
  generalize (s.step x).cache.loaded = table at hturn
  have nothing {u : Table Path Cache.Loaded} (hu : logged = [])
      (h : ∀ k v, u.get? k = some v → s.cache.loaded.get? k = some v) :
      (s.cache.loaded.newIn u).map Prod.snd = [] ∧ (s.step x).log = s.log := by
    rw [Table.newIn_of_le h, hlog, hu, List.append_nil]
    exact ⟨rfl, rfl⟩
  cases hturn with
  | still => exact .inl (nothing rfl fun k v h => h)
  | emptied => exact .inl (nothing rfl fun k v h => nomatch h)
  | dropped place =>
    refine .inl (nothing rfl fun k v h => ?_)
    rw [Table.get?_erase] at h
    split at h
    · cases h
    · exact h
  | @stored p place m values asked resolved time loads newer =>
    have hnew : s.cache.loaded.get? place ≠ some ⟨place, m, values⟩ := by
      intro h
      have hlt : m < m := newer _ h
      omega
    refine .inr ⟨⟨place, m, values⟩, ?_, hlog, ?_, newer⟩
    · rw [Table.newIn_insert hnew]
      rfl
    · rw [Table.get?_insert, if_pos rfl]

/-- An entry that a step leaves for a place is not earlier than the one that was there. -/
theorem modified_le_of_step {old : Cache.Loaded} (ho : s.cache.loaded.get? place = some old)
    (h : (s.step x).cache.loaded.get? place = some l) : old.modified ≤ l.modified := by
  obtain ⟨logged, -, hturn⟩ := turn_step s x
  generalize (s.step x).cache.loaded = table at hturn h
  have same (h : s.cache.loaded.get? place = some l) : old.modified ≤ l.modified := by
    rw [ho] at h
    cases h
    exact Int.le_refl _
  cases hturn with
  | still => exact same h
  | emptied => cases h
  | dropped other =>
    rw [Table.get?_erase] at h
    split at h
    · cases h
    · exact same h
  | @stored p asked m values _ resolved time loads newer =>
    rw [Table.get?_insert] at h
    split at h
    · next heq =>
      subst heq
      cases h
      exact Int.le_of_lt (newer old ho)
    · exact same h

end Session

/-! ## §3. One request. -/

namespace Cache

variable {c : Cache} {w : World} {place other : Path}

/-- A request for a place that costs another one its entry: the file of the place is gone,
its entry is there, and what the place stands for is the other one. -/
structure Displaces (c : Cache) (w : World) (place other : Path) : Prop where
  dated : c.policy = .mtime
  held : c.loaded.get? place ≠ none
  gone : w.modified place = .error .notFound
  stands : w.physical place = .ok other

/-- A request drops what its place stands for when its file is gone. -/
theorem Displaces.loaded (h : c.Displaces w place other) :
    (c.getAt w place).cache.loaded = c.loaded.erase other := by
  obtain ⟨l, hl⟩ := Option.ne_none_iff_exists'.1 h.held
  simp only [getAt, h.dated, h.gone, vanished, hl, invalidate, h.stands]
  rfl

/-- A request leaves the entries of other places alone, but for that one. -/
theorem get?_getAt_of_not_displaces (hne : other ≠ place) (h : ¬ c.Displaces w place other) :
    (c.getAt w place).cache.loaded.get? other = c.loaded.get? other := by
  have hs := served_getAt c w place
  generalize c.getAt w place = f at hs
  cases hs with
  | held entry stands => rfl
  | nothing absent unheld => rfl
  | lost absent entry fails => rfl
  | failed fault problem open_ => rfl
  | @gone l again absent dated entry stands =>
    have hagain : again ≠ other := by
      intro he
      rw [he] at stands
      have held : c.loaded.get? place ≠ none := by
        rw [entry]
        exact fun h => nomatch h
      exact h ⟨dated, held, absent, stands⟩
    show (c.loaded.erase again).get? other = c.loaded.get? other
    rw [Table.get?_erase, if_neg hagain]
  | reloaded time newer =>
    unfold reload
    cases EnvFile.load w place with
    | error failure => rfl
    | ok values =>
      show (c.loaded.insert place _).get? other = c.loaded.get? other
      rw [Table.get?_insert, if_neg (Ne.symm hne)]

/-- A place without detours stands for no other one. -/
theorem not_displaces_of_direct {p : Path} (hp : w.physical p = .ok place)
    (direct : w.IsDirect place) (root : place.anchor = .root) (hne : other ≠ place) :
    ¬ c.Displaces w place other := by
  intro h
  have hself := direct.physical (World.of_physical hp).2
  rw [h.stands, ← root] at hself
  exact hne (Except.ok.inj hself)

end Cache

/-! ## §4. Runs. -/

namespace Run

variable {r : Run} {place : Path} {l l' : Cache.Loaded} {i j : Nat}

/-- The entries stored between a moment and the next one. -/
def stored (r : Run) (k : Nat) : List Cache.Loaded :=
  match r.steps[k]? with
  | some x => (r.moment k).stored x
  | none => []

/-- A moment after which the entry of a place is gone. -/
def RemovesAt (r : Run) (place : Path) (k : Nat) : Prop :=
  (r.moment k).cache.loaded.get? place ≠ none ∧
    (r.moment (k + 1)).cache.loaded.get? place = none

/-- **THE LOG OF A RUN** has one entry for each that was stored, in order. -/
theorem log_moment (r : Run) (i : Nat) :
    (r.moment i).log =
      (List.range i).flatMap fun k => (r.stored k).map (r.moment k).storedEntry := by
  induction i with
  | zero => rfl
  | succ i ih =>
    rw [List.range_succ, List.flatMap_append, ← ih, List.flatMap_singleton, moment_succ, stored]
    cases hx : r.steps[i]? with
    | none => rw [List.map_nil, List.append_nil]
    | some x =>
      rcases (r.moment i).stored_cases x with ⟨hs, hl⟩ | ⟨l, hs, hl, -, -⟩
      · simp only [hs, hl, List.map_nil, List.append_nil]
      · simp only [hs, hl, List.map_cons, List.map_nil]

/-- A stored entry is there at the next moment, and later than the one it replaced. -/
theorem entry_of_stored (h : l ∈ r.stored i) :
    (r.moment (i + 1)).cache.loaded.get? l.place = some l ∧
      ∀ old, (r.moment i).cache.loaded.get? l.place = some old → old.modified < l.modified := by
  unfold stored at h
  cases hx : r.steps[i]? with
  | none => rw [hx] at h; cases h
  | some x =>
    rw [hx] at h
    rw [moment_succ, hx]
    rcases (r.moment i).stored_cases x with ⟨hs, -⟩ | ⟨l', hs, -, hentry, hnewer⟩
    · simp only [hs] at h
      cases h
    · simp only [hs, List.mem_singleton] at h
      subst h
      exact ⟨hentry, hnewer⟩

/-- As long as its place keeps an entry, this is not earlier than it was. -/
theorem exists_later_entry (hij : i ≤ j) (entry : (r.moment i).cache.loaded.get? place = some l)
    (kept : ∀ k, i ≤ k → k < j → ¬ r.RemovesAt place k) :
    ∃ l', (r.moment j).cache.loaded.get? place = some l' ∧ l.modified ≤ l'.modified := by
  induction j with
  | zero =>
    have hi : i = 0 := by omega
    subst hi
    exact ⟨l, entry, Int.le_refl _⟩
  | succ j ih =>
    by_cases hlast : i = j + 1
    · subst hlast
      exact ⟨l, entry, Int.le_refl _⟩
    · obtain ⟨old, hold, hle⟩ := ih (by omega) fun k hik hkj => kept k hik (by omega)
      -- the step from here on does not remove it
      cases hnext : (r.moment (j + 1)).cache.loaded.get? place with
      | none =>
        have held : (r.moment j).cache.loaded.get? place ≠ none := by
          rw [hold]
          exact fun h => nomatch h
        exact absurd ⟨held, hnext⟩ (kept j (by omega) (by omega))
      | some l' =>
        refine ⟨l', rfl, Int.le_trans hle ?_⟩
        rw [moment_succ] at hnext
        cases hx : r.steps[j]? with
        | none =>
          rw [hx] at hnext
          rw [hold] at hnext
          cases hnext
          exact Int.le_refl _
        | some x =>
          rw [hx] at hnext
          exact Session.modified_le_of_step hold hnext

/-- What a request for a path of a place does to the entries. -/
theorem loaded_of_get {k : Nat} {p : Path} (hx : r.steps[k]? = some (.get p))
    (hp : (r.world k).physical p = .ok place) :
    (r.moment (k + 1)).cache.loaded =
      ((r.moment k).cache.getAt (r.world k) place).cache.loaded := by
  have hp' : (r.moment k).world.physical p = .ok place := hp
  rw [moment_succ, hx]
  show ((r.moment k).cache.get (r.moment k).world p).cache.loaded = _
  rw [Cache.get, hp']
  rfl

/-- What dropping the entry of a path of a place does to the entries. -/
theorem loaded_of_invalidate {k : Nat} {p : Path} (hx : r.steps[k]? = some (.invalidate p))
    (hp : (r.world k).physical p = .ok place) :
    (r.moment (k + 1)).cache.loaded = (r.moment k).cache.loaded.erase place := by
  have hp' : (r.moment k).world.physical p = .ok place := hp
  rw [moment_succ, hx]
  simp only [Session.step, Cache.invalidate, hp']

/-- **THE HISTORY OF A CACHE.**  An entry has the place it is kept under, and was loaded by an
earlier request, with the time and the values the file had then.  Up to a removal the times of
a place's entries grow.  The log has one entry for each that was stored.  A request leaves the
entries of other places alone: unless its file is gone and its place, which then keeps its
entry, stands for another one, which loses it; a place without detours never does.  Dropping a
path touches the entry of its place alone. -/
theorem entries_eq_history (r : Run) :
    (∀ i place l, (r.moment i).cache.loaded.get? place = some l → l.place = place ∧
      ∃ j < i, ∃ p, r.steps[j]? = some (.get p) ∧ (r.world j).physical p = .ok place ∧
        (r.world j).modified place = .ok l.modified ∧
        EnvFile.load (r.world j) place = .ok l.values) ∧
    (∀ i j l l', i < j → l ∈ r.stored i → l' ∈ r.stored j → l.place = l'.place →
      (∀ k, i < k → k < j → ¬ r.RemovesAt l.place k) → l.modified < l'.modified) ∧
    (∀ k p place, r.steps[k]? = some (.get p) → (r.world k).physical p = .ok place →
      ∀ other, other ≠ place →
        (¬ (r.moment k).cache.Displaces (r.world k) place other →
          (r.moment (k + 1)).cache.loaded.get? other =
            (r.moment k).cache.loaded.get? other) ∧
        ((r.moment k).cache.Displaces (r.world k) place other →
          (r.moment (k + 1)).cache.loaded.get? other = none ∧
          (r.moment (k + 1)).cache.loaded.get? place =
            (r.moment k).cache.loaded.get? place) ∧
        ((r.world k).IsDirect place → place.anchor = .root →
          ¬ (r.moment k).cache.Displaces (r.world k) place other)) ∧
    (∀ k p place, r.steps[k]? = some (.invalidate p) → (r.world k).physical p = .ok place →
      ∀ other, other ≠ place → (r.moment (k + 1)).cache.loaded.get? other =
        (r.moment k).cache.loaded.get? other) ∧
    ∀ i, (r.moment i).log = (List.range i).flatMap fun k => (r.stored k).map fun l =>
      Cache.loadEntry r.policy ((r.moment k).cache.loaded.contains l.place) l.place l.values := by
  refine ⟨fun i place l h => ?_, fun i j l l' hij hl hl' hplace kept => ?_,
    fun k p place hx hp other hne => ⟨fun h => ?_, fun h => ?_, fun direct root => ?_⟩,
    fun k p place hx hp other hne => ?_, fun i => ?_⟩
  · obtain ⟨j, hji, x, hx, loads⟩ := loaded_of_entry h
    obtain ⟨p, rfl, hp⟩ := loads.asked
    exact ⟨loads.kept, j, hji, p, hx, hp, loads.modified, loads.values⟩
  · -- the first one is there at the next moment, and what is there grows up to the second
    obtain ⟨old, hold, hle⟩ := exists_later_entry (show i + 1 ≤ j by omega)
      (entry_of_stored hl).1 fun k hik hkj => kept k (by omega) hkj
    rw [hplace] at hold
    have hlt := (entry_of_stored hl').2 old hold
    omega
  · rw [loaded_of_get hx hp]
    exact Cache.get?_getAt_of_not_displaces hne h
  · rw [loaded_of_get hx hp, h.loaded, Table.get?_erase, Table.get?_erase, if_pos rfl, if_neg hne]
    exact ⟨rfl, rfl⟩
  · exact Cache.not_displaces_of_direct hp direct root hne
  · rw [loaded_of_invalidate hx hp, Table.get?_erase, if_neg (Ne.symm hne)]
  · have logged (k : Nat) : (r.moment k).storedEntry = fun l =>
        Cache.loadEntry r.policy ((r.moment k).cache.loaded.contains l.place) l.place
          l.values := by
      funext l
      rw [Session.storedEntry, policy_moment]
    simp only [log_moment, logged]

/-- A file, a link to it, and a link to itself: a path that leads out of the loop again is
resolved to the link as it is. -/
def linkedTree : FileSystem :=
  ⟨Table.ofList [(["t"], .file oldBytes 100), (["f"], .link "t"), (["loop"], .link "loop")]⟩

/-- The link and the file are loaded; then the file is removed and the link asked for. -/
def displaced : Run where
  start := ⟨linkedTree, ⟨[], 0⟩, .empty, .none, 0⟩
  policy := .mtime
  steps := [.get ⟨.root, ["loop", "..", "f"]⟩, .get ⟨.root, ["t"]⟩,
    .change (.remove ⟨.root, ["t"]⟩), .get ⟨.root, ["loop", "..", "f"]⟩]

/-- A request for the link drops the entry of the file it named, and the link keeps its own
although there is nothing any more. -/
theorem entries_eq_history_displaced :
    (displaced.world 3).physical ⟨.root, ["loop", "..", "f"]⟩ = .ok ⟨.root, ["f"]⟩ ∧
      (displaced.moment 3).cache.loaded.get? ⟨.root, ["t"]⟩ ≠ none ∧
      (displaced.moment 4).cache.loaded.get? ⟨.root, ["t"]⟩ = none ∧
      (displaced.moment 4).cache.loaded.get? ⟨.root, ["f"]⟩ ≠ none := by
  have hplace : (displaced.world 3).physical ⟨.root, ["loop", "..", "f"]⟩ =
      .ok ⟨.root, ["f"]⟩ := by decide +kernel
  have hdisplaces : (displaced.moment 3).cache.Displaces (displaced.world 3) ⟨.root, ["f"]⟩
      ⟨.root, ["t"]⟩ :=
    ⟨rfl, by decide +kernel, by decide +kernel, by decide +kernel⟩
  obtain ⟨-, -, frame, -, -⟩ := entries_eq_history displaced
  have hlost := (frame 3 _ _ rfl hplace ⟨.root, ["t"]⟩ (by decide)).2.1 hdisplaces
  refine ⟨hplace, by decide +kernel, hlost.1, ?_⟩
  rw [hlost.2]
  decide +kernel

end Run

end Cascade
