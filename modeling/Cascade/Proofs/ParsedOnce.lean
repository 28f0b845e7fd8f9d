/-
  Cascade.Proofs.ParsedOnce
  ────────────────────────────────
  **NO FILE IS PARSED TWICE.**

  While the files stay as they are, every entry of a cache is what loading
  its place would give (`Cache.Current`), so a place with an entry is never
  loaded again, under either policy.  A call loads the place it reaches just
  when something is there and no earlier call has reached it
  (`Series.loads_iff`).

  Calls reach places in many ways: by requests and by searches, from any
  working directory, through links and `..`.  Places that are physical are
  one for each file.  One in which resolving has left a link, that begins
  with `//`, or with a name that is not spelled as it is read back, is a
  further one for its file, with an entry of its own.
-/
import Cascade.Proofs.FailedLoad
import Cascade.Proofs.NearestFile
import Cascade.Proofs.Walks

namespace Cascade

open Cascade.Text
open Cascade.Files

/-! ## §1. What is seen from anywhere. -/

namespace FileSystem

variable {fs : FileSystem} {p : Path}

/-- A path from the root leads where it does from any working directory. -/
theorem walk_of_absolute (ha : p.anchor ≠ .relative) (cwd cwd' : Position) (follows : Bool) :
    fs.walk cwd follows p = fs.walk cwd' follows p := by
  unfold walk startOf
  rw [if_neg ha, if_neg ha]

/-- What is found at a path from the root is the same from any working directory. -/
theorem stat_of_absolute (ha : p.anchor ≠ .relative) (cwd cwd' : Position) :
    fs.stat cwd p = fs.stat cwd' p := by
  unfold stat
  rw [walk_of_absolute ha cwd cwd']

end FileSystem

namespace World

variable {w v : World} {p p' : Path} {position : Position}

/-- Something is found at a path: it has a modification time. -/
def Shows (w : World) (p : Path) : Prop := ∃ m, w.modified p = .ok m

/-- In worlds with the same files, a path from the root has the same modification time. -/
theorem modified_of_files (hw : w.files = v.files) (ha : p.anchor ≠ .relative) :
    w.modified p = v.modified p := by
  unfold modified FileSystem.modified
  rw [hw, FileSystem.stat_of_absolute ha w.cwd v.cwd]

/-- What two paths lead to at one position is one node. -/
theorem Arrives.stat_eq (ha : p.anchor ≠ .relative) (ha' : p'.anchor ≠ .relative)
    (h : w.Arrives p position) (h' : w.Arrives p' position) :
    ∃ node, w.files.stat w.cwd p = .ok node ∧ w.files.stat w.cwd p' = .ok node := by
  obtain ⟨node, hw⟩ := h
  obtain ⟨node', hw'⟩ := h'
  have hplaced : p.IsPlaced w.cwd := fun h => absurd h ha
  have hplaced' : p'.IsPlaced w.cwd := fun h => absurd h ha'
  obtain ⟨-, l, -, hl, hn⟩ := (FileSystem.walk_eq_ok_iff hplaced).1 hw
  obtain ⟨-, l', -, hl', hn'⟩ := (FileSystem.walk_eq_ok_iff hplaced').1 hw'
  have hsame : l = l' := (Position.mk.inj (hl.symm.trans hl')).1
  rw [← hsame] at hn'
  have hnode : node' = node := Option.some.inj (hn'.trans hn.symm)
  unfold FileSystem.stat
  rw [hw, hw', hnode]
  exact ⟨node, rfl, rfl⟩

end World

namespace EnvFile

variable {w v : World} {p p' : Path}

/-- In worlds with the same files, the same is loaded from a path from the root. -/
theorem load_of_files (hw : w.files = v.files) (ha : p.anchor ≠ .relative) :
    load w p = load v p := by
  unfold load World.isFile FileSystem.isFile World.read FileSystem.read
  rw [hw, FileSystem.stat_of_absolute ha w.cwd v.cwd]

/-- Two paths to one node load the same mapping. -/
theorem load_of_stat {node : Node} (h : w.files.stat w.cwd p = .ok node)
    (h' : w.files.stat w.cwd p' = .ok node) {values values' : Mapping Value}
    (loaded : load w p = .ok values) (loaded' : load w p' = .ok values') : values = values' := by
  unfold load World.isFile FileSystem.isFile World.read FileSystem.read at loaded loaded'
  rw [h] at loaded
  rw [h'] at loaded'
  cases node with
  | directory time => exact Except.ok.inj (loaded.symm.trans loaded')
  | link target => exact Except.ok.inj (loaded.symm.trans loaded')
  | file content time =>
    -- only the failures tell the path
    simp only [bind, Except.bind, pure, Except.pure] at loaded loaded'
    cases hd : Dotenv.decode content with
    | error fault => rw [hd] at loaded; cases loaded
    | ok found =>
      rw [hd] at loaded loaded'
      exact Except.ok.inj (loaded.symm.trans loaded')

end EnvFile

/-! ## §2. Calls. -/

/-- A call: a request for a path, or a search for the nearest file of a name. -/
inductive Query
  | get (p : Path)
  | find (start name : Path)

namespace Query

variable {q : Query} {c : Cache} {w : World} {place : Path} {values : Mapping Value}

/-- The outcome of a call. -/
def ask (q : Query) (c : Cache) (w : World) : Cache.Fetched :=
  match q with
  | .get p => c.get w p
  | .find start name => c.find w start name

/-- A call that asks for a place in the end. -/
def Reaches (q : Query) (w : World) (place : Path) : Prop :=
  match q with
  | .get p => w.physical p = .ok place
  | .find start name => ∃ p, EnvFile.locate w start name = .ok (some p) ∧ w.physical p = .ok place

/-- A place that is asked for is a path from the root. -/
theorem Reaches.absolute (h : q.Reaches w place) : place.anchor ≠ .relative := by
  cases q with
  | get p => exact (World.of_physical h).1
  | find start name =>
    obtain ⟨p, -, hp⟩ := h
    exact (World.of_physical hp).1

/-- A call asks for one place. -/
theorem Reaches.unique {place' : Path} (h : q.Reaches w place) (h' : q.Reaches w place') :
    place = place' := by
  cases q with
  | get p => exact Except.ok.inj (h.symm.trans h')
  | find start name =>
    obtain ⟨p, hl, hp⟩ := h
    obtain ⟨p', hl', hp'⟩ := h'
    have hsame : p = p' := Option.some.inj (Except.ok.inj (hl.symm.trans hl'))
    rw [← hsame] at hp'
    exact Except.ok.inj (hp.symm.trans hp')

/-- A call that asks for a place is a request for it. -/
theorem ask_of_reaches (h : q.Reaches w place) : q.ask c w = c.getAt w place := by
  cases q with
  | get p =>
    show c.get w p = _
    rw [Cache.get, show w.physical p = .ok place from h]
  | find start name =>
    obtain ⟨p, hl, hp⟩ := h
    show c.find w start name = _
    rw [Cache.find, hl]
    show c.get w p = _
    rw [Cache.get, hp]

/-- A call that asks for no place and is answered finds nothing, and changes nothing. -/
theorem ask_of_not_reaches (h : ∀ place, ¬ q.Reaches w place)
    (answered : (q.ask c w).answer = .ok values) : q.ask c w = c.unchanged (.ok .empty) := by
  cases q with
  | get p =>
    have hask : (Query.get p).ask c w = c.get w p := rfl
    rw [hask, Cache.get] at answered ⊢
    cases hp : w.physical p with
    | ok place => exact absurd hp (h place)
    | error failure => rw [hp] at answered; cases answered
  | find start name =>
    have hask : (Query.find start name).ask c w = c.find w start name := rfl
    rw [hask, Cache.find] at answered ⊢
    cases hl : EnvFile.locate w start name with
    | error failure => rw [hl] at answered; cases answered
    | ok found =>
      rw [hl] at answered
      cases found with
      | none => rfl
      | some p =>
        -- what is found has a place, or the request for it fails
        simp only [Cache.get] at answered
        cases hp : w.physical p with
        | ok place => exact absurd ⟨p, hl, hp⟩ (h place)
        | error failure => rw [hp] at answered; cases answered

end Query

/-! ## §3. One call. -/

namespace Cache

variable {c : Cache} {w v : World} {place : Path} {values : Mapping Value}

/-- A cache whose entries are what loading their places gives. -/
def Current (c : Cache) (v : World) : Prop :=
  ∀ {place l}, c.loaded.get? place = some l →
    v.modified place = .ok l.modified ∧ EnvFile.load v place = .ok l.values

/-- The outcome of loading a place that has no entry. -/
def firstLoad (c : Cache) (place : Path) (m : Int) (values : Mapping Value) : Fetched :=
  ⟨.ok values, { c with loaded := c.loaded.insert place ⟨place, m, values⟩ },
    [loadEntry c.policy false place values], some place⟩

/-- **ONE REQUEST WHILE THE FILES STAND.**  It answers what loading its place gives; and it
loads the place just when something is there and there is no entry for it. -/
theorem Current.getAt (current : c.Current v) (hw : w.files = v.files)
    (ha : place.anchor ≠ .relative) (answered : (c.getAt w place).answer = .ok values) :
    EnvFile.load v place = .ok values ∧
      (((c.loaded.get? place ≠ none ∨ ¬ v.Shows place) ∧
          c.getAt w place = c.unchanged (.ok values)) ∨
        (c.loaded.get? place = none ∧ ∃ m, v.modified place = .ok m ∧
          c.getAt w place = c.firstLoad place m values)) := by
  have hs := served_getAt c w place
  have hmodified := World.modified_of_files hw ha
  have hload := EnvFile.load_of_files hw ha
  generalize c.getAt w place = f at hs answered ⊢
  cases hs with
  | held entry stands =>
    cases answered
    refine ⟨(current entry).2, .inl ⟨.inl ?_, rfl⟩⟩
    rw [entry]
    exact Option.some_ne_none _
  | nothing absent unheld =>
    cases answered
    rw [hmodified] at absent
    have hmissing : v.files.stat v.cwd place = .error .notFound := by
      rcases FileSystem.stat_of_not_modified absent with hs | ⟨hne, -⟩
      · exact hs
      · cases hne
    refine ⟨EnvFile.load_of_notFound hmissing, .inl ⟨.inr ?_, rfl⟩⟩
    rintro ⟨m, time⟩
    rw [absent] at time
    cases time
  | gone absent dated entry stands =>
    -- what an entry is for is still there
    rw [hmodified, (current entry).1] at absent
    cases absent
  | lost absent entry fails => cases answered
  | failed fault other open_ => cases answered
  | @reloaded m time newer =>
    rw [hmodified] at time
    have unheld : c.loaded.get? place = none := by
      cases entry : c.loaded.get? place with
      | none => rfl
      | some l =>
        have hlt := (newer l entry).2
        have htime := Except.ok.inj (time.symm.trans (current entry).1)
        omega
    rw [unheld] at answered ⊢
    unfold reload at answered ⊢
    cases hl : EnvFile.load w place with
    | error failure => rw [hl] at answered; cases answered
    | ok loaded =>
      rw [hl] at answered
      cases answered
      exact ⟨hload ▸ hl, .inr ⟨rfl, m, time, rfl⟩⟩

/-- An entry that is made as its file is loaded keeps a cache current. -/
theorem Current.firstLoad (current : c.Current v) {m : Int} (time : v.modified place = .ok m)
    (loads : EnvFile.load v place = .ok values) :
    (c.firstLoad place m values).cache.Current v := by
  intro place' l entry
  change (c.loaded.insert place ⟨place, m, values⟩).get? place' = some l at entry
  rw [Table.get?_insert] at entry
  split at entry
  · next heq =>
    subst heq
    cases entry
    exact ⟨time, loads⟩
  · exact current entry

end Cache

/-- **ONE CALL WHILE THE FILES STAND.**  It keeps a cache current, and leaves an entry for the
place it asks for if something is there. -/
theorem Query.ask_of_current {q : Query} {c : Cache} {w v : World} {values : Mapping Value}
    (current : c.Current v) (hw : w.files = v.files) (answer : (q.ask c w).answer = .ok values) :
    (q.ask c w).cache.policy = c.policy ∧ (q.ask c w).cache.Current v ∧
      ∀ place, (q.ask c w).cache.loaded.get? place ≠ none ↔
        c.loaded.get? place ≠ none ∨ (q.Reaches w place ∧ v.Shows place) := by
  by_cases hreach : ∃ asked, q.Reaches w asked
  · obtain ⟨asked, reaches⟩ := hreach
    rw [ask_of_reaches reaches] at answer ⊢
    obtain ⟨loads, ⟨stands, h⟩ | ⟨unheld, m, time, h⟩⟩ :=
      current.getAt hw reaches.absolute answer
    · rw [h]
      refine ⟨rfl, current, fun place => ⟨fun entry => .inl entry, ?_⟩⟩
      rintro (entry | ⟨asks, shows⟩)
      · exact entry
      · -- what is asked for has its entry already, or is not there
        rw [asks.unique reaches] at shows ⊢
        rcases stands with entry | absent
        · exact entry
        · exact absurd shows absent
    · rw [h]
      refine ⟨rfl, current.firstLoad time loads, fun place => ?_⟩
      show (c.loaded.insert asked _).get? place ≠ none ↔ _
      rw [Table.get?_insert]
      split
      · next heq =>
        subst heq
        exact ⟨fun _ => .inr ⟨reaches, m, time⟩, fun _ => Option.some_ne_none _⟩
      · next hne =>
        constructor
        · intro entry
          exact .inl entry
        · rintro (entry | ⟨asks, -⟩)
          · exact entry
          · exact absurd (reaches.unique asks) hne
  · have unreached (place : Path) : ¬ q.Reaches w place := fun h => hreach ⟨place, h⟩
    rw [ask_of_not_reaches unreached answer]
    refine ⟨rfl, current, fun place => ⟨fun entry => .inl entry, ?_⟩⟩
    rintro (entry | ⟨asks, -⟩)
    · exact entry
    · exact absurd asks (unreached place)

/-! ## §4. Calls one after another. -/

/-- Calls on one cache, each in a world of its own: the working directory, the variables and
the time may be others, but the files stay as they are. -/
structure Series where
  files : FileSystem
  policy : Policy
  calls : List (World × Query)
  still : ∀ call ∈ calls, call.1.files = files

namespace Series

variable {s : Series} {i j k : Nat} {w : World} {q : Query} {place place' : Path}

/-- The files, looked at from the root. -/
def here (s : Series) : World := ⟨s.files, ⟨[], 0⟩, .empty, .none, 0⟩

/-- The cache after the first `k` calls on an empty one. -/
def cacheAt (s : Series) (k : Nat) : Cache :=
  (s.calls.take k).foldl (fun c call => (call.2.ask c call.1).cache) (.new s.policy)

/-- No call fails. -/
def Answered (s : Series) : Prop :=
  ∀ (k : Nat) (w : World) (q : Query), s.calls[k]? = some (w, q) →
    ∃ values, (q.ask (s.cacheAt k) w).answer = .ok values

/-- The call that asks for a place. -/
def Reaches (s : Series) (k : Nat) (place : Path) : Prop :=
  ∃ w q, s.calls[k]? = some (w, q) ∧ q.Reaches w place

/-- The call for which a place is loaded. -/
def Loads (s : Series) (k : Nat) (place : Path) : Prop :=
  ∃ w q, s.calls[k]? = some (w, q) ∧ (q.ask (s.cacheAt k) w).opened = some place

/-- What is loaded for a call. -/
theorem loads_iff_opened (called : s.calls[k]? = some (w, q)) :
    s.Loads k place ↔ (q.ask (s.cacheAt k) w).opened = some place := by
  constructor
  · rintro ⟨w', q', h, opened⟩
    rw [called] at h
    cases h
    exact opened
  · intro h
    exact ⟨w, q, called, h⟩

/-- What a call asks for. -/
theorem reaches_iff (called : s.calls[k]? = some (w, q)) :
    s.Reaches k place ↔ q.Reaches w place := by
  constructor
  · rintro ⟨w', q', h, reaches⟩
    rw [called] at h
    cases h
    exact reaches
  · intro h
    exact ⟨w, q, called, h⟩

/-- Two places that are of one file: they are the same, or they are physical and lead to one
position. -/
def OneFile (s : Series) (place place' : Path) : Prop :=
  place = place' ∨ (s.here.IsPhysical place ∧ s.here.IsPhysical place' ∧
    ∃ position, s.here.Arrives place position ∧ s.here.Arrives place' position)

/-- Places of one file are the same. -/
theorem OneFile.eq (h : s.OneFile place place') : place = place' := by
  rcases h with h | ⟨physical, physical', position, arrives, arrives'⟩
  · exact h
  · exact physical.eq_of_arrives physical' arrives arrives'

/-- A cache comes from the one before it by a call. -/
theorem cacheAt_succ (called : s.calls[k]? = some (w, q)) :
    s.cacheAt (k + 1) = (q.ask (s.cacheAt k) w).cache := by
  unfold cacheAt
  rw [List.take_add_one, called, Option.toList_some, List.foldl_append]
  rfl

/-- After the last call nothing changes. -/
theorem cacheAt_succ_of_none (h : s.calls[k]? = none) : s.cacheAt (k + 1) = s.cacheAt k := by
  unfold cacheAt
  rw [List.take_add_one, h, Option.toList_none, List.append_nil]

/-- A place that was reached was so by the last call, or before. -/
theorem exists_reaches_lt_succ (place : Path) (k : Nat) :
    (∃ i < k + 1, s.Reaches i place) ↔ (∃ i < k, s.Reaches i place) ∨ s.Reaches k place := by
  constructor
  · rintro ⟨i, hi, h⟩
    rcases Nat.lt_succ_iff_lt_or_eq.1 hi with hi | rfl
    · exact .inl ⟨i, hi, h⟩
    · exact .inr h
  · rintro (⟨i, hi, h⟩ | h)
    · exact ⟨i, by omega, h⟩
    · exact ⟨k, by omega, h⟩

/-- **WHAT THE CACHE IS AFTER SOME CALLS**: its policy is that of the series, its entries are
current, and there is one for each place that was reached and at which something is. -/
theorem cacheAt_spec (answered : s.Answered) (k : Nat) :
    (s.cacheAt k).policy = s.policy ∧ (s.cacheAt k).Current s.here ∧
      ∀ place, (s.cacheAt k).loaded.get? place ≠ none ↔
        (∃ i < k, s.Reaches i place) ∧ s.here.Shows place := by
  induction k with
  | zero =>
    refine ⟨rfl, fun entry => (by cases entry), fun place => ⟨fun h => absurd rfl h, ?_⟩⟩
    rintro ⟨⟨i, hi, -⟩, -⟩
    exact absurd hi (Nat.not_lt_zero i)
  | succ k ih =>
    obtain ⟨policy, current, held⟩ := ih
    simp only [exists_reaches_lt_succ, or_and_right]
    cases hcall : s.calls[k]? with
    | none =>
      rw [cacheAt_succ_of_none hcall]
      refine ⟨policy, current, fun place => ?_⟩
      rw [held, or_iff_left]
      rintro ⟨⟨w, q, h, -⟩, -⟩
      rw [hcall] at h
      cases h
    | some call =>
      obtain ⟨w, q⟩ := call
      obtain ⟨values, answer⟩ := answered k w q hcall
      have hfiles : w.files = s.here.files := s.still _ (List.mem_of_getElem? hcall)
      obtain ⟨policy', current', held'⟩ := Query.ask_of_current current hfiles answer
      rw [cacheAt_succ hcall]
      refine ⟨policy'.trans policy, current', fun place => ?_⟩
      rw [held', held, reaches_iff hcall]

/-- **WHAT A CALL DOES**: it answers from its cache, or loads the place it asks for, which is there
and has no entry. -/
theorem ask_cases (answered : s.Answered) (called : s.calls[k]? = some (w, q)) :
    ((∃ values, q.ask (s.cacheAt k) w = (s.cacheAt k).unchanged (.ok values)) ∧
        ∀ place, q.Reaches w place →
          (s.cacheAt k).loaded.get? place ≠ none ∨ ¬ s.here.Shows place) ∨
      ∃ place m values, q.Reaches w place ∧ (s.cacheAt k).loaded.get? place = none ∧
        s.here.modified place = .ok m ∧
        q.ask (s.cacheAt k) w = (s.cacheAt k).firstLoad place m values := by
  obtain ⟨-, current, -⟩ := cacheAt_spec answered k
  obtain ⟨values, answer⟩ := answered k w q called
  have hfiles : w.files = s.here.files := s.still _ (List.mem_of_getElem? called)
  by_cases hreach : ∃ asked, q.Reaches w asked
  · obtain ⟨asked, reaches⟩ := hreach
    rw [Query.ask_of_reaches reaches] at answer ⊢
    obtain ⟨-, ⟨stands, h⟩ | ⟨unheld, m, time, h⟩⟩ :=
      current.getAt hfiles reaches.absolute answer
    · refine .inl ⟨⟨values, h⟩, fun place asks => ?_⟩
      rw [asks.unique reaches]
      exact stands
    · exact .inr ⟨asked, m, values, reaches, unheld, time, h⟩
  · have unreached (place : Path) : ¬ q.Reaches w place := fun h => hreach ⟨place, h⟩
    exact .inl ⟨⟨.empty, Query.ask_of_not_reaches unreached answer⟩,
      fun place asks => absurd asks (unreached place)⟩

/-- **WHICH CALLS LOAD A PLACE**: the first one that asks for it, if something is there. -/
theorem loads_iff (answered : s.Answered) :
    s.Loads k place ↔
      s.Reaches k place ∧ s.here.Shows place ∧ ∀ i < k, ¬ s.Reaches i place := by
  obtain ⟨-, -, held⟩ := cacheAt_spec answered k
  constructor
  · rintro ⟨w, q, called, opened⟩
    rcases ask_cases answered called with ⟨⟨values, h⟩, -⟩ | ⟨asked, m, values, asks, unheld, time, h⟩
    · rw [h] at opened
      cases opened
    · rw [h] at opened
      cases opened
      have shows : s.here.Shows place := ⟨m, time⟩
      exact ⟨⟨w, q, called, asks⟩, shows,
        fun i hi before => (held place).2 ⟨⟨i, hi, before⟩, shows⟩ unheld⟩
  · rintro ⟨⟨w, q, called, reaches⟩, shows, first⟩
    rw [loads_iff_opened called]
    rcases ask_cases answered called with ⟨-, stands⟩ | ⟨asked, m, values, asks, -, -, h⟩
    · rcases stands place reaches with entry | absent
      · obtain ⟨⟨i, hi, before⟩, -⟩ := (held place).1 entry
        exact absurd before (first i hi)
      · exact absurd shows absent
    · rw [h, reaches.unique asks]
      rfl

/-- A load shows in the log, and nothing else does. -/
theorem log_eq_nil_iff (answered : s.Answered) (called : s.calls[k]? = some (w, q)) :
    (q.ask (s.cacheAt k) w).log = [] ↔ ∀ place, ¬ s.Loads k place := by
  simp only [loads_iff_opened called]
  rcases ask_cases answered called with ⟨⟨values, h⟩, -⟩ | ⟨asked, m, values, -, -, -, h⟩
  · rw [h]
    exact iff_of_true rfl fun place opened => nomatch opened
  · rw [h]
    exact iff_of_false (List.cons_ne_nil _ _) fun unopened => unopened asked rfl

/-- What a call answers: what loading the place it asks for gives. -/
theorem answer_of_reaches (answered : s.Answered) (called : s.calls[k]? = some (w, q))
    (reaches : q.Reaches w place) :
    (q.ask (s.cacheAt k) w).answer = EnvFile.load s.here place := by
  obtain ⟨-, current, -⟩ := cacheAt_spec answered k
  obtain ⟨values, answer⟩ := answered k w q called
  have hfiles : w.files = s.here.files := s.still _ (List.mem_of_getElem? called)
  rw [Query.ask_of_reaches reaches] at answer ⊢
  rw [answer, (current.getAt hfiles reaches.absolute answer).1]

/-- Calls whose places lead to one position are answered alike. -/
theorem answer_eq_of_arrives {w' : World} {q' : Query} {position : Position}
    (answered : s.Answered) (called : s.calls[i]? = some (w, q))
    (called' : s.calls[j]? = some (w', q')) (reaches : q.Reaches w place)
    (reaches' : q'.Reaches w' place') (arrives : s.here.Arrives place position)
    (arrives' : s.here.Arrives place' position) :
    (q.ask (s.cacheAt i) w).answer = (q'.ask (s.cacheAt j) w').answer := by
  obtain ⟨values, answer⟩ := answered i w q called
  obtain ⟨values', answer'⟩ := answered j w' q' called'
  obtain ⟨node, hs, hs'⟩ := arrives.stat_eq reaches.absolute reaches'.absolute arrives'
  have loads := (answer_of_reaches answered called reaches).symm.trans answer
  have loads' := (answer_of_reaches answered called' reaches').symm.trans answer'
  rw [answer, answer', EnvFile.load_of_stat hs hs' loads loads']

/-- **NO FILE IS PARSED TWICE.**  Of calls on one cache that do not fail, while the files stay
as they are, the first one that asks for a place loads it if something is there, and no other
one does.  So no file is loaded by two calls, be it that both ask for one place, or for
physical places that lead to one position.  All calls whose places lead to one position are
answered alike, as loading their place would answer, and a call that finds no file answers the
empty mapping.  What is logged shows the loads.  The cache has one entry for each place at
which something was found, and of the physical ones no two are of one file. -/
theorem parsed_once (s : Series) (answered : s.Answered) :
    (∀ k place, s.Loads k place ↔
      s.Reaches k place ∧ s.here.Shows place ∧ ∀ i < k, ¬ s.Reaches i place) ∧
    (∀ i j place place', s.Loads i place → s.Loads j place' → s.OneFile place place' → i = j) ∧
    (∀ (i j : Nat) (w w' : World) (q q' : Query) (place place' : Path) (position : Position),
      s.calls[i]? = some (w, q) → s.calls[j]? = some (w', q') →
      q.Reaches w place → q'.Reaches w' place' →
      s.here.Arrives place position → s.here.Arrives place' position →
      (q.ask (s.cacheAt i) w).answer = (q'.ask (s.cacheAt j) w').answer) ∧
    (∀ (k : Nat) (w : World) (q : Query), s.calls[k]? = some (w, q) →
      (∀ place, q.Reaches w place →
        (q.ask (s.cacheAt k) w).answer = EnvFile.load s.here place) ∧
      ((∀ place, ¬ q.Reaches w place) →
        q.ask (s.cacheAt k) w = (s.cacheAt k).unchanged (.ok .empty)) ∧
      ((q.ask (s.cacheAt k) w).log = [] ↔ ∀ place, ¬ s.Loads k place)) ∧
    ∀ k, (s.cacheAt k).loaded.keys.Nodup ∧
      (∀ place, place ∈ (s.cacheAt k).loaded.keys ↔
        (∃ i < k, s.Reaches i place) ∧ s.here.Shows place) ∧
      ∀ place ∈ (s.cacheAt k).loaded.keys, ∀ place' ∈ (s.cacheAt k).loaded.keys,
        s.OneFile place place' → place = place' := by
  refine ⟨fun k place => loads_iff answered, fun i j place place' loads loads' one => ?_,
    fun i j w w' q q' place place' position called called' reaches reaches' arrives arrives' =>
      answer_eq_of_arrives answered called called' reaches reaches' arrives arrives',
    fun k w q called => ⟨fun place reaches => answer_of_reaches answered called reaches,
      fun unreached => ?_, log_eq_nil_iff answered called⟩,
    fun k => ⟨(s.cacheAt k).loaded.nodup_keys, fun place => ?_,
      fun place _ place' _ one => one.eq⟩⟩
  · rw [← one.eq] at loads'
    obtain ⟨reaches, -, first⟩ := (loads_iff answered).1 loads
    obtain ⟨reaches', -, first'⟩ := (loads_iff answered).1 loads'
    -- of two calls that ask for one place, the later one does not load it
    rcases Nat.lt_trichotomy i j with hlt | heq | hlt
    · exact absurd reaches (first' i hlt)
    · exact heq
    · exact absurd reaches' (first j hlt)
  · obtain ⟨values, answer⟩ := answered k w q called
    exact Query.ask_of_not_reaches unreached answer
  · rw [← (cacheAt_spec answered k).2.2 place, Ne, Table.get?_eq_none_iff, not_not]

/-- Three calls for the file above a directory: a search from that directory, a search from the
one above the working directory, and a request along a link. -/
def threeWays : Series where
  files := EnvFile.linkedDirs.files
  policy := .mtime
  calls :=
    [(EnvFile.linkedDirs, .find ⟨.relative, ["d", "e"]⟩ ⟨.relative, [".env"]⟩),
      ({ EnvFile.linkedDirs with cwd := ⟨["d", "e"], 0⟩ },
        .find ⟨.relative, [".."]⟩ ⟨.relative, [".env"]⟩),
      (EnvFile.linkedDirs, .get ⟨.root, ["f", "..", ".env"]⟩)]
  still := by decide

/-- The first of them loads the file, and the last one does not, under another spelling. -/
theorem parsed_once_threeWays :
    threeWays.Loads 0 ⟨.root, ["d", ".env"]⟩ ∧ ¬ threeWays.Loads 2 ⟨.root, ["d", ".env"]⟩ ∧
      ⟨.root, ["d", ".env"]⟩ ∈ (threeWays.cacheAt 3).loaded.keys := by
  have answered : threeWays.Answered := by
    intro k w q called
    have hk : k < 3 := (List.getElem?_eq_some_iff.1 called).1
    refine ⟨Table.ofList [("A", .int 1)], ?_⟩
    obtain rfl | rfl | rfl : k = 0 ∨ k = 1 ∨ k = 2 := by omega
    · cases called; decide +kernel
    · cases called; decide +kernel
    · cases called; decide +kernel
  obtain ⟨loads, -, -, -, entries⟩ := parsed_once threeWays answered
  have shows : threeWays.here.Shows ⟨.root, ["d", ".env"]⟩ := ⟨100, by decide +kernel⟩
  have reaches : threeWays.Reaches 0 ⟨.root, ["d", ".env"]⟩ :=
    ⟨_, _, rfl, ⟨.root, ["d", ".env"]⟩, by decide +kernel, by decide +kernel⟩
  refine ⟨(loads 0 _).2 ⟨reaches, shows, fun i hi => absurd hi (Nat.not_lt_zero i)⟩,
    fun again => ?_, ((entries 3).2.1 _).2 ⟨⟨0, by decide, reaches⟩, shows⟩⟩
  obtain ⟨-, -, first⟩ := (loads 2 _).1 again
  exact first 0 (by decide) reaches

/-- A request for a link along a detour that leaves it a link, and one for its file. -/
def twoNames : Series where
  files := Run.linkedTree
  policy := .mtime
  calls :=
    [(⟨Run.linkedTree, ⟨[], 0⟩, .empty, .none, 0⟩, .get ⟨.root, ["loop", "..", "f"]⟩),
      (⟨Run.linkedTree, ⟨[], 0⟩, .empty, .none, 0⟩, .get ⟨.root, ["t"]⟩)]
  still := by decide

/-- Each of the two loads the file: that places lead to one position is not enough. -/
theorem not_parsed_once_twoNames :
    ¬ ∀ (s : Series), s.Answered → ∀ i j place place' position, s.Loads i place →
      s.Loads j place' → s.here.Arrives place position → s.here.Arrives place' position →
      i = j := by
  intro h
  have answered : twoNames.Answered := by
    intro k w q called
    have hk : k < 2 := (List.getElem?_eq_some_iff.1 called).1
    refine ⟨Table.ofList [("A", .int 1)], ?_⟩
    obtain rfl | rfl : k = 0 ∨ k = 1 := by omega
    · cases called; decide +kernel
    · cases called; decide +kernel
  have reachesLink : twoNames.Reaches 0 ⟨.root, ["f"]⟩ := by
    refine ⟨_, _, rfl, ?_⟩
    show World.physical _ _ = _
    decide +kernel
  have reachesFile : twoNames.Reaches 1 ⟨.root, ["t"]⟩ := by
    refine ⟨_, _, rfl, ?_⟩
    show World.physical _ _ = _
    decide +kernel
  have link : twoNames.Loads 0 ⟨.root, ["f"]⟩ :=
    (loads_iff answered).2 ⟨reachesLink, ⟨100, by decide +kernel⟩,
      fun i hi => absurd hi (Nat.not_lt_zero i)⟩
  have file : twoNames.Loads 1 ⟨.root, ["t"]⟩ := by
    refine (loads_iff answered).2 ⟨reachesFile, ⟨100, by decide +kernel⟩, fun i hi before => ?_⟩
    -- the call before it asked for the link
    obtain rfl : i = 0 := by omega
    obtain ⟨w, q, called, asks⟩ := before
    obtain ⟨w', q', called', asks'⟩ := reachesLink
    rw [called] at called'
    cases called'
    cases asks.unique asks'
  have hsame := h twoNames answered 0 1 _ _ ⟨["t"], 0⟩ link file
    ⟨.file Run.oldBytes 100, by decide +kernel⟩ ⟨.file Run.oldBytes 100, by decide +kernel⟩
  cases hsame

end Series

end Cascade
