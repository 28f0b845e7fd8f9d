/-
  Cascade.Proofs.NearestFile
  ────────────────────────────────
  **THE NEAREST FILE.**

  A search starts at the physical start directory and goes up to the root.
  The directories it looks in are the path and each path above it, none of
  them twice, so that a guard against directories met before has nothing to
  do (`Path.climb_eq_ancestors`).  The first of them with a regular file of
  the name is the answer (`EnvFile.firstFile_eq_some_iff`).

  One thing ends a search before: a candidate whose path or name is longer
  than the system takes is a problem, not an absence.

  A physical place without detours is the only one for its directory, and so
  is each directory above it (`World.IsPhysical.eq_of_arrives`,
  `World.IsPhysical.ancestor`): what is above it as a path is above it in the
  tree.
-/
import Mathlib.Data.List.Nodup
import Cascade.Proofs.CacheHistory

namespace Cascade

open Cascade.Text
open Cascade.Files

namespace Path

/-! ## §1. The directories above. -/

/-- The path some levels up. -/
def ancestor (p : Path) (levels : Nat) : Path := ⟨p.anchor, p.parts.take (p.parts.length - levels)⟩

/-- The climb from a path, with the paths that were visited before: it ends at one of those,
or at a path that is its own parent. -/
def climb (visited : List Path) (p : Path) : List Path :=
  if p ∈ visited then []
  else if p.parts = [] then [p]
  else p :: climb (p :: visited) p.parent
termination_by p.parts.length
decreasing_by
  have hpos : 0 < p.parts.length := List.length_pos_of_ne_nil ‹_›
  show p.parts.dropLast.length < p.parts.length
  rw [List.length_dropLast]
  omega

/-- A path is its own parent when it has no parts. -/
theorem parent_eq_self_iff (p : Path) : p.parent = p ↔ p.parts = [] := by
  constructor
  · intro h
    have hlen := congrArg (fun q : Path => q.parts.length) h
    simp only [parent, List.length_dropLast] at hlen
    exact List.eq_nil_of_length_eq_zero (by omega)
  · intro h
    cases p
    subst h
    rfl

/-- The parent of a path is one level up. -/
theorem ancestor_parent (p : Path) (levels : Nat) :
    p.parent.ancestor levels = p.ancestor (levels + 1) := by
  unfold ancestor
  congr 1
  show p.parts.dropLast.take (p.parts.dropLast.length - levels) = _
  rw [List.length_dropLast, List.dropLast_eq_take, List.take_take]
  congr 1
  omega

/-- **THE PATHS ABOVE A PATH**, level by level, up to the one without parts. -/
theorem ancestors_eq (p : Path) :
    p.ancestors = (List.range (p.parts.length + 1)).map p.ancestor := by
  unfold ancestors
  generalize hn : p.parts.length = n
  induction n generalizing p with
  | zero =>
    show [p] = [p.ancestor 0]
    unfold ancestor
    rw [hn, List.take_of_length_le (by omega)]
  | succ n ih =>
    have hparts : ¬ p.parent = p := by
      rw [parent_eq_self_iff]
      intro h
      rw [h] at hn
      cases hn
    have hlen : p.parent.parts.length = n := by
      show p.parts.dropLast.length = n
      rw [List.length_dropLast]
      omega
    have hself : p.ancestor 0 = p := by
      unfold ancestor
      rw [List.take_of_length_le (by omega)]
    rw [upwards, if_neg hparts, ih p.parent hlen, List.range_succ_eq_map (n := n + 1),
      List.map_cons, hself, List.map_map]
    congr 1
    apply List.map_congr_left
    intro k hk
    exact ancestor_parent p k

/-- No path is met twice on the way up. -/
theorem nodup_ancestors (p : Path) : p.ancestors.Nodup := by
  rw [ancestors_eq]
  apply List.Nodup.map_on _ List.nodup_range
  intro i hi j hj h
  rw [List.mem_range] at hi hj
  have hlen := congrArg (fun q : Path => q.parts.length) h
  simp only [ancestor, List.length_take] at hlen
  omega

/-- The way up ends at the root. -/
theorem getLast?_ancestors (p : Path) : p.ancestors.getLast? = some ⟨p.anchor, []⟩ := by
  rw [ancestors_eq, List.range_succ, List.map_append, List.map_singleton, List.getLast?_concat]
  unfold ancestor
  rw [Nat.sub_self, List.take_zero]

/-- A guard against longer paths, visited before, never ends the climb. -/
theorem climb_of_longer {visited : List Path} {p : Path}
    (longer : ∀ q ∈ visited, p.parts.length < q.parts.length) :
    climb visited p = p.ancestors := by
  have hnew : p ∉ visited := fun h => Nat.lt_irrefl _ (longer p h)
  unfold ancestors
  generalize hn : p.parts.length = n
  induction n generalizing p visited with
  | zero =>
    have hparts : p.parts = [] := List.eq_nil_of_length_eq_zero hn
    rw [climb, if_neg hnew, if_pos hparts]
    rfl
  | succ n ih =>
    have hparts : ¬ p.parts = [] := by
      intro h
      rw [h] at hn
      cases hn
    have hlen : p.parent.parts.length = n := by
      show p.parts.dropLast.length = n
      rw [List.length_dropLast]
      omega
    -- the parent is shorter than the path, and than everything before
    have hlonger : ∀ q ∈ p :: visited, p.parent.parts.length < q.parts.length := by
      intro q hq
      rcases List.mem_cons.1 hq with rfl | hq
      · omega
      · have hlt := longer q hq
        omega
    have hrest := ih hlonger (fun h => Nat.lt_irrefl _ (hlonger _ h)) hlen
    rw [climb, if_neg hnew, if_neg hparts, upwards, if_neg (mt (parent_eq_self_iff p).1 hparts),
      hrest]

/-- **THE GUARD HAS NOTHING TO DO**: a climb meets no path again. -/
theorem climb_eq_ancestors (p : Path) : climb [] p = p.ancestors :=
  climb_of_longer fun _ h => absurd h List.not_mem_nil

end Path

/-! ## §2. Looking for a file. -/

namespace FileSystem

variable {fs : FileSystem} {cwd : Position} {follows : Bool} {links : Nat} {place : Location}
  {parts : List Text} {p : Path} {problem : Problem}

/-- A walk of parts that does not arrive finds something missing, or a name that is too
long, when the walks of links do. -/
theorem problem_of_walkParts
    {follow : Location → List Text → Except Problem (Location × Option Node)}
    (hfollow : ∀ {place parts problem}, follow place parts = .error problem →
      problem.isAbsence = true ∨ problem = .nameTooLong)
    (h : fs.walkParts follows follow place parts = .error problem) :
    problem.isAbsence = true ∨ problem = .nameTooLong := by
  induction parts generalizing place with
  | nil => cases h
  | cons part rest ih =>
    rw [walkParts] at h
    split at h
    · cases h
      split
      · exact .inl rfl
      · exact .inl rfl
    · split at h
      · exact ih h
      · split at h
        · exact ih h
        · split at h
          · cases h; exact .inr rfl
          · simp only at h
            split at h
            · split at h
              · cases h
              · cases h; exact .inl rfl
            · split at h
              · cases h
              · split at h
                · cases h; exact .inl rfl
                · exact hfollow h
            · exact ih h

/-- A walk that does not arrive finds something missing, or a name that is too long. -/
theorem problem_of_walkFrom (h : fs.walkFrom follows links place parts = .error problem) :
    problem.isAbsence = true ∨ problem = .nameTooLong := by
  induction links generalizing place parts problem with
  | zero => exact problem_of_walkParts (fun h => by cases h; exact .inl rfl) h
  | succ links ih => exact problem_of_walkParts (fun h => ih h) h

/-- What is looked for in a removed directory is missing. -/
theorem problem_of_leave {at' : Position} (h : leave at' parts = .error problem) :
    problem = .notFound := by
  induction parts generalizing at' with
  | nil => cases h
  | cons part rest ih =>
    rw [leave] at h
    split at h
    · cases h
    · split at h
      · exact ih h
      · cases h; rfl

/-- **WHY NOTHING IS FOUND** along a path: it is absent, or too long to be looked at. -/
theorem absent_or_long_of_stat (h : fs.stat cwd p = .error problem) :
    problem.isAbsence = true ∨ problem = .nameTooLong := by
  have hwalk : fs.walk cwd true p = .error problem ∨ problem = .notFound := by
    unfold stat at h
    cases hw : fs.walk cwd true p with
    | error problem' => rw [hw] at h; cases h; exact .inl rfl
    | ok found =>
      obtain ⟨position, node?⟩ := found
      rw [hw] at h
      cases node? with
      | some node => cases h
      | none => cases h; exact .inr rfl
  rcases hwalk with hw | rfl
  · unfold walk at hw
    split at hw
    · rename_i hbytes
      cases hw
      have hu := isUnusable_of_systemBytes hbytes
      left
      cases problem <;> first | rfl | exact hu
    · split at hw
      · cases hw; exact .inr rfl
      · split at hw
        · rename_i hstart
          cases hw
          unfold startOf at hstart
          split at hstart
          · exact .inl (problem_of_leave hstart ▸ rfl)
          · cases hstart
        · rename_i start parts _
          cases hfrom : fs.walkFrom true linkLimit start (parts.map Utf8.settledName) with
          | error problem' => rw [hfrom] at hw; cases hw; exact problem_of_walkFrom hfrom
          | ok found => rw [hfrom] at hw; cases hw
        · cases hw
  · exact .inl rfl

end FileSystem

namespace World

variable {w : World} {p : Path}

/-- A path that leads to a regular file, links followed. -/
def IsRegular (w : World) (p : Path) : Prop :=
  ∃ content time, w.files.stat w.cwd p = .ok (.file content time)

/-- A path that cannot be looked at because it, or a name in it, is too long. -/
def IsTooLong (w : World) (p : Path) : Prop := w.files.stat w.cwd p = .error .nameTooLong

/-- A path that a search passes by: it can be looked at, and leads to no regular file. -/
def Passes (w : World) (p : Path) : Prop := ¬ w.IsRegular p ∧ ¬ w.IsTooLong p

/-- There is no regular file where nothing can be looked at. -/
theorem not_isRegular {problem : Problem} (h : w.files.stat w.cwd p = .error problem) :
    ¬ w.IsRegular p := by
  rintro ⟨content, time, hs⟩
  rw [h] at hs
  cases hs

/-- **LOOKING FOR A FILE** has three outcomes. -/
theorem isFile_cases (w : World) (p : Path) :
    (w.isFile p = .ok true ∧ w.IsRegular p) ∨ (w.isFile p = .ok false ∧ w.Passes p) ∨
      (w.isFile p = .error .nameTooLong ∧ w.IsTooLong p) := by
  unfold Passes isFile FileSystem.isFile IsTooLong IsRegular
  cases hs : w.files.stat w.cwd p with
  | ok node =>
    cases node with
    | file content time => exact .inl ⟨rfl, content, time, rfl⟩
    | directory time =>
      exact .inr (.inl ⟨rfl, (fun ⟨_, _, h⟩ => by cases h), fun h => by cases h⟩)
    | link target =>
      exact .inr (.inl ⟨rfl, (fun ⟨_, _, h⟩ => by cases h), fun h => by cases h⟩)
  | error problem =>
    rcases FileSystem.absent_or_long_of_stat hs with habsent | rfl
    · refine .inr (.inl ⟨by simp only [habsent, if_true], (fun ⟨_, _, h⟩ => by cases h), ?_⟩)
      intro h
      cases h
      cases habsent
    · exact .inr (.inr ⟨rfl, rfl⟩)

end World

namespace EnvFile

variable {w : World} {name : Path} {dirs : List Path} {d : Path}

/-- The directory at which a search for a name ends: those before it are passed by. -/
def Stops (w : World) (name : Path) (dirs : List Path) (d : Path) : Prop :=
  ∃ before after, dirs = before ++ d :: after ∧ ∀ q ∈ before, w.Passes (q.append name)

/-- A search ends at the first directory, or passes it by and ends in the rest. -/
theorem stops_cons_iff {first : Path} :
    Stops w name (first :: dirs) d ↔
      d = first ∨ (w.Passes (first.append name) ∧ Stops w name dirs d) := by
  constructor
  · rintro ⟨before, after, h, passed⟩
    cases before with
    | nil => exact .inl (List.cons.inj h).1.symm
    | cons q before =>
      obtain ⟨rfl, rfl⟩ := List.cons.inj h
      exact .inr ⟨passed first List.mem_cons_self, before, after, rfl,
        fun q hq => passed q (List.mem_cons_of_mem first hq)⟩
  · rintro (rfl | ⟨passes, before, after, rfl, passed⟩)
    · exact ⟨[], dirs, rfl, fun _ h => absurd h List.not_mem_nil⟩
    · refine ⟨first :: before, after, rfl, fun q hq => ?_⟩
      rcases List.mem_cons.1 hq with rfl | hq
      · exact passes
      · exact passed q hq

/-- A search ends at one of the directories. -/
theorem Stops.mem (h : Stops w name dirs d) : d ∈ dirs := by
  obtain ⟨before, after, rfl, -⟩ := h
  exact List.mem_append_right _ List.mem_cons_self

/-- A search ends at one directory only, that it does not pass by. -/
theorem Stops.unique {d' : Path} (h : Stops w name dirs d) (hd : ¬ w.Passes (d.append name))
    (h' : Stops w name dirs d') (hd' : ¬ w.Passes (d'.append name)) : d = d' := by
  induction dirs with
  | nil => exact absurd h.mem List.not_mem_nil
  | cons first rest ih =>
    rcases stops_cons_iff.1 h with rfl | ⟨passes, h⟩
    · rcases stops_cons_iff.1 h' with rfl | ⟨passes, -⟩
      · rfl
      · exact absurd passes hd
    · rcases stops_cons_iff.1 h' with rfl | ⟨-, h'⟩
      · exact absurd passes hd'
      · exact ih h h'

/-- **THE FIRST FILE**: what a search for a name in directories comes to. -/
theorem firstFile_cases (w : World) (name : Path) (dirs : List Path) :
    (∃ d, Stops w name dirs d ∧ w.IsRegular (d.append name) ∧
        firstFile w (dirs.map fun d => d.append name) = .ok (some (d.append name))) ∨
      (∃ d, Stops w name dirs d ∧ w.IsTooLong (d.append name) ∧
        firstFile w (dirs.map fun d => d.append name) =
          .error (.files ⟨.nameTooLong, [(d.append name).text]⟩)) ∨
      ((∀ d ∈ dirs, w.Passes (d.append name)) ∧
        firstFile w (dirs.map fun d => d.append name) = .ok none) := by
  induction dirs with
  | nil => exact .inr (.inr ⟨fun _ h => absurd h List.not_mem_nil, rfl⟩)
  | cons first rest ih =>
    rw [List.map_cons, firstFile]
    rcases w.isFile_cases (first.append name) with ⟨h, regular⟩ | ⟨h, passes⟩ | ⟨h, long⟩
    · exact .inl ⟨first, stops_cons_iff.2 (.inl rfl), regular, by rw [h]⟩
    · rw [h]
      rcases ih with ⟨d, stops, regular, hd⟩ | ⟨d, stops, long, hd⟩ | ⟨all, hd⟩
      · exact .inl ⟨d, stops_cons_iff.2 (.inr ⟨passes, stops⟩), regular, hd⟩
      · exact .inr (.inl ⟨d, stops_cons_iff.2 (.inr ⟨passes, stops⟩), long, hd⟩)
      · refine .inr (.inr ⟨fun d hd => ?_, hd⟩)
        rcases List.mem_cons.1 hd with rfl | hd
        · exact passes
        · exact all d hd
    · exact .inr (.inl ⟨first, stops_cons_iff.2 (.inl rfl), long, by rw [h]⟩)

/-- A search finds the file of the directory at which it ends. -/
theorem firstFile_eq_some_iff {p : Path} :
    firstFile w (dirs.map fun d => d.append name) = .ok (some p) ↔
      ∃ d, Stops w name dirs d ∧ p = d.append name ∧ w.IsRegular p := by
  constructor
  · intro h
    rcases firstFile_cases w name dirs with ⟨d, stops, regular, hd⟩ | ⟨d, -, -, hd⟩ | ⟨-, hd⟩
    · rw [hd] at h
      cases h
      exact ⟨d, stops, rfl, regular⟩
    · rw [hd] at h; cases h
    · rw [hd] at h; cases h
  · rintro ⟨d, stops, rfl, regular⟩
    have hd : ¬ w.Passes (d.append name) := fun h => h.1 regular
    rcases firstFile_cases w name dirs with
      ⟨d', stops', regular', h⟩ | ⟨d', stops', long, h⟩ | ⟨all, -⟩
    · rw [h, stops.unique hd stops' fun h => h.1 regular']
    · have hsame := stops.unique hd stops' fun h => h.2 long
      rw [← hsame] at long
      exact absurd regular (World.not_isRegular long)
    · exact absurd (all d stops.mem) hd

/-- A search finds nothing when it passes by all directories. -/
theorem firstFile_eq_none_iff :
    firstFile w (dirs.map fun d => d.append name) = .ok none ↔
      ∀ d ∈ dirs, w.Passes (d.append name) := by
  rcases firstFile_cases w name dirs with ⟨d, stops, regular, h⟩ | ⟨d, stops, long, h⟩ | ⟨all, h⟩
  · rw [h]
    exact ⟨(fun h => nomatch h), fun all => absurd regular (all d stops.mem).1⟩
  · rw [h]
    exact ⟨(fun h => nomatch h), fun all => absurd long (all d stops.mem).2⟩
  · exact ⟨fun _ => all, fun _ => h⟩

/-- A search fails where the path it would look at is too long. -/
theorem firstFile_eq_error_iff {failure : Failure} :
    firstFile w (dirs.map fun d => d.append name) = .error failure ↔
      ∃ d, Stops w name dirs d ∧ w.IsTooLong (d.append name) ∧
        failure = .files ⟨.nameTooLong, [(d.append name).text]⟩ := by
  constructor
  · intro h
    rcases firstFile_cases w name dirs with ⟨d, -, -, hd⟩ | ⟨d, stops, long, hd⟩ | ⟨-, hd⟩
    · rw [hd] at h; cases h
    · rw [hd] at h
      cases h
      exact ⟨d, stops, long, rfl⟩
    · rw [hd] at h; cases h
  · rintro ⟨d, stops, long, rfl⟩
    have hd : ¬ w.Passes (d.append name) := fun h => h.2 long
    rcases firstFile_cases w name dirs with
      ⟨d', stops', regular, h⟩ | ⟨d', stops', long', h⟩ | ⟨all, -⟩
    · have hsame := stops.unique hd stops' fun h => h.1 regular
      rw [← hsame] at regular
      exact absurd regular (World.not_isRegular long)
    · rw [h, stops.unique hd stops' fun h => h.2 long']
    · exact absurd (all d stops.mem) hd

end EnvFile

/-! ## §3. Physical places. -/

namespace World

variable {w : World} {p place place' : Path} {position : Position}

/-- A path that is a physical place: it starts at the root with a single slash, its names are
spelled as they are read back, only directories lead to it, and it is no link. -/
structure IsPhysical (w : World) (place : Path) : Prop where
  direct : w.IsDirect place
  spelled : place = .ofLocation place.place

/-- A path that leads to something at a position, links followed. -/
def Arrives (w : World) (p : Path) (position : Position) : Prop :=
  ∃ node, w.files.walk w.cwd true p = .ok (position, some node)

/-- A physical place is where it says. -/
theorem IsPhysical.position_eq (h : w.IsPhysical place) (arrives : w.Arrives place position) :
    position = ⟨place.place, 0⟩ := by
  obtain ⟨node, hw⟩ := arrives
  rcases FileSystem.walk_of_passes w.cwd true h.direct.absolute h.direct.passes
    h.direct.unlinked with h' | ⟨problem, h', -⟩
  · rw [h'] at hw
    exact (Prod.mk.inj (Except.ok.inj hw)).1.symm
  · rw [h'] at hw
    cases hw

/-- **A POSITION HAS ONE PHYSICAL PLACE.** -/
theorem IsPhysical.eq_of_arrives (h : w.IsPhysical place) (h' : w.IsPhysical place')
    (arrives : w.Arrives place position) (arrives' : w.Arrives place' position) :
    place = place' := by
  have hsame := (h.position_eq arrives).symm.trans (h'.position_eq arrives')
  rw [h.spelled, h'.spelled, (Position.mk.inj hsame).1]

/-- The place of a path some levels up is that many levels above. -/
theorem place_ancestor (p : Path) (levels : Nat) :
    (p.ancestor levels).place = p.place.take (p.parts.length - levels) := by
  unfold Path.place Path.ancestor
  exact List.map_take

/-- Names that pass through directories do so up to every one of them, and what they have
passed are directories. -/
theorem passes_take {names : List Text} (h : w.files.passes [] names = true) (n : Nat) :
    w.files.passes [] (names.take n) = true ∧
      (n < names.length → w.files.isDirectoryAt (names.take n) = true) := by
  rw [← List.take_append_drop n names, FileSystem.passes_append, Bool.and_eq_true,
    List.nil_append] at h
  refine ⟨h.1, fun hn => ?_⟩
  have hrest := h.2
  cases hd : names.drop n with
  | nil =>
    have hlen := congrArg List.length hd
    rw [List.length_drop, List.length_nil] at hlen
    omega
  | cons name rest =>
    rw [hd, FileSystem.passes, Bool.and_eq_true, Bool.and_eq_true] at hrest
    exact hrest.1.1

/-- **WHAT IS ABOVE A PHYSICAL PLACE AS A PATH** is so in the tree: a physical place of its
own, and a directory. -/
theorem IsPhysical.ancestor (h : w.IsPhysical place) (levels : Nat) :
    w.IsPhysical (place.ancestor levels) ∧
      (0 < levels → place.parts ≠ [] →
        w.files.isDirectoryAt (place.ancestor levels).place = true) := by
  have hlen : place.place.length = place.parts.length := List.length_map _
  obtain ⟨passes, directory⟩ := passes_take h.direct.passes (place.parts.length - levels)
  have hplace := place_ancestor place levels
  rw [← hplace] at passes directory
  have hbelow : 0 < levels → place.parts ≠ [] →
      place.parts.length - levels < place.place.length := by
    intro hlevels hparts
    have hpos := List.length_pos_of_ne_nil hparts
    omega
  refine ⟨⟨⟨h.direct.absolute, passes, fun target hn => ?_⟩, ?_⟩,
    fun hlevels hparts => directory (hbelow hlevels hparts)⟩
  · by_cases hlt : place.parts.length - levels < place.place.length
    · -- a directory is no link
      have hdir := directory hlt
      unfold FileSystem.isDirectoryAt at hdir
      rw [hn] at hdir
      cases hdir
    · rw [hplace, List.take_of_length_le (by omega)] at hn
      exact h.direct.unlinked target hn
  · have hparts : place.parts = place.place := congrArg Path.parts h.spelled
    have hanchor : place.anchor = .root := congrArg Path.anchor h.spelled
    rw [hplace]
    unfold Path.ancestor Path.ofLocation
    rw [hanchor, ← hparts]

/-- A physical place is taken by the system. -/
theorem isTaken_of_physical (h : w.physical p = .ok place) : IsTaken place.text :=
  isTaken_of_usable (of_physical h).2

/-- What is above a physical place is resolved to itself. -/
theorem IsPhysical.physical_ancestor (h : w.IsPhysical place) (hp : w.physical p = .ok place)
    (levels : Nat) : w.physical (place.ancestor levels) = .ok (place.ancestor levels) := by
  have habove := (h.ancestor levels).1
  have hanchor : place.anchor = .root := congrArg Path.anchor h.spelled
  have taken : IsTaken (place.ancestor levels).text := by
    have hparts : ∀ part ∈ (place.ancestor levels).parts, part ∈ place.parts :=
      fun part hpart => List.mem_of_mem_take hpart
    have htext := Path.isTaken_of_parts (isTaken_of_physical hp) h.direct.absolute hparts
    unfold Path.ancestor at htext ⊢
    rwa [hanchor]
  rw [World.physical, FileSystem.physical_of_passes taken habove.direct.absolute
    habove.direct.passes habove.direct.unlinked]
  unfold Path.ancestor
  rw [hanchor]
  rfl

end World

namespace EnvFile

/-! ## §4. The search. -/

section

variable {w : World} {start place : Path}

/-- The directories of a search are the physical start directory and those above it. -/
theorem searchDirs_eq (home : start.homeUser? = none) (resolved : w.physical start = .ok place) :
    searchDirs w start = .ok place.ancestors := by
  have hhome : w.expandHome start = .ok start := by
    unfold World.expandHome
    rw [home]
  unfold searchDirs
  rw [hhome]
  simp only [bind, Except.bind, resolved]
  rfl

/-- The nearest file is the first one in these directories. -/
theorem locate_eq (home : start.homeUser? = none) (resolved : w.physical start = .ok place)
    (name : Path) :
    locate w start name = firstFile w (place.ancestors.map fun d => d.append name) := by
  unfold locate
  rw [searchDirs_eq home resolved]
  rfl

/-- **THE NEAREST FILE.**  A search looks in the physical start directory and then in each
directory above it, level by level, in none of them twice, and last in the root; a guard
against directories it has been to changes nothing.  If the start directory is a physical
place, so is each of these, and what is above it as a path is so in the tree.  The answer is
the file of the name in the first directory that has one, and none when no directory has; only
a path that is too long to be looked at ends the search before.  Where the same place, or the
same physical directory, is the start, the answer is the same. -/
theorem locate_eq_nearest (home : start.homeUser? = none)
    (resolved : w.physical start = .ok place) :
    (searchDirs w start = .ok place.ancestors ∧ Path.climb [] place = place.ancestors ∧
      place.ancestors = (List.range (place.parts.length + 1)).map place.ancestor ∧
      place.ancestors.Nodup ∧ place.ancestors.getLast? = some ⟨place.anchor, []⟩) ∧
    (w.IsPhysical place → ∀ levels, w.IsPhysical (place.ancestor levels) ∧
      w.physical (place.ancestor levels) = .ok (place.ancestor levels) ∧
      (place.ancestor levels).place = place.place.take (place.place.length - levels) ∧
      (0 < levels → place.parts ≠ [] →
        w.files.isDirectoryAt (place.ancestor levels).place = true)) ∧
    (∀ name,
      (∀ p, locate w start name = .ok (some p) ↔
        ∃ d, Stops w name place.ancestors d ∧ p = d.append name ∧ w.IsRegular p) ∧
      (locate w start name = .ok none ↔ ∀ d ∈ place.ancestors, w.Passes (d.append name)) ∧
      ∀ failure, locate w start name = .error failure ↔
        ∃ d, Stops w name place.ancestors d ∧ w.IsTooLong (d.append name) ∧
          failure = .files ⟨.nameTooLong, [(d.append name).text]⟩) ∧
    ∀ start' place' name, start'.homeUser? = none → w.physical start' = .ok place' →
      (place' = place ∨ w.IsPhysical place ∧ w.IsPhysical place' ∧
        ∃ position, w.Arrives place position ∧ w.Arrives place' position) →
      locate w start' name = locate w start name := by
  refine ⟨⟨searchDirs_eq home resolved, place.climb_eq_ancestors, place.ancestors_eq,
    place.nodup_ancestors, place.getLast?_ancestors⟩, fun h levels => ?_, fun name => ?_,
    fun start' place' name home' resolved' same => ?_⟩
  · have hlen : place.place.length = place.parts.length := List.length_map _
    rw [hlen]
    exact ⟨(h.ancestor levels).1, h.physical_ancestor resolved levels,
      World.place_ancestor place levels, (h.ancestor levels).2⟩
  · rw [locate_eq home resolved]
    exact ⟨fun p => firstFile_eq_some_iff, firstFile_eq_none_iff,
      fun failure => firstFile_eq_error_iff⟩
  · have hplace : place' = place := by
      rcases same with h | ⟨h, h', position, arrives, arrives'⟩
      · exact h
      · exact h'.eq_of_arrives h arrives' arrives
    rw [locate_eq home resolved, locate_eq home' resolved', hplace]

end

/-- A directory with a file and a directory in it, a link to the latter, and a link to
itself. -/
def linkedDirs : World where
  files := ⟨Table.ofList [(["d"], .directory 0), (["d", "e"], .directory 0),
    (["d", ".env"], .file Run.oldBytes 100), (["f"], .link "d/e"), (["loop"], .link "loop")]⟩
  cwd := ⟨[], 0⟩
  environ := .empty
  users := .none
  now := 0

/-- From the link the file of the directory above the linked one is found: that of the root
would be above the link. -/
theorem locate_eq_nearest_linkedDirs :
    locate linkedDirs ⟨.root, ["f"]⟩ ⟨.relative, [".env"]⟩ =
      .ok (some ⟨.root, ["d", ".env"]⟩) := by
  have hplace : linkedDirs.physical ⟨.root, ["f"]⟩ = .ok ⟨.root, ["d", "e"]⟩ := by
    decide +kernel
  have home : (Path.mk .root ["f"]).homeUser? = none := by decide
  obtain ⟨-, -, answers, -⟩ := locate_eq_nearest home hplace
  apply ((answers ⟨.relative, [".env"]⟩).1 _).2
  refine ⟨⟨.root, ["d"]⟩, ⟨[⟨.root, ["d", "e"]⟩], [⟨.root, []⟩], by decide, ?_⟩, by decide,
    Run.oldBytes, 100, by decide +kernel⟩
  intro q hq
  rw [List.mem_singleton.1 hq]
  have absent : linkedDirs.files.stat linkedDirs.cwd ⟨.root, ["d", "e", ".env"]⟩ =
      .error .notFound := by decide +kernel
  exact ⟨World.not_isRegular absent, fun long => absurd (absent.symm.trans long) (by decide)⟩

/-- A name that is longer than the system takes. -/
def longName : Path := ⟨.relative, [List.replicate 256 (.char 'a')]⟩

/-- Two things that do not hold: a search for a name that is too long fails where there is no
file, and two paths into one directory find different files when the one of them was left a
link by a detour. -/
theorem not_nearest_linkedDirs :
    (¬ ∀ (w : World) (start place name : Path), start.homeUser? = none →
        w.physical start = .ok place →
        (locate w start name = .ok none ↔
          ∀ d ∈ place.ancestors, ¬ w.IsRegular (d.append name))) ∧
      ¬ ∀ (w : World) (start start' place place' name : Path) (position : Position),
        start.homeUser? = none → w.physical start = .ok place → w.Arrives place position →
        start'.homeUser? = none → w.physical start' = .ok place' → w.Arrives place' position →
        locate w start' name = locate w start name := by
  constructor
  · intro h
    have hlong := (h linkedDirs ⟨.root, ["d"]⟩ ⟨.root, ["d"]⟩ longName (by decide)
      (by decide +kernel)).2 ?_
    · exact absurd hlong (by decide +kernel)
    · intro d hd
      have hd' : d = ⟨.root, ["d"]⟩ ∨ d = ⟨.root, []⟩ := by
        have hlist : (⟨.root, ["d"]⟩ : Path).ancestors = [⟨.root, ["d"]⟩, ⟨.root, []⟩] := by
          decide
        rw [hlist, List.mem_pair] at hd
        exact hd
      rcases hd' with rfl | rfl
      · have hlong : linkedDirs.files.stat linkedDirs.cwd
            ((⟨.root, ["d"]⟩ : Path).append longName) = .error .nameTooLong := by decide +kernel
        exact World.not_isRegular hlong
      · have hlong : linkedDirs.files.stat linkedDirs.cwd
            ((⟨.root, []⟩ : Path).append longName) = .error .nameTooLong := by decide +kernel
        exact World.not_isRegular hlong
  · intro h
    have hsame := h linkedDirs ⟨.root, ["f"]⟩ ⟨.root, ["loop", "..", "f"]⟩
      ⟨.root, ["d", "e"]⟩ ⟨.root, ["f"]⟩ ⟨.relative, [".env"]⟩ ⟨["d", "e"], 0⟩ (by decide)
      (by decide +kernel) ⟨.directory 0, by decide +kernel⟩ (by decide) (by decide +kernel)
      ⟨.directory 0, by decide +kernel⟩
    exact absurd hsame (by decide +kernel)

end EnvFile

end Cascade
