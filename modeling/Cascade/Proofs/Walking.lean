/-
  Cascade.Proofs.Walking
  ────────────────────────────────
  **WALKS WITHOUT DETOURS.**

  A path that only directories lead to, name by name, is where it says: the
  walk ends at its place, with the node the tree has there, and nothing but
  its length can be in the way (`walk_of_passes`, `stat_of_passes`).

  What is loaded from such a path depends on what its place holds, the bytes
  of a file or a directory, and on nothing else (`load_of_holds`).
-/
import Cascade.Source.EnvFile

namespace Cascade

open Cascade.Text
open Cascade.Files

/-- Whether a part is looked up in a directory. -/
def Path.isName (part : Text) : Bool := !isStay part && part != up

/-- The place a path spells, part by part. -/
def Path.place (p : Path) : Location := p.parts.map Utf8.settledName

/-- What a place can hold for a reader: the bytes of a file, or a directory. -/
inductive Held
  | file (content : Bytes)
  | directory
  deriving DecidableEq

/-- What a node holds; a link holds nothing of its own. -/
def Node.held? : Node → Option Held
  | .file content _ => some (.file content)
  | .directory _ => some .directory
  | .link _ => none

/-- The modification time of a node; a link is not asked for its own. -/
def Node.time? : Node → Option Int
  | .file _ time => some time
  | .directory time => some time
  | .link _ => none

/-- A text that has bytes, none of which ends it. -/
def Files.IsTaken (t : Text) : Prop := ∃ bytes, systemBytes t = .ok bytes

namespace FileSystem

/-! ## §1. Walking. -/

/-- Whether names lead from a place on through directories alone. -/
def passes (fs : FileSystem) : Location → List Text → Bool
  | _, [] => true
  | place, name :: rest =>
    fs.isDirectoryAt place && Path.isName name && fs.passes (place ++ [name]) rest

/-- What a place holds to which directories alone lead. -/
def held? (fs : FileSystem) (l : Location) : Option Held :=
  if fs.passes [] l then (fs.node? l).bind Node.held? else none

variable {fs : FileSystem} {cwd : Position} {follows : Bool} {p : Path}

/-- Names that pass through directories are followed one by one. -/
theorem walkParts_of_passes
    (follow : Location → List Text → Except Problem (Location × Option Node))
    {names : List Text} {place : Location} (hp : fs.passes place names = true)
    (hl : ∀ target, fs.node? (place ++ names) ≠ some (.link target)) :
    fs.walkParts follows follow place names =
        .ok (place ++ names, fs.node? (place ++ names)) ∨
      fs.walkParts follows follow place names = .error .nameTooLong := by
  -- on the names, from any place on
  induction names generalizing place with
  | nil => exact .inl (by rw [walkParts, List.append_nil])
  | cons name rest ih =>
    simp only [passes, Bool.and_eq_true, Path.isName, Bool.not_eq_true', bne_iff_ne,
      ne_eq] at hp
    obtain ⟨⟨hd, hstay, hup⟩, hrest⟩ := hp
    have hsplit : place ++ name :: rest = place ++ [name] ++ rest := by
      rw [List.append_assoc, List.singleton_append]
    rw [hsplit] at hl ⊢
    simp only [walkParts, hd, not_true, if_false, hstay, Bool.false_eq_true, hup]
    by_cases hsize : partLimit < Utf8.nameSize name
    · exact .inr (by rw [if_pos hsize])
    · rw [if_neg hsize]
      -- a node that is no directory is the last one
      have last (h : fs.isDirectoryAt (place ++ [name]) = false) : rest = [] := by
        cases rest with
        | nil => rfl
        | cons name' rest' => simp [passes, h] at hrest
      cases hn : fs.node? (place ++ [name]) with
      | none =>
        have hr : rest = [] := last (by simp [isDirectoryAt, hn])
        subst hr
        exact .inl (by rw [List.append_nil, if_pos rfl, hn])
      | some node =>
        cases node with
        | link target =>
          -- a link would have to be the last node, and there is none
          have hr : rest = [] := last (by simp [isDirectoryAt, hn])
          subst hr
          rw [List.append_nil] at hl
          exact absurd hn (hl target)
        | file content time => exact ih hrest hl
        | directory time => exact ih hrest hl

/-- A problem with the bytes of a path keeps it from being looked at. -/
theorem isUnusable_of_systemBytes {t : Text} {problem : Problem}
    (h : systemBytes t = .error problem) : problem.isUnusable = true := by
  unfold systemBytes at h
  split at h
  · cases h; rfl
  · split at h
    · cases h; rfl
    · cases h

/-- A walk that directories lead along a path the system takes ends at the place the path
spells, unless it is too long. -/
theorem walk_of_taken (cwd : Position) (follows : Bool) (taken : IsTaken p.text)
    (ha : p.anchor ≠ .relative) (hp : fs.passes [] p.place = true)
    (hl : ∀ target, fs.node? p.place ≠ some (.link target)) :
    fs.walk cwd follows p = .ok (⟨p.place, 0⟩, fs.node? p.place) ∨
      fs.walk cwd follows p = .error .nameTooLong := by
  have hstart : startOf cwd p = .ok (⟨[], 0⟩, p.parts) := by rw [startOf, if_neg ha]
  obtain ⟨bytes, hb⟩ := taken
  unfold walk
  rw [hb]
  by_cases hlong : pathLimit ≤ bytes.length
  · exact .inr (by simp only [hlong, if_true])
  · simp only [hlong, if_false, hstart]
    -- no link is met, so how many could be followed makes no difference
    rcases walkParts_of_passes (fs.walkFrom follows 39) hp hl with h | h
    · exact .inl (by rw [linkLimit, walkFrom, ← Path.place, h]; rfl)
    · exact .inr (by rw [linkLimit, walkFrom, ← Path.place, h]; rfl)

/-- A walk that directories lead ends at the place the path spells, unless the path is too
long or cannot be looked at. -/
theorem walk_of_passes (cwd : Position) (follows : Bool) (ha : p.anchor ≠ .relative)
    (hp : fs.passes [] p.place = true)
    (hl : ∀ target, fs.node? p.place ≠ some (.link target)) :
    fs.walk cwd follows p = .ok (⟨p.place, 0⟩, fs.node? p.place) ∨
      ∃ problem, fs.walk cwd follows p = .error problem ∧
        (problem = .nameTooLong ∨ problem.isUnusable = true) := by
  cases hb : systemBytes p.text with
  | error problem =>
    exact .inr ⟨problem, by rw [walk, hb], .inr (isUnusable_of_systemBytes hb)⟩
  | ok bytes =>
    rcases walk_of_taken cwd follows ⟨bytes, hb⟩ ha hp hl with h | h
    · exact .inl h
    · exact .inr ⟨.nameTooLong, h, .inl rfl⟩

/-! ## §2. Looking. -/

/-- What is found along directories is what the tree has there. -/
theorem node?_of_stat (ha : p.anchor ≠ .relative) (hp : fs.passes [] p.place = true)
    (hl : ∀ target, fs.node? p.place ≠ some (.link target)) {node : Node}
    (h : fs.stat cwd p = .ok node) : fs.node? p.place = some node := by
  unfold stat at h
  rcases walk_of_passes cwd true ha hp hl with hw | ⟨problem, hw, -⟩
  · rw [hw] at h
    cases hn : fs.node? p.place with
    | none => rw [hn] at h; cases h
    | some found => rw [hn] at h; cases h; rfl
  · rw [hw] at h
    cases h

/-- Where directories lead and nothing is found, there is nothing, or the path is too long or
cannot be looked at. -/
theorem problem_of_stat (ha : p.anchor ≠ .relative) (hp : fs.passes [] p.place = true)
    (hl : ∀ target, fs.node? p.place ≠ some (.link target)) {problem : Problem}
    (h : fs.stat cwd p = .error problem) :
    problem = .notFound ∨ problem = .nameTooLong ∨ problem.isUnusable = true := by
  unfold stat at h
  rcases walk_of_passes cwd true ha hp hl with hw | ⟨problem', hw, hc⟩
  · rw [hw] at h
    cases hn : fs.node? p.place with
    | none => rw [hn] at h; cases h; exact .inl rfl
    | some found => rw [hn] at h; cases h
  · rw [hw] at h
    cases h
    exact .inr hc

/-- What has a modification time has been found. -/
theorem stat_of_modified {m : Int} (h : fs.modified cwd p = .ok m) :
    ∃ node, fs.stat cwd p = .ok node ∧ node.time? = some m := by
  unfold modified at h
  cases hs : fs.stat cwd p with
  | error problem => rw [hs] at h; cases h
  | ok node =>
    rw [hs] at h
    cases node with
    | link target => cases h
    | file content time => cases h; exact ⟨_, rfl, rfl⟩
    | directory time => cases h; exact ⟨_, rfl, rfl⟩

/-- What has no modification time has not been found, or is a link. -/
theorem stat_of_not_modified {problem : Problem} (h : fs.modified cwd p = .error problem) :
    fs.stat cwd p = .error problem ∨
      problem = .tooManyLinks ∧ ∃ target, fs.stat cwd p = .ok (.link target) := by
  unfold modified at h
  cases hs : fs.stat cwd p with
  | error problem' => rw [hs] at h; cases h; exact .inl rfl
  | ok node =>
    rw [hs] at h
    cases node with
    | link target => cases h; exact .inr ⟨rfl, target, rfl⟩
    | file content time => cases h
    | directory time => cases h

/-- A physical place is a path from the root, and it can be handed to the system. -/
theorem of_physical {place : Path} (h : fs.physical cwd p = .ok place) :
    place.anchor ≠ .relative ∧
      ∀ problem, fs.stat cwd place = .error problem → problem.isUnusable = false := by
  unfold physical at h
  split at h
  · cases h
  · split at h
    · cases h
    · next found _ _ _ place' hplace =>
      have hanchor : place'.anchor ≠ .relative := by
        -- taken from a working directory that has a place, or absolute already
        unfold absolute? at hplace
        split at hplace
        · split at hplace
          · cases hplace; exact fun h => nomatch h
          · cases hplace
        · next hne => cases hplace; exact hne
      split at h
      · cases h
      · next problem hstat =>
        split at h
        · cases h
        · next hu =>
          cases h
          refine ⟨hanchor, fun problem' h' => ?_⟩
          rw [hstat] at h'
          cases h'
          simpa using hu
      · next hstat =>
        cases h
        exact ⟨hanchor, fun problem' h' => by rw [hstat] at h'; cases h'⟩

end FileSystem

/-! ## §3. Loading. -/

/-- What is loaded from a path that holds something. -/
def Held.load (p : Path) : Held → Except Failure (Mapping Value)
  | .file content =>
    match Dotenv.decode content with
    | .ok values => .ok values
    | .error fault => .error (.unavailable p.text fault.message)
  | .directory => .ok .empty

namespace World

variable {w : World} {p : Path} {m : Int}

/-- A physical place is a path from the root, and it can be handed to the system. -/
theorem of_physical {place : Path} (h : w.physical p = .ok place) :
    place.anchor ≠ .relative ∧
      ∀ problem, w.files.stat w.cwd place = .error problem → problem.isUnusable = false := by
  unfold physical at h
  cases hp : w.files.physical w.cwd p with
  | error unplaced => rw [hp] at h; cases h
  | ok found => rw [hp] at h; cases h; exact FileSystem.of_physical hp

/-- What a path holds that starts at the root and that directories alone lead to. -/
def holds? (w : World) (p : Path) : Option Held :=
  if p.anchor = .relative then none else w.files.held? p.place

/-- A path that is no detour: it starts at the root, directories alone lead to it, and it is
no link. -/
structure IsDirect (w : World) (p : Path) : Prop where
  absolute : p.anchor ≠ .relative
  passes : w.files.passes [] p.place = true
  unlinked : ∀ target, w.files.node? p.place ≠ some (.link target)

/-- What holds something is no detour. -/
theorem isDirect_of_holds {held : Held} (h : w.holds? p = some held) :
    w.IsDirect p ∧ (w.files.node? p.place).bind Node.held? = some held := by
  unfold holds? FileSystem.held? at h
  split at h
  · cases h
  · next ha =>
    split at h
    · next hp =>
      refine ⟨⟨ha, hp, fun target hn => ?_⟩, h⟩
      rw [hn] at h
      cases h
    · cases h

/-- The node found at a path that holds something, if it can be looked at. -/
theorem stat_of_holds {held : Held} (h : w.holds? p = some held)
    (hm : w.modified p = .ok m) :
    ∃ node, w.files.stat w.cwd p = .ok node ∧ node.held? = some held ∧ node.time? = some m := by
  obtain ⟨direct, hh⟩ := isDirect_of_holds h
  obtain ⟨node, hs, ht⟩ := FileSystem.stat_of_modified hm
  have hn := FileSystem.node?_of_stat direct.absolute direct.passes direct.unlinked hs
  rw [hn] at hh
  exact ⟨node, hs, hh, ht⟩

/-- What can be looked at without a detour holds something. -/
theorem IsDirect.holds (direct : w.IsDirect p) (hm : w.modified p = .ok m) :
    ∃ held, w.holds? p = some held := by
  obtain ⟨node, hs, ht⟩ := FileSystem.stat_of_modified hm
  have hn := FileSystem.node?_of_stat direct.absolute direct.passes direct.unlinked hs
  rw [holds?, if_neg direct.absolute, FileSystem.held?, if_pos direct.passes, hn]
  cases node with
  | link target => cases ht
  | file content time => exact ⟨_, rfl⟩
  | directory time => exact ⟨_, rfl⟩

/-- What cannot be looked at without a detour is not there, or its path is too long or of no
use. -/
theorem IsDirect.problem (direct : w.IsDirect p) {problem : Problem}
    (hm : w.modified p = .error problem) :
    w.files.stat w.cwd p = .error problem ∧
      (problem = .notFound ∨ problem = .nameTooLong ∨ problem.isUnusable = true) := by
  rcases FileSystem.stat_of_not_modified hm with hs | ⟨-, target, hs⟩
  · exact ⟨hs, FileSystem.problem_of_stat direct.absolute direct.passes direct.unlinked hs⟩
  · exact absurd (FileSystem.node?_of_stat direct.absolute direct.passes direct.unlinked hs)
      (direct.unlinked target)

end World

/-- What is loaded from a path is decided by what it holds. -/
theorem EnvFile.load_of_holds {w : World} {p : Path} {m : Int} {held : Held}
    (h : w.holds? p = some held) (hm : w.modified p = .ok m) : load w p = held.load p := by
  obtain ⟨node, hs, hh, -⟩ := World.stat_of_holds h hm
  unfold load World.isFile FileSystem.isFile World.read FileSystem.read
  rw [hs]
  cases node with
  | link target => cases hh
  | directory time => cases hh; rfl
  | file content time => cases hh; rfl

/-- A path with a part that is too long is not even looked at for a file. -/
theorem EnvFile.load_of_nameTooLong {w : World} {p : Path}
    (h : w.modified p = .error .nameTooLong) :
    load w p = .error (.files ⟨.nameTooLong, [p.text]⟩) := by
  have hs : w.files.stat w.cwd p = .error .nameTooLong := by
    rcases FileSystem.stat_of_not_modified h with hs | ⟨hne, -⟩
    · exact hs
    · cases hne
  unfold load World.isFile FileSystem.isFile
  rw [hs]
  rfl

/-- Nothing is loaded from where nothing is. -/
theorem EnvFile.load_of_notFound {w : World} {p : Path}
    (h : w.files.stat w.cwd p = .error .notFound) : load w p = .ok .empty := by
  unfold load World.isFile FileSystem.isFile
  rw [h]
  rfl

end Cascade
