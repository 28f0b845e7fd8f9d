/-
  Cascade.Files.Change
  ────────────────────────────────
  **CHANGING A FILE SYSTEM.**

  Every change names its target by a path and gives a modification time.
  Writing, linking and making a directory make the missing directories
  above their target; writing follows links, replacing and linking do not.
  Making or removing an entry also sets the time of its directory.

  A change that fails reports the problem with the path it arose at.  The
  directories it has made by then stay, and what it has removed stays
  removed; otherwise the tree is as it was.

  A working directory that is removed by a change is `settle`d: it keeps the
  nearest place above it that is left.
-/
import Cascade.Files.System

namespace Cascade

open Cascade.Text
open Cascade.Files

/-- A problem and the paths it arose with, if they are told: one, or the target and the place
of a link. -/
structure Files.Fault where
  problem : Problem
  paths : List Text
  deriving DecidableEq, Repr

/-- The wording of a fault. -/
def Files.Fault.message (f : Files.Fault) : Text := f.problem.message f.paths

namespace FileSystem

/-! ## §1. Single entries. -/

/-- The tree with a node put at a place. -/
def put (fs : FileSystem) (l : Location) (node : Node) : FileSystem :=
  ⟨fs.nodes.insert l node⟩

/-- The tree with the time of the directory at a place set. -/
def touchAt (fs : FileSystem) (l : Location) (now : Int) : FileSystem :=
  match fs.nodes.get? l with
  | some (.directory _) => fs.put l (.directory now)
  | _ => fs

/-- The tree with the time of the directory above a place set. -/
def touchAbove (fs : FileSystem) (l : Location) (now : Int) : FileSystem :=
  fs.touchAt l.dropLast now

/-- The tree with a new entry. -/
def create (fs : FileSystem) (l : Location) (node : Node) (now : Int) : FileSystem :=
  (fs.put l node).touchAbove l now

/-- The tree without what is below a directory. -/
def clear (fs : FileSystem) (l : Location) (now : Int) : FileSystem :=
  let kept := fs.nodes.filterKeys fun k => k = l || ! l.isPrefixOf k
  -- a directory that was empty already has not changed
  if kept.size = fs.nodes.size then fs else (FileSystem.mk kept).touchAt l now

/-- The tree without what is at a place and below it. -/
def prune (fs : FileSystem) (l : Location) (now : Int) : FileSystem :=
  (FileSystem.mk (fs.nodes.filterKeys fun k => ! l.isPrefixOf k)).touchAbove l now

/-! ## §2. Positions after a change. -/

/-- The position with levels counted as removed, `above` of them at most, until the tree has
a directory at its place. -/
def settleWithin (fs : FileSystem) : (above : Nat) → Position → Position
  | 0, p => p
  | above + 1, p =>
    if fs.isDirectoryAt p.place then p
    else settleWithin fs above ⟨p.place.dropLast, p.removed + 1⟩

/-- A position once the tree has changed: levels that are gone count as removed. -/
def settle (fs : FileSystem) (p : Position) : Position := fs.settleWithin p.place.length p

/-! ## §3. Directories. -/

/-- The tree with a directory made at a path, where nothing may be. -/
def makeDirectory (fs : FileSystem) (cwd : Position) (p : Path) (now : Int) :
    Except Problem FileSystem :=
  match fs.walk cwd false p with
  | .ok (found, none) => .ok (fs.create found.place (.directory now) now)
  | .ok (_, some _) => .error .alreadyExists
  | .error problem => .error problem

/-- Whether a path leads to a directory.  Absence is an answer, every other problem is
not. -/
def isDirectory (fs : FileSystem) (cwd : Position) (p : Path) : Except Problem Bool :=
  match fs.stat cwd p with
  | .ok (.directory _) => .ok true
  | .ok _ => .ok false
  | .error problem => if problem.isAbsence then .ok false else .error problem

/-- What a change comes to: whether it failed, and the tree after it. -/
abbrev Changed := Except Fault Unit × FileSystem

/-- A change of a tree as an outcome, the tree staying as it was when it fails. -/
def changed (fs : FileSystem) : Except Fault FileSystem → Changed
  | .ok fs => (.ok (), fs)
  | .error fault => (.error fault, fs)

/-- One change after another, unless the first one fails. -/
def Changed.andThen (c : Changed) (next : FileSystem → Except Fault FileSystem) : Changed :=
  match c with
  | (.ok (), fs) => fs.changed (next fs)
  | failed => failed

/-- The outcome of making a directory with a problem: that there is one already will do,
and a problem with looking whether there is one takes the place of the first. -/
def orExisting (fs : FileSystem) (cwd : Position) (p : Path) (problem : Problem) : Changed :=
  if problem = .notFound then (.error ⟨problem, [p.text]⟩, fs)
  else
    match fs.isDirectory cwd p with
    | .ok true => (.ok (), fs)
    | .ok false => (.error ⟨problem, [p.text]⟩, fs)
    | .error other => (.error ⟨other, [p.text]⟩, fs)

/-- The tree with a directory at a path, made together with at most `above` missing ones
above it.  A directory that is there already will do. -/
def makeDirectoriesWithin (cwd : Position) (now : Int) :
    (above : Nat) → Path → FileSystem → Changed
  | 0, p, fs =>
    match fs.makeDirectory cwd p now with
    | .ok fs => (.ok (), fs)
    | .error problem => fs.orExisting cwd p problem
  | above + 1, p, fs =>
    match fs.makeDirectory cwd p now with
    | .ok fs => (.ok (), fs)
    -- something above is missing, and is made first
    | .error .notFound =>
      match makeDirectoriesWithin cwd now above p.parent fs with
      | (.ok (), fs) =>
        match fs.makeDirectory cwd p now with
        | .ok fs => (.ok (), fs)
        | .error problem => fs.orExisting cwd p problem
      | failed => failed
    | .error problem => fs.orExisting cwd p problem

/-- The tree with a directory at a path and at every path above it. -/
def makeDirectories (fs : FileSystem) (cwd : Position) (p : Path) (now : Int) : Changed :=
  makeDirectoriesWithin cwd now p.parts.length p fs

/-! ## §4. Files and links. -/

/-- Whether a path leads, through `links` links at most, to one whose target ends with a
slash in a directory that is there.  Such a target is a directory or is to become one. -/
def asksDirectory (fs : FileSystem) (cwd : Position) : (links : Nat) → Path → Bool
  | 0, _ => false
  | links + 1, p =>
    match fs.walk cwd false p with
    | .ok (found, some (.link target)) =>
      let next := (Path.ofLocation found.place.dropLast).append (Path.ofText target)
      if target.getLast? = some '/' then (fs.isDirectory cwd next.parent).toOption = some true
      else asksDirectory fs cwd links next
    | _ => false

/-- The tree with bytes written to the file a path leads to, made if it is missing. -/
def write (fs : FileSystem) (cwd : Position) (p : Path) (content : Bytes) (time now : Int) :
    Except Fault FileSystem :=
  if fs.asksDirectory cwd linkLimit p then .error ⟨.isDirectory, [p.text]⟩
  else
    match fs.walk cwd true p with
    | .ok (found, none) => .ok (fs.create found.place (.file content time) now)
    | .ok (found, some (.file _ _)) => .ok (fs.put found.place (.file content time))
    | .ok _ => .error ⟨.isDirectory, [p.text]⟩
    | .error problem => .error ⟨problem, [p.text]⟩

/-- The tree with a new file in place of whatever entry a path names, unless that is a
directory. -/
def replace (fs : FileSystem) (cwd : Position) (p : Path) (content : Bytes) (now : Int) :
    Except Fault FileSystem :=
  match fs.walk cwd false p with
  | .ok (_, some (.directory _)) => .error ⟨.isDirectory, [p.text]⟩
  | .ok (found, _) => .ok (fs.create found.place (.file content now) now)
  | .error problem => .error ⟨problem, [p.text]⟩

/-- Where a link can be made at a path, and its target as it is kept: a target is not empty
and shorter than any path may be. -/
def linkSite (fs : FileSystem) (cwd : Position) (p : Path) (target : Text) :
    Except Problem (Location × Text) := do
  let bytes ← systemBytes target
  let _ ← systemBytes p.text
  if bytes.isEmpty then throw .notFound
  else if pathLimit ≤ bytes.length then throw .nameTooLong
  else
    match ← fs.walk cwd false p with
    | (found, none) => return (found.place, Utf8.decodeName bytes)
    | (_, some _) => throw .alreadyExists

/-- The tree with a link made at a path, where nothing may be. -/
def link (fs : FileSystem) (cwd : Position) (p : Path) (target : Text) (now : Int) :
    Except Fault FileSystem :=
  match fs.linkSite cwd p target with
  | .ok (place, target) => .ok (fs.create place (.link target) now)
  | .error problem => .error ⟨problem, [target, p.text]⟩

/-- The tree with the time of what a path leads to set.  A fault does not tell the path, as
the time could be at fault too. -/
def touch (fs : FileSystem) (cwd : Position) (p : Path) (time : Int) :
    Except Fault FileSystem :=
  match fs.walk cwd true p with
  | .ok (found, some (.file content _)) => .ok (fs.put found.place (.file content time))
  | .ok (⟨l, 0⟩, some (.directory _)) => .ok (fs.put l (.directory time))
  | .ok (_, some (.directory _)) => .ok fs
  | .ok _ => .error ⟨.notFound, []⟩
  | .error problem => .error ⟨problem, []⟩

/-- The tree without the file or link a path names; nothing there is no fault. -/
def remove (fs : FileSystem) (cwd : Position) (p : Path) (now : Int) :
    Except Fault FileSystem :=
  match fs.walk cwd false p with
  | .ok (_, some (.directory _)) => .error ⟨.isDirectory, [p.text]⟩
  | .ok (found, some _) => .ok (fs.prune found.place now)
  | .ok (_, none) => .ok fs
  | .error .notFound => .ok fs
  | .error problem => .error ⟨problem, [p.text]⟩

/-- The tree without the empty directory a path names.  A path that ends with a dot or two
names the directory from within, and no directory is removed from there. -/
def removeDirectory (fs : FileSystem) (cwd : Position) (p : Path) (now : Int) :
    Except Fault FileSystem :=
  match p.parts.getLast? with
  | none => .error ⟨.invalidArgument, [p.text]⟩
  | some last =>
    if last = Path.up then
      match fs.stat cwd p.parent with
      | .ok (.directory _) => .error ⟨.notEmpty, [p.text]⟩
      | .ok _ => .error ⟨.notDirectory, [p.text]⟩
      | .error problem => .error ⟨problem, [p.text]⟩
    else
      match fs.walk cwd false p with
      | .ok (found, some _) => .ok (fs.prune found.place now)
      | .ok (_, none) => .error ⟨.notFound, [p.text]⟩
      | .error problem => .error ⟨problem, [p.text]⟩

/-- Empties the directory a path names and removes it.  What was in it stays removed when
the directory itself cannot be.  A link to a directory is no directory. -/
def removeTree (fs : FileSystem) (cwd : Position) (p : Path) (now : Int) : Changed :=
  match fs.walk cwd false p with
  | .ok (found, some (.directory _)) =>
    -- emptied first, and the working directory may have been inside
    let fs := if found.removed = 0 then fs.clear found.place now else fs
    fs.changed (fs.removeDirectory (fs.settle cwd) p now)
  | .ok (_, some (.file _ _)) => (.error ⟨.notDirectory, [p.text]⟩, fs)
  | .ok (_, some (.link _)) =>
    match fs.stat cwd p with
    | .ok _ => (.error ⟨.linkedTree, []⟩, fs)
    | .error problem => (.error ⟨problem, [p.text]⟩, fs)
  | .ok (_, none) => (.error ⟨.notFound, [p.text]⟩, fs)
  | .error problem => (.error ⟨problem, [p.text]⟩, fs)

/-- The tree after a draft was made in the directory a path leads to and taken away again:
only the time of the directory tells. -/
def draft (fs : FileSystem) (cwd : Position) (p : Path) (now : Int) :
    Except Fault FileSystem :=
  match fs.walk cwd true p with
  | .ok (⟨l, 0⟩, some (.directory _)) => .ok (fs.put l (.directory now))
  | .ok (_, some (.directory _)) => .error ⟨.notFound, [p.text]⟩
  | .ok (_, some _) => .error ⟨.notDirectory, [p.text]⟩
  | .ok (_, none) => .error ⟨.notFound, [p.text]⟩
  | .error problem => .error ⟨problem, [p.text]⟩

/-! ## §5. Changes as data. -/

/-- A change to a file system. -/
inductive Change
  | write (path : Path) (content : Bytes) (time : Int)
  | directory (path : Path) (time : Int)
  | link (path : Path) (target : Text)
  | remove (path : Path)
  | removeTree (path : Path)
  | touch (path : Path) (time : Int)
  deriving DecidableEq, Repr

/-- The outcome of a change. -/
def apply (fs : FileSystem) (cwd : Position) (now : Int) : Change → Changed
  | .write p content time =>
    (fs.makeDirectories cwd p.parent now).andThen fun fs => fs.write cwd p content time now
  | .directory p time =>
    (fs.makeDirectories cwd p now).andThen fun fs => fs.touch cwd p time
  | .link p target =>
    (fs.makeDirectories cwd p.parent now).andThen fun fs => fs.link cwd p target now
  | .remove p => fs.changed (fs.remove cwd p now)
  | .removeTree p => fs.removeTree cwd p now
  | .touch p time => fs.changed (fs.touch cwd p time)

end FileSystem

end Cascade
