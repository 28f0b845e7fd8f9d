/-
  Cascade.Files.Physical
  ────────────────────────────────
  **PHYSICAL PLACES.**

  `physical` turns a path into the place it stands for, as an absolute path:
  links are replaced by what they name, `..` is taken after that, and parts
  that do not exist are kept as they are.  So the spellings of a place give
  one answer as a rule, and a cache can be keyed by it.

  A link met again while it is being replaced is a loop.  The place then is
  that of the link with the remaining parts after it, and it is reported
  when looking there takes too many links.

  Some places have several answers.  A link is left in one where `..` after
  a loop leads back out of it, and where the spelling up to the link is too
  long to be looked at; what is left after a loop may begin with `//`, which
  stays; and a name stays as it is spelled, be it not as it is read back.

  A relative path has a place only as long as the working directory has one.
-/
import Cascade.Files.System

namespace Cascade.FileSystem

open Files

/-- Why a path stands for no place: it cannot be handed to the system, links lead in a
loop, or it is relative and the working directory was removed. -/
inductive Unplaced
  | unusable (problem : Problem)
  | loop (place : Path)
  | adrift
  deriving DecidableEq, Repr

/-- The links met so far, as spelled, with what they stand for once that is known. -/
abbrev Links := List (Path × Option Path)

/-- The path one level up.  A relative path that is used up, or that already goes up, goes
up further. -/
def above (p : Path) : Path :=
  if p.anchor = .relative ∧ (p.parts = [] ∨ p.parts.getLast? = some Path.up) then
    ⟨p.anchor, p.parts ++ [Path.up]⟩
  else p.parent

/-- A path with the parts that were not taken, which start again at the root when they
begin with an empty part. -/
def leftAt (p : Path) (rest : List Text) : Path := p.append (Path.ofText (Text.join "/" rest))

/-- Takes parts from a path without links, replacing links by what `enter` makes of their
target.  The answer tells whether no loop was met. -/
def chaseParts (fs : FileSystem) (cwd : Position)
    (enter : Path → Text → Links → Except Problem (Path × Bool × Links)) :
    Path → List Text → Links → Except Problem (Path × Bool × Links)
  | p, [], links => .ok (p, true, links)
  | p, part :: rest, links =>
    if Path.isStay part then chaseParts fs cwd enter p rest links
    else if part = Path.up then chaseParts fs cwd enter (above p) rest links
    else
      let next : Path := ⟨p.anchor, p.parts ++ [part]⟩
      match fs.linkAt? cwd next with
      | .error problem => .error problem
      | .ok none => chaseParts fs cwd enter next rest links
      | .ok (some target) =>
        match Entries.get? next links with
        | some (some found) => chaseParts fs cwd enter found rest links
        -- met again while it is being replaced
        | some none => .ok (leftAt next rest, false, links)
        | none =>
          -- noted without an answer, so that meeting it again shows
          match enter p target (Entries.insert next none links) with
          | .error problem => .error problem
          | .ok (found, true, links) =>
            chaseParts fs cwd enter found rest (Entries.insert next (some found) links)
          | .ok (found, false, links) => .ok (leftAt found rest, false, links)

/-- Takes a written path from a path without links, entering at most `depth` links inside
one another. -/
def chase (fs : FileSystem) (cwd : Position) :
    (depth : Nat) → Path → Text → Links → Except Problem (Path × Bool × Links)
  | 0, p, t, links => .ok (leftAt p (Text.splitAt '/' t), false, links)
  | depth + 1, p, t, links =>
    let start := if Path.anchorOf t = .relative then p else ⟨.root, []⟩
    chaseParts fs cwd (chase fs cwd depth) start (Text.splitAt '/' t) links

/-- One more part of a place, where `..` goes up and stops at the root. -/
def stepInto (l : Location) (part : Text) : Location :=
  if part = Path.up then l.dropLast else l ++ [part]

/-- The absolute path of a path whose links are replaced, from a working directory that
has a place. -/
def absolute? (cwd : Position) (p : Path) : Option Path :=
  match p.anchor with
  | .relative =>
    if cwd.removed = 0 then some ⟨.root, p.parts.foldl stepInto cwd.place⟩ else none
  | anchor => some ⟨anchor, p.parts.foldl stepInto []⟩

/-- How many links can be entered inside one another: each at most once per spelling. -/
def linkDepth (fs : FileSystem) (cwd : Position) : Nat :=
  let links := fs.nodes.entries.countP fun e => match e.2 with
    | .link _ => true
    | _ => false
  links * (cwd.place.length + cwd.removed + 3)

/-- Takes the parts of a path. -/
def chasePath (fs : FileSystem) (cwd : Position) (p : Path) :
    Except Problem (Path × Bool × Links) :=
  let start : Path := if p.anchor = .relative then ⟨.relative, []⟩ else ⟨.root, []⟩
  fs.chaseParts cwd (fs.chase cwd (fs.linkDepth cwd)) start p.parts []

/-- The physical place of a path. -/
def physical (fs : FileSystem) (cwd : Position) (p : Path) : Except Unplaced Path :=
  match fs.chasePath cwd p with
  | .error problem => .error (.unusable problem)
  | .ok (found, _, _) =>
    match absolute? cwd found with
    | none => .error .adrift
    | some place =>
      -- a loop shows when the place is looked at
      match fs.stat cwd place with
      | .error .tooManyLinks => .error (.loop place)
      | .error problem => if problem.isUnusable then .error (.unusable problem) else .ok place
      | .ok _ => .ok place

end Cascade.FileSystem
