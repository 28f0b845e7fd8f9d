/-
  Cascade.Files.Path
  ────────────────────────────────
  **PATHS AS THEY ARE WRITTEN.**

  A path is an anchor and a list of parts.  Reading drops empty parts and
  parts that are a single dot; `..` stays, since what it means depends on
  links.  Exactly two leading slashes are an anchor of their own, three or
  more are the root.  The path without parts is written `.`.
-/
import Cascade.Text.Basic

namespace Cascade

/-- Where a path starts. -/
inductive Anchor
  | relative
  | root
  | doubleRoot
  deriving DecidableEq, Repr

/-- The written form of an anchor. -/
def Anchor.text : Anchor → Text
  | .relative => []
  | .root => "/"
  | .doubleRoot => "//"

/-- A path: its anchor and its parts. -/
structure Path where
  anchor : Anchor
  parts : List Text
  deriving DecidableEq, Repr

/-- A place in the directory tree: the names from the root to it. -/
abbrev Location := List Text

namespace Path

/-! ## §1. Reading and writing. -/

/-- The anchor of a written path. -/
def anchorOf : Text → Anchor
  | .char '/' :: .char '/' :: .char '/' :: _ => .root
  | .char '/' :: .char '/' :: _ => .doubleRoot
  | .char '/' :: _ => .root
  | _ => .relative

/-- The part that leads one level up. -/
def up : Text := ".."

/-- Whether a part leads nowhere: an empty one, or a single dot. -/
def isStay (part : Text) : Bool := part == [] || part == "."

/-- The parts of a written path that lead somewhere. -/
def partsOf (t : Text) : List Text :=
  (Text.splitAt '/' t).filter fun part => !isStay part

/-- The path with a written form. -/
def ofText (t : Text) : Path := ⟨anchorOf t, partsOf t⟩

/-- The written form of a path. -/
def text (p : Path) : Text :=
  if p.anchor = .relative ∧ p.parts = [] then "."
  else p.anchor.text ++ Text.join "/" p.parts

/-- The path of a place in the tree. -/
def ofLocation (l : Location) : Path := ⟨.root, l⟩

/-! ## §2. Building paths. -/

/-- The path `q` taken from `p`: `q` itself unless it is relative. -/
def append (p q : Path) : Path :=
  if q.anchor = .relative then ⟨p.anchor, p.parts ++ q.parts⟩ else q

/-- The path one part shorter; a path without parts is its own parent. -/
def parent (p : Path) : Path := ⟨p.anchor, p.parts.dropLast⟩

/-- The path and its parents, `steps` of them at most. -/
def upwards (p : Path) : (steps : Nat) → List Path
  | 0 => [p]
  | steps + 1 => if p.parent = p then [p] else p :: upwards p.parent steps

/-- The path, its parent, and so on up to its anchor. -/
def ancestors (p : Path) : List Path := p.upwards p.parts.length

/-! ## §3. Home directories. -/

/-- The user whose home directory the first part of a relative path stands for: the name
after its tilde, the empty one for the user of the process. -/
def homeUser? (p : Path) : Option Text :=
  match p.anchor, p.parts with
  | .relative, (.char '~' :: name) :: _ => some name
  | _, _ => none

/-- The path with its first part replaced by a home directory.  A home directory that
begins with a tilde itself is none. -/
def atHome? (home : Text) (p : Path) : Option Path :=
  let home := Text.dropEnd '/' home
  if Text.startsWithAny ['~'] home then none
  else
    let start := ofText (if home = [] then "/" else home)
    some ⟨start.anchor, start.parts ++ p.parts.drop 1⟩

end Path

end Cascade
