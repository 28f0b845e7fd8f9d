/-
  Cascade.Files.System
  ────────────────────────────────
  **A FILE SYSTEM AS A VALUE.**

  The tree is a table from places to nodes: files with their bytes and
  modification time, directories, and symbolic links with the path they
  name.  `walk` follows a path part by part, links included; it gives the
  position reached and the node there, if any.  What can go wrong on the way:

      notFound      — a part before the last one does not exist
      notDirectory  — a part is looked for in what is no directory
      nameTooLong   — a part of more than 255 bytes, or a path of 4096
      tooManyLinks  — more than forty links
      embeddedNull  — the path holds a NUL and is not looked at
      unencodable   — the path has no bytes and is not looked at

  Further problems arise only from changes.

  A directory that is removed while it is in use stays a directory, without
  entries and without a place in the tree; `..` still leads out of it.

  The tree holds names as they are read back, so two spellings of the same
  bytes are one name; a path keeps its own spelling.
-/
import Cascade.Files.Path
import Cascade.Table
import Cascade.Text.Order
import Cascade.Text.Quoted

namespace Cascade

open Cascade.Text

/-- What a place in the tree holds.  Modification times are in nanoseconds. -/
inductive Node
  | file (content : Bytes) (modified : Int)
  | directory (modified : Int)
  | link (target : Text)
  deriving DecidableEq, Repr

/-- A directory tree.  The root is always there. -/
structure FileSystem where
  nodes : Table Location Node
  deriving DecidableEq, Repr

namespace Files

/-! ## §1. Problems. -/

/-- Why a path cannot be used. -/
inductive Problem
  | notFound
  | alreadyExists
  | notDirectory
  | isDirectory
  | nameTooLong
  | tooManyLinks
  | invalidArgument
  | notEmpty
  | embeddedNull
  | unencodable (fault : Utf8.Unencodable)
  | linkedTree
  deriving DecidableEq, Repr

/-- Whether a path cannot be handed to the system. -/
def Problem.isUnusable : Problem → Bool
  | .embeddedNull | .unencodable _ => true
  | _ => false

/-- A problem with paths, if they are told, that is reported by its number. -/
def Problem.numbered (number : Nat) (wording : Text) (paths : List Text) : Text :=
  let told : Text := if paths = [] then [] else ": " ++ Text.join " -> " (paths.map quoted)
  "[Errno " ++ Text.ofNat number ++ "] " ++ wording ++ told

/-- A problem with paths, as reported. -/
def Problem.message (paths : List Text) : Problem → Text
  | .notFound => numbered 2 "No such file or directory" paths
  | .alreadyExists => numbered 17 "File exists" paths
  | .notDirectory => numbered 20 "Not a directory" paths
  | .isDirectory => numbered 21 "Is a directory" paths
  | .invalidArgument => numbered 22 "Invalid argument" paths
  | .nameTooLong => numbered 36 "File name too long" paths
  | .notEmpty => numbered 39 "Directory not empty" paths
  | .tooManyLinks => numbered 40 "Too many levels of symbolic links" paths
  | .embeddedNull => "embedded null byte"
  | .unencodable fault => fault.message
  | .linkedTree => "Cannot call rmtree on a symbolic link"

/-- Whether a problem means that there is nothing at a path, rather than that the path
cannot be looked at. -/
def Problem.isAbsence (p : Problem) : Bool :=
  match p with
  | .notFound | .notDirectory | .tooManyLinks => true
  | p => p.isUnusable

/-- The bytes of a text as the system takes them: without a NUL, which would end them. -/
def systemBytes (t : Text) : Except Problem Bytes :=
  match Utf8.encodeName t with
  | .error fault => .error (.unencodable fault)
  | .ok bytes => if bytes.contains 0 then .error .embeddedNull else .ok bytes

/-- A position: a place in the tree, and how many levels below it, in directories that were
removed while they were in use. -/
structure Position where
  place : Location
  removed : Nat
  deriving DecidableEq, Repr

end Files

namespace FileSystem

open Files

/-! ## §2. Walking. -/

/-- The node at a place. -/
def node? (fs : FileSystem) (l : Location) : Option Node :=
  if l = [] then some (.directory 0) else fs.nodes.get? l

/-- Whether a place holds a directory. -/
def isDirectoryAt (fs : FileSystem) (l : Location) : Bool :=
  match fs.node? l with
  | some (.directory _) => true
  | _ => false

/-- The most bytes of a part. -/
def partLimit : Nat := 255

/-- The number of bytes below which the length of a path must stay. -/
def pathLimit : Nat := 4096

/-- The most links of a walk. -/
def linkLimit : Nat := 40

/-- Follows parts from a place; `followLast` tells whether a link at the last part is
followed, and `follow` goes on from the target of a link.  A part that leads nowhere still
asks for a directory, so a target that ends with a slash names no file. -/
def walkParts (fs : FileSystem) (followLast : Bool)
    (follow : Location → List Text → Except Problem (Location × Option Node)) :
    Location → List Text → Except Problem (Location × Option Node)
  | place, [] => .ok (place, fs.node? place)
  | place, part :: rest =>
    if ¬ fs.isDirectoryAt place then
      -- not even a part that stays is looked for in what is no directory
      .error (if (fs.node? place).isSome then .notDirectory else .notFound)
    else if Path.isStay part then walkParts fs followLast follow place rest
    else if part = Path.up then walkParts fs followLast follow place.dropLast rest
    else if partLimit < Utf8.nameSize part then .error .nameTooLong
    else
      let next := place ++ [part]
      match fs.node? next with
      | none => if rest = [] then .ok (next, none) else .error .notFound
      | some (.link target) =>
        if rest = [] ∧ ¬ followLast then .ok (next, some (.link target))
        else if target = [] then .error .notFound
        else
          -- the parts of the target come before those that are left
          follow (if Path.anchorOf target = .relative then place else [])
            (splitAt '/' target ++ rest)
      | some _ => walkParts fs followLast follow next rest

/-- Follows parts from a place through at most `links` links. -/
def walkFrom (fs : FileSystem) (followLast : Bool) :
    (links : Nat) → Location → List Text → Except Problem (Location × Option Node)
  | 0 => walkParts fs followLast fun _ _ => .error .tooManyLinks
  | links + 1 => walkParts fs followLast (walkFrom fs followLast links)

/-- Where parts lead out of removed directories, and the parts that are left.  Only `..`
leads out; there is nothing else in them. -/
def leave : Position → List Text → Except Problem (Position × List Text)
  | p, [] => .ok (p, [])
  | p, part :: rest =>
    match p.removed with
    | 0 => .ok (p, part :: rest)
    | removed + 1 => if part = Path.up then leave ⟨p.place, removed⟩ rest else .error .notFound

/-- Where a walk along a path starts, and the parts to follow from there. -/
def startOf (cwd : Position) (p : Path) : Except Problem (Position × List Text) :=
  if p.anchor = .relative then leave cwd p.parts else .ok (⟨[], 0⟩, p.parts)

/-- The position a path leads to from a working directory, and the node there. -/
def walk (fs : FileSystem) (cwd : Position) (followLast : Bool) (p : Path) :
    Except Problem (Position × Option Node) :=
  match systemBytes p.text with
  | .error problem => .error problem
  | .ok bytes =>
    if pathLimit ≤ bytes.length then .error .nameTooLong
    else
      match startOf cwd p with
      | .error problem => .error problem
      | .ok (⟨place, 0⟩, parts) =>
        (walkFrom fs followLast linkLimit place (parts.map Utf8.settledName)).map
          fun (place, node?) => (⟨place, 0⟩, node?)
      -- the path ends in a removed directory, which still is one
      | .ok (position, _) => .ok (position, some (.directory 0))

/-! ## §3. Looking and reading. -/

/-- The node at the end of a path, links followed. -/
def stat (fs : FileSystem) (cwd : Position) (p : Path) : Except Problem Node := do
  match ← fs.walk cwd true p with
  | (_, some node) => return node
  | (_, none) => throw .notFound

/-- The target of the link a path names; none when it names something else or nothing. -/
def linkAt? (fs : FileSystem) (cwd : Position) (p : Path) : Except Problem (Option Text) :=
  match fs.walk cwd false p with
  | .ok (_, some (.link target)) => .ok (some target)
  | .ok _ => .ok none
  | .error problem => if problem.isUnusable then .error problem else .ok none

/-- Whether a path leads to a regular file.  Absence is an answer, every other problem
is not. -/
def isFile (fs : FileSystem) (cwd : Position) (p : Path) : Except Problem Bool :=
  match fs.stat cwd p with
  | .ok (.file _ _) => .ok true
  | .ok _ => .ok false
  | .error problem => if problem.isAbsence then .ok false else .error problem

/-- The bytes of the file a path leads to. -/
def read (fs : FileSystem) (cwd : Position) (p : Path) : Except Problem Bytes := do
  match ← fs.stat cwd p with
  | .file content _ => return content
  | _ => throw .isDirectory

/-- The modification time of what a path leads to. -/
def modified (fs : FileSystem) (cwd : Position) (p : Path) : Except Problem Int := do
  match ← fs.stat cwd p with
  | .file _ time => return time
  | .directory time => return time
  | .link _ => throw .tooManyLinks

/-- The names in the directory at a place, in order. -/
def namesIn (fs : FileSystem) (l : Location) : List Text :=
  sortBy id (fs.nodes.keys.filterMap fun k =>
    if k.dropLast = l then k.getLast? else none)

/-- The names in the directory a path leads to. -/
def list (fs : FileSystem) (cwd : Position) (p : Path) : Except Problem (List Text) := do
  match ← fs.walk cwd true p with
  | (⟨l, 0⟩, some (.directory _)) => return fs.namesIn l
  | (_, some (.directory _)) => return []
  | (_, some _) => throw .notDirectory
  | (_, none) => throw .notFound

end FileSystem

end Cascade
