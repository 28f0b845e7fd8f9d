/-
  Cascade.Source.Preferences
  ────────────────────────────────
  **PREFERENCES.**

  Values are kept in named groups of keys; a group goes away with its last
  key.  The groups are held in memory, or in a JSON document on disk that is
  read for every request and replaced as a whole by every change.

  A missing or blank document holds nothing; members of the document that
  are no objects are no groups and are not read.  A change that cannot be
  written leaves the document as it was.
-/
import Cascade.Text.Blank
import Cascade.Text.Line
import Cascade.World

namespace Cascade

open Cascade.Text

/-- Groups of keys and values. -/
abbrev Groups := Mapping (Mapping Value)

namespace Groups

/-- The value of a key of a group. -/
def value? (gs : Groups) (group key : Text) : Option Value :=
  (gs.get? group).bind fun g => g.get? key

/-- The groups with a value set. -/
def set (gs : Groups) (group key : Text) (v : Value) : Groups :=
  gs.insert group (((gs.get? group).getD .empty).insert key v)

/-- The groups without a key that is there; none when it is not. -/
def remove? (gs : Groups) (group key : Text) : Option Groups :=
  match gs.get? group with
  | none => none
  | some g =>
    if g.contains key then
      let g := g.erase key
      some (if g.size = 0 then gs.erase group else gs.insert group g)
    else none

/-- The groups as one value. -/
def toValue (gs : Groups) : Value :=
  .object (gs.entries.map fun e => (e.1, .object e.2.entries))

/-- The groups among the members of an object. -/
def ofMembers (members : List (Text × Value)) : Groups :=
  Table.ofList (members.filterMap fun
    | (name, .object g) => some (name, Table.ofList g)
    | _ => none)

end Groups

/-- A store of preferences: the groups themselves, or the path of a document. -/
inductive Preferences
  | memory (groups : Groups)
  | document (path : Path)

namespace Preferences

/-- The path of the document, unless another one is set. -/
def defaultPath : Text := "~/.envchain/preferences.json"

/-! ## §1. Documents. -/

/-- The groups in the bytes of the document at a path. -/
def decode (p : Path) (content : Bytes) : Except Failure Groups :=
  match Utf8.decode content with
  | .error fault => .error (.encoding fault)
  | .ok text =>
    let text := unifyLineEnds text
    if trim text = [] then .ok .empty
    else
      match Json.read text with
      | .error (.tooManyDigits count) => .error (.json text (.tooManyDigits count))
      | .error fault =>
        .error (.unavailable p.text ("invalid JSON: " ++ fault.message text))
      | .ok (.object members) => .ok (Groups.ofMembers members)
      | .ok _ => .error (.unavailable p.text "top level must be a JSON object")

/-- The groups in the document at a path. -/
def readDocument (w : World) (p : Path) : Except Failure Groups :=
  match w.read p with
  | .error .notFound => .ok .empty
  | .error problem =>
    if problem.isUnusable then .error (.files ⟨problem, [p.text]⟩)
    else .error (.unavailable p.text (problem.message [p.text]))
  | .ok content => decode p content

/-- The bytes of the document of groups. -/
def encode (p : Path) (gs : Groups) : Except Failure Bytes :=
  match Json.document gs.toValue with
  | .error fault => .error (.unwritable fault)
  | .ok text => (Utf8.encode text).mapError fun fault => .files ⟨.unencodable fault, [p.text]⟩

/-- The world after a change of its files that may fail. -/
def changed (w : World) : Except Files.Fault FileSystem → Except Failure Unit × World
  | .ok files => (.ok (), { w with files })
  | .error fault => (.error (.files fault), w)

/-- The world after a draft of a document was made and put in its place, in directories
that are there.  The draft is made in the directory of the document, `..` being taken as
spelled, and taken away again when the groups cannot be written. -/
def replaceDocument (w : World) (p : Path) (gs : Groups) : Except Failure Unit × World :=
  match FileSystem.absolute? w.cwd p.parent with
  | none => (.error .adrift, w)
  | some directory =>
    match changed w (w.files.draft w.cwd directory w.now) with
    | (.error failure, w) => (.error failure, w)
    | (.ok (), w) =>
      match encode p gs with
      | .error failure => (.error failure, w)
      | .ok content => changed w (w.files.replace w.cwd p content w.now)

/-- The world after the document at a path was replaced, and whether it could be.  The
directories above it are made first, and stay when the groups cannot be written. -/
def writeDocument (w : World) (p : Path) (gs : Groups) : Except Failure Unit × World :=
  match w.files.makeDirectories w.cwd p.parent w.now with
  | (.error fault, files) => (.error (.files fault), { w with files })
  | (.ok (), files) => replaceDocument { w with files } p gs

/-! ## §2. Requests. -/

/-- All groups. -/
def groups (s : Preferences) (w : World) : Except Failure Groups :=
  match s with
  | .memory gs => .ok gs
  | .document p => readDocument w p

/-- The value of a key of a group. -/
def get? (s : Preferences) (w : World) (group key : Text) : Except Failure (Option Value) :=
  (s.groups w).map fun gs => gs.value? group key

/-- Whether a key of a group has a value other than null. -/
def has (s : Preferences) (w : World) (group key : Text) : Except Failure Bool :=
  (s.get? w group key).map fun v => (v.getD .null) ≠ .null

/-- Replaces all groups. -/
def store (s : Preferences) (w : World) (gs : Groups) :
    Except Failure Unit × World × Preferences :=
  match s with
  | .memory _ => (.ok (), w, .memory gs)
  | .document p =>
    let (answer, w) := writeDocument w p gs
    (answer, w, .document p)

/-- Sets a value. -/
def set (s : Preferences) (w : World) (group key : Text) (v : Value) :
    Except Failure Unit × World × Preferences :=
  match s.groups w with
  | .error failure => (.error failure, w, s)
  | .ok gs => s.store w (gs.set group key v)

/-- Removes a key; the answer tells whether it was there. -/
def remove (s : Preferences) (w : World) (group key : Text) :
    Except Failure Bool × World × Preferences :=
  match s.groups w with
  | .error failure => (.error failure, w, s)
  | .ok gs =>
    match gs.remove? group key with
    | none => (.ok false, w, s)
    | some gs =>
      let (answer, w, s) := s.store w gs
      (answer.map fun _ => true, w, s)

/-! ## §3. Choosing a store. -/

/-- The names of the kinds of store. -/
def kinds : List Text := ["memory", "json"]

/-- The document store at a written path; the empty one means the default. -/
def documentAt (w : World) (path : Text) : Except Failure Preferences :=
  (w.expandHome (Path.ofText (if path = [] then defaultPath else path))).map .document

end Preferences

end Cascade
