/-
  Cascade.World
  ────────────────────────────────
  **WHAT LOOK-UPS READ FROM.**

  A world is a file system, a working directory, the variables of the
  process, the users of the system and the time.  Look-ups only read it;
  writing a preference, setting a variable and changing a file make a new
  one.

  A working directory that was removed is still one: what is named from it
  is not there, and no path leads to it any more.
-/
import Cascade.Failure

namespace Cascade

open Cascade.Files

/-- The users of a system: the home directory of the one a process runs for, if the system
knows it, and the home directories of users by name, as names are read back. -/
structure Users where
  own : Option Text
  homes : Mapping Text

/-- No user is known. -/
def Users.none : Users := ⟨Option.none, .empty⟩

/-- The surroundings of a process. -/
structure World where
  files : FileSystem
  cwd : Position
  environ : Environment
  users : Users
  now : Int

namespace World

/-! ## §1. Paths. -/

/-- The path of the working directory. -/
def here (w : World) : Except Failure Path :=
  if w.cwd.removed = 0 then .ok (.ofLocation w.cwd.place) else .error .adrift

/-- A path from the root on, as spelled. -/
def absolute (w : World) (p : Path) : Except Failure Path :=
  if p.anchor = .relative then w.here.map fun here => here.append p else .ok p

/-- The physical place of a path. -/
def physical (w : World) (p : Path) : Except Failure Path :=
  (w.files.physical w.cwd p).mapError FileSystem.Unplaced.failure

/-- A home directory, if it is known. -/
def known : Option Text → Except Failure Text
  | some home => .ok home
  | none => .error .noHome

/-- The home directory of a user.  The empty name stands for the user of the process, for whom
the variable HOME goes before what the system knows. -/
def home (w : World) (user : Text) : Except Failure Text :=
  if user = [] then known ((w.environ.get? "HOME").or w.users.own)
  else
    match systemBytes user with
    | .error problem => .error (.files ⟨problem, [user]⟩)
    | .ok _ => known (w.users.homes.get? (Text.Utf8.settledName user))

/-- A path with the home directory put in. -/
def expandHome (w : World) (p : Path) : Except Failure Path :=
  match p.homeUser? with
  | none => .ok p
  | some user => do
    match p.atHome? (← w.home user) with
    | some p => return p
    | none => throw .noHome

/-! ## §2. Looking and reading. -/

/-- Whether a path leads to a regular file. -/
def isFile (w : World) (p : Path) : Except Problem Bool := w.files.isFile w.cwd p

/-- The bytes of the file a path leads to. -/
def read (w : World) (p : Path) : Except Problem Text.Bytes := w.files.read w.cwd p

/-- The modification time of what a path leads to. -/
def modified (w : World) (p : Path) : Except Problem Int := w.files.modified w.cwd p

/-! ## §3. Changes. -/

/-- The world with a variable set. -/
def setVariable (w : World) (name value : Text) : Except Failure World :=
  match w.environ.set name value with
  | .error fault => .error (.variable fault)
  | .ok environ => .ok { w with environ }

/-- The world without a variable. -/
def eraseVariable (w : World) (name : Text) : Except Failure World :=
  match w.environ.erase name with
  | .error fault => .error (.variable fault)
  | .ok environ => .ok { w with environ }

/-- The world with another working directory. -/
def enter (w : World) (p : Path) : Except Failure World :=
  match w.files.walk w.cwd true p with
  | .ok (cwd, some (.directory _)) => .ok { w with cwd }
  | .ok (_, some _) => .error (.files ⟨.notDirectory, [p.text]⟩)
  | .ok (_, none) => .error (.files ⟨.notFound, [p.text]⟩)
  | .error problem => .error (.files ⟨problem, [p.text]⟩)

/-- The world after a change of its files, and whether it could be made. -/
def change (w : World) (c : FileSystem.Change) : Except Failure Unit × World :=
  let (answer, files) := w.files.apply w.cwd w.now c
  (answer.mapError .files, { w with files, cwd := files.settle w.cwd })

end World

end Cascade
