/-
  Cascade.Failure
  ────────────────────────────────
  **WHAT CAN GO WRONG.**

  One cause per constructor; the wording is in `message`.  The command line
  reports some failures to its user and ends with status 1 (`isReported`);
  the others are faults of the system it runs on and are passed on.
-/
import Cascade.Environment
import Cascade.Files.Change
import Cascade.Files.Physical
import Cascade.Json.Reader
import Cascade.Json.Writer
import Cascade.Log.Entry

namespace Cascade

/-- A cause of failure. -/
inductive Failure
  /-- No source defines the key and there is no default. -/
  | missing (key : Text)
  /-- A source is there but cannot be read. -/
  | unavailable (source reason : Text)
  /-- A path cannot be used. -/
  | files (fault : Files.Fault)
  /-- A variable of the process that cannot be set or asked for. -/
  | variable (fault : Environment.Fault)
  /-- Links that lead to themselves. -/
  | linkLoop (place : Path)
  /-- A working directory that was removed. -/
  | adrift
  /-- A home directory that is not known. -/
  | noHome
  /-- Bytes that are no text. -/
  | encoding (fault : Text.Utf8.Fault)
  /-- A text that is no JSON document. -/
  | json (document : Text) (fault : Json.Fault)
  /-- A value that cannot be written. -/
  | unwritable (fault : Json.Unwritable)
  /-- A cache policy of an unknown name. -/
  | unknownPolicy (name : Text)
  /-- A kind of implementation of an unknown name. -/
  | unknownFlag (flag : Text)
  /-- An implementation of an unknown name. -/
  | unknownImplementation (flag name : Text) (available : List Text)
  /-- A logger of an unknown name. -/
  | unknownLogger (name : Text) (available : List Text)
  /-- A context value of a name that a log call uses for itself. -/
  | reservedName (logger : Text) (level : Level) (name : Text)
  /-- A command line that does not follow its grammar. -/
  | usage (text : Text)
  /-- A flag without its value. -/
  | flagWithoutValue (flag : Text)
  /-- A flag that does not exist. -/
  | unknownArgument (argument : Text)
  /-- Variables given on the command line that are no object. -/
  | overridesNotObject
  /-- Variables given on the command line that are not all texts. -/
  | overridesNotTexts
  deriving DecidableEq, Repr

namespace Failure

/-- The wording of a failure. -/
def message : Failure → Text
  | .missing key => "missing required configuration: " ++ key
  | .unavailable source reason => "Cannot read " ++ source ++ ": " ++ reason
  | .files fault => fault.message
  | .variable fault => fault.message
  | .linkLoop place => "Symlink loop from " ++ Text.quoted place.text
  | .adrift => "[Errno 2] No such file or directory"
  | .noHome => "Could not determine home directory."
  | .encoding fault => fault.message
  | .json document fault => fault.message document
  | .unwritable fault => fault.message
  | .unknownPolicy name =>
    "Unknown cache policy: '" ++ name ++ "' (available: once, mtime)"
  | .unknownFlag flag => "Unknown interface flag: --" ++ flag
  | .unknownImplementation flag name available =>
    "Unknown implementation '" ++ name ++ "' for --" ++ flag ++ " (available: " ++
      Text.join ", " available ++ ")"
  | .unknownLogger name available =>
    "Unknown logger implementation: '" ++ name ++ "' (available: " ++
      Text.join ", " available ++ ")"
  | .reservedName logger level name =>
    logger ++ "." ++ level.call ++ "() got multiple values for argument '" ++ name ++ "'"
  | .usage text => text
  | .flagWithoutValue flag => "Flag --" ++ flag ++ " requires a value"
  | .unknownArgument argument => "Unknown flag: " ++ argument
  | .overridesNotObject => "--env value must be a JSON object"
  | .overridesNotTexts => "--env JSON must have string keys and string values"

/-- Whether the command line reports a failure instead of passing it on. -/
def isReported : Failure → Bool
  | .files fault => fault.problem.isUnusable
  | .variable .emptyName => false
  | .linkLoop _ => false
  | .adrift => false
  | .noHome => false
  | .unwritable .bytes => false
  | .reservedName _ _ _ => false
  | _ => true

end Failure

/-- Why a path stands for no place, as a failure. -/
def FileSystem.Unplaced.failure : FileSystem.Unplaced → Failure
  | .unusable problem => .files ⟨problem, []⟩
  | .loop place => .linkLoop place
  | .adrift => .adrift

end Cascade
