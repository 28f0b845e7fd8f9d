/-
  Cascade.CommandLine.Arguments
  ────────────────────────────────
  **THE ARGUMENTS OF A LOOK-UP.**

      item  =  --FLAG VALUE  |  --no-interpolate  |  PLAIN

  The value of a flag is the next argument, whatever it looks like.  PLAIN
  is any argument that does not begin with two dashes, and `--help`.  There
  are one or two plain arguments: the key and its default.  A flag given
  again replaces its value; `--env` gives a JSON object of variables, and
  several add up.
-/
import Cascade.Resolver

namespace Cascade.CommandLine

/-- The flags that set something, by name. -/
def settingFlags : List Text := ["log", "prefs", "group", "cache", "env-file", "filename"]

/-- How a look-up is called. -/
def usage : Text := "Usage: python -m envchain [flags] KEY [DEFAULT]"

/-- What a flag with a value is for. -/
inductive ValueFlag
  | setting (name : Text)
  | startDir
  | overrides
  deriving DecidableEq, Repr

/-- The flag of an argument, if it is one that takes a value. -/
def valueFlag? (argument : Text) : Option ValueFlag :=
  match Text.dropStart? "--" argument with
  | none => none
  | some name =>
    if settingFlags.contains name then some (.setting name)
    else if name = "start-dir" then some .startDir
    else if name = "env" then some .overrides
    else none

/-- The arguments of a look-up, by what they say. -/
structure Arguments where
  flags : Mapping Text
  overrides : Mapping Text
  startDir : Option Path
  interpolate : Bool
  plain : List Text
  deriving DecidableEq, Repr

namespace Arguments

/-- No argument. -/
def empty : Arguments := ⟨.empty, .empty, none, true, []⟩

/-- The members of an object whose values are all texts. -/
def textMembers? (members : List (Text × Value)) : Option (List (Text × Text)) :=
  members.mapM fun
    | (name, .str t) => some (name, t)
    | _ => none

/-- The variables a JSON text gives. -/
def readOverrides (document : Text) : Except Failure (List (Text × Text)) :=
  match Json.read document with
  | .error fault => .error (.json document fault)
  | .ok (.object members) =>
    match textMembers? members with
    | some texts => .ok texts
    | none => .error .overridesNotTexts
  | .ok _ => .error .overridesNotObject

/-- The arguments with a flag and its value added. -/
def addFlag (a : Arguments) (value : Text) : ValueFlag → Except Failure Arguments
  | .setting name => .ok { a with flags := a.flags.insert name value }
  | .startDir => .ok { a with startDir := some (Path.ofText value) }
  | .overrides => do
    return { a with overrides := a.overrides.insertAll (← readOverrides value) }

/-- The arguments with an item added that is no flag with a value. -/
def addOther (a : Arguments) (argument : Text) : Except Failure Arguments :=
  if argument = "--no-interpolate" then .ok { a with interpolate := false }
  else if (Text.dropStart? "--" argument).isSome ∧ argument ≠ "--help" then
    .error (.unknownArgument argument)
  else .ok { a with plain := a.plain ++ [argument] }

/-- Adds items one after the other. -/
def addAll : Arguments → List Text → Except Failure Arguments
  | a, [] => .ok a
  | a, [argument] =>
    match valueFlag? argument with
    | some _ => .error (.flagWithoutValue (argument.drop 2))
    | none => a.addOther argument
  | a, argument :: next :: rest =>
    match valueFlag? argument with
    | some flag => do addAll (← a.addFlag next flag) rest
    | none => do addAll (← a.addOther argument) (next :: rest)

/-- The arguments of a command line. -/
def parse (argv : List Text) : Except Failure Arguments := do
  let a ← addAll empty argv
  if a.plain.length = 1 ∨ a.plain.length = 2 then return a
  else throw (.usage usage)

/-! ## Building what they ask for. -/

/-- Settings with a flag taken over them. -/
def override (w : World) (settings : Settings) (flag : Text × Text) :
    Except Failure Settings :=
  let (name, value) := flag
  if name = "log" then .ok { settings with loggerKind := value }
  else if name = "prefs" then .ok { settings with preferencesKind := value }
  else if name = "group" then .ok { settings with group := value }
  else if name = "cache" then do return { settings with policy := ← Policy.ofName value }
  else if name = "env-file" then do
    return { settings with pinned := some (← w.expandHome (Path.ofText value)) }
  else if name = "filename" then .ok { settings with filename := value }
  else .ok settings

/-- The resolver the arguments ask for: settings from the environment with the variables
given, the flags taken over them in order, and the start directory. -/
def build (w : World) (a : Arguments) : Except Failure Resolver.Built := do
  let secrets : Secrets := ⟨a.overrides, none⟩
  let settings ← a.flags.entries.foldlM (override w) (← Settings.ofSecrets w secrets)
  let built ← Resolver.build w secrets settings none none
  return { built with resolver := { built.resolver with start := a.startDir } }

end Arguments

end Cascade.CommandLine
