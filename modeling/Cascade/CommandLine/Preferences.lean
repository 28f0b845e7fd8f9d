/-
  Cascade.CommandLine.Preferences
  ────────────────────────────────
  **THE COMMANDS FOR PREFERENCES.**

      get KEY        — prints the value; status 1 when there is none
      set KEY VALUE  — the value is read like the right side of an env file
                       line, a blank one is the empty text
      rm KEY         — status 1 when there is nothing to remove
      list           — prints the keys of the group in order

  `--group` names the group and `--prefs` the kind of store; everything else
  after the command is positional.
-/
import Cascade.Resolver
import Cascade.Text.Order

namespace Cascade.CommandLine

/-- What a run of the program leaves: its exit status and what it wrote, or a failure it
passes on, and the world after it. -/
structure Finished where
  status : Nat
  output : Text
  errors : Text

namespace Pref

/-- How the commands are called. -/
def usage : Text :=
  "Usage: python -m envchain pref <get|set|rm|list> [KEY] [VALUE] [--group G] [--prefs IMPL]"

/-- A command with its flags and positional arguments. -/
structure Arguments where
  command : Text
  group : Option Text
  kind : Option Text
  plain : List Text
  deriving DecidableEq, Repr

namespace Arguments

/-- Adds what follows the command.  A flag at the end of the line, without a value, is
positional. -/
def addAll : Arguments → List Text → Arguments
  | a, [] => a
  | a, [argument] => { a with plain := a.plain ++ [argument] }
  | a, argument :: next :: rest =>
    if argument = "--group" then addAll { a with group := some next } rest
    else if argument = "--prefs" then addAll { a with kind := some next } rest
    else addAll { a with plain := a.plain ++ [argument] } (next :: rest)

/-- The command of a line. -/
def parse : List Text → Except Failure Arguments
  | [] => .error (.usage Pref.usage)
  | command :: rest => .ok (addAll ⟨command, none, none, []⟩ rest)

end Arguments

/-- A text that is not empty, else what another one gives. -/
def orElse (t : Option Text) (fallback : Text) : Text :=
  match t with
  | some (c :: cs) => c :: cs
  | _ => fallback

/-- What a command prints, and its status or the failure that ended it. -/
structure Outcome where
  printed : Text
  status : Except Failure Nat

/-- The outcome of a command that fails before it prints anything. -/
def Outcome.failed (failure : Failure) : Outcome := ⟨[], .error failure⟩

/-- The outcome of a command that only prints. -/
def Outcome.ofPrinted (p : Resolver.Printed) : Outcome := ⟨p.text, p.ended.map fun _ => 0⟩

/-- The value a text is set to. -/
def valueOf (raw : Text) : Value :=
  let text := Text.trim raw
  (Dotenv.value? text).getD (.str text)

/-- What a command does: its outcome, with the world and the store after it. -/
structure Effect where
  outcome : Outcome
  world : World
  store : Preferences

/-- Prints the value of a key. -/
def runGet (w : World) (s : Preferences) (group key : Text) : Outcome :=
  match s.get? w group key with
  | .error failure => .failed failure
  | .ok found =>
    let v := found.getD .null
    if v = .null then ⟨[], .ok 1⟩
    else
      match Resolver.displayed v with
      | .error failure => .failed failure
      | .ok text => ⟨text ++ "\n", .ok 0⟩

/-- Prints the keys of a group. -/
def runList (w : World) (s : Preferences) (group : Text) : Outcome :=
  match s.groups w with
  | .error failure => .failed failure
  | .ok gs =>
    .ofPrinted (Resolver.listing (Text.sortBy Prod.fst ((gs.get? group).getD .empty).entries))

/-- Runs a command on a group of a store. -/
def dispatch (w : World) (s : Preferences) (group command : Text) (plain : List Text) :
    Effect :=
  if command = "get" then
    match plain with
    | [key] => ⟨runGet w s group key, w, s⟩
    | _ => ⟨.failed (.usage usage), w, s⟩
  else if command = "set" then
    match plain with
    | [key, raw] =>
      let (answer, w, s) := s.set w group key (valueOf raw)
      ⟨⟨[], answer.map fun _ => 0⟩, w, s⟩
    | _ => ⟨.failed (.usage usage), w, s⟩
  else if command = "rm" then
    match plain with
    | [key] =>
      let (answer, w, s) := s.remove w group key
      ⟨⟨[], answer.map fun removed => if removed then 0 else 1⟩, w, s⟩
    | _ => ⟨.failed (.usage usage), w, s⟩
  else if command = "list" then
    match plain with
    | [] => ⟨runList w s group, w, s⟩
    | _ => ⟨.failed (.usage usage), w, s⟩
  else if command = "--help" ∨ command = "-h" then ⟨⟨usage ++ "\n", .ok 0⟩, w, s⟩
  else ⟨.failed (.usage usage), w, s⟩

/-- The group of a command: the one given, unless empty, or the one set in the
environment. -/
def groupOf (w : World) (a : Arguments) : Text :=
  orElse a.group (Secrets.ofProcess.getD w.environ "ENVCHAIN_PREF_GROUP" "env")

/-- The store of a command. -/
def storeOf (w : World) (a : Arguments) : Except Failure Preferences :=
  let s := Secrets.ofProcess
  Preferences.make w s (orElse a.kind (s.getD w.environ "ENVCHAIN_PREFS" "json"))

/-- The end of a run: a failure is reported after what was printed, or passed on.  What is
printed is text; the encoding of the streams it goes to is left out. -/
def finish (o : Outcome) : Except Failure Finished :=
  match o.status with
  | .ok status => .ok ⟨status, o.printed, []⟩
  | .error failure =>
    if failure.isReported then
      .ok ⟨1, o.printed, "Error: " ++ failure.message ++ "\n"⟩
    else .error failure

/-- Runs a command line on a store. -/
def runOn (w : World) (s : Preferences) (argv : List Text) :
    Except Failure Finished × World × Preferences :=
  match Arguments.parse argv with
  | .error failure => (finish (.failed failure), w, s)
  | .ok a =>
    let effect := dispatch w s (groupOf w a) a.command a.plain
    (finish effect.outcome, effect.world, effect.store)

/-- Runs a command line on the store it names. -/
def run (w : World) (argv : List Text) : Except Failure Finished × World :=
  match Arguments.parse argv with
  | .error failure => (finish (.failed failure), w)
  | .ok a =>
    match storeOf w a with
    | .error failure => (finish (.failed failure), w)
    | .ok s =>
      let effect := dispatch w s (groupOf w a) a.command a.plain
      (finish effect.outcome, effect.world)

end Pref

end Cascade.CommandLine
