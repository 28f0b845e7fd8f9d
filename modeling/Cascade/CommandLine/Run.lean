/-
  Cascade.CommandLine.Run
  ────────────────────────────────
  **A RUN OF THE PROGRAM.**

  `pref …` goes to the commands for preferences.  Every other line is a
  look-up: `-h` or `--help` anywhere prints the help; else the key is shown
  as the arguments say.  An undefined key without a default prints nothing
  and is no failure.  What a pretty logger writes goes to the errors, before
  the report of a failure.
-/
import Cascade.CommandLine.Arguments
import Cascade.CommandLine.Preferences
import Cascade.Log.Pretty

namespace Cascade.CommandLine

/-- A row of spaces. -/
def spaces (count : Nat) : Text := List.replicate count ' '

/-- A flag and its description, aligned with the others. -/
def helpLine (width : Nat) (start name description : Text) : Text :=
  start ++ name ++ spaces (width - name.length) ++ " " ++ description ++ "\n"

/-- The help of the program. -/
def help : Text :=
  let flag := helpLine 20 "    --"
  "\n  " ++ usage ++ "\n" ++
  "  Resolve KEY from the environment, the nearest .env file, then preferences.\n\n" ++
  "  Flags:\n" ++
  flag "log" "Logging: pretty, memory, loki [default: pretty]" ++
  flag "prefs" "Preference store: json, memory [default: json]" ++
  flag "group" "Preference group [default: env]" ++
  flag "cache" "Cache policy: once, mtime [default: once]" ++
  flag "env-file" "Read this file instead of searching for one" ++
  flag "filename" "Name of the file to search for [default: .env]" ++
  flag "start-dir" "Directory to start the search from [default: cwd]" ++
  flag "env" "JSON string of env var overrides" ++
  flag "no-interpolate" "Print values without expanding $NAME references" ++
  "\n  Subcommands:\n" ++
  helpLine 22 "    " "pref get|set|rm" "Manage stored preferences (see: pref --help)" ++
  "\n"

/-- What a logger writes to the errors for entries, at a time of day. -/
def logText (logger : Logger) (time : Text) (entries : List Entry) : Text :=
  match logger with
  | .pretty threshold =>
    entries.flatMap fun e => (Pretty.written? threshold time false e).getD []
  | _ => []

/-- The end of a run that failed after it printed something: the report after what was
logged, unless the failure is passed on. -/
def failed (output logged : Text) (failure : Failure) : Except Failure Finished :=
  if failure.isReported then
    .ok ⟨1, output, logged ++ "Error: " ++ failure.message ++ "\n"⟩
  else .error failure

/-- Shows a key as arguments say. -/
def lookUp (w : World) (time : Text) (argv : List Text) : Except Failure Finished :=
  match Arguments.parse argv with
  | .error failure => failed [] [] failure
  | .ok a =>
    match a.build w with
    | .error failure => failed [] [] failure
    | .ok built =>
      let shown :=
        built.resolver.shown (a.plain.headD []) ((a.plain[1]?).map Value.str) a.interpolate
      let (answer, trace) := shown.exec w ⟨.new built.policy, []⟩
      let logged := logText built.logger time trace.log
      match answer with
      | .ok ⟨output, .ok ()⟩ => .ok ⟨0, output, logged⟩
      | .ok ⟨output, .error failure⟩ => failed output logged failure
      | .error failure => failed [] logged failure

/-- Runs the program with its arguments. -/
def run (w : World) (time : Text) (argv : List Text) : Except Failure Finished × World :=
  match argv with
  | [] => (lookUp w time [], w)
  | first :: rest =>
    if first = "pref" then Pref.run w rest
    else if argv.contains "--help" || argv.contains "-h" then (.ok ⟨0, help, []⟩, w)
    else (lookUp w time argv, w)

end Cascade.CommandLine
