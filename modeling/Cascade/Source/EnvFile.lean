/-
  Cascade.Source.EnvFile
  ────────────────────────────────
  **LOADING AND FINDING ENV FILES.**

  `load` gives the mapping of the file a path leads to; where there is no
  regular file it gives the empty mapping, and a file that cannot be read or
  decoded is unavailable.

  `locate` searches upwards: the physical start directory, then each
  directory above it, and the first one that has a regular file of the
  given name wins.  A start directory inside a loop of links has no physical
  place; its path as spelled is taken instead.
-/
import Cascade.Dotenv.Document
import Cascade.World

namespace Cascade.EnvFile

open Cascade.Files

/-- The name of an env file, unless another one is set. -/
def defaultName : Text := ".env"

/-- The failure of a source that has a problem. -/
def unavailable (p : Path) (problem : Problem) : Failure :=
  .unavailable p.text (problem.message [p.text])

/-- The mapping of the file a path leads to. -/
def load (w : World) (p : Path) : Except Failure (Mapping Value) :=
  match w.isFile p with
  | .error problem => .error (.files ⟨problem, [p.text]⟩)
  | .ok false => .ok .empty
  | .ok true =>
    match w.read p with
    | .error .notFound => .ok .empty
    | .error problem => .error (unavailable p problem)
    | .ok content =>
      match Dotenv.decode content with
      | .ok values => .ok values
      | .error fault => .error (.unavailable p.text fault.message)

/-! ## Searching upwards. -/

/-- The directories searched from a start directory, nearest first. -/
def searchDirs (w : World) (start : Path) : Except Failure (List Path) := do
  let start ← w.expandHome start
  match w.physical start with
  | .ok place => return place.ancestors
  | .error (.linkLoop _) => return (← w.absolute start).ancestors
  | .error failure => throw failure

/-- The first of the given paths that leads to a regular file. -/
def firstFile (w : World) : List Path → Except Failure (Option Path)
  | [] => .ok none
  | p :: rest =>
    match w.isFile p with
    | .ok true => .ok (some p)
    | .ok false => firstFile w rest
    | .error problem => .error (.files ⟨problem, [p.text]⟩)

/-- The nearest file of a name, in the start directory or above. -/
def locate (w : World) (start : Path) (name : Path) : Except Failure (Option Path) := do
  firstFile w ((← searchDirs w start).map fun d => d.append name)

end Cascade.EnvFile
