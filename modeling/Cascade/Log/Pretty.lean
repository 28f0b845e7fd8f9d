/-
  Cascade.Log.Pretty
  ────────────────────────────────
  **LOG LINES FOR PEOPLE.**

  An entry that reaches the threshold is one line: the time of day, the
  level in brackets, the message, and the context as `name=value` pairs
  after two spaces.  On a terminal the time and the level are coloured by
  level.
-/
import Cascade.Log.Entry
import Cascade.Value.Rendering

namespace Cascade.Pretty

open Cascade.Text

/-- The escape sequence that sets the colour of a level. -/
def colour : Level → Text
  | .debug => "\x1b[36m"
  | .info => "\x1b[32m"
  | .warn => "\x1b[33m"
  | .error => "\x1b[31m"

/-- The escape sequence that ends a colour. -/
def plain : Text := "\x1b[0m"

/-- The context of an entry. -/
def contextText? (context : List (Text × Value)) : Option Text :=
  if context = [] then some []
  else do
    let pairs ← context.mapM fun (name, v) => (v.plain?).map fun t => name ++ "=" ++ t
    return "  " ++ join " " pairs

/-- The line of an entry at a time of day; none when a context value has no text. -/
def line? (time : Text) (terminal : Bool) (e : Entry) : Option Text := do
  let context ← contextText? e.context
  let stamp := time ++ " [" ++ e.level.name ++ "]"
  let stamp := if terminal then colour e.level ++ stamp ++ plain else stamp
  return stamp ++ " " ++ e.message ++ context ++ "\n"

/-- What is written for an entry under a threshold: nothing, or its line. -/
def written? (threshold : Level) (time : Text) (terminal : Bool) (e : Entry) : Option Text :=
  if e.level.reaches threshold then line? time terminal e else some []

end Cascade.Pretty
