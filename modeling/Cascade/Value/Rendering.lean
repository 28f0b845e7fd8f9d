/-
  Cascade.Value.Rendering
  ────────────────────────────────
  **VALUES AS TEXT.**

      plain?     — a text as it is, every other value in its own notation
      nested?    — the notation inside lists and objects: texts are quoted
      inserted?  — what a reference is replaced by: nothing for null, the
                   items of a list separated by commas
      display?   — what is printed: a list between braces

  An integer of more than 4300 digits has no text; neither has a value that
  contains one.
-/
import Cascade.Number.Shortest
import Cascade.Text.Quoted
import Cascade.Value.Basic

namespace Cascade

/-- The most digits an integer may have to be read or written. -/
def digitLimit : Nat := 4300

/-- The decimal form of an integer of at most `digitLimit` digits. -/
def intText? (n : Int) : Option Text :=
  if n.natAbs < Nat.pow 10 digitLimit then some (Text.ofInt n) else none

namespace Value

mutual

/-- A value inside a list or an object. -/
def nested? : Value → Option Text
  | .null => some "None"
  | .bool b => some (if b then "True" else "False")
  | .int n => intText? n
  | .float x => some (x.text Decimal.Style.display)
  | .str t => some (Text.quoted t)
  | .bytes content => some (Text.quotedBytes content)
  | .list items => do
    let texts ← nestedItems? items
    return "[" ++ Text.join ", " texts ++ "]"
  | .object members => do
    let texts ← nestedMembers? members
    return "\x7b" ++ Text.join ", " texts ++ "\x7d"

/-- The items of a list, in order. -/
def nestedItems? : List Value → Option (List Text)
  | [] => some []
  | item :: items => do
    let text ← nested? item
    let texts ← nestedItems? items
    return text :: texts

/-- The members of an object, in order. -/
def nestedMembers? : List (Text × Value) → Option (List Text)
  | [] => some []
  | (key, value) :: members => do
    let text ← nested? value
    let texts ← nestedMembers? members
    return (Text.quoted key ++ ": " ++ text) :: texts

end

/-- A value on its own. -/
def plain? : Value → Option Text
  | .str t => some t
  | v => nested? v

/-- The items of a list with commas between them. -/
def commaSeparated? (items : List Value) : Option Text :=
  (items.mapM plain?).map (Text.join ",")

/-- A value as the replacement of a reference. -/
def inserted? : Value → Option Text
  | .null => some []
  | .list items => commaSeparated? items
  | v => plain? v

/-- A value as it is printed. -/
def display? : Value → Option Text
  | .list items => (commaSeparated? items).map fun t => "\x7b" ++ t ++ "\x7d"
  | v => plain? v

end Value

end Cascade
