/-
  Cascade.Json.Writer
  ────────────────────────────────
  **WRITING JSON.**

  Two layouts, one alphabet.  Everything beyond printable ASCII is escaped:
  the usual control characters by their letter, all others as `\uhhhh`,
  beyond U+FFFF as a surrogate pair.  Doubles have their shortest form.

      document  — for files: one member or item per line, two spaces per
                  level, the members of an object in the order of their
                  names by code point; bytes cannot be written
      line      — for log lines: everything in one line, members in their
                  own order; bytes are written as the text of their quoted
                  form

  An integer of more than 4300 digits cannot be written.  The first value
  that cannot be written, in the order of writing, decides the fault.
  Values may be nested to any depth: the recursion limit of an interpreter
  is left out.
-/
import Cascade.Text.Order
import Cascade.Value.Rendering

namespace Cascade.Json

open Cascade.Text

/-- Why a value cannot be written. -/
inductive Unwritable
  | bytes
  | tooManyDigits
  deriving DecidableEq, Repr

/-- The wording of a fault. -/
def Unwritable.message : Unwritable → Text
  | .bytes => "Object of type bytes is not JSON serializable"
  | .tooManyDigits =>
    "Exceeds the limit (" ++ Text.ofNat digitLimit ++
      " digits) for integer string conversion; " ++
      "use sys.set_int_max_str_digits() to increase the limit"

/-! ## §1. Strings and atoms. -/

/-- A 16-bit unit as an escape. -/
def escapedUnit (n : Nat) : Text := .char '\\' :: .char 'u' :: hex 4 n

/-- A character inside a string. -/
def writtenChar (c : CodePoint) : Text :=
  if c = '"' ∨ c = '\\' then [.char '\\', c]
  else if c = '\n' then "\\n"
  else if c = '\r' then "\\r"
  else if c = '\t' then "\\t"
  else if c = '\x0c' then "\\f"
  else if c = '\x08' then "\\b"
  else if 32 ≤ c.toNat ∧ c.toNat < 127 then [c]
  else if c.toNat < 0x10000 then escapedUnit c.toNat
  else
    let n := c.toNat - 0x10000
    escapedUnit (0xD800 + n / 0x400) ++ escapedUnit (0xDC00 + n % 0x400)

/-- A text as a string. -/
def writtenString (t : Text) : Text := "\"" ++ t.flatMap writtenChar ++ "\""

/-- An integer as a number. -/
def writtenInt (n : Int) : Except Unwritable Text :=
  match intText? n with
  | some t => .ok t
  | none => .error .tooManyDigits

/-! ## §2. The layout of files. -/

mutual

/-- A value with the members of every object in it in the order of their names. -/
def inNameOrder : Value → Value
  | .list items => .list (itemsInNameOrder items)
  | .object members => .object (sortBy Prod.fst (membersInNameOrder members))
  | v => v

/-- `inNameOrder` on every item. -/
def itemsInNameOrder : List Value → List Value
  | [] => []
  | item :: items => inNameOrder item :: itemsInNameOrder items

/-- `inNameOrder` on the value of every member. -/
def membersInNameOrder : List (Text × Value) → List (Text × Value)
  | [] => []
  | (name, v) :: members => (name, inNameOrder v) :: membersInNameOrder members

end

/-- A line break and the indentation of a level. -/
def newLine (level : Nat) : Text := .char '\n' :: List.replicate (2 * level) ' '

/-- Written parts on lines of their own between brackets. -/
def onLines (opening closing : CodePoint) (level : Nat) (parts : List Text) : Text :=
  match parts with
  | [] => [opening, closing]
  | _ =>
    opening :: newLine (level + 1) ++ Text.join (.char ',' :: newLine (level + 1)) parts ++
      newLine level ++ [closing]

mutual

/-- A value at an indentation level, members in their own order. -/
def documentAt (level : Nat) : Value → Except Unwritable Text
  | .null => .ok "null"
  | .bool b => .ok (if b then "true" else "false")
  | .int n => writtenInt n
  | .float x => .ok (x.text Decimal.Style.json)
  | .str t => .ok (writtenString t)
  | .bytes _ => .error .bytes
  | .list items => do
    let parts ← documentItems (level + 1) items
    return onLines '[' ']' level parts
  | .object members => do
    let parts ← documentMembers (level + 1) members
    return onLines '{' '}' level parts

/-- The items of a list. -/
def documentItems (level : Nat) : List Value → Except Unwritable (List Text)
  | [] => .ok []
  | item :: items => do
    let part ← documentAt level item
    let parts ← documentItems level items
    return part :: parts

/-- The members of an object. -/
def documentMembers (level : Nat) : List (Text × Value) → Except Unwritable (List Text)
  | [] => .ok []
  | (name, v) :: members => do
    let part ← documentAt level v
    let parts ← documentMembers level members
    return (writtenString name ++ ": " ++ part) :: parts

end

/-- The document of a value, closed by a line feed. -/
def document (v : Value) : Except Unwritable Text :=
  (documentAt 0 (inNameOrder v)).map (· ++ [.char '\n'])

/-! ## §3. The layout of log lines. -/

mutual

/-- A value in one line. -/
def line : Value → Except Unwritable Text
  | .null => .ok "null"
  | .bool b => .ok (if b then "true" else "false")
  | .int n => writtenInt n
  | .float x => .ok (x.text Decimal.Style.json)
  | .str t => .ok (writtenString t)
  | .bytes content => .ok (writtenString (quotedBytes content))
  | .list items => do
    let parts ← lineItems items
    return "[" ++ join ", " parts ++ "]"
  | .object members => do
    let parts ← lineMembers members
    return "\x7b" ++ join ", " parts ++ "\x7d"

/-- The items of a list. -/
def lineItems : List Value → Except Unwritable (List Text)
  | [] => .ok []
  | item :: items => do
    let part ← line item
    let parts ← lineItems items
    return part :: parts

/-- The members of an object. -/
def lineMembers : List (Text × Value) → Except Unwritable (List Text)
  | [] => .ok []
  | (name, v) :: members => do
    let part ← line v
    let parts ← lineMembers members
    return (writtenString name ++ ": " ++ part) :: parts

end

end Cascade.Json
