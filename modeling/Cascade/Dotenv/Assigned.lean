/-
  Cascade.Dotenv.Assigned
  ────────────────────────────────
  **THE RIGHT-HAND SIDE OF AN ASSIGNMENT.**

  The first character decides the form:

      ' or "   — quoted: up to the next such quote that is not escaped; a
                 backslash escapes only this quote and itself, and stays
                 everywhere else; without a closing quote all is taken
      {        — a list: up to the first closing brace, split at commas,
                 items trimmed; nothing but blanks is the empty list
      other    — bare: a number if it is a numeric literal, else the text

  What follows a closing quote or brace does not matter.
-/
import Cascade.Dotenv.Numeral
import Cascade.Text.Blank

namespace Cascade.Dotenv

open Cascade.Text

/-- The text inside quotes, given what follows the opening one. -/
def unquote (quote : CodePoint) : Text → Text
  | [] => []
  | [c] => if c = quote then [] else [c]
  | c :: d :: rest =>
    if c = '\\' ∧ (d = quote ∨ d = '\\') then d :: unquote quote rest
    else if c = quote then []
    else c :: unquote quote (d :: rest)

/-- The items inside braces, given what follows the opening one. -/
def braceItems (text : Text) : List Text :=
  let body := (cut '}' text).1
  if trim body = [] then [] else (splitAt ',' body).map trim

/-- The value of a right-hand side; an empty one has none. -/
def value? : Text → Option Value
  | [] => none
  | c :: rest =>
    if c = '"' ∨ c = '\'' then some (.str (unquote c rest))
    else if c = '{' then some (.list ((braceItems rest).map .str))
    else some (bareValue (c :: rest))

end Cascade.Dotenv
