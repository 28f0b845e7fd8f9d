/-
  Cascade.Text.Quoted
  ────────────────────────────────
  **QUOTED FORMS OF TEXTS AND BYTES.**

  A text is quoted in single quotes, or in double quotes when it holds a
  single quote and no double one.  The quote in use and the backslash are
  escaped by a backslash; tab, line feed and carriage return by their
  letter; every other character that is not printable by its code point in
  the shortest of the forms `\xhh`, `\uhhhh`, `\Uhhhhhhhh`.  Bytes are
  quoted alike after a `b`, all but printable ASCII as `\xhh`.
-/
import Cascade.Text.Printable
import Cascade.Text.Utf8

namespace Cascade.Text

/-- The quote for a text: double if the text has a single quote and no double one. -/
def quoteFor (t : Text) : CodePoint :=
  if t.contains '\'' && !t.contains '"' then '"' else '\''

/-- A character as its code point in hexadecimal. -/
def escapeCode (c : CodePoint) : Text :=
  let n := c.toNat
  if n < 0x100 then .char '\\' :: .char 'x' :: hex 2 n
  else if n < 0x10000 then .char '\\' :: .char 'u' :: hex 4 n
  else .char '\\' :: .char 'U' :: hex 8 n

/-- A character inside quotes; `shows` tells which characters stand for themselves. -/
def quoteChar (quote : CodePoint) (shows : CodePoint → Bool) (c : CodePoint) : Text :=
  if c = quote ∨ c = '\\' then [.char '\\', c]
  else if c = '\t' then "\\t"
  else if c = '\n' then "\\n"
  else if c = '\r' then "\\r"
  else if shows c then [c]
  else escapeCode c

/-- A text between quotes. -/
def quoted (t : Text) : Text :=
  let quote := quoteFor t
  quote :: t.flatMap (quoteChar quote isPrintable) ++ [quote]

/-- Bytes between quotes, after a `b`. -/
def quotedBytes (content : Bytes) : Text :=
  let t := content.map fun b => CodePoint.ofNat b.toNat
  let quote := quoteFor t
  .char 'b' :: quote ::
    t.flatMap (quoteChar quote fun c => 32 ≤ c.toNat && c.toNat < 127) ++ [quote]

end Cascade.Text
