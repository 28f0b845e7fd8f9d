/-
  Cascade.Dotenv.Document
  ────────────────────────────────
  **LINES AND DOCUMENTS.**

  A line assigns a value to a key when, after trimming, it does not begin
  with a comment mark or a bracket, has an equals sign, and has something
  on both sides of the first one; the right side must not begin with a
  comment mark.  Every other line says nothing.  A document is read line by
  line; the last assignment of a key counts.
-/
import Cascade.Dotenv.Assigned
import Cascade.Text.Line

namespace Cascade.Dotenv

open Cascade.Text

/-- The assignment a line makes, if it makes one. -/
def assignment? (line : Text) : Option (Text × Value) :=
  let line := trim line
  if startsWithAny ['#', ';', '['] line then none
  else
    match cut '=' line with
    | (_, none) => none
    | (left, some right) =>
      let key := trim left
      let text := trim right
      if key = [] ∨ startsWithAny ['#', ';'] text then none
      else (value? text).map fun v => (key, v)

/-- The assignments of a document, in order. -/
def assignments (text : Text) : List (Text × Value) := (lines text).filterMap assignment?

/-- The mapping a document stands for. -/
def parse (text : Text) : Mapping Value := Table.ofList (assignments text)

/-- The mapping a file's bytes stand for: UTF-8 with an optional byte order mark. -/
def decode (content : Bytes) : Except Utf8.Fault (Mapping Value) :=
  (Utf8.decodeMarked content).map fun text => parse (unifyLineEnds text)

end Cascade.Dotenv
