/-
  Cascade.Log.Entry
  ────────────────────────────────
  **LOG ENTRIES AND LEVELS.**

  An entry is a level, a message and named context values in the order they
  were given.  Levels are named without regard to case or surrounding
  blanks, WARNING being another name of WARN; every other name, the empty
  one included, means INFO.

  A log call uses the names `self` and `msg` for itself: an entry with a
  context value of such a name cannot be logged, whatever its level.
-/
import Cascade.Text.Blank
import Cascade.Value.Basic

namespace Cascade

open Cascade.Text

/-- How serious an entry is. -/
inductive Level
  | debug
  | info
  | warn
  | error
  deriving DecidableEq, Repr

namespace Level

/-- The position of a level, from the least serious on. -/
def rank : Level → Nat
  | debug => 0
  | info => 1
  | warn => 2
  | error => 3

/-- The name of a level. -/
def name : Level → Text
  | debug => "DEBUG"
  | info => "INFO"
  | warn => "WARN"
  | error => "ERROR"

/-- The name of the log call of a level. -/
def call : Level → Text
  | debug => "debug"
  | info => "info"
  | warn => "warn"
  | error => "error"

/-- The capital of a letter, as far as the names of levels can tell: ASCII letters, and the
dotless i, whose capital is an ASCII letter too. -/
def capital (c : CodePoint) : CodePoint :=
  if 97 ≤ c.toNat ∧ c.toNat ≤ 122 then .ofNat (c.toNat - 32)
  else if c = 'ı' then 'I'
  else c

/-- The level of a name. -/
def ofName (t : Text) : Level :=
  let t := (trim t).map capital
  if t = "DEBUG" then debug
  else if t = "WARN" ∨ t = "WARNING" then warn
  else if t = "ERROR" then error
  else info

/-- Whether a level is at least as serious as a threshold. -/
def reaches (level threshold : Level) : Bool := threshold.rank ≤ level.rank

end Level

/-- A log entry. -/
structure Entry where
  level : Level
  message : Text
  context : List (Text × Value)
  deriving DecidableEq, Repr

namespace Entry

/-- The names a log call uses for itself. -/
def reservedNames : List Text := ["self", "msg"]

/-- The first name of a context value that a log call uses for itself. -/
def reservedName? (e : Entry) : Option Text :=
  (e.context.map Prod.fst).find? reservedNames.contains

/-- The entries of exactly one level, in order. -/
def atLevel (levelName : Text) (entries : List Entry) : List Entry :=
  entries.filter fun e => e.level.name = levelName

end Entry

end Cascade
