/-
  Cascade.Dotenv.Numeral
  ────────────────────────────────
  **NUMERIC LITERALS.**

  With D a decimal digit of any script and G = D(_?D)*:

      numeral  =  [+|-]  (G | G. | G.G | .G)  [(e|E) [+|-] G]

  A numeral with a point or an exponent is a double, every other one an
  integer; integers of more than 4300 digits, and all texts that are no
  numeral, stay text.
-/
import Cascade.Number.Binary64
import Cascade.Text.Digit
import Cascade.Value.Rendering

namespace Cascade.Dotenv

open Cascade.Text

/-- A numeric literal: its digit values before the point, after the point if there is one,
and in the exponent if there is one. -/
structure Numeral where
  negative : Bool
  whole : List Nat
  fraction : Option (List Nat)
  exponent : Option (Bool × List Nat)
  deriving DecidableEq, Repr

namespace Numeral

/-! ## §1. Reading. -/

/-- The digits that continue a group, each after at most one underscore, and the rest. -/
def moreDigits : Text → List Nat × Text
  | [] => ([], [])
  | .char '_' :: c :: rest =>
    match digitValue? c with
    | some d => let (ds, rest) := moreDigits rest; (d :: ds, rest)
    | none => ([], .char '_' :: c :: rest)
  | c :: rest =>
    match digitValue? c with
    | some d => let (ds, rest) := moreDigits rest; (d :: ds, rest)
    | none => ([], c :: rest)

/-- The digit group at the front of a text, empty when there is none, and the rest. -/
def digitGroup : Text → List Nat × Text
  | [] => ([], [])
  | c :: rest =>
    match digitValue? c with
    | some d => let (ds, rest) := moreDigits rest; (d :: ds, rest)
    | none => ([], c :: rest)

/-- A sign at the front of a text (true for minus), and the rest. -/
def sign : Text → Bool × Text
  | .char '+' :: rest => (false, rest)
  | .char '-' :: rest => (true, rest)
  | rest => (false, rest)

/-- The point and the digits after it, if there is a point, and the rest. -/
def fractionPart : Text → Option (List Nat) × Text
  | .char '.' :: rest => let (ds, rest) := digitGroup rest; (some ds, rest)
  | rest => (none, rest)

/-- The exponent that makes up a whole text: none for the empty text. -/
def exponentPart? : Text → Option (Option (Bool × List Nat))
  | [] => some none
  | c :: rest =>
    if c = 'e' ∨ c = 'E' then
      let (negative, rest) := sign rest
      match digitGroup rest with
      | (d :: ds, []) => some (some (negative, d :: ds))
      | _ => none
    else none

/-- The numeral that makes up a whole text. -/
def ofText? (text : Text) : Option Numeral :=
  let (negative, rest) := sign text
  let (whole, rest) := digitGroup rest
  let (fraction, rest) := fractionPart rest
  if whole = [] ∧ fraction.getD [] = [] then none
  else (exponentPart? rest).map fun exponent => ⟨negative, whole, fraction, exponent⟩

/-! ## §2. The number. -/

/-- An integer given by its sign and its absolute value. -/
def signed (negative : Bool) (n : Nat) : Int := if negative then -Int.ofNat n else Int.ofNat n

/-- The power of ten an exponent stands for. -/
def exponentValue (exponent : Option (Bool × List Nat)) : Int :=
  match exponent with
  | none => 0
  | some (negative, digits) => signed negative (natOfDigits digits)

/-- Whether a numeral is written as a double: with a point or an exponent. -/
def isFractional (n : Numeral) : Bool := n.fraction.isSome || n.exponent.isSome

/-- The number a numeral stands for; none for an integer with too many digits. -/
def value? (n : Numeral) : Option Value :=
  if n.isFractional then
    let digits := n.whole ++ n.fraction.getD []
    let power := exponentValue n.exponent - Int.ofNat (n.fraction.getD []).length
    some (.float (Binary64.ofDecimal n.negative (natOfDigits digits) power))
  else if n.whole.length ≤ digitLimit then
    some (.int (signed n.negative (natOfDigits n.whole)))
  else none

end Numeral

/-- The value of a bare text: the number it is a literal of, else the text itself. -/
def bareValue (text : Text) : Value :=
  ((Numeral.ofText? text).bind Numeral.value?).getD (.str text)

end Cascade.Dotenv
