/-
  Cascade.Number.Shortest
  ────────────────────────────────
  **THE SHORTEST DECIMAL THAT READS BACK.**

  A double is written with the fewest significant digits that read back as
  the same double; among those, with the ones nearest to it.  On the grid
  of decimals with `n` digits only the two neighbours of the number have to
  be tried: if any decimal of the grid reads back, one of them does.  A
  number that none of 1 … 17 digits would render is written out exactly.

  The notation is a record: decimals whose leading digit stands at 10^−4 …
  10^15 are positional and always have a fraction, all others have an
  exponent with a sign and at least two digits.
-/
import Cascade.Number.Binary64
import Cascade.Text.Basic

namespace Cascade

/-- The decimal `digits · 10^power`. -/
structure Decimal where
  digits : Nat
  power : Int
  deriving DecidableEq, Repr

namespace Decimal

/-- The double nearest to a decimal of the given sign. -/
def toBinary64 (negative : Bool) (d : Decimal) : Binary64 :=
  Binary64.ofDecimal negative d.digits d.power

/-- The same decimal without trailing zeros, at most `steps` of them. -/
def dropZerosWithin : (steps : Nat) → Decimal → Decimal
  | 0, d => d
  | steps + 1, d =>
    if d.digits ≠ 0 ∧ d.digits % 10 = 0 then
      dropZerosWithin steps ⟨d.digits / 10, d.power + 1⟩
    else d

/-- The same decimal without trailing zeros. -/
def dropZeros (d : Decimal) : Decimal := dropZerosWithin d.digits.log2 d

/-! ## §1. Finding the digits. -/

/-- How often `num / den`, below one, is to be multiplied by ten until it is at least one. -/
def shortfall (den : Nat) : (steps : Nat) → Nat → Nat
  | 0, _ => 0
  | steps + 1, num => if den ≤ num then 0 else shortfall den steps (10 * num) + 1

/-- The `k` with `10^(k-1) ≤ num / den < 10^k`. -/
def magnitude (num den : Nat) : Int :=
  if den ≤ num then Int.ofNat (Text.ofNat (num / den)).length
  else 1 - Int.ofNat (shortfall den 400 num)

/-- The neighbour of `num / den` on the grid `10^power` that reads back as `x`; the nearer
one when both do, the even one when both are equally near. -/
def onGrid? (x : Binary64) (negative : Bool) (num den : Nat) (power : Int) : Option Decimal :=
  let (n, d) : Nat × Nat :=
    if 0 ≤ power then (num, den * Nat.pow 10 power.toNat)
    else (num * Nat.pow 10 (-power).toNat, den)
  let low : Decimal := ⟨n / d, power⟩
  let high : Decimal := ⟨n / d + 1, power⟩
  let lowFits := low.toBinary64 negative = x
  let highFits := high.toBinary64 negative = x
  let nearest := Binary64.roundHalfEven n d
  if lowFits ∧ highFits then some (if nearest = n / d then low else high)
  else if lowFits then some low
  else if highFits then some high
  else none

/-- The exact value of `mantissa · 2^exponent`. -/
def exact (mantissa : Nat) (exponent : Int) : Decimal :=
  if 0 ≤ exponent then ⟨mantissa * Nat.pow 2 exponent.toNat, 0⟩
  else ⟨mantissa * Nat.pow 5 (-exponent).toNat, exponent⟩

/-- The shortest decimal that reads back as `± mantissa · 2^exponent`. -/
def shortest (negative : Bool) (mantissa : Nat) (exponent : Int) : Decimal :=
  if mantissa = 0 then ⟨0, 0⟩
  else
    let (num, den) := Binary64.scaled mantissa 1 (-exponent)
    let k := magnitude num den
    let x := Binary64.finite negative mantissa exponent
    let found := (List.range 17).findSome? fun i =>
      onGrid? x negative num den (k - Int.ofNat (i + 1))
    dropZeros (found.getD (exact mantissa exponent))

/-! ## §2. Writing them. -/

/-- How doubles are written: the words for what is no decimal, and the places of the
leading digit that are written without an exponent. -/
structure Style where
  nanWord : Text
  infinityWord : Text
  leastPlain : Int
  greatestPlain : Int

/-- The notation of displayed values. -/
def Style.display : Style := ⟨"nan", "inf", -4, 15⟩

/-- The notation inside JSON documents. -/
def Style.json : Style := ⟨"NaN", "Infinity", -4, 15⟩

/-- An exponent: its sign and at least two digits. -/
def exponentText (e : Int) : Text :=
  let digits := Text.ofNat e.natAbs
  (if e < 0 then "-" else "+") ++ (if digits.length < 2 then "0" ++ digits else digits)

/-- A row of zeros. -/
def zeroes (count : Nat) : Text := List.replicate count '0'

/-- A decimal in a notation. -/
def text (style : Style) (d : Decimal) : Text :=
  let digits := Text.ofNat d.digits
  let place := Int.ofNat digits.length + d.power - 1
  if style.leastPlain ≤ place ∧ place ≤ style.greatestPlain then
    if place < 0 then "0." ++ zeroes (-place - 1).toNat ++ digits
    else
      let whole := place.toNat + 1
      if whole < digits.length then digits.take whole ++ "." ++ digits.drop whole
      else digits ++ zeroes (whole - digits.length) ++ ".0"
  else
    match digits with
    | [] => []
    | [lead] => lead :: .char 'e' :: exponentText place
    | lead :: more => lead :: .char '.' :: more ++ "e" ++ exponentText place

end Decimal

/-- A double in a notation. -/
def Binary64.text (style : Decimal.Style) : Binary64 → Text
  | .nan => style.nanWord
  | .infinite negative => if negative then '-' :: style.infinityWord else style.infinityWord
  | .finite negative m e =>
    let digits := (Decimal.shortest negative m e).text style
    if negative then '-' :: digits else digits

end Cascade
