/-
  Cascade.Number.Binary64
  ────────────────────────────────
  **DOUBLE PRECISION NUMBERS, EXACTLY.**

  A finite double is `± mantissa · 2^exponent`, in canonical form: the
  mantissa has 53 bits, or fewer with the least exponent −1074.  So two
  doubles are the same number with the same sign exactly when they are the
  same value of `Binary64`, and no floating point operation is involved.

  `ofQuotient` rounds a quotient of natural numbers to the nearest double, a
  tie to the even mantissa; `ofDecimal` reads `digits · 10^power` through
  it.  What is too large becomes infinite, what is too small becomes zero.
-/

namespace Cascade

/-- A double: not a number, an infinity, or `± mantissa · 2^exponent`. -/
inductive Binary64
  | nan
  | infinite (negative : Bool)
  | finite (negative : Bool) (mantissa : Nat) (exponent : Int)
  deriving DecidableEq, Repr

namespace Binary64

/-- The exponent of the smallest doubles. -/
def leastExponent : Int := -1074

/-- The exponent of the largest doubles. -/
def greatestExponent : Int := 971

/-- `num / (den · 2^e)` as a quotient of natural numbers. -/
def scaled (num den : Nat) (e : Int) : Nat × Nat :=
  if 0 ≤ e then (num, den * Nat.pow 2 e.toNat) else (num * Nat.pow 2 (-e).toNat, den)

/-- The exponent at which the quotient `num / den` fills 53 bits, or the least one. -/
def exponentFor (num den : Nat) : Int :=
  let e := max leastExponent (Int.ofNat num.log2 - Int.ofNat den.log2 - 52)
  let (n, d) := scaled num den e
  if n / d < Nat.pow 2 52 ∧ leastExponent < e then e - 1 else e

/-- The quotient `num / den`, rounded to the nearest natural number, a tie to the even one. -/
def roundHalfEven (num den : Nat) : Nat :=
  let q := num / den
  let twice := 2 * (num % den)
  if den < twice ∨ (twice = den ∧ q % 2 = 1) then q + 1 else q

/-- The double with this mantissa of at most 53 bits (or just 2^53, after a carry). -/
def ofMantissa (negative : Bool) (mantissa : Nat) (e : Int) : Binary64 :=
  let (m, e) := if mantissa = Nat.pow 2 53 then (Nat.pow 2 52, e + 1) else (mantissa, e)
  if greatestExponent < e then .infinite negative else .finite negative m e

/-- The zero of the given sign. -/
def zero (negative : Bool) : Binary64 := .finite negative 0 leastExponent

/-- The double nearest to `± num / den`. -/
def ofQuotient (negative : Bool) (num den : Nat) : Binary64 :=
  if num = 0 then zero negative
  else
    let e := exponentFor num den
    let (n, d) := scaled num den e
    ofMantissa negative (roundHalfEven n d) e

/-- The double nearest to `± digits · 10^power`.  Powers far outside the range of doubles
are answered without raising ten to them. -/
def ofDecimal (negative : Bool) (digits : Nat) (power : Int) : Binary64 :=
  if digits = 0 then zero negative
  else if 400 < power then .infinite negative
  else if Int.ofNat digits.log2 + 1 + power < -400 then zero negative
  else if 0 ≤ power then ofQuotient negative (digits * Nat.pow 10 power.toNat) 1
  else ofQuotient negative digits (Nat.pow 10 (-power).toNat)

end Binary64

end Cascade
