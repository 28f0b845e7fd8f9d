/-
  Cascade.Proofs.Digits
  ────────────────────────────────
  **DECIMAL DIGITS, THERE AND BACK.**

  What is written for a number are its digits, most significant first, and
  every reader of this library puts a number together from digit values in
  this order.  So reading back is one equation between lists of values:

      natOfDigits_append      — digits before others
      ofNat_eq_map            — the text of a number is the row of its digits
      natOfDigits_digitsOf    — and these make up the number again
      length_digitsOf_le      — a number below 10^k has at most k of them
-/
import Mathlib.Data.Nat.Digits.Lemmas
import Mathlib.Tactic.Ring
import Cascade.Text.Digit

namespace Cascade.Text

/-! ## §1. The characters of digits. -/

/-- The code point of a digit. -/
theorem toNat_digit {d : Nat} (h : d < 10) : (digit d).toNat = 48 + d := by
  have hd : 48 + d % 10 = 48 + d := by omega
  rw [digit, hd, CodePoint.toNat_ofNat (by omega)]

/-- The character of a digit has its value. -/
theorem digitValue?_digit {d : Nat} (h : d < 10) : digitValue? (digit d) = some d := by
  have hn := toNat_digit h
  unfold digitValue?
  rw [hn, if_pos (by omega), if_pos (by omega)]
  exact congrArg some (by omega)

/-! ## §2. The digits of a number. -/

/-- The digit values of a number, most significant first. -/
def digitsOf (n : Nat) : List Nat := if n = 0 then [0] else (Nat.digits 10 n).reverse

/-- The digits of a number are those of its tenth and its last one. -/
theorem digitsOf_of_ten_le {n : Nat} (h : 10 ≤ n) :
    digitsOf n = digitsOf (n / 10) ++ [n % 10] := by
  have hn : n ≠ 0 := by omega
  have ht : n / 10 ≠ 0 := by omega
  have hs : Nat.digits 10 n = n % 10 :: Nat.digits 10 (n / 10) :=
    Nat.digits_eq_cons_digits_div (by omega) hn
  unfold digitsOf
  rw [if_neg hn, if_neg ht, hs, List.reverse_cons]

/-- A number below ten is its own digit. -/
theorem digitsOf_of_lt_ten {n : Nat} (h : n < 10) : digitsOf n = [n] := by
  unfold digitsOf
  by_cases hn : n = 0
  · rw [if_pos hn, hn]
  · rw [if_neg hn, Nat.digits_of_lt 10 n hn h, List.reverse_singleton]

/-- With enough steps all digits are split off. -/
theorem digitsWithin_eq_map {steps n : Nat} (h : n ≤ steps) :
    digitsWithin steps n = (digitsOf n).map digit := by
  induction steps generalizing n with
  | zero =>
    have hn : n = 0 := by omega
    subst hn
    rfl
  | succ steps ih =>
    rw [digitsWithin]
    by_cases hn : n < 10
    · rw [if_pos hn, digitsOf_of_lt_ten hn]
      rfl
    · have hd : digit (n % 10) = digit n := by rw [digit, digit, Nat.mod_mod]
      rw [if_neg hn, ih (show n / 10 ≤ steps by omega), digitsOf_of_ten_le (show 10 ≤ n by omega),
        List.map_append, List.map_singleton, hd]

/-- The text of a number is the row of its digits. -/
theorem ofNat_eq_map (n : Nat) : ofNat n = (digitsOf n).map digit :=
  digitsWithin_eq_map (Nat.le_refl n)

/-- Digits are below ten. -/
theorem lt_ten_of_mem_digitsOf {n d : Nat} (h : d ∈ digitsOf n) : d < 10 := by
  unfold digitsOf at h
  by_cases hn : n = 0
  · rw [if_pos hn, List.mem_singleton] at h
    omega
  · rw [if_neg hn, List.mem_reverse] at h
    exact Nat.digits_lt_base (by omega) h

/-- The characters of a number are digits. -/
theorem toNat_of_mem_ofNat {n : Nat} {c : CodePoint} (h : c ∈ ofNat n) :
    48 ≤ c.toNat ∧ c.toNat < 58 := by
  rw [ofNat_eq_map] at h
  obtain ⟨d, hd, rfl⟩ := List.mem_map.1 h
  have hlt := lt_ten_of_mem_digitsOf hd
  rw [toNat_digit hlt]
  omega

/-- One digit more counts ten times what stands before it. -/
theorem natOfDigits_append_singleton (ds : List Nat) (d : Nat) :
    natOfDigits (ds ++ [d]) = 10 * natOfDigits ds + d := by
  simp [natOfDigits, List.foldl_append]

/-- Digits count as much as there are digits after them. -/
theorem natOfDigits_append (ds es : List Nat) :
    natOfDigits (ds ++ es) = natOfDigits ds * 10 ^ es.length + natOfDigits es := by
  induction es using List.reverseRecOn with
  | nil => simp [natOfDigits]
  | append_singleton es d ih =>
    rw [← List.append_assoc, natOfDigits_append_singleton, ih, natOfDigits_append_singleton,
      List.length_append, List.length_singleton, Nat.pow_succ]
    ring

/-- Zeros are worth nothing. -/
theorem natOfDigits_replicate (k : Nat) : natOfDigits (List.replicate k 0) = 0 := by
  induction k with
  | zero => rfl
  | succ k ih => rw [List.replicate_succ', natOfDigits_append_singleton, ih]

/-- The digits of a number make up the number. -/
theorem natOfDigits_digitsOf (n : Nat) : natOfDigits (digitsOf n) = n := by
  induction n using Nat.strong_induction_on with
  | _ n ih =>
    by_cases hn : n < 10
    · rw [digitsOf_of_lt_ten hn]
      simp [natOfDigits]
    · rw [digitsOf_of_ten_le (by omega), natOfDigits_append_singleton, ih (n / 10) (by omega)]
      omega

/-- There is always a digit. -/
theorem digitsOf_ne_nil (n : Nat) : digitsOf n ≠ [] := by
  by_cases hn : n < 10
  · rw [digitsOf_of_lt_ten hn]
    simp
  · rw [digitsOf_of_ten_le (by omega)]
    simp

/-- An integer is written with at least one character. -/
theorem ofInt_ne_nil (n : Int) : ofInt n ≠ [] := by
  cases n with
  | ofNat m =>
    show Text.ofNat m ≠ []
    rw [ofNat_eq_map]
    simpa using digitsOf_ne_nil m
  | negSucc m => simp [ofInt]

/-- Only zero begins with a zero. -/
theorem head?_digitsOf {n : Nat} (h : n ≠ 0) : (digitsOf n).head? ≠ some 0 := by
  induction n using Nat.strong_induction_on with
  | _ n ih =>
    by_cases hn : n < 10
    · rw [digitsOf_of_lt_ten hn]
      simpa using h
    · have hhead : (digitsOf n).head? = (digitsOf (n / 10)).head? := by
        rw [digitsOf_of_ten_le (by omega)]
        cases hd : digitsOf (n / 10) with
        | nil => exact absurd hd (digitsOf_ne_nil _)
        | cons d ds => rfl
      rw [hhead]
      exact ih (n / 10) (by omega) (by omega)

/-- A number below a power of ten has at most as many digits. -/
theorem length_digitsOf_le {n k : Nat} (hk : 0 < k) (h : n < 10 ^ k) :
    (digitsOf n).length ≤ k := by
  unfold digitsOf
  by_cases hn : n = 0
  · rw [if_pos hn]
    exact hk
  · rw [if_neg hn, List.length_reverse]
    exact (Nat.digits_length_le_iff (by omega) n).2 h

end Cascade.Text
