/-
  Cascade.Proofs.Rounding
  ────────────────────────────────
  **ROUNDING DEPENDS ON THE NUMBER ALONE.**

  A quotient, or a decimal, is rounded at the exponent at which its value
  fills 53 bits.  There is just one such exponent, so nothing else about the
  quotient matters:

      exponentFor_eq        — the exponent of a quotient is that of its value
      ofQuotient_eq         — a quotient is rounded by its value
      ofDecimal_eq          — so is a decimal, also where its size alone
                              already tells the answer
      nearest_exact         — a value that is a double is that double
      canonical_ofDecimal   — what is read is in canonical form
-/
import Mathlib.Algebra.Order.Field.Power
import Mathlib.Algebra.Order.Floor.Semifield
import Mathlib.Data.Int.Log
import Mathlib.Data.Rat.Floor
import Mathlib.Tactic.FieldSimp
import Mathlib.Tactic.Linarith
import Mathlib.Tactic.NormNum
import Mathlib.Tactic.Positivity
import Mathlib.Tactic.Ring
import Cascade.Number.Binary64

namespace Cascade.Binary64

/-! ## §1. The nearest natural number. -/

/-- The natural number nearest to a value that is not negative, of two the even one. -/
def nearestEven (x : ℚ) : Nat :=
  let q := ⌊x⌋₊
  if 1 < 2 * (x - q) ∨ (2 * (x - q) = 1 ∧ q % 2 = 1) then q + 1 else q

/-- A quotient is rounded as its value is. -/
theorem roundHalfEven_eq {num den : Nat} (h : 0 < den) :
    roundHalfEven num den = nearestEven ((num : ℚ) / den) := by
  have hden : (0 : ℚ) < den := by exact_mod_cast h
  have hfloor : ⌊(num : ℚ) / den⌋₊ = num / den := Nat.floor_div_eq_div num den
  have hparts : (num : ℚ) = den * (num / den : Nat) + (num % den : Nat) := by
    exact_mod_cast (Nat.div_add_mod num den).symm
  have hrest : 2 * ((num : ℚ) / den - (num / den : Nat)) = (2 * (num % den) : Nat) / den := by
    rw [eq_div_iff hden.ne', mul_assoc, sub_mul, div_mul_cancel₀ _ hden.ne']
    push_cast
    linarith
  have hmore : 1 < 2 * ((num : ℚ) / den - (num / den : Nat)) ↔ den < 2 * (num % den) := by
    rw [hrest, one_lt_div hden]
    exact_mod_cast Iff.rfl
  have hsame : 2 * ((num : ℚ) / den - (num / den : Nat)) = 1 ↔ 2 * (num % den) = den := by
    rw [hrest, div_eq_one_iff_eq hden.ne']
    exact_mod_cast Iff.rfl
  unfold roundHalfEven nearestEven
  simp only [hfloor, hmore, hsame]

/-- A natural number is the nearest to itself. -/
theorem nearestEven_natCast (n : Nat) : nearestEven (n : ℚ) = n := by
  unfold nearestEven
  simp

/-- A value of at least `n` is not rounded below it. -/
theorem le_nearestEven {x : ℚ} {n : Nat} (h : (n : ℚ) ≤ x) : n ≤ nearestEven x := by
  have hn : n ≤ ⌊x⌋₊ := Nat.le_floor h
  unfold nearestEven
  simp only
  split <;> omega

/-- A value below `n` is not rounded above it. -/
theorem nearestEven_le {x : ℚ} {n : Nat} (hn : 0 < n) (h : x < n) : nearestEven x ≤ n := by
  have hf : ⌊x⌋₊ < n := (Nat.floor_lt' hn.ne').2 h
  unfold nearestEven
  simp only
  split <;> omega

/-- A value below one half is rounded to zero. -/
theorem nearestEven_eq_zero {x : ℚ} (h : x < 1 / 2) : nearestEven x = 0 := by
  have hf : ⌊x⌋₊ = 0 := Nat.floor_eq_zero.2 (by linarith)
  unfold nearestEven
  rw [hf, if_neg]
  rintro (hm | ⟨-, hm⟩)
  · push_cast at hm
    linarith
  · omega

/-! ## §2. The exponent of a value. -/

/-- The exponent at which a value fills 53 bits, or the least one. -/
def exponentOf (x : ℚ) : Int := max leastExponent (Int.log 2 x - 52)

/-- A value has at most 53 bits at its exponent. -/
theorem lt_exponentOf {x : ℚ} (hx : 0 < x) : x < 2 ^ (53 + exponentOf x) := by
  have hlog : Int.log 2 x < 53 + exponentOf x := by
    unfold exponentOf
    omega
  simpa using (Int.lt_zpow_iff_log_lt (b := 2) (by norm_num) hx).2 hlog

/-- Above the least exponent it has 53 bits. -/
theorem exponentOf_le {x : ℚ} (hx : 0 < x) (h : leastExponent < exponentOf x) :
    2 ^ (52 + exponentOf x) ≤ x := by
  have hlog : 52 + exponentOf x ≤ Int.log 2 x := by
    unfold exponentOf at h ⊢
    omega
  simpa using (Int.zpow_le_iff_le_log (b := 2) (by norm_num) hx).2 hlog

/-- No other exponent is like this. -/
theorem eq_exponentOf {x : ℚ} {e : Int} (hx : 0 < x) (hleast : leastExponent ≤ e)
    (hbelow : x < 2 ^ (53 + e)) (habove : leastExponent < e → 2 ^ (52 + e) ≤ x) :
    e = exponentOf x := by
  have h1 : Int.log 2 x < 53 + e :=
    (Int.lt_zpow_iff_log_lt (b := 2) (by norm_num) hx).1 (by simpa using hbelow)
  have h2 : leastExponent < e → 52 + e ≤ Int.log 2 x := fun h =>
    (Int.zpow_le_iff_le_log (b := 2) (by norm_num) hx).1 (by simpa using habove h)
  unfold exponentOf
  omega

/-- The scaled quotient has the value over a power of two. -/
theorem scaled_ratio (num : Nat) {den : Nat} (h : 0 < den) (e : Int) :
    0 < (scaled num den e).2 ∧
      ((scaled num den e).1 : ℚ) / (scaled num den e).2 = (num : ℚ) / den / 2 ^ e := by
  have hden : (den : ℚ) ≠ 0 := by exact_mod_cast h.ne'
  unfold scaled
  by_cases he : 0 ≤ e
  · obtain ⟨k, rfl⟩ := Int.eq_ofNat_of_zero_le he
    rw [if_pos he]
    simp only [Int.toNat_natCast, Nat.pow_eq, zpow_natCast]
    refine ⟨by positivity, ?_⟩
    push_cast
    rw [div_div]
  · obtain ⟨k, rfl⟩ : ∃ k : Nat, e = -k := ⟨e.natAbs, by omega⟩
    rw [if_neg he]
    simp only [neg_neg, Int.toNat_natCast, Nat.pow_eq, zpow_neg, zpow_natCast]
    refine ⟨h, ?_⟩
    push_cast
    field_simp

/-- The bit lengths of a quotient leave two exponents to choose from. -/
theorem log_quotient {num den : Nat} (hnum : 0 < num) (hden : 0 < den) :
    (num.log2 : Int) - den.log2 - 1 ≤ Int.log 2 ((num : ℚ) / den) ∧
      Int.log 2 ((num : ℚ) / den) < (num.log2 : Int) - den.log2 + 1 := by
  have hn : (0 : ℚ) < num := by exact_mod_cast hnum
  have hd : (0 : ℚ) < den := by exact_mod_cast hden
  have hn1 : ((2 : ℚ) ^ num.log2) ≤ num := by exact_mod_cast Nat.log2_self_le hnum.ne'
  have hn2 : (num : ℚ) < 2 ^ (num.log2 + 1) := by exact_mod_cast Nat.lt_log2_self
  have hd1 : ((2 : ℚ) ^ den.log2) ≤ den := by exact_mod_cast Nat.log2_self_le hden.ne'
  have hd2 : (den : ℚ) < 2 ^ (den.log2 + 1) := by exact_mod_cast Nat.lt_log2_self
  have hpow (a b : Nat) (e : Int) (h : e + b = a) : (2 : ℚ) ^ e * 2 ^ b = 2 ^ a := by
    rw [← zpow_natCast, ← zpow_natCast, ← zpow_add₀ (by norm_num), h]
  constructor
  · rw [← Int.zpow_le_iff_le_log (b := 2) (by norm_num) (by positivity), le_div_iff₀ hd]
    push_cast
    calc (2 : ℚ) ^ ((num.log2 : Int) - den.log2 - 1) * den
        ≤ 2 ^ ((num.log2 : Int) - den.log2 - 1) * 2 ^ (den.log2 + 1) := by gcongr
      _ = 2 ^ num.log2 := hpow _ _ _ (by push_cast; ring)
      _ ≤ num := hn1
  · rw [← Int.lt_zpow_iff_log_lt (b := 2) (by norm_num) (by positivity), div_lt_iff₀ hd]
    push_cast
    calc (num : ℚ) < 2 ^ (num.log2 + 1) := hn2
      _ = 2 ^ ((num.log2 : Int) - den.log2 + 1) * 2 ^ den.log2 :=
        (hpow _ _ _ (by push_cast; ring)).symm
      _ ≤ 2 ^ ((num.log2 : Int) - den.log2 + 1) * den := by gcongr

/-- The exponent that is computed for a quotient is that of its value. -/
theorem exponentFor_eq {num den : Nat} (hnum : 0 < num) (hden : 0 < den) :
    exponentFor num den = exponentOf ((num : ℚ) / den) := by
  have hx : (0 : ℚ) < (num : ℚ) / den := by positivity
  obtain ⟨hlow, hhigh⟩ := log_quotient hnum hden
  have hless (e : Int) : (scaled num den e).1 / (scaled num den e).2 < Nat.pow 2 52 ↔
      Int.log 2 ((num : ℚ) / den) < 52 + e := by
    obtain ⟨hpos, hratio⟩ := scaled_ratio num hden e
    have hs : (0 : ℚ) < (scaled num den e).2 := by exact_mod_cast hpos
    rw [← Int.lt_zpow_iff_log_lt (b := 2) (by norm_num) hx, Nat.cast_ofNat,
      zpow_add₀ (by norm_num), ← div_lt_iff₀ (by positivity), ← hratio, div_lt_iff₀ hs,
      Nat.div_lt_iff_lt_mul hpos]
    exact_mod_cast Iff.rfl
  unfold exponentFor exponentOf
  simp only [hless, Int.ofNat_eq_natCast]
  split <;> omega

/-! ## §3. The nearest double. -/

/-- The double nearest to a value that is not negative. -/
def nearest (negative : Bool) (x : ℚ) : Binary64 :=
  if x = 0 then zero negative
  else ofMantissa negative (nearestEven (x / 2 ^ exponentOf x)) (exponentOf x)

/-- **A QUOTIENT IS ROUNDED AS ITS VALUE IS.** -/
theorem ofQuotient_eq (negative : Bool) (num : Nat) {den : Nat} (hden : 0 < den) :
    ofQuotient negative num den = nearest negative ((num : ℚ) / den) := by
  have hd : (den : ℚ) ≠ 0 := by exact_mod_cast hden.ne'
  unfold ofQuotient nearest
  by_cases hnum : num = 0
  · rw [if_pos hnum, if_pos (by rw [hnum]; simp)]
  · have hn : (num : ℚ) ≠ 0 := by exact_mod_cast hnum
    obtain ⟨hpos, hratio⟩ := scaled_ratio num hden (exponentOf ((num : ℚ) / den))
    rw [if_neg hnum, if_neg (div_ne_zero hn hd), exponentFor_eq (Nat.pos_of_ne_zero hnum) hden]
    simp only [roundHalfEven_eq hpos, hratio]

/-- The mantissa of a value has at most 53 bits, or has just been carried. -/
theorem nearestEven_exponentOf {x : ℚ} (hx : 0 < x) :
    nearestEven (x / 2 ^ exponentOf x) ≤ 2 ^ 53 ∧
      (leastExponent < exponentOf x → 2 ^ 52 ≤ nearestEven (x / 2 ^ exponentOf x)) := by
  have hpow : (0 : ℚ) < 2 ^ exponentOf x := by positivity
  constructor
  · refine nearestEven_le (by norm_num) ?_
    have hb := lt_exponentOf hx
    rw [zpow_add₀ (by norm_num)] at hb
    rw [div_lt_iff₀ hpow]
    exact_mod_cast hb
  · intro hleast
    have ha := exponentOf_le hx hleast
    rw [zpow_add₀ (by norm_num)] at ha
    refine le_nearestEven ?_
    rw [le_div_iff₀ hpow]
    exact_mod_cast ha

/-- A value that is too large is infinite. -/
theorem nearest_of_large (negative : Bool) {x : ℚ} (h : 2 ^ 1024 ≤ x) :
    nearest negative x = .infinite negative := by
  have hx : 0 < x := lt_of_lt_of_le (by positivity) h
  have hlog : (1024 : Int) ≤ Int.log 2 x :=
    (Int.zpow_le_iff_le_log (b := 2) (by norm_num) hx).1 (by exact_mod_cast h)
  have he : greatestExponent < exponentOf x := by
    unfold greatestExponent exponentOf
    omega
  unfold nearest ofMantissa
  rw [if_neg hx.ne']
  -- a carry makes the exponent larger still
  by_cases hc : nearestEven (x / 2 ^ exponentOf x) = Nat.pow 2 53
  · simp only [if_pos hc, if_pos (show greatestExponent < exponentOf x + 1 by omega)]
  · simp only [if_neg hc, if_pos he]

/-- A value that is too small is zero. -/
theorem nearest_of_small (negative : Bool) {x : ℚ} (hx : 0 < x) (h : x < 2 ^ (-1075 : Int)) :
    nearest negative x = zero negative := by
  have hlog : Int.log 2 x < -1075 :=
    (Int.lt_zpow_iff_log_lt (b := 2) (by norm_num) hx).1 (by simpa using h)
  have he : exponentOf x = leastExponent := by
    unfold exponentOf leastExponent
    omega
  have hhalf : x / 2 ^ leastExponent < 1 / 2 := by
    have hsplit : (2 : ℚ) ^ (-1075 : Int) = 1 / 2 * 2 ^ (-1074 : Int) := by
      rw [show (-1075 : Int) = -1 + -1074 by norm_num, zpow_add₀ (by norm_num)]
      norm_num
    unfold leastExponent
    rw [div_lt_iff₀ (by positivity), ← hsplit]
    exact h
  unfold nearest
  rw [if_neg hx.ne', he, nearestEven_eq_zero hhalf]
  rfl

/-- Powers of ten beyond the largest double. -/
theorem two_pow_le_ten_pow : (2 : Nat) ^ 1024 ≤ 10 ^ 400 := by decide +kernel

/-- Powers of ten below half the smallest one. -/
theorem two_pow_lt_ten_pow : (2 : Nat) ^ 1075 < 10 ^ 400 := by decide +kernel

/-- **A DECIMAL IS ROUNDED AS ITS VALUE IS.**  That its size is looked at first makes no
difference. -/
theorem ofDecimal_eq (negative : Bool) (digits : Nat) (power : Int) :
    ofDecimal negative digits power = nearest negative (digits * 10 ^ power) := by
  unfold ofDecimal
  by_cases hd : digits = 0
  · rw [if_pos hd, hd]
    simp [nearest]
  have hpos : (0 : ℚ) < digits := by exact_mod_cast Nat.pos_of_ne_zero hd
  rw [if_neg hd]
  by_cases hlarge : 400 < power
  · rw [if_pos hlarge, nearest_of_large]
    have hone : (1 : ℚ) ≤ digits := by exact_mod_cast Nat.pos_of_ne_zero hd
    have hnum : (2 : ℚ) ^ 1024 ≤ 10 ^ 400 := by exact_mod_cast two_pow_le_ten_pow
    calc (2 : ℚ) ^ 1024 ≤ 10 ^ (400 : Int) := by exact_mod_cast hnum
      _ ≤ 10 ^ power := zpow_le_zpow_right₀ (by norm_num) hlarge.le
      _ ≤ digits * 10 ^ power := le_mul_of_one_le_left (by positivity) hone
  rw [if_neg hlarge]
  by_cases hsmall : Int.ofNat digits.log2 + 1 + power < -400
  · rw [if_pos hsmall, nearest_of_small negative (by positivity)]
    have hlog : (digits : ℚ) < 10 ^ (digits.log2 + 1) := by
      have h2 : digits < 2 ^ (digits.log2 + 1) := Nat.lt_log2_self
      have h10 : 2 ^ (digits.log2 + 1) ≤ 10 ^ (digits.log2 + 1) :=
        Nat.pow_le_pow_left (by norm_num) _
      exact_mod_cast lt_of_lt_of_le h2 h10
    have hnum : (10 : ℚ) ^ (-400 : Int) < 2 ^ (-1075 : Int) := by
      rw [zpow_neg, zpow_neg, inv_lt_inv₀ (by positivity) (by positivity)]
      exact_mod_cast two_pow_lt_ten_pow
    calc (digits : ℚ) * 10 ^ power < 10 ^ (digits.log2 + 1) * 10 ^ power := by gcongr
      _ = 10 ^ (Int.ofNat digits.log2 + 1 + power) := by
        rw [zpow_add₀ (by norm_num)]
        rfl
      _ ≤ 10 ^ (-400 : Int) := zpow_le_zpow_right₀ (by norm_num) hsmall.le
      _ < 2 ^ (-1075 : Int) := hnum
  rw [if_neg hsmall]
  by_cases hp : 0 ≤ power
  · obtain ⟨k, rfl⟩ := Int.eq_ofNat_of_zero_le hp
    rw [if_pos hp, ofQuotient_eq negative _ (by norm_num)]
    simp
  · obtain ⟨k, rfl⟩ : ∃ k : Nat, power = -k := ⟨power.natAbs, by omega⟩
    rw [if_neg hp, ofQuotient_eq negative _ (by simp)]
    simp [div_eq_mul_inv]

/-! ## §4. Doubles in canonical form. -/

/-- A double whose mantissa has 53 bits, or fewer at the least exponent. -/
def Canonical : Binary64 → Prop
  | .finite _ m e => leastExponent ≤ e ∧ e ≤ greatestExponent ∧ m < 2 ^ 53 ∧
      (leastExponent < e → 2 ^ 52 ≤ m)
  | _ => True

instance : DecidablePred Canonical := fun x => by
  cases x <;> unfold Canonical <;> infer_instance

/-- The nearest double is canonical. -/
theorem canonical_nearest (negative : Bool) {x : ℚ} (hx : 0 ≤ x) :
    (nearest negative x).Canonical := by
  unfold nearest
  by_cases h0 : x = 0
  · rw [if_pos h0]
    decide +revert
  · obtain ⟨hle, hge⟩ := nearestEven_exponentOf (lt_of_le_of_ne hx (Ne.symm h0))
    have hleast : leastExponent ≤ exponentOf x := le_max_left _ _
    rw [if_neg h0]
    unfold ofMantissa
    by_cases hc : nearestEven (x / 2 ^ exponentOf x) = Nat.pow 2 53
    · simp only [if_pos hc]
      split
      · trivial
      · rename_i hg
        exact ⟨by omega, not_lt.1 hg, by norm_num, fun _ => le_refl _⟩
    · simp only [if_neg hc]
      split
      · trivial
      · rename_i hg
        exact ⟨hleast, not_lt.1 hg, lt_of_le_of_ne hle hc, hge⟩

/-- **WHAT IS READ IS CANONICAL.** -/
theorem canonical_ofDecimal (negative : Bool) (digits : Nat) (power : Int) :
    (ofDecimal negative digits power).Canonical := by
  rw [ofDecimal_eq]
  exact canonical_nearest negative (by positivity)

/-- **A VALUE THAT IS A DOUBLE IS THIS DOUBLE.** -/
theorem nearest_exact {negative : Bool} {m : Nat} {e : Int}
    (h : (finite negative m e).Canonical) : nearest negative (m * 2 ^ e) = finite negative m e := by
  obtain ⟨hleast, hgreatest, hm, hfull⟩ := h
  unfold nearest
  by_cases h0 : m = 0
  · -- zero has the least exponent
    have he : e = leastExponent := by
      by_contra hne
      have := hfull (by omega)
      omega
    subst h0
    rw [if_pos (by simp), he]
    rfl
  · have hpos : (0 : ℚ) < m := by exact_mod_cast Nat.pos_of_ne_zero h0
    have hpow : (0 : ℚ) < 2 ^ e := by positivity
    have he : exponentOf ((m : ℚ) * 2 ^ e) = e := by
      refine (eq_exponentOf (by positivity) hleast ?_ fun hlt => ?_).symm
      · rw [zpow_add₀ (by norm_num)]
        have hm' : (m : ℚ) < 2 ^ 53 := by exact_mod_cast hm
        exact mul_lt_mul_of_pos_right (by exact_mod_cast hm') hpow
      · rw [zpow_add₀ (by norm_num)]
        have hm' : (2 : ℚ) ^ 52 ≤ m := by exact_mod_cast hfull hlt
        exact mul_le_mul_of_nonneg_right (by exact_mod_cast hm') hpow.le
    have hm53 : m ≠ Nat.pow 2 53 := hm.ne
    rw [if_neg (by positivity), he, mul_div_cancel_right₀ _ hpow.ne', nearestEven_natCast]
    unfold ofMantissa
    simp only [if_neg hm53, if_neg (not_lt.2 hgreatest)]

end Cascade.Binary64
