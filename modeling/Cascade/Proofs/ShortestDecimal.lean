/-
  Cascade.Proofs.ShortestDecimal
  ────────────────────────────────
  **THE SHORTEST DECIMAL READS BACK.**

  A decimal is read by its value alone, so dropping its zeros changes
  nothing, and the exact decimal of a double is read as this double.  Every
  other decimal that is tried is kept only when it reads back.

      toBinary64_eq         — a decimal is read by its value
      toBinary64_shortest   — the shortest decimal of a double is read as
                              this double
-/
import Cascade.Number.Shortest
import Cascade.Proofs.Rounding

namespace Cascade.Decimal

open Binary64

/-! ## §1. The value of a decimal. -/

/-- The value of a decimal. -/
def value (d : Decimal) : ℚ := d.digits * 10 ^ d.power

/-- A decimal is read by its value. -/
theorem toBinary64_eq (negative : Bool) (d : Decimal) :
    d.toBinary64 negative = nearest negative d.value :=
  ofDecimal_eq negative d.digits d.power

/-- Zeros at the end do not count. -/
theorem value_dropZerosWithin (steps : Nat) (d : Decimal) :
    (dropZerosWithin steps d).value = d.value := by
  induction steps generalizing d with
  | zero => rfl
  | succ steps ih =>
    rw [dropZerosWithin]
    by_cases h : d.digits ≠ 0 ∧ d.digits % 10 = 0
    · have hten : d.digits = d.digits / 10 * 10 := by omega
      have hcast : (d.digits : ℚ) = (d.digits / 10 : Nat) * 10 := by exact_mod_cast hten
      rw [if_pos h, ih, value, value, hcast, zpow_add_one₀ (by norm_num)]
      ring
    · rw [if_neg h]

/-- The exact decimal has the value it is made for. -/
theorem value_exact (m : Nat) (e : Int) : (exact m e).value = m * 2 ^ e := by
  unfold exact value
  by_cases h : 0 ≤ e
  · obtain ⟨k, rfl⟩ := Int.eq_ofNat_of_zero_le h
    rw [if_pos h]
    simp
  · obtain ⟨k, rfl⟩ : ∃ k : Nat, e = -k := ⟨e.natAbs, by omega⟩
    have hten : (10 : ℚ) ^ k = 2 ^ k * 5 ^ k := by
      rw [← mul_pow]
      norm_num
    rw [if_neg h]
    simp only [neg_neg, Int.toNat_natCast, Nat.pow_eq, zpow_neg, zpow_natCast, hten]
    push_cast
    field_simp

/-! ## §2. Reading back. -/

/-- A decimal that is found on a grid reads back. -/
theorem toBinary64_of_onGrid? {x : Binary64} {negative : Bool} {num den : Nat} {power : Int}
    {d : Decimal} (h : onGrid? x negative num den power = some d) :
    d.toBinary64 negative = x := by
  unfold onGrid? at h
  generalize (if 0 ≤ power then (num, den * Nat.pow 10 power.toNat)
    else (num * Nat.pow 10 (-power).toNat, den)) = grid at h
  obtain ⟨n, scale⟩ := grid
  simp only at h
  -- whichever of the two neighbours is taken, it was tried
  split at h
  · rename_i hfits
    split at h <;> cases h
    · exact hfits.1
    · exact hfits.2
  · split at h
    · rename_i hfits
      cases h
      exact hfits
    · split at h
      · rename_i hfits
        cases h
        exact hfits
      · cases h

/-- **THE SHORTEST DECIMAL OF A DOUBLE IS READ AS THIS DOUBLE.** -/
theorem toBinary64_shortest {negative : Bool} {m : Nat} {e : Int}
    (h : (finite negative m e).Canonical) :
    (shortest negative m e).toBinary64 negative = finite negative m e := by
  unfold shortest
  by_cases h0 : m = 0
  · have hexact := nearest_exact h
    subst h0
    rw [if_pos rfl, ← hexact, toBinary64_eq]
    simp [value]
  · rw [if_neg h0]
    simp only
    generalize hf : (List.range 17).findSome? _ = found
    rw [toBinary64_eq, dropZeros, value_dropZerosWithin, ← toBinary64_eq]
    cases found with
    | none => rw [Option.getD_none, toBinary64_eq, value_exact, nearest_exact h]
    | some d =>
      obtain ⟨i, -, hi⟩ := List.exists_of_findSome?_eq_some hf
      exact toBinary64_of_onGrid? hi

/-- Only zero has the digit zero, and without a power. -/
theorem power_shortest {negative : Bool} {m : Nat} {e : Int}
    (h : (finite negative m e).Canonical) (h0 : (shortest negative m e).digits = 0) :
    (shortest negative m e).power = 0 := by
  have hread := toBinary64_shortest h
  have hm : m = 0 := by
    unfold toBinary64 ofDecimal at hread
    rw [if_pos h0] at hread
    cases hread
    rfl
  rw [shortest, if_pos hm]

end Cascade.Decimal
