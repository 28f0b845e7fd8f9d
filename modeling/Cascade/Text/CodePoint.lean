/-
  Cascade.Text.CodePoint
  ────────────────────────────────
  **CODE POINTS, HALVES OF PAIRS INCLUDED.**

  The numbers U+D800–U+DFFF are no characters: a character beyond U+FFFF is
  escaped as a pair of them.  An escape may still give ONE half without the
  other, and such a half is kept, compared and written back like a
  character; only UTF-8 has no bytes for it.

      toNat_inj     — code points of one number are the same
      toNat_ofNat, ofNat_toNat   — number and code point, there and back

  A character is accepted wherever a code point is expected.
-/

namespace Cascade

/-- A code point: a character, or half of a pair, counted from U+D800. -/
inductive CodePoint
  | char (c : Char)
  | half (n : Fin 0x800)
  deriving DecidableEq, Repr

/-- A character is a code point. -/
instance : Coe Char CodePoint := ⟨.char⟩

namespace CodePoint

/-- The number of a code point. -/
def toNat : CodePoint → Nat
  | .char c => c.toNat
  | .half n => 0xD800 + n.val

/-- The code point of a number below 0x110000. -/
def ofNat (n : Nat) : CodePoint :=
  if h : 0xD800 ≤ n ∧ n < 0xE000 then .half ⟨n - 0xD800, by omega⟩ else .char (Char.ofNat n)

/-- Whether a code point is half of a pair. -/
def isHalf : CodePoint → Bool
  | .char _ => false
  | .half _ => true

@[simp] theorem toNat_char (c : Char) : (CodePoint.char c).toNat = c.toNat := rfl

/-- The number of a character is not that of a half. -/
theorem toNat_char_ne_half (c : Char) (n : Fin 0x800) :
    (CodePoint.char c).toNat ≠ (CodePoint.half n).toNat := by
  have hc : c.toNat < 0xD800 ∨ (0xDFFF < c.toNat ∧ c.toNat < 0x110000) := c.valid
  have hn := n.isLt
  simp only [toNat]
  omega

/-- Code points of one number are the same. -/
theorem toNat_inj {a b : CodePoint} : a.toNat = b.toNat ↔ a = b := by
  refine ⟨fun h => ?_, fun h => h ▸ rfl⟩
  cases a with
  | char c =>
    cases b with
    | char d => rw [Char.toNat_inj.1 h]
    | half n => exact absurd h (toNat_char_ne_half c n)
  | half m =>
    cases b with
    | char d => exact absurd h.symm (toNat_char_ne_half d m)
    | half n =>
      simp only [toNat] at h
      rw [Fin.ext (show m.val = n.val by omega)]

/-- The code point of a number has this number. -/
theorem toNat_ofNat {n : Nat} (h : n < 0x110000) : (ofNat n).toNat = n := by
  unfold ofNat
  split
  · simp only [toNat]; omega
  · have hv : n.isValidChar := by
      simp only [Nat.isValidChar]
      omega
    rw [toNat_char, Char.ofNat, dif_pos hv]
    rfl

/-- Code points have numbers below 0x110000. -/
theorem toNat_lt (c : CodePoint) : c.toNat < 0x110000 := by
  cases c with
  | char c =>
    have hc : c.toNat < 0xD800 ∨ (0xDFFF < c.toNat ∧ c.toNat < 0x110000) := c.valid
    simp only [toNat]
    omega
  | half n =>
    have hn := n.isLt
    simp only [toNat]
    omega

/-- The number of a code point leads back to it. -/
theorem ofNat_toNat (c : CodePoint) : ofNat c.toNat = c := toNat_inj.1 (toNat_ofNat (toNat_lt c))

end CodePoint

end Cascade
