/-
  Cascade.Text.Order
  ────────────────────────────────
  **TEXTS IN ORDER OF THEIR CHARACTERS.**

  Texts are compared character by character, by code point; the shorter one
  comes first when it is the front of the other.  `sortBy` puts a list in
  the order of its keys.

      le_refl, le_total, le_trans, le_antisymm   — `le` is a linear order
      sortBy_perm, pairwise_sortBy               — sorting rearranges, keys never fall
      sortBy_of_pairwise                         — what is in order stays as it is
-/
import Cascade.Text.Basic

namespace Cascade.Text

/-- `a` comes no later than `b` when texts are compared character by character. -/
def le : Text → Text → Bool
  | [], _ => true
  | _ :: _, [] => false
  | a :: as, b :: bs => if a = b then le as bs else a.toNat < b.toNat

/-- `a` put before the first element whose key comes after its own. -/
def insertBy {α : Type} (key : α → Text) (a : α) : List α → List α
  | [] => [a]
  | b :: bs => if le (key a) (key b) then a :: b :: bs else b :: insertBy key a bs

/-- The elements in the order of their keys. -/
def sortBy {α : Type} (key : α → Text) : List α → List α
  | [] => []
  | a :: as => insertBy key a (sortBy key as)

/-! ## §1. A linear order. -/

/-- A text comes no later than itself. -/
protected theorem le_refl (t : Text) : le t t = true := by
  induction t with
  | nil => rfl
  | cons c t ih => simp [le, ih]

/-- Of two texts one comes no later than the other. -/
protected theorem le_total (s t : Text) : le s t = true ∨ le t s = true := by
  induction s generalizing t with
  | nil => simp [le]
  | cons a s ih =>
    cases t with
    | nil => simp [le]
    | cons b t =>
      by_cases h : a = b
      · subst h; simpa [le] using ih t
      · have hn : a.toNat ≠ b.toNat := fun hn => h (CodePoint.toNat_inj.1 hn)
        simp only [le, h, if_false, Ne.symm h, decide_eq_true_eq]
        omega

/-- The order is transitive. -/
protected theorem le_trans {s t u : Text} (h₁ : le s t = true) (h₂ : le t u = true) :
    le s u = true := by
  induction s generalizing t u with
  | nil => simp [le]
  | cons a s ih =>
    cases t with
    | nil => simp [le] at h₁
    | cons b t =>
      cases u with
      | nil => simp [le] at h₂
      | cons c u =>
        by_cases hab : a = b
        · subst hab
          by_cases hac : a = c
          · subst hac
            simp only [le, if_true] at h₁ h₂ ⊢
            exact ih h₁ h₂
          · simpa [le, hac] using h₂
        · by_cases hbc : b = c
          · subst hbc
            simp only [le, hab, if_false, decide_eq_true_eq] at h₁ ⊢
            exact h₁
          · simp only [le, hab, hbc, if_false, decide_eq_true_eq] at h₁ h₂
            have hac : a ≠ c := fun h => by subst h; omega
            simp only [le, hac, if_false, decide_eq_true_eq]
            omega

/-- Two texts of which neither comes later are the same. -/
protected theorem le_antisymm {s t : Text} (h₁ : le s t = true) (h₂ : le t s = true) :
    s = t := by
  induction s generalizing t with
  | nil => cases t <;> simp_all [le]
  | cons a s ih =>
    cases t with
    | nil => simp [le] at h₁
    | cons b t =>
      by_cases hab : a = b
      · subst hab
        simp only [le, if_true] at h₁ h₂
        rw [ih h₁ h₂]
      · simp only [le, hab, Ne.symm hab, if_false, decide_eq_true_eq] at h₁ h₂
        omega

/-! ## §2. Sorting. -/

variable {α : Type}

/-- Putting an element in its place adds it. -/
theorem insertBy_perm (key : α → Text) (a : α) (as : List α) :
    (insertBy key a as).Perm (a :: as) := by
  induction as with
  | nil => exact .refl _
  | cons b as ih =>
    simp only [insertBy]
    split
    · exact .refl _
    · exact (ih.cons b).trans (.swap a b as)

/-- Sorting rearranges. -/
theorem sortBy_perm (key : α → Text) (as : List α) : (sortBy key as).Perm as := by
  induction as with
  | nil => exact .refl _
  | cons a as ih => exact (insertBy_perm key a _).trans (ih.cons a)

/-- Keys that never fall still do not when one is put in its place. -/
theorem pairwise_insertBy {key : α → Text} {a : α} {as : List α}
    (h : as.Pairwise fun x y => le (key x) (key y) = true) :
    (insertBy key a as).Pairwise fun x y => le (key x) (key y) = true := by
  induction as with
  | nil => simp [insertBy]
  | cons b as ih =>
    rw [List.pairwise_cons] at h
    simp only [insertBy]
    split
    · rename_i hab
      refine List.pairwise_cons.2 ⟨fun x hx => ?_, List.pairwise_cons.2 h⟩
      rcases List.mem_cons.1 hx with rfl | hx
      · exact hab
      · exact Text.le_trans hab (h.1 x hx)
    · rename_i hab
      refine List.pairwise_cons.2 ⟨fun x hx => ?_, ih h.2⟩
      rcases List.mem_cons.1 ((insertBy_perm key a as).mem_iff.1 hx) with rfl | hx
      · exact (Text.le_total _ _).resolve_left hab
      · exact h.1 x hx

/-- In sorted order the keys never fall. -/
theorem pairwise_sortBy (key : α → Text) (as : List α) :
    (sortBy key as).Pairwise fun x y => le (key x) (key y) = true := by
  induction as with
  | nil => exact .nil
  | cons a as ih => exact pairwise_insertBy ih

/-- What is in order stays as it is. -/
theorem sortBy_of_pairwise {key : α → Text} {as : List α}
    (h : as.Pairwise fun x y => le (key x) (key y) = true) : sortBy key as = as := by
  induction as with
  | nil => rfl
  | cons a as ih =>
    rw [List.pairwise_cons] at h
    rw [sortBy, ih h.2]
    cases as with
    | nil => rfl
    | cons b as => rw [insertBy, if_pos (h.1 b (by simp))]

section

variable {β : Type} {key : α → Text} {key' : β → Text} {f : α → β}

/-- Changing elements but not their keys makes no difference to their places. -/
theorem insertBy_map (hf : ∀ a, key' (f a) = key a) (a : α) (as : List α) :
    insertBy key' (f a) (as.map f) = (insertBy key a as).map f := by
  induction as with
  | nil => rfl
  | cons b as ih =>
    simp only [List.map_cons, insertBy, hf, ih]
    split <;> rfl

/-- Elements may be changed before or after sorting, as long as their keys stay. -/
theorem sortBy_map (hf : ∀ a, key' (f a) = key a) (as : List α) :
    sortBy key' (as.map f) = (sortBy key as).map f := by
  induction as with
  | nil => rfl
  | cons a as ih => rw [List.map_cons, sortBy, ih, insertBy_map hf, sortBy]

end

end Cascade.Text
