/-
  Cascade.Value.Basic
  ────────────────────────────────
  **CONFIGURATION VALUES.**

  A file line gives a text, a number or a list of texts; a preference store
  holds any JSON value.  Objects keep the order of their members.  Equality
  is decided structurally, so 1, 1.0 and true are three different values.
-/
import Cascade.Number.Binary64
import Cascade.Table
import Cascade.Text.Utf8

namespace Cascade

/-- A configuration value. -/
inductive Value
  | null
  | bool (b : Bool)
  | int (n : Int)
  | float (x : Binary64)
  | str (t : Text)
  | list (items : List Value)
  | object (members : List (Text × Value))
  | bytes (content : Text.Bytes)
  deriving Repr

namespace Value

instance : Inhabited Value := ⟨null⟩

/-! ## §1. Equality. -/

mutual

/-- Whether two values are the same. -/
def same : Value → Value → Bool
  | .null, .null => true
  | .bool a, .bool b => a == b
  | .int a, .int b => a == b
  | .float a, .float b => a == b
  | .str a, .str b => a == b
  | .list as, .list bs => sameItems as bs
  | .object as, .object bs => sameMembers as bs
  | .bytes as, .bytes bs => as == bs
  | _, _ => false

/-- Whether two lists hold the same values. -/
def sameItems : List Value → List Value → Bool
  | [], [] => true
  | a :: as, b :: bs => same a b && sameItems as bs
  | _, _ => false

/-- Whether two lists hold the same members. -/
def sameMembers : List (Text × Value) → List (Text × Value) → Bool
  | [], [] => true
  | (j, a) :: as, (k, b) :: bs => j == k && same a b && sameMembers as bs
  | _, _ => false

end

mutual

theorem eq_of_same : ∀ a b : Value, same a b = true → a = b
  | .null, b, h => by cases b <;> simp_all [same]
  | .bool x, b, h => by cases b <;> simp_all [same]
  | .int x, b, h => by cases b <;> simp_all [same]
  | .float x, b, h => by cases b <;> simp_all [same]
  | .str x, b, h => by cases b <;> simp_all [same]
  | .bytes x, b, h => by cases b <;> simp_all [same]
  | .list xs, b, h => by
    cases b <;> simp only [same, Bool.false_eq_true] at h
    rw [eq_of_sameItems xs _ h]
  | .object xs, b, h => by
    cases b <;> simp only [same, Bool.false_eq_true] at h
    rw [eq_of_sameMembers xs _ h]

theorem eq_of_sameItems : ∀ as bs : List Value, sameItems as bs = true → as = bs
  | [], bs, h => by cases bs <;> simp_all [sameItems]
  | a :: as, bs, h => by
    cases bs with
    | nil => simp [sameItems] at h
    | cons b bs =>
      simp only [sameItems, Bool.and_eq_true] at h
      rw [eq_of_same a b h.1, eq_of_sameItems as bs h.2]

theorem eq_of_sameMembers :
    ∀ as bs : List (Text × Value), sameMembers as bs = true → as = bs
  | [], bs, h => by cases bs <;> simp_all [sameMembers]
  | (j, a) :: as, bs, h => by
    cases bs with
    | nil => simp [sameMembers] at h
    | cons b bs =>
      obtain ⟨k, b⟩ := b
      simp only [sameMembers, Bool.and_eq_true, beq_iff_eq] at h
      rw [h.1.1, eq_of_same a b h.1.2, eq_of_sameMembers as bs h.2]

end

mutual

theorem same_self : ∀ a : Value, same a a = true
  | .null => rfl
  | .bool _ => by simp [same]
  | .int _ => by simp [same]
  | .float _ => by simp [same]
  | .str _ => by simp [same]
  | .bytes _ => by simp [same]
  | .list xs => by simp [same, sameItems_self xs]
  | .object xs => by simp [same, sameMembers_self xs]

theorem sameItems_self : ∀ as : List Value, sameItems as as = true
  | [] => rfl
  | a :: as => by simp [sameItems, same_self a, sameItems_self as]

theorem sameMembers_self : ∀ as : List (Text × Value), sameMembers as as = true
  | [] => rfl
  | (k, a) :: as => by simp [sameMembers, same_self a, sameMembers_self as]

end

instance : DecidableEq Value := fun a b =>
  if h : same a b = true then isTrue (eq_of_same a b h)
  else isFalse fun hab => h (hab ▸ same_self a)

/-! ## §2. Emptiness. -/

/-- Nothing, an empty text or an empty list: what counts as "not set" in a source.
Zero, false and an empty object do not. -/
def isEmpty : Value → Bool
  | .null => true
  | .str t => t.isEmpty
  | .list items => items.isEmpty
  | _ => false

end Value

end Cascade
