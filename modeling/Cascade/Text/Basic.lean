/-
  Cascade.Text.Basic
  ────────────────────────────────
  **TEXT, READ FROM THE FRONT.**

  Every rule of this library (lines, quotes, references, numbers, paths)
  consumes its input character by character, so a text IS the list of its
  code points and each rule is a recursion on that list.

      cut      — what stands before and after the first occurrence of a mark
      splitAt  — all pieces between occurrences of a mark
      join     — pieces with a separator between neighbours
      ofNat    — decimal digits of a number, no leading zero

  `cut_append` and `eq_append_of_cut` say where a text is cut, `join_splitAt`
  and `splitAt_join` that joining the pieces undoes splitting and the other
  way round.

  A string literal is accepted wherever a text is expected.
-/
import Cascade.Text.CodePoint

namespace Cascade

/-- A text is the list of its code points. -/
abbrev Text := List CodePoint

namespace Text

/-- The text of a string. -/
@[simp] def ofString (s : String) : Text := s.toList.map .char

/-- The string of a text.  No string holds half of a pair, which shows as U+FFFD. -/
def toString (t : Text) : String :=
  .ofList (t.map fun
    | .char c => c
    | .half _ => '\ufffd')

/-- A literal stands for its text. -/
instance : Coe String Text := ⟨ofString⟩

/-! ## §1. Cutting and joining. -/

/-- What stands before the first `mark`, and what stands after it when there is one. -/
def cut (mark : CodePoint) : Text → Text × Option Text
  | [] => ([], none)
  | c :: rest =>
    if c = mark then ([], some rest)
    else
      let (before, after) := cut mark rest
      (c :: before, after)

/-- The pieces between occurrences of `mark`: always one more than there are marks. -/
def splitAt (mark : CodePoint) : Text → List Text
  | [] => [[]]
  | c :: rest =>
    if c = mark then [] :: splitAt mark rest
    else
      match splitAt mark rest with
      | [] => [[c]]
      | piece :: pieces => (c :: piece) :: pieces

/-- The pieces in order with `separator` between neighbours. -/
def join (separator : Text) : List Text → Text
  | [] => []
  | [piece] => piece
  | piece :: pieces => piece ++ separator ++ join separator pieces

/-- `start` at the front of a text, and what follows it. -/
def dropStart? : (start : Text) → Text → Option Text
  | [], text => some text
  | _ :: _, [] => none
  | a :: start, b :: text => if a = b then dropStart? start text else none

/-- The text without the marks at its end. -/
def dropEnd (mark : CodePoint) (t : Text) : Text :=
  (t.reverse.dropWhile (· = mark)).reverse

/-- Whether a text begins with one of the given characters. -/
def startsWithAny (marks : List CodePoint) : Text → Bool
  | [] => false
  | c :: _ => marks.contains c

/-! ## §2. What is cut comes together again. -/

/-- A text is cut at the first mark. -/
theorem cut_append {mark : CodePoint} {before : Text} (h : mark ∉ before) (after : Text) :
    cut mark (before ++ mark :: after) = (before, some after) := by
  induction before with
  | nil => simp [cut]
  | cons c before ih =>
    simp only [List.mem_cons, not_or] at h
    simp [cut, Ne.symm h.1, ih h.2]

/-- What is cut off at a mark is a front and a rest of the text. -/
theorem eq_append_of_cut {mark : CodePoint} {t before after : Text}
    (h : cut mark t = (before, some after)) : t = before ++ mark :: after := by
  induction t generalizing before with
  | nil => simp [cut] at h
  | cons c t ih =>
    simp only [cut] at h
    split at h
    · cases h; subst c; rfl
    · simp only [Prod.mk.injEq] at h
      rw [← h.1, List.cons_append, ← ih (Prod.ext rfl h.2)]

/-- There is always a piece. -/
theorem splitAt_ne_nil (mark : CodePoint) (t : Text) : splitAt mark t ≠ [] := by
  cases t with
  | nil => simp [splitAt]
  | cons c t =>
    simp only [splitAt]
    split
    · simp
    · split <;> simp

/-- The pieces joined by the mark give the text back. -/
theorem join_splitAt (mark : CodePoint) (t : Text) : join [mark] (splitAt mark t) = t := by
  induction t with
  | nil => rfl
  | cons c t ih =>
    have hne := splitAt_ne_nil mark t
    simp only [splitAt]
    split
    · subst c
      revert ih hne
      cases splitAt mark t <;> simp [join]
    · revert ih hne
      cases splitAt mark t with
      | nil => simp
      | cons piece pieces => cases pieces <;> simp [join]

/-- Without the mark a text is its only piece. -/
theorem splitAt_of_not_mem {mark : CodePoint} {t : Text} (h : mark ∉ t) :
    splitAt mark t = [t] := by
  induction t with
  | nil => rfl
  | cons c t ih =>
    simp only [List.mem_cons, not_or] at h
    simp [splitAt, Ne.symm h.1, ih h.2]

/-- The first piece ends at the first mark. -/
theorem splitAt_append {mark : CodePoint} {before : Text} (h : mark ∉ before) (after : Text) :
    splitAt mark (before ++ mark :: after) = before :: splitAt mark after := by
  induction before with
  | nil => simp [splitAt]
  | cons c before ih =>
    simp only [List.mem_cons, not_or] at h
    simp [splitAt, Ne.symm h.1, ih h.2]

/-- Pieces without the mark are found again when they are joined by it. -/
theorem splitAt_join {mark : CodePoint} {pieces : List Text} (hne : pieces ≠ [])
    (h : ∀ piece ∈ pieces, mark ∉ piece) : splitAt mark (join [mark] pieces) = pieces := by
  induction pieces with
  | nil => exact absurd rfl hne
  | cons piece pieces ih =>
    have hp : mark ∉ piece := h piece (by simp)
    cases pieces with
    | nil => exact splitAt_of_not_mem hp
    | cons next pieces =>
      have hrest := ih (by simp) fun p hm => h p (List.mem_cons_of_mem _ hm)
      rw [join, List.append_assoc, List.singleton_append, splitAt_append hp, hrest]
      simp

/-- Joined pieces have the characters of the pieces and of the separator. -/
theorem mem_of_mem_join {separator : Text} {pieces : List Text} {c : CodePoint}
    (h : c ∈ join separator pieces) : c ∈ separator ∨ ∃ piece ∈ pieces, c ∈ piece := by
  induction pieces with
  | nil => cases h
  | cons piece pieces ih =>
    cases pieces with
    | nil => exact .inr ⟨piece, by simp, h⟩
    | cons next pieces =>
      simp only [join, List.mem_append] at h
      rcases h with (h | h) | h
      · exact .inr ⟨piece, by simp, h⟩
      · exact .inl h
      · rcases ih h with h | ⟨p, hp, hc⟩
        · exact .inl h
        · exact .inr ⟨p, List.mem_cons_of_mem _ hp, hc⟩

/-- Only a text that begins with `start` has a rest after it. -/
theorem dropStart?_eq_some_iff {start t rest : Text} :
    dropStart? start t = some rest ↔ t = start ++ rest := by
  induction start generalizing t with
  | nil => simp [dropStart?]
  | cons a start ih =>
    cases t with
    | nil => simp [dropStart?]
    | cons b t =>
      simp only [dropStart?]
      split
      · subst b; simp [ih]
      · simp [Ne.symm ‹¬a = b›]

/-! ## §3. Decimal digits. -/

/-- The character of one decimal digit. -/
def digit (n : Nat) : CodePoint := .ofNat (48 + n % 10)

/-- The digits of `n`, where `steps` bounds how many are still to be split off. -/
def digitsWithin : (steps : Nat) → Nat → Text
  | 0, n => [digit n]
  | steps + 1, n => if n < 10 then [digit n] else digitsWithin steps (n / 10) ++ [digit n]

/-- The decimal digits of a natural number, most significant first. -/
def ofNat (n : Nat) : Text := digitsWithin n n

/-- The decimal form of an integer: a minus sign, when negative, and the digits. -/
def ofInt : Int → Text
  | .ofNat n => ofNat n
  | .negSucc n => .char '-' :: ofNat (n + 1)

/-- One hexadecimal digit, lower case. -/
def hexDigit (n : Nat) : CodePoint :=
  let d := n % 16
  if d < 10 then .ofNat (48 + d) else .ofNat (87 + d)

/-- The low `width` hexadecimal digits of `n`. -/
def hex : (width : Nat) → Nat → Text
  | 0, _ => []
  | width + 1, n => hex width (n / 16) ++ [hexDigit n]

end Text

end Cascade
