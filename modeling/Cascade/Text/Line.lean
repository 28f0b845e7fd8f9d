/-
  Cascade.Text.Line
  ────────────────────────────────
  **LINES OF A TEXT.**

  A line ends at a line feed, a carriage return (with a line feed directly
  after it the two are ONE end), a vertical tab, a form feed, the
  information separators U+001C–U+001E, the next-line control, or a Unicode
  line or paragraph separator.  A text that ends with a line end has no
  empty line after it.

  `unifyLineEnds` is what reading a text file does first: both carriage
  return forms become a line feed, all other ends stay.
-/
import Cascade.Text.Basic

namespace Cascade.Text

/-- Whether a character ends a line. -/
def isLineEnd (c : CodePoint) : Bool :=
  (0x0A ≤ c.toNat && c.toNat ≤ 0x0D) || (0x1C ≤ c.toNat && c.toNat ≤ 0x1E) ||
    c.toNat == 0x85 || c.toNat == 0x2028 || c.toNat == 0x2029

/-- Whether a text goes on with a line feed. -/
def startsWithLineFeed : Text → Bool
  | [] => false
  | c :: _ => c == '\n'

/-- The lines of a text, without their ends. -/
def lines : Text → List Text
  | [] => []
  | c :: rest =>
    if c = '\r' ∧ startsWithLineFeed rest then lines rest
    else if isLineEnd c then [] :: lines rest
    else
      match lines rest with
      | [] => [[c]]
      | line :: more => (c :: line) :: more

/-- The text with a line feed for each carriage return, alone or before a line feed. -/
def unifyLineEnds : Text → Text
  | [] => []
  | c :: rest =>
    if c = '\r' then
      if startsWithLineFeed rest then unifyLineEnds rest else '\n' :: unifyLineEnds rest
    else c :: unifyLineEnds rest

/-- Without carriage returns a text has nothing to unify. -/
theorem unifyLineEnds_of_not_mem {t : Text} (h : CodePoint.char '\r' ∉ t) :
    unifyLineEnds t = t := by
  induction t with
  | nil => rfl
  | cons c t ih =>
    simp only [List.mem_cons, not_or] at h
    rw [unifyLineEnds, if_neg (Ne.symm h.1), ih h.2]

/-- A text that is not empty has a line. -/
theorem lines_ne_nil {t : Text} (h : t ≠ []) : lines t ≠ [] := by
  induction t with
  | nil => exact absurd rfl h
  | cons c t ih =>
    simp only [lines]
    split
    · rename_i hc
      refine ih fun ht => ?_
      simp [ht, startsWithLineFeed] at hc
    · split
      · simp
      · split <;> simp

/-- A line feed ends a line, whatever stands before and after it. -/
theorem lines_append_lineFeed (a b : Text) :
    lines (a ++ .char '\n' :: b) = lines (a ++ [.char '\n']) ++ lines b := by
  induction a with
  | nil => simp [lines, isLineEnd]
  | cons c a ih =>
    have hs :
        startsWithLineFeed (a ++ .char '\n' :: b) = startsWithLineFeed (a ++ [.char '\n']) := by
      cases a <;> rfl
    simp only [List.cons_append, lines, hs, ih]
    split
    · rfl
    · split
      · rfl
      · have hne : lines (a ++ [.char '\n']) ≠ [] := lines_ne_nil (by simp)
        revert hne
        cases lines (a ++ [.char '\n']) <;> simp

/-- A text without line ends goes on with the line that follows it. -/
theorem lines_append_of_plain {a b line : Text} {more : List Text}
    (ha : ∀ c ∈ a, isLineEnd c = false) (hb : lines b = line :: more) :
    lines (a ++ b) = (a ++ line) :: more := by
  induction a with
  | nil => exact hb
  | cons c a ih =>
    have hc : isLineEnd c = false := ha c (by simp)
    have hr : c ≠ '\r' := fun h => by subst h; exact absurd hc (by decide)
    have hrest := ih fun d hd => ha d (List.mem_cons_of_mem c hd)
    rw [List.cons_append, lines, if_neg fun h => hr h.1, hc, hrest]
    rfl

/-- A text without line ends is one line. -/
theorem lines_of_plain {a : Text} (ha : ∀ c ∈ a, isLineEnd c = false) (hne : a ≠ []) :
    lines a = [a] := by
  -- the last character is a line by itself
  obtain ⟨front, c, rfl⟩ : ∃ front c, a = front ++ [c] :=
    ⟨a.dropLast, a.getLast hne, (List.dropLast_concat_getLast hne).symm⟩
  have hc : isLineEnd c = false := ha c (by simp)
  have hlast : lines [c] = [[c]] := by
    simp [lines, startsWithLineFeed, hc]
  exact lines_append_of_plain (fun d hd => ha d (by simp [hd])) hlast

/-- A line end that is not the first half of a pair ends the line before it. -/
theorem lines_append_end {a b : Text} {e : CodePoint} (ha : ∀ c ∈ a, isLineEnd c = false)
    (he : isLineEnd e = true) (hpair : ¬ (e = '\r' ∧ startsWithLineFeed b = true)) :
    lines (a ++ e :: b) = a :: lines b := by
  have hend : lines (e :: b) = [] :: lines b := by
    rw [lines, if_neg hpair, if_pos he]
  rw [lines_append_of_plain ha hend, List.append_nil]

/-- So does a carriage return with the line feed after it. -/
theorem lines_append_pair {a : Text} (ha : ∀ c ∈ a, isLineEnd c = false) (b : Text) :
    lines (a ++ .char '\r' :: .char '\n' :: b) = a :: lines b := by
  have hend : lines (.char '\r' :: .char '\n' :: b) = [] :: lines b := by
    simp [lines, startsWithLineFeed, isLineEnd]
  rw [lines_append_of_plain ha hend, List.append_nil]

end Cascade.Text
