/-
  Cascade.Text.Blank
  ────────────────────────────────
  **BLANK CHARACTERS AND TRIMMING.**

  The blanks are the white space of Unicode together with the four
  information separators U+001C–U+001F.  `trim` removes them at both ends
  of a text and nowhere else.

      trim_pad, Trimmed.trim_eq   — what it removes, and what it leaves alone
      exists_pads, trimmed_trim   — what it removes is blank, and all of it
-/
import Cascade.Text.Basic

namespace Cascade.Text

/-- The blanks as ranges of code points. -/
def blankRanges : List (Nat × Nat) :=
  [(0x09, 0x0D), (0x1C, 0x20), (0x85, 0x85), (0xA0, 0xA0), (0x1680, 0x1680),
   (0x2000, 0x200A), (0x2028, 0x2029), (0x202F, 0x202F), (0x205F, 0x205F),
   (0x3000, 0x3000)]

/-- Whether a character is white space or an information separator. -/
def isBlank (c : CodePoint) : Bool :=
  blankRanges.any fun r => r.1 ≤ c.toNat && c.toNat ≤ r.2

/-- The text without its leading blanks. -/
def trimStart (t : Text) : Text := t.dropWhile isBlank

/-- The text without its trailing blanks. -/
def trimEnd (t : Text) : Text := (t.reverse.dropWhile isBlank).reverse

/-- The text without blanks at either end. -/
def trim (t : Text) : Text := trimEnd (trimStart t)

/-! ## What trimming does. -/

/-- A text that neither begins nor ends with a blank. -/
def Trimmed (t : Text) : Prop :=
  (∀ c ∈ t.head?, isBlank c = false) ∧ ∀ c ∈ t.getLast?, isBlank c = false

instance : DecidablePred Trimmed := fun t =>
  inferInstanceAs (Decidable ((∀ c ∈ t.head?, isBlank c = false) ∧
    ∀ c ∈ t.getLast?, isBlank c = false))

/-- A row that does not begin with a blank has no leading ones. -/
theorem dropWhile_isBlank {t : Text} (h : ∀ c ∈ t.head?, isBlank c = false) :
    t.dropWhile isBlank = t := by
  cases t with
  | nil => rfl
  | cons c t => simp [h c rfl]

/-- A text without blanks at its ends stays as it is. -/
theorem Trimmed.trim_eq {t : Text} (h : Trimmed t) : trim t = t := by
  have hs : trimStart t = t := dropWhile_isBlank h.1
  have he : t.reverse.dropWhile isBlank = t.reverse := by
    refine dropWhile_isBlank fun c hc => h.2 c ?_
    rw [List.head?_reverse] at hc
    exact hc
  rw [trim, hs, trimEnd, he, List.reverse_reverse]

/-- A character that is no blank keeps its place before what is trimmed at the end. -/
theorem trimEnd_cons {c : CodePoint} (h : isBlank c = false) (t : Text) :
    trimEnd (c :: t) = c :: trimEnd t := by
  unfold trimEnd
  rw [List.reverse_cons, List.dropWhile_append]
  split
  · rename_i hempty
    rw [List.isEmpty_iff.1 hempty]
    simp [h]
  · rw [List.reverse_append, List.reverse_singleton, List.singleton_append]

/-- A text that begins with no blank is only trimmed at its end. -/
theorem trim_cons {c : CodePoint} (h : isBlank c = false) (t : Text) :
    trim (c :: t) = c :: trimEnd t := by
  have hs : trimStart (c :: t) = c :: t := dropWhile_isBlank fun d hd => by
    cases hd
    exact h
  rw [trim, hs, trimEnd_cons h]

/-- Blanks around a text are removed. -/
theorem trim_pad {before after : Text} (hb : ∀ c ∈ before, isBlank c = true)
    (ha : ∀ c ∈ after, isBlank c = true) (t : Text) :
    trim (before ++ t ++ after) = trim t := by
  have hs : trimStart (before ++ t ++ after) = trimStart (t ++ after) := by
    rw [List.append_assoc]
    exact List.dropWhile_append_of_pos hb
  have hnil : after.dropWhile isBlank = [] := by
    have hall : (after ++ []).dropWhile isBlank = [] := List.dropWhile_append_of_pos ha
    rwa [List.append_nil] at hall
  have he (s : Text) : trimEnd (s ++ after) = trimEnd s := by
    have hr : ∀ c ∈ after.reverse, isBlank c = true := fun c hc => ha c (by simpa using hc)
    unfold trimEnd
    rw [List.reverse_append, List.dropWhile_append_of_pos hr]
  unfold trim
  rw [hs]
  -- when there is nothing but blanks, the ones after it go with the leading ones
  unfold trimStart
  rw [List.dropWhile_append]
  split
  · rename_i hempty
    rw [hnil, List.isEmpty_iff.1 hempty]
  · exact he _

/-- A row of which nothing is left has only blanks. -/
theorem isBlank_of_dropWhile {t : Text} (h : t.dropWhile isBlank = []) :
    ∀ c ∈ t, isBlank c = true := by
  have ht : t.takeWhile isBlank = t := by
    have hcut := List.takeWhile_append_dropWhile (p := isBlank) (l := t)
    rwa [h, List.append_nil] at hcut
  rw [← ht]
  exact List.all_eq_true.1 List.all_takeWhile

/-- Only blanks are trimmed away as a whole. -/
theorem isBlank_of_trim_eq_nil {t : Text} (h : trim t = []) : ∀ c ∈ t, isBlank c = true := by
  have he : (trimStart t).reverse.dropWhile isBlank = [] := by
    simpa [trim, trimEnd] using h
  have hall : ∀ c ∈ trimStart t, isBlank c = true := fun c hc =>
    isBlank_of_dropWhile he c (by simpa using hc)
  -- what is left after the leading blanks would begin with a character that is none
  have hhead := List.head?_dropWhile_not isBlank t
  refine isBlank_of_dropWhile ?_
  cases hs : t.dropWhile isBlank with
  | nil => rfl
  | cons c rest =>
    have hblank : isBlank c = true := hall c (by unfold trimStart; rw [hs]; simp)
    rw [hs] at hhead
    simp [hblank] at hhead

/-- What trimming takes away at the end is blank. -/
theorem exists_trimEnd (t : Text) :
    ∃ after, (∀ c ∈ after, isBlank c = true) ∧ t = trimEnd t ++ after := by
  refine ⟨(t.reverse.takeWhile isBlank).reverse, fun c hc => ?_, ?_⟩
  · exact List.all_eq_true.1 List.all_takeWhile c (List.mem_reverse.1 hc)
  · rw [trimEnd, ← List.reverse_append, List.takeWhile_append_dropWhile, List.reverse_reverse]

/-- A text is what is left of it when it is trimmed, with blanks on both sides. -/
theorem exists_pads (t : Text) :
    ∃ before after, (∀ c ∈ before, isBlank c = true) ∧ (∀ c ∈ after, isBlank c = true) ∧
      t = before ++ trim t ++ after := by
  obtain ⟨after, hafter, htrim⟩ := exists_trimEnd (trimStart t)
  refine ⟨t.takeWhile isBlank, after, fun c hc => ?_, hafter, ?_⟩
  · exact List.all_eq_true.1 List.all_takeWhile c hc
  · rw [List.append_assoc, trim, ← htrim, trimStart, List.takeWhile_append_dropWhile]

/-- What is left of a text neither begins nor ends with a blank. -/
theorem trimmed_trim (t : Text) : Trimmed (trim t) := by
  refine ⟨fun c hc => ?_, fun c hc => ?_⟩
  · -- it begins as the text does without its leading blanks
    obtain ⟨after, -, htrim⟩ := exists_trimEnd (trimStart t)
    have hhead : (trimStart t).head? = some c := by
      rw [htrim, List.head?_append, show (trimEnd (trimStart t)).head? = some c from hc]
      rfl
    have hfirst := List.head?_dropWhile_not isBlank t
    rw [show (t.dropWhile isBlank).head? = some c from hhead] at hfirst
    simpa using hfirst
  · have hlast := List.head?_dropWhile_not isBlank (trimStart t).reverse
    rw [trim, trimEnd, List.getLast?_reverse] at hc
    rw [show ((trimStart t).reverse.dropWhile isBlank).head? = some c from hc] at hlast
    simpa using hlast

/-- Trimming adds no characters. -/
theorem mem_of_mem_trim {t : Text} {c : CodePoint} (h : c ∈ trim t) : c ∈ t := by
  obtain ⟨before, after, -, -, ht⟩ := exists_pads t
  rw [ht, List.mem_append, List.mem_append]
  exact .inl (.inr h)

end Cascade.Text
