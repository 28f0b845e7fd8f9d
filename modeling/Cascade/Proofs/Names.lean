/-
  Cascade.Proofs.Names
  ────────────────────────────────
  **REFERENCED NAMES CAN BE ASKED FOR.**

  A referenced name begins with a letter or an underscore and goes on with
  word characters.  No word character is half of a pair, so every referenced
  name has bytes, and the system environment can be asked for it
  (`ask_of_mem_namesOf`).  Neither is it the key `*` (`ne_wildcard`).
-/
import Cascade.Proofs.Rewriting
import Cascade.Resolver
import Cascade.Text.Word

namespace Cascade

open Text

/-- No range of word characters has a half in it. -/
theorem Text.wordRanges_no_half :
    (wordRanges.all fun r => r.2 < 0xD800 || 0xDFFF < r.1) = true := by decide +kernel

/-- A word character is no half. -/
theorem Text.isHalf_of_isWord {c : CodePoint} (h : isWord c = true) : c.isHalf = false := by
  cases c with
  | char c => rfl
  | half n =>
    have hn := n.isLt
    -- a half is above ASCII and between two ranges of word characters
    have hm : (CodePoint.half n).toNat = 0xD800 + n.val := rfl
    unfold isWord at h
    generalize (CodePoint.half n).toNat = m at h hm
    rw [if_neg (by omega)] at h
    obtain ⟨r, hr, hc⟩ := List.any_eq_true.1 h
    have ha := List.all_eq_true.1 wordRanges_no_half r hr
    simp only [Bool.and_eq_true, Bool.or_eq_true, decide_eq_true_eq] at hc ha
    omega

/-- A character that begins a name is a word character. -/
theorem Text.isWord_of_isNameStart {c : CodePoint} (h : isNameStart c = true) :
    isWord c = true := by
  have hlt : c.toNat < 128 := by
    simp only [isNameStart, Bool.or_eq_true, Bool.and_eq_true, decide_eq_true_eq,
      beq_iff_eq] at h
    omega
  simp [isWord, hlt, h]

namespace Reference

/-- A text that can be a name: a first character, and word characters after it. -/
def IsName (name : Text) : Prop :=
  ∃ c rest, name = c :: rest ∧ isNameStart c = true ∧ ∀ d ∈ rest, isWord d = true

/-- A name at the front of a text is a name. -/
theorem isName_of_nameAt? {t name : Text} (h : nameAt? t = some name) : IsName name := by
  cases t with
  | nil => cases h
  | cons c t =>
    simp only [nameAt?] at h
    split at h
    · rename_i hc
      cases h
      exact ⟨c, _, rfl, hc, List.all_eq_true.1 List.all_takeWhile⟩
    · cases h

/-- The name of a reference is a name. -/
theorem isName_of_at? {t : Text} {r : Reference} (h : at? t = some r) : IsName r.name := by
  unfold at? at h
  split at h
  · simp only [bracedAt?] at h
    split at h
    · cases h
    · rename_i name hn
      have hname := isName_of_nameAt? hn
      split at h
      · cases h; exact hname
      · split at h
        · cases h; exact hname
        · cases h
      · cases h
  · obtain ⟨name, hn, rfl⟩ := Option.map_eq_some_iff.1 h
    exact isName_of_nameAt? hn

/-- The names of the references in a text are names. -/
theorem isName_of_mem_scanFrom {skip : Nat} {t : Text} {r : Reference}
    (h : Piece.ref r ∈ scanFrom skip t) : IsName r.name := by
  -- a reference begins at the front of the text, or is found further on
  induction t generalizing skip with
  | nil => cases skip <;> simp [scanFrom] at h
  | cons c t ih =>
    cases skip with
    | succ skip => exact ih h
    | zero =>
      simp only [scanFrom] at h
      split at h
      · split at h
        · rename_i hr
          rcases List.mem_cons.1 h with he | h
          · cases he
            exact isName_of_at? hr
          · exact ih h
        · rcases List.mem_cons.1 h with he | h
          · cases he
          · exact ih h
      · rcases List.mem_cons.1 h with he | h
        · cases he
        · exact ih h

/-- What a value refers to is a name. -/
theorem isName_of_mem_namesOf {v : Value} {n : Text} (h : n ∈ namesOf v) : IsName n := by
  simp only [namesOf, List.mem_flatMap, List.mem_map, find, List.mem_filterMap] at h
  obtain ⟨t, -, r, ⟨piece, hp, hr⟩, rfl⟩ := h
  cases piece with
  | char c => cases hr
  | ref r' =>
    cases hr
    exact isName_of_mem_scanFrom hp

/-- What is referenced in a list of values is a name. -/
theorem isName_of_mem_names {values : List Value} {n : Text} (h : n ∈ names values) :
    IsName n := by
  obtain ⟨v, -, hn⟩ := List.mem_flatMap.1 (List.mem_eraseDups.1 h)
  exact isName_of_mem_namesOf hn

/-- Every referenced name is listed once. -/
theorem nodup_names (values : List Value) : (names values).Nodup := Entries.nodup_eraseDups _

/-- A name has bytes. -/
theorem IsName.bytesOf {n : Text} (h : IsName n) :
    ∃ bytes, Environment.bytesOf n = .ok bytes := by
  obtain ⟨c, rest, rfl, hc, hr⟩ := h
  have whole : ∀ d ∈ c :: rest, d.isHalf = false := fun d hd => by
    rcases List.mem_cons.1 hd with rfl | hd
    · exact isHalf_of_isWord (isWord_of_isNameStart hc)
    · exact isHalf_of_isWord (hr d hd)
  obtain ⟨bytes, hb⟩ : ∃ bytes, Utf8.encodeName (c :: rest) = .ok bytes :=
    Utf8.exists_encodeFrom whole 0
  exact ⟨bytes, by rw [Environment.bytesOf, hb]; rfl⟩

/-- A name can be asked for. -/
theorem IsName.ask {n : Text} (h : IsName n) (s : Secrets) (process : Environment) :
    s.ask process n = .ok (s.get? process n) := by
  obtain ⟨bytes, hb⟩ := h.bytesOf
  exact Secrets.ask_of_bytesOf hb

/-- A name is not the key for the whole file. -/
theorem IsName.ne_wildcard {n : Text} (h : IsName n) : n ≠ Resolver.wildcard := by
  obtain ⟨c, rest, rfl, hc, -⟩ := h
  rintro he
  have hw : Resolver.wildcard = [.char '*'] := rfl
  rw [hw, List.cons.injEq] at he
  rw [he.1] at hc
  exact absurd hc (by decide)

end Reference

end Cascade
