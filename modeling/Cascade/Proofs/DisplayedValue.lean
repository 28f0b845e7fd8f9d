/-
  Cascade.Proofs.DisplayedValue
  ────────────────────────────────
  **WHICH DISPLAYED VALUES READ BACK.**

  A value of an env file is printed without quotes.  Read again, it is the
  same value when it is

      an integer  — its digits are a literal of it
      a list      — its items were trimmed and have neither commas nor
                    closing braces, so they are found again between commas
      a text      — that would be a bare one: it is not empty, begins with
                    neither a quote nor a brace, and is no number

  and every other text reads as something else (`value?_eq_str_iff`): a
  quoted text is shorter than what it is read from, a list or a number is
  no text, and nothing is read from the empty one.
-/
import Cascade.Proofs.NumeralGrammar
import Cascade.Proofs.Rewriting
import Cascade.Proofs.SettingValue

namespace Cascade

open Cascade.Text

/-! ## §1. Pieces of a text. -/

namespace Text

/-- What is before a mark is without it. -/
theorem not_mem_cut (mark : CodePoint) (t : Text) : mark ∉ (cut mark t).1 := by
  induction t with
  | nil => exact List.not_mem_nil
  | cons c t ih =>
    rw [cut]
    split
    · exact List.not_mem_nil
    · rename_i hc
      intro hm
      rcases List.mem_cons.1 hm with he | hm
      · exact hc he.symm
      · exact ih hm

/-- Pieces between marks are without them. -/
theorem not_mem_of_mem_splitAt {mark : CodePoint} {t piece : Text} (h : piece ∈ splitAt mark t) :
    mark ∉ piece := by
  induction t generalizing piece with
  | nil =>
    obtain rfl := List.mem_singleton.1 h
    exact List.not_mem_nil
  | cons c t ih =>
    rw [splitAt] at h
    split at h
    · rcases List.mem_cons.1 h with rfl | h
      · exact List.not_mem_nil
      · exact ih h
    · rename_i hc
      obtain ⟨first, pieces, hs⟩ := List.exists_cons_of_ne_nil (splitAt_ne_nil mark t)
      rw [hs] at h ih
      rcases List.mem_cons.1 h with rfl | h
      · intro hm
        rcases List.mem_cons.1 hm with he | hm
        · exact hc he.symm
        · exact ih List.mem_cons_self hm
      · exact ih (List.mem_cons_of_mem _ h)

end Text

namespace Dotenv

variable {t s : Text} {v : Value}

/-! ## §2. Lists. -/

/-- What is read as an item is found again as one. -/
theorem isListed_of_mem_braceItems {item : Text} (h : item ∈ braceItems t) : IsListed item := by
  unfold braceItems at h
  simp only at h
  split at h
  · cases h
  · obtain ⟨piece, hp, rfl⟩ := List.mem_map.1 h
    refine ⟨trimmed_trim piece, ?_, ?_⟩
    · intro hm
      exact not_mem_of_mem_splitAt hp (mem_of_mem_trim hm)
    · intro hm
      exact not_mem_cut '}' t (mem_of_mem_splitAt hp (mem_of_mem_trim hm))

/-- A single empty item is never read. -/
theorem braceItems_ne_blank (t : Text) : braceItems t ≠ [[]] := by
  unfold braceItems
  intro h
  simp only at h
  split at h
  · cases h
  · rename_i hne
    obtain ⟨piece, hs, hpiece⟩ := List.map_eq_singleton_iff.1 h
    -- the one piece is all there is between the braces
    have hjoin := join_splitAt ',' (cut '}' t).1
    rw [hs] at hjoin
    rw [← hjoin] at hne
    exact hne hpiece

/-- Texts are put together with commas. -/
theorem commaSeparated?_texts (texts : List Text) :
    Value.commaSeparated? (texts.map .str) = some (join "," texts) := by
  have hplain : (texts.map Value.str).mapM Value.plain? = some texts := by
    rw [Entries.mapM_eq_some_iff, List.map_map]
    rfl
  rw [Value.commaSeparated?, hplain]
  rfl

/-- **A LIST THAT WAS READ IS READ BACK**, whatever its source looked like. -/
theorem list_reads_back (t : Text) :
    ∃ s, (Value.list ((braceItems t).map .str)).display? = some s ∧
      value? s = some (.list ((braceItems t).map .str)) := by
  refine ⟨.char '{' :: (join "," (braceItems t) ++ [.char '}']), ?_, ?_⟩
  · rw [Value.display?, commaSeparated?_texts]
    rfl
  · have hback : braceItems (join "," (braceItems t) ++ [.char '}']) = braceItems t :=
      braceItems_join (fun item hm => isListed_of_mem_braceItems hm) (braceItems_ne_blank t)
    rw [value?, if_neg (by decide), if_pos rfl, hback]

/-! ## §3. Texts. -/

/-- A text is at least as long as what is quoted in it. -/
theorem length_unquote_le (quote : CodePoint) (t : Text) : (unquote quote t).length ≤ t.length := by
  -- the cases of the reader: the end, one character, an escape, the closing quote, any other
  induction t using unquote.induct quote with
  | case1 => exact Nat.le_refl 0
  | case2 => simp [unquote]
  | case3 c hc => simp [unquote, hc]
  | case4 c d rest hesc ih =>
    rw [unquote, if_pos hesc]
    simp only [List.length_cons]
    omega
  | case5 d rest hesc =>
    rw [unquote, if_neg hesc, if_pos rfl]
    exact Nat.zero_le _
  | case6 c d rest hesc hc ih =>
    rw [unquote, if_neg hesc, if_neg hc]
    simp only [List.length_cons] at ih ⊢
    omega

/-- The characters that begin a quoted text or a list. -/
def valueMarks : List CodePoint := ['"', '\'', '{']

/-- **A TEXT IS READ AS ITSELF** exactly when it is a bare one. -/
theorem value?_eq_str_iff :
    value? s = some (.str s) ↔
      s ≠ [] ∧ startsWithAny valueMarks s = false ∧ bareValue s = .str s := by
  cases s with
  | nil =>
    constructor
    · intro h
      cases h
    · intro h
      exact absurd rfl h.1
  | cons c rest =>
    have hmarks : startsWithAny valueMarks (c :: rest) = false ↔ ¬ (c = '"' ∨ c = '\'') ∧ c ≠ '{' := by
      simp [startsWithAny, valueMarks, and_assoc]
    rw [value?, hmarks]
    by_cases hquote : c = '"' ∨ c = '\''
    · -- what is in quotes is too short
      have hshort := length_unquote_le c rest
      have hne : unquote c rest ≠ c :: rest := by
        intro h
        rw [h, List.length_cons] at hshort
        omega
      simp [hquote, hne]
    · by_cases hbrace : c = '{'
      · simp [hbrace]
      · simp [hquote, hbrace]

/-! ## §4. Values. -/

/-- The values that are read again from what is displayed of them: integers, lists, and texts
that are not empty, begin with neither a quote nor a brace, and are no number. -/
inductive ReadsAgain : Value → Prop
  | int (i : Int) : ReadsAgain (.int i)
  | list (items : List Value) : ReadsAgain (.list items)
  | text {s : Text} (notEmpty : s ≠ []) (unmarked : startsWithAny valueMarks s = false)
      (noNumber : bareValue s = .str s) : ReadsAgain (.str s)

/-- A text, which is displayed as it is, is read as itself where this says so. -/
theorem text_reads_back_iff : value? s = some (.str s) ↔ ReadsAgain (.str s) := by
  rw [value?_eq_str_iff]
  constructor
  · rintro ⟨notEmpty, unmarked, noNumber⟩
    exact .text notEmpty unmarked noNumber
  · intro h
    cases h with
    | text notEmpty unmarked noNumber => exact ⟨notEmpty, unmarked, noNumber⟩

/-- **DISPLAY IS FAITHFUL EXACTLY WHERE IT CAN BE.**  Whatever is read from a text, doubles left
out, has a displayed form, and this is read as the same value exactly when the value is an
integer, a list, or a bare text.  In particular every list that was read between braces is read
back. -/
theorem displayed_reads_back_iff (t : Text) :
    (∀ v, value? t = some v → (∀ x, v ≠ .float x) →
      ∃ s, v.display? = some s ∧ (value? s = some v ↔ ReadsAgain v)) ∧
    ∃ s, (Value.list ((braceItems t).map .str)).display? = some s ∧
      value? s = some (.list ((braceItems t).map .str)) := by
  refine ⟨?_, list_reads_back t⟩
  intro v hv notFloat
  rcases value?_cases hv with ⟨quote, u, -, rfl⟩ | ⟨mark, u, -, rfl⟩ | rfl
  · exact ⟨_, rfl, text_reads_back_iff⟩
  · obtain ⟨s, hs, hback⟩ := list_reads_back u
    exact ⟨s, hs, fun _ => .list _, fun _ => hback⟩
  · rcases bareValue_cases t with ⟨_, _, _, h⟩ | ⟨i, h, few⟩ | h
    · exact absurd h (notFloat _)
    · rw [h]
      obtain ⟨s, hs, hback⟩ := int_reads_back few
      exact ⟨s, hs, fun _ => .int i, fun _ => hback⟩
    · rw [h]
      exact ⟨t, rfl, text_reads_back_iff⟩

/-- A list with blanks around its items, a stray brace in one, a line feed in another, and no
closing brace. -/
def strayList : Text := "\x7b a\x7b ,, b\nc "

/-- A number in quotes. -/
def quotedNumber : Text := "'5432'"

/-- A list is read back although its source was left unclosed; a number in quotes is not, since it
is displayed without them. -/
theorem displayed_reads_back_stray :
    value? strayList = some (.list [.str "a\x7b", .str "", .str "b\nc"]) ∧
      (∃ s, (Value.list [.str "a\x7b", .str "", .str "b\nc"]).display? = some s ∧
        value? s = some (.list [.str "a\x7b", .str "", .str "b\nc"])) ∧
      value? quotedNumber = some (.str "5432") ∧
      ∃ s, (Value.str "5432").display? = some s ∧ value? s ≠ some (.str "5432") := by
  have hlist : value? strayList = some (.list [.str "a\x7b", .str "", .str "b\nc"]) := by
    decide +kernel
  have hnumber : value? quotedNumber = some (.str "5432") := by decide +kernel
  obtain ⟨s, hs, hback⟩ := (displayed_reads_back_iff strayList).1 _ hlist (fun x h => nomatch h)
  obtain ⟨u, hu, hchanged⟩ :=
    (displayed_reads_back_iff quotedNumber).1 _ hnumber (fun x h => nomatch h)
  refine ⟨hlist, ⟨s, hs, hback.2 (.list _)⟩, hnumber, u, hu, ?_⟩
  intro h
  cases hchanged.1 h with
  | text _ _ noNumber => exact absurd noNumber (by decide)

end Dotenv

end Cascade
