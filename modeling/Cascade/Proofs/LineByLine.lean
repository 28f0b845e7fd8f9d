/-
  Cascade.Proofs.LineByLine
  ────────────────────────────────
  **A DOCUMENT IS READ LINE BY LINE.**

  Two documents with a line feed between them are read one after the other,
  whatever line ends stand at the seam:

      lines_append_lastFeed     — a line feed at the end adds nothing but a
                                  blank line
      assignments_append_lineFeed — the assignments of one, then those of the other
      update_ofList         — entries added through a table of their own are
                              added alike, their order included

  Unifying line ends does not change the lines (`lines_unifyLineEnds`), so a
  file is read as its text is, with or without a byte order mark.

  `readLine?` asks for the first character of a right-hand side as the rules
  of an assignment do, and has no result when there is none; that never
  happens (`readLine?_eq`).
-/
import Mathlib.Data.List.Induction
import Cascade.Proofs.SettingEquivalence

namespace Cascade

/-! ## §1. Entries added through another table. -/

namespace Entries

variable {κ α : Type} [DecidableEq κ]

/-- The later value of a key takes the place of the earlier one. -/
theorem insert_insert_self (k : κ) (u v : α) (es : List (κ × α)) :
    insert k v (insert k u es) = insert k v es := by
  induction es with
  | nil => simp [insert]
  | cons e es ih =>
    obtain ⟨k', v'⟩ := e
    by_cases hk : k' = k
    · simp [insert, hk]
    · simp [insert, hk, ih]

/-- A key that is there keeps its place, so another one may as well come later. -/
theorem insert_comm_of_mem {k k' : κ} (h : k' ≠ k) (u v : α) {es : List (κ × α)}
    (hm : k ∈ es.map Prod.fst) :
    insert k v (insert k' u es) = insert k' u (insert k v es) := by
  induction es with
  | nil => simp at hm
  | cons e es ih =>
    obtain ⟨l, w⟩ := e
    by_cases hl : l = k
    · subst hl
      simp [insert, Ne.symm h]
    · have hm : k ∈ es.map Prod.fst := by simpa [Ne.symm hl] using hm
      by_cases hl' : l = k'
      · subst hl'
        simp [insert, h]
      · simp [insert, hl, hl', ih hm]

end Entries

namespace Table

variable {κ α : Type} [DecidableEq κ]

theorem insertAll_append (t : Table κ α) (es fs : List (κ × α)) :
    t.insertAll (es ++ fs) = (t.insertAll es).insertAll fs :=
  List.foldl_append

theorem insert_insert_self (t : Table κ α) (k : κ) (u v : α) :
    (t.insert k u).insert k v = t.insert k v := by
  unfold insert
  simp only [Entries.insert_insert_self]

theorem insert_comm_of_mem (t : Table κ α) {k k' : κ} (h : k' ≠ k) (u v : α) (hk : k ∈ t.keys) :
    (t.insert k' u).insert k v = (t.insert k v).insert k' u := by
  unfold insert
  simp only [Entries.insert_comm_of_mem h u v hk]

/-- The value of a key that is there may be changed before or after other entries. -/
theorem insert_insertAll (t : Table κ α) {k : κ} (v : α) {es : List (κ × α)} (hk : k ∈ t.keys)
    (hes : k ∉ es.map Prod.fst) :
    (t.insertAll es).insert k v = (t.insert k v).insertAll es := by
  induction es generalizing t with
  | nil => rfl
  | cons e es ih =>
    simp only [List.map_cons, List.mem_cons, not_or] at hes
    have hkey : k ∈ (t.insert e.1 e.2).keys := (t.mem_keys_insert e.1 k e.2).2 (.inr hk)
    have hswap := t.insert_comm_of_mem (Ne.symm hes.1) e.2 v hk
    show ((t.insert e.1 e.2).insertAll es).insert k v = ((t.insert k v).insert e.1 e.2).insertAll es
    rw [ih (t.insert e.1 e.2) hkey hes.2, hswap]

/-- A table with one more entry updates another one as the table does, with this entry last. -/
theorem update_insert (t other : Table κ α) (k : κ) (v : α) :
    t.update (other.insert k v) = (t.update other).insert k v := by
  obtain ⟨es, hd⟩ := other
  show t.insertAll (Entries.insert k v es) = (t.insertAll es).insert k v
  induction es generalizing t with
  | nil => rfl
  | cons e es ih =>
    obtain ⟨k', u⟩ := e
    simp only [List.map_cons, List.nodup_cons] at hd
    show t.insertAll (Entries.insert k v ((k', u) :: es)) =
      ((t.insert k' u).insertAll es).insert k v
    by_cases hk : k' = k
    · -- the entry of the key is replaced where it stands
      subst hk
      have hkey : k' ∈ (t.insert k' u).keys := (t.mem_keys_insert k' k' u).2 (.inl rfl)
      rw [Entries.insert, if_pos rfl, insert_insertAll _ v hkey hd.1, insert_insert_self]
      rfl
    · rw [Entries.insert, if_neg hk]
      exact ih (t.insert k' u) hd.2

/-- Entries added through a table of their own are added alike. -/
theorem update_ofList (t : Table κ α) (es : List (κ × α)) :
    t.update (ofList es) = t.insertAll es := by
  induction es using List.reverseRecOn with
  | nil => rfl
  | append_singleton es e ih =>
    have hlast : ofList (es ++ [e]) = (ofList es).insert e.1 e.2 := insertAll_append empty es [e]
    rw [hlast, update_insert, ih, insertAll_append]
    rfl

/-- The value of a key in an updated table: the new one, if there is one. -/
theorem get?_update (t other : Table κ α) (k : κ) :
    (t.update other).get? k = (other.get? k).or (t.get? k) :=
  t.get?_insertAll other.entries other.distinct k

end Table

/-! ## §2. Lines. -/

namespace Text

/-- A line feed at the end of a text ends its last line, or is a blank line of its own. -/
theorem lines_append_lastFeed (a : Text) :
    lines (a ++ [.char '\n']) = lines a ∨ lines (a ++ [.char '\n']) = lines a ++ [[]] := by
  induction a with
  | nil => exact .inr rfl
  | cons c a ih =>
    cases a with
    | nil =>
      -- after a character the line feed ends its line; after a line end it makes one more
      by_cases hr : c = '\r'
      · subst hr
        exact .inl rfl
      · have hfeed : isLineEnd '\n' = true := rfl
        by_cases he : isLineEnd c = true
        · exact .inr (by simp [lines, hr, he, hfeed])
        · exact .inl (by simp [lines, hr, he, hfeed])
    | cons d a =>
      have hs : startsWithLineFeed (d :: a ++ [.char '\n']) = startsWithLineFeed (d :: a) := rfl
      rw [List.cons_append, lines, lines, hs]
      split
      · exact ih
      · split
        · exact ih.imp (congrArg ([] :: ·)) (congrArg ([] :: ·))
        · have hne : lines (d :: a) ≠ [] := lines_ne_nil (by simp)
          obtain ⟨line, more, hl⟩ := List.exists_cons_of_ne_nil hne
          rw [hl] at ih ⊢
          rcases ih with ih | ih
          · exact .inl (by rw [ih])
          · exact .inr (by rw [ih]; rfl)

/-- The lines of a text do not depend on how a carriage return is read. -/
theorem lines_unifyLineEnds (t : Text) : lines (unifyLineEnds t) = lines t := by
  induction t with
  | nil => rfl
  | cons c t ih =>
    rw [unifyLineEnds]
    by_cases hr : c = '\r'
    · subst hr
      rw [if_pos rfl, lines]
      by_cases hf : startsWithLineFeed t = true
      · rw [if_pos hf, if_pos ⟨rfl, hf⟩, ih]
      · -- alone, it is a line end like the line feed it becomes
        have hfeed : lines (.char '\n' :: unifyLineEnds t) = [] :: lines (unifyLineEnds t) := by
          simp [lines, isLineEnd]
        rw [if_neg hf, if_neg fun h => hf h.2, if_pos (by decide), hfeed, ih]
    · have hend (t : Text) : ¬ (c = '\r' ∧ startsWithLineFeed t = true) := fun h => hr h.1
      rw [if_neg hr, lines, lines, if_neg (hend _), if_neg (hend _), ih]

end Text

namespace Dotenv

open Cascade.Text

/-! ## §3. Documents one after the other. -/

/-- A line feed between two documents keeps their assignments apart. -/
theorem assignments_append_lineFeed (a b : Text) :
    assignments (a ++ .char '\n' :: b) = assignments a ++ assignments b := by
  have hend : (lines (a ++ [.char '\n'])).filterMap assignment? = assignments a := by
    rcases lines_append_lastFeed a with h | h
    · rw [h]
      rfl
    · -- a blank line assigns nothing
      have hblank : [[]].filterMap assignment? = [] := rfl
      rw [h, List.filterMap_append, hblank, List.append_nil]
      rfl
  rw [assignments, lines_append_lineFeed, List.filterMap_append, hend]
  rfl

/-- Two documents are read one after the other, the values of the second taking precedence. -/
theorem parse_append_lineFeed (a b : Text) :
    parse (a ++ .char '\n' :: b) = (parse a).update (parse b) := by
  unfold parse
  rw [Table.update_ofList, assignments_append_lineFeed]
  exact Table.insertAll_append .empty (assignments a) (assignments b)

/-- A document that assigns nothing may stand between two others. -/
theorem parse_append_quiet {quiet : Text} (h : parse quiet = .empty) (a b : Text) :
    parse (a ++ .char '\n' :: (quiet ++ .char '\n' :: b)) = parse (a ++ .char '\n' :: b) := by
  have hempty : (Table.empty : Mapping Value).update (parse b) = parse b :=
    (parse b).ofList_entries
  rw [parse_append_lineFeed, parse_append_lineFeed quiet, h, hempty, parse_append_lineFeed]

/-! ## §4. No line fails. -/

/-- A line read rule by rule: the assignment it makes, if any; no result where the first
character of an empty right-hand side is asked for. -/
def readLine? (line : Text) : Option (Option (Text × Value)) :=
  let line := trim line
  if line = [] ∨ startsWithAny ['#', ';', '['] line then some none
  else
    match cut '=' line with
    | (_, none) => some none
    | (left, some right) =>
      let key := trim left
      let text := trim right
      if key = [] ∨ text = [] ∨ startsWithAny ['#', ';'] text then some none
      else (value? text).map fun v => some (key, v)

/-- The mapping of a document whose lines are read rule by rule, if all of them are. -/
def readDocument? (t : Text) : Option (Mapping Value) :=
  ((lines t).mapM readLine?).map fun read => Table.ofList (read.filterMap id)

/-- Every line is read, as the assignment it makes. -/
theorem readLine?_eq (line : Text) : readLine? line = some (assignment? line) := by
  unfold readLine? assignment?
  generalize trim line = line
  dsimp only
  by_cases hn : line = []
  · subst hn
    rfl
  · simp only [hn, false_or]
    split
    · rfl
    · cases hc : cut '=' line with
      | mk left right =>
        cases right with
        | none => rfl
        | some right =>
          dsimp only
          by_cases ht : trim right = []
          · -- the right-hand side that has no first character is not asked for one
            rw [ht]
            simp [value?]
          · have hv : value? (trim right) ≠ none := by
              obtain ⟨c, rest, hcons⟩ := List.exists_cons_of_ne_nil ht
              rw [hcons, value?]
              split_ifs <;> simp
            obtain ⟨v, hv⟩ := Option.ne_none_iff_exists'.1 hv
            simp only [ht, false_or, hv, Option.map_some]
            split <;> rfl

/-- Every document is read. -/
theorem readDocument?_eq (t : Text) : readDocument? t = some (parse t) := by
  have hread : (lines t).mapM readLine? = some ((lines t).map assignment?) := by
    rw [Entries.mapM_eq_some_iff, List.map_map]
    exact List.map_congr_left fun line _ => readLine?_eq line
  rw [readDocument?, hread, Option.map_some, List.filterMap_map]
  rfl

/-! ## §5. Files. -/

/-- The bytes of the byte order mark. -/
def orderMark : Bytes := [0xEF, 0xBB, 0xBF]

/-- The bytes of a text are read as it is, with or without a byte order mark before them. -/
theorem decode_of_encode {t : Text} {bytes : Bytes} (h : Utf8.encode t = .ok bytes)
    (hm : t.head? ≠ some (.char '\ufeff')) :
    decode bytes = .ok (parse t) ∧ decode (orderMark ++ bytes) = .ok (parse t) := by
  have hread : Utf8.decode bytes = .ok t := Utf8.decode_of_encode h
  have hmarked : Utf8.decodeMarked (orderMark ++ bytes) = .ok t := hread
  have hparse : parse (unifyLineEnds t) = parse t := by
    unfold parse assignments
    rw [lines_unifyLineEnds]
  unfold decode
  rw [decodeMarked_of_decode hread hm, hmarked, ← hparse]
  exact ⟨rfl, rfl⟩

/-- A file that is read and decoded is loaded. -/
theorem load_of_decode {w : World} {p : Path} {content : Bytes} {values : Mapping Value}
    (hr : w.read p = .ok content) (hd : decode content = .ok values) :
    EnvFile.load w p = .ok values := by
  unfold EnvFile.load
  rw [(World.stat_of_read hr).1, hr]
  dsimp only
  rw [hd]

/-- **A FILE IS READ LINE BY LINE, AND EACH LINE BY ITSELF.**  Texts with a line feed between
them are read one after the other, the values of the second taking precedence and new keys
following; what assigns nothing may stand anywhere; no text fails.  A file of the bytes of a text
stands for what the text stands for, with or without a byte order mark before them. -/
theorem parse_line_by_line (a b t : Text) :
    parse (a ++ .char '\n' :: b) = (parse a).update (parse b) ∧
    (∀ key, (parse (a ++ .char '\n' :: b)).get? key =
      ((parse b).get? key).or ((parse a).get? key)) ∧
    (∀ quiet, parse quiet = .empty →
      parse (a ++ .char '\n' :: (quiet ++ .char '\n' :: b)) = parse (a ++ .char '\n' :: b)) ∧
    readDocument? t = some (parse t) ∧
    ∀ bytes, Utf8.encode t = .ok bytes → t.head? ≠ some (.char '\ufeff') →
      ∀ (w : World) (p : Path), w.read p = .ok bytes ∨ w.read p = .ok (orderMark ++ bytes) →
        EnvFile.load w p = .ok (parse t) := by
  have seam := parse_append_lineFeed a b
  refine ⟨seam, fun key => ?_, fun quiet hq => parse_append_quiet hq a b, readDocument?_eq t,
    fun bytes hb hm w p hr => ?_⟩
  · rw [seam, Table.get?_update]
  · obtain ⟨plain, marked⟩ := decode_of_encode hb hm
    rcases hr with hr | hr
    · exact load_of_decode hr plain
    · exact load_of_decode hr marked

/-- A text that ends in a carriage return. -/
def seamText : Text := "A=1\r"

/-- A line without a right-hand side. -/
def valueless : Text := "A="

/-- A text that takes the key up again. -/
def laterText : Text := "A=2"

/-- The bytes of the text that ends in a carriage return. -/
def seamBytes : Bytes := [65, 61, 49, 13]

/-- A world with a file of these bytes after a byte order mark. -/
def markedWorld : World where
  files := ⟨Table.ofList [([".env"], .file (orderMark ++ seamBytes) 0)]⟩
  cwd := ⟨[], 0⟩
  environ := .empty
  users := .none
  now := 0

/-- The carriage return and the line feed after it are one line end; the line without a
right-hand side changes nothing; the file is read as its text. -/
theorem parse_line_by_line_atSeam :
    parse (seamText ++ .char '\n' :: laterText) = (parse seamText).update (parse laterText) ∧
      (parse (seamText ++ .char '\n' :: laterText)).get? "A" = some (.int 2) ∧
      parse valueless = .empty ∧
      parse (seamText ++ .char '\n' :: (valueless ++ .char '\n' :: laterText)) =
        parse (seamText ++ .char '\n' :: laterText) ∧
      Utf8.encode seamText = .ok seamBytes ∧ seamText.head? ≠ some (.char '\ufeff') ∧
      markedWorld.read ⟨.root, [".env"]⟩ = .ok (orderMark ++ seamBytes) ∧
      EnvFile.load markedWorld ⟨.root, [".env"]⟩ = .ok (parse seamText) := by
  have bytes : Utf8.encode seamText = .ok seamBytes := by decide +kernel
  have unmarked : seamText.head? ≠ some (.char '\ufeff') := by decide
  have there : markedWorld.read ⟨.root, [".env"]⟩ = .ok (orderMark ++ seamBytes) := by
    decide +kernel
  have quiet : parse valueless = .empty := by decide +kernel
  obtain ⟨seam, look, apart, -, file⟩ := parse_line_by_line seamText laterText seamText
  exact ⟨seam, (look "A").trans (by decide +kernel), quiet, apart valueless quiet, bytes, unmarked,
    there, file seamBytes bytes unmarked markedWorld _ (.inr there)⟩

end Dotenv

end Cascade
