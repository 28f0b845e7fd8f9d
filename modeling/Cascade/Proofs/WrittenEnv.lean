/-
  Cascade.Proofs.WrittenEnv
  ────────────────────────────────
  **AN ENV FILE READS BACK WHAT WAS WRITTEN.**

  Keys and values are written row by row, between other rows that say
  nothing:

      Literal    — a quoted text, a list or an integer, as it is written
      Row        — `key=value` with blanks around both, or a blank line, a
                   comment or the head of a section
      Document   — rows, each with its line end but the last

  All of them carry what makes them legal.

      Literal.reads, Row.reads   — one literal, one row is read back
      assignments_append         — a row and its line end are read apart
                                   from what follows
      parse_text                 — a document stands for the mapping of its
                                   pairs, the last one of a key counting
-/
import Cascade.Dotenv.Document
import Cascade.Proofs.Digits

namespace Cascade.Dotenv

open Cascade.Text

/-! ## §1. What is written. -/

/-- A text on one line. -/
def OneLine (t : Text) : Prop := ∀ c ∈ t, isLineEnd c = false

instance : DecidablePred OneLine := fun t =>
  inferInstanceAs (Decidable (∀ c ∈ t, isLineEnd c = false))

/-- A text with each backslash and each of these quotes after a backslash. -/
def escaped (quote : CodePoint) (t : Text) : Text :=
  t.flatMap fun c => if c = quote ∨ c = '\\' then [.char '\\', c] else [c]

/-- A text that can be an item of a list. -/
structure IsItem (t : Text) : Prop where
  trimmed : Trimmed t
  oneLine : OneLine t
  noComma : .char ',' ∉ t
  noBrace : .char '}' ∉ t

instance : DecidablePred IsItem := fun t =>
  decidable_of_iff (Trimmed t ∧ OneLine t ∧ .char ',' ∉ t ∧ .char '}' ∉ t)
    ⟨fun ⟨ht, hl, hc, hb⟩ => ⟨ht, hl, hc, hb⟩, fun h => ⟨h.1, h.2, h.3, h.4⟩⟩

/-- A value as it can be written. -/
inductive Literal
  | quoted (quote : CodePoint) (t : Text) (isQuote : quote = '"' ∨ quote = '\'')
      (oneLine : OneLine t)
  | list (items : List Text) (areItems : ∀ item ∈ items, IsItem item) (notBlank : items ≠ [[]])
  | int (n : Int) (fewDigits : n.natAbs < 10 ^ digitLimit)

namespace Literal

/-- How a value is written. -/
def text : Literal → Text
  | quoted quote t _ _ => quote :: escaped quote t ++ [quote]
  | list items _ _ => .char '{' :: join [.char ','] items ++ [.char '}']
  | int n _ => ofInt n

/-- What is written. -/
def value : Literal → Value
  | quoted _ t _ _ => .str t
  | list items _ _ => .list (items.map .str)
  | int n _ => .int n

end Literal

/-- The characters that begin a row which is no assignment. -/
def rowMarks : List CodePoint := ['#', ';', '[']

/-- A text that can be a key. -/
structure IsKey (key : Text) : Prop where
  notEmpty : key ≠ []
  trimmed : Trimmed key
  oneLine : OneLine key
  noEquals : .char '=' ∉ key
  unmarked : startsWithAny rowMarks key = false

instance : DecidablePred IsKey := fun t =>
  decidable_of_iff (t ≠ [] ∧ Trimmed t ∧ OneLine t ∧ .char '=' ∉ t ∧
      startsWithAny rowMarks t = false)
    ⟨fun ⟨hn, ht, hl, he, hm⟩ => ⟨hn, ht, hl, he, hm⟩, fun h => ⟨h.1, h.2, h.3, h.4, h.5⟩⟩

/-- Blanks on one line. -/
structure IsPad (t : Text) : Prop where
  blank : ∀ c ∈ t, isBlank c = true
  oneLine : OneLine t

instance : DecidablePred IsPad := fun t =>
  decidable_of_iff ((∀ c ∈ t, isBlank c = true) ∧ OneLine t)
    ⟨fun ⟨hb, hl⟩ => ⟨hb, hl⟩, fun h => ⟨h.1, h.2⟩⟩

/-- A row of a document. -/
inductive Row
  | pair (beforeKey key afterKey beforeValue : Text) (literal : Literal) (afterValue : Text)
      (isKey : IsKey key) (arePads : ∀ t ∈ [beforeKey, afterKey, beforeValue, afterValue], IsPad t)
  | quiet (pad rest : Text) (isPad : IsPad pad) (oneLine : OneLine rest)
      (isMarked : rest = [] ∨ startsWithAny rowMarks rest = true)

namespace Row

/-- How a row is written. -/
def text : Row → Text
  | pair beforeKey key afterKey beforeValue literal afterValue _ _ =>
    beforeKey ++ key ++ afterKey ++ .char '=' :: (beforeValue ++ literal.text ++ afterValue)
  | quiet pad rest _ _ _ => pad ++ rest

/-- The pair a row is written for. -/
def pair? : Row → Option (Text × Value)
  | pair _ key _ _ literal _ _ _ => some (key, literal.value)
  | quiet _ _ _ _ _ => none

end Row

/-- A line end: one character, or the two of a pair. -/
def IsLineEnd (t : Text) : Prop := t = "\r\n" ∨ ∃ c, t = [c] ∧ isLineEnd c = true

/-- A row and the line end after it. -/
structure EndedRow where
  row : Row
  lineEnd : Text
  isLineEnd : IsLineEnd lineEnd

/-- A document: rows with their line ends, and what stands after the last one. -/
structure Document where
  rows : List EndedRow
  last : Row

namespace Document

/-- How a document is written. -/
def text (d : Document) : Text := d.rows.flatMap (fun r => r.row.text ++ r.lineEnd) ++ d.last.text

/-- The pairs of a document in order. -/
def pairs (d : Document) : List (Text × Value) :=
  (d.rows.map EndedRow.row ++ [d.last]).filterMap Row.pair?

end Document

/-! ## §2. Reading a literal back. -/

/-- What was escaped is found again up to the closing quote. -/
theorem unquote_escaped (quote : CodePoint) (t : Text) :
    unquote quote (escaped quote t ++ [quote]) = t := by
  induction t with
  | nil => simp [escaped, unquote]
  | cons c t ih =>
    have hrest : escaped quote t ++ [quote] ≠ [] := by simp
    obtain ⟨d, rest, hd⟩ := List.exists_cons_of_ne_nil hrest
    have hcons : escaped quote (c :: t) ++ [quote] =
        (if c = quote ∨ c = '\\' then [.char '\\', c] else [c]) ++ d :: rest := by
      rw [← hd]
      simp [escaped]
    rw [hd] at ih
    rw [hcons]
    by_cases hc : c = quote ∨ c = '\\'
    · -- the backslash takes the character after it along
      rw [if_pos hc]
      show unquote quote (.char '\\' :: c :: d :: rest) = c :: t
      rw [unquote, if_pos ⟨rfl, hc⟩, ih]
    · rw [if_neg hc]
      show unquote quote (c :: d :: rest) = c :: t
      rw [not_or] at hc
      rw [unquote, if_neg fun hb => hc.2 hb.1, if_neg hc.1, ih]

/-- A text that is found again between commas inside braces, be it on one line or not. -/
structure IsListed (t : Text) : Prop where
  trimmed : Trimmed t
  noComma : .char ',' ∉ t
  noBrace : .char '}' ∉ t

/-- An item is one. -/
theorem IsItem.isListed {t : Text} (h : IsItem t) : IsListed t := ⟨h.trimmed, h.noComma, h.noBrace⟩

/-- Joined items are blank only when there is none. -/
theorem eq_nil_of_trim_join {items : List Text} (hi : ∀ item ∈ items, IsListed item)
    (hb : items ≠ [[]]) (h : trim (join [.char ','] items) = []) : items = [] := by
  cases items with
  | nil => rfl
  | cons item items =>
    cases items with
    | nil =>
      have ht : trim item = item := (hi item (by simp)).trimmed.trim_eq
      rw [join, ht] at h
      exact absurd (by rw [h]) hb
    | cons next items =>
      -- a comma is no blank
      have hcomma : isBlank (.char ',') = true :=
        isBlank_of_trim_eq_nil h _ (by simp [join])
      exact absurd hcomma (by decide)

/-- The items inside braces are found again. -/
theorem braceItems_join {items : List Text} (hi : ∀ item ∈ items, IsListed item)
    (hb : items ≠ [[]]) : braceItems (join [.char ','] items ++ [.char '}']) = items := by
  have hbrace : .char '}' ∉ join [.char ','] items := by
    intro hm
    rcases mem_of_mem_join hm with hcomma | ⟨item, hitem, hc⟩
    · exact absurd hcomma (by decide)
    · exact (hi item hitem).noBrace hc
  unfold braceItems
  rw [cut_append hbrace]
  by_cases ht : trim (join [.char ','] items) = []
  · rw [if_pos ht, eq_nil_of_trim_join hi hb ht]
  · have hne : items ≠ [] := fun h => ht (by rw [h]; rfl)
    have htrim : items.map trim = items :=
      (List.map_congr_left fun item hm => (hi item hm).trimmed.trim_eq).trans (List.map_id' items)
    simp only [if_neg ht]
    rw [splitAt_join hne fun item hm => (hi item hm).noComma, htrim]

/-- The characters of an integer are digits, after a minus sign if it is negative. -/
theorem toNat_of_mem_ofInt {n : Int} {c : CodePoint} (h : c ∈ ofInt n) :
    c.toNat = 45 ∨ (48 ≤ c.toNat ∧ c.toNat < 58) := by
  cases n with
  | ofNat m => exact .inr (toNat_of_mem_ofNat h)
  | negSucc m =>
    rcases List.mem_cons.1 h with rfl | h
    · exact .inl rfl
    · exact .inr (toNat_of_mem_ofNat h)

/-- A row of digits is read to its end. -/
theorem moreDigits_map_digit {ds : List Nat} (h : ∀ d ∈ ds, d < 10) :
    Numeral.moreDigits (ds.map digit) = (ds, []) := by
  induction ds with
  | nil => rfl
  | cons d ds ih =>
    have hd : d < 10 := h d (by simp)
    have hrest := ih fun e he => h e (List.mem_cons_of_mem d he)
    rw [List.map_cons, Numeral.moreDigits]
    · rw [digitValue?_digit hd, hrest]
    · -- a digit is no underscore
      intro c rest hu
      have hn := toNat_digit hd
      rw [hu] at hn
      have hunder : (CodePoint.char '_').toNat = 95 := rfl
      omega

/-- The digits of a number are the whole of a numeral. -/
theorem digitGroup_ofNat (n : Nat) : Numeral.digitGroup (Text.ofNat n) = (digitsOf n, []) := by
  rw [ofNat_eq_map]
  have hlt := fun d (hd : d ∈ digitsOf n) => lt_ten_of_mem_digitsOf hd
  cases hds : digitsOf n with
  | nil => exact absurd hds (digitsOf_ne_nil n)
  | cons d ds =>
    rw [hds, List.forall_mem_cons] at hlt
    rw [List.map_cons, Numeral.digitGroup, digitValue?_digit hlt.1, moreDigits_map_digit hlt.2]

/-- A number without a sign has none. -/
theorem sign_ofNat (n : Nat) : Numeral.sign (Text.ofNat n) = (false, Text.ofNat n) := by
  have hdigit {c : CodePoint} {rest : Text} (hs : Text.ofNat n = c :: rest) : 48 ≤ c.toNat :=
    (toNat_of_mem_ofNat (n := n) (by rw [hs]; simp)).1
  unfold Numeral.sign
  split
  · rename_i hs
    exact absurd (hdigit hs) (by decide)
  · rename_i hs
    exact absurd (hdigit hs) (by decide)
  · rfl

/-- A row of digits, with its sign read, is an integer. -/
theorem bareValue_of_sign {t : Text} {negative : Bool} {n : Nat}
    (hs : Numeral.sign t = (negative, Text.ofNat n)) (hn : n < 10 ^ digitLimit) :
    bareValue t = .int (Numeral.signed negative n) := by
  have hread : Numeral.ofText? t = some ⟨negative, digitsOf n, none, none⟩ := by
    unfold Numeral.ofText?
    rw [hs]
    simp only [digitGroup_ofNat, Numeral.fractionPart]
    rw [if_neg fun h => digitsOf_ne_nil n h.1]
    rfl
  have hlen : (digitsOf n).length ≤ digitLimit := length_digitsOf_le (by decide) hn
  rw [bareValue, hread, Option.bind_some]
  simp [Numeral.value?, Numeral.isFractional, hlen, natOfDigits_digitsOf]

/-- An integer is read back. -/
theorem bareValue_ofInt {n : Int} (h : n.natAbs < 10 ^ digitLimit) :
    bareValue (ofInt n) = .int n := by
  cases n with
  | ofNat m => exact bareValue_of_sign (sign_ofNat m) h
  | negSucc m =>
    have hs : Numeral.sign (ofInt (.negSucc m)) = (true, Text.ofNat (m + 1)) := rfl
    exact bareValue_of_sign hs h

namespace Literal

/-! ## §3. Literals on a row. -/

/-- A literal has neither line ends nor blanks at its ends, begins with no mark of a comment,
and is read back. -/
structure Reads (l : Literal) : Prop where
  oneLine : OneLine l.text
  trimmed : Trimmed l.text
  unmarked : startsWithAny ['#', ';'] l.text = false
  value : value? l.text = some l.value

/-- So it is with a quoted text. -/
theorem reads_quoted {quote : CodePoint} {t : Text} (isQuote : quote = '"' ∨ quote = '\'')
    (oneLine : OneLine t) : (quoted quote t isQuote oneLine).Reads := by
  have hquote : isBlank quote = false ∧ isLineEnd quote = false ∧
      startsWithAny ['#', ';'] [quote] = false := by
    rcases isQuote with rfl | rfl <;> decide
  refine ⟨?_, ⟨?_, ?_⟩, hquote.2.2, ?_⟩
  · intro c hc
    simp only [text, escaped, List.cons_append, List.mem_cons, List.mem_append, List.mem_flatMap,
      List.not_mem_nil, or_false] at hc
    rcases hc with rfl | ⟨d, hd, hc⟩ | rfl
    · exact hquote.2.1
    · split at hc
      · rcases List.mem_cons.1 hc with rfl | hc
        · rfl
        · rw [List.mem_singleton.1 hc]
          exact oneLine d hd
      · rw [List.mem_singleton.1 hc]
        exact oneLine d hd
    · exact hquote.2.1
  · intro c hc
    cases hc
    exact hquote.1
  · intro c hc
    rw [text, List.getLast?_concat] at hc
    cases hc
    exact hquote.1
  · show value? (quote :: (escaped quote t ++ [quote])) = _
    rw [value?, if_pos isQuote, unquote_escaped]
    rfl

/-- So it is with a list. -/
theorem reads_list {items : List Text} (areItems : ∀ item ∈ items, IsItem item)
    (notBlank : items ≠ [[]]) : (list items areItems notBlank).Reads := by
  refine ⟨?_, ⟨?_, ?_⟩, rfl, ?_⟩
  · intro c hc
    simp only [text, List.cons_append, List.mem_cons, List.mem_append, List.not_mem_nil,
      or_false] at hc
    rcases hc with rfl | hc | rfl
    · rfl
    · rcases mem_of_mem_join hc with hcomma | ⟨item, hitem, hc⟩
      · rw [List.mem_singleton.1 hcomma]
        rfl
      · exact (areItems item hitem).oneLine c hc
    · rfl
  · intro c hc
    cases hc
    rfl
  · intro c hc
    rw [text, List.getLast?_concat] at hc
    cases hc
    rfl
  · show value? (.char '{' :: (join [.char ','] items ++ [.char '}'])) = _
    have areListed : ∀ item ∈ items, IsListed item := fun item hm => (areItems item hm).isListed
    rw [value?, if_neg (by decide), if_pos rfl, braceItems_join areListed notBlank]
    rfl

/-- So it is with an integer. -/
theorem reads_int {n : Int} (fewDigits : n.natAbs < 10 ^ digitLimit) :
    (int n fewDigits).Reads := by
  have hmem {c : CodePoint} (hc : c ∈ ofInt n) := toNat_of_mem_ofInt hc
  have hblank {c : CodePoint} (hc : c ∈ ofInt n) : isBlank c = false := by
    have hr := hmem hc
    simp only [isBlank, blankRanges, List.any_cons, List.any_nil, Bool.or_false,
      Bool.or_eq_false_iff, Bool.and_eq_false_iff, decide_eq_false_iff_not]
    omega
  refine ⟨?_, ⟨?_, ?_⟩, ?_, ?_⟩
  · intro c hc
    have hr := hmem hc
    simp only [isLineEnd, Bool.or_eq_false_iff, Bool.and_eq_false_iff, decide_eq_false_iff_not,
      beq_eq_false_iff_ne]
    omega
  · exact fun c hc => hblank (List.mem_of_mem_head? hc)
  · exact fun c hc => hblank (List.mem_of_getLast? hc)
  · -- neither mark is a sign or a digit
    show startsWithAny ['#', ';'] (ofInt n) = false
    cases ht : ofInt n with
    | nil => rfl
    | cons c rest =>
      have hr := hmem (by rw [ht]; exact List.mem_cons_self)
      have hsharp : c ≠ .char '#' := fun h => by subst h; revert hr; decide
      have hsemi : c ≠ .char ';' := fun h => by subst h; revert hr; decide
      simp [startsWithAny, hsharp, hsemi]
  · show value? (ofInt n) = some (.int n)
    rw [← bareValue_ofInt fewDigits]
    cases ht : ofInt n with
    | nil => exact absurd ht (ofInt_ne_nil n)
    | cons c rest =>
      have hr := hmem (by rw [ht]; exact List.mem_cons_self)
      have hquote : ¬ (c = .char '"' ∨ c = .char '\'') := by
        rintro (h | h) <;> subst h <;> revert hr <;> decide
      have hbrace : c ≠ .char '{' := fun h => by subst h; revert hr; decide
      rw [value?, if_neg hquote, if_neg hbrace]

/-- **A LITERAL READS BACK**, whichever it is. -/
theorem reads (l : Literal) : l.Reads := by
  cases l with
  | quoted quote t isQuote oneLine => exact reads_quoted isQuote oneLine
  | list items areItems notBlank => exact reads_list areItems notBlank
  | int n fewDigits => exact reads_int fewDigits

end Literal

/-! ## §4. Rows. -/

/-- A row is one line, and is read as the pair it is written for. -/
structure Row.Reads (r : Row) : Prop where
  oneLine : OneLine r.text
  assignment : assignment? r.text = r.pair?

/-- A row that says nothing is read as no pair. -/
theorem Row.reads_quiet {pad rest : Text} (isPad : IsPad pad) (oneLine : OneLine rest)
    (isMarked : rest = [] ∨ startsWithAny rowMarks rest = true) :
    (quiet pad rest isPad oneLine isMarked).Reads := by
  refine ⟨?_, ?_⟩
  · intro c hc
    rcases List.mem_append.1 hc with hc | hc
    · exact isPad.oneLine c hc
    · exact oneLine c hc
  · have htrim : trim (pad ++ rest) = trim rest := by
      have hpad : trim (pad ++ rest ++ []) = trim rest := trim_pad isPad.blank (by simp) rest
      rwa [List.append_nil] at hpad
    show assignment? (pad ++ rest) = none
    unfold assignment?
    rw [htrim]
    rcases isMarked with rfl | hm
    · rfl
    · -- a mark is no blank and stays in front
      cases rest with
      | nil => cases hm
      | cons c rest =>
        have hc : c ∈ rowMarks := by simpa [startsWithAny] using hm
        have hall : ∀ c ∈ rowMarks, isBlank c = false := by decide
        rw [trim_cons (hall c hc)]
        exact if_pos hm

/-- A key and a text with blanks around them are read as a pair. -/
theorem assignment?_pair {beforeKey key afterKey beforeValue text afterValue : Text} {v : Value}
    (isKey : IsKey key) (areBlank : ∀ t ∈ [beforeKey, afterKey, beforeValue, afterValue],
      ∀ c ∈ t, isBlank c = true) (trimmed : Trimmed text)
    (unmarked : startsWithAny ['#', ';'] text = false) (value : value? text = some v) :
    assignment? (beforeKey ++ key ++ afterKey ++
      .char '=' :: (beforeValue ++ text ++ afterValue)) = some (key, v) := by
  simp only [List.forall_mem_cons] at areBlank
  obtain ⟨hbk, hak, hbv, hav, -⟩ := areBlank
  -- what is left of the row once it is trimmed
  let core := key ++ (afterKey ++ .char '=' :: (beforeValue ++ text))
  have htext : beforeKey ++ key ++ afterKey ++ .char '=' :: (beforeValue ++ text ++ afterValue) =
      beforeKey ++ core ++ afterValue := by simp [core]
  have hne : text ≠ [] := by
    rintro rfl
    cases value
  have hhead : core.head? = key.head? := by
    cases key with
    | nil => exact absurd rfl isKey.notEmpty
    | cons c key => rfl
  have hlast : core.getLast? = text.getLast? := by
    have hsplit : core = (key ++ afterKey ++ [.char '='] ++ beforeValue) ++ text := by
      simp [core]
    rw [hsplit]
    exact List.getLast?_append_of_ne_nil _ hne
  have htrim : trim (beforeKey ++ core ++ afterValue) = core := by
    have hcore : Trimmed core := by
      refine ⟨?_, ?_⟩
      · rw [hhead]
        exact isKey.trimmed.1
      · rw [hlast]
        exact trimmed.2
    rw [trim_pad hbk hav, hcore.trim_eq]
  have hmark : startsWithAny rowMarks core = false := by
    have hk := isKey.unmarked
    cases key with
    | nil => exact absurd rfl isKey.notEmpty
    | cons c key => exact hk
  have hcut : cut '=' core = (key ++ afterKey, some (beforeValue ++ text)) := by
    have hfront : .char '=' ∉ key ++ afterKey := by
      rw [List.mem_append, not_or]
      -- an equals sign is no blank
      exact ⟨isKey.noEquals, fun h => absurd (hak _ h) (by decide)⟩
    have hc := cut_append hfront (beforeValue ++ text)
    rwa [List.append_assoc] at hc
  have hkey : trim (key ++ afterKey) = key := by
    have hpad : trim ([] ++ key ++ afterKey) = trim key := trim_pad (by simp) hak key
    rwa [isKey.trimmed.trim_eq] at hpad
  have hvalue : trim (beforeValue ++ text) = text := by
    have hpad : trim (beforeValue ++ text ++ []) = trim text := trim_pad hbv (by simp) text
    rwa [List.append_nil, trimmed.trim_eq] at hpad
  rw [htext, assignment?, htrim]
  unfold rowMarks at hmark
  simp only [hmark, hcut, hkey, hvalue, unmarked, value, isKey.notEmpty]
  rfl

/-- A pair is read as it is written. -/
theorem Row.reads_pair {beforeKey key afterKey beforeValue afterValue : Text} (l : Literal)
    (isKey : IsKey key) (arePads : ∀ t ∈ [beforeKey, afterKey, beforeValue, afterValue], IsPad t) :
    (pair beforeKey key afterKey beforeValue l afterValue isKey arePads).Reads := by
  have hl := l.reads
  refine ⟨?_, ?_⟩
  · simp only [List.forall_mem_cons] at arePads
    obtain ⟨hbk, hak, hbv, hav, -⟩ := arePads
    show OneLine (_ ++ _)
    intro c hc
    simp only [List.mem_append, List.mem_cons] at hc
    rcases hc with ((hc | hc) | hc) | rfl | (hc | hc) | hc
    · exact hbk.oneLine c hc
    · exact isKey.oneLine c hc
    · exact hak.oneLine c hc
    · rfl
    · exact hbv.oneLine c hc
    · exact hl.oneLine c hc
    · exact hav.oneLine c hc
  · exact assignment?_pair isKey (fun t ht => (arePads t ht).blank) hl.trimmed hl.unmarked hl.value

/-- **A ROW READS BACK**, whatever it is. -/
theorem Row.reads (r : Row) : r.Reads := by
  cases r with
  | pair beforeKey key afterKey beforeValue l afterValue isKey arePads =>
    exact reads_pair l isKey arePads
  | quiet pad rest isPad oneLine isMarked => exact reads_quiet isPad oneLine isMarked

/-! ## §5. Documents. -/

/-- A line and its end go before the rest of a document. -/
theorem assignments_append {line lineEnd : Text} (hl : OneLine line) (he : IsLineEnd lineEnd)
    (rest : Text) :
    assignments (line ++ lineEnd ++ rest) = (assignment? line).toList ++ assignments rest := by
  have hcons (more : List Text) : (line :: more).filterMap assignment? =
      (assignment? line).toList ++ more.filterMap assignment? := by
    rw [List.filterMap_cons]
    cases assignment? line <;> rfl
  unfold assignments
  rw [List.append_assoc]
  rcases he with rfl | ⟨e, rfl, he⟩
  · rw [← hcons]
    exact congrArg _ (lines_append_pair hl rest)
  · rw [← hcons, List.singleton_append]
    by_cases hpair : e = .char '\r' ∧ startsWithLineFeed rest = true
    · -- the two make one line end, and the rest begins with an empty line the less
      obtain ⟨rfl, hf⟩ := hpair
      obtain ⟨rest', rfl⟩ : ∃ rest', rest = .char '\n' :: rest' := by
        cases rest with
        | nil => cases hf
        | cons c rest' => exact ⟨rest', by rw [beq_iff_eq.1 hf]⟩
      rw [lines_append_pair hl rest']
      have hempty : lines (.char '\n' :: rest') = [] :: lines rest' := by
        simp [lines, isLineEnd]
      rw [hempty]
      rfl
    · rw [lines_append_end hl he hpair]

/-- The last row of a document, which may be empty. -/
theorem assignments_of_oneLine {line : Text} (hl : OneLine line) :
    assignments line = (assignment? line).toList := by
  by_cases hne : line = []
  · subst hne
    rfl
  · unfold assignments
    rw [lines_of_plain hl hne]
    cases h : assignment? line <;> simp [h]

/-- A document makes the assignments it is written for, in order. -/
theorem Document.assignments_text (d : Document) : assignments d.text = d.pairs := by
  obtain ⟨rows, last⟩ := d
  unfold text pairs
  induction rows with
  | nil =>
    have hlast := last.reads
    show assignments last.text = _
    rw [assignments_of_oneLine hlast.oneLine, hlast.assignment]
    cases h : last.pair? <;> simp [h]
  | cons r rows ih =>
    have hr := r.row.reads
    simp only [List.flatMap_cons, List.append_assoc] at ih ⊢
    rw [← List.append_assoc, assignments_append hr.oneLine r.isLineEnd, ih, hr.assignment]
    cases h : r.row.pair? <;> simp [h]

/-- **A DOCUMENT READS BACK.**  It stands for the mapping of its pairs, in which each key has
the value of its last pair. -/
theorem parse_text (d : Document) :
    parse d.text = Table.ofList d.pairs ∧
      ∀ key, (parse d.text).get? key = Entries.get? key d.pairs.reverse := by
  have hparse : parse d.text = Table.ofList d.pairs := by
    rw [parse, d.assignments_text]
  refine ⟨hparse, fun key => ?_⟩
  rw [hparse, Table.get?_ofList]

/-- Three pairs under two keys, with a comment before them and blanks around. -/
def sampleDocument : Document where
  rows := [
    ⟨.quiet " " "# A = 1" (by decide) (by decide) (by decide), "\r\n", .inl rfl⟩,
    ⟨.pair " " "A" "\t" "" (.quoted '"' "=\"\\ " (by decide) (by decide)) ""
      (by decide) (by decide), "\r", .inr ⟨'\r', rfl, by decide⟩⟩,
    ⟨.pair "" "B" "" " " (.list ["x", "", "y"] (by decide) (by decide)) " "
      (by decide) (by decide), "\n", .inr ⟨'\n', rfl, by decide⟩⟩]
  last := .pair "" "A" "" "" (.int (-7) (by decide +kernel)) "" (by decide) (by decide)

example : sampleDocument.text =
    " # A = 1\r\n A\t=\"=\\\"\\\\ \"\rB= \x7bx,,y\x7d \nA=-7" := by decide +kernel

example : (parse sampleDocument.text).get? "A" = some (.int (-7)) := by decide +kernel

end Cascade.Dotenv
