/-
  Cascade.Proofs.WrittenJson
  ────────────────────────────────
  **A DOCUMENT READS BACK.**

  A written value is read as itself, whatever follows that cannot belong to
  a number; lists and objects are read part by part, the blanks of the
  layout being skipped between the parts.  `Storable` says which values can
  be written and are themselves again when they are read.

      ReadsBack             — how a written value behaves under the reader
      itemsAt_join          — the parts of a list are read one by one
      membersAt_join        — and so are those of an object
      exists_readsBack      — every storable value is written and reads back
-/
import Cascade.Proofs.Writable
import Cascade.Proofs.WrittenNumber
import Cascade.Proofs.WrittenString

namespace Cascade

open Cascade.Text

/-! ## §1. Values that can be kept. -/

/-- A value that is the same after it was written and read: there are no bytes in it, its
integers have at most 4300 digits, its objects have distinct names, and no text has the two
halves of a pair side by side, which would be read as the character of the pair. -/
inductive Value.Storable : Value → Prop
  | null : Storable .null
  | bool (b : Bool) : Storable (.bool b)
  | int {n : Int} (short : n.natAbs < 10 ^ digitLimit) : Storable (.int n)
  | float {x : Binary64} (canonical : x.Canonical) : Storable (.float x)
  | str {t : Text} (unpaired : Json.Unpaired t) : Storable (.str t)
  | list {items : List Value} (each : ∀ item ∈ items, Storable item) : Storable (.list items)
  | object {members : List (Text × Value)} (distinct : (members.map Prod.fst).Nodup)
      (names : ∀ m ∈ members, Json.Unpaired m.1) (each : ∀ m ∈ members, Storable m.2) :
      Storable (.object members)

namespace Json

/-! ## §2. White space and words. -/

/-- A text that goes on with no white space. -/
def StartsPlain (t : Text) : Prop := ∀ c ∈ t.head?, isSpace c = false

/-- Where no white space is, none is skipped. -/
theorem skipSpace_of_startsPlain {t : Text} (h : StartsPlain t) : skipSpace t = t := by
  cases t with
  | nil => rfl
  | cons c t =>
    have hc := h c rfl
    simp [skipSpace, hc]

/-- A line break and its indentation are skipped. -/
theorem skipSpace_newLine (level : Nat) {t : Text} (h : StartsPlain t) :
    skipSpace (newLine level ++ t) = t := by
  have hspace : ∀ c ∈ newLine level, isSpace c = true := by
    intro c hc
    rcases List.mem_cons.1 hc with rfl | hc
    · rfl
    · rw [(List.mem_replicate.1 hc).2]
      rfl
  have hskip : skipSpace (newLine level ++ t) = skipSpace t :=
    List.dropWhile_append_of_pos hspace
  rw [hskip, skipSpace_of_startsPlain h]

/-- What begins with none of the three marks is a word or else a number. -/
theorem valueAt_atom {steps : Nat} {c : CodePoint} {t : Text}
    (h : c ≠ '"' ∧ c ≠ '\x7b' ∧ c ≠ '[') :
    (∀ r, wordAt? (c :: t) = some r → valueAt (steps + 1) (c :: t) = .ok r) ∧
      (wordAt? (c :: t) = none → valueAt (steps + 1) (c :: t) = numberAt (c :: t)) := by
  obtain ⟨hq, hb, hl⟩ := h
  constructor
  · intro r hw
    unfold valueAt
    split
    · rename_i hm; exact absurd (List.cons.inj hm).1 hq
    · rename_i hm; exact absurd (List.cons.inj hm).1 hb
    · rename_i hm; exact absurd (List.cons.inj hm).1 hl
    · rw [hw]
  · intro hw
    unfold valueAt
    split
    · rename_i hm; exact absurd (List.cons.inj hm).1 hq
    · rename_i hm; exact absurd (List.cons.inj hm).1 hb
    · rename_i hm; exact absurd (List.cons.inj hm).1 hl
    · rw [hw]

/-! ## §3. Single values. -/

/-- A text of printable characters and line breaks. -/
def IsPlain (t : Text) : Prop := ∀ c ∈ t, c = '\n' ∨ (32 ≤ c.toNat ∧ c.toNat < 127)

/-- How a written value behaves: it is made of printable characters and line breaks, it
begins like no white space and no closing bracket, and it is read as the value. -/
structure ReadsBack (v : Value) (t : Text) : Prop where
  plain : IsPlain t
  lead : ∃ c rest, t = c :: rest ∧ isSpace c = false ∧ c ≠ ']' ∧ c ≠ '\x7d'
  reads : ∀ {steps : Nat} {rest : Text}, t.length ≤ steps → EndsNumber rest →
    valueAt steps (t ++ rest) = .ok (v, rest)

/-- A written value begins without white space, whatever follows it. -/
theorem ReadsBack.startsPlain {v : Value} {t : Text} (h : ReadsBack v t) (rest : Text) :
    StartsPlain (t ++ rest) := by
  obtain ⟨c, more, rfl, hspace, -⟩ := h.lead
  intro d hd
  cases hd
  exact hspace

/-- A text that is a word or a number: printable, and it begins like nothing else. -/
structure IsAtom (t : Text) : Prop where
  printable : ∀ c ∈ t, 32 ≤ c.toNat ∧ c.toNat < 127
  lead : ∃ c rest, t = c :: rest ∧ (isSpace c = false ∧ c ≠ ']' ∧ c ≠ '\x7d') ∧
    c ≠ '"' ∧ c ≠ '\x7b' ∧ c ≠ '['

/-- What is read as an atom reads back. -/
theorem IsAtom.readsBack {v : Value} {t : Text} (h : IsAtom t)
    (hread : ∀ {rest : Text}, EndsNumber rest →
      wordAt? (t ++ rest) = some (v, rest) ∨
        wordAt? (t ++ rest) = none ∧ numberAt (t ++ rest) = .ok (v, rest)) :
    ReadsBack v t := by
  obtain ⟨c, more, rfl, hlead, hatom⟩ := h.lead
  refine ⟨fun d hd => .inr (h.printable d hd), ⟨c, more, rfl, hlead⟩, ?_⟩
  intro steps rest hsteps hrest
  cases steps with
  | zero => cases hsteps
  | succ steps =>
    rcases hread hrest with hword | ⟨hword, hnumber⟩
    · exact (valueAt_atom hatom).1 _ hword
    · rw [← hnumber]
      exact (valueAt_atom hatom).2 hword

/-- A word is read as its value. -/
theorem readsBack_word {word : Text} {v : Value} (h : (word, v) ∈ words) : ReadsBack v word := by
  have hword : IsAtom word ∧ ∀ rest, wordAt? (word ++ rest) = some (v, rest) := by
    simp only [words, List.mem_cons, List.not_mem_nil, or_false, Prod.mk.injEq] at h
    rcases h with h | h | h | h | h | h <;> obtain ⟨rfl, rfl⟩ := h <;>
      exact ⟨⟨by decide, _, _, rfl, by decide⟩, fun rest => rfl⟩
  exact hword.1.readsBack fun _ => .inl (hword.2 _)

/-- A number is no word. -/
theorem IsNumber.wordAt? {t : Text} (h : IsNumber t) (rest : Text) :
    wordAt? (t ++ rest) = none := by
  obtain ⟨negative, d, more, hd, rfl⟩ := h.lead
  have hn := toNat_digit hd
  -- a digit is none of the letters that words begin with
  have hne {c : Char} (hc : 58 ≤ c.toNat) : CodePoint.char c ≠ digit d := by
    intro h
    rw [← h] at hn
    simp only [CodePoint.toNat_char] at hn
    omega
  have h1 : CodePoint.char 'n' ≠ digit d := hne (by decide)
  have h2 : CodePoint.char 't' ≠ digit d := hne (by decide)
  have h3 : CodePoint.char 'f' ≠ digit d := hne (by decide)
  have h4 : CodePoint.char 'N' ≠ digit d := hne (by decide)
  have h5 : CodePoint.char 'I' ≠ digit d := hne (by decide)
  have h6 : CodePoint.char '-' ≠ digit d := by
    intro h
    rw [← h] at hn
    have hminus : (CodePoint.char '-').toNat = 45 := rfl
    omega
  cases negative <;> simp [Json.wordAt?, words, signText, dropStart?, *]

/-- A number is an atom. -/
theorem IsNumber.isAtom {t : Text} (h : IsNumber t) : IsAtom t := by
  refine ⟨h.printable, ?_⟩
  obtain ⟨negative, d, more, hd, rfl⟩ := h.lead
  cases negative with
  | true => exact ⟨_, _, rfl, by decide⟩
  | false =>
    have hall : ∀ d : Fin 10, (isSpace (digit d) = false ∧ digit d ≠ ']' ∧ digit d ≠ '\x7d') ∧
        digit d ≠ '"' ∧ digit d ≠ '\x7b' ∧ digit d ≠ '[' := by decide
    exact ⟨_, _, rfl, hall ⟨d, hd⟩⟩

/-- A written number that is read as a value reads back. -/
theorem IsNumber.readsBack {v : Value} {t : Text} (h : IsNumber t)
    (hread : ∀ {rest : Text}, EndsNumber rest → numberAt (t ++ rest) = .ok (v, rest)) :
    ReadsBack v t :=
  h.isAtom.readsBack fun hrest => .inr ⟨h.wordAt? _, hread hrest⟩

/-- An integer reads back. -/
theorem readsBack_int {n : Int} (h : n.natAbs < 10 ^ digitLimit) :
    ReadsBack (.int n) (ofInt n) := by
  have hnumber : IsNumber (ofInt n) := by
    rw [ofInt_eq_numberText]
    exact isNumber_numberText (isWhole_digitsOf _) (by simp)
  exact hnumber.readsBack (numberAt_ofInt h)

/-- A double reads back. -/
theorem readsBack_float {x : Binary64} (h : x.Canonical) :
    ReadsBack (.float x) (x.text Decimal.Style.json) := by
  cases x with
  | nan => exact readsBack_word (by simp [words, Binary64.text, Decimal.Style.json])
  | infinite negative =>
    cases negative <;>
      exact readsBack_word (by simp [words, Binary64.text, Decimal.Style.json])
  | finite negative m e =>
    have hnumber : IsNumber ((Binary64.finite negative m e).text Decimal.Style.json) := by
      obtain ⟨whole, fraction, exponent, k, hparts, htext⟩ :=
        exists_numberText h Decimal.Style.json
      rw [htext]
      exact isNumber_numberText hparts.isWhole hparts.isFraction
    exact hnumber.readsBack fun hrest => numberAt_double h hrest _

/-- A string reads back. -/
theorem readsBack_str {t : Text} (h : Unpaired t) : ReadsBack (.str t) (writtenString t) := by
  have hopen : writtenString t = .char '"' :: (t.flatMap writtenChar ++ [.char '"']) := by
    simp [writtenString]
  refine ⟨fun c hc => .inr (printable_writtenString t c hc), ⟨_, _, hopen, by decide⟩, ?_⟩
  intro steps rest hsteps _
  cases steps with
  | zero => rw [hopen] at hsteps; cases hsteps
  | succ steps =>
    have hread : stringAt (t.flatMap writtenChar ++ [.char '"'] ++ rest) = .ok (t, rest) := by
      rw [List.append_assoc]
      exact stringAt_written h rest
    rw [hopen]
    show valueAt (steps + 1) (.char '"' :: (t.flatMap writtenChar ++ [.char '"'] ++ rest)) = _
    rw [valueAt, hread]
    rfl

/-! ## §4. Lists. -/

/-- The parts of a list or an object are separated by a comma and a line break. -/
def separator (level : Nat) : Text := .char ',' :: newLine level

/-- Joined parts begin with the first one. -/
theorem exists_join_eq (level : Nat) (part : Text) (parts : List Text) :
    ∃ more, join (separator level) (part :: parts) = part ++ more := by
  cases parts with
  | nil => exact ⟨[], (List.append_nil part).symm⟩
  | cons next parts => exact ⟨_, List.append_assoc _ _ _⟩

/-- After a comma the next part is found at once. -/
theorem skipSpace_join {level : Nat} {part : Text} (h : ∀ rest, StartsPlain (part ++ rest))
    (parts : List Text) (rest : Text) :
    skipSpace (newLine level ++ (join (separator level) (part :: parts) ++ rest)) =
      join (separator level) (part :: parts) ++ rest := by
  obtain ⟨more, hmore⟩ := exists_join_eq level part parts
  refine skipSpace_newLine level ?_
  rw [hmore, List.append_assoc]
  exact h _

/-- What stands after a part ends a number. -/
theorem endsNumber_comma (rest : Text) : EndsNumber (.char ',' :: rest) := by
  intro c hc
  cases hc
  decide

/-- What stands after the last part ends a number. -/
theorem endsNumber_newLine (level : Nat) (rest : Text) : EndsNumber (newLine level ++ rest) := by
  intro c hc
  cases hc
  decide

section

variable {steps : Nat} {t rest rest' after : Text} {item v : Value} {items : List Value}
  {name : Text} {members members' : List (Text × Value)}

/-- After the last item there is the closing bracket. -/
theorem itemsAt_last (hitem : valueAt steps t = .ok (item, rest))
    (hclose : skipSpace rest = .char ']' :: after) :
    itemsAt (steps + 1) t = .ok ([item], after) := by
  rw [itemsAt, hitem]
  simp only [bind, Except.bind, hclose]
  rfl

/-- After every other item there is a comma. -/
theorem itemsAt_next (hitem : valueAt steps t = .ok (item, rest))
    (hcomma : skipSpace rest = .char ',' :: rest')
    (hitems : itemsAt steps (skipSpace rest') = .ok (items, after)) :
    itemsAt (steps + 1) t = .ok (item :: items, after) := by
  rw [itemsAt, hitem]
  simp only [bind, Except.bind, hcomma, hitems]
  rfl

/-- After the last member there is the closing brace. -/
theorem membersAt_last (hname : nameAt t = .ok (name, rest))
    (hvalue : valueAt steps rest = .ok (v, rest'))
    (hclose : skipSpace rest' = .char '\x7d' :: after) :
    membersAt (steps + 1) members t = .ok (Entries.insert name v members, after) := by
  rw [membersAt, hname]
  simp only [bind, Except.bind, hvalue, hclose]
  rfl

/-- After every other member there is a comma. -/
theorem membersAt_next {rest'' : Text} (hname : nameAt t = .ok (name, rest))
    (hvalue : valueAt steps rest = .ok (v, rest'))
    (hcomma : skipSpace rest' = .char ',' :: rest'')
    (hmembers : membersAt steps (Entries.insert name v members) (skipSpace rest'') =
      .ok (members', after)) :
    membersAt (steps + 1) members t = .ok (members', after) := by
  rw [membersAt, hname]
  simp only [bind, Except.bind, hvalue, hcomma, hmembers]

/-- A list whose bracket is not closed at once has items. -/
theorem valueAt_list (hskip : skipSpace rest = rest') (hopen : ∀ r, rest' ≠ .char ']' :: r)
    (hitems : itemsAt steps rest' = .ok (items, after)) :
    valueAt (steps + 1) (.char '[' :: rest) = .ok (.list items, after) := by
  rw [valueAt, hskip]
  split
  · rename_i r
    exact absurd rfl (hopen r)
  · simp only [bind, Except.bind, hitems]
    rfl

/-- An object whose brace is not closed at once has members. -/
theorem valueAt_object (hskip : skipSpace rest = rest') (hopen : ∀ r, rest' ≠ .char '\x7d' :: r)
    (hmembers : membersAt steps [] rest' = .ok (members, after)) :
    valueAt (steps + 1) (.char '\x7b' :: rest) = .ok (.object members, after) := by
  rw [valueAt, hskip]
  split
  · rename_i r
    exact absurd rfl (hopen r)
  · simp only [bind, Except.bind, hmembers]
    rfl

/-- The closing bracket of a list follows its last item on a line of its own. -/
theorem skipSpace_close (level : Nat) {c : CodePoint} (h : isSpace c = false) (rest : Text) :
    skipSpace (newLine level ++ c :: rest) = c :: rest :=
  skipSpace_newLine level fun d hd => by
    cases hd
    exact h

end

/-- **THE PARTS OF A LIST ARE READ ONE BY ONE.** -/
theorem itemsAt_join {level outer : Nat} {items : List Value} {parts : List Text}
    (h : List.Forall₂ ReadsBack items parts) (hne : items ≠ []) {steps : Nat}
    (hsteps : (join (separator level) parts).length < steps) (rest : Text) :
    itemsAt steps (join (separator level) parts ++ (newLine outer ++ .char ']' :: rest)) =
      .ok (items, rest) := by
  induction h generalizing steps with
  | nil => exact absurd rfl hne
  | @cons item part items parts hitem hitems ih =>
    obtain ⟨steps, rfl⟩ : ∃ k, steps = k + 1 := ⟨steps - 1, by omega⟩
    cases hitems with
    | nil =>
      have hread : valueAt steps (part ++ (newLine outer ++ .char ']' :: rest)) =
          .ok (item, newLine outer ++ .char ']' :: rest) :=
        hitem.reads (Nat.le_of_lt_succ hsteps) (endsNumber_newLine outer _)
      exact itemsAt_last hread (skipSpace_close outer rfl rest)
    | @cons next part' items parts hnext hitems =>
      let more := join (separator level) (part' :: parts) ++ (newLine outer ++ .char ']' :: rest)
      have hjoin : join (separator level) (part :: part' :: parts) ++
          (newLine outer ++ .char ']' :: rest) = part ++ (.char ',' :: (newLine level ++ more)) := by
        simp [join, separator, more]
      have hlength : part.length + (join (separator level) (part' :: parts)).length < steps := by
        simp only [join, separator, List.length_append, List.length_cons] at hsteps ⊢
        omega
      have hread : valueAt steps (part ++ (.char ',' :: (newLine level ++ more))) =
          .ok (item, .char ',' :: (newLine level ++ more)) :=
        hitem.reads (by omega) (endsNumber_comma _)
      rw [hjoin]
      refine itemsAt_next hread (skipSpace_of_startsPlain fun c hc => by cases hc; rfl) ?_
      rw [skipSpace_join hnext.startsPlain]
      exact ih (by simp) (by omega)

/-! ## §5. Objects. -/

/-- How a written member behaves: its name and its value read back. -/
structure MemberReads (m : Text × Value) (part : Text) : Prop where
  unpaired : Unpaired m.1
  split : ∃ t, part = writtenString m.1 ++ ": " ++ t ∧ ReadsBack m.2 t

/-- A written member begins with the quote of its name. -/
theorem MemberReads.startsPlain {m : Text × Value} {part : Text} (h : MemberReads m part)
    (rest : Text) : StartsPlain (part ++ rest) := by
  obtain ⟨t, rfl, -⟩ := h.split
  intro c hc
  cases hc
  rfl

/-- The name of a member is read, and the colon after it. -/
theorem nameAt_written {name t : Text} (hname : Unpaired name) (ht : StartsPlain t) :
    nameAt (writtenString name ++ ": " ++ t) = .ok (name, t) := by
  have hopen : writtenString name ++ ": " ++ t =
      .char '"' :: (name.flatMap writtenChar ++ .char '"' :: .char ':' :: .char ' ' :: t) := by
    simp [writtenString]
  have hcolon : skipSpace (.char ':' :: .char ' ' :: t) = .char ':' :: .char ' ' :: t := rfl
  have hspace : skipSpace (.char ' ' :: t) = t := by
    have hskip : skipSpace (.char ' ' :: t) = skipSpace t := rfl
    rw [hskip, skipSpace_of_startsPlain ht]
  rw [hopen, nameAt, stringAt_written hname]
  simp only [bind, Except.bind, hcolon, hspace]
  rfl

/-- **THE PARTS OF AN OBJECT ARE READ ONE BY ONE**, after those that were read before. -/
theorem membersAt_join {level outer : Nat} {before members : List (Text × Value)}
    {parts : List Text} (h : List.Forall₂ MemberReads members parts) (hne : members ≠ [])
    (hdistinct : ((before ++ members).map Prod.fst).Nodup) {steps : Nat}
    (hsteps : (join (separator level) parts).length < steps) (rest : Text) :
    membersAt steps before (join (separator level) parts ++ (newLine outer ++ .char '\x7d' :: rest)) =
      .ok (before ++ members, rest) := by
  induction h generalizing steps before with
  | nil => exact absurd rfl hne
  | @cons m part members parts hm hms ih =>
    obtain ⟨name, v⟩ := m
    obtain ⟨steps, rfl⟩ : ∃ k, steps = k + 1 := ⟨steps - 1, by omega⟩
    obtain ⟨t, hpart, ht⟩ := hm.split
    have hnew : Entries.insert name v before = before ++ [(name, v)] := by
      refine Entries.insert_of_not_mem fun hmem => ?_
      rw [List.map_append, List.nodup_append] at hdistinct
      exact hdistinct.2.2 name hmem name (by simp) rfl
    have hname (after : Text) : nameAt (part ++ after) = .ok (name, t ++ after) := by
      rw [hpart, List.append_assoc]
      exact nameAt_written hm.unpaired (ht.startsPlain after)
    have hshort : t.length ≤ part.length := by
      rw [hpart, List.length_append]
      omega
    cases hms with
    | nil =>
      have hread : valueAt steps (t ++ (newLine outer ++ .char '\x7d' :: rest)) =
          .ok (v, newLine outer ++ .char '\x7d' :: rest) :=
        ht.reads (Nat.le_trans hshort (Nat.le_of_lt_succ hsteps)) (endsNumber_newLine outer _)
      rw [← hnew]
      exact membersAt_last (hname _) hread (skipSpace_close outer rfl rest)
    | @cons next part' members parts hnext hms =>
      let more :=
        join (separator level) (part' :: parts) ++ (newLine outer ++ .char '\x7d' :: rest)
      have hjoin : join (separator level) (part :: part' :: parts) ++
          (newLine outer ++ .char '\x7d' :: rest) =
            part ++ (.char ',' :: (newLine level ++ more)) := by
        simp [join, separator, more]
      have hlength : part.length + (join (separator level) (part' :: parts)).length < steps := by
        simp only [join, separator, List.length_append, List.length_cons] at hsteps ⊢
        omega
      have hread : valueAt steps (t ++ (.char ',' :: (newLine level ++ more))) =
          .ok (v, .char ',' :: (newLine level ++ more)) :=
        ht.reads (by omega) (endsNumber_comma _)
      have hsplit : before ++ (name, v) :: next :: members =
          before ++ [(name, v)] ++ next :: members := by simp
      rw [hsplit] at hdistinct
      rw [hjoin, hsplit]
      refine membersAt_next (hname _) hread
        (skipSpace_of_startsPlain fun c hc => by cases hc; rfl) ?_
      rw [hnew, skipSpace_join hnext.startsPlain]
      exact ih (by simp) hdistinct (by omega)

/-! ## §6. Values and documents. -/

/-- Parts on lines of their own are plain when they are. -/
theorem isPlain_onLines {opening closing : CodePoint} {parts : List Text} (level : Nat)
    (ho : 32 ≤ opening.toNat ∧ opening.toNat < 127) (hc : 32 ≤ closing.toNat ∧ closing.toNat < 127)
    (h : ∀ part ∈ parts, IsPlain part) : IsPlain (onLines opening closing level parts) := by
  have hline (n : Nat) : IsPlain (newLine n) := by
    intro c hm
    rcases List.mem_cons.1 hm with rfl | hm
    · exact .inl rfl
    · rw [(List.mem_replicate.1 hm).2]
      exact .inr (by decide)
  have hjoin : IsPlain (join (separator (level + 1)) parts) := by
    intro c hm
    rcases mem_of_mem_join hm with hm | ⟨part, hpart, hm⟩
    · rcases List.mem_cons.1 hm with rfl | hm
      · exact .inr (by decide)
      · exact hline _ c hm
    · exact h part hpart c hm
  intro c hm
  unfold onLines at hm
  split at hm
  · simp only [List.mem_cons, List.not_mem_nil, or_false] at hm
    rcases hm with rfl | rfl
    · exact .inr ho
    · exact .inr hc
  · simp only [List.mem_append, List.mem_cons, List.not_mem_nil, or_false] at hm
    rcases hm with (((rfl | hm) | hm) | hm) | rfl
    · exact .inr ho
    · exact hline _ c hm
    · exact hjoin c hm
    · exact hline _ c hm
    · exact .inr hc

/-- Parts that each are plain are all plain. -/
theorem isPlain_parts {α : Type} {R : α → Text → Prop} {as : List α} {parts : List Text}
    (h : List.Forall₂ R as parts) (hR : ∀ {a part}, R a part → IsPlain part) :
    ∀ part ∈ parts, IsPlain part := by
  induction h with
  | nil => exact fun part hm => absurd hm List.not_mem_nil
  | cons hpart _ ih => exact List.forall_mem_cons.2 ⟨hR hpart, ih⟩

/-- Parts in brackets begin with the bracket, and the first part comes right after the break. -/
theorem onLines_cons (opening closing : CodePoint) (level : Nat) (part : Text)
    (parts : List Text) (rest : Text) :
    onLines opening closing level (part :: parts) ++ rest =
      opening :: (newLine (level + 1) ++ (join (separator (level + 1)) (part :: parts) ++
        (newLine level ++ closing :: rest))) := by
  simp [onLines, separator]

/-- Parts in brackets are longer than the parts. -/
theorem length_onLines_cons (opening closing : CodePoint) (level : Nat) (part : Text)
    (parts : List Text) :
    (join (separator (level + 1)) (part :: parts)).length + 2 ≤
      (onLines opening closing level (part :: parts)).length := by
  simp only [onLines, separator, newLine, List.length_append, List.length_cons]
  omega

/-- Parts in brackets begin with the bracket. -/
theorem exists_onLines_eq (opening closing : CodePoint) (level : Nat) (parts : List Text) :
    ∃ more, onLines opening closing level parts = opening :: more := by
  cases parts with
  | nil => exact ⟨_, rfl⟩
  | cons part parts => exact ⟨_, rfl⟩

/-- **A LIST IS READ WHEN ITS PARTS ARE.** -/
theorem readsBack_list {items : List Value} {parts : List Text} (level : Nat)
    (h : List.Forall₂ ReadsBack items parts) :
    ReadsBack (.list items) (onLines '[' ']' level parts) := by
  obtain ⟨more, hmore⟩ := exists_onLines_eq '[' ']' level parts
  refine ⟨isPlain_onLines level (by decide) (by decide) (isPlain_parts h ReadsBack.plain),
    ⟨_, more, hmore, by decide⟩, ?_⟩
  intro steps rest hsteps _
  obtain ⟨steps, rfl⟩ : ∃ k, steps = k + 1 := by
    rw [hmore, List.length_cons] at hsteps
    exact ⟨steps - 1, by omega⟩
  cases h with
  | nil => rfl
  | @cons item part items parts hitem hitems =>
    have hlength := length_onLines_cons '[' ']' level part parts
    have hread : itemsAt steps (join (separator (level + 1)) (part :: parts) ++
        (newLine level ++ .char ']' :: rest)) = .ok (item :: items, rest) :=
      itemsAt_join (.cons hitem hitems) (by simp) (by omega) rest
    have hopen (r : Text) : join (separator (level + 1)) (part :: parts) ++
        (newLine level ++ .char ']' :: rest) ≠ .char ']' :: r := by
      obtain ⟨c, p, hpart, -, hc, -⟩ := hitem.lead
      obtain ⟨q, hq⟩ := exists_join_eq (level + 1) part parts
      rw [hq, hpart]
      exact fun h => hc (List.cons.inj h).1
    rw [onLines_cons]
    exact valueAt_list (skipSpace_join hitem.startsPlain _ _) hopen hread

/-- A written member is plain. -/
theorem MemberReads.plain {m : Text × Value} {part : Text} (h : MemberReads m part) :
    IsPlain part := by
  obtain ⟨t, rfl, ht⟩ := h.split
  intro c hc
  simp only [List.mem_append] at hc
  rcases hc with (hc | hc) | hc
  · exact .inr (printable_writtenString m.1 c hc)
  · exact .inr (by revert c; decide)
  · exact ht.plain c hc

/-- **AN OBJECT IS READ WHEN ITS PARTS ARE.** -/
theorem readsBack_object {members : List (Text × Value)} {parts : List Text} (level : Nat)
    (h : List.Forall₂ MemberReads members parts) (hdistinct : (members.map Prod.fst).Nodup) :
    ReadsBack (.object members) (onLines '\x7b' '\x7d' level parts) := by
  obtain ⟨more, hmore⟩ := exists_onLines_eq '\x7b' '\x7d' level parts
  refine ⟨isPlain_onLines level (by decide) (by decide) (isPlain_parts h MemberReads.plain),
    ⟨_, more, hmore, by decide⟩, ?_⟩
  intro steps rest hsteps _
  obtain ⟨steps, rfl⟩ : ∃ k, steps = k + 1 := by
    rw [hmore, List.length_cons] at hsteps
    exact ⟨steps - 1, by omega⟩
  cases h with
  | nil => rfl
  | @cons m part members parts hm hms =>
    have hlength := length_onLines_cons '\x7b' '\x7d' level part parts
    have hread : membersAt steps [] (join (separator (level + 1)) (part :: parts) ++
        (newLine level ++ .char '\x7d' :: rest)) = .ok ([] ++ m :: members, rest) :=
      membersAt_join (.cons hm hms) (by simp) hdistinct (by omega) rest
    have hopen (r : Text) : join (separator (level + 1)) (part :: parts) ++
        (newLine level ++ .char '\x7d' :: rest) ≠ .char '\x7d' :: r := by
      obtain ⟨t, hpart, -⟩ := hm.split
      obtain ⟨q, hq⟩ := exists_join_eq (level + 1) part parts
      rw [hq, hpart]
      exact fun h => absurd (List.cons.inj h).1 (by decide)
    rw [onLines_cons]
    exact valueAt_object (skipSpace_join hm.startsPlain _ _) hopen hread

/-- Items that can be written one by one can be written together. -/
theorem exists_documentItems {level : Nat} {items : List Value}
    (h : ∀ item ∈ items, ∃ t, documentAt level item = .ok t ∧ ReadsBack item t) :
    ∃ parts, documentItems level items = .ok parts ∧ List.Forall₂ ReadsBack items parts := by
  induction items with
  | nil => exact ⟨[], rfl, .nil⟩
  | cons item items ih =>
    rw [List.forall_mem_cons] at h
    obtain ⟨part, hpart, hitem⟩ := h.1
    obtain ⟨parts, hparts, hitems⟩ := ih h.2
    refine ⟨part :: parts, ?_, .cons hitem hitems⟩
    rw [documentItems, hpart, hparts]
    rfl

/-- Members that can be written one by one can be written together. -/
theorem exists_documentMembers {level : Nat} {members : List (Text × Value)}
    (hnames : ∀ m ∈ members, Unpaired m.1)
    (h : ∀ m ∈ members, ∃ t, documentAt level m.2 = .ok t ∧ ReadsBack m.2 t) :
    ∃ parts, documentMembers level members = .ok parts ∧
      List.Forall₂ MemberReads members parts := by
  induction members with
  | nil => exact ⟨[], rfl, .nil⟩
  | cons m members ih =>
    obtain ⟨name, v⟩ := m
    rw [List.forall_mem_cons] at h hnames
    obtain ⟨t, ht, hv⟩ := h.1
    obtain ⟨parts, hparts, hms⟩ := ih hnames.2 h.2
    refine ⟨(writtenString name ++ ": " ++ t) :: parts, ?_, .cons ⟨hnames.1, t, rfl, hv⟩ hms⟩
    rw [documentMembers, ht, hparts]
    rfl

/-- An integer that has a text is written as it. -/
theorem writtenInt_of_intText? {n : Int} {t : Text} (h : intText? n = some t) :
    writtenInt n = .ok t := by
  unfold writtenInt
  rw [h]

/-- **EVERY STORABLE VALUE IS WRITTEN AND READS BACK**, at every level. -/
theorem exists_readsBack {v : Value} (h : v.Storable) (level : Nat) :
    ∃ t, documentAt level v = .ok t ∧ ReadsBack v t := by
  induction h generalizing level with
  | null => exact ⟨_, rfl, readsBack_word (by simp [words])⟩
  | bool b =>
    refine ⟨_, rfl, ?_⟩
    cases b <;> exact readsBack_word (by simp [words])
  | @int n short =>
    have hwritten : writtenInt n = .ok (ofInt n) :=
      writtenInt_of_intText? (intText?_of_short short)
    refine ⟨ofInt n, ?_, readsBack_int short⟩
    rw [documentAt]
    exact hwritten
  | float canonical => exact ⟨_, rfl, readsBack_float canonical⟩
  | str unpaired => exact ⟨_, rfl, readsBack_str unpaired⟩
  | list _ ih =>
    obtain ⟨parts, hparts, hitems⟩ := exists_documentItems fun item hm => ih item hm (level + 1)
    refine ⟨_, ?_, readsBack_list level hitems⟩
    rw [documentAt, hparts]
    rfl
  | object distinct names _ ih =>
    obtain ⟨parts, hparts, hms⟩ := exists_documentMembers names fun m hm => ih m hm (level + 1)
    refine ⟨_, ?_, readsBack_object level hms distinct⟩
    rw [documentAt, hparts]
    rfl

end Json

end Cascade
