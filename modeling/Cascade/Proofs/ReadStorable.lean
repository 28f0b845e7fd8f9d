/-
  Cascade.Proofs.ReadStorable
  ────────────────────────────────
  **WHAT IS READ CAN BE KEPT.**

  The value of a JSON document can be written and is itself again when it is
  read: its doubles are canonical, its integers have few digits, its objects
  have distinct names, and its texts are `Unpaired`.  The last one needs the
  document to come from bytes, where no half of a pair stands by itself, and
  a look at the reader of escapes: a first half is read alone only when no
  second half is spelled right after it.

      unpaired_of_stringFrom     — what a string is read as
      storable_of_read           — what a document is read as
      storable_iff_isReadAgain   — the values that can be kept are those that
                                   are read as they were written
-/
import Cascade.Proofs.StoredGroups

namespace Cascade

open Cascade.Text

/-! ## §1. Texts without halves. -/

/-- A text without halves of pairs. -/
def Text.IsHalfless (t : Text) : Prop := ∀ c ∈ t, c.isHalf = false

/-- A character is no half of a pair. -/
theorem Text.not_half {c : CodePoint} (h : c.isHalf = false) :
    Json.isHighHalf c.toNat = false ∧ Json.isLowHalf c.toNat = false := by
  cases c with
  | half n => cases h
  | char c =>
    have hc : c.toNat < 0xD800 ∨ (0xDFFF < c.toNat ∧ c.toNat < 0x110000) := c.valid
    rw [CodePoint.toNat_char]
    simp only [Json.isHighHalf, Json.isLowHalf, Bool.and_eq_false_iff, decide_eq_false_iff_not]
    omega

/-- A text with characters of one without halves has none. -/
theorem Text.IsHalfless.of_subset {s t : Text} (h : t.IsHalfless) (hs : ∀ c ∈ s, c ∈ t) :
    s.IsHalfless := fun c hc => h c (hs c hc)

/-- What stands at the end of a text without halves has none. -/
theorem Text.IsHalfless.of_suffix {s t : Text} (h : t.IsHalfless) (hs : s <:+ t) : s.IsHalfless :=
  h.of_subset fun _ hc => hs.subset hc

/-- Bytes are read as a text without halves. -/
theorem Text.Utf8.isHalfless_of_decodeFrom {bytes : Bytes} {t : Text} {position : Nat}
    {state : Option Begun} (h : decodeFrom position state bytes = .ok t) : t.IsHalfless := by
  induction bytes generalizing t position state with
  | nil =>
    cases state with
    | none =>
      cases h
      exact fun c hc => absurd hc List.not_mem_nil
    | some k => cases h
  | cons byte rest ih =>
    have whole (c : Char)
        (h : (decodeFrom (position + 1) none rest).map (.char c :: ·) = .ok t) : t.IsHalfless := by
      cases hr : decodeFrom (position + 1) none rest with
      | error f => rw [hr] at h; cases h
      | ok u =>
        rw [hr] at h
        cases h
        exact List.forall_mem_cons.2 ⟨rfl, ih hr⟩
    cases state with
    | none =>
      simp only [decodeFrom] at h
      split at h
      · cases h
      · exact whole _ h
      · exact ih h
    | some k =>
      simp only [decodeFrom] at h
      split at h
      · cases h
      · exact whole _ h
      · exact ih h

/-- Unifying line ends brings in no halves. -/
theorem Text.isHalfless_unifyLineEnds {t : Text} (h : t.IsHalfless) : (unifyLineEnds t).IsHalfless := by
  induction t with
  | nil => exact h
  | cons c t ih =>
    have hc := List.forall_mem_cons.1 h
    have ht := ih hc.2
    rw [unifyLineEnds]
    split
    · split
      · exact ht
      · exact List.forall_mem_cons.2 ⟨rfl, ht⟩
    · exact List.forall_mem_cons.2 ⟨hc.1, ht⟩

namespace Json

/-! ## §2. Strings. -/

/-- A text that goes on with the escape of a second half. -/
def SpellsLow (t : Text) : Prop :=
  unitFollows t = true ∧ ∃ low, hexUnit? (t.drop 2) = some low ∧ isLowHalf low = true

/-- A hexadecimal digit is below sixteen. -/
theorem lt_of_hexValue? {c : CodePoint} {n : Nat} (h : hexValue? c = some n) : n < 16 := by
  unfold hexValue? at h
  simp only at h
  split at h
  · cases h
    omega
  · split at h
    · cases h
      omega
    · split at h
      · cases h
        omega
      · cases h

/-- A unit is below 0x10000, and it is not the end of the input. -/
theorem lt_of_hexUnit? {t : Text} {n : Nat} (h : hexUnit? t = some n) :
    n < 0x10000 ∧ ∃ a b c d e rest, t = a :: b :: c :: d :: e :: rest := by
  unfold hexUnit? at h
  split at h
  · obtain ⟨a, ha, h⟩ := Option.bind_eq_some_iff.1 h
    obtain ⟨b, hb, h⟩ := Option.bind_eq_some_iff.1 h
    obtain ⟨c, hc, h⟩ := Option.bind_eq_some_iff.1 h
    obtain ⟨d, hd, h⟩ := Option.bind_eq_some_iff.1 h
    have hla := lt_of_hexValue? ha
    have hlb := lt_of_hexValue? hb
    have hlc := lt_of_hexValue? hc
    have hld := lt_of_hexValue? hd
    cases h
    exact ⟨by omega, _, _, _, _, _, _, rfl⟩
  · cases h

/-- The character of a pair is no half of one. -/
theorem not_half_ofPair {high low : Nat} (hhigh : isHighHalf high = true)
    (hlow : isLowHalf low = true) :
    isHighHalf (ofPair high low).toNat = false ∧ isLowHalf (ofPair high low).toNat = false := by
  simp only [isHighHalf, isLowHalf, Bool.and_eq_true, decide_eq_true_eq] at hhigh hlow
  have hn : (ofPair high low).toNat = 0x10000 + (high - 0xD800) * 0x400 + (low - 0xDC00) :=
    CodePoint.toNat_ofNat (by omega)
  simp only [isHighHalf, isLowHalf, hn, Bool.and_eq_false_iff, decide_eq_false_iff_not]
  omega

/-- A letter stands for no half of a pair. -/
theorem not_half_of_escapedChar? {e c : CodePoint} (h : escapedChar? e = some c) :
    isHighHalf c.toNat = false ∧ isLowHalf c.toNat = false := by
  unfold escapedChar? at h
  split at h <;> cases h <;> decide

/-- **AN ESCAPE GIVES A SECOND HALF ONLY BY ITS UNIT, AND A FIRST ONE ONLY WHERE NO SECOND ONE
FOLLOWS.** -/
theorem escapeAt_half {t : Text} {c : CodePoint} {n : Nat} (h : escapeAt t = .ok (c, n)) :
    (isLowHalf c.toNat = true → SpellsLow (.char '\\' :: t)) ∧
      (isHighHalf c.toNat = true → ¬ SpellsLow (t.drop n)) := by
  have never {c : CodePoint} {P Q : Prop}
      (hc : isHighHalf c.toNat = false ∧ isLowHalf c.toNat = false) :
      (isLowHalf c.toNat = true → P) ∧ (isHighHalf c.toNat = true → Q) := by
    rw [hc.1, hc.2]
    exact ⟨(by cases ·), (by cases ·)⟩
  unfold escapeAt at h
  split at h
  · rename_i rest
    split at h
    · cases h
    · rename_i high hhex
      obtain ⟨hlt, a, b, c', d, e, more, rfl⟩ := lt_of_hexUnit? hhex
      have hunit : (CodePoint.ofNat high).toNat = high := CodePoint.toNat_ofNat (by omega)
      simp only at h
      split at h
      · rename_i hpair
        split at h
        · cases h
        · rename_i low hlow
          split at h
          · rename_i hislow
            obtain ⟨rfl, rfl⟩ := Prod.mk.inj (Except.ok.inj h)
            exact never (not_half_ofPair hpair.1 hislow)
          · -- the unit that follows is looked at, and it is no second half
            rename_i hislow
            obtain ⟨rfl, rfl⟩ := Prod.mk.inj (Except.ok.inj h)
            rw [hunit]
            refine ⟨fun hl => ?_, fun _ hs => ?_⟩
            · have hh := hpair.1
              simp only [isHighHalf, isLowHalf, Bool.and_eq_true, decide_eq_true_eq] at hh hl
              omega
            · obtain ⟨-, low', hlow', hislow'⟩ := hs
              have hsame : some low' = some low := hlow'.symm.trans hlow
              cases hsame
              exact hislow hislow'
      · rename_i hpair
        obtain ⟨rfl, rfl⟩ := Prod.mk.inj (Except.ok.inj h)
        rw [hunit]
        exact ⟨fun hl => ⟨rfl, high, hhex, hl⟩, fun hh hs => hpair ⟨hh, hs.1⟩⟩
  · split at h
    · rename_i c' hc'
      cases h
      exact never (not_half_of_escapedChar? hc')
    · cases h
  · cases h

/-- **WHAT A STRING IS READ AS IS UNPAIRED**, and it begins with a second half only where the
escape of one is spelled. -/
theorem unpaired_of_stringFrom {opened : Text} {skip : Nat} {t s rest : Text}
    (hw : t.IsHalfless) (h : stringFrom opened skip t = .ok (s, rest)) :
    Unpaired s ∧ (∀ d ∈ s.head?, isLowHalf d.toNat = true → SpellsLow (t.drop skip)) ∧
      rest <:+ t := by
  induction t generalizing skip s with
  | nil =>
    simp only [stringFrom] at h
    cases h
  | cons c t ih =>
    have hcw := List.forall_mem_cons.1 hw
    cases skip with
    | succ skip =>
      rw [stringFrom] at h
      obtain ⟨hs, hlow, hrest⟩ := ih hcw.2 h
      exact ⟨hs, hlow, hrest.trans (List.suffix_cons c t)⟩
    | zero =>
      have hplain := not_half hcw.1
      rw [stringFrom] at h
      split at h
      · cases h
        exact ⟨.nil, (fun d hd => by cases hd), List.suffix_cons c _⟩
      · split at h
        · -- an escape
          rename_i hslash
          split at h
          · cases h
          · obtain ⟨⟨c', n⟩, hescape, h⟩ := bind_eq_ok_iff.1 h
            obtain ⟨⟨cs, rest'⟩, hcs, h⟩ := bind_eq_ok_iff.1 h
            cases h
            obtain ⟨hs, hlow, hrest⟩ := ih hcw.2 hcs
            obtain ⟨hself, hnext⟩ := escapeAt_half hescape
            refine ⟨List.isChain_cons.2 ⟨fun d hd hpair => ?_, hs⟩, fun d hd hl => ?_,
              hrest.trans (List.suffix_cons c t)⟩
            · exact hnext hpair.1 (hlow d hd hpair.2)
            · cases hd
              rw [hslash]
              exact hself hl
        · split at h
          · cases h
          · obtain ⟨⟨cs, rest'⟩, hcs, h⟩ := bind_eq_ok_iff.1 h
            cases h
            obtain ⟨hs, hlow, hrest⟩ := ih hcw.2 hcs
            refine ⟨List.isChain_cons.2 ⟨fun d hd hpair => ?_, hs⟩, fun d hd hl => ?_,
              hrest.trans (List.suffix_cons c t)⟩
            · rw [hplain.1] at hpair
              cases hpair.1
            · cases hd
              rw [hplain.2] at hl
              cases hl

/-- What a string is read as is unpaired. -/
theorem unpaired_of_stringAt {t s rest : Text} (hw : t.IsHalfless)
    (h : stringAt t = .ok (s, rest)) : Unpaired s ∧ rest.IsHalfless := by
  obtain ⟨hs, -, hrest⟩ := unpaired_of_stringFrom hw h
  exact ⟨hs, hw.of_suffix hrest⟩

/-! ## §3. Numbers and words. -/

/-- White space leaves no halves behind. -/
theorem isHalfless_skipSpace {t : Text} (h : t.IsHalfless) : (skipSpace t).IsHalfless :=
  h.of_suffix (List.dropWhile_suffix isSpace)

/-- What is left after a number is an end of the input. -/
theorem suffix_of_integerAt? {t whole rest : Text} (h : integerAt? t = some (whole, rest)) :
    rest <:+ t := by
  cases t with
  | nil => cases h
  | cons c t =>
    rw [integerAt?] at h
    split at h
    · cases h
      exact List.suffix_cons c _
    · split at h
      · cases h
        exact List.dropWhile_suffix isAsciiDigit
      · cases h

/-- What is left after a fraction is an end of the input. -/
theorem suffix_fractionAt (t : Text) : (fractionAt t).2 <:+ t := by
  unfold fractionAt
  split
  · rename_i rest
    split
    · exact List.suffix_rfl
    · rename_i digits rest' _ hd
      have hrest : rest' = rest.dropWhile isAsciiDigit := (Prod.mk.inj hd).2.symm
      rw [hrest]
      exact (List.dropWhile_suffix isAsciiDigit).trans (List.suffix_cons _ rest)
  · exact List.suffix_rfl

/-- What is left after the sign of an exponent is an end of the input. -/
theorem suffix_exponentSign (t : Text) : (exponentSign t).2 <:+ t := by
  unfold exponentSign
  split
  · exact List.suffix_cons _ _
  · exact List.suffix_cons _ _
  · exact List.suffix_rfl

/-- What is left after an exponent is an end of the input. -/
theorem suffix_exponentAt (t : Text) : (exponentAt t).2 <:+ t := by
  cases t with
  | nil => exact List.suffix_rfl
  | cons c t =>
    rw [exponentAt]
    split
    · simp only
      split
      · exact List.suffix_rfl
      · exact ((List.dropWhile_suffix isAsciiDigit).trans (suffix_exponentSign t)).trans
          (List.suffix_cons c t)
    · exact List.suffix_rfl

/-- **A NUMBER CAN BE KEPT**: a double is canonical, and an integer has few digits. -/
theorem storable_of_numberAt {t rest : Text} {v : Value} (h : numberAt t = .ok (v, rest)) :
    v.Storable ∧ rest <:+ t := by
  unfold numberAt at h
  split at h
  rename_i negative unsigned hsign
  have hunsigned : unsigned <:+ t := by
    split at hsign
    · cases hsign
      exact List.suffix_cons _ _
    · cases hsign
      exact List.suffix_rfl
  split at h
  · cases h
  · rename_i whole after hw
    have hrest : (exponentAt (fractionAt after).2).2 <:+ t :=
      (suffix_exponentAt _).trans ((suffix_fractionAt after).trans
        ((suffix_of_integerAt? hw).trans hunsigned))
    simp only at h
    split at h
    · cases h
      exact ⟨.float (Binary64.canonical_ofDecimal _ _ _), hrest⟩
    · split at h
      · cases h
      · rename_i hl
        cases h
        refine ⟨.int ?_, hrest⟩
        rw [natAbs_signed]
        exact natOf_lt (isAsciiDigit_of_integerAt? hw) (Nat.le_of_not_lt hl)

/-- A word can be kept. -/
theorem storable_of_wordAt? {t rest : Text} {v : Value} (h : wordAt? t = some (v, rest)) :
    v.Storable ∧ rest <:+ t := by
  obtain ⟨⟨word, v'⟩, hm, hw⟩ := List.exists_of_findSome?_eq_some h
  obtain ⟨rest', hrest, he⟩ := Option.map_eq_some_iff.1 hw
  cases he
  have hall : ∀ w ∈ words, w.2.Storable := by
    simp only [words, List.forall_mem_cons]
    exact ⟨.null, .bool true, .bool false, .float trivial, .float trivial, .float trivial,
      fun w hw => absurd hw List.not_mem_nil⟩
  rw [dropStart?_eq_some_iff.1 hrest]
  exact ⟨hall _ hm, List.suffix_append word _⟩

/-! ## §4. Values. -/

/-- The name of a member is unpaired. -/
theorem unpaired_of_nameAt {t name rest : Text} (hw : t.IsHalfless)
    (h : nameAt t = .ok (name, rest)) : Unpaired name ∧ rest.IsHalfless := by
  unfold nameAt at h
  split at h
  · rename_i opened
    obtain ⟨⟨name', after⟩, hname, h⟩ := bind_eq_ok_iff.1 h
    obtain ⟨hunpaired, hafter⟩ :=
      unpaired_of_stringAt (hw.of_suffix (List.suffix_cons _ opened)) hname
    have hskip := isHalfless_skipSpace hafter
    simp only at h
    split at h
    · rename_i rest' hs
      cases h
      rw [hs] at hskip
      exact ⟨hunpaired, isHalfless_skipSpace (hskip.of_suffix (List.suffix_cons _ rest'))⟩
    · cases h
  · cases h

/-- Members that can be kept: their names are distinct, and can be kept, and so can their
values. -/
structure MembersStorable (members : List (Text × Value)) : Prop where
  distinct : (members.map Prod.fst).Nodup
  each : ∀ m ∈ members, Unpaired m.1 ∧ m.2.Storable

/-- No members can be kept. -/
theorem membersStorable_nil : MembersStorable [] :=
  ⟨List.nodup_nil, fun _ hm => absurd hm List.not_mem_nil⟩

/-- Members that can be kept make an object that can be. -/
theorem MembersStorable.object {members : List (Text × Value)} (h : MembersStorable members) :
    Value.Storable (.object members) :=
  .object h.distinct (fun m hm => (h.each m hm).1) fun m hm => (h.each m hm).2

/-- A member that can be kept may be added. -/
theorem MembersStorable.insert {members : List (Text × Value)} (h : MembersStorable members)
    {name : Text} {v : Value} (hname : Unpaired name) (hv : v.Storable) :
    MembersStorable (Entries.insert name v members) := by
  have hkeys : ((Entries.insert name v members).map Prod.fst).Nodup :=
    Entries.nodup_keys_insert h.distinct
  refine ⟨hkeys, fun m hm => ?_⟩
  have hget := (Entries.get?_eq_some_iff hkeys).2 (show (m.1, m.2) ∈ _ from hm)
  rw [Entries.get?_insert] at hget
  by_cases hk : name = m.1
  · rw [if_pos hk] at hget
    cases hget
    exact hk ▸ ⟨hname, hv⟩
  · rw [if_neg hk] at hget
    exact h.each m ((Entries.get?_eq_some_iff h.distinct).1 hget)

/-- Whatever the three readers of values read from a text without halves can be kept, and what
they leave is such a text again. -/
structure ReadsStorable (steps : Nat) : Prop where
  value : ∀ {t v rest}, t.IsHalfless → valueAt steps t = .ok (v, rest) →
    v.Storable ∧ rest.IsHalfless
  items : ∀ {t items rest}, t.IsHalfless → itemsAt steps t = .ok (items, rest) →
    (∀ item ∈ items, item.Storable) ∧ rest.IsHalfless
  members : ∀ {members t members' rest}, MembersStorable members → t.IsHalfless →
    membersAt steps members t = .ok (members', rest) →
      MembersStorable members' ∧ rest.IsHalfless

/-- A value can be kept when what is inside it can. -/
theorem ReadsStorable.value_succ {steps : Nat} (h : ReadsStorable steps) {t rest : Text}
    {v : Value} (hw : t.IsHalfless) (hv : valueAt (steps + 1) t = .ok (v, rest)) :
    v.Storable ∧ rest.IsHalfless := by
  simp only [valueAt] at hv
  -- a text, an object, a list, or else a word or a number
  split at hv
  · rename_i opened
    obtain ⟨⟨s, after⟩, hs, hr⟩ := bind_eq_ok_iff.1 hv
    cases hr
    obtain ⟨hunpaired, hrest⟩ := unpaired_of_stringAt (hw.of_suffix (List.suffix_cons _ opened)) hs
    exact ⟨.str hunpaired, hrest⟩
  · rename_i opened
    have hskip := isHalfless_skipSpace (hw.of_suffix (List.suffix_cons _ opened))
    split at hv
    · rename_i rest' hclose
      cases hv
      rw [hclose] at hskip
      exact ⟨membersStorable_nil.object, hskip.of_suffix (List.suffix_cons _ _)⟩
    · obtain ⟨⟨ms, after⟩, hms, hr⟩ := bind_eq_ok_iff.1 hv
      cases hr
      obtain ⟨hmembers, hrest⟩ := h.members membersStorable_nil hskip hms
      exact ⟨hmembers.object, hrest⟩
  · rename_i opened
    have hskip := isHalfless_skipSpace (hw.of_suffix (List.suffix_cons _ opened))
    split at hv
    · rename_i rest' hclose
      cases hv
      rw [hclose] at hskip
      exact ⟨.list fun item hm => absurd hm List.not_mem_nil,
        hskip.of_suffix (List.suffix_cons _ _)⟩
    · obtain ⟨⟨is, after⟩, his, hr⟩ := bind_eq_ok_iff.1 hv
      cases hr
      obtain ⟨hitems, hrest⟩ := h.items hskip his
      exact ⟨.list hitems, hrest⟩
  · split at hv
    · rename_i hword
      cases hv
      obtain ⟨hstorable, hrest⟩ := storable_of_wordAt? hword
      exact ⟨hstorable, hw.of_suffix hrest⟩
    · obtain ⟨hstorable, hrest⟩ := storable_of_numberAt hv
      exact ⟨hstorable, hw.of_suffix hrest⟩

/-- Items can be kept when the first one and those after it can. -/
theorem ReadsStorable.items_succ {steps : Nat} (h : ReadsStorable steps) {t rest : Text}
    {items : List Value} (hw : t.IsHalfless) (hi : itemsAt (steps + 1) t = .ok (items, rest)) :
    (∀ item ∈ items, item.Storable) ∧ rest.IsHalfless := by
  rw [itemsAt] at hi
  obtain ⟨⟨item, after⟩, hv, hi⟩ := bind_eq_ok_iff.1 hi
  obtain ⟨hitem, hafter⟩ := h.value hw hv
  have hskip := isHalfless_skipSpace hafter
  simp only at hi
  split at hi
  · rename_i hclose
    cases hi
    rw [hclose] at hskip
    exact ⟨by simpa using hitem, hskip.of_suffix (List.suffix_cons _ _)⟩
  · rename_i next hcomma
    rw [hcomma] at hskip
    have hnext := isHalfless_skipSpace (hskip.of_suffix (List.suffix_cons _ next))
    obtain ⟨⟨more, after'⟩, hm, hr⟩ := bind_eq_ok_iff.1 hi
    cases hr
    obtain ⟨hitems, hrest⟩ := h.items hnext hm
    exact ⟨List.forall_mem_cons.2 ⟨hitem, hitems⟩, hrest⟩
  · cases hi

/-- Members can be kept when those before, the next one and those after it can. -/
theorem ReadsStorable.members_succ {steps : Nat} (h : ReadsStorable steps)
    {members members' : List (Text × Value)} {t rest : Text} (hm : MembersStorable members)
    (hw : t.IsHalfless) (hr : membersAt (steps + 1) members t = .ok (members', rest)) :
    MembersStorable members' ∧ rest.IsHalfless := by
  rw [membersAt] at hr
  obtain ⟨⟨name, after⟩, hname, hr⟩ := bind_eq_ok_iff.1 hr
  obtain ⟨⟨v, after'⟩, hv, hr⟩ := bind_eq_ok_iff.1 hr
  obtain ⟨hunpaired, hafter⟩ := unpaired_of_nameAt hw hname
  obtain ⟨hvalue, hafter'⟩ := h.value hafter hv
  have hms := hm.insert hunpaired hvalue
  have hskip := isHalfless_skipSpace hafter'
  simp only at hr
  split at hr
  · rename_i hclose
    cases hr
    rw [hclose] at hskip
    exact ⟨hms, hskip.of_suffix (List.suffix_cons _ _)⟩
  · rename_i next hcomma
    rw [hcomma] at hskip
    exact h.members hms (isHalfless_skipSpace (hskip.of_suffix (List.suffix_cons _ next))) hr
  · cases hr

/-- All that is read in any number of steps can be kept. -/
theorem readsStorable (steps : Nat) : ReadsStorable steps := by
  induction steps with
  | zero =>
    -- without a step nothing is read
    refine ⟨fun _ h => ?_, fun _ h => ?_, fun _ _ h => ?_⟩
    · simp only [valueAt] at h; cases h
    · simp only [itemsAt] at h; cases h
    · simp only [membersAt] at h; cases h
  | succ steps ih => exact ⟨ih.value_succ, ih.items_succ, ih.members_succ⟩

/-- **THE VALUE OF A DOCUMENT CAN BE KEPT**, when the document was read from bytes. -/
theorem storable_of_read {content : Bytes} {text : Text} {v : Value}
    (hd : Utf8.decode content = .ok text) (hr : read (unifyLineEnds text) = .ok v) :
    v.Storable := by
  have hw : (unifyLineEnds text).IsHalfless :=
    isHalfless_unifyLineEnds (Utf8.isHalfless_of_decodeFrom hd)
  unfold read at hr
  split at hr
  · cases hr
  · obtain ⟨⟨v', after⟩, hv, hr⟩ := bind_eq_ok_iff.1 hr
    simp only at hr
    split at hr
    · cases hr
      exact ((readsStorable _).value (isHalfless_skipSpace hw) hv).1
    · cases hr

/-! ## §5. Which values can be kept. -/

/-- A value that has a document and is read from its bytes again, up to the order of members. -/
def IsReadAgain (v : Value) : Prop :=
  ∃ t content text v', document v = .ok t ∧ Utf8.encode t = .ok content ∧
    Utf8.decode content = .ok text ∧ read (unifyLineEnds text) = .ok v' ∧ v'.Alike v

/-- **THE VALUES THAT CAN BE KEPT ARE THOSE THAT ARE READ AGAIN.** -/
theorem storable_iff_isReadAgain {v : Value} : v.Storable ↔ IsReadAgain v := by
  constructor
  · intro h
    obtain ⟨t, content, ht, hcontent, hdecode, hunify, -, hread⟩ := exists_content h
    exact ⟨t, content, t, _, ht, hcontent, hdecode, hunify.symm ▸ hread, h.alike⟩
  · rintro ⟨t, content, text, v', -, -, hdecode, hread, halike⟩
    exact halike.storable (storable_of_read hdecode hread)

end Json

end Cascade
