/-
  Cascade.Proofs.Writable
  ────────────────────────────────
  **WHAT IS READ CAN BE WRITTEN.**

  A value has a text unless it holds an integer of more than 4300 digits
  (`Value.writable_iff`), a limit of the interpreter the program runs on.
  Both readers keep to it, so

      Json.writable_of_read     — every value of a JSON document is writable
      Dotenv.assignable_of_decode
                                — so is every value of an env file, and none
                                  of these is null
      Preferences.Writable.get?
                                — and every value of a store, unless it is
                                  kept in memory and was given another one

  and a writable value stays writable when its references are replaced
  (`writable_expandValueIf`).
-/
import Mathlib.Algebra.Group.Nat.Defs
import Cascade.Dotenv.Document
import Cascade.Json.Reader
import Cascade.Reference.Expand
import Cascade.Source.Preferences

namespace Cascade

/-- One answer after another is there when both are. -/
theorem bind_eq_ok_iff {ε α β : Type} {x : Except ε α} {f : α → Except ε β} {b : β} :
    (x >>= f) = .ok b ↔ ∃ a, x = .ok a ∧ f a = .ok b := by
  constructor
  · intro h
    cases x with
    | error failure => cases h
    | ok a => exact ⟨a, rfl, h⟩
  · rintro ⟨a, rfl, h⟩
    exact h

/-! ## §1. Numbers of few digits. -/

/-- Digits make a number below the power of ten of their count. -/
theorem Text.natOfDigits_lt {digits : List Nat} (h : ∀ d ∈ digits, d < 10) :
    natOfDigits digits < 10 ^ digits.length := by
  -- the digits are read from any number on, for the induction
  suffices ∀ n, digits.foldl (fun n d => 10 * n + d) n < (n + 1) * 10 ^ digits.length by
    simpa [natOfDigits] using this 0
  induction digits with
  | nil => simp
  | cons d digits ih =>
    intro n
    have hd := h d (by simp)
    have hs := ih (fun e he => h e (by simp [he])) (10 * n + d)
    rw [List.foldl_cons, List.length_cons, Nat.pow_succ]
    calc _ < (10 * n + d + 1) * 10 ^ digits.length := hs
      _ ≤ (10 * (n + 1)) * 10 ^ digits.length := Nat.mul_le_mul_right _ (by omega)
      _ = (n + 1) * (10 ^ digits.length * 10) := by
        rw [Nat.mul_comm 10, Nat.mul_assoc, Nat.mul_comm 10]

/-- Digits make a number below the power of ten of any count that is not exceeded. -/
theorem Text.natOfDigits_lt_of_le {digits : List Nat} {limit : Nat} (h : ∀ d ∈ digits, d < 10)
    (few : digits.length ≤ limit) : natOfDigits digits < 10 ^ limit :=
  Nat.lt_of_lt_of_le (natOfDigits_lt h) (Nat.pow_le_pow_right (by decide) few)

/-- A sign leaves the absolute value. -/
theorem natAbs_signed (negative : Bool) (n : Nat) :
    (if negative = true then -Int.ofNat n else Int.ofNat n).natAbs = n := by
  cases negative <;> simp

/-- An integer of few digits has a text. -/
theorem intText?_of_short {n : Int} (h : n.natAbs < 10 ^ digitLimit) :
    intText? n = some (Text.ofInt n) := by
  unfold intText?
  -- the limit becomes a variable, so that no power is computed
  generalize digitLimit = limit at h ⊢
  exact if_pos h

/-! ## §2. Writable values. -/

namespace Value

/-- Whether a value has a text. -/
def Writable (v : Value) : Prop := v.nested?.isSome = true

/-- Items have texts when they are writable. -/
theorem isSome_nestedItems? {items : List Value} :
    (nestedItems? items).isSome = true ↔ ∀ item ∈ items, item.Writable := by
  induction items with
  | nil => simp [nestedItems?]
  | cons item items ih =>
    rw [List.forall_mem_cons, ← ih, Writable, nestedItems?]
    cases nested? item with
    | none => simp
    | some text => cases nestedItems? items <;> simp

/-- Members have texts when their values are writable. -/
theorem isSome_nestedMembers? {members : List (Text × Value)} :
    (nestedMembers? members).isSome = true ↔ ∀ m ∈ members, m.2.Writable := by
  induction members with
  | nil => simp [nestedMembers?]
  | cons m members ih =>
    obtain ⟨key, v⟩ := m
    rw [List.forall_mem_cons, ← ih, Writable, nestedMembers?]
    cases nested? v with
    | none => simp
    | some text => cases nestedMembers? members <;> simp

/-- A list is writable when its items are. -/
theorem writable_list_iff {items : List Value} :
    Writable (.list items) ↔ ∀ item ∈ items, item.Writable := by
  rw [← isSome_nestedItems?, Writable, nested?]
  cases nestedItems? items <;> simp

/-- An object is writable when the values of its members are. -/
theorem writable_object_iff {members : List (Text × Value)} :
    Writable (.object members) ↔ ∀ m ∈ members, m.2.Writable := by
  rw [← isSome_nestedMembers?, Writable, nested?]
  cases nestedMembers? members <;> simp

/-- A text is writable. -/
theorem writable_str (t : Text) : Writable (.str t) := rfl

/-- Null is writable. -/
theorem writable_null : Writable .null := rfl

/-- A writable value has a text on its own. -/
theorem Writable.plain {v : Value} (h : v.Writable) : ∃ t, v.plain? = some t := by
  cases v with
  | str t => exact ⟨t, rfl⟩
  | _ => exact Option.isSome_iff_exists.1 h

/-- The items of a writable list have a text. -/
theorem commaSeparated?_ne_none {items : List Value} (h : Writable (.list items)) :
    ∃ t, commaSeparated? items = some t := by
  rw [writable_list_iff] at h
  have hm : ∃ texts, items.mapM plain? = some texts := by
    induction items with
    | nil => exact ⟨[], rfl⟩
    | cons item items ih =>
      obtain ⟨t, ht⟩ := (h item (by simp)).plain
      obtain ⟨texts, hts⟩ := ih fun i hi => h i (by simp [hi])
      exact ⟨t :: texts, by simp [List.mapM_cons, ht, hts]⟩
  obtain ⟨texts, ht⟩ := hm
  exact ⟨Text.join "," texts, by rw [commaSeparated?, ht]; rfl⟩

/-- A writable value can be put into a text. -/
theorem Writable.inserted {v : Value} (h : v.Writable) : ∃ t, v.inserted? = some t := by
  cases v with
  | null => exact ⟨[], rfl⟩
  | list items => exact commaSeparated?_ne_none h
  | _ => exact h.plain

/-- A writable value can be printed. -/
theorem Writable.display {v : Value} (h : v.Writable) : ∃ t, v.display? = some t := by
  cases v with
  | list items =>
    obtain ⟨t, ht⟩ := commaSeparated?_ne_none h
    exact ⟨"\x7b" ++ t ++ "\x7d", by rw [display?, ht]; rfl⟩
  | _ => exact h.plain

/-- An integer is writable when it has few digits. -/
theorem writable_int {n : Int} (short : n.natAbs < 10 ^ digitLimit) : Writable (.int n) := by
  rw [Writable, nested?, intText?_of_short short]
  rfl

mutual

/-- The integers in a value, wherever they stand. -/
def integers : Value → List Int
  | .int n => [n]
  | .list items => integersOfItems items
  | .object members => integersOfMembers members
  | _ => []

/-- The integers in the items of a list. -/
def integersOfItems : List Value → List Int
  | [] => []
  | item :: items => integers item ++ integersOfItems items

/-- The integers in the members of an object. -/
def integersOfMembers : List (Text × Value) → List Int
  | [] => []
  | (_, value) :: members => integers value ++ integersOfMembers members

end

mutual

/-- **WHAT HAS A TEXT**: every value but those that hold an integer beyond the limit. -/
theorem writable_iff : ∀ v : Value, v.Writable ↔ ∀ n ∈ v.integers, n.natAbs < 10 ^ digitLimit
  | .int n => by
    rw [integers, List.forall_mem_singleton]
    refine ⟨fun h => ?_, writable_int⟩
    rw [Writable, nested?, intText?] at h
    -- the limit becomes a variable, so that no power is computed
    generalize digitLimit = limit at h ⊢
    split at h
    · assumption
    · cases h
  | .list items => by
    rw [writable_list_iff, integers]
    exact writable_items_iff items
  | .object members => by
    rw [writable_object_iff, integers]
    exact writable_members_iff members
  | .null | .bool _ | .float _ | .str _ | .bytes _ => iff_of_true rfl fun _ hn => nomatch hn

/-- The same for the items of a list. -/
theorem writable_items_iff : ∀ items : List Value, (∀ item ∈ items, item.Writable) ↔
    ∀ n ∈ integersOfItems items, n.natAbs < 10 ^ digitLimit
  | [] => by simp [integersOfItems]
  | item :: items => by
    rw [List.forall_mem_cons, integersOfItems, List.forall_mem_append, writable_iff item,
      writable_items_iff items]

/-- The same for the members of an object. -/
theorem writable_members_iff : ∀ members : List (Text × Value),
    (∀ m ∈ members, m.2.Writable) ↔
      ∀ n ∈ integersOfMembers members, n.natAbs < 10 ^ digitLimit
  | [] => by simp [integersOfMembers]
  | (key, value) :: members => by
    rw [List.forall_mem_cons, integersOfMembers, List.forall_mem_append, writable_iff value,
      writable_members_iff members]

end

end Value

open Value

/-! ## §3. JSON documents. -/

namespace Json

/-- The digits of a number are digits. -/
theorem lt_ten_of_isAsciiDigit {digits : Text} (h : ∀ c ∈ digits, isAsciiDigit c = true) :
    ∀ d ∈ digits.map (fun c => c.toNat - 48), d < 10 := by
  intro d hd
  obtain ⟨c, hc, rfl⟩ := List.mem_map.1 hd
  have hr := h c hc
  simp only [isAsciiDigit, Bool.and_eq_true, decide_eq_true_eq] at hr
  omega

/-- An integer part is made of digits. -/
theorem isAsciiDigit_of_integerAt? {t whole rest : Text}
    (h : integerAt? t = some (whole, rest)) : ∀ c ∈ whole, isAsciiDigit c = true := by
  cases t with
  | nil => cases h
  | cons c t =>
    simp only [integerAt?] at h
    split at h
    · rename_i hc
      cases h
      intro d hd
      rw [List.mem_singleton.1 hd, hc]
      rfl
    · split at h
      · cases h
        exact List.all_eq_true.1 List.all_takeWhile
      · cases h

/-- Digits make a number below the power of ten of any count that is not exceeded. -/
theorem natOf_lt {digits : Text} (h : ∀ c ∈ digits, isAsciiDigit c = true) {limit : Nat}
    (hl : digits.length ≤ limit) : natOf digits < 10 ^ limit := by
  refine Text.natOfDigits_lt_of_le (lt_ten_of_isAsciiDigit h) ?_
  rw [List.length_map]
  exact hl

/-- A number is writable. -/
theorem writable_of_numberAt {t rest : Text} {v : Value} (h : numberAt t = .ok (v, rest)) :
    v.Writable := by
  unfold numberAt at h
  split at h
  -- the sign makes no difference to what the number is written with
  rename_i negative unsigned _
  split at h
  · cases h
  · rename_i whole after hw
    simp only at h
    split at h
    · cases h; rfl
    · split at h
      · cases h
      · rename_i hl
        cases h
        -- an integer, whose digits were counted
        refine writable_int ?_
        rw [natAbs_signed]
        exact natOf_lt (isAsciiDigit_of_integerAt? hw) (Nat.le_of_not_lt hl)

/-- A word is writable. -/
theorem writable_of_wordAt? {t rest : Text} {v : Value} (h : wordAt? t = some (v, rest)) :
    v.Writable := by
  obtain ⟨⟨word, v'⟩, hm, hw⟩ := List.exists_of_findSome?_eq_some h
  obtain ⟨_, -, he⟩ := Option.map_eq_some_iff.1 hw
  cases he
  have hall : ∀ w ∈ words, w.2.Writable := by
    simp only [words, List.forall_mem_cons]
    exact ⟨rfl, rfl, rfl, rfl, rfl, rfl, fun w hw => absurd hw List.not_mem_nil⟩
  exact hall _ hm

/-- Members stay writable when one with a writable value is added. -/
theorem writable_insert {members : List (Text × Value)} (name : Text) {v : Value}
    (h : ∀ m ∈ members, m.2.Writable) (hv : v.Writable) :
    ∀ m ∈ Entries.insert name v members, m.2.Writable := by
  induction members with
  | nil => simpa [Entries.insert] using hv
  | cons e members ih =>
    obtain ⟨a, b⟩ := e
    rw [List.forall_mem_cons] at h
    simp only [Entries.insert]
    split
    · exact List.forall_mem_cons.2 ⟨hv, h.2⟩
    · exact List.forall_mem_cons.2 ⟨h.1, ih h.2⟩

/-- Whatever the three readers of values read is writable. -/
structure ReadsWritable (steps : Nat) : Prop where
  value : ∀ {t v rest}, valueAt steps t = .ok (v, rest) → v.Writable
  items : ∀ {t items rest}, itemsAt steps t = .ok (items, rest) → ∀ item ∈ items, item.Writable
  members : ∀ {members t members' rest}, (∀ m ∈ members, m.2.Writable) →
    membersAt steps members t = .ok (members', rest) → ∀ m ∈ members', m.2.Writable

/-- A value is writable when what is inside it is. -/
theorem ReadsWritable.value_succ {steps : Nat} (h : ReadsWritable steps) {t rest : Text}
    {v : Value} (hv : valueAt (steps + 1) t = .ok (v, rest)) : v.Writable := by
  simp only [valueAt] at hv
  -- a text, an object, a list, or else a word or a number
  split at hv
  · obtain ⟨⟨s, _⟩, -, hr⟩ := bind_eq_ok_iff.1 hv
    cases hr
    exact writable_str s
  · split at hv
    · cases hv; rfl
    · obtain ⟨⟨ms, _⟩, hms, hr⟩ := bind_eq_ok_iff.1 hv
      cases hr
      exact writable_object_iff.2 (h.members (fun m hm => absurd hm List.not_mem_nil) hms)
  · split at hv
    · cases hv; rfl
    · obtain ⟨⟨is, _⟩, his, hr⟩ := bind_eq_ok_iff.1 hv
      cases hr
      exact writable_list_iff.2 (h.items his)
  · split at hv
    · rename_i hw
      cases hv
      exact writable_of_wordAt? hw
    · exact writable_of_numberAt hv

/-- Items are writable when the first one and those after it are. -/
theorem ReadsWritable.items_succ {steps : Nat} (h : ReadsWritable steps) {t rest : Text}
    {items : List Value} (hi : itemsAt (steps + 1) t = .ok (items, rest)) :
    ∀ item ∈ items, item.Writable := by
  rw [itemsAt] at hi
  obtain ⟨⟨item, after⟩, hv, hi⟩ := bind_eq_ok_iff.1 hi
  simp only at hi
  split at hi
  · cases hi
    simpa using h.value hv
  · obtain ⟨⟨more, _⟩, hm, hr⟩ := bind_eq_ok_iff.1 hi
    cases hr
    exact List.forall_mem_cons.2 ⟨h.value hv, h.items hm⟩
  · cases hi

/-- Members are writable when those before, the next one and those after it are. -/
theorem ReadsWritable.members_succ {steps : Nat} (h : ReadsWritable steps)
    {members members' : List (Text × Value)} {t rest : Text} (hm : ∀ m ∈ members, m.2.Writable)
    (hr : membersAt (steps + 1) members t = .ok (members', rest)) :
    ∀ m ∈ members', m.2.Writable := by
  rw [membersAt] at hr
  obtain ⟨⟨name, after⟩, -, hr⟩ := bind_eq_ok_iff.1 hr
  obtain ⟨⟨v, after'⟩, hv, hr⟩ := bind_eq_ok_iff.1 hr
  have hms := writable_insert name hm (h.value hv)
  simp only at hr
  split at hr
  · cases hr
    exact hms
  · exact h.members hms hr
  · cases hr

/-- All that is read in any number of steps is writable. -/
theorem readsWritable (steps : Nat) : ReadsWritable steps := by
  induction steps with
  | zero =>
    -- without a step nothing is read
    refine ⟨fun h => ?_, fun h => ?_, fun _ h => ?_⟩
    · simp only [valueAt] at h; cases h
    · simp only [itemsAt] at h; cases h
    · simp only [membersAt] at h; cases h
  | succ steps ih => exact ⟨ih.value_succ, ih.items_succ, ih.members_succ⟩

/-- The value of a document is writable. -/
theorem writable_of_read {t : Text} {v : Value} (h : read t = .ok v) : v.Writable := by
  unfold read at h
  split at h
  · cases h
  · obtain ⟨⟨v', after⟩, hv, h⟩ := bind_eq_ok_iff.1 h
    simp only at h
    split at h
    · cases h
      exact (readsWritable _).value hv
    · cases h

end Json

/-! ## §4. Env files. -/

/-- A digit is below ten. -/
theorem Text.lt_ten_of_digitValue? {c : CodePoint} {d : Nat} (h : digitValue? c = some d) :
    d < 10 := by
  simp only [digitValue?] at h
  split at h
  · split at h
    · cases h; omega
    · cases h
  · obtain ⟨z, hz, rfl⟩ := Option.map_eq_some_iff.1 h
    have hp := List.find?_some hz
    simp only [Bool.and_eq_true, decide_eq_true_eq] at hp
    omega

namespace Dotenv

open Text

/-- The values that a line can assign. -/
inductive Assignable : Value → Prop
  | number {v : Value} (writable : v.Writable) (notNull : v ≠ .null) : Assignable v
  | text (t : Text) : Assignable (.str t)
  | list (texts : List Text) : Assignable (.list (texts.map .str))

/-- A value that can be assigned is writable. -/
theorem Assignable.writable {v : Value} (h : Assignable v) : v.Writable := by
  cases h with
  | number writable _ => exact writable
  | text t => exact writable_str t
  | list texts =>
    refine writable_list_iff.2 fun item hi => ?_
    obtain ⟨t, -, rfl⟩ := List.mem_map.1 hi
    exact writable_str t

/-- A value that can be assigned is not null. -/
theorem Assignable.ne_null {v : Value} (h : Assignable v) : v ≠ .null := by
  cases h with
  | number _ notNull => exact notNull
  | text t => exact fun h => nomatch h
  | list texts => exact fun h => nomatch h

/-- The digits of a group are digits. -/
theorem lt_ten_of_mem_moreDigits (t : Text) : ∀ d ∈ (Numeral.moreDigits t).1, d < 10 := by
  -- the cases of the reader: the end, a digit after an underscore or none, a digit or none
  induction t using Numeral.moreDigits.induct with
  | case1 => simp [Numeral.moreDigits]
  | case2 c rest d hd digits more _ ih =>
    rw [Numeral.moreDigits, hd]
    exact List.forall_mem_cons.2 ⟨lt_ten_of_digitValue? hd, ih⟩
  | case3 c rest hn =>
    rw [Numeral.moreDigits, hn]
    simp
  | case4 c rest hc d hd digits more _ ih =>
    rw [Numeral.moreDigits]
    · simp only [hd]
      exact List.forall_mem_cons.2 ⟨lt_ten_of_digitValue? hd, ih⟩
    · exact hc
  | case5 c rest hc hn =>
    rw [Numeral.moreDigits]
    · simp [hn]
    · exact hc

/-- The digits of a group are digits. -/
theorem lt_ten_of_mem_digitGroup (t : Text) : ∀ d ∈ (Numeral.digitGroup t).1, d < 10 := by
  cases t with
  | nil => simp [Numeral.digitGroup]
  | cons c rest =>
    rw [Numeral.digitGroup]
    cases hd : digitValue? c with
    | none => simp
    | some d =>
      exact List.forall_mem_cons.2 ⟨lt_ten_of_digitValue? hd, lt_ten_of_mem_moreDigits rest⟩

/-- What is read: the text between quotes, the items between braces, or a bare text. -/
theorem value?_cases {t : Text} {v : Value} (h : value? t = some v) :
    (∃ quote rest, t = quote :: rest ∧ v = .str (unquote quote rest)) ∨
      (∃ mark rest, t = mark :: rest ∧ v = .list ((braceItems rest).map .str)) ∨
      v = bareValue t := by
  cases t with
  | nil => cases h
  | cons c rest =>
    simp only [value?] at h
    split at h
    · cases h
      exact .inl ⟨c, rest, rfl, rfl⟩
    · split at h
      · cases h
        exact .inr (.inl ⟨c, rest, rfl, rfl⟩)
      · cases h
        exact .inr (.inr rfl)

/-- A bare text is a double, an integer of few digits, or the text itself. -/
theorem bareValue_cases (t : Text) :
    (∃ negative digits power,
        bareValue t = .float (Binary64.ofDecimal negative digits power)) ∨
      (∃ i, bareValue t = .int i ∧ i.natAbs < 10 ^ digitLimit) ∨ bareValue t = .str t := by
  unfold bareValue
  cases hb : (Numeral.ofText? t).bind Numeral.value? with
  | none => exact .inr (.inr rfl)
  | some v =>
    obtain ⟨n, hn, hv⟩ := Option.bind_eq_some_iff.1 hb
    have hd : ∀ d ∈ n.whole, d < 10 := by
      simp only [Numeral.ofText?] at hn
      split at hn
      · cases hn
      · obtain ⟨_, -, rfl⟩ := Option.map_eq_some_iff.1 hn
        exact lt_ten_of_mem_digitGroup _
    unfold Numeral.value? at hv
    split at hv
    · cases hv
      exact .inl ⟨_, _, _, rfl⟩
    · split at hv
      · -- an integer that is too long is left a text
        rename_i few
        cases hv
        refine .inr (.inl ⟨_, rfl, ?_⟩)
        rw [Numeral.signed, natAbs_signed]
        exact natOfDigits_lt_of_le hd few
      · cases hv

/-- The value of a right-hand side can be assigned. -/
theorem assignable_of_value? {t : Text} {v : Value} (h : value? t = some v) :
    Assignable v := by
  rcases value?_cases h with ⟨_, _, -, rfl⟩ | ⟨_, _, -, rfl⟩ | rfl
  · exact .text _
  · exact .list _
  · rcases bareValue_cases t with ⟨_, _, _, h⟩ | ⟨i, h, short⟩ | h
    · rw [h]
      exact .number rfl fun h => nomatch h
    · rw [h]
      exact .number (writable_int short) fun h => nomatch h
    · rw [h]
      exact .text t

/-- The value that a line assigns can be assigned. -/
theorem assignable_of_assignment? {line key : Text} {v : Value}
    (h : assignment? line = some (key, v)) : Assignable v := by
  simp only [assignment?] at h
  split at h
  · cases h
  · split at h
    · cases h
    · split at h
      · cases h
      · obtain ⟨v', hv, he⟩ := Option.map_eq_some_iff.1 h
        cases he
        exact assignable_of_value? hv

/-- Every value of an env file is one that a line can assign. -/
theorem assignable_of_decode {content : Bytes} {values : Mapping Value}
    (h : decode content = .ok values) {k : Text} {v : Value} (hv : values.get? k = some v) :
    Assignable v := by
  unfold decode at h
  cases hd : Utf8.decodeMarked content with
  | error fault => rw [hd] at h; cases h
  | ok text =>
    rw [hd] at h
    cases h
    obtain ⟨line, -, ha⟩ := List.mem_filterMap.1 (Table.mem_of_get?_ofList hv)
    exact assignable_of_assignment? ha

end Dotenv

/-! ## §5. Values with their references replaced. -/

namespace Reference

section

variable {ε : Type} {answer : Text → Except ε (Option Text)}

/-- An item stays writable, whatever the answers are. -/
theorem writable_expandItem {item item' : Value} (hi : item.Writable)
    (h : expandItem answer item = .ok item') : item'.Writable := by
  cases item with
  | str t =>
    obtain ⟨t', -, ht⟩ := bind_eq_ok_iff.1 h
    cases ht
    exact writable_str t'
  | _ => cases h; exact hi

/-- Items stay writable, whatever the answers are. -/
theorem writable_expandItems {items items' : List Value} (hi : ∀ item ∈ items, item.Writable)
    (h : items.mapM (expandItem answer) = .ok items') : ∀ item ∈ items', item.Writable := by
  induction items generalizing items' with
  | nil =>
    cases h
    exact fun i hi => absurd hi List.not_mem_nil
  | cons i items ih =>
    rw [List.mapM_cons] at h
    obtain ⟨i', hi', h⟩ := bind_eq_ok_iff.1 h
    obtain ⟨is, his, h⟩ := bind_eq_ok_iff.1 h
    cases h
    rw [List.forall_mem_cons] at hi ⊢
    exact ⟨writable_expandItem hi.1 hi', ih hi.2 his⟩

/-- Whatever the answers are, replacing references leaves a value writable. -/
theorem writable_expandValueIf {interpolate : Bool} {v v' : Value} (hv : v.Writable)
    (h : expandValueIf interpolate answer v = .ok v') : v'.Writable := by
  unfold expandValueIf at h
  split at h
  · cases v with
    | str t =>
      obtain ⟨t', -, ht⟩ := bind_eq_ok_iff.1 h
      cases ht
      exact writable_str t'
    | list items =>
      obtain ⟨items', hm, ht⟩ := bind_eq_ok_iff.1 h
      cases ht
      exact writable_list_iff.2 (writable_expandItems (writable_list_iff.1 hv) hm)
    | _ => cases h; exact hv
  · cases h
    exact hv

end

end Reference

/-! ## §6. Stores. -/

namespace Preferences

variable {w : World} {p : Path} {gs : Groups}

/-- All values of groups are writable. -/
def AllWritable (gs : Groups) : Prop :=
  ∀ group key v, gs.value? group key = some v → v.Writable

/-- The values of groups read from a writable object are writable. -/
theorem allWritable_ofMembers {members : List (Text × Value)}
    (h : Value.Writable (.object members)) : AllWritable (Groups.ofMembers members) := by
  intro group key v hv
  obtain ⟨g, hg, hv⟩ := Option.bind_eq_some_iff.1 hv
  obtain ⟨⟨name, m⟩, hm, he⟩ := List.mem_filterMap.1 (Table.mem_of_get?_ofList hg)
  rw [Value.writable_object_iff] at h
  have hw := h _ hm
  cases m with
  | object inner =>
    cases he
    rw [Value.writable_object_iff] at hw
    exact hw _ (Table.mem_of_get?_ofList hv)
  | _ => cases he

/-- Where nothing is held, all is writable. -/
theorem allWritable_empty : AllWritable .empty := fun _ _ _ hv => nomatch hv

/-- The values in the bytes of a document are writable. -/
theorem allWritable_of_decode {content : Text.Bytes} (h : decode p content = .ok gs) :
    AllWritable gs := by
  unfold decode at h
  cases hd : Text.Utf8.decode content with
  | error fault => rw [hd] at h; cases h
  | ok text =>
    rw [hd] at h
    simp only at h
    split at h
    · cases h
      exact allWritable_empty
    · split at h
      · cases h
      · cases h
      · rename_i members hread
        cases h
        exact allWritable_ofMembers (Json.writable_of_read hread)
      · cases h

/-- The values in a document are writable. -/
theorem allWritable_of_readDocument (h : readDocument w p = .ok gs) : AllWritable gs := by
  unfold readDocument at h
  split at h
  · cases h
    exact allWritable_empty
  · split at h <;> cases h
  · exact allWritable_of_decode h

/-- A store that gives writable values only: every document is one, and a store in memory is
unless it was given an integer beyond the limit. -/
def Writable (s : Preferences) : Prop := ∀ gs, s = .memory gs → AllWritable gs

/-- Every document is a store of writable values. -/
theorem writable_document (p : Path) : Writable (.document p) := fun _ h => nomatch h

/-- What such a store holds for a key is writable. -/
theorem Writable.get? {s : Preferences} (hs : s.Writable) {group key : Text} {v : Value}
    (h : s.get? w group key = .ok (some v)) : v.Writable := by
  unfold Preferences.get? at h
  cases hg : s.groups w with
  | error failure => rw [hg] at h; cases h
  | ok gs =>
    rw [hg] at h
    have all : AllWritable gs := by
      cases s with
      | memory gs' => cases hg; exact hs gs rfl
      | document p => exact allWritable_of_readDocument hg
    exact all group key v (Except.ok.inj h)

end Preferences

end Cascade
