/-
  Cascade.Proofs.WrittenNumber
  ────────────────────────────────
  **A NUMBER READS BACK FROM A JSON DOCUMENT.**

  A written number is a row of digits, with a minus sign before it, and a
  fraction and an exponent after it or not.  The reader takes these apart
  again, whatever follows that is no part of a number:

      numberAt_ofInt        — an integer
      numberAt_double       — a double, in any of its notations
-/
import Cascade.Json.Reader
import Cascade.Proofs.Digits
import Cascade.Proofs.ShortestDecimal

namespace Cascade.Json

open Cascade.Text

/-! ## §1. Rows of digits. -/

/-- The digit values of a row of digits. -/
def AreDigits (ds : List Nat) : Prop := ∀ d ∈ ds, d < 10

/-- What follows a row of digits without belonging to it. -/
def EndsDigits (rest : Text) : Prop := ∀ c ∈ rest.head?, isAsciiDigit c = false

/-- What follows a number without belonging to it. -/
def EndsNumber (rest : Text) : Prop :=
  ∀ c ∈ rest.head?, isAsciiDigit c = false ∧ c ≠ '.' ∧ c ≠ 'e' ∧ c ≠ 'E'

/-- What ends a number ends a row of digits. -/
theorem EndsNumber.endsDigits {rest : Text} (h : EndsNumber rest) : EndsDigits rest :=
  fun c hc => (h c hc).1

/-- The character of a digit is one. -/
theorem isAsciiDigit_digit {d : Nat} (h : d < 10) : isAsciiDigit (digit d) = true := by
  have hn := toNat_digit h
  unfold isAsciiDigit
  rw [hn]
  simp only [Bool.and_eq_true, decide_eq_true_eq]
  omega

/-- A row of digits has the number they make up. -/
theorem natOf_map_digit {ds : List Nat} (h : AreDigits ds) :
    natOf (ds.map digit) = natOfDigits ds := by
  have hback : (ds.map digit).map (fun c => c.toNat - 48) = ds := by
    rw [List.map_map]
    refine (List.map_congr_left fun d hd => ?_).trans (List.map_id' ds)
    have hn := toNat_digit (h d hd)
    show (digit d).toNat - 48 = d
    omega
  rw [natOf, hback]

/-- A row of digits is taken as a whole. -/
theorem digitsAt_append {ds : List Nat} {rest : Text} (h : AreDigits ds) (hr : EndsDigits rest) :
    digitsAt (ds.map digit ++ rest) = (ds.map digit, rest) := by
  have hall : ∀ c ∈ ds.map digit, isAsciiDigit c = true := by
    intro c hc
    obtain ⟨d, hd, rfl⟩ := List.mem_map.1 hc
    exact isAsciiDigit_digit (h d hd)
  have hstop : rest.takeWhile isAsciiDigit = [] ∧ rest.dropWhile isAsciiDigit = rest := by
    cases rest with
    | nil => exact ⟨rfl, rfl⟩
    | cons c rest =>
      have hc := hr c rfl
      simp [hc]
  unfold digitsAt
  rw [List.takeWhile_append_of_pos hall, List.dropWhile_append_of_pos hall, hstop.1, hstop.2,
    List.append_nil]

/-- The digits of an integer part: a zero alone, or digits that do not begin with one. -/
structure IsWhole (ds : List Nat) : Prop where
  digits : AreDigits ds
  notEmpty : ds ≠ []
  lead : ds = [0] ∨ ds.head? ≠ some 0

/-- The digits of a number are those of an integer part. -/
theorem isWhole_digitsOf (n : Nat) : IsWhole (digitsOf n) := by
  refine ⟨fun d hd => lt_ten_of_mem_digitsOf hd, digitsOf_ne_nil n, ?_⟩
  by_cases hn : n = 0
  · left
    rw [hn]
    rfl
  · right
    exact head?_digitsOf hn

/-- An integer part is taken as a whole. -/
theorem integerAt?_append {ds : List Nat} {rest : Text} (h : IsWhole ds) (hr : EndsDigits rest) :
    integerAt? (ds.map digit ++ rest) = some (ds.map digit, rest) := by
  rcases h.lead with rfl | hlead
  · rfl
  · have hds := digitsAt_append h.digits hr
    cases ds with
    | nil => exact absurd rfl h.notEmpty
    | cons d ds =>
      have hd : d < 10 := h.digits d (by simp)
      have hzero : digit d ≠ .char '0' := by
        intro hz
        have hn := toNat_digit hd
        rw [hz] at hn
        have hd0 : d = 0 := by
          have : (CodePoint.char '0').toNat = 48 := rfl
          omega
        exact hlead (by rw [hd0]; rfl)
      rw [List.map_cons, List.cons_append] at hds ⊢
      rw [integerAt?, if_neg hzero, if_pos (isAsciiDigit_digit hd), hds]

/-! ## §2. Fractions and exponents. -/

/-- A fraction as it is written, if there is one. -/
def fractionText : Option (List Nat) → Text
  | none => []
  | some ds => .char '.' :: ds.map digit

/-- An exponent as it is written, if there is one. -/
def exponentPart : Option Int → Text
  | none => []
  | some e => .char 'e' :: Decimal.exponentText e

/-- An exponent, or what ends a number, ends a row of digits. -/
theorem endsDigits_exponentPart (exponent : Option Int) {rest : Text} (h : EndsNumber rest) :
    EndsDigits (exponentPart exponent ++ rest) := by
  cases exponent with
  | none => exact h.endsDigits
  | some e =>
    intro c hc
    cases hc
    rfl

/-- A fraction is taken as a whole. -/
theorem fractionAt_append {fraction : Option (List Nat)} {exponent : Option Int} {rest : Text}
    (hf : ∀ ds ∈ fraction, AreDigits ds ∧ ds ≠ []) (hr : EndsNumber rest) :
    fractionAt (fractionText fraction ++ (exponentPart exponent ++ rest)) =
      (fraction.map (List.map digit), exponentPart exponent ++ rest) := by
  cases fraction with
  | none =>
    -- neither an exponent nor what ends a number begins with a point
    have hpoint : ∀ more, exponentPart exponent ++ rest ≠ .char '.' :: more := by
      intro more hm
      cases exponent with
      | none =>
        have hc := hr (.char '.') (by
          have hh : rest = .char '.' :: more := hm
          rw [hh]
          rfl)
        exact hc.2.1 rfl
      | some e => cases hm
    show fractionAt (exponentPart exponent ++ rest) = (none, exponentPart exponent ++ rest)
    unfold fractionAt
    split
    · rename_i hm
      exact absurd hm (hpoint _)
    · rfl
  | some ds =>
    obtain ⟨hds, hne⟩ := hf ds rfl
    show fractionAt (.char '.' :: (ds.map digit ++ (exponentPart exponent ++ rest))) = _
    rw [fractionAt, digitsAt_append hds (endsDigits_exponentPart exponent hr)]
    cases ds with
    | nil => exact absurd rfl hne
    | cons d ds => rfl

/-- The digits of an exponent. -/
def exponentDigits (e : Int) : List Nat :=
  if (digitsOf e.natAbs).length < 2 then 0 :: digitsOf e.natAbs else digitsOf e.natAbs

/-- An exponent is written as its sign and its digits. -/
theorem exponentText_eq (e : Int) :
    Decimal.exponentText e =
      (if e < 0 then .char '-' else .char '+') :: (exponentDigits e).map digit := by
  unfold Decimal.exponentText exponentDigits
  simp only [ofNat_eq_map, List.length_map]
  by_cases he : e < 0 <;> by_cases hl : (digitsOf e.natAbs).length < 2 <;>
    simp only [he, hl, if_true, if_false] <;> rfl

/-- The digits of an exponent make up its absolute value. -/
theorem natOfDigits_exponentDigits (e : Int) :
    AreDigits (exponentDigits e) ∧ exponentDigits e ≠ [] ∧
      natOfDigits (exponentDigits e) = e.natAbs := by
  have hd : AreDigits (digitsOf e.natAbs) := fun d hd => lt_ten_of_mem_digitsOf hd
  unfold exponentDigits
  by_cases hl : (digitsOf e.natAbs).length < 2
  · rw [if_pos hl]
    refine ⟨List.forall_mem_cons.2 ⟨by omega, hd⟩, by simp, ?_⟩
    show natOfDigits (digitsOf e.natAbs) = _
    exact natOfDigits_digitsOf _
  · rw [if_neg hl]
    exact ⟨hd, digitsOf_ne_nil _, natOfDigits_digitsOf _⟩

/-- An exponent is taken as a whole. -/
theorem exponentAt_append (exponent : Option Int) {rest : Text} (hr : EndsNumber rest) :
    exponentAt (exponentPart exponent ++ rest) = (exponent, rest) := by
  cases exponent with
  | none =>
    show exponentAt rest = (none, rest)
    cases rest with
    | nil => rfl
    | cons c rest =>
      have hc := hr c rfl
      rw [exponentAt, if_neg]
      rintro (h | h)
      · exact hc.2.2.1 h
      · exact hc.2.2.2 h
  | some e =>
    obtain ⟨hds, hne, hval⟩ := natOfDigits_exponentDigits e
    have hdigits := digitsAt_append hds hr.endsDigits
    have hnat : natOf ((exponentDigits e).map digit) = e.natAbs := by
      rw [natOf_map_digit hds, hval]
    show exponentAt (.char 'e' :: (Decimal.exponentText e ++ rest)) = (some e, rest)
    rw [exponentText_eq, exponentAt, if_pos (.inl rfl)]
    by_cases he : e < 0
    · rw [if_pos he, List.cons_append]
      simp only [exponentSign, hdigits, List.map_eq_nil_iff, hne, if_false, if_true, hnat,
        Int.ofNat_eq_natCast]
      congr 2
      omega
    · rw [if_neg he, List.cons_append]
      simp only [exponentSign, hdigits, List.map_eq_nil_iff, hne, if_false, hnat,
        Int.ofNat_eq_natCast, Bool.false_eq_true]
      congr 2
      omega

/-! ## §3. Numbers. -/

/-- A minus sign, if there is one. -/
def signText (negative : Bool) : Text := if negative then [.char '-'] else []

/-- A number as it is written. -/
def numberText (negative : Bool) (whole : List Nat) (fraction : Option (List Nat))
    (exponent : Option Int) : Text :=
  signText negative ++ (whole.map digit ++ (fractionText fraction ++ exponentPart exponent))

/-- **A NUMBER IS TAKEN APART AS IT WAS PUT TOGETHER.** -/
theorem numberAt_numberText {negative : Bool} {whole : List Nat} {fraction : Option (List Nat)}
    {exponent : Option Int} {rest : Text} (hw : IsWhole whole)
    (hf : ∀ ds ∈ fraction, AreDigits ds ∧ ds ≠ []) (hr : EndsNumber rest) :
    numberAt (numberText negative whole fraction exponent ++ rest) =
      if fraction.isSome ∨ exponent.isSome then
        .ok (.float (Binary64.ofDecimal negative (natOfDigits (whole ++ fraction.getD []))
          (exponent.getD 0 - Int.ofNat (fraction.getD []).length)), rest)
      else if digitLimit < whole.length then .error (.tooManyDigits whole.length)
      else .ok (.int (if negative then -Int.ofNat (natOfDigits whole)
        else Int.ofNat (natOfDigits whole)), rest) := by
  have hafter : EndsDigits (fractionText fraction ++ (exponentPart exponent ++ rest)) := by
    cases fraction with
    | none => exact endsDigits_exponentPart exponent hr
    | some ds =>
      intro c hc
      cases hc
      rfl
  have hsplit : numberText negative whole fraction exponent ++ rest = signText negative ++
      (whole.map digit ++ (fractionText fraction ++ (exponentPart exponent ++ rest))) := by
    simp [numberText]
  have hdigits : AreDigits (whole ++ fraction.getD []) := by
    intro d hd
    rcases List.mem_append.1 hd with hd | hd
    · exact hw.digits d hd
    · cases fraction with
      | none => cases hd
      | some ds => exact (hf ds rfl).1 d hd
  have hmap : whole.map digit ++ (fraction.map (List.map digit)).getD [] =
      (whole ++ fraction.getD []).map digit := by
    cases fraction <;> simp
  have hlen : ((fraction.map (List.map digit)).getD []).length = (fraction.getD []).length := by
    cases fraction <;> simp
  rw [hsplit]
  unfold numberAt
  split
  rename_i negative' unsigned hsign
  have hread : negative' = negative ∧ unsigned =
      whole.map digit ++ (fractionText fraction ++ (exponentPart exponent ++ rest)) := by
    cases negative with
    | true =>
      cases hsign
      exact ⟨rfl, rfl⟩
    | false =>
      cases whole with
      | nil => exact absurd rfl hw.notEmpty
      | cons d ds =>
        have hlead := toNat_digit (hw.digits d (by simp))
        simp only [signText, List.map_cons, List.cons_append, List.nil_append, if_false,
          Bool.false_eq_true] at hsign
        split at hsign
        · -- a digit is no minus sign
          rename_i hm
          rw [(List.cons.inj hm).1] at hlead
          have hminus : (CodePoint.char '-').toNat = 45 := rfl
          omega
        · cases hsign
          exact ⟨rfl, rfl⟩
  obtain ⟨rfl, rfl⟩ := hread
  simp only [integerAt?_append hw hafter, fractionAt_append hf hr, exponentAt_append exponent hr,
    Option.isSome_map, hmap, hlen, natOf_map_digit hdigits, natOf_map_digit hw.digits,
    List.length_map]

/-- An integer is written as its sign and its digits. -/
theorem ofInt_eq_numberText (n : Int) :
    ofInt n = numberText (decide (n < 0)) (digitsOf n.natAbs) none none := by
  cases n with
  | ofNat m => simp [ofInt, numberText, signText, fractionText, exponentPart, ofNat_eq_map]
  | negSucc m =>
    have hneg : Int.negSucc m < 0 := Int.negSucc_lt_zero m
    simp [ofInt, numberText, signText, fractionText, exponentPart, ofNat_eq_map, hneg]

/-- **AN INTEGER READS BACK.** -/
theorem numberAt_ofInt {n : Int} {rest : Text} (hn : n.natAbs < 10 ^ digitLimit)
    (hr : EndsNumber rest) : numberAt (ofInt n ++ rest) = .ok (.int n, rest) := by
  have hlen : ¬ digitLimit < (digitsOf n.natAbs).length := by
    have hle := length_digitsOf_le (show 0 < digitLimit by decide) hn
    omega
  rw [ofInt_eq_numberText, numberAt_numberText (isWhole_digitsOf _) (by simp) hr,
    if_neg (by simp), if_neg hlen, natOfDigits_digitsOf]
  by_cases hneg : n < 0
  · simp only [hneg, decide_true, if_true, Int.ofNat_eq_natCast]
    congr 3
    omega
  · simp only [hneg, decide_false, Bool.false_eq_true, if_false, Int.ofNat_eq_natCast]
    congr 3
    omega

/-! ## §4. Doubles. -/

/-- The parts of a decimal in a notation: they are those of a number with a fraction or an
exponent, with `k` zeros more than the decimal has, and of the same value. -/
structure HasParts (d : Decimal) (t : Text) (whole : List Nat) (fraction : Option (List Nat))
    (exponent : Option Int) (k : Nat) : Prop where
  text : t = whole.map digit ++ (fractionText fraction ++ exponentPart exponent)
  isWhole : IsWhole whole
  isFraction : ∀ ds ∈ fraction, AreDigits ds ∧ ds ≠ []
  isDouble : fraction.isSome ∨ exponent.isSome
  digits : natOfDigits (whole ++ fraction.getD []) = d.digits * 10 ^ k
  power : exponent.getD 0 - Int.ofNat (fraction.getD []).length = d.power - k

/-- The parts belong to the text, however it is put together. -/
theorem HasParts.of_eq {d : Decimal} {t t' : Text} {whole : List Nat}
    {fraction : Option (List Nat)} {exponent : Option Int} {k : Nat}
    (h : HasParts d t whole fraction exponent k) (ht : t' = t) :
    HasParts d t' whole fraction exponent k := ht ▸ h

/-- A row of zeros. -/
theorem zeroes_eq (k : Nat) : Decimal.zeroes k = (List.replicate k 0).map digit := by
  rw [List.map_replicate]
  rfl

/-- Zeros are digits. -/
theorem areDigits_replicate (k : Nat) : AreDigits (List.replicate k 0) := by
  intro d hd
  rw [(List.mem_replicate.1 hd).2]
  omega

/-- Two rows of digits are one. -/
theorem AreDigits.append {ds es : List Nat} (hd : AreDigits ds) (he : AreDigits es) :
    AreDigits (ds ++ es) := fun d hm => (List.mem_append.1 hm).elim (hd d) (he d)

section

variable {d : Decimal} {ds : List Nat}

/-- A decimal below one has a zero before the point, and zeros after it. -/
theorem parts_below (hw : IsWhole ds) (hval : natOfDigits ds = d.digits) {k : Nat}
    (hp : d.power = -(k + ds.length)) :
    HasParts d ("0." ++ Decimal.zeroes k ++ ds.map digit) [0] (some (List.replicate k 0 ++ ds))
      none 0 where
  text := by
    rw [zeroes_eq]
    simp [fractionText, exponentPart]
    rfl
  isWhole := ⟨fun e he => by rw [List.mem_singleton.1 he]; omega, by simp, .inl rfl⟩
  isFraction := fun fs hfs => by
    cases hfs
    exact ⟨(areDigits_replicate k).append hw.digits, by simp [hw.notEmpty]⟩
  isDouble := .inl rfl
  digits := by
    have hzero : natOfDigits [0] = 0 := rfl
    simp only [Option.getD_some, natOfDigits_append, natOfDigits_replicate, hzero, hval]
    omega
  power := by
    simp only [Option.getD_none, Option.getD_some, List.length_append, List.length_replicate,
      Int.ofNat_eq_natCast]
    omega

/-- A decimal with a point among its digits has a part of them on either side. -/
theorem parts_inside (hw : IsWhole ds) (hval : natOfDigits ds = d.digits) {k : Nat} (hk : 0 < k)
    (hlt : k < ds.length) (hp : d.power = k - ds.length) :
    HasParts d ((ds.map digit).take k ++ "." ++ (ds.map digit).drop k) (ds.take k)
      (some (ds.drop k)) none 0 where
  text := by
    rw [← List.map_take, ← List.map_drop]
    simp [fractionText, exponentPart]
  isWhole := by
    refine ⟨fun e he => hw.digits e (List.mem_of_mem_take he), ?_, .inr ?_⟩
    · rw [Ne, List.take_eq_nil_iff, not_or]
      exact ⟨by omega, hw.notEmpty⟩
    · rw [List.head?_take, if_neg (by omega)]
      refine hw.lead.resolve_left fun h => ?_
      rw [h, List.length_singleton] at hlt
      omega
  isFraction := fun fs hfs => by
    cases hfs
    refine ⟨fun e he => hw.digits e (List.mem_of_mem_drop he), ?_⟩
    rw [Ne, List.drop_eq_nil_iff]
    omega
  isDouble := .inl rfl
  digits := by
    rw [Option.getD_some, List.take_append_drop, hval, Nat.pow_zero, Nat.mul_one]
  power := by
    simp only [Option.getD_none, Option.getD_some, List.length_drop, Int.ofNat_eq_natCast]
    omega

/-- A whole decimal has zeros after its digits, and a zero after the point. -/
theorem parts_above (hw : IsWhole ds) (hval : natOfDigits ds = d.digits) {k : Nat}
    (hp : d.power = k) (hzero : ds = [0] → k = 0) :
    HasParts d (ds.map digit ++ Decimal.zeroes k ++ ".0") (ds ++ List.replicate k 0) (some [0])
      none (k + 1) where
  text := by
    rw [zeroes_eq]
    simp [fractionText, exponentPart]
    rfl
  isWhole := by
    refine ⟨hw.digits.append (areDigits_replicate k), by simp [hw.notEmpty], ?_⟩
    rcases hw.lead with h0 | hlead
    · left
      rw [h0, hzero h0]
      rfl
    · right
      cases ds with
      | nil => exact absurd rfl hw.notEmpty
      | cons e ds => exact hlead
  isFraction := fun fs hfs => by
    cases hfs
    exact ⟨fun e he => by rw [List.mem_singleton.1 he]; omega, by simp⟩
  isDouble := .inl rfl
  digits := by
    have hlast : natOfDigits [0] = 0 := rfl
    simp only [Option.getD_some, natOfDigits_append, natOfDigits_replicate, hlast, hval,
      List.length_replicate, List.length_singleton]
    ring
  power := by
    simp only [Option.getD_none, Option.getD_some, List.length_singleton, Int.ofNat_eq_natCast]
    omega

/-- A decimal with an exponent has one digit before the point, if there is one. -/
theorem parts_exponent {lead : Nat} {fraction : Option (List Nat)} {e : Int}
    (hw : IsWhole (lead :: fraction.getD [])) (hf : ∀ fs ∈ fraction, fs ≠ [])
    (hval : natOfDigits (lead :: fraction.getD []) = d.digits)
    (hp : d.power = e - (fraction.getD []).length) :
    HasParts d (digit lead :: (fractionText fraction ++ exponentPart (some e))) [lead] fraction
      (some e) 0 where
  text := rfl
  isWhole := by
    refine ⟨fun x hx => hw.digits x (by rw [List.mem_singleton.1 hx]; simp), by simp, ?_⟩
    rcases hw.lead with h0 | hlead
    · left
      rw [(List.cons.inj h0).1]
    · exact .inr hlead
  isFraction := fun fs hfs => by
    refine ⟨fun x hx => hw.digits x (List.mem_cons_of_mem lead ?_), hf fs hfs⟩
    rw [Option.mem_def.1 hfs]
    exact hx
  isDouble := .inr rfl
  digits := by
    rw [List.singleton_append, hval, Nat.pow_zero, Nat.mul_one]
  power := by
    rw [Option.getD_some, hp, Int.ofNat_eq_natCast]
    omega

end

/-- Every decimal is written in parts, in every notation. -/
theorem exists_parts (style : Decimal.Style) {d : Decimal} (h : d.digits = 0 → d.power = 0) :
    ∃ whole fraction exponent k, HasParts d (d.text style) whole fraction exponent k := by
  have hw := isWhole_digitsOf d.digits
  have hval := natOfDigits_digitsOf d.digits
  -- only zero, which has no power, begins with a zero
  have hzero : digitsOf d.digits = [0] → d.power = 0 := by
    intro h0
    rw [h0] at hval
    exact h hval.symm
  unfold Decimal.text
  rw [ofNat_eq_map]
  simp only [List.length_map, Int.ofNat_eq_natCast]
  generalize digitsOf d.digits = ds at *
  have hlen : 0 < ds.length := List.length_pos_of_ne_nil hw.notEmpty
  split
  · split
    · exact ⟨_, _, _, _, parts_below hw hval (by omega)⟩
    · split
      · exact ⟨_, _, _, _, parts_inside hw hval (by omega) (by assumption) (by omega)⟩
      · exact ⟨_, _, _, _, parts_above hw hval (by omega) fun h0 => by have := hzero h0; omega⟩
  · cases ds with
    | nil => exact absurd rfl hw.notEmpty
    | cons lead more =>
      have hplace : d.power = ((lead :: more).length + d.power - 1 : Int) - more.length := by
        rw [List.length_cons]
        push_cast
        omega
      cases more with
      | nil =>
        have hparts : HasParts d _ [lead] none _ 0 := parts_exponent hw (by simp) hval hplace
        exact ⟨_, _, _, _, hparts⟩
      | cons next more =>
        have hparts : HasParts d _ [lead] (some (next :: more)) _ 0 :=
          parts_exponent hw (by simp) hval hplace
        refine ⟨_, _, _, _, hparts.of_eq ?_⟩
        simp [fractionText, exponentPart]

/-- A double is written as a number, in every notation. -/
theorem exists_numberText {negative : Bool} {m : Nat} {e : Int}
    (h : (Binary64.finite negative m e).Canonical) (style : Decimal.Style) :
    ∃ whole fraction exponent k,
      HasParts (Decimal.shortest negative m e) ((Decimal.shortest negative m e).text style) whole
        fraction exponent k ∧
      (Binary64.finite negative m e).text style =
        numberText negative whole fraction exponent := by
  obtain ⟨whole, fraction, exponent, k, hparts⟩ :=
    exists_parts style (Decimal.power_shortest h)
  refine ⟨whole, fraction, exponent, k, hparts, ?_⟩
  rw [Binary64.text, hparts.text, numberText, signText]
  cases negative <;> rfl

/-- **A DOUBLE READS BACK.** -/
theorem numberAt_double {negative : Bool} {m : Nat} {e : Int} {rest : Text}
    (h : (Binary64.finite negative m e).Canonical) (hr : EndsNumber rest) (style : Decimal.Style) :
    numberAt ((Binary64.finite negative m e).text style ++ rest) =
      .ok (.float (.finite negative m e), rest) := by
  obtain ⟨whole, fraction, exponent, k, hparts, htext⟩ := exists_numberText h style
  have hvalue : (((Decimal.shortest negative m e).digits * 10 ^ k : Nat) : ℚ) *
      10 ^ ((Decimal.shortest negative m e).power - k) =
        (Decimal.shortest negative m e).value := by
    rw [Decimal.value, zpow_sub₀ (by norm_num), zpow_natCast]
    push_cast
    field_simp
  rw [htext, numberAt_numberText hparts.isWhole hparts.isFraction hr, if_pos hparts.isDouble,
    hparts.digits, hparts.power, Binary64.ofDecimal_eq, hvalue, ← Decimal.toBinary64_eq,
    Decimal.toBinary64_shortest h]

/-! ## §5. What numbers look like. -/

/-- A text that is written for a number. -/
structure IsNumber (t : Text) : Prop where
  printable : ∀ c ∈ t, 32 ≤ c.toNat ∧ c.toNat < 127
  lead : ∃ negative d rest, d < 10 ∧ t = signText negative ++ digit d :: rest

/-- A number is written like one. -/
theorem isNumber_numberText {negative : Bool} {whole : List Nat} {fraction : Option (List Nat)}
    {exponent : Option Int} (hw : IsWhole whole) (hf : ∀ ds ∈ fraction, AreDigits ds ∧ ds ≠ []) :
    IsNumber (numberText negative whole fraction exponent) := by
  have hdigits {ds : List Nat} (hds : AreDigits ds) :
      ∀ c ∈ ds.map digit, 32 ≤ c.toNat ∧ c.toNat < 127 := by
    intro c hc
    obtain ⟨d, hd, rfl⟩ := List.mem_map.1 hc
    have hlt := hds d hd
    have hn := toNat_digit hlt
    omega
  constructor
  · intro c hc
    simp only [numberText, List.mem_append] at hc
    rcases hc with hc | hc | hc | hc
    · cases negative with
      | false => cases hc
      | true =>
        rw [List.mem_singleton.1 hc]
        decide
    · exact hdigits hw.digits c hc
    · cases fraction with
      | none => cases hc
      | some ds =>
        rcases List.mem_cons.1 hc with rfl | hc
        · decide
        · exact hdigits (hf ds rfl).1 c hc
    · cases exponent with
      | none => cases hc
      | some e =>
        rw [exponentPart, exponentText_eq, List.mem_cons, List.mem_cons] at hc
        rcases hc with rfl | rfl | hc
        · decide
        · split <;> decide
        · exact hdigits (natOfDigits_exponentDigits e).1 c hc
  · cases whole with
    | nil => exact absurd rfl hw.notEmpty
    | cons d ds => exact ⟨negative, d, _, hw.digits d (by simp), rfl⟩

end Cascade.Json
