/-
  Cascade.Proofs.NumeralGrammar
  ────────────────────────────────
  **BARE TEXTS ARE NUMBERS BY A GRAMMAR, AND BY NOTHING ELSE.**

  With D a decimal digit of any script and G = D(_?D)*, a numeral is an
  optional sign, one of G, G., G.G and .G, and optionally an e or E with an
  optional sign and one more G.  The grammar is stated twice:

      Spells        — which text is written for which numeral
      numeralTexts  — the texts, as a regular language

  Reading goes from left to right and never turns back.  That is enough,
  since no part can begin with what the part before it can go on with:

      digitGroup_append, exists_group   — a group is read to its end
      ofText?_eq_some_iff               — a numeral is read exactly when it
                                          is written
      mem_numeralTexts_iff              — the texts that spell one
      bareValue_eq_grammar              — integers, doubles and all the rest
-/
import Mathlib.Computability.Language
import Cascade.Proofs.Writable
import Cascade.Proofs.WrittenEnv

namespace Cascade.Dotenv

open Cascade.Text

namespace Numeral

/-! ## §1. The grammar. -/

/-- A sign that need not be there; true for minus. -/
inductive Sign : Text → Bool → Prop
  | absent : Sign [] false
  | plus : Sign [.char '+'] false
  | minus : Sign [.char '-'] true

/-- A group of digits: before each but the first one there may be one underscore. -/
inductive Group : Text → List Nat → Prop
  | last {c : CodePoint} {d : Nat} (digit : digitValue? c = some d) : Group [c] [d]
  | next {c : CodePoint} {d : Nat} {g : Text} {ds : List Nat} (digit : digitValue? c = some d)
      (more : Group g ds) : Group (c :: g) (d :: ds)
  | spaced {c : CodePoint} {d : Nat} {g : Text} {ds : List Nat} (digit : digitValue? c = some d)
      (more : Group g ds) : Group (c :: .char '_' :: g) (d :: ds)

/-- The digits before the exponent: before the point and, if there is one, after it. -/
inductive Mantissa : Text → List Nat → Option (List Nat) → Prop
  | whole {g : Text} {ds : List Nat} (before : Group g ds) : Mantissa g ds none
  | point {g : Text} {ds : List Nat} (before : Group g ds) :
      Mantissa (g ++ [.char '.']) ds (some [])
  | both {g f : Text} {ds es : List Nat} (before : Group g ds) (after : Group f es) :
      Mantissa (g ++ .char '.' :: f) ds (some es)
  | fraction {f : Text} {es : List Nat} (after : Group f es) :
      Mantissa (.char '.' :: f) [] (some es)

/-- An exponent that need not be there. -/
inductive Power : Text → Option (Bool × List Nat) → Prop
  | absent : Power [] none
  | present {mark : CodePoint} {s g : Text} {negative : Bool} {ds : List Nat}
      (isMark : mark = 'e' ∨ mark = 'E') (sign : Sign s negative) (digits : Group g ds) :
      Power (mark :: (s ++ g)) (some (negative, ds))

/-- A text that is written for a numeral. -/
inductive Spells : Text → Numeral → Prop
  | parts {s m e : Text} {negative : Bool} {whole : List Nat} {fraction : Option (List Nat)}
      {exponent : Option (Bool × List Nat)} (sign : Sign s negative)
      (mantissa : Mantissa m whole fraction) (power : Power e exponent) :
      Spells (s ++ (m ++ e)) ⟨negative, whole, fraction, exponent⟩

variable {t g rest : Text} {c : CodePoint} {d : Nat} {ds : List Nat} {n : Numeral}

/-! ## §2. Groups. -/

/-- What a group cannot go on with: the end, or what is neither a digit nor an underscore. -/
def EndsGroup (rest : Text) : Prop :=
  ∀ c ∈ rest.head?, digitValue? c = none ∧ c ≠ '_'

/-- Where no group goes on, no digit is read. -/
theorem moreDigits_of_endsGroup (h : EndsGroup rest) : moreDigits rest = ([], rest) := by
  cases rest with
  | nil => rfl
  | cons c rest =>
    obtain ⟨hd, hu⟩ := h c rfl
    rw [moreDigits]
    · rw [hd]
    · intro _ _ hc
      exact absurd hc hu

/-- A digit is read wherever it stands. -/
theorem moreDigits_digit (hd : digitValue? c = some d) (t : Text) :
    moreDigits (c :: t) = digitGroup (c :: t) := by
  rw [moreDigits, digitGroup, hd]
  -- an underscore is no digit
  intro _ _ hc
  have hnone : digitValue? (.char '_') = none := rfl
  rw [hc, hnone] at hd
  cases hd

/-- So is a digit after an underscore. -/
theorem moreDigits_underscore (hd : digitValue? c = some d) (t : Text) :
    moreDigits (.char '_' :: c :: t) = digitGroup (c :: t) := by
  rw [moreDigits, digitGroup, hd]

/-- A group begins with a digit. -/
theorem Group.exists_digit (h : Group g ds) :
    ∃ c d t, g = c :: t ∧ digitValue? c = some d := by
  cases h with
  | last digit => exact ⟨_, _, _, rfl, digit⟩
  | next digit _ => exact ⟨_, _, _, rfl, digit⟩
  | spaced digit _ => exact ⟨_, _, _, rfl, digit⟩

/-- The digits that go on a group are read as a group. -/
theorem Group.moreDigits_append (h : Group g ds) (rest : Text) :
    moreDigits (g ++ rest) = digitGroup (g ++ rest) ∧
      moreDigits (.char '_' :: g ++ rest) = digitGroup (g ++ rest) := by
  obtain ⟨c, d, t, rfl, hd⟩ := h.exists_digit
  exact ⟨moreDigits_digit hd _, moreDigits_underscore hd _⟩

/-- There is a digit in a group. -/
theorem Group.digits_ne_nil (h : Group g ds) : ds ≠ [] := by
  cases h <;> exact List.cons_ne_nil _ _

/-- **A GROUP IS READ TO ITS END**, and no further. -/
theorem digitGroup_append (h : Group g ds) (hr : EndsGroup rest) :
    digitGroup (g ++ rest) = (ds, rest) := by
  induction h with
  | last digit =>
    show digitGroup (_ :: rest) = _
    rw [digitGroup, digit, moreDigits_of_endsGroup hr]
  | next digit more ih =>
    show digitGroup (_ :: (_ ++ rest)) = _
    rw [digitGroup, digit, (more.moreDigits_append rest).1, ih]
  | spaced digit more ih =>
    show digitGroup (_ :: (.char '_' :: _ ++ rest)) = _
    rw [digitGroup, digit, (more.moreDigits_append rest).2, ih]

/-- A digit before what goes on a group makes a group of it. -/
theorem exists_group_cons {u : Text} (digit : digitValue? c = some d)
    (h : (ds = [] ∧ rest = u) ∨
      ∃ g, Group g ds ∧ (u = g ++ rest ∨ u = .char '_' :: g ++ rest)) :
    ∃ g, Group g (d :: ds) ∧ c :: u = g ++ rest := by
  rcases h with ⟨rfl, rfl⟩ | ⟨g, more, rfl | rfl⟩
  · exact ⟨[c], .last digit, rfl⟩
  · exact ⟨c :: g, .next digit more, rfl⟩
  · exact ⟨c :: .char '_' :: g, .spaced digit more, rfl⟩

/-- What is read after a digit goes on its group. -/
theorem exists_moreDigits (t : Text) :
    ((moreDigits t).1 = [] ∧ (moreDigits t).2 = t) ∨
      ∃ g, Group g (moreDigits t).1 ∧
        (t = g ++ (moreDigits t).2 ∨ t = .char '_' :: g ++ (moreDigits t).2) := by
  -- the cases of the reader: the end, a digit after an underscore or none, a digit or none
  induction t using moreDigits.induct with
  | case1 => exact .inl ⟨rfl, rfl⟩
  | case2 c rest d hd _ _ _ ih =>
    rw [moreDigits, hd]
    obtain ⟨g, hg, hu⟩ := exists_group_cons hd ih
    exact .inr ⟨g, hg, .inr (congrArg (CodePoint.char '_' :: ·) hu)⟩
  | case3 c rest hn =>
    rw [moreDigits, hn]
    exact .inl ⟨rfl, rfl⟩
  | case4 c rest hc d hd _ _ _ ih =>
    rw [moreDigits]
    · simp only [hd]
      obtain ⟨g, hg, hu⟩ := exists_group_cons hd ih
      exact .inr ⟨g, hg, .inl hu⟩
    · exact hc
  | case5 c rest hc hn =>
    rw [moreDigits]
    · rw [hn]
      exact .inl ⟨rfl, rfl⟩
    · exact hc

/-- What is read as a group is one, or nothing. -/
theorem exists_group (h : digitGroup t = (ds, rest)) :
    (ds = [] ∧ rest = t) ∨ ∃ g, Group g ds ∧ t = g ++ rest := by
  cases t with
  | nil =>
    cases h
    exact .inl ⟨rfl, rfl⟩
  | cons c t =>
    rw [digitGroup] at h
    cases hd : digitValue? c with
    | none =>
      rw [hd] at h
      cases h
      exact .inl ⟨rfl, rfl⟩
    | some d =>
      rw [hd] at h
      cases h
      exact .inr (exists_group_cons hd (exists_moreDigits t))

/-! ## §3. Signs, mantissas and powers. -/

/-- A text that begins with no sign. -/
def Unsigned (t : Text) : Prop := ∀ c ∈ t.head?, c ≠ '+' ∧ c ≠ '-'

/-- What is read as a sign is one. -/
theorem exists_sign {negative : Bool} (h : sign t = (negative, rest)) :
    ∃ s, Sign s negative ∧ t = s ++ rest := by
  unfold sign at h
  split at h
  · cases h
    exact ⟨_, .plus, rfl⟩
  · cases h
    exact ⟨_, .minus, rfl⟩
  · cases h
    exact ⟨_, .absent, rfl⟩

/-- A sign is read before what begins with none. -/
theorem sign_append {s : Text} {negative : Bool} (h : Sign s negative) (hr : Unsigned rest) :
    sign (s ++ rest) = (negative, rest) := by
  cases h with
  | plus => rfl
  | minus => rfl
  | absent =>
    show sign rest = (false, rest)
    unfold sign
    split
    · exact absurd rfl (hr _ rfl).1
    · exact absurd rfl (hr _ rfl).2
    · rfl

/-- A group begins with no sign. -/
theorem Group.unsigned (h : Group g ds) (rest : Text) : Unsigned (g ++ rest) := by
  obtain ⟨c, d, t, rfl, hd⟩ := h.exists_digit
  intro c' hc
  cases hc
  constructor <;> rintro rfl <;> cases hd

/-- Without a point nothing is read as a fraction. -/
theorem fractionPart_of_no_point (h : ∀ c ∈ t.head?, c ≠ '.') : fractionPart t = (none, t) := by
  unfold fractionPart
  split
  · exact absurd rfl (h _ rfl)
  · rfl

/-- What is read as a power is one. -/
theorem power_of_exponentPart? {e : Option (Bool × List Nat)} (h : exponentPart? t = some e) :
    Power t e := by
  unfold exponentPart? at h
  split at h
  · cases h
    exact .absent
  · rename_i c u
    split at h
    · -- a mark, a sign, and a group to the end
      rename_i isMark
      cases hs : sign u with
      | mk negative v =>
        obtain ⟨s, hsign, rfl⟩ := exists_sign hs
        rw [hs] at h
        simp only at h
        split at h
        · rename_i d ds hg
          cases h
          rcases exists_group hg with ⟨hnil, -⟩ | ⟨g, hgroup, rfl⟩
          · cases hnil
          · rw [List.append_nil]
            exact .present isMark hsign hgroup
        · cases h
    · cases h

/-- A power is read. -/
theorem Power.exponentPart? {e : Option (Bool × List Nat)} (h : Power t e) :
    Numeral.exponentPart? t = some e := by
  cases h with
  | absent => rfl
  | @present mark s g negative ds isMark sign digits =>
    have hs : Numeral.sign (s ++ g) = (negative, g) := by
      have hu := digits.unsigned []
      rw [List.append_nil] at hu
      exact sign_append sign hu
    have hg : digitGroup g = (ds, []) := by
      have hread : digitGroup (g ++ []) = (ds, []) := digitGroup_append digits fun c hc => nomatch hc
      rwa [List.append_nil] at hread
    obtain ⟨d, ds, rfl⟩ := List.exists_cons_of_ne_nil digits.digits_ne_nil
    rw [Numeral.exponentPart?, if_pos isMark, hs]
    simp only [hg]

/-- A power begins with neither a point nor anything that a group goes on with. -/
theorem Power.ends {e : Option (Bool × List Nat)} (h : Power t e) :
    EndsGroup t ∧ ∀ c ∈ t.head?, c ≠ '.' := by
  cases h with
  | absent => exact ⟨fun c hc => (nomatch hc), fun c hc => nomatch hc⟩
  | present isMark sign digits =>
    constructor
    · intro c hc
      cases hc
      rcases isMark with rfl | rfl <;> decide
    · intro c hc
      cases hc
      rcases isMark with rfl | rfl <;> decide

/-! ## §4. Mantissas. -/

/-- A point ends a group. -/
theorem endsGroup_point (t : Text) : EndsGroup (.char '.' :: t) := by
  intro c hc
  cases hc
  decide

/-- What is read as a fraction: nothing, or a point and the group after it. -/
theorem exists_fraction {fraction : Option (List Nat)}
    (h : fractionPart t = (fraction, rest)) :
    (fraction = none ∧ rest = t) ∨
      ∃ u es, t = .char '.' :: u ∧ digitGroup u = (es, rest) ∧ fraction = some es := by
  unfold fractionPart at h
  split at h
  · rename_i u
    cases hg : digitGroup u with
    | mk es last =>
      rw [hg] at h
      cases h
      exact .inr ⟨u, es, rfl, hg, rfl⟩
  · cases h
    exact .inl ⟨rfl, rfl⟩

/-- A mantissa is read before what cannot go on with it. -/
theorem Mantissa.reads {m : Text} {whole : List Nat} {fraction : Option (List Nat)}
    (h : Mantissa m whole fraction) (hr : EndsGroup rest) (hp : ∀ c ∈ rest.head?, c ≠ '.') :
    ∃ u, digitGroup (m ++ rest) = (whole, u) ∧ fractionPart u = (fraction, rest) ∧
      ¬ (whole = [] ∧ fraction.getD [] = []) := by
  cases h with
  | whole before =>
    exact ⟨rest, digitGroup_append before hr, fractionPart_of_no_point hp,
      fun h => before.digits_ne_nil h.1⟩
  | @point g _ before =>
    have hnone : digitGroup rest = ([], rest) := by
      cases rest with
      | nil => rfl
      | cons c rest => rw [digitGroup, (hr c rfl).1]
    refine ⟨.char '.' :: rest, ?_, ?_, fun h => before.digits_ne_nil h.1⟩
    · rw [List.append_assoc]
      exact digitGroup_append before (endsGroup_point rest)
    · rw [fractionPart, hnone]
  | @both g f _ es before after =>
    refine ⟨.char '.' :: (f ++ rest), ?_, ?_, fun h => before.digits_ne_nil h.1⟩
    · rw [List.append_assoc]
      exact digitGroup_append before (endsGroup_point (f ++ rest))
    · rw [fractionPart, digitGroup_append after hr]
  | @fraction f es after =>
    refine ⟨.char '.' :: (f ++ rest), rfl, ?_, fun h => after.digits_ne_nil h.2⟩
    rw [fractionPart, digitGroup_append after hr]

/-- What is read as a mantissa is one. -/
theorem exists_mantissa {u : Text} {whole : List Nat} {fraction : Option (List Nat)}
    (before : digitGroup t = (whole, u)) (after : fractionPart u = (fraction, rest))
    (digits : ¬ (whole = [] ∧ fraction.getD [] = [])) :
    ∃ m, Mantissa m whole fraction ∧ t = m ++ rest := by
  rcases exists_fraction after with ⟨rfl, rfl⟩ | ⟨v, es, rfl, hes, rfl⟩
  · rcases exists_group before with ⟨rfl, -⟩ | ⟨g, hg, rfl⟩
    · exact absurd ⟨rfl, rfl⟩ digits
    · exact ⟨g, .whole hg, rfl⟩
  · rcases exists_group before with ⟨rfl, rfl⟩ | ⟨g, hg, rfl⟩
    · rcases exists_group hes with ⟨rfl, -⟩ | ⟨f, hf, rfl⟩
      · exact absurd ⟨rfl, rfl⟩ digits
      · exact ⟨_, .fraction hf, rfl⟩
    · rcases exists_group hes with ⟨rfl, rfl⟩ | ⟨f, hf, rfl⟩
      · exact ⟨_, .point hg, by rw [List.append_assoc]; rfl⟩
      · exact ⟨_, .both hg hf, by rw [List.append_assoc]; rfl⟩

/-- A mantissa begins with no sign. -/
theorem Mantissa.unsigned {m : Text} {whole : List Nat} {fraction : Option (List Nat)}
    (h : Mantissa m whole fraction) (rest : Text) : Unsigned (m ++ rest) := by
  cases h with
  | whole before => exact before.unsigned rest
  | point before =>
    rw [List.append_assoc]
    exact before.unsigned _
  | both before after =>
    rw [List.append_assoc]
    exact before.unsigned _
  | fraction after =>
    intro c hc
    cases hc
    decide

/-! ## §5. Numerals. -/

/-- A text that is read as a numeral spells it. -/
theorem spells_of_ofText? (h : ofText? t = some n) : Spells t n := by
  unfold ofText? at h
  cases hs : sign t with
  | mk negative u =>
    cases hg : digitGroup u with
    | mk whole v =>
      cases hf : fractionPart v with
      | mk fraction w =>
        simp only [hs, hg, hf] at h
        split at h
        · cases h
        · rename_i digits
          obtain ⟨exponent, he, rfl⟩ := Option.map_eq_some_iff.1 h
          obtain ⟨s, hsign, rfl⟩ := exists_sign hs
          obtain ⟨m, hm, rfl⟩ := exists_mantissa hg hf digits
          exact .parts hsign hm (power_of_exponentPart? he)

/-- A text that spells a numeral is read as it. -/
theorem Spells.ofText? (h : Spells t n) : Numeral.ofText? t = some n := by
  cases h with
  | @parts s m e negative whole fraction exponent sign mantissa power =>
    obtain ⟨u, hg, hf, digits⟩ := mantissa.reads power.ends.1 power.ends.2
    have hs := sign_append sign (mantissa.unsigned e)
    simp only [Numeral.ofText?, hs, hg, hf, if_neg digits, power.exponentPart?, Option.map_some]

/-- **A NUMERAL IS READ EXACTLY WHERE IT IS WRITTEN.** -/
theorem ofText?_eq_some_iff : ofText? t = some n ↔ Spells t n :=
  ⟨spells_of_ofText?, Spells.ofText?⟩

/-! ## §6. The regular language. -/

section Languages

open Computability

/-- One of some characters. -/
def oneOf (marks : List CodePoint) : Language CodePoint := {t | ∃ c ∈ marks, t = [c]}

/-- What need not be there. -/
def maybe (l : Language CodePoint) : Language CodePoint := 1 + l

/-- One digit. -/
def digitTexts : Language CodePoint := {t | ∃ c d, digitValue? c = some d ∧ t = [c]}

/-- Groups: D(_?D)*. -/
def groupTexts : Language CodePoint := digitTexts * (maybe (oneOf ['_']) * digitTexts)∗

/-- Mantissas: G(.(G)?)? and .G. -/
def mantissaTexts : Language CodePoint :=
  groupTexts * maybe (oneOf ['.'] * maybe groupTexts) + oneOf ['.'] * groupTexts

/-- Signs. -/
def signTexts : Language CodePoint := oneOf ['+', '-']

/-- Powers: an e or E, a sign that need not be there, and a group. -/
def powerTexts : Language CodePoint := oneOf ['e', 'E'] * (maybe signTexts * groupTexts)

/-- Numerals. -/
def numeralTexts : Language CodePoint := maybe signTexts * (mantissaTexts * maybe powerTexts)

/-- What need not be there is empty or there. -/
theorem mem_maybe_iff {l : Language CodePoint} : t ∈ maybe l ↔ t = [] ∨ t ∈ l := Iff.rfl

/-- A group is in its language. -/
theorem Group.mem_groupTexts (h : Group g ds) : g ∈ groupTexts := by
  have cons {l : Language CodePoint} {a b : Text} (ha : a ∈ l) (hb : b ∈ l∗) : a ++ b ∈ l∗ :=
    mul_kstar_le_kstar (a := l) (Language.append_mem_mul ha hb)
  induction h with
  | @last c d digit =>
    exact Language.mem_mul.2 ⟨[c], ⟨c, d, digit, rfl⟩, [], Language.nil_mem_kstar _, rfl⟩
  | @next c d g ds digit more ih =>
    obtain ⟨a, ha, b, hb, rfl⟩ := Language.mem_mul.1 ih
    have hone : [] ++ a ∈ maybe (oneOf ['_']) * digitTexts :=
      Language.append_mem_mul (.inl rfl) ha
    exact Language.mem_mul.2 ⟨[c], ⟨c, d, digit, rfl⟩, a ++ b, cons hone hb, rfl⟩
  | @spaced c d g ds digit more ih =>
    obtain ⟨a, ha, b, hb, rfl⟩ := Language.mem_mul.1 ih
    have hone : [.char '_'] ++ a ∈ maybe (oneOf ['_']) * digitTexts :=
      Language.append_mem_mul (.inr ⟨_, by simp, rfl⟩) ha
    exact Language.mem_mul.2 ⟨[c], ⟨c, d, digit, rfl⟩, .char '_' :: (a ++ b), cons hone hb, rfl⟩

/-- What is in the language of groups is one. -/
theorem exists_group_of_mem (h : g ∈ groupTexts) : ∃ ds, Group g ds := by
  obtain ⟨a, ⟨c, d, digit, rfl⟩, b, hb, rfl⟩ := Language.mem_mul.1 h
  obtain ⟨pieces, rfl, hpieces⟩ := Language.mem_kstar.1 hb
  clear h hb
  -- on the further digits, each with what stands before it
  induction pieces generalizing c d with
  | nil => exact ⟨[d], .last digit⟩
  | cons piece pieces ih =>
    have hpiece := hpieces piece List.mem_cons_self
    obtain ⟨u, hu, v, ⟨c', d', digit', rfl⟩, rfl⟩ := Language.mem_mul.1 hpiece
    obtain ⟨ds, more⟩ := ih c' d' digit' fun y hy => hpieces y (List.mem_cons_of_mem _ hy)
    rcases hu with rfl | ⟨mark, hmark, rfl⟩
    · exact ⟨d :: ds, .next digit more⟩
    · obtain rfl := List.mem_singleton.1 hmark
      exact ⟨d :: ds, .spaced digit more⟩

/-- The language of groups. -/
theorem mem_groupTexts_iff : g ∈ groupTexts ↔ ∃ ds, Group g ds :=
  ⟨exists_group_of_mem, fun ⟨_, h⟩ => h.mem_groupTexts⟩

/-- The language of signs. -/
theorem mem_signTexts_iff {s : Text} : s ∈ maybe signTexts ↔ ∃ negative, Sign s negative := by
  constructor
  · rintro (rfl | ⟨c, hc, rfl⟩)
    · exact ⟨false, .absent⟩
    · rcases List.mem_cons.1 hc with rfl | hc
      · exact ⟨false, .plus⟩
      · obtain rfl := List.mem_singleton.1 hc
        exact ⟨true, .minus⟩
  · rintro ⟨negative, h⟩
    cases h with
    | absent => exact .inl rfl
    | plus => exact .inr ⟨_, by simp, rfl⟩
    | minus => exact .inr ⟨_, by simp, rfl⟩

/-- The language of mantissas. -/
theorem mem_mantissaTexts_iff {m : Text} :
    m ∈ mantissaTexts ↔ ∃ whole fraction, Mantissa m whole fraction := by
  constructor
  · rintro (h | h)
    · obtain ⟨g, hg, u, hu, rfl⟩ := Language.mem_mul.1 h
      obtain ⟨ds, before⟩ := mem_groupTexts_iff.1 hg
      rcases hu with rfl | hu
      · rw [List.append_nil]
        exact ⟨ds, none, .whole before⟩
      · obtain ⟨p, ⟨c, hc, rfl⟩, f, hf, rfl⟩ := Language.mem_mul.1 hu
        obtain rfl := List.mem_singleton.1 hc
        rcases hf with rfl | hf
        · exact ⟨ds, some [], .point before⟩
        · obtain ⟨es, after⟩ := mem_groupTexts_iff.1 hf
          exact ⟨ds, some es, .both before after⟩
    · obtain ⟨p, ⟨c, hc, rfl⟩, f, hf, rfl⟩ := Language.mem_mul.1 h
      obtain rfl := List.mem_singleton.1 hc
      obtain ⟨es, after⟩ := mem_groupTexts_iff.1 hf
      exact ⟨[], some es, .fraction after⟩
  · rintro ⟨whole, fraction, h⟩
    have hpoint : [.char '.'] ∈ oneOf ['.'] := ⟨_, by simp, rfl⟩
    cases h with
    | whole before =>
      refine .inl (Language.mem_mul.2 ⟨m, before.mem_groupTexts, [], .inl rfl, ?_⟩)
      rw [List.append_nil]
    | point before =>
      have hrest : [.char '.'] ++ [] ∈ oneOf ['.'] * maybe groupTexts :=
        Language.append_mem_mul hpoint (.inl rfl)
      exact .inl (Language.append_mem_mul before.mem_groupTexts (.inr hrest))
    | both before after =>
      have hrest := Language.append_mem_mul hpoint (mem_maybe_iff.2 (.inr after.mem_groupTexts))
      exact .inl (Language.append_mem_mul before.mem_groupTexts (.inr hrest))
    | fraction after =>
      exact .inr (Language.append_mem_mul hpoint after.mem_groupTexts)

/-- The language of powers. -/
theorem mem_powerTexts_iff {e : Text} : e ∈ maybe powerTexts ↔ ∃ exponent, Power e exponent := by
  constructor
  · rintro (rfl | h)
    · exact ⟨none, .absent⟩
    · obtain ⟨m, ⟨mark, hmark, rfl⟩, u, hu, rfl⟩ := Language.mem_mul.1 h
      obtain ⟨s, hs, g, hg, rfl⟩ := Language.mem_mul.1 hu
      obtain ⟨negative, sign⟩ := mem_signTexts_iff.1 hs
      obtain ⟨ds, digits⟩ := mem_groupTexts_iff.1 hg
      have isMark : mark = 'e' ∨ mark = 'E' := by simpa using hmark
      have power : Power (mark :: (s ++ g)) (some (negative, ds)) := .present isMark sign digits
      exact ⟨some (negative, ds), power⟩
  · rintro ⟨exponent, h⟩
    cases h with
    | absent => exact .inl rfl
    | @present mark s g negative ds isMark sign digits =>
      have hmark : [mark] ∈ oneOf ['e', 'E'] := ⟨mark, by simpa using isMark, rfl⟩
      have hsign := mem_signTexts_iff.2 ⟨negative, sign⟩
      have hrest := Language.append_mem_mul hsign digits.mem_groupTexts
      exact .inr (Language.append_mem_mul hmark hrest)

/-- **THE TEXTS THAT SPELL A NUMERAL** are a regular language. -/
theorem mem_numeralTexts_iff : t ∈ numeralTexts ↔ ∃ n, Spells t n := by
  constructor
  · intro h
    obtain ⟨s, hs, u, hu, rfl⟩ := Language.mem_mul.1 h
    obtain ⟨m, hm, e, he, rfl⟩ := Language.mem_mul.1 hu
    obtain ⟨negative, sign⟩ := mem_signTexts_iff.1 hs
    obtain ⟨whole, fraction, mantissa⟩ := mem_mantissaTexts_iff.1 hm
    obtain ⟨exponent, power⟩ := mem_powerTexts_iff.1 he
    exact ⟨⟨negative, whole, fraction, exponent⟩, .parts sign mantissa power⟩
  · rintro ⟨n, h⟩
    cases h with
    | parts sign mantissa power =>
      have hm := mem_mantissaTexts_iff.2 ⟨_, _, mantissa⟩
      have he := mem_powerTexts_iff.2 ⟨_, power⟩
      exact Language.append_mem_mul (mem_signTexts_iff.2 ⟨_, sign⟩) (Language.append_mem_mul hm he)

end Languages

/-! ## §7. The number. -/

/-- What digits are worth is their value in base ten. -/
theorem natOfDigits_eq_ofDigits (ds : List Nat) : natOfDigits ds = Nat.ofDigits 10 ds.reverse := by
  induction ds using List.reverseRecOn with
  | nil => rfl
  | append_singleton ds d ih =>
    rw [natOfDigits_append_singleton, ih, List.reverse_concat, Nat.ofDigits_cons]
    omega

/-- A sign and an absolute value make up the number. -/
theorem signed_eq (negative : Bool) (k : Nat) :
    signed negative k = (if negative then -1 else 1) * (k : Int) := by
  cases negative
  · exact (Int.one_mul k).symm
  · exact Int.neg_eq_neg_one_mul k

/-- A numeral is an integer when it has neither a point nor a power, and few digits. -/
theorem value?_eq_int_iff {i : Int} :
    n.value? = some (.int i) ↔ n.fraction = none ∧ n.exponent = none ∧
      n.whole.length ≤ digitLimit ∧ i = signed n.negative (natOfDigits n.whole) := by
  obtain ⟨negative, whole, fraction, exponent⟩ := n
  cases fraction <;> cases exponent <;> simp [value?, isFractional, eq_comm]

/-- A numeral is a double when it has a point or a power. -/
theorem value?_eq_float_iff :
    (∃ x, n.value? = some (.float x)) ↔ n.fraction ≠ none ∨ n.exponent ≠ none := by
  obtain ⟨negative, whole, fraction, exponent⟩ := n
  cases fraction <;> cases exponent <;> simp [value?, isFractional]

end Numeral

open Numeral

/-- A text that is written for an integer: an optional sign and a group of few digits, the
integer being the sign times what the digits are worth in base ten. -/
def WritesInt (t : Text) (i : Int) : Prop :=
  ∃ s g negative ds, t = s ++ g ∧ Sign s negative ∧ Group g ds ∧ ds.length ≤ digitLimit ∧
    i = (if negative then -1 else 1) * ((Nat.ofDigits 10 ds.reverse : Nat) : Int)

/-- A text that is written for a double: a numeral with a point or a power. -/
def WritesDouble (t : Text) : Prop :=
  ∃ n, Spells t n ∧ (n.fraction ≠ none ∨ n.exponent ≠ none)

variable {t : Text} {v : Value}

/-- A text that is read as something else than itself spells a numeral of this value. -/
theorem bareValue_eq_iff (hv : ∀ s, v ≠ .str s) :
    bareValue t = v ↔ ∃ n, Spells t n ∧ n.value? = some v := by
  unfold bareValue
  constructor
  · intro h
    cases hb : (ofText? t).bind Numeral.value? with
    | none =>
      rw [hb] at h
      exact absurd h.symm (hv t)
    | some u =>
      rw [hb] at h
      cases h
      obtain ⟨n, hn, hu⟩ := Option.bind_eq_some_iff.1 hb
      exact ⟨n, ofText?_eq_some_iff.1 hn, hu⟩
  · rintro ⟨n, hn, hu⟩
    rw [hn.ofText?, Option.bind_some, hu]
    rfl

/-- Integers are read exactly where they are written. -/
theorem bareValue_eq_int_iff {i : Int} : bareValue t = .int i ↔ WritesInt t i := by
  have hint : ∀ s, Value.int i ≠ .str s := fun s h => nomatch h
  rw [bareValue_eq_iff hint]
  constructor
  · rintro ⟨n, hn, hv⟩
    obtain ⟨hf, he, few, rfl⟩ := value?_eq_int_iff.1 hv
    cases hn with
    | @parts s m e negative whole fraction exponent sign mantissa power =>
      -- what has neither a point nor a power is a group
      cases hf
      cases he
      cases mantissa with
      | whole before =>
        cases power with
        | absent =>
          refine ⟨s, m, negative, whole, by rw [List.append_nil], sign, before, few, ?_⟩
          rw [signed_eq, natOfDigits_eq_ofDigits]
  · rintro ⟨s, g, negative, ds, rfl, sign, group, few, rfl⟩
    have hn : Spells (s ++ (g ++ [])) ⟨negative, ds, none, none⟩ :=
      .parts sign (.whole group) .absent
    rw [List.append_nil] at hn
    refine ⟨_, hn, value?_eq_int_iff.2 ⟨rfl, rfl, few, ?_⟩⟩
    rw [signed_eq, natOfDigits_eq_ofDigits]

/-- Doubles are read exactly where they are written. -/
theorem exists_bareValue_eq_float_iff : (∃ x, bareValue t = .float x) ↔ WritesDouble t := by
  have hfloat (x : Binary64) : bareValue t = .float x ↔ ∃ n, Spells t n ∧ n.value? = some (.float x) :=
    bareValue_eq_iff fun s h => nomatch h
  constructor
  · rintro ⟨x, hx⟩
    obtain ⟨n, hn, hv⟩ := (hfloat x).1 hx
    exact ⟨n, hn, value?_eq_float_iff.1 ⟨x, hv⟩⟩
  · rintro ⟨n, hn, hmarked⟩
    obtain ⟨x, hv⟩ := value?_eq_float_iff.2 hmarked
    exact ⟨x, (hfloat x).2 ⟨n, hn, hv⟩⟩

/-- All other texts stay texts. -/
theorem bareValue_eq_str_iff : bareValue t = .str t ↔ (∀ i, ¬ WritesInt t i) ∧ ¬ WritesDouble t := by
  rw [← exists_bareValue_eq_float_iff]
  simp only [← bareValue_eq_int_iff]
  constructor
  · intro h
    rw [h]
    exact ⟨fun i hi => (nomatch hi), fun ⟨x, hx⟩ => nomatch hx⟩
  · rintro ⟨hint, hfloat⟩
    rcases bareValue_cases t with ⟨_, _, _, hx⟩ | ⟨i, hi, -⟩ | h
    · exact absurd ⟨_, hx⟩ hfloat
    · exact absurd hi (hint i)
    · exact h

/-- The text of an integer that is not too long is read as the integer. -/
theorem int_reads_back {i : Int} (few : i.natAbs < 10 ^ digitLimit) :
    ∃ s, (Value.int i).plain? = some s ∧ value? s = some (.int i) := by
  have hs : (Value.int i).plain? = intText? i := rfl
  rw [hs, intText?_of_short few]
  exact ⟨ofInt i, rfl, (Literal.reads_int few).value⟩

/-- **BARE TEXTS ARE READ BY THE GRAMMAR OF NUMERALS.**  A text is an integer exactly when it is
an optional sign and a group of few digits, and then it is the sign times what they are worth; it
is a double exactly when it is a numeral with a point or a power; every other text stays the text
it is.  What is read as a numeral are the words of a regular language.  The text of an integer that
is not too long is read as this integer. -/
theorem bareValue_eq_grammar (t : Text) :
    (∀ i, bareValue t = .int i ↔ WritesInt t i) ∧
    ((∃ x, bareValue t = .float x) ↔ WritesDouble t) ∧
    (bareValue t = .str t ↔ (∀ i, ¬ WritesInt t i) ∧ ¬ WritesDouble t) ∧
    ((∃ n, ofText? t = some n) ↔ t ∈ numeralTexts) ∧
    ∀ i : Int, i.natAbs < 10 ^ digitLimit →
      ∃ s, (Value.int i).plain? = some s ∧ value? s = some (.int i) := by
  have words : (∃ n, ofText? t = some n) ↔ t ∈ numeralTexts := by
    rw [mem_numeralTexts_iff]
    simp only [ofText?_eq_some_iff]
  exact ⟨fun i => bareValue_eq_int_iff, exists_bareValue_eq_float_iff, bareValue_eq_str_iff,
    words, fun i few => int_reads_back few⟩

/-- Thirteen below zero, its last digit of another script. -/
def spacedThirteen : Text := "-1_٣"

/-- A group, a point and a power. -/
def pointedDouble : Text := "5.e+1_0"

/-- Two underscores in a row. -/
def twiceSpaced : Text := "1__0"

/-- The first two are read as what they are written for, the third is left a text; the text of a
number is read as the number. -/
theorem bareValue_eq_grammar_spaced :
    WritesInt spacedThirteen (-13) ∧ bareValue spacedThirteen = .int (-13) ∧
      (∃ x, bareValue pointedDouble = .float x) ∧
      ((∀ i, ¬ WritesInt twiceSpaced i) ∧ ¬ WritesDouble twiceSpaced) ∧
      twiceSpaced ∉ numeralTexts ∧ (42 : Int).natAbs < 10 ^ digitLimit ∧
      ∃ s, (Value.int 42).plain? = some s ∧ value? s = some (.int 42) := by
  have few : (42 : Int).natAbs < 10 ^ digitLimit :=
    Nat.lt_of_lt_of_le (show 42 < 10 ^ 2 by decide) (Nat.pow_le_pow_right (by decide) (by decide))
  have written : WritesInt spacedThirteen (-13) :=
    ⟨_, _, true, [1, 3], rfl, .minus, .spaced rfl (.last rfl), by decide, by decide⟩
  have marked : WritesDouble pointedDouble :=
    ⟨_, .parts .absent (.point (.last rfl)) (.present (.inl rfl) .plus (.spaced rfl (.last rfl))),
      .inl (by simp)⟩
  obtain ⟨int, -, -, -, text⟩ := bareValue_eq_grammar spacedThirteen
  obtain ⟨-, double, -, -, -⟩ := bareValue_eq_grammar pointedDouble
  obtain ⟨-, -, plain, word, -⟩ := bareValue_eq_grammar twiceSpaced
  refine ⟨written, (int (-13)).2 written, double.2 marked, plain.1 (by decide), ?_, few,
    text 42 few⟩
  intro h
  obtain ⟨n, hn⟩ := word.2 h
  have hread : ofText? twiceSpaced = none := by decide
  rw [hread] at hn
  cases hn

end Cascade.Dotenv
