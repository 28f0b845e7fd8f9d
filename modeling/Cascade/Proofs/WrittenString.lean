/-
  Cascade.Proofs.WrittenString
  ────────────────────────────────
  **A STRING READS BACK FROM A JSON DOCUMENT.**

  Each character is spelled in one of four ways, and each of them is read as
  the character it stands for.  There is one exception: the first half of a
  pair directly before a second one is read together with it, as the
  character of the pair.  A text without such a place is `Unpaired`.

      spelled_writtenChar   — how a character is spelled
      stringFrom_append     — a spelling is read as its character
      stringAt_written      — a string is read as its text
-/
import Mathlib.Data.List.Chain
import Cascade.Json.Reader
import Cascade.Json.Writer

namespace Cascade.Json

open Cascade.Text

/-! ## §1. Hexadecimal units. -/

/-- A hexadecimal digit has its value. -/
theorem hexValue?_hexDigit (n : Nat) : hexValue? (hexDigit n) = some (n % 16) := by
  have hlt : n % 16 < 16 := Nat.mod_lt _ (by omega)
  have hall : ∀ d : Fin 16, hexValue? (hexDigit d.val) = some d.val := by decide +kernel
  have hmod : hexDigit n = hexDigit (n % 16) := by
    unfold hexDigit
    rw [Nat.mod_mod]
  rw [hmod]
  exact hall ⟨n % 16, hlt⟩

/-- A hexadecimal digit is printable. -/
theorem printable_hexDigit (n : Nat) : 32 ≤ (hexDigit n).toNat ∧ (hexDigit n).toNat < 127 := by
  have hd : n % 16 < 16 := Nat.mod_lt _ (by omega)
  unfold hexDigit
  by_cases h : n % 16 < 10
  · simp only [if_pos h, CodePoint.toNat_ofNat (show 48 + n % 16 < 0x110000 by omega)]
    omega
  · simp only [if_neg h, CodePoint.toNat_ofNat (show 87 + n % 16 < 0x110000 by omega)]
    omega

/-- The characters of an escaped unit are printable. -/
theorem printable_escapedUnit (n : Nat) :
    ∀ x ∈ escapedUnit n, 32 ≤ x.toNat ∧ x.toNat < 127 := by
  show ∀ x ∈ [.char '\\', .char 'u', hexDigit (n / 16 / 16 / 16), hexDigit (n / 16 / 16),
    hexDigit (n / 16), hexDigit n], 32 ≤ x.toNat ∧ x.toNat < 127
  simp only [List.forall_mem_cons]
  exact ⟨by decide, by decide, printable_hexDigit _, printable_hexDigit _, printable_hexDigit _,
    printable_hexDigit _, fun x hx => by cases hx⟩

/-- A unit is read as its number when something follows. -/
theorem hexUnit?_hex {n : Nat} (h : n < 0x10000) {more : Text} (hm : more ≠ []) :
    hexUnit? (hex 4 n ++ more) = some n := by
  obtain ⟨c, rest, rfl⟩ := List.exists_cons_of_ne_nil hm
  show hexUnit? (hexDigit (n / 16 / 16 / 16) :: hexDigit (n / 16 / 16) :: hexDigit (n / 16) ::
    hexDigit n :: c :: rest) = some n
  simp only [hexUnit?, hexValue?_hexDigit, Option.bind_eq_bind, Option.bind_some]
  refine congrArg some ?_
  omega

/-! ## §2. Spellings. -/

/-- The spellings of a character inside a string. -/
inductive Spelled (c : CodePoint) : Text → Prop
  | letter {e : CodePoint} (stands : escapedChar? e = some c) : Spelled c [.char '\\', e]
  | plain (noQuote : c ≠ .char '"') (noBackslash : c ≠ .char '\\') (printable : 32 ≤ c.toNat)
      (ascii : c.toNat < 127) : Spelled c [c]
  | unit (small : c.toNat < 0x10000) : Spelled c (escapedUnit c.toNat)
  | pair {high low : Nat} (isHigh : isHighHalf high = true) (isLow : isLowHalf low = true)
      (both : ofPair high low = c) : Spelled c (escapedUnit high ++ escapedUnit low)

/-- A character is written in one of its spellings. -/
theorem spelled_writtenChar (c : CodePoint) : Spelled c (writtenChar c) := by
  have hletter {e : Char} {d : CodePoint} (hd : c = d) (he : escapedChar? (.char e) = some d) :
      Spelled c [.char '\\', .char e] := .letter (hd ▸ he)
  unfold writtenChar
  by_cases hq : c = .char '"' ∨ c = .char '\\'
  · rw [if_pos hq]
    rcases hq with rfl | rfl <;> exact .letter rfl
  rw [if_neg hq, not_or] at *
  by_cases h1 : c = .char '\n'
  · rw [if_pos h1]
    exact hletter h1 rfl
  by_cases h2 : c = .char '\r'
  · rw [if_neg h1, if_pos h2]
    exact hletter h2 rfl
  by_cases h3 : c = .char '\t'
  · rw [if_neg h1, if_neg h2, if_pos h3]
    exact hletter h3 rfl
  by_cases h4 : c = .char '\x0c'
  · rw [if_neg h1, if_neg h2, if_neg h3, if_pos h4]
    exact hletter h4 rfl
  by_cases h5 : c = .char '\x08'
  · rw [if_neg h1, if_neg h2, if_neg h3, if_neg h4, if_pos h5]
    exact hletter h5 rfl
  rw [if_neg h1, if_neg h2, if_neg h3, if_neg h4, if_neg h5]
  by_cases hp : 32 ≤ c.toNat ∧ c.toNat < 127
  · rw [if_pos hp]
    exact .plain hq.1 hq.2 hp.1 hp.2
  rw [if_neg hp]
  by_cases hs : c.toNat < 0x10000
  · rw [if_pos hs]
    exact .unit hs
  · -- beyond the units a character is a pair of them
    have hc := CodePoint.toNat_lt c
    rw [if_neg hs]
    refine .pair ?_ ?_ ?_
    · simp only [isHighHalf, Bool.and_eq_true, decide_eq_true_eq]
      omega
    · simp only [isLowHalf, Bool.and_eq_true, decide_eq_true_eq]
      omega
    · have hn : 0x10000 + (0xD800 + (c.toNat - 0x10000) / 0x400 - 0xD800) * 0x400 +
          (0xDC00 + (c.toNat - 0x10000) % 0x400 - 0xDC00) = c.toNat := by omega
      rw [ofPair, hn, CodePoint.ofNat_toNat]

/-- The characters of a spelling are printable. -/
theorem Spelled.printable {c : CodePoint} {s : Text} (h : Spelled c s) :
    ∀ x ∈ s, 32 ≤ x.toNat ∧ x.toNat < 127 := by
  cases h with
  | @letter e stands =>
    simp only [List.forall_mem_cons]
    refine ⟨by decide, ?_, fun x hx => by cases hx⟩
    unfold escapedChar? at stands
    split at stands <;> first | decide | cases stands
  | plain noQuote noBackslash printable ascii =>
    intro x hx
    rw [List.mem_singleton.1 hx]
    exact ⟨printable, ascii⟩
  | unit small => exact printable_escapedUnit _
  | pair isHigh isLow both =>
    intro x hx
    exact (List.mem_append.1 hx).elim (printable_escapedUnit _ x) (printable_escapedUnit _ x)

/-! ## §3. Reading a spelling. -/

/-- What may follow a character: after the first half of a pair, no second one. -/
def MayFollow (c : CodePoint) (more : Text) : Prop :=
  isHighHalf c.toNat = true → unitFollows more = true →
    ∃ low, hexUnit? (more.drop 2) = some low ∧ isLowHalf low = false

/-- Characters that are skipped have been read. -/
theorem stringFrom_skip (opened s more : Text) :
    stringFrom opened s.length (s ++ more) = stringFrom opened 0 more := by
  induction s with
  | nil => rfl
  | cons c s ih => exact ih

/-- A character before what a string goes on with. -/
def consTo (c : CodePoint) (r : Except Fault (Text × Text)) : Except Fault (Text × Text) :=
  r.map fun r => (c :: r.1, r.2)

/-- An escape is read as the character it stands for. -/
theorem stringFrom_escape {opened s more : Text} {c : CodePoint}
    (h : escapeAt (s ++ more) = .ok (c, s.length)) (hs : s ≠ []) :
    stringFrom opened 0 (.char '\\' :: (s ++ more)) = consTo c (stringFrom opened 0 more) := by
  have hne : s ++ more ≠ [] := by simp [hs]
  rw [stringFrom, if_neg (by decide), if_pos rfl, if_neg hne, h]
  show (stringFrom opened s.length (s ++ more) >>= fun r => pure (c :: r.1, r.2)) = _
  rw [stringFrom_skip]
  cases stringFrom opened 0 more <;> rfl

/-- **A SPELLING IS READ AS ITS CHARACTER**, before anything that may follow it. -/
theorem stringFrom_append {opened s more : Text} {c : CodePoint} (h : Spelled c s)
    (hm : more ≠ []) (hf : MayFollow c more) :
    stringFrom opened 0 (s ++ more) = consTo c (stringFrom opened 0 more) := by
  cases h with
  | @letter e stands =>
    have hat : escapeAt ([e] ++ more) = .ok (c, 1) := by
      unfold escapeAt
      split
      · -- no escape of one letter begins with the letter of a unit
        rename_i he
        rw [(List.cons.inj he).1] at stands
        cases stands
      · rename_i he
        rw [← (List.cons.inj he).1, stands]
      · rename_i he
        cases he
    exact stringFrom_escape hat (by simp)
  | plain noQuote noBackslash printable ascii =>
    show stringFrom opened 0 (c :: more) = _
    rw [stringFrom, if_neg noQuote, if_neg noBackslash, if_neg (by omega)]
    cases stringFrom opened 0 more <;> rfl
  | unit small =>
    have hhex := hexUnit?_hex small hm
    have hat : escapeAt (.char 'u' :: hex 4 c.toNat ++ more) = .ok (c, 5) := by
      show escapeAt (.char 'u' :: (hex 4 c.toNat ++ more)) = _
      have hdrop : (hex 4 c.toNat ++ more).drop 4 = more := rfl
      rw [escapeAt, hhex]
      simp only [hdrop]
      by_cases hpair : isHighHalf c.toNat = true ∧ unitFollows more = true
      · obtain ⟨low, hlow, hnot⟩ := hf hpair.1 hpair.2
        rw [if_pos hpair, hlow]
        simp only [hnot, Bool.false_eq_true, if_false, CodePoint.ofNat_toNat]
      · rw [if_neg hpair, CodePoint.ofNat_toNat]
    exact stringFrom_escape hat (by simp)
  | @pair high low isHigh isLow both =>
    have hhigh : high < 0x10000 := by
      simp only [isHighHalf, Bool.and_eq_true, decide_eq_true_eq] at isHigh
      omega
    have hlow : low < 0x10000 := by
      simp only [isLowHalf, Bool.and_eq_true, decide_eq_true_eq] at isLow
      omega
    have hat : escapeAt (.char 'u' :: hex 4 high ++ escapedUnit low ++ more) = .ok (c, 11) := by
      show escapeAt (.char 'u' :: (hex 4 high ++ (escapedUnit low ++ more))) = _
      have hdrop : (hex 4 high ++ (escapedUnit low ++ more)).drop 4 = escapedUnit low ++ more := rfl
      have hnext : (escapedUnit low ++ more).drop 2 = hex 4 low ++ more := rfl
      have hfollows : unitFollows (escapedUnit low ++ more) = true := by
        obtain ⟨x, rest, rfl⟩ := List.exists_cons_of_ne_nil hm
        rfl
      rw [escapeAt, hexUnit?_hex hhigh (by simp [escapedUnit])]
      simp only [hdrop]
      rw [if_pos ⟨isHigh, hfollows⟩, hnext, hexUnit?_hex hlow hm]
      simp only [isLow, if_true, both]
    exact stringFrom_escape hat (by simp)

/-! ## §4. Strings. -/

/-- A text in which no first half of a pair stands directly before a second one. -/
def Unpaired (t : Text) : Prop :=
  t.IsChain fun c d => ¬ (isHighHalf c.toNat = true ∧ isLowHalf d.toNat = true)

instance : DecidablePred Unpaired := fun t => by
  unfold Unpaired
  infer_instance

/-- What is written after a character may follow it, unless the two make a pair. -/
theorem mayFollow_written {c : CodePoint} {t rest : Text}
    (h : ∀ d ∈ t.head?, ¬ (isHighHalf c.toNat = true ∧ isLowHalf d.toNat = true)) :
    MayFollow c (t.flatMap writtenChar ++ .char '"' :: rest) := by
  intro hhigh hunit
  cases t with
  | nil => cases hunit
  | cons d t =>
    have hne : t.flatMap writtenChar ++ .char '"' :: rest ≠ [] := by simp
    have hd := spelled_writtenChar d
    rw [List.flatMap_cons, List.append_assoc] at hunit ⊢
    generalize writtenChar d = s at *
    generalize t.flatMap writtenChar ++ .char '"' :: rest = more at *
    cases hd with
    | @letter e stands =>
      -- the letter of a unit is no escape
      have he : e ≠ .char 'u' := fun he => by
        rw [he] at stands
        cases stands
      unfold unitFollows at hunit
      split at hunit
      · rename_i hs
        exact absurd (List.cons.inj (List.cons.inj hs).2).1 he
      · cases hunit
    | plain noQuote noBackslash printable ascii =>
      unfold unitFollows at hunit
      split at hunit
      · rename_i hs
        exact absurd (List.cons.inj hs).1 noBackslash
      · cases hunit
    | unit small =>
      refine ⟨d.toNat, hexUnit?_hex small hne, ?_⟩
      exact Bool.eq_false_iff.2 fun hlow => h d rfl ⟨hhigh, hlow⟩
    | @pair high low isHigh isLow both =>
      have hhigh' : high < 0xDC00 := by
        simp only [isHighHalf, Bool.and_eq_true, decide_eq_true_eq] at isHigh
        omega
      refine ⟨high, ?_, ?_⟩
      · show hexUnit? (hex 4 high ++ (escapedUnit low ++ more)) = some high
        exact hexUnit?_hex (by omega) (by simp [escapedUnit])
      · simp only [isLowHalf, Bool.and_eq_false_iff, decide_eq_false_iff_not]
        omega

/-- The characters of a string are read up to its closing quote. -/
theorem stringFrom_written (opened : Text) {t : Text} (h : Unpaired t) (rest : Text) :
    stringFrom opened 0 (t.flatMap writtenChar ++ .char '"' :: rest) = .ok (t, rest) := by
  induction t with
  | nil => simp [stringFrom]
  | cons c t ih =>
    have hf : MayFollow c (t.flatMap writtenChar ++ .char '"' :: rest) := by
      refine mayFollow_written fun d hd => ?_
      cases t with
      | nil => cases hd
      | cons e t =>
        cases hd
        exact (List.isChain_cons_cons.1 h).1
    have hrest := ih (List.IsChain.tail h)
    rw [List.flatMap_cons, List.append_assoc,
      stringFrom_append (spelled_writtenChar c) (by simp) hf, hrest]
    rfl

/-- **A STRING IS READ AS ITS TEXT.** -/
theorem stringAt_written {t : Text} (h : Unpaired t) (rest : Text) :
    stringAt (t.flatMap writtenChar ++ .char '"' :: rest) = .ok (t, rest) :=
  stringFrom_written _ h rest

/-- A string is written in printable characters. -/
theorem printable_writtenString (t : Text) :
    ∀ x ∈ writtenString t, 32 ≤ x.toNat ∧ x.toNat < 127 := by
  intro x hx
  simp only [writtenString, ofString, List.mem_append, List.mem_flatMap] at hx
  rcases hx with (hx | ⟨c, -, hx⟩) | hx
  · revert x
    decide
  · exact (spelled_writtenChar c).printable x hx
  · revert x
    decide

end Cascade.Json
