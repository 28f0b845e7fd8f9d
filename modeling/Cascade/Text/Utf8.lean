/-
  Cascade.Text.Utf8
  ────────────────────────────────
  **UTF-8, BYTE BY BYTE.**

  The first byte of a character says how many continuation bytes it is owed
  and the range of the next one; the range excludes overlong forms,
  surrogates and code points above U+10FFFF.  Decoding stops at the first
  byte that no character can have there, and the fault names the bytes of
  the character that was begun:

      invalidStart         — one byte that begins no character
      invalidContinuation  — the begun bytes, before the one that does not fit
      unexpectedEnd        — the begun bytes, up to the end of the input

  `decodeMarked` skips a leading byte order mark; positions then count from
  the byte after it.

  Halves of pairs have no bytes, so a text that holds one is not encoded.
  In names, which the system keeps as bytes, the halves U+DC80–U+DCFF stand
  for single bytes that belong to no character; so every name can be read.

      decode_of_encode   — the bytes of a text are read as this text
-/
import Cascade.Text.Basic

namespace Cascade.Text

/-- The bytes of a file. -/
abbrev Bytes := List UInt8

namespace Utf8

/-! ## §1. Faults. -/

/-- Why bytes are not UTF-8. -/
inductive Reason
  | invalidStart
  | invalidContinuation
  | unexpectedEnd
  deriving DecidableEq, Repr

/-- The wording of a reason. -/
def Reason.message : Reason → Text
  | .invalidStart => "invalid start byte"
  | .invalidContinuation => "invalid continuation byte"
  | .unexpectedEnd => "unexpected end of data"

/-- Bytes `start … stop - 1` are no character; `first` is the byte at `start`. -/
structure Fault where
  reason : Reason
  start : Nat
  stop : Nat
  first : UInt8
  deriving DecidableEq, Repr

/-- The wording of a fault: a single byte is shown, several are located. -/
def Fault.message (f : Fault) : Text :=
  "'utf-8' codec can't decode " ++
    (if f.stop = f.start + 1 then
      "byte 0x" ++ hex 2 f.first.toNat ++ " in position " ++ ofNat f.start
    else
      "bytes in position " ++ ofNat f.start ++ "-" ++ ofNat (f.stop - 1)) ++
    ": " ++ f.reason.message

/-! ## §2. Decoding. -/

/-- A character that was begun: where, with which byte, the continuation bytes still
owed, the least and greatest value of the next one, and the bits read so far. -/
structure Begun where
  start : Nat
  first : UInt8
  owed : Nat
  least : Nat
  greatest : Nat
  bits : Nat
  deriving DecidableEq, Repr

/-- What a byte between characters begins: a whole character, or one owed more bytes. -/
def begin? (position : Nat) (byte : UInt8) : Option (Char ⊕ Begun) :=
  let b := byte.toNat
  let owing (owed least greatest bits : Nat) : Option (Char ⊕ Begun) :=
    some (.inr ⟨position, byte, owed, least, greatest, bits⟩)
  if b < 0x80 then some (.inl (Char.ofNat b))
  -- continuation bytes, and the beginnings of overlong forms
  else if b < 0xC2 then none
  else if b < 0xE0 then owing 1 0x80 0xBF (b - 0xC0)
  else if b = 0xE0 then owing 2 0xA0 0xBF 0
  -- beyond 0x9F there are the surrogates
  else if b = 0xED then owing 2 0x80 0x9F 0xD
  else if b < 0xF0 then owing 2 0x80 0xBF (b - 0xE0)
  else if b = 0xF0 then owing 3 0x90 0xBF 0
  else if b < 0xF4 then owing 3 0x80 0xBF (b - 0xF0)
  -- beyond 0x8F there is what is above U+10FFFF
  else if b = 0xF4 then owing 3 0x80 0x8F 4
  else none

/-- What a byte makes of a begun character: the whole one, or one owed fewer bytes; none
when it does not fit. -/
def Begun.next? (k : Begun) (byte : UInt8) : Option (Char ⊕ Begun) :=
  let b := byte.toNat
  if k.least ≤ b ∧ b ≤ k.greatest then
    let bits := k.bits * 64 + (b - 0x80)
    if k.owed ≤ 1 then some (.inl (Char.ofNat bits))
    else some (.inr { k with owed := k.owed - 1, least := 0x80, greatest := 0xBF, bits })
  else none

/-- Decodes from `position` on, with the character begun there if there is one. -/
def decodeFrom (position : Nat) : Option Begun → Bytes → Except Fault Text
  | none, [] => .ok []
  | some k, [] => .error ⟨.unexpectedEnd, k.start, position, k.first⟩
  | none, byte :: rest =>
    match begin? position byte with
    | none => .error ⟨.invalidStart, position, position + 1, byte⟩
    | some (.inl c) => (decodeFrom (position + 1) none rest).map (.char c :: ·)
    | some (.inr k) => decodeFrom (position + 1) (some k) rest
  | some k, byte :: rest =>
    match k.next? byte with
    | none => .error ⟨.invalidContinuation, k.start, position, k.first⟩
    | some (.inl c) => (decodeFrom (position + 1) none rest).map (.char c :: ·)
    | some (.inr k) => decodeFrom (position + 1) (some k) rest

/-- The text of UTF-8 bytes. -/
def decode (bytes : Bytes) : Except Fault Text := decodeFrom 0 none bytes

/-- The text of UTF-8 bytes after an optional byte order mark.  Fewer than three bytes
that could begin a mark are read as nothing. -/
def decodeMarked : Bytes → Except Fault Text
  | [0xEF] => .ok []
  | [0xEF, 0xBB] => .ok []
  | 0xEF :: 0xBB :: 0xBF :: rest => decode rest
  | bytes => decode bytes

/-! ## §3. Encoding. -/

/-- Code points `start … stop - 1` have no bytes; the first of them is the given half. -/
structure Unencodable where
  start : Nat
  stop : Nat
  first : Fin 0x800
  deriving DecidableEq, Repr

/-- The wording of such a fault: a single half is shown, several are located. -/
def Unencodable.message (f : Unencodable) : Text :=
  "'utf-8' codec can't encode " ++
    (if f.stop = f.start + 1 then
      "character '\\u" ++ hex 4 (CodePoint.half f.first).toNat ++ "' in position " ++
        ofNat f.start
    else
      "characters in position " ++ ofNat f.start ++ "-" ++ ofNat (f.stop - 1)) ++
    ": surrogates not allowed"

/-- Encodes from `position` on; `byte?` gives the byte that a half stands for, if any. -/
def encodeFrom (byte? : Fin 0x800 → Option UInt8) (position : Nat) :
    Text → Except Unencodable Bytes
  | [] => .ok []
  | .char c :: rest =>
    (encodeFrom byte? (position + 1) rest).map (String.utf8EncodeChar c ++ ·)
  | .half n :: rest =>
    match byte? n with
    | some byte => (encodeFrom byte? (position + 1) rest).map (byte :: ·)
    | none =>
      .error ⟨position, position + 1 + (rest.takeWhile CodePoint.isHalf).length, n⟩

/-- The UTF-8 bytes of a text. -/
def encode (t : Text) : Except Unencodable Bytes := encodeFrom (fun _ => none) 0 t

/-! ## §4. Names. -/

/-- The byte that a half stands for in a name: U+DC80–U+DCFF are the bytes from 0x80 on. -/
def strayByte? (n : Fin 0x800) : Option UInt8 :=
  if 0x480 ≤ n.val ∧ n.val < 0x500 then some (UInt8.ofNat (n.val - 0x400)) else none

/-- The half that stands for a byte that belongs to no character. -/
def strayHalf (byte : UInt8) : CodePoint :=
  .half ⟨byte.toNat + 0x400, by have := byte.toNat_lt; omega⟩

/-- The bytes of a name. -/
def encodeName (t : Text) : Except Unencodable Bytes := encodeFrom strayByte? 0 t

/-- Decodes a name from `position` on, with the character begun there and its bytes if there
is one.  The bytes of a character that is not completed are stray. -/
def decodeNameFrom (position : Nat) : Option Begun → (begun : Bytes) → Bytes → Text
  | _, begun, [] => begun.map strayHalf
  | state, begun, byte :: rest =>
    match state.bind fun k => k.next? byte with
    | some (.inl c) => .char c :: decodeNameFrom (position + 1) none [] rest
    | some (.inr k) => decodeNameFrom (position + 1) (some k) (begun ++ [byte]) rest
    -- what was begun is stray, and the byte is looked at anew
    | none =>
      begun.map strayHalf ++
        match begin? position byte with
        | some (.inl c) => .char c :: decodeNameFrom (position + 1) none [] rest
        | some (.inr k) => decodeNameFrom (position + 1) (some k) [byte] rest
        | none => strayHalf byte :: decodeNameFrom (position + 1) none [] rest

/-- The text of a name of any bytes. -/
def decodeName (bytes : Bytes) : Text := decodeNameFrom 0 none [] bytes

/-- A name as it is read back: halves whose bytes make a character are this character. -/
def settledName (t : Text) : Text :=
  match encodeName t with
  | .ok bytes => decodeName bytes
  | .error _ => t

/-- How many bytes a name has. -/
def nameSize : Text → Nat
  | [] => 0
  | .char c :: rest => c.utf8Size + nameSize rest
  | .half _ :: rest => 1 + nameSize rest

/-! ## §5. What is written is read. -/

/-- The last byte a character is owed completes it. -/
theorem decodeFrom_last {k : Begun} {b : Nat} (h : k.owed = 1) (hb : b < 256)
    (hl : k.least ≤ b) (hg : b ≤ k.greatest) (position : Nat) (rest : Bytes) :
    decodeFrom position (some k) (UInt8.ofNat b :: rest) =
      (decodeFrom (position + 1) none rest).map
        (.char (Char.ofNat (k.bits * 64 + (b - 0x80))) :: ·) := by
  have hm : (UInt8.ofNat b).toNat = b := UInt8.toNat_ofNat_of_lt hb
  simp only [decodeFrom, Begun.next?, hm, hl, hg, h, and_self, if_true, Nat.le_refl]

/-- A byte before the last one adds its bits. -/
theorem decodeFrom_more {k : Begun} {b owed : Nat} (h : k.owed = owed + 2) (hb : b < 256)
    (hl : k.least ≤ b) (hg : b ≤ k.greatest) (position : Nat) (rest : Bytes) :
    decodeFrom position (some k) (UInt8.ofNat b :: rest) =
      decodeFrom (position + 1)
        (some ⟨k.start, k.first, owed + 1, 0x80, 0xBF, k.bits * 64 + (b - 0x80)⟩) rest := by
  have hm : (UInt8.ofNat b).toNat = b := UInt8.toNat_ofNat_of_lt hb
  have ho : ¬ owed + 2 ≤ 1 := by omega
  simp only [decodeFrom, Begun.next?, hm, hl, hg, h, ho, and_self, if_true, if_false]
  rfl

/-- A byte that begins a character of several bytes. -/
theorem decodeFrom_begun {b : Nat} {k : Begun} (position : Nat) (rest : Bytes)
    (h : begin? position (UInt8.ofNat b) = some (.inr k)) :
    decodeFrom position none (UInt8.ofNat b :: rest) =
      decodeFrom (position + 1) (some k) rest := by
  simp [decodeFrom, h]

/-- The first of two bytes. -/
theorem begin?_two {b : Nat} (position : Nat) (h : 0xC2 ≤ b ∧ b < 0xE0) :
    begin? position (UInt8.ofNat b) =
      some (.inr ⟨position, UInt8.ofNat b, 1, 0x80, 0xBF, b - 0xC0⟩) := by
  have hm : (UInt8.ofNat b).toNat = b :=
    UInt8.toNat_ofNat_of_lt (show b < 256 by omega)
  simp only [begin?, hm]
  rw [if_neg (by omega), if_neg (by omega), if_pos (by omega)]

/-- The first of three bytes, where the next one is not overlong and no surrogate. -/
theorem begin?_three (position b next : Nat) (h : 0xE0 ≤ b ∧ b < 0xF0)
    (hn : 0x80 ≤ next ∧ next ≤ 0xBF) (overlong : b = 0xE0 → 0xA0 ≤ next)
    (surrogate : b = 0xED → next ≤ 0x9F) :
    ∃ least greatest, begin? position (UInt8.ofNat b) =
      some (.inr ⟨position, UInt8.ofNat b, 2, least, greatest, b - 0xE0⟩) ∧
        least ≤ next ∧ next ≤ greatest := by
  have hm : (UInt8.ofNat b).toNat = b :=
    UInt8.toNat_ofNat_of_lt (show b < 256 by omega)
  simp only [begin?, hm]
  rw [if_neg (by omega), if_neg (by omega), if_neg (by omega)]
  -- only two first bytes narrow the range of the next one
  by_cases h0 : b = 0xE0
  · exact ⟨0xA0, 0xBF, by simp [h0], by omega, by omega⟩
  · by_cases hD : b = 0xED
    · exact ⟨0x80, 0x9F, by simp [hD], by omega, by omega⟩
    · exact ⟨0x80, 0xBF, by simp [h0, hD, h.2], by omega, by omega⟩

/-- The first of four bytes, where the next one is not overlong and not too large. -/
theorem begin?_four (position b next : Nat) (h : 0xF0 ≤ b ∧ b ≤ 0xF4)
    (hn : 0x80 ≤ next ∧ next ≤ 0xBF) (overlong : b = 0xF0 → 0x90 ≤ next)
    (large : b = 0xF4 → next ≤ 0x8F) :
    ∃ least greatest, begin? position (UInt8.ofNat b) =
      some (.inr ⟨position, UInt8.ofNat b, 3, least, greatest, b - 0xF0⟩) ∧
        least ≤ next ∧ next ≤ greatest := by
  have hm : (UInt8.ofNat b).toNat = b :=
    UInt8.toNat_ofNat_of_lt (show b < 256 by omega)
  simp only [begin?, hm]
  rw [if_neg (by omega), if_neg (by omega), if_neg (by omega), if_neg (by omega),
    if_neg (by omega), if_neg (by omega)]
  -- again only two first bytes narrow the range
  by_cases h0 : b = 0xF0
  · exact ⟨0x90, 0xBF, by simp [h0], by omega, by omega⟩
  · by_cases h4 : b = 0xF4
    · exact ⟨0x80, 0x8F, by simp [h4], by omega, by omega⟩
    · exact ⟨0x80, 0xBF, by simp [h0, show b < 0xF4 by omega], by omega, by omega⟩

/-- A character comes back from its bytes, whatever follows them. -/
theorem decodeFrom_encodeChar (c : Char) (position : Nat) (rest : Bytes) :
    decodeFrom position none (String.utf8EncodeChar c ++ rest) =
      (decodeFrom (position + (String.utf8EncodeChar c).length) none rest).map
        (.char c :: ·) := by
  have hv : c.toNat < 0xD800 ∨ (0xDFFF < c.toNat ∧ c.toNat < 0x110000) := c.valid
  have hc : Char.ofNat c.toNat = c := Char.ofNat_toNat c
  have hn : c.val.toNat = c.toNat := rfl
  simp only [String.utf8EncodeChar, hn]
  generalize hm : c.toNat = n at hv hc
  -- by the number of bytes; arithmetic puts the bits together again
  split
  · have hb : (UInt8.ofNat n).toNat = n := UInt8.toNat_ofNat_of_lt (show n < 256 by omega)
    have h : n < 128 := by omega
    simp only [List.cons_append, List.nil_append, decodeFrom, begin?, hb, h, if_true, hc,
      List.length_cons, List.length_nil, Nat.zero_add]
  split
  · rw [List.cons_append, List.cons_append, List.nil_append,
      decodeFrom_begun _ _ (begin?_two position (by omega)),
      decodeFrom_last rfl (by omega) (by simp only; omega) (by simp only; omega)]
    simp only
    rw [show (n / 64 % 32 + 192 - 0xC0) * 64 + (n % 64 + 128 - 0x80) = n by omega, hc]
    rfl
  split
  · obtain ⟨least, greatest, begun, hl, hg⟩ :=
      begin?_three position (n / 4096 % 16 + 224) (n / 64 % 64 + 128)
        (by omega) (by omega) (by omega) (by omega)
    rw [List.cons_append, List.cons_append, List.cons_append, List.nil_append,
      decodeFrom_begun _ _ begun, decodeFrom_more rfl (by omega) hl hg,
      decodeFrom_last rfl (by omega) (by simp only; omega) (by simp only; omega)]
    simp only
    rw [show ((n / 4096 % 16 + 224 - 0xE0) * 64 + (n / 64 % 64 + 128 - 0x80)) * 64 +
      (n % 64 + 128 - 0x80) = n by omega, hc]
    rfl
  · obtain ⟨least, greatest, begun, hl, hg⟩ :=
      begin?_four position (n / 262144 % 8 + 240) (n / 4096 % 64 + 128)
        (by omega) (by omega) (by omega) (by omega)
    rw [List.cons_append, List.cons_append, List.cons_append, List.cons_append,
      List.nil_append, decodeFrom_begun _ _ begun, decodeFrom_more rfl (by omega) hl hg,
      decodeFrom_more rfl (by omega) (by simp only; omega) (by simp only; omega),
      decodeFrom_last rfl (by omega) (by simp only; omega) (by simp only; omega)]
    simp only
    rw [show (((n / 262144 % 8 + 240 - 0xF0) * 64 + (n / 4096 % 64 + 128 - 0x80)) * 64 +
      (n / 64 % 64 + 128 - 0x80)) * 64 + (n % 64 + 128 - 0x80) = n by omega, hc]
    rfl

/-- The bytes of a text are read as this text, wherever they stand. -/
theorem decodeFrom_of_encodeFrom {t : Text} {bytes : Bytes} {written : Nat}
    (h : encodeFrom (fun _ => none) written t = .ok bytes) (position : Nat) :
    decodeFrom position none bytes = .ok t := by
  induction t generalizing bytes written position with
  | nil => cases h; rfl
  | cons c t ih =>
    cases c with
    | half n => cases h
    | char c =>
      simp only [encodeFrom] at h
      cases hr : encodeFrom (fun _ => none) (written + 1) t with
      | error f => rw [hr] at h; cases h
      | ok rest =>
        rw [hr] at h
        cases h
        rw [decodeFrom_encodeChar, ih hr]
        rfl

/-- What is written is read. -/
theorem decode_of_encode {t : Text} {bytes : Bytes} (h : encode t = .ok bytes) :
    decode bytes = .ok t := decodeFrom_of_encodeFrom h 0

/-- A text without halves is encoded, whatever halves would stand for. -/
theorem exists_encodeFrom {byte? : Fin 0x800 → Option UInt8} {t : Text}
    (h : ∀ c ∈ t, c.isHalf = false) (position : Nat) :
    ∃ bytes, encodeFrom byte? position t = .ok bytes := by
  induction t generalizing position with
  | nil => exact ⟨[], rfl⟩
  | cons c t ih =>
    cases c with
    | half n => exact absurd (h (.half n) (by simp)) (by simp [CodePoint.isHalf])
    | char c =>
      obtain ⟨rest, hr⟩ := ih (fun c hc => h c (by simp [hc])) (position + 1)
      exact ⟨String.utf8EncodeChar c ++ rest, by simp [encodeFrom, hr, Except.map]⟩

/-- A text without halves is encoded. -/
theorem exists_encode {t : Text} (h : ∀ c ∈ t, c.isHalf = false) :
    ∃ bytes, encode t = .ok bytes := exists_encodeFrom h 0

end Utf8

end Cascade.Text
