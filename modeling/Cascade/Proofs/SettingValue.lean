/-
  Cascade.Proofs.SettingValue
  ────────────────────────────────
  **WHAT A SETTING IS WORTH.**

  A setting is a key and a text that is its raw value.  As the only line of
  an env file, or given to the command that sets preferences, the raw value
  is trimmed and read by one grammar.  What comes of it is plain: a text, a
  list of texts or a number (`Flat`).  Such a value can be kept in a
  document, and the order of names does not touch it.

      flat_of_value?       — what the right side of a line can be
      assignment?_setting  — the line of a setting
      decode_setting       — the env file with this line only
-/
import Cascade.CommandLine.Preferences
import Cascade.Proofs.NameOrder
import Cascade.Proofs.ReadStorable
import Cascade.Proofs.WrittenEnv

namespace Cascade

open Cascade.Text
open Cascade.CommandLine

/-! ## §1. Texts without halves of pairs. -/

/-- Without first halves no two halves make a pair. -/
theorem Json.unpaired_of_no_high {t : Text} (h : ∀ c ∈ t, isHighHalf c.toNat = false) :
    Unpaired t := by
  induction t with
  | nil => exact .nil
  | cons c t ih =>
    have hc : isHighHalf c.toNat = false := h c (by simp)
    refine List.isChain_cons.2 ⟨fun d hd hpair => ?_, ih fun d hd => h d (by simp [hd])⟩
    rw [hc] at hpair
    exact Bool.false_ne_true hpair.1

/-- A text without halves has no pair. -/
theorem Text.IsHalfless.unpaired {t : Text} (h : t.IsHalfless) : Json.Unpaired t :=
  Json.unpaired_of_no_high fun c hc => (Text.not_half (h c hc)).1

/-- A text that has bytes has no halves. -/
theorem Text.isHalfless_of_encode {t : Text} {content : Bytes}
    (h : Utf8.encode t = .ok content) : t.IsHalfless :=
  Utf8.isHalfless_of_decodeFrom (Utf8.decode_of_encode h)

/-- What is before a mark has characters of the text. -/
theorem Text.mem_of_mem_cut {mark c : CodePoint} {t : Text} (h : c ∈ (cut mark t).1) :
    c ∈ t := by
  induction t with
  | nil => cases h
  | cons d t ih =>
    rw [cut] at h
    split at h
    · cases h
    · rcases List.mem_cons.1 h with rfl | h
      · exact List.mem_cons_self
      · exact List.mem_cons_of_mem _ (ih h)

/-- Pieces have characters of the text. -/
theorem Text.mem_of_mem_splitAt {mark c : CodePoint} {t piece : Text}
    (hp : piece ∈ splitAt mark t) (hc : c ∈ piece) : c ∈ t := by
  induction t generalizing piece with
  | nil =>
    obtain rfl := List.mem_singleton.1 hp
    cases hc
  | cons d t ih =>
    rw [splitAt] at hp
    split at hp
    · rcases List.mem_cons.1 hp with rfl | hp
      · cases hc
      · exact List.mem_cons_of_mem _ (ih hp hc)
    · split at hp
      · exact absurd ‹_› (splitAt_ne_nil mark t)
      · rename_i first rest hs
        rcases List.mem_cons.1 hp with rfl | hp
        · rcases List.mem_cons.1 hc with rfl | hc
          · exact List.mem_cons_self
          · exact List.mem_cons_of_mem _ (ih (by rw [hs]; exact List.mem_cons_self) hc)
        · exact List.mem_cons_of_mem _ (ih (by rw [hs]; exact List.mem_cons_of_mem _ hp) hc)

namespace Dotenv

/-- What is inside quotes has characters of what follows the opening one. -/
theorem mem_of_mem_unquote {quote c : CodePoint} {t : Text} (h : c ∈ unquote quote t) :
    c ∈ t := by
  -- the cases of the reader: the end, one character, an escape, the closing quote, any other
  induction t using unquote.induct quote with
  | case1 => cases h
  | case2 => simp [unquote] at h
  | case3 d hd => simpa [unquote, hd] using h
  | case4 d e rest hesc ih =>
    rw [unquote, if_pos hesc] at h
    rcases List.mem_cons.1 h with rfl | h
    · simp
    · exact List.mem_cons_of_mem _ (List.mem_cons_of_mem _ (ih h))
  | case5 d rest hesc =>
    rw [unquote, if_neg hesc, if_pos rfl] at h
    cases h
  | case6 d e rest hesc hq ih =>
    rw [unquote, if_neg hesc, if_neg hq] at h
    rcases List.mem_cons.1 h with rfl | h
    · exact List.mem_cons_self
    · exact List.mem_cons_of_mem _ (ih h)

/-- Items inside braces have characters of what follows the opening one. -/
theorem mem_of_mem_braceItems {c : CodePoint} {t item : Text} (hi : item ∈ braceItems t)
    (hc : c ∈ item) : c ∈ t := by
  unfold braceItems at hi
  simp only at hi
  split at hi
  · cases hi
  · obtain ⟨piece, hp, rfl⟩ := List.mem_map.1 hi
    exact mem_of_mem_cut (mem_of_mem_splitAt hp (mem_of_mem_trim hc))

/-! ## §2. Values of a line. -/

/-- A plain value: a text, a list of texts, an integer that is not too long, or a double. -/
inductive Flat : Value → Prop
  | text {t : Text} (unpaired : Json.Unpaired t) : Flat (.str t)
  | list {texts : List Text} (unpaired : ∀ t ∈ texts, Json.Unpaired t) :
    Flat (.list (texts.map .str))
  | int {n : Int} (short : n.natAbs < 10 ^ digitLimit) : Flat (.int n)
  | float {x : Binary64} (canonical : x.Canonical) : Flat (.float x)

/-- A plain value can be kept. -/
theorem Flat.storable {v : Value} (h : Flat v) : v.Storable := by
  cases h with
  | text unpaired => exact .str unpaired
  | list unpaired =>
    refine .list fun item hi => ?_
    obtain ⟨t, ht, rfl⟩ := List.mem_map.1 hi
    exact .str (unpaired t ht)
  | int short => exact .int short
  | float canonical => exact .float canonical

/-- A plain value has no names that could be put in order. -/
theorem Flat.inNameOrder_eq {v : Value} (h : Flat v) : Json.inNameOrder v = v := by
  cases h with
  | @list texts unpaired =>
    rw [Json.inNameOrder, Json.itemsInNameOrder_eq_map, List.map_map]
    rfl
  | _ => rfl

/-- **WHAT A LINE SETS IS PLAIN**, when its text has no first halves. -/
theorem flat_of_value? {t : Text} (ht : ∀ c ∈ t, Json.isHighHalf c.toNat = false) {v : Value}
    (h : value? t = some v) : Flat v := by
  rcases value?_cases h with ⟨c, rest, rfl, rfl⟩ | ⟨c, rest, rfl, rfl⟩ | rfl
  · refine .text (Json.unpaired_of_no_high fun d hd => ?_)
    exact ht d (List.mem_cons_of_mem c (mem_of_mem_unquote hd))
  · refine .list fun item hi => Json.unpaired_of_no_high fun d hd => ?_
    exact ht d (List.mem_cons_of_mem c (mem_of_mem_braceItems hi hd))
  · rcases bareValue_cases t with ⟨negative, digits, power, h⟩ | ⟨i, h, short⟩ | h
    · rw [h]
      exact .float (Binary64.canonical_ofDecimal negative digits power)
    · rw [h]
      exact .int short
    · rw [h]
      exact .text (Json.unpaired_of_no_high ht)

/-- What a line sets has no names that could be put in order. -/
theorem inNameOrder_of_value? {t : Text} {v : Value} (h : value? t = some v) :
    Json.inNameOrder v = v := by
  rcases value?_cases h with ⟨_, _, -, rfl⟩ | ⟨_, rest, -, rfl⟩ | rfl
  · rfl
  · rw [Json.inNameOrder, Json.itemsInNameOrder_eq_map, List.map_map]
    rfl
  · rcases bareValue_cases t with ⟨_, _, _, h⟩ | ⟨i, h, -⟩ | h <;> rw [h] <;> rfl

/-- Every text but the empty one has a value. -/
theorem exists_value? {t : Text} (h : t ≠ []) : ∃ v, value? t = some v := by
  cases t with
  | nil => exact absurd rfl h
  | cons c rest =>
    simp only [value?]
    split
    · exact ⟨_, rfl⟩
    · split <;> exact ⟨_, rfl⟩

/-! ## §3. Settings. -/

/-- A key and a raw value that a line can assign to it. -/
structure IsSetting (key raw : Text) : Prop where
  isKey : IsKey key
  noOrderMark : key.head? ≠ some (.char '\ufeff')
  oneLine : OneLine raw
  notBlank : trim raw ≠ []
  uncommented : startsWithAny ['#', ';'] (trim raw) = false

/-- The line of a setting. -/
def settingLine (key raw : Text) : Text := key ++ .char '=' :: raw

section

variable {key raw : Text}

/-- A raw value that is not blank has a value, which the command sets too. -/
theorem IsSetting.value? (h : IsSetting key raw) :
    Dotenv.value? (trim raw) = some (Pref.valueOf raw) := by
  obtain ⟨v, hv⟩ := exists_value? h.notBlank
  simp only [Pref.valueOf, hv, Option.getD_some]

/-- The value of a setting that has bytes is plain. -/
theorem IsSetting.flat (h : IsSetting key raw) (hw : raw.IsHalfless) :
    Flat (Pref.valueOf raw) :=
  flat_of_value? (fun c hc => (not_half (hw c (mem_of_mem_trim hc))).1) h.value?

/-- **THE LINE OF A SETTING** assigns the value of the setting. -/
theorem assignment?_setting (h : IsSetting key raw) :
    assignment? (settingLine key raw) = some (key, Pref.valueOf raw) := by
  obtain ⟨before, after, hbefore, hafter, hraw⟩ := exists_pads raw
  -- there are no blanks around the key
  have hblank : ∀ t ∈ [[], [], before, after], ∀ c ∈ t, isBlank c = true := by
    simpa using ⟨hbefore, hafter⟩
  have hpair := assignment?_pair h.isKey hblank (trimmed_trim raw) h.uncommented h.value?
  rw [← hraw] at hpair
  simpa [settingLine] using hpair

/-- The line of a setting is one line. -/
theorem IsSetting.oneLine_line (h : IsSetting key raw) : OneLine (settingLine key raw) := by
  intro c hc
  rcases List.mem_append.1 hc with hc | hc
  · exact h.isKey.oneLine c hc
  · rcases List.mem_cons.1 hc with rfl | hc
    · rfl
    · exact h.oneLine c hc

/-- Bytes of a text that begins with no mark are read as this text. -/
theorem decodeMarked_of_decode {content : Bytes} {t : Text} (h : Utf8.decode content = .ok t)
    (hm : t.head? ≠ some (.char '\ufeff')) : Utf8.decodeMarked content = .ok t := by
  unfold Utf8.decodeMarked
  split
  · cases h
  · cases h
  · rename_i rest
    -- three bytes are the mark, so the text would begin with it
    exfalso
    have hmark : Utf8.decode (0xEF :: 0xBB :: 0xBF :: rest) =
        (Utf8.decodeFrom 3 none rest).map (.char '\ufeff' :: ·) :=
      Utf8.decodeFrom_encodeChar '\ufeff' 0 rest
    rw [hmark] at h
    cases hr : Utf8.decodeFrom 3 none rest with
    | error fault =>
      rw [hr] at h
      cases h
    | ok rest =>
      rw [hr] at h
      cases h
      exact hm rfl
  · exact h

/-- **THE ENV FILE OF A SETTING** stands for this setting, whether its line is ended or not. -/
theorem decode_setting (h : IsSetting key raw) {ending : Text} (he : ending = [] ∨ ending = "\n")
    {content : Bytes} (hc : Utf8.encode (settingLine key raw ++ ending) = .ok content) :
    decode content = .ok (Table.ofList [(key, Pref.valueOf raw)]) := by
  have hhead : (settingLine key raw ++ ending).head? ≠ some (.char '\ufeff') := by
    have hk := h.noOrderMark
    cases hkey : key with
    | nil => exact absurd hkey h.isKey.notEmpty
    | cons c rest =>
      rw [hkey] at hk
      exact hk
  have hreturn : CodePoint.char '\r' ∉ settingLine key raw ++ ending := by
    intro hm
    rcases List.mem_append.1 hm with hm | hm
    · exact absurd (h.oneLine_line _ hm) (by decide)
    · rcases he with rfl | rfl
      · cases hm
      · exact absurd hm (by decide)
  have hassigned : assignments (settingLine key raw ++ ending) = [(key, Pref.valueOf raw)] := by
    rcases he with rfl | rfl
    · rw [List.append_nil, assignments_of_oneLine h.oneLine_line, assignment?_setting h]
      rfl
    · have hline := assignments_append h.oneLine_line (.inr ⟨'\n', rfl, by decide⟩) []
      rw [List.append_nil, assignment?_setting h] at hline
      exact hline
  rw [decode, decodeMarked_of_decode (Utf8.decode_of_encode hc) hhead]
  show Except.ok (parse (unifyLineEnds (settingLine key raw ++ ending))) = _
  rw [unifyLineEnds_of_not_mem hreturn, parse, hassigned]

end

end Dotenv

end Cascade
