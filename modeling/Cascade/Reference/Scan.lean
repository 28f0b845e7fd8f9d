/-
  Cascade.Reference.Scan
  ────────────────────────────────
  **REFERENCES INSIDE A TEXT.**

  With NAME an ASCII letter or underscore followed by word characters:

      reference  =  $NAME  |  ${NAME}  |  ${NAME:modifier}

  A name is as long as possible; a modifier is any text without a closing
  brace and has no effect.  `scan` cuts a text into its references and the
  characters between them, from left to right; a dollar sign that begins no
  reference is a character like any other, and what follows it is looked at
  again.  `text_scan` says that the pieces, one after the other, are the text.
-/
import Cascade.Text.Word
import Cascade.Value.Basic

namespace Cascade

open Cascade.Text

/-- How a name is written: directly after the dollar sign, or in braces. -/
inductive Reference.Form
  | bare
  | braced (modifier : Option Text)
  deriving DecidableEq, Repr

/-- A reference to a name. -/
structure Reference where
  name : Text
  form : Reference.Form
  deriving DecidableEq, Repr

namespace Reference

/-- The modifier of a reference, if it has one. -/
def modifier? (r : Reference) : Option Text :=
  match r.form with
  | .bare => none
  | .braced modifier => modifier

/-- What stands after the dollar sign. -/
def tail (r : Reference) : Text :=
  match r.form with
  | .bare => r.name
  | .braced none => .char '{' :: r.name ++ [.char '}']
  | .braced (some modifier) => .char '{' :: r.name ++ .char ':' :: modifier ++ [.char '}']

/-- A reference as it is written. -/
def text (r : Reference) : Text := .char '$' :: r.tail

/-! ## §1. Scanning. -/

/-- The name at the front of a text. -/
def nameAt? : Text → Option Text
  | [] => none
  | c :: rest => if isNameStart c then some (c :: rest.takeWhile isWord) else none

/-- The reference whose opening brace has been read. -/
def bracedAt? (t : Text) : Option Reference :=
  match nameAt? t with
  | none => none
  | some name =>
    match t.drop name.length with
    | .char '}' :: _ => some ⟨name, .braced none⟩
    | .char ':' :: rest =>
      match cut '}' rest with
      | (modifier, some _) => some ⟨name, .braced (some modifier)⟩
      | (_, none) => none
    | _ => none

/-- The reference whose dollar sign has been read. -/
def at? : Text → Option Reference
  | .char '{' :: rest => bracedAt? rest
  | rest => (nameAt? rest).map fun name => ⟨name, .bare⟩

end Reference

/-- A part of a text: a character that belongs to no reference, or a reference. -/
inductive Piece
  | char (c : CodePoint)
  | ref (r : Reference)
  deriving DecidableEq, Repr

/-- A piece as it is written. -/
def Piece.text : Piece → Text
  | .char c => [c]
  | .ref r => r.text

namespace Reference

/-- The pieces of a text after its first `skip` characters. -/
def scanFrom : (skip : Nat) → Text → List Piece
  | _, [] => []
  | skip + 1, _ :: rest => scanFrom skip rest
  | 0, c :: rest =>
    if c = '$' then
      match at? rest with
      -- the rest of the reference is passed over
      | some r => .ref r :: scanFrom r.tail.length rest
      | none => .char c :: scanFrom 0 rest
    else .char c :: scanFrom 0 rest

/-- The pieces of a text. -/
def scan (t : Text) : List Piece := scanFrom 0 t

/-! ## §2. References and names. -/

/-- The references of a text, in order. -/
def find (t : Text) : List Reference :=
  (scan t).filterMap fun
    | .char _ => none
    | .ref r => some r

/-- The texts inside a value that are searched for references: the value itself or the
items of a list. -/
def textsOf : Value → List Text
  | .str t => [t]
  | .list items => items.filterMap fun
    | .str t => some t
    | _ => none
  | _ => []

/-- The names referenced by a value. -/
def namesOf (v : Value) : List Text :=
  (textsOf v).flatMap fun t => (find t).map Reference.name

/-- The names referenced by values, each once, in order of first occurrence. -/
def names (values : List Value) : List Text := (values.flatMap namesOf).eraseDups

/-! ## §3. Nothing is lost. -/

/-- A name stands at the front of the text it is found in. -/
theorem eq_append_of_nameAt? {t name : Text} (h : nameAt? t = some name) :
    t = name ++ t.drop name.length := by
  cases t with
  | nil => simp [nameAt?] at h
  | cons c t =>
    simp only [nameAt?] at h
    split at h
    · cases h
      have hw : t.takeWhile isWord ++ t.dropWhile isWord = t := List.takeWhile_append_dropWhile
      have hd : t.drop (t.takeWhile isWord).length = t.dropWhile isWord :=
        List.append_cancel_left
          ((List.prefix_iff_eq_append.1 (List.takeWhile_prefix isWord)).trans hw.symm)
      simp [hd, hw]
    · cases h

/-- A reference in braces stands at the front of the text it is found in. -/
theorem eq_append_of_bracedAt? {t : Text} {r : Reference} (h : bracedAt? t = some r) :
    .char '{' :: t = r.tail ++ (.char '{' :: t).drop r.tail.length := by
  simp only [bracedAt?] at h
  split at h
  · cases h
  · rename_i name hn
    have ht := eq_append_of_nameAt? hn
    generalize t.drop name.length = u at h ht
    subst ht
    -- after the name there is a brace, or a colon and a modifier up to one
    split at h
    · cases h; simp [tail]
    · split at h
      · cases h
        rename_i hc
        rw [eq_append_of_cut hc]
        simp [tail]
      · cases h
    · cases h

/-- A reference stands at the front of the text it is found in. -/
theorem eq_append_of_at? {t : Text} {r : Reference} (h : at? t = some r) :
    t = r.tail ++ t.drop r.tail.length := by
  unfold at? at h
  split at h
  · exact eq_append_of_bracedAt? h
  · obtain ⟨name, hn, rfl⟩ := Option.map_eq_some_iff.1 h
    exact eq_append_of_nameAt? hn

/-- The pieces after the first `skip` characters are the text after them. -/
theorem text_scanFrom (skip : Nat) (t : Text) :
    (scanFrom skip t).flatMap Piece.text = t.drop skip := by
  induction t generalizing skip with
  | nil => cases skip <;> simp [scanFrom]
  | cons c t ih =>
    cases skip with
    | succ skip => simpa [scanFrom] using ih skip
    | zero =>
      simp only [scanFrom]
      split
      · subst c
        split
        · rename_i r hr
          -- a reference is its dollar sign and its tail, which the scan then skips
          have h := eq_append_of_at? hr
          simp only [List.flatMap_cons, ih, Piece.text, text, List.drop_zero, List.cons_append]
          rw [← h]
        · simp [Piece.text, ih]
      · simp [Piece.text, ih]

/-- The pieces of a text, one after the other, are the text. -/
theorem text_scan (t : Text) : (scan t).flatMap Piece.text = t := text_scanFrom 0 t

end Reference

end Cascade
