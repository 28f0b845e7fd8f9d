/-
  Cascade.Proofs.ReferenceGrammar
  ────────────────────────────────
  **SCANNING ACCEPTS EXACTLY THE GRAMMAR OF REFERENCES.**

  The grammar is stated three times over, and the scan is each of them:

      Reading            — a relation between a text and its pieces: a
                           reference that stands there is one piece, and
                           where none begins a character is
      gaps               — the text before, between and after the references
      referencePattern   — a pattern tried with backtracking

  `at?_eq_some_iff` is what all of them rest on: the reference that is found
  at a place is the one that the grammar allows there.  No second one is
  allowed, since a name ends where word characters do, and a modifier at the
  first closing brace.
-/
import Cascade.Proofs.Names
import Cascade.Proofs.Pattern

namespace Cascade

open Cascade.Text

/-- The reference that a piece is, if it is one. -/
def Piece.reference? : Piece → Option Reference
  | .char _ => none
  | .ref r => some r

namespace Reference

/-! ## §1. The grammar. -/

/-- A reference that may stand before a text: its name is one, and as long as it can be; its
modifier has no closing brace. -/
structure Stands (r : Reference) (rest : Text) : Prop where
  isName : IsName r.name
  longest : r.form = .bare → ∀ c ∈ rest.head?, isWord c = false
  closed : ∀ modifier, r.modifier? = some modifier → .char '}' ∉ modifier

/-- A text that begins with a reference. -/
def Begins (t : Text) : Prop := ∃ r rest, Stands r rest ∧ t = r.text ++ rest

/-- A text read from left to right: a reference that stands there, or, where none begins, one
character. -/
inductive Reading : Text → List Piece → Prop
  | done : Reading [] []
  | reference {r : Reference} {rest : Text} {pieces : List Piece} (stands : r.Stands rest)
      (more : Reading rest pieces) : Reading (r.text ++ rest) (.ref r :: pieces)
  | character {c : CodePoint} {rest : Text} {pieces : List Piece} (plain : ¬ Begins (c :: rest))
      (more : Reading rest pieces) : Reading (c :: rest) (.char c :: pieces)

/-- The forms in which a reference is written. -/
inductive Written (r : Reference) : Prop
  | bare (text : r.text = .char '$' :: r.name) (modifier : r.modifier? = none)
  | braced (text : r.text = .char '$' :: .char '{' :: r.name ++ [.char '}'])
      (modifier : r.modifier? = none)
  | modified (m : Text)
      (text : r.text = .char '$' :: .char '{' :: r.name ++ .char ':' :: m ++ [.char '}'])
      (modifier : r.modifier? = some m) (closed : .char '}' ∉ m)

variable {r : Reference} {t rest name : Text}

/-- A reference that stands somewhere is written in one of these forms. -/
theorem Stands.written (h : r.Stands rest) : Written r := by
  obtain ⟨name, form⟩ := r
  cases form with
  | bare => exact .bare rfl rfl
  | braced modifier =>
    cases modifier with
    | none => exact .braced rfl rfl
    | some m => exact .modified m rfl rfl (h.closed m rfl)

/-! ## §2. What is found at a place. -/

/-- What follows the name at the front of a text. -/
theorem drop_nameAt? (h : nameAt? t = some name) :
    t.drop name.length = (t.drop 1).dropWhile isWord := by
  cases t with
  | nil => cases h
  | cons c t =>
    have ht := eq_append_of_nameAt? h
    simp only [nameAt?] at h
    split at h
    · cases h
      have hsplit : t.takeWhile isWord ++ t.dropWhile isWord = t := List.takeWhile_append_dropWhile
      rw [List.cons_append, List.cons.injEq] at ht
      exact List.append_cancel_left (ht.2.symm.trans hsplit.symm)
    · cases h

/-- What follows the name at the front of a text is no word character. -/
theorem isWord_of_head?_drop (h : nameAt? t = some name) :
    ∀ c ∈ (t.drop name.length).head?, isWord c = false := by
  intro c hc
  rw [drop_nameAt? h] at hc
  have hhead := List.head?_dropWhile_not isWord (t.drop 1)
  rw [hc] at hhead
  simpa using hhead

/-- A name is found before anything that does not go on with it. -/
theorem nameAt?_append (hn : IsName name) (hr : ∀ c ∈ rest.head?, isWord c = false) :
    nameAt? (name ++ rest) = some name := by
  obtain ⟨c, word, rfl, hc, hw⟩ := hn
  have hstop : rest.takeWhile isWord = [] := by
    cases rest with
    | nil => rfl
    | cons d rest => simp [hr d rfl]
  rw [List.cons_append, nameAt?, if_pos hc, List.takeWhile_append_of_pos hw, hstop, List.append_nil]

/-- The reference found at a place stands there. -/
theorem stands_of_at? (h : at? t = some r) : r.Stands (t.drop r.tail.length) := by
  have hname := isName_of_at? h
  unfold at? at h
  split at h
  · rename_i u
    simp only [bracedAt?] at h
    split at h
    · cases h
    · split at h
      · cases h
        exact ⟨hname, fun h => (by cases h), fun m hm => (by cases hm)⟩
      · split at h
        · rename_i modifier _ hc
          cases h
          refine ⟨hname, fun h => (by cases h), fun m hm => ?_⟩
          cases hm
          -- the modifier ends at the first closing brace
          rw [cut_eq_takeWhile, Prod.mk.injEq] at hc
          rw [← hc.1]
          intro hm
          exact absurd (List.all_eq_true.1 List.all_takeWhile _ hm) (by simp)
        · cases h
      · cases h
  · obtain ⟨name, hn, rfl⟩ := Option.map_eq_some_iff.1 h
    exact ⟨hname, fun _ => isWord_of_head?_drop hn, fun m hm => by cases hm⟩

/-- The reference that stands at a place is found there. -/
theorem Stands.at? (h : r.Stands rest) : Reference.at? (r.tail ++ rest) = some r := by
  obtain ⟨name, form⟩ := r
  have hname : IsName name := h.isName
  cases form with
  | bare =>
    have hn := nameAt?_append hname (h.longest rfl)
    obtain ⟨c, word, rfl, hc, -⟩ := hname
    show Reference.at? (c :: word ++ rest) = _
    rw [Reference.at?, hn]
    · rfl
    · -- a brace begins no name
      intro u hu
      rw [List.cons_append, List.cons.injEq] at hu
      rw [hu.1] at hc
      exact absurd hc (by decide)
  | braced modifier =>
    cases modifier with
    | none =>
      have htail : tail ⟨name, .braced none⟩ ++ rest =
          .char '{' :: (name ++ .char '}' :: rest) := by simp [tail]
      have hn : nameAt? (name ++ .char '}' :: rest) = some name :=
        nameAt?_append hname fun c hc => by cases hc; decide
      rw [htail, Reference.at?, bracedAt?, hn]
      simp only [List.drop_left]
    | some m =>
      have htail : tail ⟨name, .braced (some m)⟩ ++ rest =
          .char '{' :: (name ++ .char ':' :: (m ++ .char '}' :: rest)) := by simp [tail]
      have hn : nameAt? (name ++ .char ':' :: (m ++ .char '}' :: rest)) = some name :=
        nameAt?_append hname fun c hc => by cases hc; decide
      rw [htail, Reference.at?, bracedAt?, hn]
      simp only [List.drop_left, cut_append (h.closed m rfl)]

/-- What is found at a place is what stands there. -/
theorem at?_eq_some_iff : Reference.at? t = some r ↔ ∃ rest, r.Stands rest ∧ t = r.tail ++ rest :=
  ⟨fun h => ⟨_, stands_of_at? h, eq_append_of_at? h⟩, fun ⟨_, hs, ht⟩ => ht ▸ hs.at?⟩

/-- A reference begins exactly where one is found after a dollar sign. -/
theorem begins_cons_iff {c : CodePoint} :
    Begins (c :: t) ↔ c = '$' ∧ ∃ r, Reference.at? t = some r := by
  simp only [Begins, text, List.cons_append, List.cons.injEq, at?_eq_some_iff]
  constructor
  · rintro ⟨r, rest, hs, hc, ht⟩
    exact ⟨hc, r, rest, hs, ht⟩
  · rintro ⟨hc, r, rest, hs, ht⟩
    exact ⟨r, rest, hs, hc, ht⟩

/-! ## §3. The scan. -/

/-- What is skipped is not read. -/
theorem scanFrom_eq (skip : Nat) (t : Text) : scanFrom skip t = scan (t.drop skip) := by
  induction t generalizing skip with
  | nil => cases skip <;> rfl
  | cons c t ih =>
    cases skip with
    | zero => rfl
    | succ skip => exact ih skip

/-- A reference that stands at the front is one piece, and the scan goes on after it. -/
theorem Stands.scan (h : r.Stands rest) : scan (r.text ++ rest) = .ref r :: scan rest := by
  have hfound : Reference.at? (r.tail ++ rest) = some r := h.at?
  show scanFrom 0 (.char '$' :: (r.tail ++ rest)) = _
  rw [scanFrom, if_pos rfl, hfound]
  simp only [scanFrom_eq, List.drop_left]

/-- Where no reference begins the scan goes on at the next character. -/
theorem scan_of_not_begins {c : CodePoint} (h : ¬ Begins (c :: t)) :
    scan (c :: t) = .char c :: scan t := by
  rw [begins_cons_iff] at h
  show scanFrom 0 (c :: t) = _
  rw [scanFrom]
  split
  · next hc =>
    cases hr : Reference.at? t with
    | none => rfl
    | some r => exact absurd ⟨hc, r, hr⟩ h
  · rfl

/-- The scan is a reading. -/
theorem reading_scan (t : Text) : Reading t (scan t) := by
  -- on the length, since a reference is passed over as a whole
  induction hl : t.length using Nat.strongRecOn generalizing t with
  | ind length ih =>
    cases t with
    | nil => exact .done
    | cons c t =>
      by_cases hb : Begins (c :: t)
      · obtain ⟨r, rest, hs, ht⟩ := hb
        have hshort : rest.length < length := by
          have hlength := congrArg List.length ht
          simp only [text, List.length_append, List.length_cons] at hlength hl
          omega
        rw [ht, hs.scan]
        exact .reference hs (ih rest.length hshort rest rfl)
      · rw [scan_of_not_begins hb]
        exact .character hb (ih t.length (by simp [← hl]) t rfl)

/-- There is no other reading. -/
theorem Reading.eq_scan {pieces : List Piece} (h : Reading t pieces) : pieces = scan t := by
  induction h with
  | done => rfl
  | reference stands _ ih => rw [stands.scan, ih]
  | character plain _ ih => rw [scan_of_not_begins plain, ih]

/-- What a scan finds is written in one of the forms. -/
theorem Reading.written {pieces : List Piece} (h : Reading t pieces) :
    ∀ r, .ref r ∈ pieces → IsName r.name ∧ Written r := by
  induction h with
  | done => intro r hr; cases hr
  | reference stands _ ih =>
    intro r hr
    rcases List.mem_cons.1 hr with he | hr
    · cases he
      exact ⟨stands.isName, stands.written⟩
    · exact ih r hr
  | character _ _ ih =>
    intro r hr
    rcases List.mem_cons.1 hr with he | hr
    · cases he
    · exact ih r hr

/-! ## §4. Gaps. -/

/-- The text before the first reference, and each reference with the text between it and the
next. -/
def gapped : List Piece → Text × List (Reference × Text)
  | [] => ([], [])
  | .char c :: pieces => (c :: (gapped pieces).1, (gapped pieces).2)
  | .ref r :: pieces => ([], (r, (gapped pieces).1) :: (gapped pieces).2)

/-- A text cut at its references. -/
def gaps (t : Text) : Text × List (Reference × Text) := gapped (scan t)

/-- The references of a cut text are those that are found. -/
theorem map_gaps (t : Text) : (gaps t).2.map Prod.fst = find t := by
  unfold gaps find
  induction scan t with
  | nil => rfl
  | cons p pieces ih =>
    cases p with
    | char c => exact ih
    | ref r => exact congrArg (r :: ·) ih

/-- Pieces put together with something in place of each reference. -/
theorem gapped_flatMap (f : Reference → Text) (pieces : List Piece) :
    (gapped pieces).1 ++ (gapped pieces).2.flatMap (fun e => f e.1 ++ e.2) =
      pieces.flatMap fun
        | .char c => [c]
        | .ref r => f r := by
  induction pieces with
  | nil => rfl
  | cons p pieces ih =>
    cases p with
    | char c => simp only [gapped, List.flatMap_cons, ← ih, List.cons_append, List.nil_append]
    | ref r => simp only [gapped, List.flatMap_cons, ← ih, List.nil_append, List.append_assoc]

/-- The gaps of a text with the references between them are the text. -/
theorem text_gaps (t : Text) :
    (gaps t).1 ++ (gaps t).2.flatMap (fun e => e.1.text ++ e.2) = t := by
  refine (gapped_flatMap text (scan t)).trans (Eq.trans ?_ (text_scan t))
  refine congrArg (fun f => (scan t).flatMap f) (funext fun p => ?_)
  cases p <;> rfl

/-! ## §5. The pattern. -/

/-- What the pattern of references captures. -/
inductive Group
  | braced
  | modifier
  | bare
  deriving DecidableEq, Repr

/-- A name. -/
def namePattern : Pattern Group := .both (.one isNameStart) (.run isWord)

/-- A colon and a modifier, or nothing. -/
def modifierPattern : Pattern Group :=
  .maybe (.both (.mark ':') (.group .modifier (.run (· != '}'))))

/-- A modifier, if there is one, and the closing brace. -/
def endPattern : Pattern Group := .both modifierPattern (.mark '}')

/-- What stands after an opening brace. -/
def bracedPattern : Pattern Group := .both (.group .braced namePattern) endPattern

/-- A reference: a dollar sign, and a name in braces or by itself. -/
def referencePattern : Pattern Group :=
  .both (.mark '$') (.either (.both (.mark '{') bracedPattern) (.group .bare namePattern))

/-- What the pattern captures of a reference. -/
def groups (r : Reference) : List (Group × Text) :=
  match r.form with
  | .bare => [(.bare, r.name)]
  | .braced none => [(.braced, r.name)]
  | .braced (some modifier) => [(.braced, r.name), (.modifier, modifier)]

/-- What a match tells: a name, in braces or by itself, a modifier and the whole text. -/
def told (w : Way Group) : Option Text × Option Text × Text :=
  ((w.group .braced).or (w.group .bare), w.group .modifier, w.taken)

/-- A reference is told by what the pattern captures of it. -/
theorem told_groups (r : Reference) (rest : Text) :
    told ⟨r.groups, r.text, rest⟩ = (some r.name, r.modifier?, r.text) := by
  obtain ⟨name, form⟩ := r
  cases form with
  | bare => rfl
  | braced modifier => cases modifier <;> rfl

/-- A name before something that cannot go on with it. -/
theorem flatMap_ways_name {α : Type} {f : Way Group → List α}
    (h : ∀ taken c rest, isWord c = true → f ⟨[], taken, c :: rest⟩ = []) :
    (namePattern.ways t).flatMap f =
      (nameAt? t).toList.flatMap fun name => f ⟨[], name, t.drop name.length⟩ := by
  cases t with
  | nil => rfl
  | cons c t =>
    by_cases hc : isNameStart c = true
    · have hn : nameAt? (c :: t) = some (c :: t.takeWhile isWord) := by simp [nameAt?, hc]
      have hruns := flatMap_runs isWord t (f := fun r => f ⟨[], c :: r.1, r.2⟩)
        fun taken d rest hd => h _ d rest hd
      rw [hn, Option.toList_some, List.flatMap_singleton, drop_nameAt? hn]
      simpa [namePattern, Pattern.ways, hc, List.flatMap_map] using hruns
    · simp [namePattern, Pattern.ways, nameAt?, hc]

/-- The closing brace right away. -/
theorem ways_end_brace (rest : Text) :
    endPattern.ways (.char '}' :: rest) = [⟨[], [.char '}'], rest⟩] := by
  simp [endPattern, modifierPattern, Pattern.maybe, Pattern.mark, Pattern.ways]

/-- A modifier once it is closed, with what follows it. -/
def closeModifier (r : Text × Text) : List (Way Group) :=
  ((Pattern.mark (.char '}') : Pattern Group).ways r.2).map fun w =>
    ⟨(.modifier, r.1) :: w.groups, .char ':' :: r.1 ++ w.taken, w.rest⟩

/-- A modifier reaches to the first closing brace. -/
theorem ways_end_colon (rest : Text) :
    endPattern.ways (.char ':' :: rest) =
      match cut '}' rest with
      | (modifier, some rest) =>
        [⟨[(.modifier, modifier)], .char ':' :: modifier ++ [.char '}'], rest⟩]
      | (_, none) => [] := by
  have hruns := flatMap_runs (· != .char '}') rest (f := closeModifier) fun taken c rest hc => by
    simp [closeModifier, Pattern.mark, Pattern.ways, bne_iff_ne.1 hc]
  have hways : endPattern.ways (.char ':' :: rest) =
      (runs (· != .char '}') rest).flatMap closeModifier := by
    unfold closeModifier
    simp [endPattern, modifierPattern, Pattern.maybe, Pattern.mark, Pattern.ways,
      List.flatMap_map]
  rw [hways, hruns, cut_eq_takeWhile]
  -- what is left begins with a closing brace, or there is none
  have hhead := List.head?_dropWhile_not (· != .char '}') rest
  cases hd : rest.dropWhile (· != .char '}') with
  | nil => simp [closeModifier, Pattern.mark, Pattern.ways]
  | cons c u =>
    rw [hd] at hhead
    have hc : c = '}' := by simpa using hhead
    subst hc
    simp [closeModifier, Pattern.mark, Pattern.ways]

/-- Nothing else ends a reference in braces. -/
theorem ways_end_other (hb : t.head? ≠ some (.char '}')) (hc : t.head? ≠ some (.char ':')) :
    endPattern.ways t = [] := by
  cases t with
  | nil => rfl
  | cons c t =>
    simp only [List.head?_cons, Ne, Option.some.injEq] at hb hc
    simp [endPattern, modifierPattern, Pattern.maybe, Pattern.mark, Pattern.ways, hb, hc]

/-- A name in braces once it is ended. -/
def endName (w : Way Group) : List (Way Group) :=
  (endPattern.ways w.rest).map fun w' =>
    ⟨w.groups ++ (.braced, w.taken) :: w'.groups, w.taken ++ w'.taken, w'.rest⟩

/-- After an opening brace there is one way at most, that of the reference found there. -/
theorem ways_braced (t : Text) :
    bracedPattern.ways t = (bracedAt? t).toList.map fun r =>
      ⟨r.groups, r.tail.drop 1, t.drop (r.tail.length - 1)⟩ := by
  have hways : bracedPattern.ways t = (namePattern.ways t).flatMap endName := by
    unfold endName
    simp [bracedPattern, Pattern.ways, List.flatMap_map]
  have hlong : (namePattern.ways t).flatMap endName =
      (nameAt? t).toList.flatMap fun name => endName ⟨[], name, t.drop name.length⟩ := by
    refine flatMap_ways_name fun taken c rest hc => ?_
    have hend : endPattern.ways (c :: rest) = [] := by
      refine ways_end_other ?_ ?_ <;> rintro ⟨⟩ <;> exact absurd hc (by decide)
    simp [endName, hend]
  rw [hways, hlong, bracedAt?]
  cases hn : nameAt? t with
  | none => rfl
  | some name =>
    have ht := eq_append_of_nameAt? hn
    simp only [Option.toList_some, List.flatMap_singleton, endName]
    clear hways hlong hn
    generalize t.drop name.length = u at ht ⊢
    subst ht
    split
    · -- the name, and the closing brace
      simp [ways_end_brace, groups, tail]
    · -- a modifier that is not closed, or one that is
      rename_i rest
      rw [ways_end_colon]
      rcases hc : cut '}' rest with ⟨modifier, _ | after⟩
      · rfl
      · have htail : name ++ .char ':' :: (modifier ++ .char '}' :: after) =
            (name ++ .char ':' :: (modifier ++ [.char '}'])) ++ after := by simp
        rw [eq_append_of_cut hc, htail]
        simp [groups, tail]
    · rename_i hbrace hcolon
      have hhead (c : CodePoint) : u.head? = some c → ∃ rest, u = c :: rest := fun h =>
        ⟨u.tail, (List.cons_head?_tail h).symm⟩
      rw [ways_end_other]
      · rfl
      · exact fun h => (hhead _ h).elim hbrace
      · exact fun h => (hhead _ h).elim hcolon

/-- A name by itself is tried in its full length first. -/
theorem head?_ways_bare (t : Text) :
    ((Pattern.group .bare namePattern).ways t).head? = (nameAt? t).map fun name =>
      ⟨[(.bare, name)], name, t.drop name.length⟩ := by
  cases t with
  | nil => rfl
  | cons c t =>
    by_cases hc : isNameStart c = true
    · have hn : nameAt? (c :: t) = some (c :: t.takeWhile isWord) := by simp [nameAt?, hc]
      rw [hn, Option.map_some, drop_nameAt? hn]
      simp [namePattern, Pattern.ways, hc, List.head?_map, head?_runs]
    · simp [namePattern, Pattern.ways, nameAt?, hc]

/-- A reference in braces has its opening brace first. -/
theorem tail_of_bracedAt? (h : bracedAt? t = some r) : r.tail = .char '{' :: r.tail.drop 1 := by
  simp only [bracedAt?] at h
  split at h
  · cases h
  · split at h
    · cases h; rfl
    · split at h
      · cases h; rfl
      · cases h
    · cases h

/-- The match at a place is the reference that is found there. -/
theorem match?_reference (c : CodePoint) (t : Text) :
    referencePattern.match? (c :: t) =
      if c = '$' then (Reference.at? t).map fun r => ⟨r.groups, r.text, t.drop r.tail.length⟩
      else none := by
  by_cases hc : c = '$'
  · subst hc
    have hways : referencePattern.match? (.char '$' :: t) =
        (((Pattern.both (.mark '{') bracedPattern).ways t).head?.or
          ((Pattern.group .bare namePattern).ways t).head?).map fun w =>
            ⟨w.groups, .char '$' :: w.taken, w.rest⟩ := by
      rw [Pattern.match?, referencePattern, Pattern.ways_mark, if_pos rfl, List.head?_map,
        ← List.head?_append]
      rfl
    rw [hways, if_pos rfl, head?_ways_bare]
    unfold Reference.at?
    split
    · rename_i u
      -- a brace begins no name
      have hbrace : nameAt? (.char '{' :: u) = none := rfl
      have hbraced : (Pattern.both (.mark '{') bracedPattern).ways (.char '{' :: u) =
          (bracedPattern.ways u).map fun w => ⟨w.groups, .char '{' :: w.taken, w.rest⟩ :=
        Pattern.ways_mark '{' '{' bracedPattern u
      rw [hbrace, hbraced, ways_braced]
      cases hr : bracedAt? u with
      | none => rfl
      | some r =>
        have htail := tail_of_bracedAt? hr
        simp only [Option.toList_some, List.map_cons, List.head?_cons, Option.some_or,
          Option.map_some, ← htail, text]
        rw [htail]
        rfl
    · rename_i hbrace
      have hbraced : (Pattern.both (.mark '{') bracedPattern).ways t = [] := by
        cases t with
        | nil => rfl
        | cons d t =>
          exact (Pattern.ways_mark '{' d bracedPattern t).trans
            (if_neg fun h => hbrace t (by rw [h]))
      rw [hbraced]
      cases nameAt? t <;> rfl
  · rw [Pattern.match?, referencePattern, Pattern.ways_mark, if_neg hc, if_neg hc]
    rfl

/-- The matches after the first `skip` characters are the references that are found there. -/
theorem map_findFrom_reference (skip : Nat) (t : Text) :
    (referencePattern.findFrom skip t).map told =
      ((scanFrom skip t).filterMap Piece.reference?).map fun r =>
        (some r.name, r.modifier?, r.text) := by
  induction t generalizing skip with
  | nil => cases skip <;> rfl
  | cons c t ih =>
    cases skip with
    | succ skip => exact ih skip
    | zero =>
      rw [Pattern.findFrom, match?_reference, scanFrom]
      by_cases hc : c = '$'
      · rw [if_pos hc, if_pos hc]
        cases hr : Reference.at? t with
        | none => exact ih 0
        | some r =>
          -- both go on after the reference
          have hlength : r.text.length - 1 = r.tail.length := rfl
          simp only [Option.map_some, List.map_cons, hlength, ih, List.filterMap_cons, told_groups,
            Piece.reference?]
      · rw [if_neg hc, if_neg hc]
        exact ih 0

/-! ## §6. The scan and its grammar. -/

/-- **SCANNING ACCEPTS EXACTLY THE GRAMMAR.**  The pieces of a text are its only reading: a
reference where one stands, else a character.  The references among them are what a pattern tried
with backtracking matches; each is written in one of three forms; with the gaps between them they
make up the text.  Where no reference begins, such as at a brace that is not closed, the scan goes
on at the next character, so that what stands inside is found. -/
theorem find_eq_grammar (t : Text) :
    (∀ pieces, Reading t pieces ↔ pieces = scan t) ∧
    (∀ pieces, Reading t pieces → find t = pieces.filterMap Piece.reference?) ∧
    (find t).map (fun r => (some r.name, r.modifier?, r.text)) =
      (referencePattern.find t).map told ∧
    (∀ r ∈ find t, IsName r.name ∧ Written r) ∧
    ((gaps t).2.map Prod.fst = find t ∧
      (gaps t).1 ++ (gaps t).2.flatMap (fun e => e.1.text ++ e.2) = t) ∧
    (¬ Begins (.char '$' :: .char '{' :: t) →
      find (.char '$' :: .char '{' :: t) = find t) := by
  have reads (pieces : List Piece) : Reading t pieces ↔ pieces = scan t :=
    ⟨Reading.eq_scan, fun h => h ▸ reading_scan t⟩
  refine ⟨reads, fun pieces h => h.eq_scan ▸ rfl, (map_findFrom_reference 0 t).symm,
    fun r hr => ?_, ⟨map_gaps t, text_gaps t⟩, fun hb => ?_⟩
  · obtain ⟨p, hp, hpr⟩ := List.mem_filterMap.1 hr
    cases p with
    | char c => cases hpr
    | ref r' =>
      cases hpr
      exact (reading_scan t).written r hp
  · have hbrace : ¬ Begins (.char '{' :: t) := fun h => by
      have hc := (begins_cons_iff.1 h).1
      exact absurd hc (by decide)
    rw [find, scan_of_not_begins hb, scan_of_not_begins hbrace]
    rfl

/-- What follows an opening brace that is closed too late: another dollar sign comes first. -/
def lateBrace : Text := "A$B:x\x7d$\x7bC:$D\x7d"

/-- The reference inside the braces is found, and so is the one after them; what looks like a
reference in its modifier is none. -/
theorem find_eq_grammar_lateBrace :
    ¬ Begins (.char '$' :: .char '{' :: lateBrace) ∧
      find (.char '$' :: .char '{' :: lateBrace) = find lateBrace ∧
      Reading lateBrace (scan lateBrace) ∧
      find lateBrace = (scan lateBrace).filterMap Piece.reference? ∧
      find lateBrace = [⟨"B", .bare⟩, ⟨"C", .braced (some "$D")⟩] ∧
      IsName "C" ∧ Written ⟨"C", .braced (some "$D")⟩ := by
  have hb : ¬ Begins (.char '$' :: .char '{' :: lateBrace) := by
    rw [begins_cons_iff]
    have hnone : Reference.at? (.char '{' :: lateBrace) = none := by decide
    rintro ⟨-, r, hr⟩
    rw [hnone] at hr
    cases hr
  obtain ⟨reads, found, -, written, -, further⟩ := find_eq_grammar lateBrace
  have hread : Reading lateBrace (scan lateBrace) := (reads _).2 rfl
  have hfind : find lateBrace = [⟨"B", .bare⟩, ⟨"C", .braced (some "$D")⟩] := by decide
  exact ⟨hb, further hb, hread, found _ hread, hfind,
    written ⟨"C", .braced (some "$D")⟩ (by rw [hfind]; simp)⟩

end Reference

end Cascade
