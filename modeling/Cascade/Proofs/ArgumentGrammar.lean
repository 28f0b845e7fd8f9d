/-
  Cascade.Proofs.ArgumentGrammar
  ────────────────────────────────
  **THE GRAMMAR OF A COMMAND LINE.**

  A command line is a sequence of items, read from left to right.  A flag
  takes the argument after it as its value, whatever that looks like; any
  other argument is an item by itself.  Every command line begins with items
  and ends there, or goes on with what is no item: a flag without a value,
  or two dashes before a name that no flag has.

      exists_items        — the items a command line begins with
      addAll_spell        — they are added one after the other
      Says.add,
      Says.foldlM_add     — what is known of the arguments after one more item,
                            and after more items
      parse_eq_ok_iff,
      parse_eq_error_iff  — when a command line is taken, and why not
      parse_rearranged    — items of different kinds may trade places
      parse_grammar       — all of it

  What an item does depends on no other item, and only items of the same
  flag, and plain ones, replace or follow each other.  So it is the order
  among those that counts.
-/
import Mathlib.Data.List.Infix
import Cascade.Proofs.FlagMasking

namespace Cascade.CommandLine

open Cascade.Text

/-! ## §1. Items. -/

/-- The name of a flag that takes a value. -/
def ValueFlag.name : ValueFlag → Text
  | .setting name => name
  | .startDir => "start-dir"
  | .overrides => "env"

/-- Whether a flag is one of those there are. -/
def ValueFlag.Known : ValueFlag → Prop
  | .setting name => name ∈ settingFlags
  | .startDir => True
  | .overrides => True

/-- The argument that is a flag. -/
def ValueFlag.argument (flag : ValueFlag) : Text := "--" ++ flag.name

/-- An item of a command line. -/
inductive Item
  | flag (flag : ValueFlag) (value : Text)
  | noInterpolate
  | plain (t : Text)
  deriving DecidableEq, Repr

/-- Whether an argument is plain: it does not begin with two dashes, or it asks for help. -/
def IsPlain (t : Text) : Prop := ¬ ofString "--" <+: t ∨ t = "--help"

/-- Whether an argument looks like a flag, but is none. -/
structure IsUnknown (t : Text) : Prop where
  dashes : ofString "--" <+: t
  notHelp : t ≠ "--help"
  notSwitch : t ≠ "--no-interpolate"
  notFlag : ∀ flag : ValueFlag, flag.Known → t ≠ flag.argument

/-- The variables that a JSON object of texts gives, in order. -/
def variablesOf (document : Text) : List (Text × Text) :=
  match Json.read document with
  | .ok (.object members) => members.filterMap fun
    | (name, .str t) => some (name, t)
    | _ => none
  | _ => []

/-- Whether a text is a JSON object of texts. -/
def IsVariables (document : Text) : Prop :=
  ∃ texts : List (Text × Text),
    Json.read document = .ok (.object (texts.map fun m => (m.1, .str m.2)))

/-- Why a text is not a JSON object of texts. -/
inductive NoVariables (document : Text) : Failure → Prop
  | unreadable {fault : Json.Fault} (h : Json.read document = .error fault) :
    NoVariables document (.json document fault)
  | notObject {v : Value} (h : Json.read document = .ok v) (hv : ∀ members, v ≠ .object members) :
    NoVariables document .overridesNotObject
  | notTexts {members : List (Text × Value)} (h : Json.read document = .ok (.object members))
    {m : Text × Value} (hm : m ∈ members) (ht : ∀ t, m.2 ≠ .str t) :
    NoVariables document .overridesNotTexts

namespace Item

/-- The arguments of an item. -/
def arguments : Item → List Text
  | .flag f value => [f.argument, value]
  | .noInterpolate => ["--no-interpolate"]
  | .plain t => [t]

/-- Whether an item is one of the grammar: its flag is known, its plain argument is plain. -/
def Allowed : Item → Prop
  | .flag f _ => f.Known
  | .noInterpolate => True
  | .plain t => IsPlain t

/-- Whether an item gives variables as it should, if it gives any. -/
def Readable : Item → Prop
  | .flag .overrides document => IsVariables document
  | _ => True

end Item

/-- The arguments of items. -/
def spell (items : List Item) : List Text := items.flatMap Item.arguments

/-- The plain arguments among items. -/
def plains (items : List Item) : List Text := items.filterMap fun
  | .plain t => some t
  | _ => none

/-- The values that items give a flag. -/
def valuesOf (flag : ValueFlag) (items : List Item) : List Text := items.filterMap fun
  | .flag other value => if other = flag then some value else none
  | _ => none

/-- Items that are read from a command line, in order, and may be taken: each is one of the
grammar and readable, and one or two are plain. -/
structure Reads (argv : List Text) (items : List Item) : Prop where
  spelled : argv = spell items
  each : ∀ item ∈ items, item.Allowed ∧ item.Readable
  count : (plains items).length = 1 ∨ (plains items).length = 2

/-- What arguments say of the items they were read from: of the values of a flag it is the last
one that counts, and so it is for the variables of one name. -/
structure Says (items : List Item) (a : Arguments) : Prop where
  plain : a.plain = plains items
  interpolate : a.interpolate = false ↔ .noInterpolate ∈ items
  startDir : a.startDir = (valuesOf .startDir items).getLast?.map Path.ofText
  flags : ∀ name, a.flags.get? name = (valuesOf (.setting name) items).getLast?
  overrides : ∀ name, a.overrides.get? name =
    Entries.get? name ((valuesOf .overrides items).flatMap variablesOf).reverse

/-- Why what follows items cannot be read. -/
inductive Stuck : List Text → Failure → Prop
  | noValue {flag : ValueFlag} (known : flag.Known) :
    Stuck [flag.argument] (.flagWithoutValue flag.name)
  | unknown {t : Text} (h : IsUnknown t) (rest : List Text) : Stuck (t :: rest) (.unknownArgument t)
  | noVariables {document : Text} {failure : Failure} (h : NoVariables document failure)
    (rest : List Text) : Stuck ("--env" :: document :: rest) failure

/-- Why a command line is refused: after items that can be taken something cannot be read, or
there are too few plain arguments or too many. -/
inductive Refused : List Text → Failure → Prop
  | stuck {items : List Item} (each : ∀ item ∈ items, item.Allowed ∧ item.Readable)
    {rest : List Text} {failure : Failure} (h : Stuck rest failure) :
    Refused (spell items ++ rest) failure
  | count {items : List Item} (each : ∀ item ∈ items, item.Allowed ∧ item.Readable)
    (h : ¬ ((plains items).length = 1 ∨ (plains items).length = 2)) :
    Refused (spell items) (.usage usage)

/-- Items in another order, in which the plain ones and those of each flag keep theirs. -/
structure Rearranged (items items' : List Item) : Prop where
  perm : items.Perm items'
  plains : plains items = plains items'
  values : ∀ flag, valuesOf flag items = valuesOf flag items'

/-- Arguments that say the same. -/
structure Arguments.Alike (a b : Arguments) : Prop where
  plain : a.plain = b.plain
  interpolate : a.interpolate = b.interpolate
  startDir : a.startDir = b.startDir
  flags : ∀ name, a.flags.get? name = b.flags.get? name
  overrides : ∀ name, a.overrides.get? name = b.overrides.get? name

/-- Two outcomes of reading a command line: it was refused for the same reason, or the arguments
say the same. -/
inductive AlikeOr : Except Failure Arguments → Except Failure Arguments → Prop
  | refused (failure : Failure) : AlikeOr (.error failure) (.error failure)
  | taken {a b : Arguments} (alike : a.Alike b) : AlikeOr (.ok a) (.ok b)

/-! ## §2. What an argument is. -/

section

variable {t : Text} {flag : ValueFlag}

theorem dropStart?_eq_none_iff : dropStart? "--" t = none ↔ ¬ ofString "--" <+: t := by
  constructor
  · rintro h ⟨rest, rfl⟩
    rw [dropStart?_eq_some_iff.2 rfl] at h
    cases h
  · intro h
    cases hd : dropStart? "--" t with
    | none => rfl
    | some rest => exact absurd ⟨rest, (dropStart?_eq_some_iff.1 hd).symm⟩ h

/-- An argument is a flag exactly if it is two dashes and the name of one. -/
theorem valueFlag?_eq_some_iff : valueFlag? t = some flag ↔ flag.Known ∧ t = flag.argument := by
  constructor
  · intro h
    unfold valueFlag? at h
    cases hd : dropStart? "--" t with
    | none => rw [hd] at h; cases h
    | some name =>
      rw [hd] at h
      dsimp only at h
      have ht : t = "--" ++ name := dropStart?_eq_some_iff.1 hd
      split_ifs at h with hsetting hstart henv
      · cases h
        exact ⟨List.contains_iff_mem.1 hsetting, ht⟩
      · cases h
        exact ⟨trivial, ht.trans (congrArg _ hstart)⟩
      · cases h
        exact ⟨trivial, ht.trans (congrArg _ henv)⟩
  · rintro ⟨hknown, rfl⟩
    have hd : dropStart? "--" flag.argument = some flag.name := dropStart?_eq_some_iff.2 rfl
    unfold valueFlag?
    rw [hd]
    cases flag with
    | setting name => exact if_pos (List.contains_iff_mem.2 hknown)
    | startDir => decide
    | overrides => decide

/-- What begins without two dashes is no flag, and neither is `--help`. -/
theorem valueFlag?_of_isPlain (h : IsPlain t) : valueFlag? t = none := by
  rcases h with hdashes | rfl
  · rw [valueFlag?, dropStart?_eq_none_iff.2 hdashes]
  · decide

theorem valueFlag?_of_isUnknown (h : IsUnknown t) : valueFlag? t = none := by
  cases hv : valueFlag? t with
  | none => rfl
  | some flag =>
    obtain ⟨hknown, ht⟩ := valueFlag?_eq_some_iff.1 hv
    exact absurd ht (h.notFlag flag hknown)

/-- An argument that is no flag is the switch, unknown or plain. -/
theorem kinds_of_not_valueFlag (h : valueFlag? t = none) :
    t = "--no-interpolate" ∨ IsUnknown t ∨ IsPlain t := by
  by_cases hswitch : t = "--no-interpolate"
  · exact .inl hswitch
  by_cases hhelp : t = "--help"
  · exact .inr (.inr (.inr hhelp))
  by_cases hdashes : ofString "--" <+: t
  · refine .inr (.inl ⟨hdashes, hhelp, hswitch, fun flag hknown ht => ?_⟩)
    rw [valueFlag?_eq_some_iff.2 ⟨hknown, ht⟩] at h
    cases h
  · exact .inr (.inr (.inl hdashes))

end

/-! ## §3. Variables. -/

section

variable {document : Text}

/-- The members of an object are all texts, and these are they, or one of them is none. -/
theorem textMembers?_cases (members : List (Text × Value)) :
    (∃ texts : List (Text × Text), members = texts.map (fun m => (m.1, .str m.2)) ∧
      Arguments.textMembers? members = some texts) ∨
    ((∃ m ∈ members, ∀ t, m.2 ≠ .str t) ∧ Arguments.textMembers? members = none) := by
  induction members with
  | nil => exact .inl ⟨[], rfl, rfl⟩
  | cons m members ih =>
    obtain ⟨name, v⟩ := m
    unfold Arguments.textMembers? at ih ⊢
    rw [List.mapM_cons]
    cases v with
    | str t =>
      rcases ih with ⟨texts, rfl, htexts⟩ | ⟨⟨m, hm, hno⟩, hnone⟩
      · exact .inl ⟨(name, t) :: texts, rfl, by rw [htexts]; rfl⟩
      · exact .inr ⟨⟨m, List.mem_cons_of_mem _ hm, hno⟩, by rw [hnone]; rfl⟩
    | _ => exact .inr ⟨⟨_, List.mem_cons_self, fun t h => nomatch h⟩, rfl⟩

/-- The variables of an object of texts are its members. -/
theorem variablesOf_of_read {texts : List (Text × Text)}
    (h : Json.read document = .ok (.object (texts.map fun m => (m.1, .str m.2)))) :
    variablesOf document = texts := by
  unfold variablesOf
  rw [h]
  dsimp only
  rw [List.filterMap_map]
  exact List.filterMap_some

/-- A text is read as variables if it is an object of texts, and else fails as it should. -/
theorem readOverrides_cases (document : Text) :
    (IsVariables document ∧ Arguments.readOverrides document = .ok (variablesOf document)) ∨
    ∃ failure, NoVariables document failure ∧
      Arguments.readOverrides document = .error failure := by
  unfold Arguments.readOverrides
  cases hread : Json.read document with
  | error fault => exact .inr ⟨_, .unreadable hread, rfl⟩
  | ok v =>
    cases v with
    | object members =>
      rcases textMembers?_cases members with ⟨texts, rfl, htexts⟩ | ⟨⟨m, hm, hno⟩, hnone⟩
      · refine .inl ⟨⟨texts, hread⟩, ?_⟩
        rw [variablesOf_of_read hread]
        dsimp only
        rw [htexts]
      · exact .inr ⟨_, .notTexts hread hm hno, by dsimp only; rw [hnone]⟩
    | _ => exact .inr ⟨_, .notObject hread fun _ h => (nomatch h), rfl⟩

/-- An object of texts is nothing that fails. -/
theorem not_noVariables {failure : Failure} (h : IsVariables document) :
    ¬ NoVariables document failure := by
  obtain ⟨texts, hread⟩ := h
  intro hno
  cases hno with
  | unreadable h => rw [hread] at h; cases h
  | notObject h hv =>
    rw [hread] at h
    cases h
    exact hv _ rfl
  | notTexts h hm ht =>
    rw [hread] at h
    cases h
    obtain ⟨text, -, rfl⟩ := List.mem_map.1 hm
    exact ht _ rfl

theorem readOverrides_of_isVariables (h : IsVariables document) :
    Arguments.readOverrides document = .ok (variablesOf document) := by
  rcases readOverrides_cases document with ⟨-, hok⟩ | ⟨failure, hno, -⟩
  · exact hok
  · exact absurd hno (not_noVariables h)

/-- There is one reason at most why a text gives no variables. -/
theorem readOverrides_eq_error_iff {failure : Failure} :
    Arguments.readOverrides document = .error failure ↔ NoVariables document failure := by
  constructor
  · intro h
    rcases readOverrides_cases document with ⟨-, hok⟩ | ⟨failure', hno, herror⟩
    · rw [hok] at h; cases h
    · rw [herror] at h; cases h; exact hno
  · intro h
    unfold Arguments.readOverrides
    cases h with
    | unreadable h => rw [h]
    | @notObject v h hv =>
      rw [h]
      cases v with
      | object members => exact absurd rfl (hv members)
      | _ => rfl
    | @notTexts members h m hm ht =>
      rw [h]
      dsimp only
      rcases textMembers?_cases members with ⟨texts, rfl, -⟩ | ⟨-, hnone⟩
      · obtain ⟨text, -, rfl⟩ := List.mem_map.1 hm
        exact absurd rfl (ht _)
      · rw [hnone]

end

/-! ## §4. One item after the other. -/

namespace Arguments

/-- The arguments with an item added. -/
def add (a : Arguments) : Item → Except Failure Arguments
  | .flag f value => a.addFlag value f
  | .noInterpolate => .ok { a with interpolate := false }
  | .plain t => .ok { a with plain := a.plain ++ [t] }

variable {a b : Arguments} {items : List Item} {rest : List Text} {failure : Failure}

theorem addOther_of_isPlain {t : Text} (h : IsPlain t) : a.addOther t = a.add (.plain t) := by
  have hdashes : t ≠ "--help" → ¬ (dropStart? "--" t).isSome = true := by
    intro hhelp hsome
    rcases h with hno | heq
    · rw [dropStart?_eq_none_iff.2 hno] at hsome
      cases hsome
    · exact hhelp heq
  have hswitch : t ≠ "--no-interpolate" := by
    rintro rfl
    exact hdashes (by decide) (by decide)
  unfold addOther
  rw [if_neg hswitch, if_neg fun hunknown => hdashes hunknown.2 hunknown.1]
  rfl

/-- An item of the grammar is read as it was written. -/
theorem addAll_item {item : Item} (h : item.Allowed) (a : Arguments) (rest : List Text) :
    addAll a (item.arguments ++ rest) = a.add item >>= fun a => addAll a rest := by
  cases item with
  | flag f value => exact addAll_flag a value rest (valueFlag?_eq_some_iff.2 ⟨h, rfl⟩)
  | noInterpolate => exact addAll_other a rest (by decide)
  | plain t =>
    show addAll a (t :: rest) = _
    rw [addAll_other a rest (valueFlag?_of_isPlain h), addOther_of_isPlain h]

/-- Items of the grammar are added one after the other, and then what follows them. -/
theorem addAll_spell (h : ∀ item ∈ items, item.Allowed) (a : Arguments) (rest : List Text) :
    addAll a (spell items ++ rest) = items.foldlM add a >>= fun a => addAll a rest := by
  induction items generalizing a with
  | nil => rfl
  | cons item items ih =>
    have hspell : spell (item :: items) ++ rest = item.arguments ++ (spell items ++ rest) := by
      simp [spell]
    rw [hspell, addAll_item (h item List.mem_cons_self), List.foldlM_cons, bind_assoc]
    exact bind_congr fun a' => ih (fun item hitem => h item (List.mem_cons_of_mem _ hitem)) a'

/-- What cannot be read is the end of it, whatever was read before. -/
theorem addAll_stuck (h : Stuck rest failure) (a : Arguments) :
    addAll a rest = .error failure := by
  cases h with
  | @noValue flag known =>
    rw [addAll, valueFlag?_eq_some_iff.2 ⟨known, rfl⟩]
    rfl
  | @unknown t h rest =>
    have hdashes : (dropStart? "--" t).isSome = true := by
      rw [Option.isSome_iff_ne_none, Ne, dropStart?_eq_none_iff, not_not]
      exact h.dashes
    rw [addAll_other a rest (valueFlag?_of_isUnknown h), addOther, if_neg h.notSwitch,
      if_pos ⟨hdashes, h.notHelp⟩]
    rfl
  | @noVariables document _ h rest =>
    have hflag : valueFlag? "--env" = some .overrides := by decide
    rw [addAll_flag a document rest hflag, addFlag, readOverrides_eq_error_iff.2 h]
    rfl

/-- A readable item can be added. -/
theorem exists_add {item : Item} (h : item.Readable) (a : Arguments) :
    ∃ b, a.add item = .ok b := by
  cases item with
  | flag f value =>
    cases f with
    | overrides =>
      show ∃ b, a.addFlag value .overrides = .ok b
      rw [addFlag, readOverrides_of_isVariables h]
      exact ⟨_, rfl⟩
    | _ => exact ⟨_, rfl⟩
  | _ => exact ⟨_, rfl⟩

/-- Readable items can be added. -/
theorem exists_foldlM_add (h : ∀ item ∈ items, item.Readable) (a : Arguments) :
    ∃ b, items.foldlM add a = .ok b := by
  induction items generalizing a with
  | nil => exact ⟨a, rfl⟩
  | cons item items ih =>
    obtain ⟨a', ha'⟩ := exists_add (h item List.mem_cons_self) a
    rw [List.foldlM_cons, ha']
    exact ih (fun item hitem => h item (List.mem_cons_of_mem _ hitem)) a'

end Arguments

/-! ## §5. What the arguments say. -/

section

variable {a b : Arguments} {items items' : List Item}

theorem plains_append : plains (items ++ items') = plains items ++ plains items' :=
  List.filterMap_append

theorem valuesOf_append (flag : ValueFlag) (items items' : List Item) :
    valuesOf flag (items ++ items') = valuesOf flag items ++ valuesOf flag items' :=
  List.filterMap_append

/-- An item gives a flag its value, if it is this flag. -/
theorem valuesOf_flag (flag f : ValueFlag) (value : Text) :
    valuesOf flag [.flag f value] = if f = flag then [value] else [] := by
  unfold valuesOf
  split_ifs with h <;> simp [h]

/-- The variables of several documents and of one more. -/
theorem get?_insertAll_variables {overrides : Mapping Text} {documents : List Text} {name : Text}
    (h : overrides.get? name = Entries.get? name (documents.flatMap variablesOf).reverse)
    (document : Text) :
    (overrides.insertAll (variablesOf document)).get? name =
      Entries.get? name ((documents ++ [document]).flatMap variablesOf).reverse := by
  rw [Table.get?_insertAll_reverse, h, List.flatMap_append, List.reverse_append,
    Entries.get?_append, List.flatMap_singleton]

/-- No arguments say that there are no items. -/
theorem says_nil : Says [] .empty :=
  ⟨rfl, by decide, rfl, fun _ => rfl, fun _ => rfl⟩

/-- A flag gives its value after those it had before. -/
theorem valuesOf_append_same (f : ValueFlag) (value : Text) :
    valuesOf f (items ++ [.flag f value]) = valuesOf f items ++ [value] := by
  rw [valuesOf_append, valuesOf_flag, if_pos rfl]

/-- What arguments say after one more flag: it changes one field, and the others are those of the
items before. -/
theorem Says.addFlag {f : ValueFlag} {value : Text} (h : Says items a)
    (ha : a.addFlag value f = .ok b) : Says (items ++ [.flag f value]) b := by
  have hplain : plains (items ++ [.flag f value]) = plains items := by
    rw [plains_append]
    exact List.append_nil _
  have hswitch : .noInterpolate ∈ items ++ [.flag f value] ↔ .noInterpolate ∈ items := by simp
  have hother (flag : ValueFlag) (hne : f ≠ flag) :
      valuesOf flag (items ++ [.flag f value]) = valuesOf flag items := by
    rw [valuesOf_append, valuesOf_flag, if_neg hne, List.append_nil]
  have hinterpolate := h.interpolate.trans hswitch.symm
  cases f with
  | setting name =>
    cases ha
    refine ⟨hplain ▸ h.plain, hinterpolate, ?_, fun other => ?_, fun other => ?_⟩
    · rw [hother .startDir nofun, ← h.startDir]
    · show (a.flags.insert name value).get? other = _
      rw [Table.get?_insert]
      by_cases hname : name = other
      · rw [if_pos hname, ← hname, valuesOf_append_same, List.getLast?_concat]
      · rw [if_neg hname, hother _ fun hf => hname (ValueFlag.setting.inj hf),
          h.flags]
    · rw [hother .overrides nofun, ← h.overrides]
  | startDir =>
    cases ha
    refine ⟨hplain ▸ h.plain, hinterpolate, ?_, fun other => ?_, fun other => ?_⟩
    · rw [valuesOf_append_same, List.getLast?_concat]
      rfl
    · rw [hother (.setting other) nofun, ← h.flags]
    · rw [hother .overrides nofun, ← h.overrides]
  | overrides =>
    rw [Arguments.addFlag] at ha
    rcases readOverrides_cases value with ⟨-, hread⟩ | ⟨failure, -, hread⟩
    · rw [hread] at ha
      cases ha
      refine ⟨hplain ▸ h.plain, hinterpolate, ?_, fun other => ?_, fun other => ?_⟩
      · rw [hother .startDir nofun, ← h.startDir]
      · rw [hother (.setting other) nofun, ← h.flags]
      · rw [valuesOf_append_same]
        exact get?_insertAll_variables (h.overrides other) value
    · rw [hread] at ha
      cases ha

/-- **WHAT ARGUMENTS SAY AFTER ONE MORE ITEM.** -/
theorem Says.add {item : Item} (h : Says items a) (ha : a.add item = .ok b) :
    Says (items ++ [item]) b := by
  cases item with
  | flag f value => exact h.addFlag ha
  | plain t =>
    have hvalues (flag : ValueFlag) :
        valuesOf flag (items ++ [.plain t]) = valuesOf flag items := by
      rw [valuesOf_append]
      exact List.append_nil _
    cases ha
    refine ⟨?_, ?_, ?_, fun name => ?_, fun name => ?_⟩
    · rw [plains_append, ← h.plain]
      rfl
    · simpa using h.interpolate
    · rw [hvalues, ← h.startDir]
    · rw [hvalues, ← h.flags]
    · rw [hvalues, ← h.overrides]
  | noInterpolate =>
    have hvalues (flag : ValueFlag) :
        valuesOf flag (items ++ [.noInterpolate]) = valuesOf flag items := by
      rw [valuesOf_append]
      exact List.append_nil _
    cases ha
    refine ⟨?_, by simp, ?_, fun name => ?_, fun name => ?_⟩
    · rw [plains_append, ← h.plain]
      exact (List.append_nil _).symm
    · rw [hvalues, ← h.startDir]
    · rw [hvalues, ← h.flags]
    · rw [hvalues, ← h.overrides]

/-- What arguments say after more items. -/
theorem Says.foldlM_add {before : List Item} (h : Says before a)
    (ha : items.foldlM Arguments.add a = .ok b) : Says (before ++ items) b := by
  induction items generalizing before a with
  | nil =>
    cases ha
    rw [List.append_nil]
    exact h
  | cons item items ih =>
    rw [List.foldlM_cons] at ha
    cases hitem : a.add item with
    | error failure => rw [hitem] at ha; cases ha
    | ok a' =>
      rw [hitem] at ha
      rw [List.append_cons]
      exact ih (h.add hitem) ha

/-- Arguments that say the same items say the same. -/
theorem Says.alike (h : Says items a) (hplain : plains items = plains items')
    (hswitch : .noInterpolate ∈ items ↔ .noInterpolate ∈ items')
    (hvalues : ∀ flag, valuesOf flag items = valuesOf flag items') (h' : Says items' b) :
    a.Alike b where
  plain := by rw [h.plain, h'.plain, hplain]
  interpolate := Bool.eq_iff_iff.2 (by
    rw [← not_iff_not, Bool.not_eq_true, Bool.not_eq_true, h.interpolate, h'.interpolate, hswitch])
  startDir := by rw [h.startDir, h'.startDir, hvalues]
  flags name := by rw [h.flags, h'.flags, hvalues]
  overrides name := by rw [h.overrides, h'.overrides, hvalues]

end

/-! ## §6. Whole command lines. -/

section

variable {argv : List Text} {items items' : List Item} {failure : Failure}

/-- **A COMMAND LINE BEGINS WITH ITEMS THAT CAN BE TAKEN,** and ends there or goes on with what
cannot be read. -/
theorem exists_items : ∀ argv : List Text, ∃ items : List Item,
    (∀ item ∈ items, item.Allowed ∧ item.Readable) ∧
      (argv = spell items ∨ ∃ rest failure, Stuck rest failure ∧ argv = spell items ++ rest)
  | [] => ⟨[], fun _ h => absurd h List.not_mem_nil, .inl rfl⟩
  | argument :: more => by
    -- an item that can be taken goes before those of the rest
    have cons (item : Item) (hitem : item.Allowed ∧ item.Readable) {rest : List Text}
        (hspell : argument :: more = item.arguments ++ rest)
        (hrest : ∃ items : List Item, (∀ item ∈ items, item.Allowed ∧ item.Readable) ∧
          (rest = spell items ∨ ∃ rest' failure, Stuck rest' failure ∧
            rest = spell items ++ rest')) :
        ∃ items : List Item, (∀ item ∈ items, item.Allowed ∧ item.Readable) ∧
          (argument :: more = spell items ∨ ∃ rest failure, Stuck rest failure ∧
            argument :: more = spell items ++ rest) := by
      obtain ⟨items, heach, hend⟩ := hrest
      refine ⟨item :: items, List.forall_mem_cons.2 ⟨hitem, heach⟩, ?_⟩
      rw [hspell, spell, List.flatMap_cons]
      rcases hend with rfl | ⟨rest', failure, hstuck, rfl⟩
      · exact .inl rfl
      · exact .inr ⟨rest', failure, hstuck, (List.append_assoc _ _ _).symm⟩
    have stuck {failure : Failure} (hstuck : Stuck (argument :: more) failure) :
        ∃ items : List Item, (∀ item ∈ items, item.Allowed ∧ item.Readable) ∧
          (argument :: more = spell items ∨ ∃ rest failure, Stuck rest failure ∧
            argument :: more = spell items ++ rest) :=
      ⟨[], fun _ h => absurd h List.not_mem_nil, .inr ⟨_, _, hstuck, rfl⟩⟩
    cases hflag : valueFlag? argument with
    | none =>
      rcases kinds_of_not_valueFlag hflag with rfl | hunknown | hplain
      · exact cons .noInterpolate ⟨trivial, trivial⟩ rfl (exists_items more)
      · exact stuck (.unknown hunknown more)
      · exact cons (.plain argument) ⟨hplain, trivial⟩ rfl (exists_items more)
    | some flag =>
      obtain ⟨hknown, rfl⟩ := valueFlag?_eq_some_iff.1 hflag
      match more with
      | [] => exact stuck (.noValue hknown)
      | value :: rest =>
        cases flag with
        | overrides =>
          rcases readOverrides_cases value with ⟨hvariables, -⟩ | ⟨failure, hno, -⟩
          · exact cons (.flag .overrides value) ⟨hknown, hvariables⟩ rfl (exists_items rest)
          · exact stuck (.noVariables hno rest)
        | setting name =>
          exact cons (.flag (.setting name) value) ⟨hknown, trivial⟩ rfl (exists_items rest)
        | startDir => exact cons (.flag .startDir value) ⟨hknown, trivial⟩ rfl (exists_items rest)

/-- Items that can be taken, if there are one or two plain ones, give arguments that say them;
otherwise how to use the command is said. -/
theorem parse_spell (each : ∀ item ∈ items, item.Allowed ∧ item.Readable) :
    ∃ a, Says items a ∧ Arguments.parse (spell items) =
      if (plains items).length = 1 ∨ (plains items).length = 2 then .ok a
      else .error (.usage usage) := by
  obtain ⟨a, ha⟩ :=
    Arguments.exists_foldlM_add (fun item hitem => (each item hitem).2) Arguments.empty
  have htold : Says items a := says_nil.foldlM_add ha
  have hadd : Arguments.addAll .empty (spell items) = .ok a := by
    have h := Arguments.addAll_spell (fun item hitem => (each item hitem).1) .empty []
    rw [List.append_nil, ha] at h
    exact h
  refine ⟨a, htold, ?_⟩
  rw [Arguments.parse, hadd, ← htold.plain]
  rfl

/-- Items that can be taken and what cannot be read. -/
theorem parse_stuck (each : ∀ item ∈ items, item.Allowed ∧ item.Readable) {rest : List Text}
    (h : Stuck rest failure) : Arguments.parse (spell items ++ rest) = .error failure := by
  obtain ⟨a, ha⟩ :=
    Arguments.exists_foldlM_add (fun item hitem => (each item hitem).2) Arguments.empty
  rw [Arguments.parse, Arguments.addAll_spell fun item hitem => (each item hitem).1, ha]
  show (Arguments.addAll a rest >>= _) = _
  rw [Arguments.addAll_stuck h]
  rfl

/-- Items that a command line reads as are taken. -/
theorem Reads.parse (h : Reads argv items) : ∃ a, Arguments.parse argv = .ok a ∧ Says items a := by
  obtain ⟨a, htold, hparse⟩ := parse_spell h.each
  rw [if_pos h.count] at hparse
  exact ⟨a, h.spelled ▸ hparse, htold⟩

theorem Refused.parse (h : Refused argv failure) : Arguments.parse argv = .error failure := by
  cases h with
  | stuck each h => exact parse_stuck each h
  | count each h =>
    obtain ⟨a, -, hparse⟩ := parse_spell each
    rw [hparse, if_neg h]

/-- A command line reads as items, or it is refused. -/
theorem reads_or_refused (argv : List Text) :
    (∃ items, Reads argv items) ∨ ∃ failure, Refused argv failure := by
  obtain ⟨items, each, rfl | ⟨rest, failure, hstuck, rfl⟩⟩ := exists_items argv
  · by_cases hcount : (plains items).length = 1 ∨ (plains items).length = 2
    · exact .inl ⟨items, rfl, each, hcount⟩
    · exact .inr ⟨_, .count each hcount⟩
  · exact .inr ⟨failure, .stuck each hstuck⟩

theorem parse_eq_ok_iff : (∃ a, Arguments.parse argv = .ok a) ↔ ∃ items, Reads argv items := by
  constructor
  · rintro ⟨a, ha⟩
    rcases reads_or_refused argv with hreads | ⟨failure, hrefused⟩
    · exact hreads
    · rw [hrefused.parse] at ha
      cases ha
  · rintro ⟨items, hreads⟩
    obtain ⟨a, ha, -⟩ := hreads.parse
    exact ⟨a, ha⟩

theorem parse_eq_error_iff : Arguments.parse argv = .error failure ↔ Refused argv failure := by
  constructor
  · intro h
    rcases reads_or_refused argv with ⟨items, hreads⟩ | ⟨failure', hrefused⟩
    · obtain ⟨a, ha, -⟩ := hreads.parse
      rw [ha] at h
      cases h
    · rw [hrefused.parse] at h
      cases h
      exact hrefused
  · exact Refused.parse

/-! ## §7. Another order. -/

/-- Items are readable if the variables they give are. -/
theorem readable_iff : (∀ item ∈ items, item.Readable) ↔
    ∀ document ∈ valuesOf .overrides items, IsVariables document := by
  induction items with
  | nil => simp [valuesOf]
  | cons item items ih =>
    have hvalues : valuesOf .overrides (item :: items) =
        valuesOf .overrides [item] ++ valuesOf .overrides items :=
      valuesOf_append .overrides [item] items
    have hitem : item.Readable ↔ ∀ document ∈ valuesOf .overrides [item], IsVariables document := by
      cases item with
      | flag f value => cases f <;> simp [valuesOf_flag, Item.Readable]
      | _ => simp [valuesOf, Item.Readable]
    rw [List.forall_mem_cons, hvalues, List.forall_mem_append, ih, hitem]

/-- Items are readable, or there is a first one that is not. -/
theorem readable_or_first (items : List Item) :
    (∀ item ∈ items, item.Readable) ∨
    ∃ before document after failure, items = before ++ .flag .overrides document :: after ∧
      (∀ item ∈ before, item.Readable) ∧ NoVariables document failure := by
  induction items with
  | nil => exact .inl fun _ h => absurd h List.not_mem_nil
  | cons item items ih =>
    -- an item that is readable comes before the first one that is not
    have later (hitem : item.Readable) :
        (∀ item' ∈ item :: items, item'.Readable) ∨
        ∃ before document after failure,
          item :: items = before ++ .flag .overrides document :: after ∧
            (∀ item ∈ before, item.Readable) ∧ NoVariables document failure := by
      rcases ih with hall | ⟨before, document, after, failure, rfl, hbefore, hno⟩
      · exact .inl (List.forall_mem_cons.2 ⟨hitem, hall⟩)
      · exact .inr ⟨item :: before, document, after, failure, rfl,
          List.forall_mem_cons.2 ⟨hitem, hbefore⟩, hno⟩
    cases item with
    | flag f value =>
      cases f with
      | overrides =>
        rcases readOverrides_cases value with ⟨hvariables, -⟩ | ⟨failure, hno, -⟩
        · exact later hvariables
        · exact .inr ⟨[], value, items, failure, rfl, fun _ h => absurd h List.not_mem_nil, hno⟩
      | _ => exact later trivial
    | _ => exact later trivial

/-- Two cuts of a list at the first element without a property are at the same one. -/
theorem eq_of_first {α : Type} {P : α → Prop} {l l' r r' : List α} {x y : α}
    (h : l ++ x :: r = l' ++ y :: r') (hl : ∀ a ∈ l, P a) (hl' : ∀ a ∈ l', P a)
    (hx : ¬ P x) (hy : ¬ P y) : x = y := by
  rcases List.append_eq_append_iff.1 h with ⟨m, rfl, hm⟩ | ⟨m, rfl, hm⟩
  · cases m with
    | nil => exact (List.cons.inj hm).1
    | cons z m =>
      cases (List.cons.inj hm).1
      exact absurd (hl' x (by simp)) hx
  · cases m with
    | nil => exact (List.cons.inj hm).1.symm
    | cons z m =>
      cases (List.cons.inj hm).1
      exact absurd (hl y (by simp)) hy

/-- Items of which one is not readable are refused for the first such one. -/
theorem parse_of_first {before after : List Item} {document : Text}
    (hitems : items = before ++ .flag .overrides document :: after)
    (hallowed : ∀ item ∈ items, item.Allowed) (hbefore : ∀ item ∈ before, item.Readable)
    (hno : NoVariables document failure) : Arguments.parse (spell items) = .error failure := by
  subst hitems
  have hspell : spell (before ++ .flag .overrides document :: after) =
      spell before ++ ofString "--env" :: document :: spell after := by
    rw [spell, List.flatMap_append, List.flatMap_cons]
    rfl
  rw [hspell]
  exact parse_stuck (fun item hitem => ⟨hallowed item (List.mem_append_left _ hitem),
    hbefore item hitem⟩) (.noVariables hno _)

/-- **ITEMS MAY TRADE PLACES.**  If the plain ones and those of each flag keep their order, the
outcome is the same. -/
theorem parse_rearranged (hallowed : ∀ item ∈ items, item.Allowed)
    (h : Rearranged items items') :
    AlikeOr (Arguments.parse (spell items)) (Arguments.parse (spell items')) := by
  have hallowed' : ∀ item ∈ items', item.Allowed := fun item hitem =>
    hallowed item (h.perm.mem_iff.2 hitem)
  have hiff : (∀ item ∈ items, item.Readable) ↔ ∀ item ∈ items', item.Readable := by
    rw [readable_iff, readable_iff, h.values]
  rcases readable_or_first items with
    hread | ⟨before, document, after, failure, hitems, hbefore, hno⟩
  · obtain ⟨a, htold, hparse⟩ := parse_spell fun item hitem => ⟨hallowed item hitem,
      hread item hitem⟩
    obtain ⟨b, htold', hparse'⟩ := parse_spell fun item hitem => ⟨hallowed' item hitem,
      hiff.1 hread item hitem⟩
    rw [hparse, hparse', h.plains]
    split_ifs
    · exact .taken (htold.alike h.plains h.perm.mem_iff h.values htold')
    · exact .refused _
  · have hnot : ¬ IsVariables document := fun hvariables => not_noVariables hvariables hno
    rcases readable_or_first items' with
      hread' | ⟨before', document', after', failure', hitems', hbefore', hno'⟩
    · have hread := hiff.2 hread' (.flag .overrides document) (by simp [hitems])
      exact absurd hread hnot
    · have hnot' : ¬ IsVariables document' := fun hvariables => not_noVariables hvariables hno'
      have hvalues := h.values .overrides
      rw [hitems, hitems', valuesOf_append, valuesOf_append] at hvalues
      have hdocument : document = document' :=
        eq_of_first hvalues (readable_iff.1 hbefore) (readable_iff.1 hbefore') hnot hnot'
      have hfailure : failure = failure' := by
        have herror := readOverrides_eq_error_iff.2 hno
        rw [hdocument, readOverrides_eq_error_iff.2 hno'] at herror
        exact (Except.error.inj herror).symm
      rw [parse_of_first hitems hallowed hbefore hno,
        parse_of_first hitems' hallowed' hbefore' hno', hfailure]
      exact .refused _

end

/-! ## §8. The grammar. -/

/-- **A COMMAND LINE IS TAKEN EXACTLY IF IT IS ONE OF THE GRAMMAR.**  It is taken exactly if it
reads as items that are known, of which all that give variables give a JSON object of texts, and
one or two are plain; what it gives then says these items.  Every other command line is refused,
with a failure of the command line and for the first thing that is wrong.  And items may trade
places as long as the plain ones and those of each flag keep their order. -/
theorem parse_grammar (argv : List Text) :
    ((∃ a, Arguments.parse argv = .ok a) ↔ ∃ items, Reads argv items) ∧
    (∀ items, Reads argv items → ∃ a, Arguments.parse argv = .ok a ∧ Says items a) ∧
    (∀ failure, Arguments.parse argv = .error failure ↔ Refused argv failure) ∧
    (∀ items items', argv = spell items → (∀ item ∈ items, item.Allowed) →
      Rearranged items items' →
        AlikeOr (Arguments.parse argv) (Arguments.parse (spell items'))) := by
  refine ⟨parse_eq_ok_iff, fun items => Reads.parse, fun failure => parse_eq_error_iff, ?_⟩
  rintro items items' rfl hallowed hrearranged
  exact parse_rearranged hallowed hrearranged

/-- A command line in which the value of a flag looks like another flag. -/
def flagAsValue : List Text :=
  ["--log", "--no-interpolate", "K", "--env", "\x7b\"A\": \"x\"\x7d", "--help", "--log", "memory"]

/-- What stands after a flag is its value also if it looks like a flag, and a flag given again
replaces it. -/
theorem parse_grammar_flagAsValue :
    ∃ a, Arguments.parse flagAsValue = .ok a ∧
      a.plain = ["K", "--help"] ∧ a.interpolate ≠ false ∧ a.startDir = none ∧
      a.flags.get? "log" = some "memory" ∧ a.overrides.get? "A" = some "x" := by
  have hvariables : IsVariables "\x7b\"A\": \"x\"\x7d" := by
    have hread : (Json.read "\x7b\"A\": \"x\"\x7d").toOption =
        some (.object [("A", .str "x")]) := by decide +kernel
    cases h : Json.read "\x7b\"A\": \"x\"\x7d" with
    | error fault => rw [h] at hread; cases hread
    | ok v =>
      rw [h] at hread
      cases hread
      exact ⟨[("A", "x")], h⟩
  have hreads : Reads flagAsValue
      [.flag (.setting "log") "--no-interpolate", .plain "K",
        .flag .overrides "\x7b\"A\": \"x\"\x7d", .plain "--help",
        .flag (.setting "log") "memory"] := by
    refine ⟨rfl, ?_, .inr rfl⟩
    simp only [List.forall_mem_cons]
    exact ⟨⟨List.mem_cons_self, trivial⟩, ⟨.inl (by decide), trivial⟩, ⟨trivial, hvariables⟩,
      ⟨.inr rfl, trivial⟩, ⟨List.mem_cons_self, trivial⟩, fun _ h => absurd h List.not_mem_nil⟩
  obtain ⟨-, htaken, -, -⟩ := parse_grammar flagAsValue
  obtain ⟨a, ha, htold⟩ := htaken _ hreads
  refine ⟨a, ha, htold.plain, ?_, htold.startDir, htold.flags "log", ?_⟩
  · rw [Ne, htold.interpolate]
    decide
  · rw [htold.overrides]
    decide +kernel

end Cascade.CommandLine
