/-
  Cascade.Proofs.Substitution
  ────────────────────────────────
  **EXPANSION IS ONE SIMULTANEOUS SUBSTITUTION.**

  Expansion answers the distinct names of a text and then puts the answers
  in.  `replacing` does it in one go: it walks over the pieces, asks for a
  name where it first occurs and keeps the answer, also when there is none.
  The two do the same in every monad (`expandText_eq_replacing`).

  `Calling` notes every call of a look-up, and keeps the notes when a value
  is beyond what the interpreter writes and the expansion fails:

      transfers_hears            — which names are called, and what comes out
      expandText_eq_substitution — gaps stay, references are replaced, and
                                   nothing is looked at twice
-/
import Mathlib.Algebra.Group.Int.Defs
import Cascade.Proofs.ChainMeaning
import Cascade.Proofs.ReferenceGrammar
import Cascade.Proofs.Transfer
import Cascade.Proofs.Writable

namespace Cascade.Reference

/-! ## §1. Answering names where they occur. -/

section OnDemand

variable {m : Type → Type} [Monad m]

/-- The pieces put together from left to right, where the answer for a name is asked for at its
first occurrence, and kept. -/
def replacing (answer : Text → m (Option Text)) :
    (kept : List (Text × Option Text)) → List Piece → m Text
  | _, [] => return []
  | kept, .char c :: pieces => do return c :: (← replacing answer kept pieces)
  | kept, .ref r :: pieces => do
    match Entries.get? r.name kept with
    | some text => return text.getD r.text ++ (← replacing answer kept pieces)
    | none =>
      let text ← answer r.name
      return text.getD r.text ++ (← replacing answer ((r.name, text) :: kept) pieces)

/-- The names of pieces for which no answer is kept, each once. -/
def fresh (kept : List (Text × Option Text)) (pieces : List Piece) : List Text :=
  (((pieces.filterMap Piece.reference?).map name).filter fun n =>
    (Entries.get? n kept).isNone).eraseDups

/-- Once a name is answered, it is not fresh any more. -/
theorem fresh_of_new {r : Reference} {kept : List (Text × Option Text)}
    (h : Entries.get? r.name kept = none) (text : Option Text) (pieces : List Piece) :
    fresh kept (.ref r :: pieces) = r.name :: fresh ((r.name, text) :: kept) pieces := by
  have hfilter : (fun n => (Entries.get? n ((r.name, text) :: kept)).isNone) =
      fun n => !(n == r.name) && (Entries.get? n kept).isNone := by
    funext n
    by_cases hn : r.name = n
    · simp [Entries.get?, hn]
    · simp [Entries.get?, hn, Ne.symm hn]
  unfold fresh
  rw [hfilter]
  simp [Piece.reference?, h, List.eraseDups_cons, List.filter_filter]

/-- A name that is kept is not fresh. -/
theorem fresh_of_kept {r : Reference} {kept : List (Text × Option Text)} {text : Option Text}
    (h : Entries.get? r.name kept = some text) (pieces : List Piece) :
    fresh kept (.ref r :: pieces) = fresh kept pieces := by
  simp [fresh, Piece.reference?, h]

/-- Pieces put together with the answers for their names. -/
def filled (answers : List (Text × Option Text)) (pieces : List Piece) : Text :=
  pieces.flatMap fun
    | .char c => [c]
    | .ref r => ((Entries.get? r.name answers).getD none).getD r.text

variable [LawfulMonad m]

/-- Asking on the way is asking for the fresh names first. -/
theorem replacing_eq (answer : Text → m (Option Text)) (kept : List (Text × Option Text))
    (pieces : List Piece) :
    replacing answer kept pieces = do
      let answers ← (fresh kept pieces).mapM fun n => do return (n, ← answer n)
      return filled (kept ++ answers) pieces := by
  induction pieces generalizing kept with
  | nil => simp [replacing, fresh, filled]
  | cons p pieces ih =>
    cases p with
    | char c =>
      have hfresh : fresh kept (.char c :: pieces) = fresh kept pieces := rfl
      rw [replacing, ih, hfresh, bind_assoc]
      simp [filled]
    | ref r =>
      rw [replacing]
      cases hk : Entries.get? r.name kept with
      | some text =>
        rw [fresh_of_kept hk]
        simp only [ih, bind_assoc, pure_bind]
        simp [filled, Entries.get?_append, hk]
      | none =>
        -- which names are left does not depend on what the answer is
        have hleft (text : Option Text) :
            fresh ((r.name, text) :: kept) pieces = fresh ((r.name, none) :: kept) pieces :=
          (List.cons.inj ((fresh_of_new hk text pieces).symm.trans (fresh_of_new hk none pieces))).2
        have hput (text : Option Text) (answers : List (Text × Option Text)) :
            filled (kept ++ (r.name, text) :: answers) (.ref r :: pieces) =
              text.getD r.text ++ filled ((r.name, text) :: kept ++ answers) pieces := by
          have hget (n : Text) : Entries.get? n (kept ++ (r.name, text) :: answers) =
              Entries.get? n ((r.name, text) :: kept ++ answers) := by
            by_cases hn : r.name = n
            · subst hn
              simp [Entries.get?_append, Entries.get?, hk]
            · simp [Entries.get?_append, Entries.get?, hn]
          simp [filled, hget, Entries.get?]
        rw [fresh_of_new hk none, List.mapM_cons]
        simp only [ih, hleft, bind_assoc, pure_bind, hput]

/-- Answering the distinct names of a text first is answering them on the way. -/
theorem expandText_eq_replacing (answer : Text → m (Option Text)) (t : Text) :
    expandText answer t = replacing answer [] (scan t) := by
  have hfresh : fresh [] (scan t) = distinctNames t := by
    simp [fresh, distinctNames, Entries.get?]
    rfl
  rw [replacing_eq, hfresh]
  rfl

end OnDemand

/-! ## §2. The calls of a look-up. -/

/-- A computation that notes the calls it makes, latest last; when it fails the notes stay. -/
abbrev Calling := OptionT (StateM (List Text))

/-- What comes out of a computation, and the calls it made. -/
def outcome {α : Type} (x : Calling α) : Option α × List Text := Id.run (x.run.run [])

/-- A look-up whose calls are noted.  The call is made before its value is put into text. -/
def called (lookup : Text → Value) (name : Text) : Calling (Option Text) :=
  OptionT.mk do
    modify (· ++ [name])
    return replacement? (lookup name)

/-- The value of each of the names has a text. -/
def AllWritten (lookup : Text → Value) (names : List Text) : Prop :=
  ∀ n ∈ names, (lookup n).inserted? ≠ none

/-- It has, unless it holds an integer beyond the limit. -/
theorem allWritten_of_writable {lookup : Text → Value} (h : ∀ n, (lookup n).Writable)
    (names : List Text) : AllWritten lookup names := by
  intro n _
  obtain ⟨text, ht⟩ := (h n).inserted
  rw [ht]
  exact Option.some_ne_none text

/-- The names that are called: all of them, or those up to the first whose value has no text. -/
def heard (lookup : Text → Value) : List Text → List Text
  | [] => []
  | n :: names => if (lookup n).inserted? = none then [n] else n :: heard lookup names

variable {lookup : Text → Value}

/-- After names that all have a text, the calls go on. -/
theorem heard_append_of_allWritten {names : List Text} (h : AllWritten lookup names)
    (further : List Text) : heard lookup (names ++ further) = names ++ heard lookup further := by
  induction names with
  | nil => rfl
  | cons n names ih =>
    rw [List.cons_append, heard, if_neg (h n (by simp)), ih fun k hk => h k (by simp [hk])]
    rfl

/-- Where every value has a text, every name is called. -/
theorem heard_of_allWritten {names : List Text} (h : AllWritten lookup names) :
    heard lookup names = names := by
  simpa [heard] using heard_append_of_allWritten h []

/-- After a name without a text, nothing is called. -/
theorem heard_append_of_not_allWritten {names : List Text} (h : ¬ AllWritten lookup names)
    (further : List Text) : heard lookup (names ++ further) = heard lookup names := by
  induction names with
  | nil => exact absurd (fun n hn => by cases hn) h
  | cons n names ih =>
    rw [List.cons_append, heard, heard]
    split
    · rfl
    · rename_i hn
      rw [ih fun hw => h (List.forall_mem_cons.2 ⟨hn, hw⟩)]

/-- A computation with notes beside one without: it comes out the same, it fails exactly where a
value has no text, and it calls the names up to there. -/
structure Hears (lookup : Text → Value) (α : Type) (names : List Text) (x : Calling α)
    (y : Option α) : Prop where
  run (calls : List Text) : x.run.run calls = (y, calls ++ heard lookup names)
  succeeds : y.isSome ↔ AllWritten lookup names

/-- What comes out of it, and the calls it made. -/
theorem Hears.outcome_eq {α : Type} {names : List Text} {x : Calling α} {y : Option α}
    (h : Hears lookup α names x y) : outcome x = (y, heard lookup names) := by
  rw [outcome, h.run, List.nil_append]
  rfl

/-- Where some value has no text, nothing comes out. -/
theorem Hears.outcome_of_not_allWritten {α : Type} {names : List Text} {x : Calling α}
    {y : Option α} (h : Hears lookup α names x y) (hw : ¬ AllWritten lookup names) :
    outcome x = (none, heard lookup names) := by
  rw [h.outcome_eq, Option.not_isSome_iff_eq_none.1 (mt h.succeeds.1 hw)]

/-- What is called is kept track of step by step. -/
theorem transfers_hears (lookup : Text → Value) : Transfers (Hears lookup) where
  pure a :=
    { run := fun calls => by rw [heard, List.append_nil]; rfl
      succeeds := by simp [AllWritten] }
  bind {α β names names' x y f g} hx hf := by
    have hrun (calls : List Text) : (x >>= f).run.run calls =
        y.elim (none, calls ++ heard lookup names) fun a =>
          (f a).run.run (calls ++ heard lookup names) := by
      rw [OptionT.run_bind, Option.elimM, StateT.run_bind, hx.run calls]
      cases y <;> rfl
    have hwritten : AllWritten lookup (names ++ names') ↔
        AllWritten lookup names ∧ AllWritten lookup names' := List.forall_mem_append
    cases y with
    | none =>
      have hn : ¬ AllWritten lookup names := fun h => by cases hx.succeeds.2 h
      exact
        { run := fun calls => by rw [hrun, heard_append_of_not_allWritten hn]; rfl
          succeeds := by simp [hwritten, hn] }
    | some a =>
      have hn : AllWritten lookup names := hx.succeeds.1 rfl
      exact
        { run := fun calls => by
            rw [hrun, Option.elim_some, (hf a).run, heard_append_of_allWritten hn,
              heard_of_allWritten hn, List.append_assoc]
            rfl
          succeeds := by
            rw [hwritten, and_iff_right hn]
            exact (hf a).succeeds }

/-- One call. -/
theorem called_hears (lookup : Text → Value) (n : Text) :
    Hears lookup (Option Text) [n] (called lookup n) (replacement? (lookup n)) where
  run calls := by
    have h : heard lookup [n] = [n] := by simp [heard]
    rw [h]
    rfl
  succeeds := by
    rw [← Option.ne_none_iff_isSome, Ne, replacement?_eq_none_iff]
    simp [AllWritten]

/-! ## §3. The substitution. -/

/-- What stands in place of a reference: its own text where there is no value, else the text of
the value. -/
def put (lookup : Text → Value) (r : Reference) : Text :=
  match lookup r.name with
  | .null => r.text
  | v => v.inserted?.getD []

/-- A text between whose gaps the references are replaced. -/
def substituted (lookup : Text → Value) (t : Text) : Text :=
  (gaps t).1 ++ (gaps t).2.flatMap fun e => put lookup e.1 ++ e.2

/-- An item of a list whose references are replaced. -/
def substitutedItem (lookup : Text → Value) : Value → Value
  | .str t => .str (substituted lookup t)
  | v => v

/-- What stands in place of a reference is the answer for its name, or its own text. -/
theorem getD_replacement? {r : Reference} (h : (lookup r.name).inserted? ≠ none) :
    ((replacement? (lookup r.name)).getD none).getD r.text = put lookup r := by
  unfold put
  generalize lookup r.name = v at h
  obtain ⟨text, ht⟩ := Option.ne_none_iff_exists'.1 h
  cases v with
  | null => rfl
  | _ => simp [replacement?, ht]

/-- Where every value has a text, the expansion is the substitution. -/
theorem expandText_of_allWritten {t : Text} (h : AllWritten lookup (distinctNames t)) :
    expandText (fun n => replacement? (lookup n)) t = some (substituted lookup t) := by
  have answered : ∀ n ∈ distinctNames t,
      replacement? (lookup n) = some ((replacement? (lookup n)).getD none) := fun n hn => by
    obtain ⟨text, ht⟩ :=
      Option.ne_none_iff_exists'.1 (mt replacement?_eq_none_iff.1 (h n hn))
    rw [ht]
    rfl
  rw [expandText_of_answered answered, substituted, gaps, gapped_flatMap, substitute,
    List.flatMap_def, List.flatMap_def]
  congr 2
  refine List.map_congr_left fun p hp => ?_
  cases p with
  | char c => rfl
  | ref r => exact getD_replacement? (h _ (mem_distinctNames_iff.2 ⟨r, hp, rfl⟩))

/-- The same for the items of a list, one by one. -/
theorem expandValue_of_allWritten {items : List Value}
    (h : AllWritten lookup (items.flatMap itemNames)) :
    expandValue (fun n => replacement? (lookup n)) (.list items) =
      some (.list (items.map (substitutedItem lookup))) := by
  have all : items.mapM (expandItem fun n => replacement? (lookup n)) =
      some (items.map (substitutedItem lookup)) := by
    refine Entries.mapM_eq_some_iff.2 ?_
    rw [List.map_map]
    refine List.map_congr_left fun item hi => ?_
    cases item with
    | str t =>
      have ht := expandText_of_allWritten fun n hn => h n (List.mem_flatMap.2 ⟨_, hi, hn⟩)
      rw [expandItem, ht]
      rfl
    | _ => rfl
  rw [expandValue, all]
  rfl

/-- A text without references has no names. -/
theorem distinctNames_of_find_eq_nil {t : Text} (h : find t = []) : distinctNames t = [] := by
  rw [distinctNames, h]
  rfl

/-- Where no name has a value, nothing is replaced. -/
theorem substituted_of_null {t : Text} (h : ∀ n ∈ distinctNames t, lookup n = .null) :
    substituted lookup t = t := by
  have written : AllWritten lookup (distinctNames t) := fun n hn => by
    rw [h n hn]
    exact Option.some_ne_none _
  have unanswered : rewriteText (fun n => replacement? (lookup n)) t =
      rewriteText (fun _ => some none) t := rewriteText_congr fun n hn => by rw [h n hn]; rfl
  have all := expandText_of_allWritten written
  rw [expandText_eq_rewriteText, unanswered, rewriteText_unanswered] at all
  exact (Option.some.inj all).symm

/-- **EXPANSION IS ONE SIMULTANEOUS SUBSTITUTION.**  Whatever the answers come from, a text is
put together piece by piece, each name being asked for where it first occurs.  For a look-up
whose values have a text, as all do without an integer beyond the limit of the interpreter, the
gaps stay and the references between them are replaced, and the names are called in order of
first occurrence, each once; otherwise the expansion fails at the first value without a text.  A
text without references, a look-up without values and a text that may not be expanded leave
everything as it is.  A list is expanded item by item. -/
theorem expandText_eq_substitution (lookup : Text → Value) (t : Text) (items : List Value) :
    (∀ {m : Type → Type} [Monad m] [LawfulMonad m] (answer : Text → m (Option Text)),
      expandText answer t = replacing answer [] (scan t)) ∧
    ((gaps t).2.map Prod.fst = find t ∧
      (gaps t).1 ++ (gaps t).2.flatMap (fun e => e.1.text ++ e.2) = t) ∧
    ((∀ n, (lookup n).Writable) → ∀ names, AllWritten lookup names) ∧
    (AllWritten lookup (distinctNames t) →
      outcome (expandText (called lookup) t) =
        (some ((gaps t).1 ++ (gaps t).2.flatMap fun e => put lookup e.1 ++ e.2),
          distinctNames t)) ∧
    (¬ AllWritten lookup (distinctNames t) →
      outcome (expandText (called lookup) t) = (none, heard lookup (distinctNames t))) ∧
    (find t = [] → outcome (expandText (called lookup) t) = (some t, [])) ∧
    outcome (expandText (called fun _ => .null) t) = (some t, distinctNames t) ∧
    outcome (expandTextIf false (called lookup) t) = (some t, []) ∧
    (AllWritten lookup (items.flatMap itemNames) →
      outcome (expandValue (called lookup) (.list items)) =
        (some (.list (items.map (substitutedItem lookup))), items.flatMap itemNames)) ∧
    (¬ AllWritten lookup (items.flatMap itemNames) →
      outcome (expandValue (called lookup) (.list items)) =
        (none, heard lookup (items.flatMap itemNames))) := by
  have text (lookup : Text → Value) := (transfers_hears lookup).expandText (t := t)
    fun n _ => called_hears lookup n
  have list : Hears lookup Value (items.flatMap itemNames) _ _ :=
    (transfers_hears lookup).expandValue (v := .list items) fun n _ => called_hears lookup n
  have whole {lookup : Text → Value} (h : AllWritten lookup (distinctNames t)) :
      outcome (expandText (called lookup) t) =
        (some (substituted lookup t), distinctNames t) := by
    rw [(text lookup).outcome_eq, expandText_of_allWritten h, heard_of_allWritten h]
  refine ⟨fun answer => expandText_eq_replacing answer t, ⟨map_gaps t, text_gaps t⟩,
    allWritten_of_writable, whole, (text lookup).outcome_of_not_allWritten, fun h => ?_, ?_, rfl,
    fun h => ?_, list.outcome_of_not_allWritten⟩
  · have hd := distinctNames_of_find_eq_nil h
    have hw : ∀ n ∈ distinctNames t, False := by simp [hd]
    rw [whole fun n hn => (hw n hn).elim, substituted_of_null fun n hn => (hw n hn).elim, hd]
  · rw [whole fun n _ => by simp [Value.inserted?], substituted_of_null fun n _ => rfl]
  · rw [list.outcome_eq, expandValue_of_allWritten h, heard_of_allWritten h]

/-- Values that refer to each other, beside names without a value. -/
def exampleLookup (name : Text) : Value :=
  (Entries.get? name [("A", .str "B$C"), ("B", .list [.int 1, .str "x"])]).getD .null

/-- A text in which a name occurs twice, in both notations, next to a stray dollar sign. -/
def exampleText : Text := "$$A-$\x7bB:m\x7d$A$C"

/-- A list in which a name occurs in two items. -/
def exampleItems : List Value := [.str "$A", .int 3, .str "$B$A"]

/-- What is put in for a name is not scanned again, also where it forms a reference together
with the gap before it; a list calls a name once in each item. -/
theorem expandText_eq_substitution_nested :
    AllWritten exampleLookup (distinctNames exampleText) ∧
      outcome (expandText (called exampleLookup) exampleText) =
        ((some "$B$C-1,xB$C$C", ["A", "B", "C"]) : Option Text × List Text) ∧
      AllWritten exampleLookup (exampleItems.flatMap itemNames) ∧
      outcome (expandValue (called exampleLookup) (.list exampleItems)) =
        ((some (.list [.str "B$C", .int 3, .str "1,xB$C"]), ["A", "B", "A"]) :
          Option Value × List Text) := by
  have hnames : distinctNames exampleText = ["A", "B", "C"] := by decide
  have hitems : exampleItems.flatMap itemNames = ["A", "B", "A"] := by decide
  have written : AllWritten exampleLookup (distinctNames exampleText) := by
    rw [hnames, AllWritten]
    decide +kernel
  have writtenItems : AllWritten exampleLookup (exampleItems.flatMap itemNames) := by
    rw [hitems, AllWritten]
    decide +kernel
  obtain ⟨-, -, -, run, -, -, -, -, list, -⟩ :=
    expandText_eq_substitution exampleLookup exampleText exampleItems
  refine ⟨written, (run written).trans ?_, writtenItems, (list writtenItems).trans ?_⟩
  · decide +kernel
  · decide +kernel

end Cascade.Reference
