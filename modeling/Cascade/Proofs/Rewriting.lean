/-
  Cascade.Proofs.Rewriting
  ────────────────────────────────
  **REPLACING EVERY REFERENCE BY ITS OWN ANSWER.**

  Expansion answers the DISTINCT names of a text first and then puts the
  answers in.  Where answering leaves nothing behind, that is the same as
  going through the pieces of the text and answering each reference where it
  stands:

      expandText_eq_rewriteText, expandValue_eq_rewriteValue

  A rewritten value depends on the answers for its own names only
  (`rewriteValue_congr`), and it exists exactly when they all do
  (`rewriteValue_eq_none_iff`).
-/
import Mathlib.Data.List.Basic
import Cascade.Reference.Expand

namespace Cascade

/-! ## §1. Lists of results that may be missing. -/

namespace Entries

variable {α β : Type}

/-- All results are there exactly when each one is. -/
theorem mapM_eq_some_iff {f : α → Option β} {l : List α} {r : List β} :
    l.mapM f = some r ↔ l.map f = r.map some := by
  induction l generalizing r with
  | nil => cases r <;> simp
  | cons a l ih =>
    simp only [List.mapM_cons, Option.bind_eq_bind, Option.pure_def, Option.bind_eq_some_iff,
      Option.some.injEq, List.map_cons]
    constructor
    · rintro ⟨b, hb, bs, hbs, rfl⟩
      rw [List.map_cons, hb, ih.1 hbs]
    · intro h
      cases r with
      | nil => simp at h
      | cons b bs =>
        simp only [List.map_cons, List.cons.injEq] at h
        exact ⟨b, h.1, bs, ih.2 h.2, rfl⟩

/-- A result is missing exactly when that of some element is. -/
theorem mapM_eq_none_iff {f : α → Option β} {l : List α} :
    l.mapM f = none ↔ ∃ a ∈ l, f a = none := by
  induction l with
  | nil => simp
  | cons a l ih =>
    simp only [List.mapM_cons, Option.bind_eq_bind, Option.pure_def, List.mem_cons]
    cases h : f a with
    | none => simp [h]
    | some b =>
      cases hl : l.mapM f with
      | none =>
        obtain ⟨c, hc, hn⟩ := ih.1 hl
        exact iff_of_true (by simp) ⟨c, Or.inr hc, hn⟩
      | some bs =>
        have hs : ∀ c ∈ l, f c ≠ none := fun c hc hn => by
          rw [ih.2 ⟨c, hc, hn⟩] at hl
          cases hl
        simp only [Option.bind_some, reduceCtorEq, false_iff]
        rintro ⟨c, rfl | hc, hn⟩
        · rw [h] at hn; cases hn
        · exact hs c hc hn

/-- Results that agree element by element agree as a whole. -/
theorem mapM_congr {m : Type → Type} [Monad m] [LawfulMonad m] {f g : α → m β} {l : List α}
    (h : ∀ a ∈ l, f a = g a) : l.mapM f = l.mapM g := by
  induction l with
  | nil => rfl
  | cons a l ih =>
    rw [List.mapM_cons, List.mapM_cons, h a (by simp), ih fun b hb => h b (by simp [hb])]

/-- Results for entries with distinct keys are there exactly when they are in the order of
the keys and each key has its own. -/
theorem mapM_keyed_eq_some_iff {κ : Type} {f : κ → α → Option β} {l : List (κ × α)}
    {r : List (κ × β)} (h : (l.map Prod.fst).Nodup) :
    l.mapM (fun e => do return (e.1, ← f e.1 e.2)) = some r ↔
      r.map Prod.fst = l.map Prod.fst ∧
        ∀ k a, (k, a) ∈ l → ∃ b, f k a = some b ∧ (k, b) ∈ r := by
  induction l generalizing r with
  | nil => cases r <;> simp
  | cons e l ih =>
    obtain ⟨key, a⟩ := e
    simp only [List.map_cons, List.nodup_cons] at h
    simp only [Option.bind_eq_bind, Option.pure_def] at ih
    simp only [List.mapM_cons, Option.bind_eq_bind, Option.pure_def, Option.bind_eq_some_iff,
      Option.some.injEq, List.map_cons, ih h.2]
    constructor
    · rintro ⟨_, ⟨b, hb, rfl⟩, r, ⟨hk, hr⟩, rfl⟩
      refine ⟨by rw [List.map_cons, hk], fun k a' hm => ?_⟩
      rcases List.mem_cons.1 hm with he | hm
      · cases he
        exact ⟨b, hb, by simp⟩
      · obtain ⟨b', hb', hm'⟩ := hr k a' hm
        exact ⟨b', hb', List.mem_cons_of_mem _ hm'⟩
    · rintro ⟨hk, hr⟩
      -- the result has the same keys, so it begins with the same one
      cases r with
      | nil => simp at hk
      | cons e' r =>
        obtain ⟨key', b⟩ := e'
        simp only [List.map_cons, List.cons.injEq] at hk
        obtain ⟨rfl, hk⟩ := hk
        -- the key on top is in neither rest
        have hn : key' ∉ r.map Prod.fst := by rw [hk]; exact h.1
        obtain ⟨b', hb', hm⟩ := hr key' a (by simp)
        rcases List.mem_cons.1 hm with he | hm
        · cases he
          refine ⟨(key', b), ⟨b, hb', rfl⟩, r, ⟨hk, fun k a' hm' => ?_⟩, rfl⟩
          -- a further key is not the first one again
          obtain ⟨c, hc, hm⟩ := hr k a' (List.mem_cons_of_mem _ hm')
          rcases List.mem_cons.1 hm with he | hm
          · cases he
            exact absurd (List.mem_map_of_mem hm') h.1
          · exact ⟨c, hc, hm⟩
        · exact absurd (List.mem_map_of_mem hm) hn

/-- A key of a list built from keys has the value built from it. -/
theorem get?_map_of_mem [DecidableEq α] {f : α → β} {l : List α} {a : α} (h : a ∈ l) :
    get? a (l.map fun x => (x, f x)) = some (f a) := by
  induction l with
  | nil => simp at h
  | cons b l ih =>
    by_cases hb : b = a
    · subst hb; simp [get?]
    · have ha : a ∈ l := by simpa [Ne.symm hb] using h
      simpa [get?, hb] using ih ha

end Entries

namespace Reference

/-! ## §2. Rewriting. -/

/-- A piece of a text with its reference answered; without an answer it stays as written. -/
def rewritePiece (answer : Text → Option (Option Text)) : Piece → Option Text
  | .char c => some [c]
  | .ref r => (answer r.name).map fun text => text.getD r.text

/-- A text with each reference answered where it stands. -/
def rewriteText (answer : Text → Option (Option Text)) (t : Text) : Option Text :=
  ((scan t).mapM (rewritePiece answer)).map List.flatten

/-- An item of a list with each reference answered where it stands. -/
def rewriteItem (answer : Text → Option (Option Text)) : Value → Option Value
  | .str t => (rewriteText answer t).map .str
  | v => some v

/-- A value with each reference answered where it stands: in a text, or in the texts of a
list. -/
def rewriteValue (answer : Text → Option (Option Text)) : Value → Option Value
  | .str t => (rewriteText answer t).map .str
  | .list items => (items.mapM (rewriteItem answer)).map .list
  | v => some v

variable {answer answer' : Text → Option (Option Text)}

/-- The names of a text are those of the references among its pieces. -/
theorem mem_names_iff {n : Text} {t : Text} :
    n ∈ (find t).map name ↔ ∃ r, .ref r ∈ scan t ∧ r.name = n := by
  simp only [find, List.mem_map, List.mem_filterMap]
  constructor
  · rintro ⟨r, ⟨p, hp, h⟩, rfl⟩
    cases p with
    | char c => simp at h
    | ref r' => cases h; exact ⟨r, hp, rfl⟩
  · rintro ⟨r, hr, rfl⟩
    exact ⟨r, ⟨.ref r, hr, rfl⟩, rfl⟩

/-- A name is distinct in a text exactly when one of its pieces refers to it. -/
theorem mem_distinctNames_iff {n : Text} {t : Text} :
    n ∈ distinctNames t ↔ ∃ r, .ref r ∈ scan t ∧ r.name = n :=
  List.mem_eraseDups.trans mem_names_iff

/-! ## §3. One text. -/

/-- Rewriting where every name of the text is answered. -/
theorem rewriteText_of_answered {f : Text → Option Text} {t : Text}
    (h : ∀ n ∈ distinctNames t, answer n = some (f n)) :
    rewriteText answer t = some (substitute f t) := by
  have hm : (scan t).mapM (rewritePiece answer) =
      some ((scan t).map fun
        | .char c => [c]
        | .ref r => (f r.name).getD r.text) := by
    refine Entries.mapM_eq_some_iff.2 ?_
    rw [List.map_map]
    refine List.map_congr_left fun p hp => ?_
    cases p with
    | char c => rfl
    | ref r =>
      have ha := h r.name (mem_distinctNames_iff.2 ⟨r, hp, rfl⟩)
      simp only [rewritePiece, ha, Option.map_some, Function.comp_apply]
  rw [rewriteText, hm, substitute, List.flatMap_def]
  rfl

/-- Expansion where every name of the text is answered. -/
theorem expandText_of_answered {f : Text → Option Text} {t : Text}
    (h : ∀ n ∈ distinctNames t, answer n = some (f n)) :
    expandText answer t = some (substitute f t) := by
  have hm : (distinctNames t).mapM (fun name => do
        let text ← answer name
        return (name, text)) = some ((distinctNames t).map fun n => (n, f n)) := by
    refine Entries.mapM_eq_some_iff.2 ?_
    rw [List.map_map]
    refine List.map_congr_left fun n hn => ?_
    rw [h n hn]
    rfl
  rw [expandText, hm]
  -- each reference finds the answer of its own name in the list
  simp only [Option.bind_eq_bind, Option.bind_some, Option.pure_def, Option.some.injEq,
    substitute, List.flatMap_def]
  congr 1
  refine List.map_congr_left fun p hp => ?_
  cases p with
  | char c => rfl
  | ref r =>
    have hn := mem_distinctNames_iff.2 ⟨r, hp, rfl⟩
    simp only
    rw [Entries.get?_map_of_mem hn]
    rfl

/-- A text cannot be rewritten exactly when one of its names cannot be answered. -/
theorem rewriteText_eq_none_iff {t : Text} :
    rewriteText answer t = none ↔ ∃ n ∈ distinctNames t, answer n = none := by
  rw [rewriteText, Option.map_eq_none_iff, Entries.mapM_eq_none_iff]
  constructor
  · rintro ⟨p, hp, h⟩
    cases p with
    | char c => cases h
    | ref r =>
      exact ⟨r.name, mem_distinctNames_iff.2 ⟨r, hp, rfl⟩, Option.map_eq_none_iff.1 h⟩
  · rintro ⟨n, hn, h⟩
    obtain ⟨r, hr, rfl⟩ := mem_distinctNames_iff.1 hn
    exact ⟨.ref r, hr, Option.map_eq_none_iff.2 h⟩

/-- Answering names once and putting the answers in is answering each reference. -/
theorem expandText_eq_rewriteText (answer : Text → Option (Option Text)) (t : Text) :
    expandText answer t = rewriteText answer t := by
  by_cases h : ∃ n ∈ distinctNames t, answer n = none
  · obtain ⟨n, hn, ha⟩ := h
    rw [rewriteText_eq_none_iff.2 ⟨n, hn, ha⟩, expandText,
      Entries.mapM_eq_none_iff.2 ⟨n, hn, by rw [ha]; rfl⟩]
    rfl
  · -- every name is answered, so both put the same answers in
    have hs : ∀ n ∈ distinctNames t, answer n = some ((answer n).getD none) := by
      intro n hn
      cases ha : answer n with
      | none => exact absurd ⟨n, hn, ha⟩ h
      | some text => rfl
    rw [expandText_of_answered hs, rewriteText_of_answered hs]

/-! ## §4. Values. -/

/-- Expansion of a value is answering each of its references. -/
theorem expandValue_eq_rewriteValue (answer : Text → Option (Option Text)) (v : Value) :
    expandValue answer v = rewriteValue answer v := by
  have hi : expandItem answer = rewriteItem answer := by
    funext item
    cases item with
    | str t =>
      rw [expandItem, rewriteItem, expandText_eq_rewriteText]
      cases rewriteText answer t <;> rfl
    | _ => rfl
  cases v with
  | str t =>
    rw [expandValue, rewriteValue, expandText_eq_rewriteText]
    cases rewriteText answer t <;> rfl
  | list items =>
    rw [expandValue, rewriteValue, hi]
    cases items.mapM (rewriteItem answer) <;> rfl
  | _ => rfl

/-- The names of a value are those of its texts. -/
theorem mem_namesOf_iff {n : Text} {v : Value} :
    n ∈ namesOf v ↔ ∃ t ∈ textsOf v, n ∈ distinctNames t := by
  simp only [namesOf, List.mem_flatMap, distinctNames, List.mem_eraseDups]

/-- The texts of a list are its items that are texts. -/
theorem mem_textsOf_list_iff {t : Text} {items : List Value} :
    t ∈ textsOf (.list items) ↔ .str t ∈ items := by
  simp only [textsOf, List.mem_filterMap]
  constructor
  · rintro ⟨item, hi, h⟩
    cases item <;> simp at h
    subst h
    exact hi
  · intro h
    exact ⟨.str t, h, rfl⟩

/-- The names answered for an item of a list. -/
def itemNames : Value → List Text
  | .str t => distinctNames t
  | _ => []

/-- The names of a list are those of its items. -/
theorem mem_itemNames_iff {n : Text} {items : List Value} :
    n ∈ items.flatMap itemNames ↔ n ∈ namesOf (.list items) := by
  simp only [List.mem_flatMap, mem_namesOf_iff, mem_textsOf_list_iff]
  constructor
  · rintro ⟨item, hi, hn⟩
    cases item with
    | str t => exact ⟨t, hi, hn⟩
    | _ => cases hn
  · rintro ⟨t, ht, hn⟩
    exact ⟨.str t, ht, hn⟩

/-- A value cannot be rewritten exactly when one of its names cannot be answered. -/
theorem rewriteValue_eq_none_iff {v : Value} :
    rewriteValue answer v = none ↔ ∃ n ∈ namesOf v, answer n = none := by
  have texts : (∃ n ∈ namesOf v, answer n = none) ↔
      ∃ t ∈ textsOf v, rewriteText answer t = none := by
    simp only [mem_namesOf_iff, rewriteText_eq_none_iff]
    constructor
    · rintro ⟨n, ⟨t, ht, hn⟩, h⟩
      exact ⟨t, ht, n, hn, h⟩
    · rintro ⟨t, ht, n, hn, h⟩
      exact ⟨n, ⟨t, ht, hn⟩, h⟩
  rw [texts]
  cases v with
  | str t => simp [rewriteValue, textsOf]
  | list items =>
    simp only [rewriteValue, Option.map_eq_none_iff, Entries.mapM_eq_none_iff,
      mem_textsOf_list_iff]
    constructor
    · rintro ⟨item, hi, h⟩
      cases item with
      | str t => exact ⟨t, hi, Option.map_eq_none_iff.1 h⟩
      | _ => cases h
    · rintro ⟨t, ht, h⟩
      exact ⟨.str t, ht, Option.map_eq_none_iff.2 h⟩
  | _ => simp [rewriteValue, textsOf]

/-- A rewritten text depends on the answers for its names only. -/
theorem rewriteText_congr {t : Text} (h : ∀ n ∈ distinctNames t, answer n = answer' n) :
    rewriteText answer t = rewriteText answer' t := by
  rw [rewriteText, rewriteText]
  congr 1
  refine Entries.mapM_congr fun p hp => ?_
  cases p with
  | char c => rfl
  | ref r => rw [rewritePiece, rewritePiece, h _ (mem_distinctNames_iff.2 ⟨r, hp, rfl⟩)]

/-- A rewritten value depends on the answers for its names only. -/
theorem rewriteValue_congr {v : Value} (h : ∀ n ∈ namesOf v, answer n = answer' n) :
    rewriteValue answer v = rewriteValue answer' v := by
  have ht : ∀ t ∈ textsOf v, rewriteText answer t = rewriteText answer' t := fun t ht =>
    rewriteText_congr fun n hn => h n (mem_namesOf_iff.2 ⟨t, ht, hn⟩)
  cases v with
  | str t => rw [rewriteValue, rewriteValue, ht t (by simp [textsOf])]
  | list items =>
    rw [rewriteValue, rewriteValue]
    congr 1
    refine Entries.mapM_congr fun item hi => ?_
    cases item with
    | str t => rw [rewriteItem, rewriteItem, ht t (mem_textsOf_list_iff.2 hi)]
    | _ => rfl
  | _ => rfl

/-- Where no reference has an answer a text stays as written. -/
theorem rewriteText_unanswered (t : Text) : rewriteText (fun _ => some none) t = some t := by
  rw [rewriteText_of_answered (f := fun _ => none) fun n hn => rfl, substitute]
  refine congrArg some (Eq.trans ?_ (text_scan t))
  refine congrArg (fun f => (scan t).flatMap f) (funext fun p => ?_)
  cases p <;> rfl

/-- A value without references stays as written. -/
theorem rewriteValue_of_closed {v : Value} (h : namesOf v = []) :
    rewriteValue answer v = some v := by
  have same : rewriteValue answer v = rewriteValue (fun _ => some none) v :=
    rewriteValue_congr fun n hn => by rw [h] at hn; cases hn
  rw [same]
  cases v with
  | str t => rw [rewriteValue, rewriteText_unanswered]; rfl
  | list items =>
    have item (a : Value) : rewriteItem (fun _ => some none) a = some a := by
      cases a with
      | str t => rw [rewriteItem, rewriteText_unanswered]; rfl
      | _ => rfl
    rw [rewriteValue, Entries.mapM_eq_some_iff.2 (List.map_congr_left fun a _ => item a)]
    rfl
  | _ => rfl

/-- An expanded value depends on the answers for its names only. -/
theorem expandValue_congr {m : Type → Type} [Monad m] [LawfulMonad m]
    {answer answer' : Text → m (Option Text)} {v : Value}
    (h : ∀ n ∈ namesOf v, answer n = answer' n) :
    expandValue answer v = expandValue answer' v := by
  have ht : ∀ t ∈ textsOf v, expandText answer t = expandText answer' t := fun t ht => by
    rw [expandText, expandText]
    congr 1
    refine Entries.mapM_congr fun n hn => ?_
    rw [h n (mem_namesOf_iff.2 ⟨t, ht, hn⟩)]
  cases v with
  | str t => rw [expandValue, expandValue, ht t (by simp [textsOf])]
  | list items =>
    rw [expandValue, expandValue]
    congr 1
    refine Entries.mapM_congr fun item hi => ?_
    cases item with
    | str t => rw [expandItem, expandItem, ht t (mem_textsOf_list_iff.2 hi)]
    | _ => rfl
  | _ => rfl

end Reference

end Cascade
