/-
  Cascade.Proofs.ChainMeaning
  ────────────────────────────────
  **WHAT A VALUE MEANS ABOVE A CHAIN OF KEYS.**

  `meaning` follows references with a chain and NOTHING else: no value is
  kept for reuse and no mark is set.  A name on the chain stays as written;
  a key is replaced by its own meaning above the chain with the key on top;
  any other name is asked from outside.

  A key is `Grounded` when no row of references from it goes on forever.
  The meaning of a grounded key does not depend on the chain, as long as the
  chain leads to it (`meaning_of_grounded`).

      meaning_eq        — the recursion, one answer per name
      meaning_congr     — equal look-ups give equal meanings
-/
import Mathlib.Logic.Relation
import Cascade.Proofs.Rewriting

namespace Cascade.Reference

variable {values values' : Mapping Value} {lookup lookup' : Text → Option Value}

/-! ## §1. Meanings. -/

/-- What a value puts in place of a reference to it: nothing for null, which leaves the
reference as written, else its text, if it has one. -/
def replacement? : Value → Option (Option Text)
  | .null => some none
  | v => v.inserted?.map some

/-- The meaning of a value above a chain of keys; none when a value to be put into a text
has no text. -/
def meaning (values : Mapping Value) (lookup : Text → Option Value) (chain : List Text)
    (v : Value) : Option Value :=
  rewriteValue (fun name =>
    if _onChain : name ∈ chain then some none
    else
      match _key : values.get? name with
      | some inner => (meaning values lookup (name :: chain) inner).bind replacement?
      | none => replacement? ((lookup name).getD .null)) v
termination_by (values.keys.filter (· ∉ chain)).length
decreasing_by
  -- the name is one of the keys that are not on the chain yet
  have hk : name ∈ values.keys := by
    by_contra hn
    rw [(Table.get?_eq_none_iff values name).2 hn] at _key
    cases _key
  have hf : values.keys.filter (· ∉ name :: chain) =
      (values.keys.filter (· ∉ chain)).filter (· ≠ name) := by
    rw [List.filter_filter]
    refine List.filter_congr fun k _ => ?_
    simp [not_or]
  rw [hf]
  refine List.length_filter_lt_length_iff_exists.2 ⟨name, ?_, by simp⟩
  simpa using ⟨hk, _onChain⟩

/-- The answer for a name above a chain. -/
def answerAbove (values : Mapping Value) (lookup : Text → Option Value) (chain : List Text)
    (name : Text) : Option (Option Text) :=
  if name ∈ chain then some none
  else
    match values.get? name with
    | some inner => (meaning values lookup (name :: chain) inner).bind replacement?
    | none => replacement? ((lookup name).getD .null)

/-- A meaning is the value with each reference answered above the chain. -/
theorem meaning_eq (values : Mapping Value) (lookup : Text → Option Value)
    (chain : List Text) (v : Value) :
    meaning values lookup chain v = rewriteValue (answerAbove values lookup chain) v := by
  rw [meaning]
  congr 1
  funext name
  rw [answerAbove]
  split
  · rfl
  · split <;> simp_all

/-! ## §2. References between keys. -/

/-- A key whose value refers to a name. -/
def Refers (values : Mapping Value) (k n : Text) : Prop :=
  ∃ v, values.get? k = some v ∧ n ∈ namesOf v

/-- No row of references from a name goes on for ever. -/
def Grounded (values : Mapping Value) (k : Text) : Prop :=
  Acc (fun n k => Refers values k n) k

/-- A name is referenced in a mapping exactly when one of the keys refers to it. -/
theorem mem_names_values_iff {n : Text} :
    n ∈ names values.values ↔ ∃ k, Refers values k n := by
  simp only [names, List.mem_eraseDups, List.mem_flatMap, Table.values, List.mem_map, Refers]
  constructor
  · rintro ⟨v, ⟨⟨k, v'⟩, he, rfl⟩, hn⟩
    exact ⟨k, v', (Table.get?_eq_some_iff values k v').2 he, hn⟩
  · rintro ⟨k, v, hv, hn⟩
    exact ⟨v, ⟨(k, v), (Table.get?_eq_some_iff values k v).1 hv, rfl⟩, hn⟩

/-- What a grounded key refers to is grounded. -/
theorem Grounded.of_refers {k n : Text} (h : Grounded values k) (hr : Refers values k n) :
    Grounded values n := Acc.inv h hr

/-- A key is grounded when all it refers to is. -/
theorem grounded_of_refers {k : Text} (h : ∀ n, Refers values k n → Grounded values n) :
    Grounded values k := Acc.intro k h

/-- No references lead from a grounded key back to it. -/
theorem Grounded.not_cycle {k : Text} (h : Grounded values k) :
    ¬ Relation.TransGen (Refers values) k k := by
  induction h with
  | intro k _ ih =>
    intro hc
    obtain ⟨n, hn, hk⟩ := Relation.TransGen.head'_iff.1 hc
    exact ih n hn (Relation.TransGen.tail'_iff.2 ⟨k, hk, hn⟩)

/-! ## §3. What a meaning depends on. -/

/-- A reference from a grounded key leads to another name. -/
theorem Grounded.ne_of_refers {k n : Text} (h : Grounded values k)
    (hr : Relation.TransGen (Refers values) k n) : n ≠ k := fun he =>
  h.not_cycle (he ▸ hr)

/-- The meaning of a grounded key is the same above all chains it does not lead back to. -/
theorem meaning_of_grounded {k : Text} (hk : Grounded values k) {v : Value}
    (hv : values.get? k = some v) {chain chain' : List Text}
    (h : ∀ n, Relation.TransGen (Refers values) k n → n ∉ chain)
    (h' : ∀ n, Relation.TransGen (Refers values) k n → n ∉ chain') :
    meaning values lookup (k :: chain) v = meaning values lookup (k :: chain') v := by
  -- on what `k` refers to: both chains grow by `k`, and nothing below leads back to it
  induction hk generalizing v chain chain' with
  | intro k hacc ih =>
    have hk : Grounded values k := Acc.intro k hacc
    rw [meaning_eq, meaning_eq]
    refine rewriteValue_congr fun n hn => ?_
    have hr : Refers values k n := ⟨v, hv, hn⟩
    have hne : n ≠ k := hk.ne_of_refers (.single hr)
    -- whatever `n` leads to, `k` leads to as well
    have further : ∀ {c : List Text}, (∀ m, Relation.TransGen (Refers values) k m → m ∉ c) →
        ∀ m, Relation.TransGen (Refers values) n m → m ∉ k :: c := by
      intro c hc m hm
      have hkm : Relation.TransGen (Refers values) k m := .head hr hm
      simp only [List.mem_cons, not_or]
      exact ⟨hk.ne_of_refers hkm, hc m hkm⟩
    have hc : n ∉ k :: chain := by simpa [hne] using h n (.single hr)
    have hc' : n ∉ k :: chain' := by simpa [hne] using h' n (.single hr)
    rw [answerAbove, answerAbove, if_neg hc, if_neg hc']
    cases hi : values.get? n with
    | none => rfl
    | some inner => simp only [ih n hr hi (further h) (further h')]

/-- Meanings are the same for mappings with the same values and for look-ups that agree on
the names referenced from outside. -/
theorem meaning_congr (hv : ∀ k, values.get? k = values'.get? k)
    (hl : ∀ n, values.get? n = none → (∃ k, Refers values k n) → lookup n = lookup' n)
    (chain : List Text) {v : Value} (hn : ∀ n ∈ namesOf v, ∃ k, Refers values k n) :
    meaning values lookup chain v = meaning values' lookup' chain v := by
  induction chain, v using meaning.induct values with
  | case1 chain v ih =>
    rw [meaning_eq, meaning_eq]
    refine rewriteValue_congr fun n hm => ?_
    rw [answerAbove, answerAbove, ← hv n]
    split
    · rfl
    · rename_i hc
      cases hi : values.get? n with
      | none => simp only [hl n hi (hn n hm)]
      | some inner =>
        simp only [ih n hc inner hi fun m hmm => ⟨n, inner, hi, hmm⟩]

/-! ## §4. When there is a meaning. -/

/-- A value replaces a reference exactly when it has a text. -/
theorem replacement?_eq_none_iff {v : Value} : replacement? v = none ↔ v.inserted? = none := by
  cases v <;> simp [replacement?, Value.inserted?]

/-- Only null leaves a reference as written. -/
theorem replacement?_ne_some_none {v : Value} (h : v ≠ .null) : replacement? v ≠ some none := by
  cases v with
  | null => exact absurd rfl h
  | _ => simp [replacement?]

/-- Rewriting makes no null. -/
theorem rewriteValue_ne_null {answer : Text → Option (Option Text)} {v v' : Value}
    (hv : v ≠ .null) (h : rewriteValue answer v = some v') : v' ≠ .null := by
  cases v with
  | str t =>
    obtain ⟨t', -, rfl⟩ := Option.map_eq_some_iff.1 h
    exact fun h => nomatch h
  | list items =>
    obtain ⟨items', -, rfl⟩ := Option.map_eq_some_iff.1 h
    exact fun h => nomatch h
  | _ => cases h; exact hv

/-- A key off the chain is replaced by the text of its meaning, unless its value is null. -/
theorem answerAbove_of_key {chain : List Text} {n : Text} {inner m : Value} (hn : n ∉ chain)
    (hv : values.get? n = some inner) (hne : inner ≠ .null)
    (hm : meaning values lookup (n :: chain) inner = some m) :
    answerAbove values lookup chain n = m.inserted?.map some := by
  have hm' : rewriteValue (answerAbove values lookup (n :: chain)) inner = some m := by
    rw [← meaning_eq, hm]
  rw [answerAbove, if_neg hn, hv]
  simp only [hm, Option.bind_some]
  cases m with
  | null => exact absurd rfl (rewriteValue_ne_null hne hm')
  | _ => rfl

/-- A rewritten text is a text. -/
theorem exists_str_of_rewriteItem {answer : Text → Option (Option Text)} {item item' : Value}
    (h : rewriteItem answer item = some item') : item' = item ∨ ∃ t, item' = .str t := by
  cases item with
  | str t =>
    obtain ⟨t', -, rfl⟩ := Option.map_eq_some_iff.1 h
    exact Or.inr ⟨t', rfl⟩
  | _ => exact Or.inl (Option.some.inj h).symm

/-- Rewriting a value that has a text gives one that has a text. -/
theorem inserted?_rewriteValue {answer : Text → Option (Option Text)} {v v' : Value}
    (h : rewriteValue answer v = some v') (hv : v.inserted? ≠ none) : v'.inserted? ≠ none := by
  cases v with
  | str t =>
    obtain ⟨t', -, rfl⟩ := Option.map_eq_some_iff.1 h
    simp [Value.inserted?, Value.plain?]
  | list items =>
    -- every item is as it was, or a text
    obtain ⟨items', hi, rfl⟩ := Option.map_eq_some_iff.1 h
    simp only [Value.inserted?, Value.commaSeparated?, Ne, Option.map_eq_none_iff,
      Entries.mapM_eq_none_iff, not_exists, not_and] at hv ⊢
    intro item' hm'
    have hl := Entries.mapM_eq_some_iff.1 hi
    have hm : some item' ∈ items.map (rewriteItem answer) := by
      rw [hl]
      exact List.mem_map_of_mem hm'
    obtain ⟨item, hmem, hr⟩ := List.mem_map.1 hm
    obtain rfl | ⟨t, rfl⟩ := exists_str_of_rewriteItem hr
    · exact hv _ hmem
    · simp [Value.plain?]
  | _ => cases h; exact hv

/-- There is a meaning where all values and all answers from outside have a text. -/
theorem meaning_ne_none (hv : ∀ k v, values.get? k = some v → v.inserted? ≠ none)
    (hl : ∀ n, values.get? n = none → (∃ k, Refers values k n) →
      ((lookup n).getD .null).inserted? ≠ none)
    (chain : List Text) {v : Value} (hn : ∀ n ∈ namesOf v, ∃ k, Refers values k n) :
    meaning values lookup chain v ≠ none := by
  induction chain, v using meaning.induct values with
  | case1 chain v ih =>
    rw [meaning_eq, Ne, rewriteValue_eq_none_iff]
    rintro ⟨n, hm, ha⟩
    rw [answerAbove] at ha
    split at ha
    · cases ha
    · rename_i hc
      cases hi : values.get? n with
      | none =>
        rw [hi] at ha
        exact hl n hi (hn n hm) (replacement?_eq_none_iff.1 ha)
      | some inner =>
        -- the inner value has a meaning, and its text is what could be missing
        have hs := ih n hc inner hi fun m hmm => ⟨n, inner, hi, hmm⟩
        obtain ⟨m, hmean⟩ := Option.ne_none_iff_exists'.1 hs
        rw [hi] at ha
        simp only [hmean, Option.bind_some] at ha
        rw [meaning_eq] at hmean
        exact inserted?_rewriteValue hmean (hv n inner hi) (replacement?_eq_none_iff.1 ha)

end Cascade.Reference
