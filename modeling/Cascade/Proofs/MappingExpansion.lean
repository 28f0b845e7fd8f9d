/-
  Cascade.Proofs.MappingExpansion
  ────────────────────────────────
  **A WHOLE MAPPING EXPANDED.**

  The run over the entries of a mapping follows their meanings, so that the
  expansion is described without its state:

      expandMapping_eq_some_iff         — each key has its meaning
      expandMapping_eq_none_iff         — some key has none
      get?_expandMapping_congr          — the order of the keys does not count
      mem_asked_iff                     — the names that are asked from outside
-/
import Cascade.Proofs.MappingRun

namespace Cascade.Reference

variable {values values' : Mapping Value} {lookup lookup' : Text → Option Value}

/-! ## §1. The meanings of all keys. -/

/-- Every key of a mapping with its meaning above itself, if each has one. -/
def meanings (values : Mapping Value) (lookup : Text → Option Value) :
    Option (List (Text × Value)) :=
  values.entries.mapM fun e => do return (e.1, ← meaning values lookup [e.1] e.2)

/-- The meanings are in the order of the keys, and each is that of its key. -/
theorem meanings_eq_some_iff {es : List (Text × Value)} :
    meanings values lookup = some es ↔
      es.map Prod.fst = values.keys ∧
        ∀ k v, values.get? k = some v →
          ∃ m, meaning values lookup [k] v = some m ∧ (k, m) ∈ es := by
  simp only [meanings, Table.get?_eq_some_iff]
  have h := values.distinct
  exact Entries.mapM_keyed_eq_some_iff (f := fun k v => meaning values lookup [k] v) h

/-- Meanings are missing when one key has none. -/
theorem meanings_eq_none_iff :
    meanings values lookup = none ↔
      ∃ k v, values.get? k = some v ∧ meaning values lookup [k] v = none := by
  rw [meanings, Entries.mapM_eq_none_iff]
  constructor
  · rintro ⟨⟨k, v⟩, he, hm⟩
    refine ⟨k, v, (Table.get?_eq_some_iff values k v).2 he, ?_⟩
    cases h : meaning values lookup [k] v with
    | none => rfl
    | some m => simp [h] at hm
  · rintro ⟨k, v, hk, hm⟩
    exact ⟨(k, v), (Table.get?_eq_some_iff values k v).1 hk, by simp [hm]⟩

/-! ## §2. The run over the mapping. -/

/-- The run over a mapping computes the meanings of its keys. -/
theorem runMapping_eq (values : Mapping Value) (lookup : Text → Option Value) :
    match meanings values lookup with
    | none => runMapping values lookup = none
    | some es => ∃ p, runMapping values lookup = some (Table.ofList es, p) ∧
        AfterKeys values lookup values.keys Progress.start p := by
  have follows : Follows values lookup (AfterKeys values lookup values.keys)
      (expandEntries values lookup values.entries) (meanings values lookup) :=
    expandEntries_follows fun e he => (Table.get?_eq_some_iff values e.1 e.2).2 he
  have h := follows Progress.start sound_start
  cases hm : meanings values lookup with
  | none =>
    rw [hm] at h
    simp only at h
    simp [runMapping, h]
  | some es =>
    rw [hm] at h
    obtain ⟨p, hp, ha⟩ := h
    exact ⟨p, by simp [runMapping, hp], ha⟩

/-- The expansion of a mapping is the table of its meanings. -/
theorem expandMapping_eq_meanings (values : Mapping Value) (lookup : Text → Option Value) :
    expandMapping values lookup = (meanings values lookup).map Table.ofList := by
  have h := runMapping_eq values lookup
  cases hm : meanings values lookup with
  | none =>
    rw [hm] at h
    simp only at h
    simp [expandMapping, h]
  | some es =>
    rw [hm] at h
    obtain ⟨p, hp, -⟩ := h
    simp [expandMapping, hp]

/-! ## §3. The expansion. -/

/-- An expansion has the keys of the mapping, each with its meaning above itself. -/
theorem expandMapping_eq_some_iff {result : Mapping Value} :
    expandMapping values lookup = some result ↔
      result.keys = values.keys ∧
        ∀ k v, values.get? k = some v →
          ∃ m, meaning values lookup [k] v = some m ∧ result.get? k = some m := by
  simp only [Table.get?_eq_some_iff result]
  rw [show result.keys = result.entries.map Prod.fst from rfl, ← meanings_eq_some_iff,
    expandMapping_eq_meanings, Option.map_eq_some_iff]
  constructor
  · rintro ⟨es, hm, rfl⟩
    rw [Table.entries_ofList es ?_, hm]
    rw [(meanings_eq_some_iff.1 hm).1]
    exact values.nodup_keys
  · intro hm
    exact ⟨result.entries, hm, result.ofList_entries⟩

/-- There is no expansion when some key has no meaning. -/
theorem expandMapping_eq_none_iff :
    expandMapping values lookup = none ↔
      ∃ k v, values.get? k = some v ∧ meaning values lookup [k] v = none := by
  rw [expandMapping_eq_meanings, Option.map_eq_none_iff, meanings_eq_none_iff]

/-- What an expansion holds for each key: its value's meaning. -/
theorem get?_of_expandMapping {result : Mapping Value}
    (h : expandMapping values lookup = some result) (k : Text) :
    result.get? k = (values.get? k).bind (meaning values lookup [k]) := by
  obtain ⟨hk, hm⟩ := expandMapping_eq_some_iff.1 h
  cases hv : values.get? k with
  | none =>
    rw [Option.bind_none, Table.get?_eq_none_iff, hk]
    exact (Table.get?_eq_none_iff values k).1 hv
  | some v =>
    obtain ⟨m, hm, hr⟩ := hm k v hv
    rw [hr, Option.bind_some, hm]

/-- Expansions are the same, key by key, for mappings with the same values in any order and
for look-ups that agree on the names referenced from outside. -/
theorem get?_expandMapping_congr (hv : ∀ k, values.get? k = values'.get? k)
    (hl : ∀ n, values.get? n = none → n ∈ names values.values → lookup n = lookup' n) :
    (expandMapping values lookup).map Table.get? =
      (expandMapping values' lookup').map Table.get? := by
  have same : ∀ k v, values.get? k = some v →
      meaning values lookup [k] v = meaning values' lookup' [k] v := fun k v hk =>
    meaning_congr hv (fun n hn hr => hl n hn (mem_names_values_iff.2 hr)) [k]
      fun n hn => ⟨k, v, hk, hn⟩
  -- a key without a meaning has none in the other mapping either
  cases h : expandMapping values lookup with
  | none =>
    obtain ⟨k, v, hk, hm⟩ := expandMapping_eq_none_iff.1 h
    have h' : expandMapping values' lookup' = none :=
      expandMapping_eq_none_iff.2 ⟨k, v, hv k ▸ hk, same k v hk ▸ hm⟩
    rw [h']
  | some result =>
    cases h' : expandMapping values' lookup' with
    | none =>
      obtain ⟨k, v, hk, hm⟩ := expandMapping_eq_none_iff.1 h'
      rw [← hv k] at hk
      have hn : expandMapping values lookup = none :=
        expandMapping_eq_none_iff.2 ⟨k, v, hk, (same k v hk).trans hm⟩
      rw [h] at hn
      cases hn
    | some result' =>
      simp only [Option.map_some, Option.some.injEq]
      funext k
      rw [get?_of_expandMapping h, get?_of_expandMapping h', ← hv k]
      cases hk : values.get? k with
      | none => rfl
      | some v => exact same k v hk

/-- **THE EXPANSION OF A MAPPING IS THE MEANING OF EACH OF ITS KEYS.**  It exists exactly
when every key has a meaning, and then it has the same keys; no value kept for reuse and no
mark shows in it, and the order of the keys makes no difference.  In a meaning a name on the
chain stays as written, a key is replaced by the text of its own meaning above the longer
chain, and any other name by that of its answer, if it has one. -/
theorem expandMapping_eq_meaning (values : Mapping Value) (lookup : Text → Option Value) :
    (∀ result, expandMapping values lookup = some result ↔
      result.keys = values.keys ∧
        ∀ k v, values.get? k = some v →
          ∃ m, meaning values lookup [k] v = some m ∧ result.get? k = some m) ∧
    (expandMapping values lookup = none ↔
      ∃ k v, values.get? k = some v ∧ meaning values lookup [k] v = none) ∧
    (∀ values' : Mapping Value, (∀ k, values.get? k = values'.get? k) →
      (expandMapping values lookup).map Table.get? =
        (expandMapping values' lookup).map Table.get?) ∧
    ∀ chain, (∀ v, meaning values lookup chain v =
        rewriteValue (answerAbove values lookup chain) v) ∧
      ∀ n, (n ∈ chain → answerAbove values lookup chain n = some none) ∧
        (n ∉ chain → ∀ inner, values.get? n = some inner → inner ≠ .null →
          ∀ m, meaning values lookup (n :: chain) inner = some m →
            answerAbove values lookup chain n = m.inserted?.map some) ∧
        (n ∉ chain → values.get? n = none →
          answerAbove values lookup chain n = replacement? ((lookup n).getD .null)) := by
  refine ⟨fun _ => expandMapping_eq_some_iff, expandMapping_eq_none_iff,
    fun _ h => get?_expandMapping_congr h fun _ _ _ => rfl,
    fun chain => ⟨meaning_eq values lookup chain, fun n => ⟨fun hn => if_pos hn, ?_, ?_⟩⟩⟩
  · exact fun hn inner hv hne m hm => answerAbove_of_key hn hv hne hm
  · intro hn hv
    rw [answerAbove, if_neg hn, hv]

/-! ## §4. The names asked from outside. -/

/-- A run asks exactly the referenced names that are no keys. -/
theorem mem_asked_iff {result : Mapping Value} {p : Progress}
    (h : runMapping values lookup = some (result, p)) (n : Text) :
    n ∈ p.asked ↔ n ∈ names values.values ∧ n ∉ values.keys := by
  have hr := runMapping_eq values lookup
  cases hm : meanings values lookup with
  | none =>
    rw [hm] at hr
    simp only at hr
    rw [h] at hr
    cases hr
  | some es =>
    rw [hm] at hr
    obtain ⟨q, hq, ha⟩ := hr
    rw [h] at hq
    cases hq
    rw [mem_names_values_iff, ← Table.get?_eq_none_iff]
    constructor
    -- soundness of the state for one direction, the keys that were expanded for the other
    · exact fun hn => (ha.1.sound.outside hn).symm
    · rintro ⟨⟨k, hk⟩, hn⟩
      obtain ⟨v, hv, -⟩ := id hk
      have hmem : k ∈ values.keys := by
        by_contra hc
        rw [(Table.get?_eq_none_iff values k).2 hc] at hv
        cases hv
      exact ha.2 k hmem n hk hn

/-- A run that does not come to an end has met a value without a text: one of the mapping,
or one for a referenced name that is no key. -/
theorem unwritable_of_runMapping_eq_none (h : runMapping values lookup = none) :
    (∃ k v, values.get? k = some v ∧ v.inserted? = none) ∨
      ∃ n ∈ names values.values, n ∉ values.keys ∧
        ((lookup n).getD .null).inserted? = none := by
  by_contra hno
  have he : expandMapping values lookup = none := by rw [expandMapping, h]; rfl
  obtain ⟨k, v, hv, hm⟩ := expandMapping_eq_none_iff.1 he
  refine meaning_ne_none (fun k v hv hi => hno (.inl ⟨k, v, hv, hi⟩)) (fun n hn hr hi => ?_) [k]
    (fun n hn => ⟨k, v, hv, hn⟩) hm
  exact hno (.inr ⟨n, mem_names_values_iff.2 hr, (Table.get?_eq_none_iff values n).1 hn, hi⟩)

end Cascade.Reference
