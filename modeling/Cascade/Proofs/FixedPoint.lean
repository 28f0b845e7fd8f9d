/-
  Cascade.Proofs.FixedPoint
  ────────────────────────────────
  **AN EXPANSION SOLVES ITS OWN EQUATION.**

  The expansion of a mapping is defined by a walk with a chain.  Away from
  cycles the chain does not show: the value of a key is its value in the
  mapping with each reference to a key replaced by what the EXPANSION has
  for this key, and each other reference by its answer from outside.

      grounded_iff_not_leadsToCycle — rows of references end just where no
                                      cycle is reached
      get?_eq_of_not_leadsToCycle   — the equation, for each key that leads
                                      to no cycle
      Solves.get?_of_grounded       — a solution has the meaning of a key
                                      that leads to no cycle
      expandMapping_eq_solution     — so without cycles there is one
                                      solution, and the expansion is it
-/
import Cascade.Proofs.MappingExpansion

namespace Cascade.Reference

open Relation

variable {values result : Mapping Value} {lookup : Text → Option Value} {k n : Text} {v : Value}

/-! ## §1. Cycles. -/

/-- References lead from a name to one that leads back to itself. -/
def LeadsToCycle (values : Mapping Value) (k : Text) : Prop :=
  ∃ n, ReflTransGen (Refers values) k n ∧ TransGen (Refers values) n n

/-- What references lead to from a grounded name is grounded. -/
theorem Grounded.of_leads (h : Grounded values k) (hn : ReflTransGen (Refers values) k n) :
    Grounded values n := by
  induction hn with
  | refl => exact h
  | tail _ hr ih => exact ih.of_refers hr

/-- The key on top of a chain is grounded unless it leads to a cycle. -/
theorem Chain.grounded (room : Nat) {chain : List Text} (hc : Chain values (k :: chain))
    (hr : values.size ≤ room + chain.length) (hk : ¬ LeadsToCycle values k) :
    Grounded values k := by
  -- the chain grows with each reference, and cannot grow beyond the mapping
  induction room generalizing k chain with
  | zero =>
    have hl := hc.length_le
    simp only [List.length_cons] at hl
    omega
  | succ room ih =>
    refine grounded_of_refers fun n hn => ?_
    have hnc : n ∉ k :: chain := fun hm =>
      hk ⟨n, .single hn, TransGen.tail'_iff.2 ⟨k, hc.leads hm, hn⟩⟩
    have hnk : ¬ LeadsToCycle values n := fun ⟨m, hnm, hm⟩ => hk ⟨m, .head hn hnm, hm⟩
    cases hv : values.get? n with
    | none => exact grounded_of_get?_eq_none hv
    | some inner =>
      have hd : values.contains n = true := by rw [Table.contains, hv]; rfl
      exact ih (hc.push hnc hn hd) (by simp only [List.length_cons]; omega) hnk

/-- Rows of references from a name end just where it leads to no cycle. -/
theorem grounded_iff_not_leadsToCycle : Grounded values k ↔ ¬ LeadsToCycle values k := by
  refine ⟨fun h ⟨n, hn, hc⟩ => (h.of_leads hn).not_cycle hc, fun h => ?_⟩
  cases hv : values.get? k with
  | none => exact grounded_of_get?_eq_none hv
  | some v =>
    have hd : values.contains k = true := by rw [Table.contains, hv]; rfl
    exact (Chain.single hd).grounded values.size (Nat.le_add_right _ _) h

/-! ## §2. The equation. -/

/-- The answer for a name where keys are worth what a mapping `result` has for them. -/
def answerFrom (values result : Mapping Value) (lookup : Text → Option Value) (n : Text) :
    Option (Option Text) :=
  replacement? ((if values.contains n then result.get? n else lookup n).getD .null)

/-- A mapping with the keys of `values` in which each key is its value in `values` with the
references replaced: a key by what this very mapping has for it, another name by its answer
from outside. -/
structure Solves (values : Mapping Value) (lookup : Text → Option Value)
    (result : Mapping Value) : Prop where
  keys : ∀ k, k ∈ result.keys ↔ k ∈ values.keys
  equation : ∀ k v, values.get? k = some v →
    result.get? k = expandValue (answerFrom values result lookup) v

/-- Above a chain without a name, the answer for it is the one from a mapping that has the
meanings of keys. -/
theorem answerAbove_eq_answerFrom {chain : List Text} (hn : n ∉ chain)
    (hm : ∀ inner, values.get? n = some inner →
      result.get? n = meaning values lookup (n :: chain) inner ∧ result.get? n ≠ none) :
    answerAbove values lookup chain n = answerFrom values result lookup n := by
  rw [answerAbove, answerFrom, if_neg hn]
  cases hv : values.get? n with
  | none =>
    have hk : ¬ values.contains n = true := by rw [Table.contains, hv]; exact Bool.false_ne_true
    rw [if_neg hk]
  | some inner =>
    have hk : values.contains n = true := by rw [Table.contains, hv]; rfl
    obtain ⟨he, hne⟩ := hm inner hv
    obtain ⟨m, hr⟩ := Option.ne_none_iff_exists'.1 hne
    rw [if_pos hk, hr]
    rw [hr] at he
    simp only [← he, Option.bind_some, Option.getD_some]

/-- A grounded key means the same above the chain of a grounded key that refers to it. -/
theorem meaning_of_refers (hk : Grounded values k) (hr : Refers values k n) {inner : Value}
    (hi : values.get? n = some inner) :
    meaning values lookup [n, k] inner = meaning values lookup [n] inner := by
  refine meaning_of_grounded (hk.of_refers hr) hi (fun m hm => ?_) fun m _ => List.not_mem_nil
  rw [List.mem_singleton]
  exact hk.ne_of_refers (.head hr hm)

/-- The meaning of a grounded key, from a mapping that has the meanings of the keys it refers
to. -/
theorem meaning_eq_expandValue (hk : Grounded values k) (hv : values.get? k = some v)
    (hm : ∀ n, Refers values k n → ∀ inner, values.get? n = some inner →
      result.get? n = meaning values lookup [n] inner ∧ result.get? n ≠ none) :
    meaning values lookup [k] v = expandValue (answerFrom values result lookup) v := by
  rw [meaning_eq, expandValue_eq_rewriteValue]
  refine rewriteValue_congr fun n hn => ?_
  have hr : Refers values k n := ⟨v, hv, hn⟩
  refine answerAbove_eq_answerFrom ?_ fun inner hi => ?_
  · rw [List.mem_singleton]
    exact hk.ne_of_refers (.single hr)
  · rw [meaning_of_refers hk hr hi]
    exact hm n hr inner hi

/-- An expansion has a value for each key. -/
theorem get?_ne_none_of_expandMapping (h : expandMapping values lookup = some result)
    (hv : values.get? k = some v) : result.get? k ≠ none := by
  obtain ⟨m, -, hr⟩ := (expandMapping_eq_some_iff.1 h).2 k v hv
  rw [hr]
  exact Option.some_ne_none m

/-- **THE EQUATION.**  An expansion satisfies it for each key that leads to no cycle. -/
theorem get?_eq_of_not_leadsToCycle (h : expandMapping values lookup = some result)
    (hv : values.get? k = some v) (hk : ¬ LeadsToCycle values k) :
    result.get? k = expandValue (answerFrom values result lookup) v := by
  rw [get?_of_expandMapping h, hv, Option.bind_some]
  refine meaning_eq_expandValue (grounded_iff_not_leadsToCycle.2 hk) hv fun n _ inner hi => ?_
  refine ⟨?_, get?_ne_none_of_expandMapping h hi⟩
  rw [get?_of_expandMapping h, hi, Option.bind_some]

/-! ## §3. Its solutions. -/

/-- A solution has a value for each key. -/
theorem Solves.ne_none (h : Solves values lookup result) (hv : values.get? k = some v) :
    result.get? k ≠ none := by
  have hk : k ∈ result.keys :=
    (h.keys k).2 ((Table.contains_iff values k).1 (by rw [Table.contains, hv]; rfl))
  exact fun hn => (Table.get?_eq_none_iff result k).1 hn hk

/-- A solution has the meaning of each grounded key. -/
theorem Solves.get?_of_grounded (h : Solves values lookup result) (hk : Grounded values k)
    (hv : values.get? k = some v) : result.get? k = meaning values lookup [k] v := by
  -- on what the key refers to, which a solution has the meaning of
  induction hk generalizing v with
  | intro k hacc ih =>
    rw [h.equation k v hv]
    refine (meaning_eq_expandValue (.intro k hacc) hv fun n hr inner hi => ?_).symm
    exact ⟨ih n hr hi, h.ne_none hi⟩

/-- The answers from a mapping depend on its values only. -/
theorem answerFrom_congr {result' : Mapping Value} (h : result.get? = result'.get?) :
    answerFrom values result lookup = answerFrom values result' lookup := by
  funext n
  rw [answerFrom, answerFrom, h]

/-- Without a cycle, an expansion is a solution. -/
theorem solves_of_expandMapping (hc : ∀ n, ¬ TransGen (Refers values) n n)
    (h : expandMapping values lookup = some result) : Solves values lookup result where
  keys := fun k => by rw [(expandMapping_eq_some_iff.1 h).1]
  equation := fun _ _ hv => get?_eq_of_not_leadsToCycle h hv fun ⟨n, _, hn⟩ => hc n hn

/-- Without a cycle, what has a solution has an expansion, with the same values. -/
theorem Solves.eq_expansion (hc : ∀ n, ¬ TransGen (Refers values) n n)
    (h : Solves values lookup result) :
    ∃ expanded, expandMapping values lookup = some expanded ∧ result.get? = expanded.get? := by
  have grounded (k : Text) : Grounded values k :=
    grounded_iff_not_leadsToCycle.2 fun ⟨n, _, hn⟩ => hc n hn
  cases he : expandMapping values lookup with
  | none =>
    obtain ⟨k, v, hv, hm⟩ := expandMapping_eq_none_iff.1 he
    rw [← h.get?_of_grounded (grounded k) hv] at hm
    exact absurd hm (h.ne_none hv)
  | some expanded =>
    refine ⟨expanded, rfl, funext fun k => ?_⟩
    rw [get?_of_expandMapping he]
    cases hv : values.get? k with
    | none =>
      rw [Option.bind_none, Table.get?_eq_none_iff, h.keys]
      exact (Table.get?_eq_none_iff values k).1 hv
    | some v => exact h.get?_of_grounded (grounded k) hv

/-- A mapping with the values of a solution is one. -/
theorem Solves.congr {result' : Mapping Value} (h : Solves values lookup result)
    (he : result.get? = result'.get?) : Solves values lookup result' where
  keys := fun k => by
    rw [← h.keys k, ← Decidable.not_iff_not, ← Table.get?_eq_none_iff, ← Table.get?_eq_none_iff,
      he]
  equation := fun k v hv => by
    rw [← he, h.equation k v hv, answerFrom_congr he]

/-- **EXPANSION IS THE FIXED POINT OF SUBSTITUTION.**  A key that leads to no cycle has its own
value with each reference replaced by what the expansion has for its name.  Where there is no
cycle at all, the expansion is the only mapping of which this is true: it exists just when there
is such a mapping.  And it does exist when all that is put in has a text. -/
theorem expandMapping_eq_solution (values : Mapping Value) (lookup : Text → Option Value) :
    (∀ result, expandMapping values lookup = some result →
      ∀ k v, values.get? k = some v → ¬ LeadsToCycle values k →
        result.get? k = expandValue (answerFrom values result lookup) v) ∧
    ((∀ n, ¬ TransGen (Refers values) n n) → ∀ result, Solves values lookup result ↔
      ∃ expanded, expandMapping values lookup = some expanded ∧ result.get? = expanded.get?) ∧
    ((∀ k v, values.get? k = some v → v.inserted? ≠ none) →
      (∀ n ∈ names values.values, n ∉ values.keys →
        ((lookup n).getD .null).inserted? ≠ none) →
      ∃ result, expandMapping values lookup = some result) := by
  refine ⟨fun result h k v hv hk => get?_eq_of_not_leadsToCycle h hv hk,
    fun hc result => ⟨fun h => h.eq_expansion hc, ?_⟩, fun hvalues hlookup => ?_⟩
  · rintro ⟨expanded, h, he⟩
    exact (solves_of_expandMapping hc h).congr he.symm
  · cases h : expandMapping values lookup with
    | some result => exact ⟨result, rfl⟩
    | none =>
      have hr : runMapping values lookup = none := Option.map_eq_none_iff.1 h
      rcases unwritable_of_runMapping_eq_none hr with ⟨k, v, hv, hi⟩ | ⟨n, hn, hk, hi⟩
      · exact absurd hi (hvalues k v hv)
      · exact absurd hi (hlookup n hn hk)

/-- References that go down some rank make no cycle. -/
theorem not_cycle_of_rank (rank : Text → Nat)
    (h : ∀ e ∈ values.entries, ∀ n ∈ namesOf e.2, rank n < rank e.1) (n : Text) :
    ¬ TransGen (Refers values) n n := by
  have down {k n : Text} (hr : Refers values k n) : rank n < rank k := by
    obtain ⟨v, hv, hn⟩ := hr
    exact h (k, v) ((Table.get?_eq_some_iff values k v).1 hv) n hn
  have downAll {k n : Text} (hr : TransGen (Refers values) k n) : rank n < rank k := by
    induction hr with
    | single hr => exact down hr
    | tail _ hr ih => exact (down hr).trans ih
  exact fun hn => Nat.lt_irrefl _ (downAll hn)

/-- A mapping where two ways lead from a key to another one, and from there outside. -/
def diamond : Mapping Value := Table.ofList
  [("A", .str "$B$C"), ("B", .str "${D}-"), ("C", .list [.str "$D", .str "x"]), ("D", .str "$Z")]

/-- How far a name is from the one outside. -/
def diamondRank (n : Text) : Nat :=
  if n = "A" then 3 else if n = "B" ∨ n = "C" then 2 else if n = "D" then 1 else 0

/-- One for the name outside. -/
def oneOutside (n : Text) : Option Value := if n = "Z" then some (.int 1) else none

/-- The expansion of this mapping, and every other solution, has both ways put together. -/
theorem expandMapping_eq_solution_diamond :
    (∀ n, ¬ TransGen (Refers diamond) n n) ∧
      ∃ expanded, expandMapping diamond oneOutside = some expanded ∧
        expanded.get? "A" = some (.str "1-1,x") ∧
        expanded.get? "A" =
          expandValue (answerFrom diamond expanded oneOutside) (.str "$B$C") ∧
        ∀ result, Solves diamond oneOutside result → result.get? "A" = some (.str "1-1,x") := by
  have acyclic : ∀ n, ¬ TransGen (Refers diamond) n n := not_cycle_of_rank diamondRank (by decide)
  have texts : ∀ e ∈ diamond.entries, e.2.inserted? ≠ none := by decide
  obtain ⟨equation, solutions, existence⟩ := expandMapping_eq_solution diamond oneOutside
  obtain ⟨expanded, he⟩ := existence
    (fun k v hv => texts (k, v) ((Table.get?_eq_some_iff diamond k v).1 hv)) (by decide +kernel)
  have hvalue : expanded.get? "A" = some (.str "1-1,x") := by
    have h : (expandMapping diamond oneOutside).map (fun m => m.get? "A") =
        some (some (.str "1-1,x")) := by decide +kernel
    rw [he] at h
    exact Option.some.inj h
  refine ⟨acyclic, expanded, he, hvalue, ?_, fun result hs => ?_⟩
  · exact equation expanded he "A" (.str "$B$C") (by decide) fun ⟨n, _, hn⟩ => acyclic n hn
  · obtain ⟨expanded', he', hsame⟩ := (solutions acyclic result).1 hs
    rw [he] at he'
    cases he'
    rw [hsame, hvalue]

end Cascade.Reference
