/-
  Cascade.Proofs.Isolation
  ────────────────────────────────
  **WHAT LIES OUTSIDE A FILE DOES NOT REACH ITS SELF-CONTAINED KEYS.**

  The expansion of a file takes values from outside for some of its
  references, and the environment or the preferences may also define keys
  that the file has itself.  Neither shows in a key from which references
  lead to keys of the file only:

      meaning_of_selfContained   — its meaning is the same for all look-ups
      IsWhole.get?_of_selfContained
                                 — so the whole file has for it what the
                                   file alone says
      all_isolated               — two resolvers that read the same file

  A name outside could only keep the whole file from being made: with an
  integer beyond the interpreter's limit, which a store in memory may have
  been handed (`LeftUnwritable`).
-/
import Cascade.Proofs.WildcardAgreement

namespace Cascade

open Reference Relation

/-! ## §1. Self-contained keys. -/

namespace Reference

variable {values : Mapping Value} {lookup lookup' : Text → Option Value} {k n : Text} {v : Value}

/-- References lead from a name to keys only. -/
def SelfContained (values : Mapping Value) (k : Text) : Prop :=
  ∀ n, ReflTransGen (Refers values) k n → n ∈ values.keys

/-- What a self-contained key refers to is self-contained. -/
theorem SelfContained.of_refers (h : SelfContained values k) (hr : Refers values k n) :
    SelfContained values n := fun m hm => h m (.head hr hm)

/-- A name among keys that refer to each other only is self-contained. -/
theorem selfContained_of_closed {inside : List Text} (hk : k ∈ inside)
    (hkeys : ∀ n ∈ inside, n ∈ values.keys)
    (hclosed : ∀ e ∈ values.entries, e.1 ∈ inside → ∀ n ∈ namesOf e.2, n ∈ inside) :
    SelfContained values k := by
  intro n hn
  refine hkeys n ?_
  induction hn with
  | refl => exact hk
  | @tail b c _ hr ih =>
    obtain ⟨v, hv, hc⟩ := hr
    exact hclosed (b, v) ((Table.get?_eq_some_iff values b v).1 hv) ih c hc

/-- Nothing is asked from outside for a value that refers to self-contained keys: its meaning
is the same for all look-ups. -/
theorem meaning_of_selfContained (chain : List Text)
    (hv : ∀ n ∈ namesOf v, SelfContained values n) :
    meaning values lookup chain v = meaning values lookup' chain v := by
  -- on the recursion of meanings: a reference leads to the chain or to another such key
  induction chain, v using meaning.induct values with
  | case1 chain v ih =>
    rw [meaning_eq, meaning_eq]
    refine rewriteValue_congr fun n hn => ?_
    rw [answerAbove, answerAbove]
    split
    · rfl
    · rename_i hc
      cases hi : values.get? n with
      | none => exact absurd (hv n hn n .refl) ((Table.get?_eq_none_iff values n).1 hi)
      | some inner =>
        simp only [ih n hc inner hi fun m hm => (hv n hn).of_refers ⟨inner, hi, hm⟩]

/-- No answer from outside. -/
def noneOutside : Text → Option Value := fun _ => none

end Reference

namespace Resolver

/-! ## §2. The whole file of one resolver. -/

section

variable {r : Resolver} {w : World} {t : Trace} {values : Mapping Value}

/-- In the whole file a self-contained key has its meaning in the file alone. -/
theorem IsWhole.get?_of_selfContained {lookup : Text → Option Value} {whole : Mapping Value}
    (h : IsWhole values lookup whole) {k : Text} (hk : SelfContained values k) :
    whole.get? k = (values.get? k).bind (meaning values noneOutside [k]) := by
  obtain ⟨expanded, he, hinside⟩ := h.inside
  rw [hinside k (hk k .refl), get?_of_expandMapping he]
  cases hv : values.get? k with
  | none => rfl
  | some v =>
    exact meaning_of_selfContained [k] fun n hn => hk.of_refers ⟨v, hv, hn⟩

end

/-! ## §3. Two resolvers. -/

variable {r r' : Resolver} {w w' : World} {t t' : Trace} {values : Mapping Value}

/-- **WHAT LIES OUTSIDE A FILE DOES NOT REACH ITS SELF-CONTAINED KEYS.**  Two resolvers read
the same file, in surroundings that may differ in everything else.  Their whole files have the
same keys, and the same value for each key that is self-contained: the one it has in the file
alone.  Either resolver has a whole file with a store of writable values, such as every
document; with another one it has none just when a name that the file leaves open is worth a
value without a text. -/
theorem all_isolated (hc : t.cache.Reached) (hc' : t'.cache.Reached)
    (hf : (r.fileValues.exec w t).1 = .ok values)
    (hf' : (r'.fileValues.exec w' t').1 = .ok values)
    (hp : ∀ failure, r.preferences.groups w = .error failure →
      ∃ source reason, failure = .unavailable source reason)
    (hp' : ∀ failure, r'.preferences.groups w' = .error failure →
      ∃ source reason, failure = .unavailable source reason)
    (default default' : Option Value) :
    (r.preferences.Writable → ¬ r.LeftUnwritable w t values) ∧
    (r'.preferences.Writable → ¬ r'.LeftUnwritable w' t' values) ∧
    (r.LeftUnwritable w t values ↔
      ((r.env wildcard default true).exec w t).1 = .error (.unwritable .tooManyDigits)) ∧
    (r'.LeftUnwritable w' t' values ↔
      ((r'.env wildcard default' true).exec w' t').1 = .error (.unwritable .tooManyDigits)) ∧
    (¬ r.LeftUnwritable w t values → ¬ r'.LeftUnwritable w' t' values →
      ∃ es es', ((r.env wildcard default true).exec w t).1 = .ok (.object es) ∧
        ((r'.env wildcard default' true).exec w' t').1 = .ok (.object es') ∧
        (∀ n, n ∈ es.map Prod.fst ↔ n ∈ es'.map Prod.fst) ∧
        ∀ k ∈ values.keys, SelfContained values k →
          Entries.get? k es = Entries.get? k es' ∧
          Entries.get? k es = (values.get? k).bind (meaning values noneOutside [k])) := by
  have failing {r : Resolver} {w : World} {t : Trace} (hc : t.cache.Reached)
      (hf : (r.fileValues.exec w t).1 = .ok values)
      (hp : ∀ failure, r.preferences.groups w = .error failure →
        ∃ source reason, failure = .unavailable source reason) (default : Option Value) :
      r.LeftUnwritable w t values ↔
        ((r.env wildcard default true).exec w t).1 = .error (.unwritable .tooManyDigits) := by
    rw [env_wildcard]
    rcases all_cases hc hf hp with ⟨hl, hall⟩ | ⟨hl, whole, hall, -⟩
    · exact iff_of_true hl (by rw [hall]; rfl)
    · refine iff_of_false hl fun h => ?_
      rw [hall] at h
      cases h
  refine ⟨not_leftUnwritable hc, not_leftUnwritable hc', failing hc hf hp default,
    failing hc' hf' hp' default', fun hl hl' => ?_⟩
  obtain ⟨whole, hall, hw⟩ := ((all_cases hc hf hp).resolve_left fun h => hl h.1).2
  obtain ⟨whole', hall', hw'⟩ := ((all_cases hc' hf' hp').resolve_left fun h => hl' h.1).2
  refine ⟨whole.entries, whole'.entries, by rw [env_wildcard, hall]; rfl,
    by rw [env_wildcard, hall']; rfl, fun n => (hw.keys n).trans (hw'.keys n).symm,
    fun k _ hk => ?_⟩
  have same := hw.get?_of_selfContained hk
  exact ⟨same.trans (hw'.get?_of_selfContained hk).symm, same⟩

/-- A resolver of the same env file whose environment defines all the names in it, and one
more. -/
def definedOutside : Resolver :=
  { oneReference (.int 1) with
    secrets := ⟨.empty, some (Table.ofList [("A", "x"), ("B", "y"), ("X", "z"), ("Y", "u")])⟩ }

/-- The key `A` of the file refers to `B` only, and `B` to nothing. -/
theorem selfContained_twoReferences : SelfContained twoReferencesValues "A" := by
  have inside : ("A" : Text) ∈ (["A", "B"] : List Text) := by decide
  exact selfContained_of_closed inside (by decide) (by decide)

/-- The key `A` is the same for a resolver whose environment defines it, and all the names it
leads to. -/
theorem all_isolated_definedOutside :
    SelfContained twoReferencesValues "A" ∧
    ∃ es es', (((oneReference (.str "$A")).env wildcard none true).exec twoReferencesWorld
        ⟨.new .once, []⟩).1 = .ok (.object es) ∧
      ((definedOutside.env wildcard none true).exec twoReferencesWorld
        ⟨.new .once, []⟩).1 = .ok (.object es') ∧
      Entries.get? ("C" : Text) es = some (.str "$A") ∧
      Entries.get? ("C" : Text) es' = some (.str "z") ∧
      Entries.get? ("A" : Text) es = some (.str "1") ∧
      Entries.get? ("A" : Text) es' = some (.str "1") := by
  have hself := selfContained_twoReferences
  have hall : (((oneReference (.str "$A")).env wildcard none true).exec twoReferencesWorld
      ⟨.new .once, []⟩).1 =
        .ok (.object [("A", .str "1"), ("C", .str "$A"), ("B", .int 1), ("X", .str "$A")]) := by
    decide +kernel
  have hall' : ((definedOutside.env wildcard none true).exec twoReferencesWorld
      ⟨.new .once, []⟩).1 =
        .ok (.object [("A", .str "1"), ("C", .str "z"), ("B", .int 1), ("X", .str "z")]) := by
    decide +kernel
  have hf : ((oneReference (.str "$A")).fileValues.exec twoReferencesWorld
      ⟨.new .once, []⟩).1 = .ok twoReferencesValues := by decide +kernel
  have hf' : (definedOutside.fileValues.exec twoReferencesWorld ⟨.new .once, []⟩).1 =
      .ok twoReferencesValues := by decide +kernel
  obtain ⟨-, -, failing, failing', isolated⟩ := all_isolated (.new .once) (.new .once) hf hf'
    (fun failure hp => by cases hp) (fun failure hp => by cases hp) none none
  obtain ⟨es, es', hes, hes', -, hsame⟩ := isolated
    (fun hl => by rw [failing.1 hl] at hall; cases hall)
    (fun hl => by rw [failing'.1 hl] at hall'; cases hall')
  rw [hall] at hes
  rw [hall'] at hes'
  cases hes
  cases hes'
  obtain ⟨hA, -⟩ := hsame "A" (by decide) hself
  exact ⟨hself, _, _, hall, hall', by decide, by decide, by decide, hA.symm.trans (by decide)⟩

end Resolver

end Cascade
