/-
  Cascade.Proofs.OneLevel
  ────────────────────────────────
  **INTERPOLATION IS EXACTLY ONE LEVEL.**

  A resolver comes back to itself for the names inside the value of a key.
  It does so once: a name is worth what the sources hold for it, as it is,
  whatever references there are in that.

      fill             — a value with texts put in for its references: the
                         pieces between them and what was put in are not
                         looked at again
      answers_of_isName
                       — sources that answer for one key answer for every
                         name that can be referenced
      env_one_level    — the value of a key is its raw value with each name
                         replaced by what it is worth on its own; a default
                         is answered as it is
-/
import Cascade.Proofs.FailsWith
import Cascade.Proofs.Priority
import Cascade.Proofs.WildcardAgreement

namespace Cascade

open Reference

/-! ## §1. Filling in texts. -/

namespace Reference

variable {v : Value}

/-- An item of a list with a text put in for each reference. -/
def fillItem (text : Text → Text) : Value → Value
  | .str t => .str (substitute (fun n => some (text n)) t)
  | v => v

/-- A value with a text put in for each reference: in a text, or in the texts of a list. -/
def fill (text : Text → Text) : Value → Value
  | .str t => .str (substitute (fun n => some (text n)) t)
  | .list items => .list (items.map (fillItem text))
  | v => v

/-- Rewriting where every name has a text. -/
theorem rewriteValue_eq_fill {answer : Text → Option (Option Text)} {text : Text → Text}
    (h : ∀ n ∈ namesOf v, answer n = some (some (text n))) :
    rewriteValue answer v = some (fill text v) := by
  have filled : ∀ t ∈ textsOf v,
      rewriteText answer t = some (substitute (fun n => some (text n)) t) := fun t ht =>
    rewriteText_of_answered fun n hn => h n (mem_namesOf_iff.2 ⟨t, ht, hn⟩)
  cases v with
  | str t => rw [rewriteValue, filled t (by simp [textsOf])]; rfl
  | list items =>
    have item : ∀ item ∈ items, rewriteItem answer item = some (fillItem text item) := by
      intro item hi
      cases item with
      | str t => rw [rewriteItem, filled t (mem_textsOf_list_iff.2 hi)]; rfl
      | _ => rfl
    have all : items.mapM (rewriteItem answer) = some (items.map (fillItem text)) := by
      rw [Entries.mapM_eq_some_iff, List.map_map]
      exact List.map_congr_left item
    rw [rewriteValue, all]
    rfl
  | _ => rfl

/-- Expansion where every name has a text. -/
theorem expandValue_eq_fill {answer : Text → Except Failure (Option Text)} {text : Text → Text}
    (h : ∀ n ∈ namesOf v, answer n = .ok (some (text n))) :
    expandValue answer v = .ok (fill text v) := by
  have same : expandValue answer v =
      expandValue (fun n => orFail .noHome (some (some (text n)))) v :=
    expandValue_congr h
  rw [same, expandValue_orFail, expandValue_eq_rewriteValue, rewriteValue_eq_fill fun n _ => rfl]
  rfl

end Reference

namespace Resolver

variable {r : Resolver} {w : World} {t : Trace} {key n : Text} {v : Value}

/-! ## §2. Sources that answer. -/

/-- Sources that answer, or are unavailable, leave a key open. -/
theorem open_of_answers (hall : ∀ s, r.Answers w t key s) :
    (r.holdings w (r.fetched w t.cache).answer).Open key := by
  intro s
  rcases hall s with ⟨v?, hv⟩ | ⟨path, reason, hv⟩
  · rw [said_eq] at hv
    exact ⟨v?, by rw [hv]; rfl⟩
  · rw [said_eq] at hv
    exact ⟨none, by rw [hv]; rfl⟩

/-- A source that answers for a key, or is unavailable, does so for every name: the environment
can be asked for it, and file and store are read before the key is looked up. -/
theorem answers_of_isName (hall : ∀ s, r.Answers w t key s) (hn : IsName n) :
    ∀ s, r.Answers w t n s := by
  intro s
  have h := hall s
  unfold Answers at h ⊢
  rw [said_eq] at h ⊢
  cases s with
  | environment =>
    exact .inl ⟨_, by rw [holdings, hn.ask]⟩
  | envFile =>
    unfold holdings at h ⊢
    cases hf : (r.fetched w t.cache).answer with
    | ok values => exact .inl ⟨_, rfl⟩
    | error failure =>
      rw [hf] at h
      rcases h with ⟨v?, hv⟩ | ⟨path, reason, hv⟩
      · cases hv
      · cases hv
        exact .inr ⟨path, reason, rfl⟩
  | preferences =>
    unfold holdings Preferences.get? at h ⊢
    cases hg : r.preferences.groups w with
    | ok groups => exact .inl ⟨_, rfl⟩
    | error failure =>
      rw [hg] at h
      rcases h with ⟨v?, hv⟩ | ⟨path, reason, hv⟩
      · cases hv
      · cases hv
        exact .inr ⟨path, reason, rfl⟩

/-! ## §3. What a name is worth. -/

/-- What a name is worth inside another value: what is found for it, as it is, and nothing
where it is undefined. -/
def worth (r : Resolver) (w : World) (t : Trace) (n : Text) : Except Failure Value :=
  ((r.env n (some undefinedValue) false).exec w t).1

/-- The text that a name is replaced by, if what it is worth has one. -/
def worthText? (r : Resolver) (w : World) (t : Trace) (n : Text) : Option Text :=
  (r.worth w t n).toOption.bind Value.inserted?

/-- The answer for a name inside another value. -/
def worthAnswer (r : Resolver) (w : World) (t : Trace) (n : Text) :
    Except Failure (Option Text) := do
  return some (← Holdings.written (← r.worth w t n).inserted?)

/-- A key other than `*` has the answer that the sources determine. -/
theorem answer_of_key (hk : key ≠ wildcard) (default : Option Value) (interpolate : Bool) :
    ((r.env key default interpolate).exec w t).1 =
      (r.holdings w (r.fetched w t.cache).answer).value key default interpolate := by
  rw [env, if_neg hk]
  exact (r.value_gives w _ key default interpolate).answer rfl

/-- A name that is left open is worth what is found for it, or the empty text when it is
missing. -/
theorem worth_cases (hn : IsName n)
    (ho : (r.holdings w (r.fetched w t.cache).answer).Open n) :
    ∃ u, r.worth w t n = .ok u ∧
      (((r.env n none false).exec w t).1 = .ok u ∨
        ((r.env n none false).exec w t).1 = .error (.missing n) ∧ u = undefinedValue) := by
  unfold worth
  rw [answer_of_key hn.ne_wildcard, answer_of_key hn.ne_wildcard, Holdings.value, Holdings.value]
  obtain ⟨v?, hf, -⟩ := Holdings.exists_first fun s (_ : s ∈ Source.all) => ho s
  rw [hf]
  cases v? with
  | none => exact ⟨undefinedValue, rfl, .inr ⟨rfl, rfl⟩⟩
  | some u => exact ⟨u, rfl, .inl rfl⟩

/-- An expansion with what names are worth: all of them have a text, which is filled in, or
one has none. -/
theorem expandValue_worth (hw : ∀ n ∈ namesOf v, ∃ u, r.worth w t n = .ok u) :
    ((∀ n ∈ namesOf v, r.worthText? w t n ≠ none) ∧
      expandValue (r.worthAnswer w t) v =
        .ok (fill (fun n => (r.worthText? w t n).getD []) v)) ∨
    ((∃ n ∈ namesOf v, r.worthText? w t n = none) ∧
      expandValue (r.worthAnswer w t) v = .error (.unwritable .tooManyDigits)) := by
  have answer : ∀ n ∈ namesOf v,
      r.worthAnswer w t n = some <$> Holdings.written (r.worthText? w t n) := by
    intro n hn
    obtain ⟨u, hu⟩ := hw n hn
    rw [worthAnswer, worthText?, hu]
    rfl
  by_cases hno : ∃ n ∈ namesOf v, r.worthText? w t n = none
  · have failing : ∀ n ∈ namesOf v, FailsWith (.unwritable .tooManyDigits)
        (r.worthText? w t n = none) (r.worthAnswer w t n) := by
      intro n hn
      rw [answer n hn]
      cases ht : r.worthText? w t n with
      | none => exact .inl ⟨rfl, rfl⟩
      | some text => exact .inr ⟨(fun h => nomatch h), _, rfl⟩
    exact .inr ⟨hno, (failsWith_expandValue failing).eq_error hno⟩
  · have hall : ∀ n ∈ namesOf v, r.worthText? w t n ≠ none := fun n hn h => hno ⟨n, hn, h⟩
    refine .inl ⟨hall, expandValue_eq_fill fun n hn => ?_⟩
    obtain ⟨text, ht⟩ := Option.ne_none_iff_exists'.1 (hall n hn)
    rw [answer n hn, ht]
    rfl

/-! ## §4. One level. -/

/-- The value of a key that some source defines, given its raw value. -/
structure OneLevel (r : Resolver) (w : World) (t : Trace) (key : Text) (v : Value) : Prop where
  /-- With and without a default the raw value is found. -/
  raw : ∀ default, ((r.env key default false).exec w t).1 = .ok v
  /-- The value is the raw one, expanded with what its names are worth. -/
  expanded : ∀ default, ((r.env key default true).exec w t).1 =
    expandValue (r.worthAnswer w t) v
  /-- Every name is worth what is found for it, and the empty text when it is missing. -/
  names : ∀ n ∈ namesOf v, ∃ u, r.worth w t n = .ok u ∧
    (((r.env n none false).exec w t).1 = .ok u ∨
      ((r.env n none false).exec w t).1 = .error (.missing n) ∧ u = undefinedValue)
  /-- So resolution ends: in the raw value with texts filled in, or where one is missing. -/
  ends : ∀ default,
    ((∀ n ∈ namesOf v, r.worthText? w t n ≠ none) ∧
      ((r.env key default true).exec w t).1 =
        .ok (fill (fun n => (r.worthText? w t n).getD []) v)) ∨
    ((∃ n ∈ namesOf v, r.worthText? w t n = none) ∧
      ((r.env key default true).exec w t).1 = .error (.unwritable .tooManyDigits))

/-- A key that some source defines is expanded by one level. -/
theorem oneLevel_of_first (hk : key ≠ wildcard) (hall : ∀ s, r.Answers w t key s)
    (hf : (r.holdings w (r.fetched w t.cache).answer).first key Source.all = .ok (some v)) :
    r.OneLevel w t key v := by
  have isName {n : Text} (hn : n ∈ namesOf v) : IsName n := isName_of_mem_namesOf hn
  have names : ∀ n ∈ namesOf v, ∃ u, r.worth w t n = .ok u ∧
      (((r.env n none false).exec w t).1 = .ok u ∨
        ((r.env n none false).exec w t).1 = .error (.missing n) ∧ u = undefinedValue) :=
    fun n hn => worth_cases (isName hn) (open_of_answers (answers_of_isName hall (isName hn)))
  have expanded (default : Option Value) : ((r.env key default true).exec w t).1 =
      expandValue (r.worthAnswer w t) v := by
    rw [answer_of_key hk, Holdings.value, hf]
    refine expandValue_congr fun n hn => ?_
    rw [worthAnswer, worth, env_uninterpolated rfl (isName hn)]
  refine ⟨fun default => ?_, expanded, names, fun default => ?_⟩
  · rw [answer_of_key hk, Holdings.value, hf]
    rfl
  · rw [expanded default]
    exact expandValue_worth fun n hn => (names n hn).imp fun u h => h.1

/-- **INTERPOLATION IS EXACTLY ONE LEVEL.**  Let every source answer for a key or be
unavailable.  If some source defines the key, its value is the raw one with each reference
replaced by the text of what its name is worth on its own, from all the sources and without
interpolation; if none does, a default is answered as it is. -/
theorem env_one_level (hk : key ≠ wildcard) (hall : ∀ s, r.Answers w t key s) :
    (∃ v, ((r.env key none false).exec w t).1 = .ok v ∧ r.OneLevel w t key v) ∨
    (((r.env key none false).exec w t).1 = .error (.missing key) ∧ ∀ interpolate,
      ((r.env key none interpolate).exec w t).1 = .error (.missing key) ∧
      ∀ d, ((r.env key (some d) interpolate).exec w t).1 = .ok d) := by
  obtain ⟨v?, hf, -⟩ := Holdings.exists_first fun s (_ : s ∈ Source.all) =>
    open_of_answers hall s
  cases v? with
  | some v =>
    have level := oneLevel_of_first hk hall hf
    exact .inl ⟨v, level.raw none, level⟩
  | none =>
    have missing (default : Option Value) (interpolate : Bool) :
        ((r.env key default interpolate).exec w t).1 = Holdings.orMissing key default := by
      rw [answer_of_key hk, Holdings.value, hf]
      rfl
    refine .inr ⟨missing none false, fun interpolate => ⟨missing none interpolate, fun d => ?_⟩⟩
    exact missing (some d) interpolate

/-- A resolver with the environment variables `A=$B $B $C` and `B=$A`, whose file cannot be
decoded. -/
def mutualReferences : Resolver :=
  { zeroPreferred with
    secrets := ⟨.empty, some (Table.ofList [("A", "$B $B $C"), ("B", "$A")])⟩ }

/-- The references form a cycle: each is replaced once by what it refers to, and the name that
no source defines by nothing. -/
theorem env_one_level_mutualReferences :
    let t : Trace := ⟨.new .once, []⟩
    mutualReferences.worth zeroPreferredWorld t "B" = .ok (.str "$A") ∧
      mutualReferences.worth zeroPreferredWorld t "C" = .ok (.str "") ∧
      ((mutualReferences.env "A" none true).exec zeroPreferredWorld t).1 =
        .ok (.str "$A $A ") := by
  intro t
  have hall : ∀ s, mutualReferences.Answers zeroPreferredWorld t "A" s := by
    intro s
    cases s with
    | environment => exact .inl ⟨_, rfl⟩
    | envFile => exact .inr ⟨_, _, rfl⟩
    | preferences => exact .inl ⟨_, rfl⟩
  have hraw : ((mutualReferences.env "A" none false).exec zeroPreferredWorld t).1 =
      .ok (.str "$B $B $C") := by decide +kernel
  rcases env_one_level (by decide) hall with ⟨v, hv, level⟩ | ⟨hmissing, -⟩
  · rw [hraw] at hv
    cases hv
    refine ⟨by decide +kernel, by decide +kernel, ?_⟩
    rw [level.expanded none]
    decide +kernel
  · rw [hraw] at hmissing
    cases hmissing

end Resolver

end Cascade
