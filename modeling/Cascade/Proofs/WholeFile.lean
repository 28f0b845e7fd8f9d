/-
  Cascade.Proofs.WholeFile
  ────────────────────────────────
  **THE WHOLE FILE WITH ITS REFERENCES FOLLOWED.**

  Two walks have to meet: the names referenced in a file are collected and
  looked up BEFORE its mapping is expanded, and the expansion finds what it
  asks for among them.  They do meet (`mem_asked_iff`), so the answers that
  were collected serve like a look-up of every name
  (`expandMapping_collected`).

      all_cases            — the whole file fails for one reason only
                             (`LeftUnwritable`)
      all_eq_expansion     — what the whole file is, key by key

  A value that is put in has a text, unless it holds an integer beyond what
  the interpreter writes.  No file, variable or document can give one, so
  the whole file fails only where such an integer was handed to a store in
  memory.
-/
import Cascade.Proofs.Answers
import Cascade.Proofs.MappingExpansion
import Cascade.Proofs.Names
import Cascade.Proofs.Writable

namespace Cascade

open Reference

/-! ## §1. Keys that every source answers. -/

namespace Holdings

variable {h : Holdings} {n : Text}

/-- A key for which every source answers or is unavailable. -/
def Open (h : Holdings) (key : Text) : Prop :=
  ∀ source, ∃ v, orNothing (h source key) = .ok v

/-- Where no source fails there is a first value, which is not empty, or none. -/
theorem exists_first {sources : List Source}
    (ho : ∀ source ∈ sources, ∃ v, orNothing (h source n) = .ok v) :
    ∃ v?, h.first n sources = .ok v? ∧ ∀ v, v? = some v → v.isEmpty = false := by
  induction sources with
  | nil => exact ⟨none, rfl, fun v hv => by cases hv⟩
  | cons source rest ih =>
    obtain ⟨v, hv⟩ := ho source (by simp)
    by_cases he : (v.getD .null).isEmpty = true
    · -- an empty value is passed over, and the rest decides
      obtain ⟨v', hf, hn⟩ := ih fun source hs => ho source (by simp [hs])
      refine ⟨v', ?_, hn⟩
      rw [Holdings.first, hv]
      simpa [he, bind, Except.bind] using hf
    · refine ⟨some (v.getD .null), ?_, fun v' hv' => ?_⟩
      · rw [Holdings.first, hv]
        simp [he, bind, Except.bind, pure, Except.pure]
      · cases hv'
        simpa using he

/-- An open key referenced inside another value has a value, and not null. -/
theorem Open.outside (ho : h.Open n) : ∃ v, h.outside n = .ok v ∧ v ≠ .null := by
  obtain ⟨v?, hf, hn⟩ := exists_first fun source (_ : source ∈ Source.all) => ho source
  cases v? with
  | none =>
    refine ⟨Resolver.undefinedValue, ?_, fun he => nomatch he⟩
    rw [Holdings.outside, raw, hf]
    rfl
  | some v =>
    refine ⟨v, ?_, fun he => ?_⟩
    · rw [Holdings.outside, raw, hf]
      rfl
    · have := hn v rfl
      rw [he] at this
      cases this

/-- Open keys are all looked up, each on its own. -/
theorem values_of_open {names : List Text} (ho : ∀ n ∈ names, h.Open n) :
    ∃ es, h.values names = .ok es ∧ es.map Prod.fst = names ∧
      ∀ n ∈ names, Entries.get? n es = (h.outside n).toOption := by
  induction names with
  | nil => exact ⟨[], rfl, rfl, fun n hn => absurd hn List.not_mem_nil⟩
  | cons n names ih =>
    obtain ⟨v, hv, -⟩ := (ho n (by simp)).outside
    obtain ⟨es, he, hk, hg⟩ := ih fun m hm => ho m (by simp [hm])
    refine ⟨(n, v) :: es, ?_, by rw [List.map_cons, hk], fun m hm => ?_⟩
    · rw [values, hv, he]
      rfl
    · by_cases hmn : n = m
      · subst hmn
        simp [Entries.get?, hv, Except.toOption]
      · simpa [Entries.get?, hmn] using hg m ((List.mem_cons.1 hm).resolve_left (Ne.symm hmn))

/-- The first value of a key is writable when all values are. -/
theorem writable_first (hw : ∀ source key v, h source key = .ok (some v) → v.Writable)
    {key : Text} {sources : List Source} {v : Value} (hf : h.first key sources = .ok (some v)) :
    v.Writable := by
  induction sources with
  | nil => cases hf
  | cons source rest ih =>
    rw [first] at hf
    obtain ⟨v?, hv, hf⟩ := bind_eq_ok_iff.1 hf
    by_cases he : (v?.getD .null).isEmpty = true
    · simp only [if_pos he] at hf
      exact ih hf
    · simp only [if_neg he] at hf
      cases hf
      cases v? with
      | none => exact Value.writable_null
      | some v =>
        refine hw source key v ?_
        cases ha : h source key with
        | ok v? => rw [ha] at hv; exact hv
        | error failure => rw [ha] at hv; cases failure <;> cases hv

/-- So is what it is worth inside another value. -/
theorem writable_outside (hw : ∀ source key v, h source key = .ok (some v) → v.Writable)
    {v : Value} (hv : h.outside n = .ok v) : v.Writable := by
  obtain ⟨v?, hf, hv⟩ := bind_eq_ok_iff.1 hv
  cases v? with
  | none => cases hv; exact Value.writable_str []
  | some v => cases hv; exact writable_first hw hf

/-- Without interpolation the value of a key is the one the sources hold. -/
theorem value_false (h : Holdings) (key : Text) (default : Option Value) :
    h.value key default false = h.raw key default := by
  unfold value raw
  congr 1
  funext v?
  cases v? <;> rfl

end Holdings

/-! ## §2. The names a file leaves open. -/

namespace Resolver

variable {values : Mapping Value}

/-- The names that are looked up for a file: the referenced ones that are no keys. -/
theorem mem_outsideNames_iff {n : Text} :
    n ∈ outsideNames values ↔ n ∈ names values.values ∧ n ∉ values.keys := by
  rw [outsideNames, (Text.sortBy_perm id _).mem_iff, List.mem_filter, ← Table.contains_iff]
  simp

/-- Each name is looked up once. -/
theorem nodup_outsideNames : (outsideNames values).Nodup :=
  (Text.sortBy_perm id _).nodup_iff.2 ((nodup_names values.values).filter _)

/-- The collected answers serve like a look-up of every name. -/
theorem expandMapping_collected {es : List (Text × Value)} {lookup : Text → Option Value}
    (hg : ∀ n ∈ outsideNames values, Entries.get? n es = lookup n) :
    (expandMapping values fun n => Entries.get? n es).map Table.get? =
      (expandMapping values lookup).map Table.get? :=
  get?_expandMapping_congr (fun _ => rfl) fun n hv hn =>
    hg n (mem_outsideNames_iff.2 ⟨hn, (Table.get?_eq_none_iff values n).1 hv⟩)

/-! ## §3. Values of a file. -/

/-- The values of a decoded mapping can be assigned by a line. -/
theorem assignable_of_isDecoded (hd : Cache.IsDecoded values) {k : Text} {v : Value}
    (hv : values.get? k = some v) : Dotenv.Assignable v := by
  rcases hd with rfl | ⟨content, hd⟩
  · cases hv
  · exact Dotenv.assignable_of_decode hd hv

/-- The file that a reached cache answers with is decoded. -/
theorem isDecoded_of_fileValues {r : Resolver} {w : World} {t : Trace}
    (hc : t.cache.Reached) (hf : (r.fileValues.exec w t).1 = .ok values) :
    Cache.IsDecoded values := by
  have hr : (r.fetched w t.cache).answer = .ok values := by
    rw [← hf]
    exact r.sees_fileValues w t
  have hg : t.cache.Genuine := hc.genuine
  unfold fetched at hr
  split at hr
  · exact (hg.get w _).answer hr
  · split at hr
    · cases hr
    · exact (hg.find w _ _).answer hr

/-- The expansion of a file fails exactly when something put into it from elsewhere has no
text. -/
theorem expandMapping_eq_none_iff_of_isDecoded (hd : Cache.IsDecoded values)
    {lookup : Text → Option Value} (hl : ∀ n ∈ outsideNames values, ∃ v, lookup n = some v) :
    expandMapping values lookup = none ↔
      ∃ n ∈ outsideNames values, ∃ v, lookup n = some v ∧ v.inserted? = none := by
  constructor
  · -- all values of the file have a text, so it is one from elsewhere that has none
    intro h
    by_contra hn
    obtain ⟨k, v, hv, hm⟩ := expandMapping_eq_none_iff.1 h
    refine meaning_ne_none (fun k v hv hi => ?_) (fun n hnone hr hi => hn ?_) [k]
      (fun n hn => ⟨k, v, hv, hn⟩) hm
    · obtain ⟨t, ht⟩ := (assignable_of_isDecoded hd hv).writable.inserted
      rw [ht] at hi
      cases hi
    · have ho : n ∈ outsideNames values :=
        mem_outsideNames_iff.2 ⟨mem_names_values_iff.2 hr,
          (Table.get?_eq_none_iff values n).1 hnone⟩
      obtain ⟨v, hv⟩ := hl n ho
      exact ⟨n, ho, v, hv, by simpa [hv] using hi⟩
  · rintro ⟨n, ho, v, hv, hi⟩
    obtain ⟨hn, hk⟩ := mem_outsideNames_iff.1 ho
    obtain ⟨k, x, hx, hr⟩ := mem_names_values_iff.1 hn
    refine expandMapping_eq_none_iff.2 ⟨k, x, hx, ?_⟩
    have hnk : n ∉ [k] := fun hm => by
      rw [List.mem_singleton.1 hm] at hk
      exact hk ((Table.contains_iff values k).1 (by rw [Table.contains, hx]; rfl))
    rw [meaning_eq, rewriteValue_eq_none_iff]
    refine ⟨n, hr, ?_⟩
    rw [answerAbove, if_neg hnk, (Table.get?_eq_none_iff values n).2 hk]
    simpa [hv, replacement?_eq_none_iff] using hi

/-- In a file, only a reference into the chain stays as written. -/
theorem answerAbove_eq_some_none_iff (hd : Cache.IsDecoded values)
    {lookup : Text → Option Value}
    (hl : ∀ n ∈ outsideNames values, ∃ v, lookup n = some v ∧ v ≠ .null)
    (chain : List Text) {n : Text} (hn : n ∈ names values.values) :
    answerAbove values lookup chain n = some none ↔ n ∈ chain := by
  rw [answerAbove]
  refine ⟨fun h => ?_, fun h => if_pos h⟩
  by_contra hc
  rw [if_neg hc] at h
  cases hv : values.get? n with
  | none =>
    -- a name left open has an answer, and not null
    have ho : n ∈ outsideNames values :=
      mem_outsideNames_iff.2 ⟨hn, (Table.get?_eq_none_iff values n).1 hv⟩
    obtain ⟨v, hlv, hne⟩ := hl n ho
    rw [hv] at h
    simp only [hlv, Option.getD_some] at h
    exact replacement?_ne_some_none hne h
  | some inner =>
    -- and a value of the file does not become null
    rw [hv] at h
    obtain ⟨m, hm, hr⟩ := Option.bind_eq_some_iff.1 h
    rw [meaning_eq] at hm
    have hne := rewriteValue_ne_null (assignable_of_isDecoded hd hv).ne_null hm
    exact replacement?_ne_some_none hne hr

/-! ## §4. The whole file. -/

/-- The whole file, given its mapping and what is found elsewhere: the keys with their
expansion, and the names left open with what was found, as it is. -/
structure IsWhole (values : Mapping Value) (lookup : Text → Option Value)
    (result : Mapping Value) : Prop where
  keys : ∀ n, n ∈ result.keys ↔ n ∈ values.keys ∨ n ∈ names values.values
  outside : ∀ n ∈ names values.values, n ∉ values.keys → result.get? n = lookup n
  inside : ∃ expanded, expandMapping values lookup = some expanded ∧
    ∀ k ∈ values.keys, result.get? k = expanded.get? k

/-- The expansion with the collected answers added is the whole file. -/
theorem isWhole_of_collected {es : List (Text × Value)} {lookup : Text → Option Value}
    {expanded : Mapping Value} (hk : es.map Prod.fst = outsideNames values)
    (hg : ∀ n ∈ outsideNames values, Entries.get? n es = lookup n)
    (he : expandMapping values (fun n => Entries.get? n es) = some expanded) :
    IsWhole values lookup (expanded.insertAll es) := by
  have hkeys : expanded.keys = values.keys := (expandMapping_eq_some_iff.1 he).1
  have hget (n : Text) :
      (expanded.insertAll es).get? n = (Entries.get? n es).or (expanded.get? n) :=
    Table.get?_insertAll expanded es (by rw [hk]; exact nodup_outsideNames) n
  have hopen {n : Text} : Entries.get? n es = none ↔ n ∉ outsideNames values := by
    rw [Entries.get?_eq_none_iff, hk]
  refine ⟨fun n => ?_, fun n hn hv => ?_, ?_⟩
  -- what is no key of the result is in neither part
  · rw [← Decidable.not_iff_not, ← Table.get?_eq_none_iff, hget, Option.or_eq_none_iff, hopen,
      Table.get?_eq_none_iff, hkeys, mem_outsideNames_iff]
    tauto
  · have ho := mem_outsideNames_iff.2 ⟨hn, hv⟩
    have hnone : expanded.get? n = none := by
      rw [Table.get?_eq_none_iff, hkeys]
      exact hv
    rw [hget, hg n ho, hnone, Option.or_none]
  · have hs := expandMapping_collected hg
    rw [he, Option.map_some] at hs
    obtain ⟨expanded', he', hsame⟩ := Option.map_eq_some_iff.1 hs.symm
    refine ⟨expanded', he', fun k hkv => ?_⟩
    -- a key of the file is not among the names left open, so nothing is put over it
    have ho : k ∉ outsideNames values := fun ho => (mem_outsideNames_iff.1 ho).2 hkv
    rw [hget, hopen.2 ho, Option.none_or, hsame]

/-- What a resolver finds for a name that is used inside another value. -/
def uninterpolated (r : Resolver) (w : World) (t : Trace) (name : Text) : Option Value :=
  ((r.env name (some undefinedValue) false).exec w t).1.toOption

section

variable {r : Resolver} {w : World} {t : Trace}

/-- A name used inside another value is worth what the sources hold. -/
theorem env_uninterpolated {file : Except Failure (Mapping Value)}
    (hs : r.Sees w file t.cache) {n : Text} (hn : IsName n) :
    ((r.env n (some undefinedValue) false).exec w t).1 = (r.holdings w file).outside n := by
  rw [env, if_neg hn.ne_wildcard, (r.value_gives w file n _ false).answer hs,
    Holdings.value_false]
  rfl

/-- A store that answers, or is unavailable, leaves every name open. -/
theorem open_of_isName
    (hp : ∀ failure, r.preferences.groups w = .error failure →
      ∃ source reason, failure = .unavailable source reason) {n : Text} (hn : IsName n) :
    (r.holdings w (.ok values)).Open n := by
  intro source
  cases source with
  | environment => exact ⟨_, by rw [holdings, hn.ask]; rfl⟩
  | envFile => exact ⟨_, rfl⟩
  | preferences =>
    rw [holdings, Preferences.get?]
    cases hg : r.preferences.groups w with
    | ok groups => exact ⟨_, rfl⟩
    | error failure =>
      obtain ⟨source, reason, rfl⟩ := hp failure hg
      exact ⟨none, rfl⟩

/-- The sources hold writable values when the store does. -/
theorem writable_holdings {file : Except Failure (Mapping Value)}
    (hfile : ∀ values, file = .ok values → Cache.IsDecoded values)
    (hs : r.preferences.Writable) (source : Source) (key : Text) (v : Value)
    (hv : r.holdings w file source key = .ok (some v)) : v.Writable := by
  cases source with
  | environment =>
    simp only [holdings] at hv
    split at hv
    · cases hv
    · rename_i value? _
      cases value? with
      | none => cases hv
      | some text => cases hv; exact Value.writable_str text
  | envFile =>
    cases hf : file with
    | error failure => rw [hf] at hv; cases hv
    | ok values =>
      rw [hf] at hv
      exact (assignable_of_isDecoded (hfile values hf) (Except.ok.inj hv)).writable
  | preferences => exact hs.get? hv

/-- So what a name is worth inside another value can be put in. -/
theorem inserted_of_uninterpolated (hc : t.cache.Reached) (hs : r.preferences.Writable)
    {n : Text} (hn : IsName n) {v : Value} (hv : r.uninterpolated w t n = some v) :
    v.inserted? ≠ none := by
  have outside : (r.holdings w (r.fileValues.exec w t).1).outside n = .ok v := by
    rw [uninterpolated, env_uninterpolated (r.sees_fileValues w t) hn] at hv
    cases ho : (r.holdings w (r.fileValues.exec w t).1).outside n with
    | error failure => rw [ho] at hv; cases hv
    | ok v' => rw [ho] at hv; rw [Option.some.inj hv]
  have writable : v.Writable := Holdings.writable_outside
    (writable_holdings (fun _ hf => isDecoded_of_fileValues hc hf) hs) outside
  obtain ⟨text, ht⟩ := writable.inserted
  rw [ht]
  exact Option.some_ne_none text

/-- The whole file, once the names left open have been looked up. -/
theorem answer_all (hs : r.Sees w (.ok values) t.cache) {es : List (Text × Value)}
    (hes : (r.holdings w (.ok values)).values (outsideNames values) = .ok es) :
    ((r.all true).exec w t).1 =
      match expandMapping values fun n => Entries.get? n es with
      | some expanded => .ok (expanded.insertAll es)
      | none => .error (.unwritable .tooManyDigits) := by
  rw [(r.all_gives w (.ok values) true).answer hs]
  show (do
    let outside ← (r.holdings w (.ok values)).values (outsideNames values)
    match expandMapping values fun n => Entries.get? n outside with
    | some expanded => return expanded.insertAll outside
    | none => throw (.unwritable .tooManyDigits) : Except Failure (Mapping Value)) = _
  rw [hes]
  rfl

/-- Some name that the file leaves open is worth a value without a text. -/
def LeftUnwritable (r : Resolver) (w : World) (t : Trace) (values : Mapping Value) : Prop :=
  ∃ n ∈ names values.values, n ∉ values.keys ∧
    ∃ u, r.uninterpolated w t n = some u ∧ u.inserted? = none

/-- With a store of writable values there is no such name. -/
theorem not_leftUnwritable (hc : t.cache.Reached) (hs : r.preferences.Writable) :
    ¬ r.LeftUnwritable w t values := by
  rintro ⟨n, hn, -, u, hu, hi⟩
  exact inserted_of_uninterpolated hc hs (isName_of_mem_names hn) hu hi

/-- A name used inside the values of a file is worth something, and not null. -/
theorem exists_uninterpolated (hs : r.Sees w (.ok values) t.cache)
    (hp : ∀ failure, r.preferences.groups w = .error failure →
      ∃ source reason, failure = .unavailable source reason) {n : Text} (hn : IsName n) :
    ∃ u, (r.holdings w (.ok values)).outside n = .ok u ∧ r.uninterpolated w t n = some u ∧
      u ≠ .null := by
  have opened : (r.holdings w (.ok values)).Open n := open_of_isName hp hn
  obtain ⟨u, hu, hne⟩ := opened.outside
  refine ⟨u, hu, ?_, hne⟩
  rw [uninterpolated, env_uninterpolated hs hn, hu]
  rfl

/-- The names that a file leaves open are collected as they are used inside other values. -/
theorem exists_collected (hs : r.Sees w (.ok values) t.cache)
    (hp : ∀ failure, r.preferences.groups w = .error failure →
      ∃ source reason, failure = .unavailable source reason) :
    ∃ es, (r.holdings w (.ok values)).values (outsideNames values) = .ok es ∧
      es.map Prod.fst = outsideNames values ∧
      ∀ n ∈ outsideNames values, Entries.get? n es = r.uninterpolated w t n := by
  have isName {n : Text} (hn : n ∈ outsideNames values) : IsName n :=
    isName_of_mem_names (mem_outsideNames_iff.1 hn).1
  have opened {n : Text} (hn : n ∈ outsideNames values) :
      (r.holdings w (.ok values)).Open n := open_of_isName hp (isName hn)
  obtain ⟨es, hes, hk, hg⟩ := Holdings.values_of_open fun n hn => opened hn
  refine ⟨es, hes, hk, fun n hn => ?_⟩
  rw [hg n hn, uninterpolated, env_uninterpolated hs (isName hn)]

/-- **ONE THING KEEPS A FILE FROM BEING WHOLE**: a name that it leaves open and that is worth a
value without a text. -/
theorem all_cases (hc : t.cache.Reached) (hf : (r.fileValues.exec w t).1 = .ok values)
    (hp : ∀ failure, r.preferences.groups w = .error failure →
      ∃ source reason, failure = .unavailable source reason) :
    (r.LeftUnwritable w t values ∧
      ((r.all true).exec w t).1 = .error (.unwritable .tooManyDigits)) ∨
    (¬ r.LeftUnwritable w t values ∧ ∃ whole, ((r.all true).exec w t).1 = .ok whole ∧
      IsWhole values (r.uninterpolated w t) whole) := by
  have hs : r.Sees w (.ok values) t.cache := by
    rw [← hf]
    exact r.sees_fileValues w t
  obtain ⟨es, hes, hk, collected⟩ := exists_collected hs hp
  have found (n : Text) (hn : n ∈ outsideNames values) :
      ∃ u, Entries.get? n es = some u := by
    obtain ⟨u, -, hu, -⟩ :=
      exists_uninterpolated hs hp (isName_of_mem_names (mem_outsideNames_iff.1 hn).1)
    exact ⟨u, (collected n hn).trans hu⟩
  -- the expansion fails for the names that the file leaves open, and for nothing else
  have fails : (expandMapping values fun n => Entries.get? n es) = none ↔
      r.LeftUnwritable w t values := by
    rw [expandMapping_eq_none_iff_of_isDecoded (isDecoded_of_fileValues hc hf) found]
    constructor
    · rintro ⟨n, hn, u, hu, hi⟩
      obtain ⟨hn', hkeys⟩ := mem_outsideNames_iff.1 hn
      exact ⟨n, hn', hkeys, u, (collected n hn).symm.trans hu, hi⟩
    · rintro ⟨n, hn', hkeys, u, hu, hi⟩
      have hn : n ∈ outsideNames values := mem_outsideNames_iff.2 ⟨hn', hkeys⟩
      exact ⟨n, hn, u, (collected n hn).trans hu, hi⟩
  rw [answer_all hs hes]
  cases he : expandMapping values fun n => Entries.get? n es with
  | none => exact .inl ⟨fails.1 he, rfl⟩
  | some expanded =>
    refine .inr ⟨fun h => ?_, _, rfl, isWhole_of_collected hk collected he⟩
    rw [fails.2 h] at he
    cases he

/-- **THE WHOLE FILE.**  An expansion asks for exactly the referenced names that are no keys.
So the whole file has as keys those of the file and the names it references; its own values
are expanded, the others are what the sources hold, and only a reference back into the chain
stays as written.  A store of writable values, such as every document, always leaves a whole
file; with another one it fails just when a value from elsewhere has no text. -/
theorem all_eq_expansion (hc : t.cache.Reached)
    (hf : (r.fileValues.exec w t).1 = .ok values)
    (hp : ∀ failure, r.preferences.groups w = .error failure →
      ∃ source reason, failure = .unavailable source reason) :
    (∀ (m : Mapping Value) (lookup : Text → Option Value),
      match runMapping m lookup with
      | some (_, p) => ∀ n, n ∈ p.asked ↔ n ∈ names m.values ∧ n ∉ m.keys
      | none => (∃ k v, m.get? k = some v ∧ v.inserted? = none) ∨
          ∃ n ∈ names m.values, n ∉ m.keys ∧ ((lookup n).getD .null).inserted? = none) ∧
    (∀ n ∈ names values.values, n ∉ values.keys →
      ∃ v, ((r.env n (some undefinedValue) false).exec w t).1 = .ok v) ∧
    (match ((r.all true).exec w t).1 with
      | .ok result => IsWhole values (r.uninterpolated w t) result
      | .error failure => failure = .unwritable .tooManyDigits ∧
          ∃ n ∈ names values.values, n ∉ values.keys ∧
            ∃ v, r.uninterpolated w t n = some v ∧ v.inserted? = none) ∧
    ((∀ n ∈ names values.values, n ∉ values.keys →
        ∃ v, r.uninterpolated w t n = some v ∧ v.inserted? ≠ none) →
      ∃ result, ((r.all true).exec w t).1 = .ok result) ∧
    (r.preferences.Writable → ∃ result, ((r.all true).exec w t).1 = .ok result ∧
      IsWhole values (r.uninterpolated w t) result) ∧
    ∀ chain, ∀ n ∈ names values.values,
      answerAbove values (r.uninterpolated w t) chain n = some none ↔ n ∈ chain := by
  have hs : r.Sees w (.ok values) t.cache := by
    rw [← hf]
    exact r.sees_fileValues w t
  have found {n : Text} (hn : n ∈ names values.values) :
      ∃ u, (r.holdings w (.ok values)).outside n = .ok u ∧ r.uninterpolated w t n = some u ∧
        u ≠ .null := exists_uninterpolated hs hp (isName_of_mem_names hn)
  have either := all_cases hc hf hp
  refine ⟨fun m lookup => ?_, fun n hn _ => ?_, ?_, fun texts => ?_, fun writable => ?_,
    fun chain n hn => ?_⟩
  · cases hr : runMapping m lookup with
    | some result => exact mem_asked_iff hr
    | none => exact unwritable_of_runMapping_eq_none hr
  · obtain ⟨u, hu, -⟩ := found hn
    exact ⟨u, by rw [env_uninterpolated hs (isName_of_mem_names hn), hu]⟩
  · rcases either with ⟨left, hall⟩ | ⟨-, whole, hall, isWhole⟩
    · rw [hall]
      exact ⟨rfl, left⟩
    · rw [hall]
      exact isWhole
  · obtain ⟨-, whole, hall, -⟩ := either.resolve_left fun h => by
      obtain ⟨n, hn, hk, u, hu, hi⟩ := h.1
      obtain ⟨u', hu', hi'⟩ := texts n hn hk
      obtain rfl := Option.some.inj (hu.symm.trans hu')
      exact hi' hi
    exact ⟨whole, hall⟩
  · exact (either.resolve_left fun h => not_leftUnwritable hc writable h.1).2
  · refine answerAbove_eq_some_none_iff (isDecoded_of_fileValues hc hf) (fun n hn => ?_) chain hn
    obtain ⟨u, -, hu, hne⟩ := found (mem_outsideNames_iff.1 hn).1
    exact ⟨u, hu, hne⟩

end

/-- A resolver with an env file `A=$X` and a value for `X` in its store. -/
def oneReference (x : Value) : Resolver where
  secrets := ⟨.empty, some .empty⟩
  preferences := .memory (Table.ofList [("env", Table.ofList [("X", x)])])
  start := none
  pinned := some ⟨.root, [".env"]⟩
  filename := ".env"
  group := "env"

/-- Its store holds a writable value when this one is. -/
theorem writable_oneReference {x : Value} (h : x.Writable) :
    (oneReference x).preferences.Writable := by
  intro gs hgs group key v hv
  cases hgs
  obtain ⟨g, hg, hv⟩ := Option.bind_eq_some_iff.1 hv
  obtain ⟨-, rfl⟩ := Prod.mk.inj (List.mem_singleton.1 (Table.mem_of_get?_ofList hg))
  obtain ⟨-, rfl⟩ := Prod.mk.inj (List.mem_singleton.1 (Table.mem_of_get?_ofList hv))
  exact h

/-- The world of this env file. -/
def oneReferenceWorld : World where
  files := ⟨Table.ofList [([".env"], .file [65, 61, 36, 88, 10] 0)]⟩
  cwd := ⟨[], 0⟩
  environ := .empty
  users := .none
  now := 0

/-- Its mapping. -/
def oneReferenceValues : Mapping Value := Table.ofList [("A", .str "$X")]

/-- With a value of one digit there is a whole file. -/
theorem isWhole_oneReference :
    ((oneReference (.int 1)).fileValues.exec oneReferenceWorld ⟨.new .once, []⟩).1 =
        .ok oneReferenceValues ∧
      IsWhole oneReferenceValues
        ((oneReference (.int 1)).uninterpolated oneReferenceWorld ⟨.new .once, []⟩)
        (Table.ofList [("A", .str "1"), ("X", .int 1)]) := by
  have hf : ((oneReference (.int 1)).fileValues.exec oneReferenceWorld ⟨.new .once, []⟩).1 =
      .ok oneReferenceValues := by decide +kernel
  have hall : (((oneReference (.int 1)).all true).exec oneReferenceWorld ⟨.new .once, []⟩).1 =
      .ok (Table.ofList [("A", .str "1"), ("X", .int 1)]) := by decide +kernel
  have h := all_eq_expansion (r := oneReference (.int 1)) (w := oneReferenceWorld)
    (t := ⟨.new .once, []⟩) (.new .once) hf fun failure hp => by cases hp
  rw [hall] at h
  obtain ⟨-, -, -, -, whole, -⟩ := h
  have short : (1 : Int).natAbs < 10 ^ digitLimit := Nat.one_lt_pow (by decide) (by decide)
  obtain ⟨result, hr, hwhole⟩ := whole (writable_oneReference (Value.writable_int short))
  cases hr
  exact ⟨hf, hwhole⟩

end Resolver

end Cascade
