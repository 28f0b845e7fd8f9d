/-
  Cascade.Proofs.WildcardAgreement
  ────────────────────────────────
  **THE WHOLE FILE AND A SINGLE KEY.**

  A key of the file can be looked up alone, or in the whole file.  Alone its
  references are replaced by what their names are worth in the sources, one
  level deep; in the whole file they are followed from key to key.  Where a
  value refers only to names outside the file and to keys that are plain
  (`Plain`), one level is all there is:

      answerAbove_of_outside, answerAbove_of_plain
                     — a reference is replaced by the same text
      value_eq_meaning
                     — so a key alone is worth its meaning in the file
      all_agrees_env — and the whole file has it under this key

  The whole file asks for ALL names that its values leave open, so an
  integer beyond the interpreter's limit under any of them is enough for it
  to fail.  Only a store in memory can be handed such an integer.
-/
import Cascade.Proofs.Transfer
import Cascade.Proofs.WholeFile

namespace Cascade

open Reference

/-! ## §1. A missing result as a failure. -/

/-- A result whose absence is a failure. -/
def orFail {α : Type} (failure : Failure) : Option α → Except Failure α
  | some a => .ok a
  | none => .error failure

/-- Failing in the first of two steps, or in the second. -/
theorem orFail_bind {α β : Type} (failure : Failure) (x : Option α) (f : α → Option β) :
    orFail failure (x >>= f) = orFail failure x >>= fun a => orFail failure (f a) := by
  cases x <;> rfl

namespace Reference

variable {failure : Failure} {answer : Text → Option (Option Text)}

/-- A missing result fails step by step. -/
theorem transfers_orFail (failure : Failure) :
    Transfers fun α _ (x : Except Failure α) (y : Option α) => x = orFail failure y where
  pure a := rfl
  bind hx hf := by rw [hx, funext hf, orFail_bind]

/-- Expansion of a value fails with the failure of an answer. -/
theorem expandValue_orFail (v : Value) :
    expandValue (fun n => orFail failure (answer n)) v =
      orFail failure (expandValue answer v) :=
  (transfers_orFail failure).expandValue fun _ _ => rfl

/-! ## §2. One reference. -/

variable {values : Mapping Value} {lookup : Text → Option Value} {n : Text} {u : Value}

/-- Above any chain, a name outside the file is replaced by the text of what it is worth. -/
theorem answerAbove_of_outside {chain : List Text} (hc : n ∉ chain) (hn : n ∉ values.keys)
    (hu : lookup n = some u) (hne : u ≠ .null) :
    answerAbove values lookup chain n = u.inserted?.map some := by
  rw [answerAbove, if_neg hc, (Table.get?_eq_none_iff values n).2 hn]
  simp only [hu, Option.getD_some]
  cases u with
  | null => exact absurd rfl hne
  | _ => rfl

/-- Above any chain, a key whose value has no references is replaced by the text of this
value. -/
theorem answerAbove_of_plain {chain : List Text} (hc : n ∉ chain)
    (hu : values.get? n = some u) (hne : u ≠ .null) (hr : namesOf u = []) :
    answerAbove values lookup chain n = u.inserted?.map some := by
  refine answerAbove_of_key hc hu hne ?_
  rw [meaning_eq]
  exact rewriteValue_of_closed hr

end Reference

/-! ## §3. One key. -/

namespace Resolver

/-- A name that the environment does not define, and whose value in the file is not empty
and refers to nothing. -/
structure Plain (r : Resolver) (w : World) (values : Mapping Value) (n : Text) (u : Value) :
    Prop where
  get? : values.get? n = some u
  set : u.isEmpty = false
  closed : namesOf u = []
  unset : r.secrets.ask w.environ n = .ok none

section

variable {r : Resolver} {w : World} {values : Mapping Value} {k n : Text} {u v : Value}

/-- A value that is not empty is not null. -/
theorem ne_null_of_set (hv : v.isEmpty = false) : v ≠ .null := by
  rintro rfl
  cases hv

/-- What the environment does not define is worth what the file has for it. -/
theorem first_of_file (hk : r.secrets.ask w.environ k = .ok none) (hv : values.get? k = some v)
    (hs : v.isEmpty = false) :
    (r.holdings w (.ok values)).first k Source.all = .ok (some v) := by
  have environment : r.holdings w (.ok values) .environment k = .ok none := by
    rw [holdings, hk]
    rfl
  have file : r.holdings w (.ok values) .envFile k = .ok (some v) :=
    congrArg Except.ok hv
  rw [Source.all, Holdings.first_of_nothing environment, Holdings.first_of_ok file, if_neg]
  · rfl
  · show ¬ v.isEmpty = true
    rw [hs]
    exact Bool.false_ne_true

/-- **ONE KEY.**  A key whose value refers only to plain keys and to names outside the file is
worth its meaning in the file. -/
theorem value_eq_meaning {lookup : Text → Option Value}
    (hk : r.secrets.ask w.environ k = .ok none) (hv : values.get? k = some v)
    (hs : v.isEmpty = false)
    (ho : ∀ n ∈ namesOf v, n ∉ values.keys ∨ ∃ u, r.Plain w values n u)
    (hl : ∀ n ∈ namesOf v, n ∉ values.keys →
      ∃ u, (r.holdings w (.ok values)).outside n = .ok u ∧ lookup n = some u ∧ u ≠ .null)
    (default : Option Value) :
    (r.holdings w (.ok values)).value k default true =
      orFail (.unwritable .tooManyDigits) (meaning values lookup [k] v) := by
  rw [Holdings.value, first_of_file hk hv hs, meaning_eq, ← expandValue_eq_rewriteValue,
    ← expandValue_orFail]
  refine expandValue_congr fun n hn => ?_
  -- a value with a reference to its own key is not plain, so no name is the key itself
  have hnk : n ∉ [k] := by
    intro h
    obtain rfl := List.mem_singleton.1 h
    rcases ho n hn with hkeys | ⟨u, hu⟩
    · rw [(Table.get?_eq_none_iff values n).2 hkeys] at hv
      cases hv
    · obtain rfl : u = v := Option.some.inj (hu.get?.symm.trans hv)
      rw [hu.closed] at hn
      cases hn
  obtain ⟨u, hu, ha⟩ : ∃ u, (r.holdings w (.ok values)).outside n = .ok u ∧
      answerAbove values lookup [k] n = u.inserted?.map some := by
    rcases ho n hn with hkeys | ⟨u, hu⟩
    · obtain ⟨u, hu, hlu, hne⟩ := hl n hn hkeys
      exact ⟨u, hu, answerAbove_of_outside hnk hkeys hlu hne⟩
    · refine ⟨u, ?_, answerAbove_of_plain hnk hu.get? (ne_null_of_set hu.set) hu.closed⟩
      rw [Holdings.outside, Holdings.raw, first_of_file hu.unset hu.get? hu.set]
      rfl
  rw [ha]
  show (do return some (← Holdings.written
    (← (r.holdings w (.ok values)).outside n).inserted?) : Except Failure (Option Text)) = _
  rw [hu]
  show (do return some (← Holdings.written u.inserted?) : Except Failure (Option Text)) = _
  cases u.inserted? with
  | none => rfl
  | some text => rfl

/-! ## §4. The whole file. -/

variable {t : Trace}

/-- The key `*` stands for the entries of the whole file. -/
theorem env_wildcard (default : Option Value) (interpolate : Bool) :
    ((r.env wildcard default interpolate).exec w t).1 =
      (fun whole : Mapping Value => Value.object whole.entries) <$>
        ((r.all interpolate).exec w t).1 := by
  rw [env, if_pos rfl, Reading.exec_bind]
  rcases (r.all interpolate).exec w t with ⟨failure | whole, t'⟩ <;> rfl

/-- **THE WHOLE FILE AND A SINGLE KEY.**  Let a key be undefined in the environment, and let
its value in the file be set and refer only to plain keys and to names outside the file.
Then the whole file has under this key what the key is worth alone.  A store of writable
values, such as every document, always leaves a whole file; with another one it fails just
when some name left open by the file, of this key or of another one, is worth a value without
a text. -/
theorem all_agrees_env (hc : t.cache.Reached) (hf : (r.fileValues.exec w t).1 = .ok values)
    (hp : ∀ failure, r.preferences.groups w = .error failure →
      ∃ source reason, failure = .unavailable source reason)
    (hk : k ≠ wildcard) (hv : values.get? k = some v) (hs : v.isEmpty = false)
    (hu : r.secrets.ask w.environ k = .ok none)
    (ho : ∀ n ∈ namesOf v, n ∉ values.keys ∨ ∃ u, r.Plain w values n u)
    (default default' : Option Value) :
    (r.preferences.Writable →
      ∃ es m, ((r.env wildcard default true).exec w t).1 = .ok (.object es) ∧
        Entries.get? k es = some m ∧ ((r.env k default' true).exec w t).1 = .ok m) ∧
    (((∃ n ∈ names values.values, n ∉ values.keys ∧
        ∃ u, r.uninterpolated w t n = some u ∧ u.inserted? = none) ∧
      ((r.env wildcard default true).exec w t).1 = .error (.unwritable .tooManyDigits)) ∨
    ((∀ n ∈ names values.values, n ∉ values.keys →
        ∃ u, r.uninterpolated w t n = some u ∧ u.inserted? ≠ none) ∧
      ∃ es m, ((r.env wildcard default true).exec w t).1 = .ok (.object es) ∧
        Entries.get? k es = some m ∧ ((r.env k default' true).exec w t).1 = .ok m)) := by
  have hsees : r.Sees w (.ok values) t.cache := by
    rw [← hf]
    exact r.sees_fileValues w t
  have found {n : Text} (hn : n ∈ names values.values) :
      ∃ u, (r.holdings w (.ok values)).outside n = .ok u ∧ r.uninterpolated w t n = some u ∧
        u ≠ .null := exists_uninterpolated hsees hp (isName_of_mem_names hn)
  have single : ((r.env k default' true).exec w t).1 = orFail (.unwritable .tooManyDigits)
      (meaning values (r.uninterpolated w t) [k] v) := by
    rw [env, if_neg hk, (r.value_gives w (.ok values) k default' true).answer hsees]
    exact value_eq_meaning hu hv hs ho
      (fun n hn _ => found (mem_names_values_iff.2 ⟨k, v, hv, hn⟩)) default'
  rw [env_wildcard]
  rcases all_cases hc hf hp with ⟨left, hall⟩ | ⟨closed, whole, hall, isWhole⟩
  · exact ⟨fun writable => absurd left (not_leftUnwritable hc writable),
      .inl ⟨left, by rw [hall]; rfl⟩⟩
  · -- the whole file has the key with its expansion, and this is its meaning
    obtain ⟨expanded, he, inside⟩ := isWhole.inside
    obtain ⟨m, hm, hem⟩ := (expandMapping_eq_some_iff.1 he).2 k v hv
    have hkey : k ∈ values.keys :=
      (Table.contains_iff values k).1 (by rw [Table.contains, hv]; rfl)
    have agrees : ∃ es m, (fun whole : Mapping Value => Value.object whole.entries) <$>
        ((r.all true).exec w t).1 = .ok (.object es) ∧ Entries.get? k es = some m ∧
          ((r.env k default' true).exec w t).1 = .ok m := by
      refine ⟨whole.entries, m, by rw [hall]; rfl, (inside k hkey).trans hem, ?_⟩
      rw [single, hm]
      rfl
    refine ⟨fun _ => agrees, .inr ⟨fun n hn hnk => ?_, agrees⟩⟩
    obtain ⟨u, -, hworth, -⟩ := found hn
    exact ⟨u, hworth, fun hi => closed ⟨n, hn, hnk, u, hworth, hi⟩⟩

end

/-- The world of an env file with a value that refers to another one, and a value that
refers to a name outside. -/
def twoReferencesWorld : World where
  files := ⟨Table.ofList [([".env"], .file
    [65, 61, 36, 66, 10, 67, 61, 36, 88, 10, 66, 61, 49, 10] 0)]⟩
  cwd := ⟨[], 0⟩
  environ := .empty
  users := .none
  now := 0

/-- Its mapping. -/
def twoReferencesValues : Mapping Value :=
  Table.ofList [("A", .str "$B"), ("C", .str "$X"), ("B", .int 1)]

/-- A value outside that looks like a reference is put in as it is, alone and in the whole
file. -/
theorem all_agrees_env_twoReferences :
    ((oneReference (.str "$A")).fileValues.exec twoReferencesWorld ⟨.new .once, []⟩).1 =
        .ok twoReferencesValues ∧
      (((oneReference (.str "$A")).env wildcard none true).exec twoReferencesWorld
        ⟨.new .once, []⟩).1 =
          .ok (.object [("A", .str "1"), ("C", .str "$A"), ("B", .int 1), ("X", .str "$A")]) ∧
      (((oneReference (.str "$A")).env "C" none true).exec twoReferencesWorld
        ⟨.new .once, []⟩).1 = .ok (.str "$A") := by
  have hf : ((oneReference (.str "$A")).fileValues.exec twoReferencesWorld
      ⟨.new .once, []⟩).1 = .ok twoReferencesValues := by decide +kernel
  have hall : (((oneReference (.str "$A")).env wildcard none true).exec twoReferencesWorld
      ⟨.new .once, []⟩).1 =
        .ok (.object [("A", .str "1"), ("C", .str "$A"), ("B", .int 1), ("X", .str "$A")]) := by
    decide +kernel
  have h := all_agrees_env (r := oneReference (.str "$A")) (w := twoReferencesWorld)
    (t := ⟨.new .once, []⟩) (k := "C") (v := .str "$X") (.new .once) hf
    (fun failure hp => by cases hp) (by decide) (by decide) (by decide) (by decide)
    (fun n hn => .inl (by
      have hX : n = "X" := by simpa using (show n ∈ (["X"] : List Text) from hn)
      subst hX
      decide)) none none
  rw [hall] at h
  obtain ⟨es, m, hes, hm, hsingle⟩ := h.1 (writable_oneReference (Value.writable_str "$A"))
  cases hes
  have hC : m = .str "$A" := by
    refine Option.some.inj (hm.symm.trans ?_)
    decide
  rw [hC] at hsingle
  exact ⟨hf, hall, hsingle⟩

end Resolver

end Cascade
