/-
  Cascade.Proofs.MappingRun
  ────────────────────────────────
  **THE RUN OVER A MAPPING AND ITS MEMO.**

  A run keeps values under one chain and uses them under another.  That is
  right because of ONE invariant, `Sound`: a value is kept only for a
  grounded key, and it is the meaning of this key above the empty chain.  The
  mark `metChain` is what decides about keeping, and it is exact:

      after a name is answered, the mark is set just when it was set before
      or the name is not grounded                                (`After.met`)

  Each operation of a run `Follows` the meaning it computes: `pure` and
  `bind` are composed once and for all (`transfers_follows`), then one lemma
  per definition leads up to the expansion of a key (`expandKey_follows`) and
  of a list of entries (`expandEntries_follows`).
-/
import Mathlib.Data.List.Chain
import Mathlib.Data.List.Nodup
import Mathlib.Data.List.Perm.Subperm
import Cascade.Proofs.ChainMeaning
import Cascade.Proofs.Transfer
import Cascade.Reference.Mapping

namespace Cascade.Reference

variable {values : Mapping Value} {lookup : Text → Option Value}

/-! ## §1. Chains. -/

/-- A chain of keys, the latest first: distinct keys, each referred to by the one before. -/
structure Chain (values : Mapping Value) (chain : List Text) : Prop where
  distinct : chain.Nodup
  defined : ∀ k ∈ chain, values.contains k = true
  linked : chain.IsChain fun k below => Refers values below k

/-- A chain with a key on top that the last one refers to. -/
theorem Chain.push {key n : Text} {chain : List Text} (h : Chain values (key :: chain))
    (hn : n ∉ key :: chain) (hr : Refers values key n) (hv : values.contains n = true) :
    Chain values (n :: key :: chain) where
  distinct := List.nodup_cons.2 ⟨hn, h.distinct⟩
  defined := fun k hk => by
    rcases List.mem_cons.1 hk with rfl | hk
    · exact hv
    · exact h.defined k hk
  linked := .cons_cons hr h.linked

/-- The chain of a key alone. -/
theorem Chain.single {key : Text} (h : values.contains key = true) : Chain values [key] where
  distinct := List.nodup_singleton key
  defined := fun k hk => by rw [List.mem_singleton.1 hk]; exact h
  linked := .singleton key

/-- Every key of a chain leads to the one on top. -/
theorem Chain.leads {key n : Text} {chain : List Text} (h : Chain values (key :: chain))
    (hn : n ∈ key :: chain) : Relation.ReflTransGen (Refers values) n key := by
  have hl := h.linked
  clear h
  -- the key below the top leads to it, and every other one to the key below
  induction chain generalizing key with
  | nil => rw [List.mem_singleton.1 hn]
  | cons below chain ih =>
    rcases List.mem_cons.1 hn with rfl | hn
    · exact .refl
    · rw [List.isChain_cons_cons] at hl
      exact (ih hn hl.2).tail hl.1

/-- A name on a chain that is referred to from its top is on a cycle. -/
theorem Chain.not_grounded {key n : Text} {chain : List Text}
    (h : Chain values (key :: chain)) (hn : n ∈ key :: chain) (hr : Refers values key n) :
    ¬ Grounded values n := fun hg =>
  hg.not_cycle (Relation.TransGen.tail'_iff.2 ⟨key, h.leads hn, hr⟩)

/-- A grounded key leads to no key of a chain it is on top of. -/
theorem Chain.not_mem_of_grounded {key n : Text} {chain : List Text}
    (h : Chain values (key :: chain)) (hg : Grounded values key)
    (hr : Relation.TransGen (Refers values) key n) : n ∉ chain := fun hn =>
  hg.not_cycle (hr.trans_left (h.leads (List.mem_cons_of_mem key hn)))

/-- A chain is not longer than its mapping is large. -/
theorem Chain.length_le {chain : List Text} (h : Chain values chain) :
    chain.length ≤ values.size := by
  have hs : chain ⊆ values.keys := fun k hk =>
    (Table.contains_iff values k).1 (h.defined k hk)
  have hl := (List.subperm_of_subset h.distinct hs).length_le
  simpa [Table.keys, Table.size] using hl

/-! ## §2. The invariant of a run. -/

/-- Every name that a key refers to from outside was asked. -/
def AskedBy (values : Mapping Value) (key : Text) (p : Progress) : Prop :=
  ∀ n, Refers values key n → values.get? n = none → n ∈ p.asked

/-- What holds throughout a run: a kept value is the meaning of a grounded key whose outside
names were asked, and only referenced names that are no keys are asked. -/
structure Sound (values : Mapping Value) (lookup : Text → Option Value) (p : Progress) :
    Prop where
  kept : ∀ {k v}, Entries.get? k p.done = some v → Grounded values k ∧ AskedBy values k p ∧
    ∃ x, values.get? k = some x ∧ meaning values lookup [k] x = some v
  outside : ∀ {n}, n ∈ p.asked → values.get? n = none ∧ ∃ k, Refers values k n

/-- What has changed in a run once names were answered. -/
structure After (values : Mapping Value) (lookup : Text → Option Value) (names : List Text)
    (p p' : Progress) : Prop where
  sound : Sound values lookup p'
  asked : p.asked ⊆ p'.asked
  met : p'.metChain = true ↔ p.metChain = true ∨ ∃ n ∈ names, ¬ Grounded values n
  visited : ∀ n ∈ names, values.get? n = none → n ∈ p'.asked

/-- The start of a run is sound. -/
theorem sound_start : Sound values lookup Progress.start where
  kept := fun h => by cases h
  outside := fun h => by cases h

/-- A run that answers no name changes nothing. -/
theorem After.refl {p : Progress} (h : Sound values lookup p) : After values lookup [] p p where
  sound := h
  asked := List.Subset.refl _
  met := by simp
  visited := fun n hn => by cases hn

/-- One part of a run after another. -/
theorem After.trans {names names' : List Text} {p q r : Progress}
    (h : After values lookup names p q) (h' : After values lookup names' q r) :
    After values lookup (names ++ names') p r where
  sound := h'.sound
  asked := List.Subset.trans h.asked h'.asked
  met := by
    rw [h'.met, h.met]
    simp only [List.mem_append, or_and_right, exists_or, or_assoc]
  visited := fun n hn hv => by
    rcases List.mem_append.1 hn with hn | hn
    · exact h'.asked (h.visited n hn hv)
    · exact h'.visited n hn hv

/-- The names count, not their order or repetition. -/
theorem After.congr {names names' : List Text} {p q : Progress}
    (h : After values lookup names p q) (hn : ∀ n, n ∈ names ↔ n ∈ names') :
    After values lookup names' p q where
  sound := h.sound
  asked := h.asked
  met := by simp only [h.met, hn]
  visited := fun n hm => h.visited n ((hn n).2 hm)

/-! ## §3. Runs that follow a result. -/

/-- From a sound state a run has the given result, if there is one, and the state it leaves
is related to the one before; without a result the run fails. -/
def Follows {α : Type} (values : Mapping Value) (lookup : Text → Option Value)
    (post : Progress → Progress → Prop) (x : Run α) (result : Option α) : Prop :=
  ∀ p, Sound values lookup p →
    match result with
    | none => x.run p = none
    | some a => ∃ p', x.run p = some (a, p') ∧ post p p'

section Composition

variable {α β : Type} {names names' : List Text}

/-- A result that is already there. -/
theorem follows_pure (a : α) : Follows values lookup (After values lookup []) (pure a) (some a) :=
  fun p hp => ⟨p, rfl, .refl hp⟩

/-- A result that needs no run. -/
theorem follows_lift (o : Option α) :
    Follows values lookup (After values lookup []) (liftM o : Run α) o := by
  intro p hp
  cases o with
  | none => rfl
  | some a => exact ⟨p, rfl, .refl hp⟩

/-- One run after another, where the first leaves a sound state. -/
theorem Follows.andThen {post post' post'' : Progress → Progress → Prop} {x : Run α}
    {f : α → Run β} {a : Option α} {g : α → Option β} (hx : Follows values lookup post x a)
    (hf : ∀ r, a = some r → Follows values lookup post' (f r) (g r))
    (hs : ∀ {p q}, post p q → Sound values lookup q)
    (ht : ∀ {p q r}, post p q → post' q r → post'' p r) :
    Follows values lookup post'' (x >>= f) (a.bind g) := by
  intro p hp
  have h := hx p hp
  cases a with
  | none =>
    -- the first run fails, and so do both together
    simp only at h
    simp [StateT.run_bind, h]
  | some r =>
    obtain ⟨q, hq, hpq⟩ := h
    have h' := hf r rfl q (hs hpq)
    simp only [StateT.run_bind, hq, Option.bind_some, Option.bind_eq_bind]
    cases hg : g r with
    | none => rw [hg] at h'; exact h'
    | some b =>
      rw [hg] at h'
      obtain ⟨q', hq', hqq⟩ := h'
      exact ⟨q', hq', ht hpq hqq⟩

/-- One run that answers names after another. -/
theorem Follows.bind {x : Run α} {f : α → Run β} {a : Option α} {g : α → Option β}
    (hx : Follows values lookup (After values lookup names) x a)
    (hf : ∀ r, a = some r → Follows values lookup (After values lookup names') (f r) (g r)) :
    Follows values lookup (After values lookup (names ++ names')) (x >>= f) (a.bind g) :=
  hx.andThen hf After.sound After.trans

/-- A weaker relation between the states. -/
theorem Follows.imp {post post' : Progress → Progress → Prop} {x : Run α} {a : Option α}
    (hx : Follows values lookup post x a) (h : ∀ {p q}, post p q → post' p q) :
    Follows values lookup post' x a := by
  intro p hp
  have hr := hx p hp
  cases a with
  | none => exact hr
  | some r =>
    obtain ⟨q, hq, hpq⟩ := hr
    exact ⟨q, hq, h hpq⟩

/-- The same names in another order. -/
theorem Follows.congr {x : Run α} {a : Option α}
    (hx : Follows values lookup (After values lookup names) x a)
    (hn : ∀ n, n ∈ names ↔ n ∈ names') :
    Follows values lookup (After values lookup names') x a :=
  hx.imp fun h => h.congr hn

/-- Runs follow their results step by step. -/
theorem transfers_follows (values : Mapping Value) (lookup : Text → Option Value) :
    Transfers fun α names (x : Run α) (a : Option α) =>
      Follows values lookup (After values lookup names) x a where
  pure a := follows_pure a
  bind hx hf := hx.bind fun r _ => hf r

end Composition

/-! ## §4. Answering names. -/

/-- What replaces a reference needs no run. -/
theorem render_follows (v : Value) :
    Follows values lookup (After values lookup []) (render v) (replacement? v) := by
  have written (o : Option Text) :
      Follows values lookup (After values lookup []) (do return some (← (liftM o : Run Text)))
        (o.map some) := by
    simpa [Option.map_eq_bind, Function.comp_def] using
      (transfers_follows values lookup).map some (follows_lift o)
  cases v with
  | null => exact follows_pure none
  | _ => exact written _

/-- A name that no key has leads nowhere. -/
theorem grounded_of_get?_eq_none {n : Text} (h : values.get? n = none) : Grounded values n :=
  grounded_of_refers fun _ ⟨v, hv, _⟩ => by rw [h] at hv; cases hv

/-- Asking from outside. -/
theorem askOutside_follows {n : Text} (hv : values.get? n = none)
    (hr : ∃ k, Refers values k n) :
    Follows values lookup (After values lookup [n]) (askOutside lookup n)
      (replacement? ((lookup n).getD .null)) := by
  have noted : Follows values lookup (After values lookup [n])
      (modify fun p => { p with asked := n :: p.asked } : Run Unit) (some ()) := by
    intro p hp
    refine ⟨{ p with asked := n :: p.asked }, rfl, ?_, List.subset_cons_self n _, ?_, ?_⟩
    -- no kept value is touched by asking for one more name
    · constructor
      · intro k v hk
        obtain ⟨hg, ha, hm⟩ := hp.kept hk
        exact ⟨hg, fun m hm hn => List.mem_cons_of_mem n (ha m hm hn), hm⟩
      · intro m hm
        rcases List.mem_cons.1 hm with rfl | hm
        · exact ⟨hv, hr⟩
        · exact hp.outside hm
    · have hg : Grounded values n := grounded_of_get?_eq_none hv
      simp [hg]
    · simp
  exact noted.bind fun _ _ => render_follows _

/-- Answering a name that the top of a chain refers to, where expansion of the keys above
the chain follows their meaning. -/
theorem answerInside_follows {key n : Text} {chain : List Text}
    {expand : Text → Value → Run Value} (hc : Chain values (key :: chain))
    (hr : Refers values key n)
    (he : n ∉ key :: chain → ∀ v, values.get? n = some v →
      Follows values lookup (After values lookup [n]) (expand n v)
        (meaning values lookup (n :: key :: chain) v)) :
    Follows values lookup (After values lookup [n])
      (answerInside values lookup expand (key :: chain) n)
      (answerAbove values lookup (key :: chain) n) := by
  rw [answerInside, answerAbove]
  by_cases hn : n ∈ key :: chain
  · -- the chain is met: the name is on a cycle, so the mark is due
    have hg : ¬ Grounded values n := hc.not_grounded hn hr
    rw [if_pos hn, if_pos (by simpa using hn)]
    intro p hp
    obtain ⟨v, hv⟩ : ∃ v, values.get? n = some v := by
      have hd := hc.defined n hn
      exact Option.isSome_iff_exists.1 hd
    refine ⟨{ p with metChain := true }, rfl, ⟨hp.kept, hp.outside⟩, List.Subset.refl _, ?_, ?_⟩
    · simp [hg]
    · intro m hm hv'
      rw [List.mem_singleton.1 hm, hv] at hv'
      cases hv'
  · rw [if_neg hn, if_neg (by simpa using hn)]
    cases hv : values.get? n with
    | none => exact askOutside_follows hv ⟨key, hr⟩
    | some v =>
      -- above the chain, with the name on top of it
      exact (he hn v hv).bind fun r _ => render_follows r

/-! ## §5. Values. -/

/-- Expansion of a value whose names are answered. -/
theorem expandValue_follows {answer : Text → Run (Option Text)}
    {answer' : Text → Option (Option Text)} {v : Value}
    (h : ∀ n ∈ namesOf v,
      Follows values lookup (After values lookup [n]) (answer n) (answer' n)) :
    Follows values lookup (After values lookup (namesOf v)) (expandValue answer v)
      (rewriteValue answer' v) := by
  have expanded := (transfers_follows values lookup).expandValue fun n hn =>
    h n (mem_answeredNames_iff.1 hn)
  rw [← expandValue_eq_rewriteValue]
  exact expanded.congr fun n => mem_answeredNames_iff

/-! ## §6. Keys. -/

/-- What has changed in a run once keys were expanded: their outside names were asked, too. -/
def AfterKeys (values : Mapping Value) (lookup : Text → Option Value) (keys : List Text)
    (p p' : Progress) : Prop :=
  After values lookup keys p p' ∧ ∀ k ∈ keys, AskedBy values k p'

/-- Keys expanded one part after another. -/
theorem AfterKeys.trans {keys keys' : List Text} {p q r : Progress}
    (h : AfterKeys values lookup keys p q) (h' : AfterKeys values lookup keys' q r) :
    AfterKeys values lookup (keys ++ keys') p r := by
  refine ⟨h.1.trans h'.1, fun k hk n hr hn => ?_⟩
  rcases List.mem_append.1 hk with hk | hk
  · exact h'.1.asked (h.2 k hk n hr hn)
  · exact h'.2 k hk n hr hn

/-- A kept value stands for the meaning above any chain that leads to its key. -/
theorem Sound.meaning_of_kept {p : Progress} {key : Text} {chain : List Text} {v x : Value}
    (hp : Sound values lookup p) (hc : Chain values (key :: chain))
    (hk : Entries.get? key p.done = some v) (hx : values.get? key = some x) :
    meaning values lookup (key :: chain) x = some v := by
  obtain ⟨hg, -, y, hy, hm⟩ := hp.kept hk
  rw [hx] at hy
  cases hy
  rw [← hm]
  exact meaning_of_grounded hg hx (fun n hn => hc.not_mem_of_grounded hg hn)
    fun n _ => List.not_mem_nil

/-- A key is grounded exactly when the names of its value are. -/
theorem grounded_iff_of_get? {key : Text} {v : Value} (hv : values.get? key = some v) :
    Grounded values key ↔ ∀ n ∈ namesOf v, Grounded values n := by
  constructor
  · exact fun hg n hn => hg.of_refers ⟨v, hv, hn⟩
  · refine fun h => grounded_of_refers fun n ⟨x, hx, hn⟩ => ?_
    rw [hv] at hx
    cases hx
    exact h n hn

/-- The state in which a key is left that was entered with the mark `outer`. -/
def Progress.left (q : Progress) (key : Text) (result : Value) (outer : Bool) : Progress :=
  { q with
    done := if q.metChain then q.done else (key, result) :: q.done
    metChain := q.metChain || outer }

/-- The run of the expansion of a key: a kept value, or that of its value with the mark
taken away meanwhile. -/
theorem run_expandKey (room : Nat) (key : Text) (chain : List Text) (v : Value)
    (p : Progress) :
    (expandKey values lookup (room + 1) chain key v).run p =
      match Entries.get? key p.done with
      | some kept => some (kept, p)
      | none =>
        ((expandValue (answerInside values lookup (expandKey values lookup room (key :: chain))
          (key :: chain)) v).run { p with metChain := false }).map
            fun (result, q) => (result, q.left key result p.metChain) := by
  rw [expandKey]
  simp only [StateT.run_bind, StateT.run_get, Option.pure_def, Option.bind_eq_bind,
    Option.bind_some]
  cases Entries.get? key p.done with
  | some kept => rfl
  | none =>
    simp only [StateT.run_bind, StateT.run_get, StateT.run_modify, Option.pure_def,
      Option.bind_eq_bind, Option.bind_some, StateT.run_pure, Option.map_eq_bind]
    rfl

/-- A key whose value was expanded without the mark is left soundly. -/
theorem After.left {p q : Progress} {key : Text} {chain : List Text} {v result : Value}
    (hc : Chain values (key :: chain)) (hv : values.get? key = some v)
    (hm : meaning values lookup (key :: chain) v = some result)
    (h : After values lookup (namesOf v) { p with metChain := false } q) :
    AfterKeys values lookup [key] p (q.left key result p.metChain) := by
  -- the mark was taken away meanwhile, so it tells about this key alone
  have marked : q.metChain = true ↔ ¬ Grounded values key := by
    rw [h.met, grounded_iff_of_get? hv]
    simp
  have asked : AskedBy values key q := by
    rintro n ⟨x, hx, hn⟩ hnone
    rw [hv] at hx
    cases hx
    exact h.visited n hn hnone
  refine ⟨⟨⟨?_, h.sound.outside⟩, h.asked, ?_, ?_⟩, fun k hk => ?_⟩
  · intro k x hk
    by_cases hg : q.metChain = true
    · simp only [Progress.left, hg, if_true] at hk
      exact h.sound.kept hk
    · simp only [Progress.left, hg, if_false, Bool.false_eq_true] at hk
      rw [Entries.get?] at hk
      split at hk
      · -- the key itself is kept: it is grounded, so the chain below does not matter
        next he =>
          subst he
          cases hk
          have hk : Grounded values key := by
            by_contra hn
            exact hg (marked.2 hn)
          refine ⟨hk, asked, v, hv, ?_⟩
          rw [← hm]
          exact meaning_of_grounded hk hv (fun n _ => List.not_mem_nil)
            fun n hn => hc.not_mem_of_grounded hk hn
      · exact h.sound.kept hk
  · -- now the outer mark comes back
    simp only [Progress.left, Bool.or_eq_true, marked, List.mem_singleton, exists_eq_left]
    exact or_comm
  · intro n hn hnone
    rw [List.mem_singleton.1 hn, hv] at hnone
    cases hnone
  · rw [List.mem_singleton.1 hk]
    exact asked

/-- The expansion of a key follows its meaning above the chain. -/
theorem expandKey_follows (room : Nat) {key : Text} {chain : List Text} {v : Value}
    (hc : Chain values (key :: chain)) (hv : values.get? key = some v)
    (hr : values.size ≤ room + chain.length) :
    Follows values lookup (AfterKeys values lookup [key])
      (expandKey values lookup room chain key v)
      (meaning values lookup (key :: chain) v) := by
  induction room generalizing key chain v with
  | zero =>
    -- a chain cannot be longer than the mapping is large
    have hl := hc.length_le
    simp only [List.length_cons] at hl
    omega
  | succ room ih =>
    intro p hp
    rw [run_expandKey]
    cases hk : Entries.get? key p.done with
    | some kept =>
      -- what is kept was found under another chain, but means the same under this one
      obtain ⟨hg, ha, -⟩ := hp.kept hk
      rw [hp.meaning_of_kept hc hk hv]
      refine ⟨p, rfl, ⟨hp, List.Subset.refl _, by simp [hg], fun n hn hnone => ?_⟩,
        fun k hk => by rw [List.mem_singleton.1 hk]; exact ha⟩
      rw [List.mem_singleton.1 hn, hv] at hnone
      cases hnone
    | none =>
      -- the chain grows by the key, which makes up for the room that is used
      have answered : ∀ n ∈ namesOf v, Follows values lookup (After values lookup [n])
          (answerInside values lookup (expandKey values lookup room (key :: chain))
            (key :: chain) n)
          (answerAbove values lookup (key :: chain) n) := fun n hn => by
        refine answerInside_follows hc ⟨v, hv, hn⟩ fun hnc w hw => ?_
        have hd : values.contains n = true := by rw [Table.contains, hw]; rfl
        have hpush := hc.push hnc ⟨v, hv, hn⟩ hd
        exact (ih hpush hw (by simp only [List.length_cons]; omega)).imp And.left
      have h := expandValue_follows answered { p with metChain := false } ⟨hp.kept, hp.outside⟩
      rw [← meaning_eq] at h
      cases hmean : meaning values lookup (key :: chain) v with
      | none =>
        rw [hmean] at h
        simp only [h, Option.map_none]
      | some result =>
        rw [hmean] at h
        obtain ⟨q, hq, ha⟩ := h
        exact ⟨q.left key result p.metChain, by simp only [hq, Option.map_some],
          ha.left hc hv hmean⟩

/-- The expansion of entries of the mapping follows their meanings, each above the empty
chain. -/
theorem expandEntries_follows {es : List (Text × Value)}
    (h : ∀ e ∈ es, values.get? e.1 = some e.2) :
    Follows values lookup (AfterKeys values lookup (es.map Prod.fst))
      (expandEntries values lookup es)
      (es.mapM fun e => do return (e.1, ← meaning values lookup [e.1] e.2)) := by
  induction es with
  | nil => exact fun p hp => ⟨p, rfl, .refl hp, fun k hk => by cases hk⟩
  | cons e es ih =>
    have he := h e (by simp)
    have hd : values.contains e.1 = true := by rw [Table.contains, he]; rfl
    have hkey : Follows values lookup (AfterKeys values lookup [e.1])
        (expandKey values lookup values.size [] e.1 e.2) (meaning values lookup [e.1] e.2) :=
      expandKey_follows values.size (Chain.single hd) he (by simp)
    have hrest := ih fun e' he' => h e' (by simp [he'])
    have last (result : Value) (results : List (Text × Value)) :
        Follows values lookup (AfterKeys values lookup [])
          (pure ((e.1, result) :: results)) (some ((e.1, result) :: results)) :=
      fun p hp => ⟨p, rfl, .refl hp, fun k hk => by cases hk⟩
    rw [List.mapM_cons]
    simp only [Option.bind_eq_bind, Option.pure_def, Option.bind_assoc, Option.bind_some]
    refine hkey.andThen (fun result _ => ?_) (fun h => h.1.sound) AfterKeys.trans
    refine hrest.andThen (fun results _ => last result results) (fun h => h.1.sound) ?_
    exact fun h h' => by simpa using h.trans h'

end Cascade.Reference
