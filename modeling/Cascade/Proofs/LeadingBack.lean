/-
  Cascade.Proofs.LeadingBack
  ────────────────────────────────
  **WHAT LEADS BACK IS NOT KEPT.**

  Under a stack of keys a name LEADS BACK when references go from it to a
  cycle or to a key on the stack.  This is decided one reference at a time
  (`leadsBack_iff`), with the key that is looked at on the stack meanwhile:

      k leads back under S  ⟺  some name k refers to leads back under k :: S

  An expansion decides it that way, with one mark, and keeps what does not
  lead back.  So there is ONE invariant for what is kept, `MemoUnder`, and it
  is stated for any stack at all, not only for the chains of a run.  Names
  are answered in four ways, and all four leave the same relation between
  the states before and after, `AnsweredUnder`:

      answeredUnder_met, answeredUnder_kept, answeredUnder_outside
      answeredUnder_left     — a key that was entered and is left

  From these the whole expansion of a key (`expandKey_answeredUnder`), of a
  list of entries (`expandEntries_answeredUnder`) and of a mapping
  (`get?_done_iff`) follow.
-/
import Cascade.Proofs.ExpansionEnds
import Cascade.Proofs.FixedPoint

namespace Cascade.Reference

open Relation

variable {values : Mapping Value} {lookup : Text → Option Value} {stack : List Text}
  {k n : Text} {v : Value} {done : List (Text × Value)} {p q r : Progress}

/-! ## §1. Leading back. -/

/-- References lead from a name to a cycle, or to a name on the stack. -/
def LeadsBack (values : Mapping Value) (stack : List Text) (k : Text) : Prop :=
  LeadsToCycle values k ∨ ∃ s ∈ stack, ReflTransGen (Refers values) k s

/-- A name on the stack leads back. -/
theorem leadsBack_of_mem (h : n ∈ stack) : LeadsBack values stack n := .inr ⟨n, h, .refl⟩

/-- Under the empty stack only cycles count. -/
theorem leadsBack_nil_iff : LeadsBack values [] k ↔ LeadsToCycle values k := by simp [LeadsBack]

/-- What leads back under a part of the stack leads back under all of it. -/
theorem LeadsBack.push (h : LeadsBack values stack n) : LeadsBack values (k :: stack) n :=
  h.imp id fun ⟨s, hs, hr⟩ => ⟨s, List.mem_cons_of_mem k hs, hr⟩

/-- **ONE REFERENCE AT A TIME.**  A key off the stack leads back just when some name it refers to
does, with the key itself on the stack. -/
theorem leadsBack_iff (hk : k ∉ stack) :
    LeadsBack values stack k ↔ ∃ n, Refers values k n ∧ LeadsBack values (k :: stack) n := by
  constructor
  · rintro (⟨c, hkc, hc⟩ | ⟨s, hs, hks⟩)
    · rcases ReflTransGen.cases_head hkc with rfl | ⟨n, hn, hnc⟩
      · -- the key is on the cycle itself, and its reference on this cycle comes back to it
        obtain ⟨n, hn, hnk⟩ := TransGen.head'_iff.1 hc
        exact ⟨n, hn, .inr ⟨k, List.mem_cons_self, hnk⟩⟩
      · exact ⟨n, hn, .inl ⟨c, hnc, hc⟩⟩
    · rcases ReflTransGen.cases_head hks with rfl | ⟨n, hn, hns⟩
      · exact absurd hs hk
      · exact ⟨n, hn, .inr ⟨s, List.mem_cons_of_mem k hs, hns⟩⟩
  · rintro ⟨n, hn, ⟨c, hnc, hc⟩ | ⟨s, hs, hns⟩⟩
    · exact .inl ⟨c, .head hn hnc, hc⟩
    · rcases List.mem_cons.1 hs with rfl | hs
      · exact .inl ⟨s, .refl, TransGen.head'_iff.2 ⟨n, hn, hns⟩⟩
      · exact .inr ⟨s, hs, .head hn hns⟩

/-- A name off the stack that no key has does not lead back. -/
theorem not_leadsBack_of_get?_eq_none (hn : n ∉ stack) (hv : values.get? n = none) :
    ¬ LeadsBack values stack n := by
  rw [leadsBack_iff hn]
  rintro ⟨_, ⟨v, hv', _⟩, _⟩
  rw [hv] at hv'
  cases hv'

/-- A name with a value is a key. -/
theorem contains_of_get? (hv : values.get? k = some v) : values.contains k = true := by
  rw [Table.contains, hv]
  rfl

/-- A key refers to the names of its value. -/
theorem refers_iff_of_get? (hv : values.get? k = some v) : Refers values k n ↔ n ∈ namesOf v := by
  constructor
  · rintro ⟨v', hv', hn⟩
    rw [hv] at hv'
    cases hv'
    exact hn
  · exact fun hn => ⟨v, hv, hn⟩

/-- A key off the stack leads back just when some name of its value does. -/
theorem leadsBack_iff_of_get? (hv : values.get? k = some v) (hk : k ∉ stack) :
    LeadsBack values stack k ↔ ∃ n ∈ namesOf v, LeadsBack values (k :: stack) n := by
  simp only [leadsBack_iff hk, refers_iff_of_get? hv]

/-! ## §2. What is kept under a stack. -/

/-- The keys whose values are kept. -/
def Progress.kept (p : Progress) : List Text := p.done.map Prod.fst

/-- A key with a kept value is kept. -/
theorem mem_kept_of_get? (h : Entries.get? k p.done = some v) : k ∈ p.kept := by
  by_contra hk
  rw [Entries.get?_eq_none_iff.2 hk] at h
  cases h

/-- What is kept under a stack: keys of the mapping that do not lead back, together with all the
keys they refer to. -/
structure MemoUnder (values : Mapping Value) (stack : List Text) (p : Progress) : Prop where
  defined : ∀ k ∈ p.kept, values.contains k = true
  clear : ∀ k ∈ p.kept, ¬ LeadsBack values stack k
  closed : ∀ k ∈ p.kept, ∀ n, Refers values k n → values.contains n = true → n ∈ p.kept

/-- At the start nothing is kept, which fits any stack. -/
theorem memoUnder_start : MemoUnder values stack Progress.start where
  defined := fun _ hk => absurd hk List.not_mem_nil
  clear := fun _ hk => absurd hk List.not_mem_nil
  closed := fun _ hk => absurd hk List.not_mem_nil

/-- Only the kept values count. -/
theorem MemoUnder.congr (h : MemoUnder values stack p) (hd : q.done = p.done) :
    MemoUnder values stack q := by
  have hk : q.kept = p.kept := by rw [Progress.kept, Progress.kept, hd]
  exact ⟨hk ▸ h.defined, hk ▸ h.clear, hk ▸ h.closed⟩

/-- No key on the stack is kept. -/
theorem MemoUnder.not_mem_kept (h : MemoUnder values stack p) (hk : k ∈ stack) : k ∉ p.kept :=
  fun hm => h.clear k hm (leadsBack_of_mem hk)

/-- A kept key leads to kept keys only. -/
theorem MemoUnder.mem_kept_of_leads (h : MemoUnder values stack p)
    (hr : ReflTransGen (Refers values) k n) (hk : k ∈ p.kept) (hn : values.contains n = true) :
    n ∈ p.kept := by
  induction hr using ReflTransGen.head_induction_on with
  | refl => exact hk
  | @head k m hkm hmn ih =>
    -- what is on the way is a key, since it refers further, and the end is one by assumption
    have hm : values.contains m = true := by
      rcases ReflTransGen.cases_head hmn with rfl | ⟨_, ⟨v, hv, _⟩, _⟩
      · exact hn
      · exact contains_of_get? hv
    exact ih (h.closed k hk m hkm hm)

/-- A key that is not kept may be put on the stack. -/
theorem MemoUnder.push (h : MemoUnder values stack p) (hv : values.contains k = true)
    (hk : k ∉ p.kept) : MemoUnder values (k :: stack) p where
  defined := h.defined
  clear := by
    rintro m hm (hc | ⟨s, hs, hms⟩)
    · exact h.clear m hm (.inl hc)
    · rcases List.mem_cons.1 hs with rfl | hs
      · exact hk (h.mem_kept_of_leads hms hm hv)
      · exact h.clear m hm (.inr ⟨s, hs, hms⟩)
  closed := h.closed

/-- The key on top may be taken from the stack. -/
theorem MemoUnder.pop (h : MemoUnder values (k :: stack) p) : MemoUnder values stack p where
  defined := h.defined
  clear := fun m hm hb => h.clear m hm hb.push
  closed := h.closed

/-! ## §3. Answers under a stack. -/

/-- What has changed once names were answered under a stack: the mark tells besides what it told
before whether one of them leads back, and those that do not are kept. -/
structure AnsweredUnder (values : Mapping Value) (stack names : List Text) (p q : Progress) :
    Prop where
  memo : MemoUnder values stack q
  grows : ∀ {k v}, Entries.get? k p.done = some v → Entries.get? k q.done = some v
  met : q.metChain = true ↔ p.metChain = true ∨ ∃ n ∈ names, LeadsBack values stack n
  kept : ∀ n ∈ names, values.contains n = true → ¬ LeadsBack values stack n → n ∈ q.kept

variable {names names' : List Text}

/-- What was kept is kept. -/
theorem AnsweredUnder.subset (h : AnsweredUnder values stack names p q) : p.kept ⊆ q.kept := by
  intro k hk
  obtain ⟨v, hv⟩ : ∃ v, Entries.get? k p.done = some v :=
    Option.ne_none_iff_exists'.1 fun hn => Entries.get?_eq_none_iff.1 hn hk
  exact mem_kept_of_get? (h.grows hv)

/-- No name is answered. -/
theorem AnsweredUnder.refl (h : MemoUnder values stack p) : AnsweredUnder values stack [] p p where
  memo := h
  grows := id
  met := by simp
  kept := fun n hn => absurd hn List.not_mem_nil

/-- Names answered after others. -/
theorem AnsweredUnder.trans (h : AnsweredUnder values stack names p q)
    (h' : AnsweredUnder values stack names' q r) :
    AnsweredUnder values stack (names ++ names') p r where
  memo := h'.memo
  grows := fun hk => h'.grows (h.grows hk)
  met := by
    rw [h'.met, h.met]
    simp only [List.mem_append, or_and_right, exists_or, or_assoc]
  kept := fun n hn hv hb => by
    rcases List.mem_append.1 hn with hn | hn
    · exact h'.subset (h.kept n hn hv hb)
    · exact h'.kept n hn hv hb

/-- The names count, not their order or repetition. -/
theorem AnsweredUnder.congr (h : AnsweredUnder values stack names p q)
    (hn : ∀ n, n ∈ names ↔ n ∈ names') : AnsweredUnder values stack names' p q where
  memo := h.memo
  grows := h.grows
  met := by simp only [h.met, hn]
  kept := fun n hm => h.kept n ((hn n).2 hm)

/-- A name on the stack sets the mark. -/
theorem answeredUnder_met (h : MemoUnder values stack p) (hn : n ∈ stack) :
    AnsweredUnder values stack [n] p { p with metChain := true } where
  memo := h.congr rfl
  grows := id
  met := iff_of_true rfl (.inr ⟨n, List.mem_singleton_self n, leadsBack_of_mem hn⟩)
  kept := fun m hm _ hb => by
    rw [List.mem_singleton.1 hm] at hb
    exact absurd (leadsBack_of_mem hn) hb

/-- A kept key leaves everything as it is. -/
theorem answeredUnder_kept (h : MemoUnder values stack p) (hn : n ∈ p.kept) :
    AnsweredUnder values stack [n] p p where
  memo := h
  grows := id
  met := by simp [h.clear n hn]
  kept := fun m hm _ _ => List.mem_singleton.1 hm ▸ hn

/-- A name that no key has is noted. -/
theorem answeredUnder_outside (h : MemoUnder values stack p) (hn : n ∉ stack)
    (hv : values.get? n = none) :
    AnsweredUnder values stack [n] p { p with asked := n :: p.asked } where
  memo := h.congr rfl
  grows := id
  met := by simp [not_leadsBack_of_get?_eq_none hn hv]
  kept := fun m hm hd _ => by
    rw [List.mem_singleton.1 hm, Table.contains, hv] at hd
    cases hd

/-- A key that is left with the mark is not kept. -/
theorem done_left_of_met (hm : q.metChain = true) (result : Value) (outer : Bool) :
    (q.left k result outer).done = q.done := by
  simp [Progress.left, hm]

/-- A key that is left without the mark is kept with its value. -/
theorem done_left_of_not_met (hm : ¬ q.metChain = true) (result : Value) (outer : Bool) :
    (q.left k result outer).done = (k, result) :: q.done := by
  simp [Progress.left, hm]

/-- **LEAVING A KEY.**  Where the mark tells whether the key leads back, and what it refers to is
kept if it does not, the key is kept just when it does not lead back, and the mark is put together
with the one from outside. -/
theorem answeredUnder_left (h : MemoUnder values (k :: stack) q)
    (hv : values.contains k = true) (hm : q.metChain = true ↔ LeadsBack values stack k)
    (hkept : ¬ LeadsBack values stack k →
      ∀ n, Refers values k n → values.contains n = true → n ∈ q.kept)
    (result : Value) (outer : Bool) :
    AnsweredUnder values stack [k] { q with metChain := outer } (q.left k result outer) := by
  have hnew : k ∉ q.kept := h.not_mem_kept List.mem_cons_self
  have met : (q.left k result outer).metChain = true ↔
      outer = true ∨ ∃ n ∈ [k], LeadsBack values stack n := by
    simp only [Progress.left, Bool.or_eq_true, hm, List.mem_singleton, exists_eq_left]
    exact or_comm
  by_cases hb : LeadsBack values stack k
  · have hd := done_left_of_met (k := k) (hm.2 hb) result outer
    exact ⟨h.pop.congr hd, fun hg => hd ▸ hg, met, fun n hn _ hnb =>
      absurd (List.mem_singleton.1 hn ▸ hb) hnb⟩
  · -- one key more is kept, and what it refers to was kept before
    have hd := done_left_of_not_met (k := k) (fun ht => hb (hm.1 ht)) result outer
    have hkeys : (q.left k result outer).kept = k :: q.kept := by rw [Progress.kept, hd]; rfl
    refine ⟨⟨?_, ?_, ?_⟩, fun {m w} hw => ?_, met, fun n hn _ _ => ?_⟩
    · rw [hkeys]
      exact List.forall_mem_cons.2 ⟨hv, h.defined⟩
    · rw [hkeys]
      exact List.forall_mem_cons.2 ⟨hb, h.pop.clear⟩
    · rw [hkeys]
      exact List.forall_mem_cons.2 ⟨fun n hn hd => List.mem_cons_of_mem k (hkept hb n hn hd),
        fun m hm n hn hd => List.mem_cons_of_mem k (h.closed m hm n hn hd)⟩
    · have hne : k ≠ m := fun he => hnew (he ▸ mem_kept_of_get? hw)
      rw [hd, Entries.get?, if_neg hne]
      exact hw
    · rw [hkeys, List.mem_singleton.1 hn]
      exact List.mem_cons_self

/-! ## §4. Runs that answer names under a stack. -/

/-- From a memo that fits the stack, a run that comes to a result has answered these names. -/
def Answers {α : Type} (values : Mapping Value) (stack names : List Text) (x : Run α) : Prop :=
  ∀ p q a, MemoUnder values stack p → x.run p = some (a, q) → AnsweredUnder values stack names p q

section Composition

variable {α β : Type}

/-- A result that is already there. -/
theorem answers_pure (a : α) : Answers values stack [] (pure a : Run α) := by
  intro p q b hp hrun
  cases hrun
  exact .refl hp

/-- One run after another. -/
theorem Answers.bind {x : Run α} {f : α → Run β} (hx : Answers values stack names x)
    (hf : ∀ a, Answers values stack names' (f a)) :
    Answers values stack (names ++ names') (x >>= f) := by
  intro p r b hp hrun
  rw [StateT.run_bind, Option.bind_eq_bind, Option.bind_eq_some_iff] at hrun
  obtain ⟨⟨a, q⟩, hq, hr⟩ := hrun
  have h := hx p q a hp hq
  exact h.trans (hf a q r b h.memo hr)

end Composition

/-- What replaces a reference answers nothing more. -/
theorem answers_render (v : Value) : Answers values stack [] (render v) := by
  intro p q text hp hrun
  rw [Machine.run_render, Option.map_eq_some_iff] at hrun
  obtain ⟨_, -, he⟩ := hrun
  cases he
  exact .refl hp

/-- A name is answered in one of the ways above, where the expansion of keys off the stack is. -/
theorem answers_answerInside {expand : Text → Value → Run Value}
    (he : n ∉ stack → ∀ v, values.get? n = some v → Answers values stack [n] (expand n v)) :
    Answers values stack [n] (answerInside values lookup expand stack n) := by
  rw [answerInside]
  by_cases hn : n ∈ stack
  · rw [if_pos (by simpa using hn)]
    intro p q text hp hrun
    cases hrun
    exact answeredUnder_met hp hn
  · rw [if_neg (by simpa using hn)]
    cases hv : values.get? n with
    | none =>
      have noted : Answers values stack [n]
          (modify fun p => { p with asked := n :: p.asked } : Run Unit) := by
        intro p q u hp hrun
        cases hrun
        exact answeredUnder_outside hp hn hv
      exact noted.bind fun _ => answers_render _
    | some v => exact (he hn v hv).bind answers_render

/-- The expansion of a value answers its names. -/
theorem answers_expandValue {answer : Text → Run (Option Text)}
    (h : ∀ n ∈ namesOf v, Answers values stack [n] (answer n)) :
    Answers values stack (namesOf v) (expandValue answer v) := by
  intro p q result hp hrun
  have answered : Answers values stack (answeredNames v) (expandValue answer v) :=
    holds_expandValue (P := fun _ names x => Answers values stack names x) answers_pure
      (fun hx hf => hx.bind hf) fun n hn => h n (mem_answeredNames_iff.1 hn)
  exact (answered p q result hp hrun).congr fun n => mem_answeredNames_iff

/-! ## §5. Keys. -/

/-- A key that is put on the stack leaves less room above it. -/
theorem length_filter_push_lt (hv : values.get? k = some v) (hk : k ∉ stack) :
    (values.keys.filter (· ∉ k :: stack)).length < (values.keys.filter (· ∉ stack)).length := by
  have hmem : k ∈ values.keys := (Table.contains_iff values k).1 (contains_of_get? hv)
  have hf : values.keys.filter (· ∉ k :: stack) =
      (values.keys.filter (· ∉ stack)).filter (· ≠ k) := by
    rw [List.filter_filter]
    refine List.filter_congr fun m _ => ?_
    simp [not_or]
  rw [hf]
  exact List.length_filter_lt_length_iff_exists.2 ⟨k, by simpa using ⟨hmem, hk⟩, by simp⟩

/-- A key whose names were answered with the key on the stack, and the mark taken away before, is
answered when it is left. -/
theorem AnsweredUnder.leave (hv : values.get? k = some v) (hk : k ∉ stack)
    (h : AnsweredUnder values (k :: stack) (namesOf v) { p with metChain := false } q)
    (result : Value) :
    AnsweredUnder values stack [k] p (q.left k result p.metChain) ∧
      (¬ LeadsBack values stack k →
        Entries.get? k (q.left k result p.metChain).done = some result) := by
  -- the mark tells about the names of this value alone
  have hm : q.metChain = true ↔ LeadsBack values stack k := by
    rw [h.met, leadsBack_iff_of_get? hv hk]
    simp
  have hkept (hb : ¬ LeadsBack values stack k) (n : Text) (hn : Refers values k n)
      (hd : values.contains n = true) : n ∈ q.kept :=
    h.kept n ((refers_iff_of_get? hv).1 hn) hd fun hnb => hb ((leadsBack_iff hk).2 ⟨n, hn, hnb⟩)
  have hleft := answeredUnder_left h.memo (contains_of_get? hv) hm hkept result p.metChain
  refine ⟨⟨hleft.memo, fun hg => hleft.grows (h.grows hg), hleft.met, hleft.kept⟩, fun hb => ?_⟩
  rw [done_left_of_not_met fun ht => hb (hm.1 ht), Entries.get?, if_pos rfl]

/-- **THE EXPANSION OF A KEY ABOVE ANY STACK.**  With room for the keys that are not on the stack,
it answers the key, and keeps its value unless the key leads back. -/
theorem expandKey_answeredUnder (room : Nat) {result : Value} (hv : values.get? k = some v)
    (hk : k ∉ stack) (hroom : (values.keys.filter (· ∉ stack)).length ≤ room)
    (hp : MemoUnder values stack p)
    (hrun : (expandKey values lookup room stack k v).run p = some (result, q)) :
    AnsweredUnder values stack [k] p q ∧
      (¬ LeadsBack values stack k → Entries.get? k q.done = some result) := by
  -- on the room, which shrinks with every key that is put on the stack
  induction room generalizing stack k v p q result with
  | zero =>
    have hlt := length_filter_push_lt hv hk
    omega
  | succ room ih =>
    have hlt := length_filter_push_lt hv hk
    rw [run_expandKey] at hrun
    cases hkept : Entries.get? k p.done with
    | some kept =>
      rw [hkept] at hrun
      cases hrun
      exact ⟨answeredUnder_kept hp (mem_kept_of_get? hkept), fun _ => hkept⟩
    | none =>
      rw [hkept] at hrun
      obtain ⟨⟨result, q'⟩, hq, he⟩ := Option.map_eq_some_iff.1 hrun
      cases he
      have inside : ∀ n ∈ namesOf v, Answers values (k :: stack) [n]
          (answerInside values lookup (expandKey values lookup room (k :: stack))
            (k :: stack) n) := fun n _ =>
        answers_answerInside fun hn w hw p q a hp hrun => (ih hw hn (by omega) hp hrun).1
      have hmemo : MemoUnder values (k :: stack) { p with metChain := false } :=
        (hp.push (contains_of_get? hv) (Entries.get?_eq_none_iff.1 hkept)).congr rfl
      exact (answers_expandValue inside _ _ _ hmemo hq).leave hv hk result

/-! ## §6. The whole mapping. -/

/-- Entries expanded one after the other are answered, and kept unless they lead to a cycle. -/
theorem expandEntries_answeredUnder {es results : List (Text × Value)}
    (he : ∀ e ∈ es, values.get? e.1 = some e.2) (hp : MemoUnder values [] p)
    (hrun : (expandEntries values lookup es).run p = some (results, q)) :
    AnsweredUnder values [] (es.map Prod.fst) p q ∧
      ∀ e ∈ results, ¬ LeadsToCycle values e.1 → Entries.get? e.1 q.done = some e.2 := by
  induction es generalizing p results with
  | nil =>
    cases hrun
    exact ⟨.refl hp, fun e he => absurd he List.not_mem_nil⟩
  | cons e es ih =>
    simp only [expandEntries, StateT.run_bind, Option.bind_eq_bind, Option.bind_eq_some_iff] at hrun
    obtain ⟨⟨result, p'⟩, hkey, ⟨results', q'⟩, hrest, hlast⟩ := hrun
    cases hlast
    have hroom : (values.keys.filter (· ∉ ([] : List Text))).length ≤ values.size := by
      simp [Table.keys, Table.size]
    obtain ⟨hfirst, hvalue⟩ := expandKey_answeredUnder values.size (he e (by simp))
      List.not_mem_nil hroom hp hkey
    obtain ⟨hothers, hvalues⟩ := ih (fun e' he' => he e' (by simp [he'])) hfirst.memo hrest
    refine ⟨hfirst.trans hothers, List.forall_mem_cons.2 ⟨fun hc => ?_, hvalues⟩⟩
    exact hothers.grows (hvalue fun hb => hc (leadsBack_nil_iff.1 hb))

/-- **AT THE END** a value is kept just for the keys that lead to no cycle, and it is the one in
the expansion. -/
theorem get?_done_iff {result : Mapping Value}
    (h : runMapping values lookup = some (result, p)) :
    Entries.get? k p.done = some v ↔ result.get? k = some v ∧ ¬ LeadsToCycle values k := by
  have hexpand : expandMapping values lookup = some result := by rw [expandMapping, h]; rfl
  simp only [runMapping, Option.bind_eq_bind, Option.bind_eq_some_iff] at h
  obtain ⟨⟨results, p'⟩, hrun, hresult⟩ := h
  cases hresult
  obtain ⟨hanswered, hvalues⟩ := expandEntries_answeredUnder
    (fun e he => (Table.get?_eq_some_iff values e.1 e.2).2 he) memoUnder_start hrun
  have value {w : Value} (hw : (Table.ofList results).get? k = some w)
      (hc : ¬ LeadsToCycle values k) : Entries.get? k p'.done = some w :=
    hvalues (k, w) (Table.mem_of_get?_ofList hw) hc
  refine ⟨fun hk => ?_, fun hw => value hw.1 hw.2⟩
  have hmem : k ∈ p'.kept := mem_kept_of_get? hk
  have hc : ¬ LeadsToCycle values k := fun hc =>
    hanswered.memo.clear k hmem (leadsBack_nil_iff.2 hc)
  -- the expansion has a value for the key, which is kept as well
  obtain ⟨x, hx⟩ := Option.isSome_iff_exists.1 (hanswered.memo.defined k hmem)
  obtain ⟨w, -, hw⟩ := (expandMapping_eq_some_iff.1 hexpand).2 k x hx
  refine ⟨?_, hc⟩
  rw [hw, ← value hw hc, hk]

end Cascade.Reference
