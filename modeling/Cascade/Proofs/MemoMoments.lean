/-
  Cascade.Proofs.MemoMoments
  ────────────────────────────────
  **THE MEMO AT EVERY MOMENT.**

  The machine with a stack shows what is kept while keys are still being
  expanded.  Every state that is reached `Remembers`:

      · what is kept fits the stack                            (`MemoUnder`)
      · the mark of every frame explains what was found so far:
        its key leads back just when the mark is set or one of the names
        still to be asked leads back                           (`Frame.Explained`)

  The mark of the top frame is the one of the run, and that of any other
  frame was set aside by the frame above it, which is about the very name
  the lower one waits for.  So one step has to look at the two topmost
  frames only, and whatever answer the lower one gets is one of the four of
  `AnsweredUnder`.

      Remembers.step   — one step
      memo_exact       — every moment, the end, and any stack at all
-/
import Cascade.Proofs.LeadingBack

namespace Cascade.Reference

/-! ## §1. The questions that are left. -/

namespace Asking

variable {α β : Type} {names names' : List Text}

/-- Whatever the answers are, the questions are about these names, one after the other. -/
inductive Asks : Asking α → List Text → Prop
  | done (a : α) : Asks (.done a) []
  | ask {name : Text} {next : Option Text → Asking α} {names : List Text} :
      (∀ text, Asks (next text) names) → Asks (.ask name next) (name :: names)

/-- One computation after another asks what both ask. -/
theorem Asks.bind {x : Asking α} {f : α → Asking β} (hx : x.Asks names)
    (hf : ∀ a, (f a).Asks names') : (x >>= f).Asks (names ++ names') := by
  induction hx with
  | done a => exact hf a
  | ask _ ih => exact .ask ih

/-- A value asks for its names. -/
theorem asks_expandValue (v : Value) : (expandValue request v).Asks (answeredNames v) :=
  holds_expandValue (P := fun _ names (x : Asking _) => x.Asks names) .done
    (fun hx hf => hx.bind hf) fun _ _ => .ask .done

end Asking

variable {values : Mapping Value} {lookup : Text → Option Value} {below : List Text}
  {p p' : Progress} {f : Frame} {frames : List Frame} {mark : Bool} {n : Text}

/-! ## §2. What the marks tell. -/

/-- What a frame above a stack has found so far, where these names are left to be asked: its key
leads back just when the mark is set or one of them does, and all other names that do not lead
back are kept. -/
structure Frame.Explained (values : Mapping Value) (p : Progress) (below : List Text)
    (mark : Bool) (f : Frame) (left : List Text) : Prop where
  asks : f.rest.Asks left
  met : LeadsBack values below f.key ↔
    mark = true ∨ ∃ n ∈ left, LeadsBack values (f.key :: below) n
  kept : ∀ n, Refers values f.key n → values.contains n = true → n ∉ left →
    ¬ LeadsBack values (f.key :: below) n → n ∈ p.kept

/-- The frame on top, if there is one, waits for the answer to a name. -/
def Awaiting (frames : List Frame) (n : Text) : Prop :=
  ∀ f ∈ frames.head?, ∃ next, f.rest = .ask n next

/-- Every frame is explained by its mark, each one waiting for the key of the frame above it, which
has set its mark aside. -/
def FramesExplained (values : Mapping Value) (p : Progress) : Bool → List Frame → Prop
  | _, [] => True
  | mark, f :: frames =>
    (∃ left, f.Explained values p (frames.map Frame.key) mark left) ∧
      Awaiting frames f.key ∧ FramesExplained values p f.outer frames

/-- More may be kept. -/
theorem FramesExplained.mono (h : FramesExplained values p mark frames)
    (hk : p.kept ⊆ p'.kept) : FramesExplained values p' mark frames := by
  induction frames generalizing mark with
  | nil => trivial
  | cons f frames ih =>
    obtain ⟨⟨left, hf⟩, hwait, hframes⟩ := h
    exact ⟨⟨left, hf.asks, hf.met, fun n hr hd hl hb => hk (hf.kept n hr hd hl hb)⟩, hwait,
      ih hframes⟩

/-- The top frame is explained further by an answer to its question. -/
theorem FramesExplained.answered (h : FramesExplained values p p.metChain (f :: frames))
    (hwait : Awaiting (f :: frames) n)
    (ha : AnsweredUnder values (f.key :: frames.map Frame.key) [n] p p') (text : Option Text) :
    FramesExplained values p' p'.metChain (f.answered text :: frames) := by
  obtain ⟨⟨left, hf⟩, hbelow, hframes⟩ := h
  obtain ⟨next, hask⟩ := hwait f rfl
  have hasks := hf.asks
  rw [hask] at hasks
  cases hasks with
  | @ask _ _ names hnext =>
    -- the name is taken from those that are left, and the mark tells about it instead
    refine ⟨⟨names, ?_, ?_, fun m hr hd hl hb => ?_⟩, hbelow, hframes.mono ha.subset⟩
    · rw [Frame.answered, hask]
      exact hnext text
    · show LeadsBack values _ f.key ↔ _ ∨ ∃ n ∈ names, LeadsBack values (f.key :: _) n
      rw [hf.met, ha.met]
      simp only [List.mem_cons, List.not_mem_nil, or_false, exists_eq_left, exists_eq_or_imp,
        or_assoc]
    · by_cases hm : m = n
      · subst hm
        exact ha.kept m List.mem_cons_self hd hb
      · exact ha.subset (hf.kept m hr hd (by simp [hm, hl]) hb)

/-- When the top frame is done, no name is left to be asked. -/
theorem FramesExplained.of_done {result : Value}
    (h : FramesExplained values p mark (f :: frames)) (hdone : f.rest = .done result) :
    f.Explained values p (frames.map Frame.key) mark [] := by
  obtain ⟨⟨left, hf⟩, -, -⟩ := h
  have hasks := hf.asks
  rw [hdone] at hasks
  cases hasks
  exact hf

/-- Without a name left to be asked, the mark tells whether the key leads back. -/
theorem Frame.Explained.met_iff (h : f.Explained values p below mark []) :
    mark = true ↔ LeadsBack values below f.key := by
  rw [h.met]
  simp

/-! ## §3. One step. -/

namespace Machine

variable {m m' : Machine} {key : Text} {value : Value}

/-- What holds of every state besides being sane: what is kept fits the stack, and the marks
explain what was found. -/
structure Remembers (values : Mapping Value) (m : Machine) : Prop where
  sane : m.Sane values
  memo : MemoUnder values m.stack m.progress
  explained : FramesExplained values m.progress m.progress.metChain m.frames

/-- Nothing was found at the start. -/
theorem remembers_start (values : Mapping Value) : (start values).Remembers values :=
  ⟨sane_start values, memoUnder_start, trivial⟩

/-- The stack has the key of the top frame on top. -/
theorem Sane.stack_eq (h : m.Sane values) (hf : m.frames = f :: frames) :
    m.stack = f.key :: frames.map Frame.key := by rw [h.stacked, hf]; rfl

/-- The answer to a name is received, where `p` is the state before the name was asked. -/
theorem remembers_of_receive (hm : m.receive value = some m') (hsane : m'.Sane values)
    (hstack : m.stack = m.frames.map Frame.key)
    (hexplained : FramesExplained values p p.metChain m.frames) (hwait : Awaiting m.frames n)
    (ha : AnsweredUnder values m.stack [n] p m.progress) : m'.Remembers values := by
  unfold receive at hm
  split at hm
  · rename_i f frames hf
    obtain ⟨text, -, rfl⟩ := Option.map_eq_some_iff.1 hm
    rw [hf] at hexplained hwait hstack
    exact ⟨hsane, ha.memo, hexplained.answered hwait (hstack ▸ ha) text⟩
  · rename_i hf
    split at hm
    · cases hm
      exact ⟨hsane, ha.memo, by rw [hf]; trivial⟩
    · cases hm

/-- A key off the stack is visited, where the top frame waits for it. -/
theorem Remembers.visit (h : m.Remembers values) (hv : values.get? key = some value)
    (hk : key ∉ m.stack) (hwait : Awaiting m.frames key) (hsane : m'.Sane values)
    (hm : m.visit key value = some m') : m'.Remembers values := by
  have hd : values.contains key = true := contains_of_get? hv
  unfold Machine.visit at hm
  split at hm
  · rename_i kept hkept
    exact remembers_of_receive hm hsane h.sane.stacked h.explained hwait
      (answeredUnder_kept h.memo (mem_kept_of_get? hkept))
  · rename_i hkept
    cases hm
    refine ⟨hsane, (h.memo.push hd (Entries.get?_eq_none_iff.1 hkept)).congr rfl, ?_, hwait,
      h.explained.mono (List.Subset.refl _)⟩
    -- all names of the value are left to be asked
    refine ⟨answeredNames value, Asking.asks_expandValue value, ?_, fun n hr _ hl _ => ?_⟩
    · rw [← h.sane.stacked]
      simp only [enter, leadsBack_iff_of_get? hv hk, mem_answeredNames_iff, Bool.false_eq_true,
        false_or]
    · exact absurd (mem_answeredNames_iff.2 ((refers_iff_of_get? hv).1 hr)) hl

/-- The top key is left, and its value is received by the frame below. -/
theorem Remembers.leave {result : Value} (h : m.Remembers values)
    (hf : m.frames = f :: frames) (hdone : f.rest = .done result) (hsane : m'.Sane values)
    (hm : ({ m with
      frames := frames
      stack := m.stack.tail
      progress := m.progress.left f.key result f.outer } : Machine).receive result = some m') :
    m'.Remembers values := by
  have hstack := h.sane.stack_eq hf
  have hd : values.contains f.key = true := h.sane.chain.defined _ (by simp [hstack])
  have hn : f.key ∉ frames.map Frame.key := by
    have hdistinct := h.sane.chain.distinct
    rw [hstack] at hdistinct
    exact (List.nodup_cons.1 hdistinct).1
  have hexplained := h.explained
  rw [hf] at hexplained
  have hmemo := h.memo
  rw [hstack] at hmemo
  have hfound := hexplained.of_done hdone
  have hleft := answeredUnder_left hmemo hd hfound.met_iff
    (fun hb n hr hdn => hfound.kept n hr hdn List.not_mem_nil fun hnb =>
      hb ((leadsBack_iff hn).2 ⟨n, hr, hnb⟩)) result f.outer
  obtain ⟨-, hwait, hframes⟩ := hexplained
  -- with the mark that was set aside, the frame below is as it was when it asked
  have hbelow : FramesExplained values { m.progress with metChain := f.outer } f.outer frames :=
    hframes.mono (List.Subset.refl _)
  exact remembers_of_receive hm hsane (by rw [hstack]; rfl) hbelow hwait
    (by rw [hstack]; exact hleft)

/-- Every step keeps what is remembered. -/
theorem Remembers.step (h : m.Remembers values) (hm : m.step values lookup = some m') :
    m'.Remembers values := by
  have hsane := (h.sane.step hm).sane
  unfold Machine.step at hm
  split at hm
  · rename_i hf
    have hs : m.stack = [] := by rw [h.sane.stacked, hf]; rfl
    split at hm
    · -- the next entry of the mapping
      rename_i key value waiting hw
      exact h.visit (h.sane.waiting (key, value) (by simp [hw]))
        (by rw [hs]; exact List.not_mem_nil) (by rw [hf]; exact fun f hf => by cases hf) hsane hm
    · cases hm
  · rename_i f frames hf
    split at hm
    · rename_i result hdone
      exact h.leave hf hdone hsane hm
    · rename_i name next hask
      have hwait : Awaiting m.frames name := by
        rw [hf]
        rintro _ ⟨⟩
        exact ⟨next, hask⟩
      split at hm
      · rename_i hmet
        cases hm
        have ha := answeredUnder_met h.memo (by simpa using hmet)
        have hexplained := h.explained
        rw [hf] at hexplained hwait
        exact ⟨hsane, ha.memo, hexplained.answered hwait (h.sane.stack_eq hf ▸ ha) none⟩
      · rename_i hmet
        have hn : name ∉ m.stack := by simpa using hmet
        split at hm
        · rename_i value hv
          exact h.visit hv hn hwait hsane hm
        · rename_i hv
          exact remembers_of_receive hm hsane h.sane.stacked h.explained hwait
            (answeredUnder_outside h.memo hn hv)

/-- Every state that is reached remembers. -/
theorem Reaches.remembers (h : m.Remembers values) (hr : Reaches values lookup m m') :
    m'.Remembers values := by
  induction hr with
  | refl => exact h
  | tail _ hstep ih => exact ih.step hstep

end Machine

/-! ## §4. Every moment, the end, and any stack. -/

open Machine

/-- **THE MEMO IS EXACT.**  At every moment of a run each kept key is a key that leads to no cycle,
and what is kept fits the stack; where the expansion of a key has just come to its end, the mark is
set exactly if the key leads back under the stack below it.  At the end a value is kept exactly for
the keys that lead to no cycle, and it is the one in the expansion; and the run does end when all
that is put in has a text.  Above any stack at all, with what is kept fitting it, the expansion of a
key that is not on it leaves the mark set exactly if the key leads back or the mark was set before,
and the key is kept, with its result, exactly if it does not lead back. -/
theorem memo_exact (values : Mapping Value) (lookup : Text → Option Value) :
    (∀ m, Reaches values lookup (start values) m →
      (∀ k ∈ m.progress.kept, k ∈ values.keys ∧ ¬ LeadsToCycle values k) ∧
      MemoUnder values m.stack m.progress ∧
      ∀ f frames result, m.frames = f :: frames → f.rest = .done result →
        (m.progress.metChain = true ↔ LeadsBack values (frames.map Frame.key) f.key)) ∧
    (∀ result p, runMapping values lookup = some (result, p) → ∀ k v,
      Entries.get? k p.done = some v ↔ result.get? k = some v ∧ ¬ LeadsToCycle values k) ∧
    ((∀ k v, values.get? k = some v → v.inserted? ≠ none) →
      (∀ n ∈ names values.values, n ∉ values.keys →
        ((lookup n).getD .null).inserted? ≠ none) →
      ∃ result p, runMapping values lookup = some (result, p)) ∧
    ∀ room stack k v p, values.get? k = some v → k ∉ stack →
      (values.keys.filter (· ∉ stack)).length ≤ room → MemoUnder values stack p →
      ∀ result q, (expandKey values lookup room stack k v).run p = some (result, q) →
        (q.metChain = true ↔ LeadsBack values stack k ∨ p.metChain = true) ∧
        MemoUnder values stack q ∧
        (Entries.get? k q.done = some result ↔ ¬ LeadsBack values stack k) := by
  refine ⟨fun m hm => ?_, fun result p h k v => get?_done_iff h, fun hvalues hlookup => ?_,
    fun room stack k v p hv hk hroom hp result q hrun => ?_⟩
  · have h := hm.remembers (remembers_start values)
    refine ⟨fun k hk => ⟨(Table.contains_iff values k).1 (h.memo.defined k hk), fun hc =>
      h.memo.clear k hk (.inl hc)⟩, h.memo, fun f frames result hf hdone => ?_⟩
    have hexplained := h.explained
    rw [hf] at hexplained
    exact (hexplained.of_done hdone).met_iff
  · cases hrun : runMapping values lookup with
    | some out => exact ⟨out.1, out.2, rfl⟩
    | none =>
      rcases unwritable_of_runMapping_eq_none hrun with ⟨k, v, hv, hi⟩ | ⟨n, hn, hk, hi⟩
      · exact absurd hi (hvalues k v hv)
      · exact absurd hi (hlookup n hn hk)
  · obtain ⟨h, hvalue⟩ := expandKey_answeredUnder room hv hk hroom hp hrun
    refine ⟨?_, h.memo, fun hkept => h.memo.clear k (mem_kept_of_get? hkept), hvalue⟩
    rw [h.met]
    simp [or_comm]

/-- Two keys on a cycle, one of which refers to a third one beside it, as does a fourth one. -/
def besideCycle : Mapping Value := Table.ofList
  [("A", .str "$C$B"), ("B", .str "$A"), ("C", .str "$Z"), ("D", .str "${C}-")]

/-- What is kept at the end of the run over this mapping. -/
def besideCycleKept : List (Text × Value) := [("D", .str "1-"), ("C", .str "1")]

/-- The run over this mapping keeps the two keys beside the cycle, also the one that is expanded
from inside of it.  Above a stack that holds what a key refers to, this key is not kept. -/
theorem memo_exact_besideCycle :
    (∃ result p stop, runMapping besideCycle oneOutside = some (result, p) ∧
      Reaches besideCycle oneOutside (start besideCycle) stop ∧
      stop.progress.done = besideCycleKept ∧ p.done = besideCycleKept ∧
      (∀ k ∈ stop.progress.kept, ¬ LeadsToCycle besideCycle k) ∧
      result.get? "A" = some (.str "1$A") ∧ LeadsToCycle besideCycle "A") ∧
    ∃ q, (expandKey besideCycle oneOutside 3 ["C"] "D" (.str "${C}-")).run Progress.start =
        some (.str "${C}-", q) ∧
      q.metChain = true ∧ q.done = [] ∧ LeadsBack besideCycle ["C"] "D" ∧
      ¬ LeadsToCycle besideCycle "D" := by
  obtain ⟨moments, atEnd, existence, anyStack⟩ := memo_exact besideCycle oneOutside
  have texts : ∀ e ∈ besideCycle.entries, e.2.inserted? ≠ none := by decide
  obtain ⟨result, p, hrun⟩ := existence
    (fun k v hv => texts (k, v) ((Table.get?_eq_some_iff besideCycle k v).1 hv)) (by decide +kernel)
  have hA : (runMapping besideCycle oneOutside).map (fun out => out.1.get? "A") =
      some (some (.str "1$A")) := by decide +kernel
  have hdone : (runMapping besideCycle oneOutside).map (fun out => out.2.done) =
      some besideCycleKept := by decide +kernel
  rw [hrun, Option.map_some, Option.some.injEq] at hA hdone
  -- what the run keeps and what it does not
  have hcycle : LeadsToCycle besideCycle "A" := by
    by_contra hc
    have hkept := (atEnd result p hrun "A" _).2 ⟨hA, hc⟩
    rw [hdone] at hkept
    cases hkept
  have hclear : ¬ LeadsToCycle besideCycle "D" :=
    ((atEnd result p hrun "D" (.str "1-")).1 (by rw [hdone]; decide)).2
  obtain ⟨stop, hr, -, hend, hopen⟩ := start_leads besideCycle oneOutside
  have hfinished : stop.Finished := by
    by_contra hno
    rw [hopen hno] at hrun
    cases hrun
  have hstop : stop.progress.done = besideCycleKept := by
    rw [hend hfinished] at hrun
    cases hrun
    exact hdone
  -- above a stack that is no chain
  have habove : ((expandKey besideCycle oneOutside 3 ["C"] "D" (.str "${C}-")).run
      Progress.start) = some (.str "${C}-", ⟨[], [], true⟩) := by rfl
  obtain ⟨hmark, -, -⟩ := anyStack 3 ["C"] "D" (.str "${C}-") Progress.start (by decide) (by decide)
    (by decide) memoUnder_start _ _ habove
  exact ⟨⟨result, p, stop, hrun, hr, hstop, hdone, fun k hk => ((moments stop hr).1 k hk).2, hA,
    hcycle⟩, _, habove, rfl, rfl, (hmark.1 rfl).resolve_right (fun h => by cases h), hclear⟩

end Cascade.Reference
