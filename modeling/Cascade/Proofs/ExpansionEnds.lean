/-
  Cascade.Proofs.ExpansionEnds
  ────────────────────────────────
  **EVERY EXPANSION ENDS.**

  The machine with a stack has no bound on its depth, and the definition of
  the expansion has one that is never used up: a stack of distinct keys is
  not longer than the mapping is large.  So both do the same.  A machine that
  is about to visit a key gets to where it receives the expansion of this key
  (`leads_expandKey`, by induction on the room above the stack and on the
  questions of a value), and a whole run gets to its end, or stops at a value
  without a text (`start_leads`).

      Leads               — steps to a given state, or to a stop before the end
      Value.FewDigits     — no integer in a value is too long
      expandMapping_ends  — the stack throughout, and the end
-/
import Cascade.Proofs.ExpansionSteps
import Cascade.Proofs.MappingExpansion
import Cascade.Proofs.Writable
import Cascade.Proofs.WrittenJson

namespace Cascade

namespace Reference

namespace Machine

variable {values : Mapping Value} {lookup : Text → Option Value} {m : Machine}

/-! ## §1. Steps to a result. -/

/-- Steps lead to a given state, or where there is none to a state that goes no further although
entries are left. -/
def Leads (values : Mapping Value) (lookup : Text → Option Value) (m : Machine) :
    Option Machine → Prop
  | some m' => Reaches values lookup m m'
  | none => ∃ m', Reaches values lookup m m' ∧ m'.step values lookup = none ∧ ¬ m'.Finished

/-- One step of a machine with entries left. -/
theorem leads_step (h : ¬ m.Finished) : Leads values lookup m (m.step values lookup) := by
  cases hs : m.step values lookup with
  | none => exact ⟨m, .refl, hs, h⟩
  | some m' => exact .single hs

/-- Steps that go on from where others lead. -/
theorem Leads.bind {α : Type} {x : Option α} {g : α → Machine} {k : α → Option Machine}
    (hx : Leads values lookup m (x.map g))
    (hk : ∀ a, x = some a → Leads values lookup (g a) (k a)) :
    Leads values lookup m (x.bind k) := by
  cases x with
  | none => exact hx
  | some a =>
    have h := hk a rfl
    rw [Option.bind_some]
    cases hka : k a with
    | none =>
      rw [hka] at h
      obtain ⟨stop, hr, hstop⟩ := h
      exact ⟨stop, Relation.ReflTransGen.trans hx hr, hstop⟩
    | some m' =>
      rw [hka] at h
      exact Relation.ReflTransGen.trans hx h

/-! ## §2. The machine computes the expansion. -/

/-- What replaces a reference leaves the state of the run as it is. -/
theorem run_render (v : Value) (p : Progress) :
    (render v).run p = (replacement? v).map fun text => (text, p) := by
  cases v with
  | null => rfl
  | _ =>
    simp only [render, replacement?]
    cases Value.inserted? _ <;> rfl

/-- With this much room above the stack, a machine that is about to visit a key gets to where it
receives the expansion of the key. -/
def Computes (values : Mapping Value) (lookup : Text → Option Value) (room : Nat) : Prop :=
  ∀ {m : Machine} {key : Text} {value : Value},
    m.step values lookup = m.visit key value → ¬ m.Finished → Chain values (key :: m.stack) →
    values.get? key = some value → values.size ≤ room + m.stack.length →
    Leads values lookup m
      (((expandKey values lookup room m.stack key value).run m.progress).bind
        fun out => { m with progress := out.2 }.receive out.1)

/-- A frame whose value asks for a name gets to where it is told what the definition answers. -/
theorem leads_answer {room : Nat} (visits : Computes values lookup room) {f : Frame}
    {frames : List Frame} {name : Text} {next : Option Text → Asking Value} {chain : List Text}
    (hf : m.frames = f :: frames) (hask : f.rest = .ask name next)
    (hs : m.stack = f.key :: chain) (hc : Chain values (f.key :: chain))
    (hn : Refers values f.key name) (hr : values.size ≤ room + m.stack.length) :
    Leads values lookup m
      (((answerInside values lookup (expandKey values lookup room m.stack) m.stack name).run
        m.progress).map
          fun out => { m with frames := f.answered out.1 :: frames, progress := out.2 }) := by
  have hopen : ¬ m.Finished := fun h => by rw [h.1] at hf; cases hf
  have hstep : Leads values lookup m _ := leads_step hopen
  rw [answerInside]
  by_cases hmet : m.stack.contains name = true
  · -- the name is on the stack, and the mark is set
    simp only [step, hf, hask, if_pos hmet] at hstep
    rw [if_pos hmet]
    exact hstep
  · rw [if_neg hmet]
    cases hv : values.get? name with
    | none =>
      -- the name is noted, and its value is received at once
      simp only [step, hf, hask, if_neg hmet, hv, receive] at hstep
      have hrun : (askOutside lookup name).run m.progress =
          (replacement? ((lookup name).getD .null)).map fun text =>
            (text, { m.progress with asked := name :: m.progress.asked }) :=
        run_render _ _
      simp only [hrun, Option.map_map]
      exact hstep
    | some value =>
      -- the key is visited, and its expansion is received
      have hvisit : m.step values lookup = m.visit name value := by
        simp only [step, hf, hask, if_neg hmet, hv]
      have hchain : Chain values (name :: m.stack) := by
        rw [hs] at hmet ⊢
        refine hc.push (by simpa using hmet) hn ?_
        rw [Table.contains, hv]
        rfl
      have hkey := visits hvisit hopen hchain hv hr
      simp only [receive, hf] at hkey
      simp only [StateT.run_bind, run_render, Option.bind_eq_bind, Option.map_bind,
        Function.comp_def, Option.map_map]
      exact hkey

/-- A key that was entered is left with the expansion of its value. -/
theorem leads_frame {room : Nat} (visits : Computes values lookup room) {key : Text}
    (hc : Chain values (key :: m.stack)) (hr : values.size ≤ room + (m.stack.length + 1))
    (outer : Bool) {rest : Asking Value} (hw : rest.Within (Refers values key)) (p : Progress) :
    Leads values lookup
      { m with frames := ⟨key, outer, rest⟩ :: m.frames, stack := key :: m.stack, progress := p }
      (((rest.run (answerInside values lookup (expandKey values lookup room (key :: m.stack))
        (key :: m.stack))).run p).bind
          fun out => { m with progress := out.2.left key out.1 outer }.receive out.1) := by
  -- on the questions of the value; each of them is answered as the definition does it
  induction hw generalizing p with
  | done result => exact leads_step fun h => by cases h.1
  | @ask name next hn hnext ih =>
    have hanswer := leads_answer visits (f := ⟨key, outer, .ask name next⟩) (m :=
      { m with
        frames := ⟨key, outer, .ask name next⟩ :: m.frames
        stack := key :: m.stack
        progress := p }) rfl rfl rfl hc hn hr
    rw [Asking.run, StateT.run_bind, Option.bind_eq_bind, Option.bind_assoc]
    exact hanswer.bind fun out _ => ih out.1 out.2

/-- A machine that is about to visit a key gets to where it receives its expansion. -/
theorem leads_expandKey (values : Mapping Value) (lookup : Text → Option Value) (room : Nat) :
    Computes values lookup room := by
  induction room with
  | zero =>
    -- a chain cannot be longer than the mapping is large
    intro m key value _ _ hc _ hr
    have hl := hc.length_le
    simp only [List.length_cons] at hl
    omega
  | succ room ih =>
    intro m key value hvisit hopen hc hv hr
    have hstep : Leads values lookup m _ := leads_step hopen
    rw [hvisit, visit] at hstep
    rw [run_expandKey]
    cases hk : Entries.get? key m.progress.done with
    | some kept =>
      rw [hk] at hstep
      exact hstep
    | none =>
      -- the key is entered with the mark taken away, and left once its value is expanded
      rw [hk] at hstep
      have hasks := requests_expandValue
        (answerInside values lookup (expandKey values lookup room (key :: m.stack))
          (key :: m.stack)) value
      have hw : (expandValue Asking.request value).Within (Refers values key) :=
        hasks.within.imp fun n hn => ⟨value, hv, mem_answeredNames_iff.1 hn⟩
      have hframe := leads_frame ih hc (by omega) m.progress.metChain hw
        { m.progress with metChain := false }
      rw [hasks.run] at hframe
      have hentered := Leads.bind (x := some ()) (g := fun _ => m.enter key value) hstep
        fun _ _ => hframe
      simp only [Option.bind_map]
      exact hentered

/-! ## §3. The whole run. -/

/-- A machine between two entries. -/
def between (p : Progress) (finished waiting : List (Text × Value)) : Machine :=
  ⟨[], [], p, finished, waiting⟩

/-- A machine between two entries gets through all that are left. -/
theorem leads_expandEntries {es : List (Text × Value)}
    (he : ∀ e ∈ es, values.get? e.1 = some e.2) (p : Progress)
    (finished : List (Text × Value)) :
    Leads values lookup (between p finished es)
      (((expandEntries values lookup es).run p).map fun out =>
        between out.2 (finished ++ out.1) []) := by
  induction es generalizing p finished with
  | nil =>
    show Reaches values lookup (between p finished []) (between p (finished ++ []) [])
    rw [List.append_nil]
    exact .refl
  | cons e es ih =>
    have hv := he e (by simp)
    have hc : Chain values [e.1] := Chain.single (by rw [Table.contains, hv]; rfl)
    -- the first entry is finished, and the machine is between two entries again
    have hkey : Leads values lookup (between p finished (e :: es))
        (((expandKey values lookup values.size [] e.1 e.2).run p).map fun out =>
          between out.2 (finished ++ [(e.1, out.1)]) es) := by
      rw [Option.map_eq_bind]
      exact leads_expandKey values lookup values.size rfl (fun h => by cases h.2) hc hv
        (Nat.le_add_right _ _)
    have hrest : Leads values lookup (between p finished (e :: es))
        (((expandKey values lookup values.size [] e.1 e.2).run p).bind fun out =>
          ((expandEntries values lookup es).run out.2).map fun outs =>
            between outs.2 (finished ++ (e.1, out.1) :: outs.1) []) :=
      hkey.bind fun out _ => by
        simpa only [List.append_assoc, List.singleton_append] using
          ih (fun e' he' => he e' (by simp [he'])) out.2 (finished ++ [(e.1, out.1)])
    simp only [expandEntries, StateT.run_bind, StateT.run_pure, Option.bind_eq_bind,
      Option.map_bind, Function.comp_def, Option.pure_def, Option.map_some]
    simpa only [Option.map_eq_bind, Function.comp_def] using hrest

/-- The machine stops: at the end, with the expansion, or before it, where there is none. -/
theorem start_leads (values : Mapping Value) (lookup : Text → Option Value) :
    ∃ stop, Reaches values lookup (start values) stop ∧ stop.step values lookup = none ∧
      (stop.Finished →
        runMapping values lookup = some (Table.ofList stop.finished, stop.progress)) ∧
      (¬ stop.Finished → runMapping values lookup = none) := by
  have hlead : Leads values lookup (start values) _ :=
    leads_expandEntries (fun e he => (Table.get?_eq_some_iff values e.1 e.2).2 he)
      Progress.start []
  cases hrun : (expandEntries values lookup values.entries).run Progress.start with
  | none =>
    rw [hrun] at hlead
    obtain ⟨stop, hr, hstop, hopen⟩ := hlead
    exact ⟨stop, hr, hstop, fun h => absurd h hopen, fun _ => by simp [runMapping, hrun]⟩
  | some out =>
    rw [hrun] at hlead
    exact ⟨_, hlead, rfl, fun _ => by simp [runMapping, hrun, between],
      fun h => absurd ⟨rfl, rfl⟩ h⟩

/-- There is one way on, so every state on it leads to where it stops. -/
theorem Reaches.to_stop {start stop : Machine} (hm : Reaches values lookup start m)
    (hr : Reaches values lookup start stop) (hstop : stop.step values lookup = none) :
    Reaches values lookup m stop := by
  have unique : Relator.RightUnique fun m m' => step values lookup m = some m' :=
    fun a b c hb hc => Option.some.inj (hb.symm.trans hc)
  rcases Relation.ReflTransGen.total_of_right_unique unique hm hr with h | h
  · exact h
  · -- nothing comes after the stop
    rcases Relation.ReflTransGen.cases_head h with rfl | ⟨next, hnext, -⟩
    · exact .refl
    · rw [hstop] at hnext
      cases hnext

end Machine

end Reference

/-! ## §4. Values whose integers are not too long. -/

/-- A value in which every integer has at most as many digits as may be written. -/
inductive Value.FewDigits : Value → Prop
  | null : FewDigits .null
  | bool (b : Bool) : FewDigits (.bool b)
  | int {n : Int} (short : n.natAbs < 10 ^ digitLimit) : FewDigits (.int n)
  | float (x : Binary64) : FewDigits (.float x)
  | str (t : Text) : FewDigits (.str t)
  | bytes (content : Text.Bytes) : FewDigits (.bytes content)
  | list {items : List Value} (few : ∀ item ∈ items, FewDigits item) : FewDigits (.list items)
  | object {members : List (Text × Value)} (few : ∀ e ∈ members, FewDigits e.2) :
    FewDigits (.object members)

/-- Such a value has a text. -/
theorem Value.FewDigits.writable {v : Value} (h : v.FewDigits) : v.Writable := by
  induction h with
  | int short => exact Value.writable_int short
  | list _ ih => exact Value.writable_list_iff.2 ih
  | object _ ih => exact Value.writable_object_iff.2 ih
  | _ => rfl

/-- Such a value can be put in place of a reference. -/
theorem Value.FewDigits.inserted {v : Value} (h : v.FewDigits) : v.inserted? ≠ none := by
  obtain ⟨text, ht⟩ := h.writable.inserted
  rw [ht]
  exact Option.some_ne_none text

/-! ## §5. The end. -/

namespace Reference

open Machine

/-- **EVERY EXPANSION ENDS.**  Throughout a run the stack holds distinct keys of the mapping, each
referenced in the value of the one below it, so it is never higher than the mapping is large; an
entry is finished with the stack empty again.  From wherever the run has got to it comes to a
stop, and it stops before the end only at a value without a text, where there is no expansion.
With integers that are not too long, in the mapping and in the answers, it stops at the end, with
the expansion. -/
theorem expandMapping_ends (values : Mapping Value) (lookup : Text → Option Value) :
    (∀ m, Reaches values lookup (start values) m →
      m.stack.Nodup ∧ (∀ k ∈ m.stack, k ∈ values.keys) ∧
      m.stack.IsChain (fun k below => Refers values below k) ∧
      m.stack.length ≤ values.size ∧ m.frames.map Frame.key = m.stack ∧
      ∀ m', m.step values lookup = some m' →
        m'.finished = m.finished ∨ m'.stack = [] ∧ ∃ e, m'.finished = m.finished ++ [e]) ∧
    (∃ stop, (∀ m, Reaches values lookup (start values) m → Reaches values lookup m stop) ∧
      stop.step values lookup = none ∧
      (stop.Finished →
        runMapping values lookup = some (Table.ofList stop.finished, stop.progress)) ∧
      (¬ stop.Finished → runMapping values lookup = none)) ∧
    ((∀ k v, values.get? k = some v → v.FewDigits) →
      (∀ n ∈ names values.values, n ∉ values.keys → ∀ v, lookup n = some v → v.FewDigits) →
      ∃ stop, Reaches values lookup (start values) stop ∧ stop.Finished ∧ stop.stack = [] ∧
        expandMapping values lookup = some (Table.ofList stop.finished)) := by
  obtain ⟨stop, hr, hstop, hend, hopen⟩ := start_leads values lookup
  refine ⟨fun m hm => ?_, ⟨stop, fun m hm => hm.to_stop hr hstop, hstop, hend, hopen⟩,
    fun hvalues hanswers => ?_⟩
  · have hsane := hm.sane (sane_start values)
    exact ⟨hsane.chain.distinct,
      fun k hk => (Table.contains_iff values k).1 (hsane.chain.defined k hk),
      hsane.chain.linked, hsane.chain.length_le, hsane.stacked.symm,
      fun m' hstep => (hsane.step hstep).finished⟩
  · -- every value that could be put into a text has one
    have hfinished : stop.Finished := by
      by_contra hno
      obtain ⟨k, v, hv, hi⟩ | ⟨n, hn, hk, hi⟩ :=
        unwritable_of_runMapping_eq_none (hopen hno)
      · exact (hvalues k v hv).inserted hi
      · cases hl : lookup n with
        | none => rw [hl] at hi; exact Value.FewDigits.null.inserted hi
        | some v => rw [hl] at hi; exact (hanswers n hn hk v hl).inserted hi
    refine ⟨stop, hr, hfinished, ?_, by rw [expandMapping, hend hfinished]; rfl⟩
    rw [(hr.sane (sane_start values)).stacked, hfinished.1]
    rfl

/-- Two keys that refer to each other. -/
def twoCycle : Mapping Value := Table.ofList [("A", .str "$B$X"), ("B", .str "$A")]

/-- What the run over them ends with. -/
def twoCycleExpanded : Mapping Value := Table.ofList [("A", .str "$A7"), ("B", .str "$B7")]

/-- One name has a value outside. -/
def seven (name : Text) : Option Value := if name = "X" then some (.int 7) else none

/-- The run over a cycle ends; each reference back stays as written. -/
theorem expandMapping_ends_twoCycle :
    (∀ k v, twoCycle.get? k = some v → v.FewDigits) ∧
      (∀ n ∈ names twoCycle.values, n ∉ twoCycle.keys → ∀ v, seven n = some v → v.FewDigits) ∧
      ∃ stop, Reaches twoCycle seven (start twoCycle) stop ∧ stop.Finished ∧ stop.stack = [] ∧
        Table.ofList stop.finished = twoCycleExpanded := by
  have texts : ∀ e ∈ twoCycle.entries, e.2 = .str "$B$X" ∨ e.2 = .str "$A" := by decide
  have hvalues : ∀ k v, twoCycle.get? k = some v → v.FewDigits := fun k v hv => by
    rcases texts (k, v) ((Table.get?_eq_some_iff twoCycle k v).1 hv) with rfl | rfl
    · exact .str "$B$X"
    · exact .str "$A"
  have hanswers : ∀ n ∈ names twoCycle.values, n ∉ twoCycle.keys →
      ∀ v, seven n = some v → v.FewDigits := fun n _ _ v hv => by
    unfold seven at hv
    split at hv <;> cases hv
    exact .int (by decide +kernel)
  obtain ⟨stop, hr, hfinished, hs, hend⟩ :=
    (expandMapping_ends twoCycle seven).2.2 hvalues hanswers
  have hresult : expandMapping twoCycle seven = some twoCycleExpanded := by decide +kernel
  exact ⟨hvalues, hanswers, stop, hr, hfinished, hs, Option.some.inj (hend.symm.trans hresult)⟩

end Reference

end Cascade
