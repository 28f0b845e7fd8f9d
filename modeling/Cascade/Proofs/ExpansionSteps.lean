/-
  Cascade.Proofs.ExpansionSteps
  ────────────────────────────────
  **THE EXPANSION OF A MAPPING, STEP BY STEP.**

  The same expansion without a bound on its depth: a machine with a stack.
  A key that is entered is pushed, a key that is left is popped, and what is
  left of its value waits in a frame meanwhile.  Nothing but the stack is
  looked at to find that a reference leads back.

  Every step keeps ONE invariant, `Sane`: the stack lists the keys of the
  frames, these are a chain of the mapping, and no frame will ask for a name
  its key does not refer to.  So all states that are reached have it
  (`Reaches.sane`).

      step        — what happens next; nothing when the machine has stopped
      Reaches     — any number of steps
-/
import Cascade.Proofs.Asking
import Cascade.Proofs.MappingRun

namespace Cascade.Reference

/-! ## §1. The machine. -/

/-- A key whose value is being expanded: the mark that was set aside when it was entered, and
what is left of the expansion. -/
structure Frame where
  key : Text
  outer : Bool
  rest : Asking Value

/-- A frame once its question is answered. -/
def Frame.answered (f : Frame) (text : Option Text) : Frame :=
  { f with rest := f.rest.answered text }

/-- An expansion under way: the keys that were entered and not left yet, and their names on a
stack, both latest first; the state of the run; the keys that are finished; and the entries that
are not, the first of them being expanded. -/
structure Machine where
  frames : List Frame
  stack : List Text
  progress : Progress
  finished : List (Text × Value)
  waiting : List (Text × Value)

namespace Machine

/-- The start of an expansion. -/
def start (values : Mapping Value) : Machine := ⟨[], [], Progress.start, [], values.entries⟩

/-- Every entry is expanded. -/
def Finished (m : Machine) : Prop := m.frames = [] ∧ m.waiting = []

/-- A value that is there goes to the frame that waits for it, or it finishes an entry.  A frame
needs its text, and there may be none. -/
def receive (m : Machine) (value : Value) : Option Machine :=
  match m.frames with
  | f :: frames =>
    (replacement? value).map fun text => { m with frames := f.answered text :: frames }
  | [] =>
    match m.waiting with
    | (key, _) :: waiting =>
      some { m with finished := m.finished ++ [(key, value)], waiting := waiting }
    | [] => none

/-- A key is pushed, and its value begins to be expanded with the mark taken away. -/
def enter (m : Machine) (key : Text) (value : Value) : Machine :=
  { m with
    frames := ⟨key, m.progress.metChain, expandValue Asking.request value⟩ :: m.frames
    stack := key :: m.stack
    progress := { m.progress with metChain := false } }

/-- A key is entered unless its expansion was kept. -/
def visit (m : Machine) (key : Text) (value : Value) : Option Machine :=
  match Entries.get? key m.progress.done with
  | some kept => m.receive kept
  | none => some (m.enter key value)

/-- One step.  A frame that is done is left and its key popped; one that asks is told that the
name is on the stack, or has it visited, or has it asked from outside. -/
def step (values : Mapping Value) (lookup : Text → Option Value) (m : Machine) :
    Option Machine :=
  match m.frames with
  | [] =>
    match m.waiting with
    | (key, value) :: _ => m.visit key value
    | [] => none
  | f :: frames =>
    match f.rest with
    | .done result =>
      { m with
        frames := frames
        stack := m.stack.tail
        progress := m.progress.left f.key result f.outer }.receive result
    | .ask name _ =>
      if m.stack.contains name then
        some { m with
          frames := f.answered none :: frames
          progress := { m.progress with metChain := true } }
      else
        match values.get? name with
        | some value => m.visit name value
        | none =>
          { m with progress := { m.progress with asked := name :: m.progress.asked } }.receive
            ((lookup name).getD .null)

/-- Some steps lead from one state to another. -/
def Reaches (values : Mapping Value) (lookup : Text → Option Value) : Machine → Machine → Prop :=
  Relation.ReflTransGen fun m m' => step values lookup m = some m'

/-! ## §2. What every state keeps. -/

variable {values : Mapping Value} {lookup : Text → Option Value} {m m' : Machine}

/-- What holds of every state: the stack lists the keys of the frames, they are a chain, a frame
asks only for names its key refers to, and the waiting entries are those of the mapping. -/
structure Sane (values : Mapping Value) (m : Machine) : Prop where
  stacked : m.stack = m.frames.map Frame.key
  chain : Chain values m.stack
  asking : ∀ f ∈ m.frames, f.rest.Within (Refers values f.key)
  waiting : ∀ e ∈ m.waiting, values.get? e.1 = some e.2

/-- No key is entered at the start. -/
theorem sane_start (values : Mapping Value) : (start values).Sane values where
  stacked := rfl
  chain :=
    { distinct := List.nodup_nil
      defined := fun k hk => absurd hk List.not_mem_nil
      linked := .nil }
  asking := fun f hf => by cases hf
  waiting := fun e he => (Table.get?_eq_some_iff values e.1 e.2).2 he

/-- The state of the run may change. -/
theorem Sane.progress (h : m.Sane values) (p : Progress) :
    ({ m with progress := p } : Machine).Sane values :=
  ⟨h.stacked, h.chain, h.asking, h.waiting⟩

/-- The top frame may be told an answer. -/
theorem Sane.answered {f : Frame} {frames : List Frame} (h : m.Sane values)
    (hf : m.frames = f :: frames) (text : Option Text) :
    ({ m with frames := f.answered text :: frames } : Machine).Sane values where
  stacked := by rw [h.stacked, hf]; rfl
  chain := h.chain
  asking := fun g hg => by
    rcases List.mem_cons.1 hg with rfl | hg
    · exact (h.asking f (by simp [hf])).answered text
    · exact h.asking g (by simp [hf, hg])
  waiting := h.waiting

/-- The top key may be popped with its frame. -/
theorem Sane.left {f : Frame} {frames : List Frame} (h : m.Sane values)
    (hf : m.frames = f :: frames) :
    ({ m with frames := frames, stack := m.stack.tail } : Machine).Sane values where
  stacked := by rw [h.stacked, hf]; rfl
  chain :=
    ⟨h.chain.distinct.tail, fun k hk => h.chain.defined k (List.mem_of_mem_tail hk),
      h.chain.linked.tail⟩
  asking := fun g hg => h.asking g (by simp [hf, hg])
  waiting := h.waiting

/-- A key that makes a chain with those entered may be entered. -/
theorem Sane.enter {key : Text} {value : Value} (h : m.Sane values)
    (hc : Chain values (key :: m.stack)) (hv : values.get? key = some value) :
    (m.enter key value).Sane values where
  stacked := congrArg (key :: ·) h.stacked
  chain := hc
  asking := fun f hf => by
    rcases List.mem_cons.1 hf with rfl | hf
    · exact (requests_expandValue (m := Option) (fun _ => none) value).within.imp fun n hn =>
        ⟨value, hv, mem_answeredNames_iff.1 hn⟩
    · exact h.asking f hf
  waiting := h.waiting

/-- What a step leaves behind: the invariant, and an empty stack where an entry is finished. -/
structure Stepped (values : Mapping Value) (m m' : Machine) : Prop where
  sane : m'.Sane values
  finished : m'.finished = m.finished ∨ m'.stack = [] ∧ ∃ e, m'.finished = m.finished ++ [e]

/-- A value may be received. -/
theorem Sane.receive {value : Value} (h : m.Sane values) (hm : m.receive value = some m') :
    Stepped values m m' := by
  unfold Machine.receive at hm
  split at hm
  · rename_i f frames hf
    obtain ⟨text, -, rfl⟩ := Option.map_eq_some_iff.1 hm
    exact ⟨h.answered hf text, .inl rfl⟩
  · rename_i hf
    split at hm
    · rename_i key value' waiting hw
      cases hm
      refine ⟨⟨h.stacked, h.chain, h.asking, fun e he => h.waiting e (by simp [hw, he])⟩,
        .inr ⟨?_, _, rfl⟩⟩
      rw [h.stacked, hf]
      rfl
    · cases hm

/-- A key that makes a chain with those entered may be visited. -/
theorem Sane.visit {key : Text} {value : Value} (h : m.Sane values)
    (hc : Chain values (key :: m.stack)) (hv : values.get? key = some value)
    (hm : m.visit key value = some m') :
    Stepped values m m' := by
  unfold Machine.visit at hm
  split at hm
  · exact h.receive hm
  · cases hm
    exact ⟨h.enter hc hv, .inl rfl⟩

/-- Every step keeps the invariant. -/
theorem Sane.step (h : m.Sane values) (hm : m.step values lookup = some m') :
    Stepped values m m' := by
  have defined {k : Text} {v : Value} (hv : values.get? k = some v) :
      values.contains k = true := by rw [Table.contains, hv]; rfl
  unfold Machine.step at hm
  split at hm
  · rename_i hf
    split at hm
    · -- at the top level the stack is empty
      rename_i key value waiting hw
      have hv := h.waiting (key, value) (by simp [hw])
      have hs : m.stack = [] := by rw [h.stacked, hf]; rfl
      exact h.visit (by rw [hs]; exact Chain.single (defined hv)) hv hm
    · cases hm
  · rename_i f frames hf
    have hwithin := h.asking f (by simp [hf])
    split at hm
    · rename_i result hr
      have hleft := (h.left hf).progress (m.progress.left f.key result f.outer)
      exact ⟨(hleft.receive hm).sane, (hleft.receive hm).finished⟩
    · rename_i name next hr
      split at hm
      · cases hm
        exact ⟨(h.answered hf none).progress _, .inl rfl⟩
      · rename_i hn
        split at hm
        · -- the top key refers to the name, which is not on the stack yet
          rename_i value hv
          have hs : m.stack = f.key :: frames.map Frame.key := by rw [h.stacked, hf]; rfl
          have hrefers : Refers values f.key name := by
            rw [hr] at hwithin
            cases hwithin with
            | ask hn _ => exact hn
          have hc := h.chain
          rw [hs] at hc
          refine h.visit ?_ hv hm
          rw [hs]
          exact hc.push (by rw [← hs]; simpa using hn) hrefers (defined hv)
        · have hasked := h.progress { m.progress with asked := name :: m.progress.asked }
          exact ⟨(hasked.receive hm).sane, (hasked.receive hm).finished⟩

/-- Every state that is reached has the invariant. -/
theorem Reaches.sane (h : m.Sane values) (hr : Reaches values lookup m m') : m'.Sane values := by
  induction hr with
  | refl => exact h
  | tail _ hstep ih => exact (ih.step hstep).sane

end Machine

end Cascade.Reference
