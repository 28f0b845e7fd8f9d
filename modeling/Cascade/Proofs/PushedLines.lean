/-
  Cascade.Proofs.PushedLines
  ────────────────────────────────
  **NO LINE IS LOST BEFORE A PUSH, AND NONE IS PUSHED TWICE.**

  A Loki logger is called, flushed and closed in any order, and flushed in
  the background in between; the request of any push may fail.  The lines
  that were accepted are cut into batches: those pushed, and what is kept.
  So the lines of each level, with their times, are found in the pushes, in
  their order, and then among the kept ones:

      exists_line?         — a call that reaches the threshold has a line
      perm_streamsOf       — a push holds the lines of its batch
      pushedAt_streamsOf   — and those of a level in their order
      Carries.perform      — every operation keeps the cut into batches
      lines_conserved      — what that means for any operations

  A call that cannot be logged (its context has a name the call uses for
  itself, or a value that cannot be written) adds no line.
-/
import Mathlib.Data.List.Basic
import Cascade.Log.Logger
import Cascade.Proofs.NameOrder
import Cascade.Proofs.Writable

namespace Cascade

/-! ## §1. What has a line. -/

namespace Json

/-- Items that have lines have them together. -/
theorem exists_lineItems {items : List Value} (h : ∀ item ∈ items, ∃ t, line item = .ok t) :
    ∃ parts, lineItems items = .ok parts := by
  induction items with
  | nil => exact ⟨[], rfl⟩
  | cons item items ih =>
    obtain ⟨part, hpart⟩ := h item List.mem_cons_self
    obtain ⟨parts, hparts⟩ := ih fun i hi => h i (List.mem_cons_of_mem item hi)
    exact ⟨part :: parts, by rw [lineItems, hpart, hparts]; rfl⟩

/-- Members whose values have lines have them together. -/
theorem exists_lineMembers {members : List (Text × Value)}
    (h : ∀ m ∈ members, ∃ t, line m.2 = .ok t) : ∃ parts, lineMembers members = .ok parts := by
  induction members with
  | nil => exact ⟨[], rfl⟩
  | cons m members ih =>
    obtain ⟨part, hpart⟩ := h m List.mem_cons_self
    obtain ⟨parts, hparts⟩ := ih fun i hi => h i (List.mem_cons_of_mem m hi)
    obtain ⟨name, v⟩ := m
    exact ⟨_, by rw [lineMembers, hpart, hparts]; rfl⟩

/-- **WHAT CAN BE WRITTEN HAS A LINE.** -/
theorem exists_line {v : Value} (h : v.Writable) : ∃ t, line v = .ok t := by
  induction v using Value.memberInduction with
  | int n =>
    rw [Value.Writable, Value.nested?] at h
    obtain ⟨t, ht⟩ := Option.isSome_iff_exists.1 h
    exact ⟨t, by rw [line, writtenInt_of_intText? ht]⟩
  | list items ih =>
    rw [Value.writable_list_iff] at h
    obtain ⟨parts, hparts⟩ := exists_lineItems fun item hi => ih item hi (h item hi)
    exact ⟨_, by rw [line, hparts]; rfl⟩
  | object members ih =>
    rw [Value.writable_object_iff] at h
    obtain ⟨parts, hparts⟩ := exists_lineMembers fun m hm => ih m hm (h m hm)
    exact ⟨_, by rw [line, hparts]; rfl⟩
  | _ => exact ⟨_, rfl⟩

end Json

namespace Loki

/-! ## §2. Operations. -/

/-- What is done with a logger: by its callers, who log an entry at a time, or from time to time
in the background. -/
inductive Operation
  | log (now : Int) (e : Entry)
  | flush
  | close
  | background

/-- Performs an operation, a push it causes having a request that comes to `request`.  What
cannot be logged leaves the queue as it was. -/
def perform (l : Loki) (q : Queue) (operation : Operation) (request : Request) :
    Except Failure Unit × Queue :=
  match operation with
  | .log now e =>
    match (Logger.loki l).accept e with
    | .error failure => (.error failure, q)
    | .ok e =>
      match l.logWith q now e request with
      | .error fault => (.error (.unwritable fault), q)
      | .ok q => (.ok (), q)
  | .flush | .close | .background => (.ok (), q.flushWith request)

/-- The queue after operations, each with what becomes of the request of its push. -/
def queueFrom (l : Loki) (q : Queue) (steps : List (Operation × Request)) : Queue :=
  steps.foldl (fun q step => (l.perform q step.1 step.2).2) q

/-- The line an operation adds: that of a call whose level is at least the threshold, if it has
one. -/
def line? (l : Loki) : Operation → Option Line
  | .log now e =>
    if l.threshold.rank ≤ e.level.rank ∧ e.reservedName? = none then
      (lineOf e).toOption.map (Line.mk e.level (Text.ofInt now))
    else none
  | _ => none

/-- The lines that operations add, in order. -/
def accepted (l : Loki) (operations : List Operation) : List Line := operations.filterMap l.line?

/-- The lines of a level with their times, in order. -/
def stampedAt (level : Level) (lines : List Line) : List (Text × Text) :=
  (lines.filter fun line => line.level = level).map Line.stamped

/-- The lines of a level with their times in a push. -/
def pushedAt (level : Level) (push : Push) : List (Text × Text) :=
  push.flatMap fun stream => if stream.level = level then stream.values else []

/-- The number of lines in a push. -/
def sizeOf (push : Push) : Nat := (push.flatMap Stream.values).length

/-- A call that can be logged: its context has no name the call uses for itself, and values that
can be written. -/
structure Loggable (e : Entry) : Prop where
  names : ∀ m ∈ e.context, m.1 ∉ Entry.reservedNames
  writable : ∀ m ∈ e.context, m.2.Writable

/-- No name is one the call uses for itself. -/
theorem Loggable.reservedName?_eq_none {e : Entry} (h : Loggable e) : e.reservedName? = none := by
  unfold Entry.reservedName?
  rw [List.find?_eq_none]
  intro name hname
  obtain ⟨m, hm, rfl⟩ := List.mem_map.1 hname
  simpa using h.names m hm

/-- What goes into the line of a call can be written. -/
theorem Loggable.writable_members {e : Entry} (h : Loggable e) :
    ∀ m ∈ (Table.ofList (membersOf e)).entries, m.2.Writable := by
  intro m hm
  have hget := (Table.get?_eq_some_iff _ m.1 m.2).2 hm
  rcases List.mem_cons.1 (Table.mem_of_get?_ofList hget) with heq | hmem
  · rw [(Prod.mk.inj heq).2]
    exact Value.writable_str e.message
  · exact h.writable _ hmem

/-- The members of the line of a call, if no name of the context comes twice: the message, and
then the context as it is. -/
theorem Loggable.entries_members {e : Entry} (h : Loggable e)
    (distinct : (e.context.map Prod.fst).Nodup) :
    (Table.ofList (membersOf e)).entries = membersOf e := by
  apply Table.entries_ofList
  unfold membersOf
  rw [List.map_cons, List.nodup_cons]
  refine ⟨fun hmsg => ?_, distinct⟩
  obtain ⟨m, hm, hname⟩ := List.mem_map.1 hmsg
  apply h.names m hm
  rw [hname]
  show (("msg" : Text)) ∈ Entry.reservedNames
  decide

/-- **A CALL THAT REACHES THE THRESHOLD HAS A LINE**: the JSON of its message and context. -/
theorem exists_line? {l : Loki} (now : Int) {e : Entry} (h : Loggable e)
    (reached : l.threshold.rank ≤ e.level.rank) :
    ∃ text, l.line? (.log now e) = some ⟨e.level, Text.ofInt now, text⟩ ∧
      ((e.context.map Prod.fst).Nodup →
        Json.line (.object (membersOf e)) = .ok text) := by
  obtain ⟨text, htext⟩ := Json.exists_line (Value.writable_object_iff.2 h.writable_members)
  have hline : lineOf e = .ok text := htext
  refine ⟨text, ?_, fun distinct => ?_⟩
  · unfold line?
    simp only
    rw [if_pos ⟨reached, h.reservedName?_eq_none⟩, hline]
    rfl
  · rw [← h.entries_members distinct]
    exact htext

/-- A call below the threshold has none. -/
theorem line?_of_below {l : Loki} (now : Int) {e : Entry}
    (below : e.level.rank < l.threshold.rank) : l.line? (.log now e) = none := by
  unfold line?
  simp only
  rw [if_neg fun h => Nat.not_le_of_lt below h.1]

/-! ## §3. The streams of a batch. -/

section

variable {batch : List Line}

/-- A push has one stream for each level. -/
theorem nodup_streamsOf (batch : List Line) : ((streamsOf batch).map Stream.level).Nodup := by
  unfold streamsOf
  rw [List.map_map]
  show ((batch.map Line.level).eraseDups.map id).Nodup
  rw [List.map_id]
  exact Entries.nodup_eraseDups _

/-- A push of some lines has streams. -/
theorem streamsOf_ne_nil (h : batch ≠ []) : streamsOf batch ≠ [] := by
  intro hs
  obtain ⟨line, rest, rfl⟩ := List.exists_cons_of_ne_nil h
  have hnone := List.map_eq_nil_iff.1 hs
  rw [List.map_cons, List.eraseDups_cons] at hnone
  cases hnone

/-- A stream of a push has lines. -/
theorem values_ne_nil {stream : Stream} (h : stream ∈ streamsOf batch) : stream.values ≠ [] := by
  obtain ⟨level, hlevel, rfl⟩ := List.mem_map.1 h
  obtain ⟨line, hline, rfl⟩ := List.mem_map.1 (List.mem_eraseDups.1 hlevel)
  intro hnone
  have hmem : line ∈ batch.filter fun l => l.level = line.level :=
    List.mem_filter.2 ⟨hline, by simp⟩
  rw [List.map_eq_nil_iff.1 hnone] at hmem
  cases hmem

/-- The lines of one stream among many are the lines of its level. -/
theorem flatMap_streams {levels : List Level} (hd : levels.Nodup) (level : Level)
    (values : Level → List (Text × Text)) :
    (levels.flatMap fun other => if other = level then values other else []) =
      if level ∈ levels then values level else [] := by
  induction levels with
  | nil => rfl
  | cons other levels ih =>
    rw [List.nodup_cons] at hd
    rw [List.flatMap_cons, ih hd.2]
    by_cases h : other = level
    · subst h
      rw [if_pos rfl, if_neg hd.1, if_pos (by simp), List.append_nil]
    · rw [if_neg h, List.nil_append]
      simp [Ne.symm h]

/-- **A PUSH HOLDS THE LINES OF A LEVEL IN THEIR ORDER.** -/
theorem pushedAt_streamsOf (level : Level) (batch : List Line) :
    pushedAt level (streamsOf batch) = stampedAt level batch := by
  have hstreams : pushedAt level (streamsOf batch) =
      (batch.map Line.level).eraseDups.flatMap fun other =>
        if other = level then stampedAt other batch else [] := by
    unfold pushedAt streamsOf
    rw [List.flatMap_map]
    rfl
  rw [hstreams, flatMap_streams (Entries.nodup_eraseDups _)]
  split
  · rfl
  · rename_i hnot
    -- no line has the level
    have hnone : (batch.filter fun line => line.level = level) = [] := by
      rw [List.filter_eq_nil_iff]
      intro line hline hlevel
      apply hnot
      rw [List.mem_eraseDups, ← of_decide_eq_true hlevel]
      exact List.mem_map_of_mem hline
    rw [stampedAt, hnone]
    rfl

/-- Lines taken level by level are the lines, in another order. -/
theorem perm_flatMap_filter {levels : List Level} (hd : levels.Nodup) {batch : List Line}
    (h : ∀ line ∈ batch, line.level ∈ levels) :
    (levels.flatMap fun level => batch.filter fun line => line.level = level).Perm batch := by
  induction levels generalizing batch with
  | nil =>
    have hnone : batch = [] := List.eq_nil_iff_forall_not_mem.2 fun line hline => by
      cases h line hline
    rw [hnone]
    rfl
  | cons level levels ih =>
    rw [List.nodup_cons] at hd
    -- the other levels are those of the lines that are left
    have hrest : (levels.flatMap fun other => batch.filter fun line => line.level = other) =
        levels.flatMap fun other =>
          (batch.filter fun line => !decide (line.level = level)).filter
            fun line => line.level = other := by
      refine List.flatMap_congr fun other hother => ?_
      rw [List.filter_filter]
      refine List.filter_congr fun line _ => ?_
      by_cases hl : line.level = other
      · have hne : line.level ≠ level := by
          intro he
          rw [← he, hl] at hd
          exact hd.1 hother
        simp [hl, hl ▸ hne]
      · simp [hl]
    have hlevels : ∀ line ∈ batch.filter fun line => !decide (line.level = level),
        line.level ∈ levels := by
      intro line hline
      obtain ⟨hline, hne⟩ := List.mem_filter.1 hline
      rcases List.mem_cons.1 (h line hline) with he | hmem
      · simp [he] at hne
      · exact hmem
    have hleft := ih hd.2 hlevels
    rw [List.flatMap_cons, hrest]
    exact (hleft.append_left _).trans (List.filter_append_perm _ batch)

/-- **A PUSH HOLDS THE LINES OF ITS BATCH**, and no others. -/
theorem perm_streamsOf (batch : List Line) :
    ((streamsOf batch).flatMap Stream.values).Perm (batch.map Line.stamped) := by
  have hall : ∀ line ∈ batch, line.level ∈ (batch.map Line.level).eraseDups := by
    intro line hline
    exact List.mem_eraseDups.2 (List.mem_map_of_mem hline)
  have hperm := (perm_flatMap_filter (Entries.nodup_eraseDups _) hall).map Line.stamped
  rw [List.map_flatMap] at hperm
  unfold streamsOf
  rw [List.flatMap_map]
  exact hperm

/-- A push is as large as its batch. -/
theorem sizeOf_streamsOf (batch : List Line) : sizeOf (streamsOf batch) = batch.length := by
  have hlength := (perm_streamsOf batch).length_eq
  rwa [List.length_map] at hlength

end

/-! ## §4. A queue and its batches. -/

namespace Queue

variable {q q' : Queue} {lines : List Line}

/-- After a flush nothing is kept. -/
@[simp] theorem kept_flushWith (q : Queue) (request : Request) :
    (q.flushWith request).kept = [] := by
  unfold flushWith
  split
  · assumption
  · simp

/-- A flush pushes what is kept, if anything is. -/
theorem pushes_flushWith (q : Queue) (request : Request) :
    (q.flushWith request).pushes =
      if q.kept = [] then q.pushes else q.pushes ++ [streamsOf q.kept] := by
  unfold flushWith
  split
  · rfl
  · simp

/-- A queue that carries lines: they are cut into batches that were pushed, none of them empty
or too large, and what is kept. -/
def Carries (q : Queue) (lines : List Line) : Prop :=
  ∃ batches : List (List Line), q.pushes = batches.map streamsOf ∧
    batches.flatten ++ q.kept = lines ∧ ∀ batch ∈ batches, batch ≠ [] ∧ batch.length ≤ batchSize

/-- A flush makes a batch of what is kept. -/
theorem Carries.flushWith (h : q.Carries lines) (hk : q.kept.length ≤ batchSize)
    (request : Request) : (q.flushWith request).Carries lines := by
  obtain ⟨batches, hpushes, hlines, hbatches⟩ := h
  unfold Carries
  rw [pushes_flushWith, kept_flushWith]
  by_cases hnone : q.kept = []
  · refine ⟨batches, ?_, ?_, hbatches⟩
    · rw [if_pos hnone, hpushes]
    · rw [← hlines, hnone]
  · refine ⟨batches ++ [q.kept], ?_, ?_, ?_⟩
    · rw [if_neg hnone, hpushes, List.map_append, List.map_singleton]
    · rw [List.flatten_append, List.flatten_singleton, List.append_nil, hlines]
    · intro batch hbatch
      rcases List.mem_append.1 hbatch with hbatch | hbatch
      · exact hbatches batch hbatch
      · rw [List.mem_singleton.1 hbatch]
        exact ⟨hnone, hk⟩

/-- A line that is accepted is carried too, and after it the queue is short again. -/
theorem Carries.accept (h : q.Carries lines) (hk : q.kept.length < batchSize) (line : Line)
    (request : Request) :
    (q.accept line request).Carries (lines ++ [line]) ∧
      (q.accept line request).kept.length < batchSize := by
  have hcarries : ({ q with kept := q.kept ++ [line] } : Queue).Carries (lines ++ [line]) := by
    obtain ⟨batches, hpushes, hlines, hbatches⟩ := h
    refine ⟨batches, hpushes, ?_, hbatches⟩
    show batches.flatten ++ (q.kept ++ [line]) = lines ++ [line]
    rw [← List.append_assoc, hlines]
  have hlength : (q.kept ++ [line]).length ≤ batchSize := by
    rw [List.length_append, List.length_singleton]
    omega
  unfold Queue.accept
  simp only
  split
  · refine ⟨hcarries.flushWith hlength request, ?_⟩
    rw [kept_flushWith]
    decide
  · rename_i hshort
    exact ⟨hcarries, Nat.lt_of_not_le hshort⟩

/-- Two queues that differ at most in the requests that failed. -/
def SameLines (q q' : Queue) : Prop := q.kept = q'.kept ∧ q.pushes = q'.pushes

/-- A flush pushes the same whatever becomes of its request. -/
theorem SameLines.flushWith (h : q.SameLines q') (request request' : Request) :
    (q.flushWith request).SameLines (q'.flushWith request') := by
  unfold SameLines
  rw [kept_flushWith, kept_flushWith, pushes_flushWith, pushes_flushWith, h.1, h.2]
  exact ⟨rfl, rfl⟩

/-- A line is accepted in the same way. -/
theorem SameLines.accept (h : q.SameLines q') (line : Line) (request request' : Request) :
    (q.accept line request).SameLines (q'.accept line request') := by
  have hadded : ({ q with kept := q.kept ++ [line] } : Queue).SameLines
      { q' with kept := q'.kept ++ [line] } := by
    refine ⟨?_, h.2⟩
    show q.kept ++ [line] = q'.kept ++ [line]
    rw [h.1]
  unfold Queue.accept
  simp only [h.1]
  split
  · rw [h.1] at hadded
    exact hadded.flushWith request request'
  · rw [h.1] at hadded
    exact hadded

end Queue

/-! ## §5. Every operation. -/

section

variable {l : Loki} {q q' : Queue} {lines : List Line}

/-- A call that has a line succeeds, and adds it. -/
theorem perform_of_line {now : Int} {e : Entry} {line : Line}
    (h : l.line? (.log now e) = some line) (q : Queue) (request : Request) :
    l.perform q (.log now e) request = (.ok (), q.accept line request) := by
  unfold line? at h
  simp only at h
  split at h
  · rename_i hcall
    obtain ⟨hlevel, hname⟩ := hcall
    obtain ⟨text, htext, rfl⟩ := Option.map_eq_some_iff.1 h
    have hline : lineOf e = .ok text := by
      cases hl : lineOf e with
      | error fault =>
        rw [hl] at htext
        cases htext
      | ok text' =>
        rw [hl] at htext
        cases htext
        rfl
    have hreaches : e.level.reaches l.threshold = true := decide_eq_true hlevel
    unfold perform Logger.accept logWith
    simp only [hname, hreaches, hline, if_true]
    rfl
  · cases h

/-- A call that has none leaves the queue as it was. -/
theorem perform_of_no_line {now : Int} {e : Entry} (h : l.line? (.log now e) = none) (q : Queue)
    (request : Request) : (l.perform q (.log now e) request).2 = q := by
  unfold perform Logger.accept
  cases hname : e.reservedName? with
  | some name => simp only [hname]
  | none =>
    unfold logWith
    by_cases hreaches : e.level.reaches l.threshold = true
    · -- the level is reached, so it is the line that is missing
      unfold line? at h
      simp only at h
      rw [if_pos ⟨of_decide_eq_true hreaches, hname⟩] at h
      cases hline : lineOf e with
      | error fault =>
        simp only [hname, hreaches, hline, if_true]
        rfl
      | ok text =>
        rw [hline] at h
        cases h
    · simp only [hname, if_neg hreaches]

/-- An operation fails only for a call that has no line, whatever becomes of its request. -/
theorem line?_of_failure {operation : Operation} {request : Request} {failure : Failure}
    (h : (l.perform q operation request).1 = .error failure) :
    ∃ now e, operation = .log now e ∧ l.line? operation = none := by
  cases operation with
  | log now e =>
    refine ⟨now, e, rfl, ?_⟩
    cases hline : l.line? (.log now e) with
    | none => rfl
    | some line =>
      rw [perform_of_line hline] at h
      cases h
  | flush => cases h
  | close => cases h
  | background => cases h

/-- **EVERY OPERATION KEEPS THE CUT INTO BATCHES**, adds its line and leaves the queue short. -/
theorem Queue.Carries.perform (h : q.Carries lines) (hk : q.kept.length < batchSize)
    (operation : Operation) (request : Request) :
    (l.perform q operation request).2.Carries (lines ++ (l.line? operation).toList) ∧
      (l.perform q operation request).2.kept.length < batchSize := by
  -- whatever flushes adds no line
  have hflush : (q.flushWith request).Carries (lines ++ []) ∧
      (q.flushWith request).kept.length < batchSize := by
    rw [List.append_nil, kept_flushWith]
    exact ⟨h.flushWith (Nat.le_of_lt hk) request, by decide⟩
  cases operation with
  | log now e =>
    cases hline : l.line? (.log now e) with
    | none =>
      rw [perform_of_no_line hline, Option.toList_none, List.append_nil]
      exact ⟨h, hk⟩
    | some line =>
      rw [perform_of_line hline]
      exact h.accept hk line request
  | flush => exact hflush
  | close => exact hflush
  | background => exact hflush

/-- All operations do. -/
theorem Queue.Carries.queueFrom (h : q.Carries lines) (hk : q.kept.length < batchSize)
    (steps : List (Operation × Request)) :
    (l.queueFrom q steps).Carries (lines ++ l.accepted (steps.map Prod.fst)) ∧
      (l.queueFrom q steps).kept.length < batchSize := by
  induction steps generalizing q lines with
  | nil =>
    show q.Carries (lines ++ []) ∧ _
    rw [List.append_nil]
    exact ⟨h, hk⟩
  | cons step steps ih =>
    obtain ⟨hnext, hshort⟩ := h.perform (l := l) hk step.1 step.2
    have hlater := ih hnext hshort
    have haccepted : lines ++ (l.line? step.1).toList ++ l.accepted (steps.map Prod.fst) =
        lines ++ l.accepted ((step :: steps).map Prod.fst) := by
      unfold accepted
      rw [List.append_assoc, List.map_cons, List.filterMap_cons]
      cases l.line? step.1 <;> rfl
    rw [haccepted] at hlater
    exact hlater

/-- Every operation does the same whatever becomes of its request. -/
theorem Queue.SameLines.perform (h : q.SameLines q') (operation : Operation)
    (request request' : Request) :
    (l.perform q operation request).2.SameLines (l.perform q' operation request').2 := by
  cases operation with
  | log now e =>
    cases hline : l.line? (.log now e) with
    | none =>
      rw [perform_of_no_line hline, perform_of_no_line hline]
      exact h
    | some line =>
      rw [perform_of_line hline, perform_of_line hline]
      exact h.accept line request request'
  | flush => exact h.flushWith request request'
  | close => exact h.flushWith request request'
  | background => exact h.flushWith request request'

/-- All operations do the same whichever requests fail. -/
theorem Queue.SameLines.queueFrom (h : q.SameLines q') {steps steps' : List (Operation × Request)}
    (hs : steps.map Prod.fst = steps'.map Prod.fst) :
    (l.queueFrom q steps).SameLines (l.queueFrom q' steps') := by
  induction steps generalizing q q' steps' with
  | nil =>
    have hnone : steps' = [] := List.map_eq_nil_iff.1 hs.symm
    rw [hnone]
    exact h
  | cons step steps ih =>
    cases steps' with
    | nil => cases hs
    | cons step' steps' =>
      rw [List.map_cons, List.map_cons, List.cons.injEq] at hs
      have hnext := h.perform (l := l) step.1 step.2 step'.2
      show ((l.queueFrom (l.perform q step.1 step.2).2 steps).SameLines
        (l.queueFrom (l.perform q' step'.1 step'.2).2 steps'))
      rw [← hs.1]
      exact ih hnext hs.2

end

/-! ## §6. What that means. -/

/-- The operations that push what is kept: at the wish of a caller, at the end, or in the
background. -/
def Operation.flushes : Operation → Bool
  | .log _ _ => false
  | _ => true

/-- A push as it should be: it has streams, one for each level, with lines in all of them, and
a hundred lines at most. -/
structure IsPush (push : Push) : Prop where
  streams : push ≠ []
  levels : (push.map Stream.level).Nodup
  lines : ∀ stream ∈ push, stream.values ≠ []
  size : sizeOf push ≤ 100

/-- The push of a batch is as it should be. -/
theorem isPush_streamsOf {batch : List Line} (hne : batch ≠ []) (hsize : batch.length ≤ batchSize) :
    IsPush (streamsOf batch) := by
  refine ⟨streamsOf_ne_nil hne, nodup_streamsOf batch, fun stream hs => values_ne_nil hs, ?_⟩
  rw [sizeOf_streamsOf]
  exact hsize

/-- The lines of a level in the pushes of batches are those in the batches. -/
theorem pushedAt_batches (level : Level) (batches : List (List Line)) :
    (batches.map streamsOf).flatMap (pushedAt level) = stampedAt level batches.flatten := by
  induction batches with
  | nil => rfl
  | cons batch batches ih =>
    rw [List.map_cons, List.flatMap_cons, ih, pushedAt_streamsOf, List.flatten_cons]
    unfold stampedAt
    rw [List.filter_append, List.map_append]

/-- **NO LINE IS LOST BEFORE A PUSH, AND NONE IS PUSHED TWICE.**  A call that reaches the
threshold and can be logged is accepted: its line is the JSON of its message and context.  A call
below the threshold is not.  After any operations the lines of each level in the attempted pushes,
with the times of their calls, and then those still kept, are the accepted lines of the level in
the order of the calls.  Every push is as it should be; fewer than a hundred lines are kept, and
none after a flush or the end.  Pushes and kept lines are the same whichever requests failed, and
no operation fails but a call that has no line. -/
theorem lines_conserved (l : Loki) (steps : List (Operation × Request)) :
    (∀ now e, l.threshold.rank ≤ e.level.rank → Loggable e →
      ∃ text, l.line? (.log now e) = some ⟨e.level, Text.ofInt now, text⟩ ∧
        ((e.context.map Prod.fst).Nodup → Json.line (.object (membersOf e)) = .ok text)) ∧
    (∀ now e, e.level.rank < l.threshold.rank → l.line? (.log now e) = none) ∧
    (∀ level, (l.queueFrom .empty steps).pushes.flatMap (pushedAt level) ++
        stampedAt level (l.queueFrom .empty steps).kept =
      stampedAt level (l.accepted (steps.map Prod.fst))) ∧
    (∀ push ∈ (l.queueFrom .empty steps).pushes, IsPush push) ∧
    (l.queueFrom .empty steps).kept.length < 100 ∧
    (∀ operation request, operation.flushes = true →
      (l.queueFrom .empty (steps ++ [(operation, request)])).kept = []) ∧
    (∀ steps', steps'.map Prod.fst = steps.map Prod.fst →
      (l.queueFrom .empty steps').pushes = (l.queueFrom .empty steps).pushes ∧
      (l.queueFrom .empty steps').kept = (l.queueFrom .empty steps).kept) ∧
    (∀ operation request failure,
      (l.perform (l.queueFrom .empty steps) operation request).1 = .error failure →
      ∃ now e, operation = .log now e ∧ l.line? operation = none) := by
  have hempty : Queue.empty.Carries [] := by
    refine ⟨[], rfl, rfl, ?_⟩
    intro batch hbatch
    cases hbatch
  obtain ⟨⟨batches, hpushes, hlines, hbatches⟩, hshort⟩ :=
    hempty.queueFrom (l := l) (by decide) steps
  rw [List.nil_append] at hlines
  refine ⟨?_, ?_, ?_, ?_, hshort, ?_, ?_, ?_⟩
  · intro now e reached loggable
    exact exists_line? now loggable reached
  · intro now e below
    exact line?_of_below now below
  · intro level
    rw [hpushes, pushedAt_batches, ← hlines]
    unfold stampedAt
    rw [List.filter_append, List.map_append]
  · intro push hpush
    rw [hpushes] at hpush
    obtain ⟨batch, hbatch, rfl⟩ := List.mem_map.1 hpush
    obtain ⟨hne, hsize⟩ := hbatches batch hbatch
    exact isPush_streamsOf hne hsize
  · intro operation request hflushes
    unfold queueFrom
    rw [List.foldl_append]
    cases operation with
    | log now e => cases hflushes
    | flush => exact Queue.kept_flushWith _ request
    | close => exact Queue.kept_flushWith _ request
    | background => exact Queue.kept_flushWith _ request
  · intro steps' hsteps
    have hsame := Queue.SameLines.queueFrom (l := l) (q := .empty) ⟨rfl, rfl⟩ hsteps
    exact ⟨hsame.2, hsame.1⟩
  · intro operation request failure hfailure
    exact line?_of_failure hfailure

/-- A logger that takes calls from INFO on. -/
def informing : Loki where
  pushUrl := "http://loki:3100/loki/api/v1/push"
  service := "svc"
  environment := "test"
  threshold := .info

/-- The call of a number: a debug entry for every third one, else one of INFO or WARN. -/
def numberedCall (n : Nat) : Operation :=
  .log n ⟨if n % 3 = 0 then .debug else if n % 3 = 1 then .info else .warn, "m",
    [("key", .str "K")]⟩

/-- Many calls, with a flush in the background in between, and the end; the first push that is due
to their number fails. -/
def manySteps : List (Operation × Request) :=
  ((List.range 30).map fun n => (numberedCall n, .answered)) ++ [(.background, .answered)] ++
    ((List.range 180).map fun n => (numberedCall n, .failed)) ++ [(.close, .answered)]

/-- Of two hundred and ten calls a hundred and forty are accepted, in three pushes of which the
second one is full and fails; each accepted line is in them, and has its time. -/
theorem lines_conserved_manySteps :
    (informing.queueFrom .empty manySteps).pushes.map sizeOf = [20, 100, 20] ∧
      (informing.queueFrom .empty manySteps).lost.map sizeOf = [100] ∧
      (informing.accepted (manySteps.map Prod.fst)).length = 140 ∧
      (∀ level, (informing.queueFrom .empty manySteps).pushes.flatMap (pushedAt level) =
        stampedAt level (informing.accepted (manySteps.map Prod.fst))) ∧
      ∃ text, informing.line? (numberedCall 100) = some ⟨.info, "100", text⟩ ∧
        Json.line (.object [("msg", .str "m"), ("key", .str "K")]) = .ok text := by
  obtain ⟨taken, -, conserved, -⟩ := lines_conserved informing manySteps
  have loggable : Loggable ⟨.info, "m", [("key", .str "K")]⟩ :=
    ⟨by decide, List.forall_mem_singleton.2 (Value.writable_str "K")⟩
  obtain ⟨text, hline, htext⟩ := taken 100 _ (by decide) loggable
  refine ⟨by decide +kernel, by decide +kernel, by decide +kernel, fun level => ?_, text, hline,
    htext (by decide)⟩
  have hkept : (informing.queueFrom .empty manySteps).kept = [] := by decide +kernel
  have hall := conserved level
  rw [hkept] at hall
  exact (List.append_nil _).symm.trans hall

end Loki

end Cascade
