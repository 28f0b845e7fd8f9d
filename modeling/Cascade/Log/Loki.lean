/-
  Cascade.Log.Loki
  ────────────────────────────────
  **LOG LINES FOR A LOKI SERVER.**

  Entries that reach the threshold are kept as lines of JSON, with the time
  at which they were logged, and pushed in batches: when a hundred are kept,
  on request, and from time to time in the background.  A push holds one
  stream per level, in the order in which the levels first occur, and each
  stream its times and lines in order.  The request of a push may fail; the
  push is not repeated then, and its lines are lost.
-/
import Cascade.Json.Writer
import Cascade.Log.Entry

namespace Cascade

open Cascade.Text

/-- Where and how a Loki logger pushes. -/
structure Loki where
  pushUrl : Text
  service : Text
  environment : Text
  threshold : Level
  deriving DecidableEq, Repr

/-- A line that was accepted, with its level and the time of the call: its nanoseconds, written
out. -/
structure Loki.Line where
  level : Level
  stamp : Text
  text : Text
  deriving DecidableEq, Repr

/-- What a push holds of a line: its time and its text. -/
def Loki.Line.stamped (line : Loki.Line) : Text × Text := (line.stamp, line.text)

/-- The times and texts of one level in a push. -/
structure Loki.Stream where
  level : Level
  values : List (Text × Text)
  deriving DecidableEq, Repr

/-- A push: its streams. -/
abbrev Loki.Push := List Loki.Stream

/-- What becomes of the request of a push. -/
inductive Loki.Request
  | answered
  | failed
  deriving DecidableEq, Repr

/-- The lines that are kept, the pushes attempted so far, oldest first, and those of them whose
request failed. -/
structure Loki.Queue where
  kept : List Loki.Line
  pushes : List Loki.Push
  lost : List Loki.Push
  deriving DecidableEq, Repr

namespace Loki

/-- How many lines are kept before they are pushed. -/
def batchSize : Nat := 100

/-- The seconds a push may take. -/
def pushTimeout : Nat := 5

/-- The labels of the stream of a level. -/
def labels (l : Loki) (level : Level) : List (Text × Text) :=
  [("service", l.service), ("environment", l.environment), ("level", level.name)]

/-- What the line of an entry says: the message, and then the context. -/
def membersOf (e : Entry) : List (Text × Value) := ("msg", .str e.message) :: e.context

/-- The line of an entry: an object of the message and the context, where context named
like the message takes its place. -/
def lineOf (e : Entry) : Except Json.Unwritable Text :=
  Json.line (.object (Table.ofList (membersOf e)).entries)

/-- The streams of lines: one for each level, in order of first occurrence. -/
def streamsOf (lines : List Line) : Push :=
  (lines.map Line.level).eraseDups.map fun level =>
    ⟨level, (lines.filter fun l => l.level = level).map Line.stamped⟩

namespace Queue

/-- Nothing kept and nothing pushed. -/
def empty : Queue := ⟨[], [], []⟩

/-- Attempts a push.  A request that fails is no failure of the logger. -/
def attempt (q : Queue) (push : Push) : Request → Queue
  | .answered => { q with pushes := q.pushes ++ [push] }
  | .failed => { q with pushes := q.pushes ++ [push], lost := q.lost ++ [push] }

/-- An attempted push is the last one, whatever becomes of its request. -/
@[simp] theorem pushes_attempt (q : Queue) (push : Push) (request : Request) :
    (q.attempt push request).pushes = q.pushes ++ [push] := by
  cases request <;> rfl

/-- Attempting a push leaves what is kept. -/
@[simp] theorem kept_attempt (q : Queue) (push : Push) (request : Request) :
    (q.attempt push request).kept = q.kept := by
  cases request <;> rfl

/-- Pushes what is kept, if anything is, with a request that comes to `request`. -/
def flushWith (q : Queue) (request : Request) : Queue :=
  if q.kept = [] then q else { q with kept := [] }.attempt (streamsOf q.kept) request

/-- Pushes what is kept, with a request that is answered. -/
def flush (q : Queue) : Queue := q.flushWith .answered

/-- Keeps a line, and pushes when a batch is full. -/
def accept (q : Queue) (line : Line) (request : Request) : Queue :=
  let q := { q with kept := q.kept ++ [line] }
  if batchSize ≤ q.kept.length then q.flushWith request else q

end Queue

/-- The queue after an entry that is logged at a time; one below the threshold changes nothing.
A push it causes has a request that comes to `request`. -/
def logWith (l : Loki) (q : Queue) (now : Int) (e : Entry) (request : Request) :
    Except Json.Unwritable Queue :=
  if e.level.reaches l.threshold then
    (lineOf e).map fun text => q.accept ⟨e.level, Text.ofInt now, text⟩ request
  else .ok q

/-- The queue after an entry, with a request that is answered. -/
def log (l : Loki) (q : Queue) (now : Int) (e : Entry) : Except Json.Unwritable Queue :=
  l.logWith q now e .answered

end Loki

end Cascade
