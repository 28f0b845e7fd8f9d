/-
  Cascade.Reference.Mapping
  ────────────────────────────────
  **EXPANDING A WHOLE MAPPING.**

  Every value of a mapping is expanded against the mapping itself: a
  referenced key is expanded first, a name that is no key is asked from
  outside, and a reference back into the chain being expanded stays as
  written, as does one to nothing or to null.

  The run carries the values that are finished, the names asked from
  outside, and whether the chain was met since the current key was entered.
  A value that met the chain depends on where the expansion entered the
  cycle, so it is not kept.
-/
import Cascade.Reference.Expand

namespace Cascade.Reference

/-- The state of a run: the values kept for reuse, the names asked from outside (latest
first), and whether a reference met the chain since the current key was entered. -/
structure Progress where
  done : List (Text × Value)
  asked : List Text
  metChain : Bool

/-- The start of a run. -/
def Progress.start : Progress := ⟨[], [], false⟩

/-- The run of an expansion; it fails when a value has no text. -/
abbrev Run := StateT Progress Option

/-- The text that replaces a reference to a value.  Null replaces nothing; the run fails
when a value has no text. -/
def render : Value → Run (Option Text)
  | .null => return none
  | v => do return some (← liftM v.inserted?)

/-- The answer for a name that is no key. -/
def askOutside (lookup : Text → Option Value) (name : Text) : Run (Option Text) := do
  modify fun p => { p with asked := name :: p.asked }
  render ((lookup name).getD .null)

/-- The answer for a name referenced by the key on top of a chain, where `expand` gives
the expansion of a key above it. -/
def answerInside (values : Mapping Value) (lookup : Text → Option Value)
    (expand : Text → Value → Run Value) (chain : List Text) (name : Text) :
    Run (Option Text) := do
  if chain.contains name then
    -- what is being expanded depends on the chain from here on
    modify fun p => { p with metChain := true }
    return none
  else
    match values.get? name with
    | some value => do render (← expand name value)
    | none => askOutside lookup name

/-- The expansion of a key and its value above a chain of keys; `room` bounds how much
longer the chain may grow. -/
def expandKey (values : Mapping Value) (lookup : Text → Option Value) :
    (room : Nat) → (chain : List Text) → Text → Value → Run Value
  | 0, _, _, value => return value
  | room + 1, chain, key, value => do
    match Entries.get? key (← get).done with
    | some v => return v
    | none =>
      -- the mark is set aside, so that afterwards it tells about this key alone
      let outer := (← get).metChain
      modify fun p => { p with metChain := false }
      let inner := key :: chain
      let result ← expandValue
        (answerInside values lookup (expandKey values lookup room inner) inner) value
      modify fun p =>
        { p with
          done := if p.metChain then p.done else (key, result) :: p.done
          metChain := p.metChain || outer }
      return result

/-- The expansion of entries one after the other.  A chain holds distinct keys, so it
never grows longer than the mapping is large. -/
def expandEntries (values : Mapping Value) (lookup : Text → Option Value) :
    List (Text × Value) → Run (List (Text × Value))
  | [] => return []
  | (key, value) :: rest => do
    let result ← expandKey values lookup values.size [] key value
    return (key, result) :: (← expandEntries values lookup rest)

/-- The expansion of a mapping together with the state its run ends in; none when a value
to be put into a text has no text itself. -/
def runMapping (values : Mapping Value) (lookup : Text → Option Value) :
    Option (Mapping Value × Progress) := do
  let (entries, progress) ← (expandEntries values lookup values.entries).run Progress.start
  return (Table.ofList entries, progress)

/-- A mapping with every reference between its keys followed, other names being answered
by `lookup`.  Keys may refer to each other in rows of any length: the recursion limit of an
interpreter is left out. -/
def expandMapping (values : Mapping Value) (lookup : Text → Option Value) :
    Option (Mapping Value) :=
  (runMapping values lookup).map Prod.fst

end Cascade.Reference
