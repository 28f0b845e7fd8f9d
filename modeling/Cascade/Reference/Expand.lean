/-
  Cascade.Reference.Expand
  ────────────────────────────────
  **REPLACING REFERENCES.**

  Expansion of a text is ONE simultaneous substitution: the distinct names
  are answered first, in order of first occurrence, then every reference is
  replaced by the answer for its name, or left as written where there is
  none.  What was put in is not scanned again.  A list is expanded item by
  item; all other values stay as they are.

  The answers come from any computation `answer`: a fixed mapping, a
  resolver with its log, or the expansion of another key.
-/
import Cascade.Reference.Scan
import Cascade.Value.Rendering

namespace Cascade.Reference

/-- The names of a text, each once, in order of first occurrence. -/
def distinctNames (t : Text) : List Text := ((find t).map Reference.name).eraseDups

/-- The text with each reference replaced by the answer for its name, if there is one. -/
def substitute (answers : Text → Option Text) (t : Text) : Text :=
  (scan t).flatMap fun
    | .char c => [c]
    | .ref r => (answers r.name).getD r.text

/-- A text with its references replaced, each distinct name being answered once. -/
def expandText {m : Type → Type} [Monad m] (answer : Text → m (Option Text)) (t : Text) :
    m Text := do
  let answers ← (distinctNames t).mapM fun name => do
    let text ← answer name
    return (name, text)
  return substitute (fun name => (Entries.get? name answers).getD none) t

/-- An item of a list with its references replaced. -/
def expandItem {m : Type → Type} [Monad m] (answer : Text → m (Option Text)) :
    Value → m Value
  | .str t => return .str (← expandText answer t)
  | v => return v

/-- A value with its references replaced. -/
def expandValue {m : Type → Type} [Monad m] (answer : Text → m (Option Text)) :
    Value → m Value
  | .str t => return .str (← expandText answer t)
  | .list items => return .list (← items.mapM (expandItem answer))
  | v => return v

/-! ## Expansion on request. -/

/-- A text with its references replaced if that is allowed, else as it is. -/
def expandTextIf {m : Type → Type} [Monad m] (allowed : Bool)
    (answer : Text → m (Option Text)) (t : Text) : m Text :=
  if allowed then expandText answer t else return t

/-- A value with its references replaced if that is allowed, else as it is. -/
def expandValueIf {m : Type → Type} [Monad m] (allowed : Bool)
    (answer : Text → m (Option Text)) (v : Value) : m Value :=
  if allowed then expandValue answer v else return v

end Cascade.Reference
