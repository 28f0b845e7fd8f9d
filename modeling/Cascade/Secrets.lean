/-
  Cascade.Secrets
  ────────────────────────────────
  **THE SYSTEM ENVIRONMENT AS A SOURCE.**

  Variables come from a mapping of their own or, read afresh each time, from
  the process; overrides go before both.  An empty value counts as
  undefined, also when it is an override.

  Any text names an override or a variable of a mapping.  The process can
  only be asked for a name that has bytes; `ask` fails for the others, and
  `get?` finds nothing under them.
-/
import Cascade.Environment

namespace Cascade

/-- The system environment: overrides, and a mapping that stands for the variables of the
process if there is one. -/
structure Secrets where
  overrides : Mapping Text
  own : Option (Mapping Text)
  deriving DecidableEq, Repr

namespace Secrets

/-- The environment of the process. -/
def ofProcess : Secrets := ⟨.empty, none⟩

/-- The value of a key that is not empty. -/
def get? (s : Secrets) (process : Environment) (key : Text) : Option Text :=
  let value :=
    match s.overrides.get? key, s.own with
    | some v, _ => some v
    | none, some own => own.get? key
    | none, none => process.get? key
  value.filter fun v => !v.isEmpty

/-- The value of a key, or a default. -/
def getD (s : Secrets) (process : Environment) (key fallback : Text) : Text :=
  (s.get? process key).getD fallback

/-- Whether the process is asked for a key. -/
def asksProcess (s : Secrets) (key : Text) : Bool :=
  s.own.isNone && !s.overrides.contains key

/-- The value of a key that is not empty, if the key can be asked for. -/
def ask (s : Secrets) (process : Environment) (key : Text) :
    Except Environment.Fault (Option Text) :=
  if s.asksProcess key then (Environment.bytesOf key).map fun _ => s.get? process key
  else .ok (s.get? process key)

/-- A key that has bytes can be asked for. -/
theorem ask_of_bytesOf {s : Secrets} {process : Environment} {key : Text} {bytes : Text.Bytes}
    (h : Environment.bytesOf key = .ok bytes) :
    s.ask process key = .ok (s.get? process key) := by
  unfold ask
  rw [h]
  exact ite_self _

end Secrets

end Cascade
