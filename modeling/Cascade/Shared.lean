/-
  Cascade.Shared
  ────────────────────────────────
  **THE SHARED RESOLVER OF A PROCESS.**

  The shared resolver is built from the environment when it is first needed
  and kept, with its cache, until it is dropped or another one is put in its
  place.  A build that fails leaves none.  Each resolver ever shared has a
  number of its own, so that "the same resolver" can be told.
-/
import Cascade.Resolver

namespace Cascade

/-- A shared resolver: its number, how it was built, and its cache and log. -/
structure Shared.Instance where
  number : Nat
  built : Resolver.Built
  trace : Trace

/-- The shared resolver, if there is one, and how many there have been. -/
structure Shared where
  current : Option Shared.Instance
  count : Nat

namespace Shared

/-- A resolver just built, with an empty cache and nothing logged. -/
def Instance.new (number : Nat) (built : Resolver.Built) : Instance :=
  ⟨number, built, ⟨.new built.policy, []⟩⟩

/-- No shared resolver yet. -/
def start : Shared := ⟨none, 0⟩

/-- Drops the shared resolver. -/
def drop (s : Shared) : Shared := { s with current := none }

/-- Shares a resolver, in whatever state it is; without one the current one is dropped as it
is. -/
def share (s : Shared) : Option Instance → Shared
  | none => s.drop
  | some i => ⟨some i, max s.count (i.number + 1)⟩

/-- Shares a resolver that was just built. -/
def put (s : Shared) (built : Resolver.Built) : Shared := s.share (some (.new s.count built))

/-- A resolver whose cache was emptied. -/
def Instance.emptied (i : Instance) : Instance :=
  { i with trace := { i.trace with cache := i.trace.cache.reset } }

/-- Drops the shared resolver with all that it cached: who still holds it finds its cache
empty. -/
def reset (s : Shared) : Option Instance × Shared := (s.current.map Instance.emptied, s.drop)

/-- A resolver with all its settings from the environment of the process. -/
def buildDefault (w : World) : Except Failure Resolver.Built := do
  let secrets := Secrets.ofProcess
  Resolver.build w secrets (← Settings.ofSecrets w secrets) none none

/-- The shared resolver, built now if there is none. -/
def require (s : Shared) (w : World) : Except Failure (Instance × Shared) :=
  match s.current with
  | some i => .ok (i, s)
  | none => do
    let built ← buildDefault w
    return (.new s.count built, s.put built)

/-- Runs a reading of the shared resolver. -/
def run {α : Type} (s : Shared) (w : World) (reading : Resolver → Reading α) :
    Except Failure α × Shared :=
  match s.require w with
  | .error failure => (.error failure, s)
  | .ok (i, s) =>
    let (answer, trace) := (reading i.built.resolver).exec w i.trace
    (answer, { s with current := some { i with trace } })

/-- The value of a key in the shared resolver. -/
def env (s : Shared) (w : World) (key : Text) (default : Option Value) (interpolate : Bool) :
    Except Failure Value × Shared :=
  s.run w fun r => r.env key default interpolate

/-- What the shared resolver prints for a key. -/
def shown (s : Shared) (w : World) (key : Text) (default : Option Value)
    (interpolate : Bool) : Except Failure Resolver.Printed × Shared :=
  s.run w fun r => r.shown key default interpolate

end Shared

end Cascade
