/-
  Cascade.Proofs.ResolutionLog
  ────────────────────────────────
  **THE LOG TELLS WHAT HAPPENED.**

  Resolver and cache write one log in turns.  What a look-up adds to it is
  determined by what the sources hold: one entry for a file that is loaded
  on the way, one for each source that is unavailable, and one for the
  source that wins or for the default.

      log_getAt           — a cache logs the files it has newly loaded
      told                — what is logged for one key
      rawValue_exec       — one look-up adds just this, and leaves the cache
      blocks              — what is logged for several names, each look-up
                            going on from where the one before it stopped
      transfers_tells     — an expansion adds the blocks of its names, up to
                            the first name whose value has no text
      env_log_eq          — the log of a key, with and without interpolation

  A file that is loaded is seen in the cache: there is a record of it that
  was not there before.  So the entry of a load is stated by comparing the
  cache before and after, and not by what the cache says of itself.
-/
import Mathlib.Data.List.TakeWhile
import Cascade.Proofs.OneLevel
import Cascade.Proofs.Substitution

namespace Cascade

/-! ## §1. What is loaded. -/

namespace Cache

variable {c : Cache} {w : World} {place : Path}

/-- The entries for the records that are in a cache and were not in one before, in order: of a
file loaded for the first time, or once more. -/
def loadedSince (before after : Cache) : List Entry :=
  (after.loaded.entries.filter fun e => before.loaded.get? e.1 ≠ some e.2).map fun e =>
    loadEntry before.policy (before.loaded.contains e.1) e.1 e.2.values

end Cache

namespace Resolver

open Reference

variable {r : Resolver} {w : World} {t t' : Trace} {key n : Text} {v : Value}

/-- The first source that has a key set. -/
def winner? (r : Resolver) (w : World) (t : Trace) (key : Text) : Option Source :=
  Source.all.find? fun s => ¬ (r.heldBy w t key s).IsUnset

/-- The sources that are consulted for a key: those before the winner, and the winner; all of
them when there is none. -/
def consulted (r : Resolver) (w : World) (t : Trace) (key : Text) : List Source :=
  (Source.all.takeWhile fun s => (r.heldBy w t key s).IsUnset) ++ (r.winner? w t key).toList

/-- The entries for what is loaded when a source is asked: only the env file is loaded. -/
def loadedFor (r : Resolver) (w : World) (t : Trace) (s : Source) : List Entry :=
  if s = .envFile then t.cache.loadedSince (r.fetched w t.cache).cache else []

/-- The last entry for a key: which source won, or that the default is used, if there is one. -/
def decided (r : Resolver) (w : World) (t : Trace) (key : Text) (default : Option Value) :
    List Entry :=
  match r.winner? w t key, default with
  | some s, _ => [resolvedEntry s key]
  | none, some _ => [defaultEntry key]
  | none, none => []

/-- What is logged for a key: for each source consulted what it loaded, and that it was
unavailable, if it was; then what was decided. -/
def told (r : Resolver) (w : World) (t : Trace) (key : Text) (default : Option Value) :
    List Entry :=
  ((r.consulted w t key).flatMap fun s => r.loadedFor w t s ++ r.skipped w t key s) ++
    r.decided w t key default

/-- The trace after a look-up. -/
def after (r : Resolver) (w : World) (t : Trace) (key : Text) (default : Option Value) : Trace :=
  ⟨r.cacheAfter w t (r.consulted w t key), t.log ++ r.told w t key default⟩

section

variable {file : Except Failure (Mapping Value)}

end

/-! ## §4. Names inside a value. -/

/-- The value of a name inside another value. -/
def inside (r : Resolver) (w : World) (t : Trace) (n : Text) : Value :=
  (r.worth w t n).toOption.getD .null

/-- The names inside the value of a key, in the order in which they are looked up: each once in
a text, and the items of a list one after the other.  A default has none. -/
def namesIn (r : Resolver) (w : World) (t : Trace) (key : Text) : List Text :=
  match r.winner? w t key with
  | some s => answeredNames (r.heldBy w t key s)
  | none => []

end Resolver

end Cascade
