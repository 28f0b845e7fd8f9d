/-
  Cascade.Source.Cache
  ────────────────────────────────
  **A CACHE OF LOADED FILES.**

  Entries are kept by physical place, so all spellings of a path share one.
  Under the policy `once` the first successful load of a place stands until
  it is dropped.  Under `mtime` an entry stands as long as the file is not
  newer; a file that has vanished drops it, its place being resolved like
  any other path for that.

  Absence is never kept, and a load that fails leaves everything as it was.
  Each load that is kept is logged.
-/
import Cascade.Log.Entry
import Cascade.Source.EnvFile

namespace Cascade

/-- When a cached file is loaded again: never, or when it has become newer. -/
inductive Policy
  | once
  | mtime
  deriving DecidableEq, Repr

namespace Policy

/-- The name of a policy. -/
def name : Policy → Text
  | once => "once"
  | mtime => "mtime"

/-- The small letter of an ASCII capital. -/
def small (c : CodePoint) : CodePoint :=
  if 65 ≤ c.toNat ∧ c.toNat ≤ 90 then .ofNat (c.toNat + 32) else c

/-- The policy of a name, without regard to case and surrounding blanks. -/
def ofName (t : Text) : Except Failure Policy :=
  let name := (Text.trim t).map small
  if name = "once" then .ok once
  else if name = "mtime" then .ok mtime
  else .error (.unknownPolicy t)

end Policy

/-- A loaded file: its place, its modification time when it was loaded, its mapping. -/
structure Cache.Loaded where
  place : Path
  modified : Int
  values : Mapping Value
  deriving DecidableEq, Repr

/-- The files loaded so far, by physical place. -/
structure Cache where
  policy : Policy
  loaded : Table Path Cache.Loaded

/-- The outcome of a request to a cache: its answer, the cache after it, what it logs, and the
place whose file was loaded for it, if one was, be it that the load failed. -/
structure Cache.Fetched where
  answer : Except Failure (Mapping Value)
  cache : Cache
  log : List Entry
  opened : Option Path

namespace Cache

/-- A cache without entries. -/
def new (policy : Policy) : Cache := ⟨policy, .empty⟩

/-- The entry logged for a load. -/
def loadEntry (policy : Policy) (again : Bool) (place : Path)
    (values : Mapping Value) : Entry :=
  { level := .info
    message := "Cached " ++ place.text
    context :=
      [("action", .str (if again then "reload" else "load")),
       ("keys", .int values.size),
       ("policy", .str policy.name)] }

/-- The outcome that answers without a load or a change. -/
def unchanged (c : Cache) (answer : Except Failure (Mapping Value)) : Fetched :=
  ⟨answer, c, [], none⟩

/-- Loads a place whose file has a modification time, and keeps what was loaded. -/
def reload (c : Cache) (w : World) (place : Path) (modified : Int) (again : Bool) :
    Fetched :=
  match EnvFile.load w place with
  | .error failure => ⟨.error failure, c, [], some place⟩
  | .ok values =>
    { answer := .ok values
      cache := { c with loaded := c.loaded.insert place ⟨place, modified, values⟩ }
      log := [loadEntry c.policy again place values]
      opened := some place }

/-- The cache without the entry for a path, and whether there was one. -/
def invalidate (c : Cache) (w : World) (p : Path) : Except Failure (Bool × Cache) :=
  match w.physical p with
  | .error failure => .error failure
  | .ok place =>
    .ok (c.loaded.contains place, { c with loaded := c.loaded.erase place })

/-- The outcome for a place where nothing is: the empty mapping, once the entry it has, if
any, is invalidated. -/
def vanished (c : Cache) (w : World) (place : Path) : Fetched :=
  match c.loaded.get? place with
  | none => c.unchanged (.ok .empty)
  | some _ =>
    match c.invalidate w place with
    | .error failure => c.unchanged (.error failure)
    | .ok (_, c) => c.unchanged (.ok .empty)

/-- The mapping of a physical place. -/
def getAt (c : Cache) (w : World) (place : Path) : Fetched :=
  let held := c.loaded.get? place
  match held, c.policy with
  | some l, .once => c.unchanged (.ok l.values)
  | _, _ =>
    -- no entry stands by itself, so the place is looked at
    match w.modified place with
    | .error .notFound => c.vanished w place
    | .error problem => c.unchanged (.error (EnvFile.unavailable place problem))
    | .ok modified =>
      match held with
      | some l =>
        if modified ≤ l.modified then c.unchanged (.ok l.values)
        else c.reload w place modified true
      | none => c.reload w place modified false

/-- The mapping of the file a path leads to. -/
def get (c : Cache) (w : World) (p : Path) : Fetched :=
  match w.physical p with
  | .error failure => c.unchanged (.error failure)
  | .ok place => c.getAt w place

/-- The entry for a path, if it has one. -/
def entry? (c : Cache) (w : World) (p : Path) : Except Failure (Option Loaded) :=
  match w.physical p with
  | .error failure => .error failure
  | .ok place => .ok (c.loaded.get? place)

/-- The cache without entries. -/
def reset (c : Cache) : Cache := .new c.policy

/-- The number of entries. -/
def size (c : Cache) : Nat := c.loaded.size

/-- The mapping of the nearest file of a name; the empty one when there is none. -/
def find (c : Cache) (w : World) (start name : Path) : Fetched :=
  match EnvFile.locate w start name with
  | .error failure => c.unchanged (.error failure)
  | .ok none => c.unchanged (.ok .empty)
  | .ok (some p) => c.get w p

end Cache

end Cascade
