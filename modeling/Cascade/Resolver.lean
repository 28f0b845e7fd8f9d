/-
  Cascade.Resolver
  ────────────────────────────────
  **RESOLVING KEYS.**

  A key is looked for in three sources, and the first value that is not
  empty wins:

      environment  — the system environment
      env file     — the pinned file, or the nearest one above the start
                     directory
      preferences  — one group of the preference store

  A source that is unavailable is logged and passed over; later sources are
  not consulted once a value is found.  The winning value has its
  references replaced by what their names resolve to, without replacing
  references in THOSE values.  The key `*` stands for the whole env file.

  Reading changes nothing but the cache and the log.
-/
import Cascade.Log.Logger
import Cascade.Reference.Mapping
import Cascade.Settings
import Cascade.Text.Order

namespace Cascade

/-! ## §1. Reading. -/

/-- What reading leaves behind: the cache, and the entries logged so far in order. -/
structure Trace where
  cache : Cache
  log : List Entry

/-- A computation that reads the world, may fail, and leaves a trace also when it fails. -/
abbrev Reading := ReaderT World (ExceptT Failure (StateM Trace))

namespace Reading

/-- Runs a reading. -/
def exec {α : Type} (r : Reading α) (w : World) (t : Trace) : Except Failure α × Trace :=
  r w t

/-- Logs an entry. -/
def log (e : Entry) : Reading Unit := modify fun t => { t with log := t.log ++ [e] }

/-- An answer that is already known. -/
def ofExcept {α : Type} : Except Failure α → Reading α
  | .ok a => pure a
  | .error failure => throw failure

/-- Makes a request to the cache. -/
def fetch (request : World → Cache → Cache.Fetched) : Reading (Mapping Value) := do
  let w ← read
  let t ← get
  let fetched := request w t.cache
  set (Trace.mk fetched.cache (t.log ++ fetched.log))
  ofExcept fetched.answer

/-- The answer of a reading, or what `handle` makes of an unavailable source. -/
def orUnavailable {α : Type} (r : Reading α) (handle : Text → Text → Reading α) :
    Reading α :=
  tryCatch r fun
    | .unavailable source reason => handle source reason
    | failure => throw failure

end Reading

/-! ## §2. Resolvers. -/

/-- What a resolver reads from. -/
structure Resolver where
  secrets : Secrets
  preferences : Preferences
  start : Option Path
  pinned : Option Path
  filename : Text
  group : Text

/-- A source of values. -/
inductive Source
  | environment
  | envFile
  | preferences
  deriving DecidableEq, Repr

/-- The name of a source. -/
def Source.name : Source → Text
  | .environment => "environment"
  | .envFile => "env file"
  | .preferences => "preferences"

/-- The sources in order of priority. -/
def Source.all : List Source := [.environment, .envFile, .preferences]

namespace Resolver

/-- The key that stands for the whole env file. -/
def wildcard : Text := "*"

/-- The directory a search starts from. -/
def searchDir (r : Resolver) (w : World) : Except Failure Path :=
  match r.start with
  | some p => .ok p
  | none => w.here

/-- The mapping of the pinned or nearest env file. -/
def fileValues (r : Resolver) : Reading (Mapping Value) :=
  Reading.fetch fun w c =>
    match r.pinned with
    | some p => c.get w p
    | none =>
      match r.searchDir w with
      | .error failure => c.unchanged (.error failure)
      | .ok start => c.find w start (Path.ofText r.filename)

/-- What a source holds for a key. -/
def consult (r : Resolver) (key : Text) : Source → Reading (Option Value)
  | .environment => do
    let w ← read
    match r.secrets.ask w.environ key with
    | .error fault => throw (.variable fault)
    | .ok value? => return value?.map Value.str
  | .envFile => do
    let values ← r.fileValues
    return values.get? key
  | .preferences => do
    let w ← read
    Reading.ofExcept (r.preferences.get? w r.group key)

/-- The entry for a source that is passed over. -/
def skippedEntry (source : Source) (key path reason : Text) : Entry :=
  { level := .warn
    message := source.name ++ " unavailable, skipping"
    context := [("key", .str key), ("path", .str path), ("reason", .str reason)] }

/-- The entry for a key that was found. -/
def resolvedEntry (source : Source) (key : Text) : Entry :=
  { level := .debug
    message := key ++ " resolved"
    context := [("key", .str key), ("source", .str source.name)] }

/-- The entry for a key whose default is used. -/
def defaultEntry (key : Text) : Entry :=
  { level := .debug
    message := key ++ " undefined, using default"
    context := [("key", .str key)] }

/-- What a source holds for a key; nothing when it is unavailable, which is logged. -/
def consultOrSkip (r : Resolver) (key : Text) (source : Source) : Reading (Option Value) :=
  (r.consult key source).orUnavailable fun path reason => do
    Reading.log (skippedEntry source key (Path.ofText path).text reason)
    return none

/-- The first value for a key that is not empty, in sources taken in order. -/
def firstSet (r : Resolver) (key : Text) : List Source → Reading (Option Value)
  | [] => return none
  | source :: rest => do
    let v := (← r.consultOrSkip key source).getD .null
    if v.isEmpty then r.firstSet key rest
    else
      Reading.log (resolvedEntry source key)
      return some v

/-- The default of a key, when it has one. -/
def orDefault (key : Text) : Option Value → Reading Value
  | some v => do
    Reading.log (defaultEntry key)
    return v
  | none => throw (.missing key)

/-- The value of a key as the sources hold it. -/
def rawValue (r : Resolver) (key : Text) (default : Option Value) : Reading Value := do
  match ← r.firstSet key Source.all with
  | some v => return v
  | none => orDefault key default

/-- The text of a value; a value without one is a failure. -/
def textOf (v : Value) : Reading Text :=
  match v.inserted? with
  | some t => pure t
  | none => throw (.unwritable .tooManyDigits)

/-! ## §3. The whole file. -/

/-- The entry for an env file that cannot be read as a whole. -/
def fileUnavailableEntry (path reason : Text) : Entry :=
  { level := .warn
    message := "env file unavailable"
    context := [("path", .str path), ("reason", .str reason)] }

/-- The names referenced in a mapping but not defined in it, in order. -/
def outsideNames (values : Mapping Value) : List Text :=
  Text.sortBy id ((Reference.names values.values).filter fun n => !values.contains n)

/-- What names not found in any source are worth inside other values: nothing. -/
def undefinedValue : Value := .str []

/-- The raw value of a name referenced inside another value. -/
def outsideValue (r : Resolver) (name : Text) : Reading Value :=
  r.rawValue name (some undefinedValue)

/-- The names and values for a list of names, asked one after the other. -/
def valuesOf (r : Resolver) : List Text → Reading (List (Text × Value))
  | [] => return []
  | name :: rest => do
    let v ← r.outsideValue name
    return (name, v) :: (← r.valuesOf rest)

/-- The mapping of the env file, or nothing when it is unavailable, which is logged. -/
def availableFile (r : Resolver) : Reading (Option (Mapping Value)) :=
  (some <$> r.fileValues).orUnavailable fun path reason => do
    Reading.log (fileUnavailableEntry (Path.ofText path).text reason)
    return none

/-- The whole env file.  With `interpolate`, references between its keys are followed, and
the names it references without defining them are added with their raw values. -/
def all (r : Resolver) (interpolate : Bool) : Reading (Mapping Value) := do
  match ← r.availableFile with
  | none => return .empty
  | some values =>
    if interpolate then
      let outside ← r.valuesOf (outsideNames values)
      match Reference.expandMapping values fun n => Entries.get? n outside with
      | some expanded => return expanded.insertAll outside
      | none => throw (.unwritable .tooManyDigits)
    else return values

/-! ## §4. Single keys. -/

/-- The value of a key.  A default is answered as it is; only a value from a source has
its references replaced. -/
def value (r : Resolver) (key : Text) (default : Option Value) (interpolate : Bool) :
    Reading Value := do
  match ← r.firstSet key Source.all with
  | none => orDefault key default
  | some v =>
    Reference.expandValueIf interpolate
      (fun name => do return some (← textOf (← r.outsideValue name))) v

/-- The value of a key, or the whole file for the key `*`. -/
def env (r : Resolver) (key : Text) (default : Option Value) (interpolate : Bool) :
    Reading Value :=
  if key = wildcard then do return .object (← r.all interpolate).entries
  else r.value key default interpolate

/-- The printed form of a value. -/
def displayed (v : Value) : Except Failure Text :=
  match v.display? with
  | some t => .ok t
  | none => .error (.unwritable .tooManyDigits)

/-- What is printed, and the failure that ended the printing, if one did: what was printed
before it stays printed. -/
structure Printed where
  text : Text
  ended : Except Failure Unit

/-- The lines `key=value` of entries, in order, up to the first value that cannot be
printed. -/
def listing : List (Text × Value) → Printed
  | [] => ⟨[], .ok ()⟩
  | (key, v) :: rest =>
    match displayed v with
    | .error failure => ⟨[], .error failure⟩
    | .ok text =>
      let more := listing rest
      ⟨key ++ "=" ++ text ++ "\n" ++ more.text, more.ended⟩

/-- The entry for a key that is not shown. -/
def nothingToShowEntry (key : Text) : Entry :=
  { level := .debug
    message := key ++ " undefined, nothing to show"
    context := [("key", .str key)] }

/-- What is printed for a key: its value and a line feed, nothing when it is missing, or
the listing of the whole file for the key `*`.  Text is printed as it is, whatever the
encoding of the stream it goes to. -/
def shown (r : Resolver) (key : Text) (default : Option Value) (interpolate : Bool) :
    Reading Printed :=
  if key = wildcard then do
    return listing (Text.sortBy Prod.fst (← r.all interpolate).entries)
  else
    tryCatch
      (do
        let text ← Reading.ofExcept (displayed (← r.value key default interpolate))
        return ⟨text ++ "\n", .ok ()⟩)
      fun
      | .missing _ => do
        Reading.log (nothingToShowEntry key)
        return ⟨[], .ok ()⟩
      | failure => throw failure

/-! ## §5. Building. -/

/-- A resolver, its logger and its empty cache, from settings. -/
structure Built where
  resolver : Resolver
  logger : Logger
  policy : Policy

/-- Wires a resolver.  A logger or a store that is given is used as it is; otherwise it is
made as the settings say. -/
def build (w : World) (s : Secrets) (settings : Settings) (logger : Option Logger)
    (preferences : Option Preferences) : Except Failure Built := do
  let logger ← match logger with
    | some l => pure l
    | none => do
      let factory ← LoggerFactory.new settings.loggerKind (some s)
      Prod.fst <$> factory.create w.environ none
  let preferences ← match preferences with
    | some p => pure p
    | none => Preferences.make w s settings.preferencesKind
  return {
    resolver := {
      secrets := s
      preferences
      start := none
      pinned := settings.pinned
      filename := settings.filename
      group := settings.group }
    logger
    policy := settings.policy }

end Resolver

end Cascade
