/-
  Cascade.Settings
  ────────────────────────────────
  **SETTINGS AND NAMED IMPLEMENTATIONS.**

  The settings of a resolver come from the system environment; the command
  line may replace some of them.  A setting that is not valid fails in a
  fixed order: the cache policy, the pinned file, then (when a resolver is
  built) the logger and the preference store.
-/
import Cascade.Secrets
import Cascade.Source.Cache
import Cascade.Source.Preferences

namespace Cascade

/-- The settings of a resolver. -/
structure Settings where
  policy : Policy
  preferencesKind : Text
  group : Text
  filename : Text
  pinned : Option Path
  loggerKind : Text
  deriving DecidableEq, Repr

namespace Settings

/-- The settings in an environment. -/
def ofSecrets (w : World) (s : Secrets) : Except Failure Settings := do
  let read := s.getD w.environ
  let policy ← Policy.ofName (read "ENVCHAIN_CACHE_POLICY" "once")
  let pinned ← match s.get? w.environ "ENVCHAIN_ENV_FILE" with
    | none => pure none
    | some t => some <$> w.expandHome (Path.ofText t)
  return {
    policy
    preferencesKind := read "ENVCHAIN_PREFS" "json"
    group := read "ENVCHAIN_PREF_GROUP" "env"
    filename := read "ENVCHAIN_FILENAME" EnvFile.defaultName
    pinned
    loggerKind := read "LOG_IMPL" "pretty" }

end Settings

/-- A kind of thing that is chosen by name: for now only preference stores. -/
inductive Implementation
  | memoryPreferences
  | documentPreferences
  deriving DecidableEq, Repr

namespace Implementation

/-- The implementation a flag and a name stand for. -/
def resolve (flag name : Text) : Except Failure Implementation :=
  if flag = "prefs" then
    if name = "memory" then .ok memoryPreferences
    else if name = "json" then .ok documentPreferences
    else .error (.unknownImplementation flag name Preferences.kinds)
  else .error (.unknownFlag flag)

/-- The store of an implementation, with its settings from secrets. -/
def makePreferences (w : World) (s : Secrets) : Implementation → Except Failure Preferences
  | .memoryPreferences => .ok (.memory .empty)
  | .documentPreferences =>
    Preferences.documentAt w (s.getD w.environ "ENVCHAIN_PREFS_PATH" Preferences.defaultPath)

end Implementation

/-- The preference store of a named kind. -/
def Preferences.make (w : World) (s : Secrets) (kind : Text) : Except Failure Preferences := do
  (← Implementation.resolve "prefs" kind).makePreferences w s

end Cascade
