/-
  Cascade.Log.Logger
  ────────────────────────────────
  **CHOOSING A LOGGER.**

  Three kinds: `pretty` writes lines for people, `memory` keeps entries,
  `loki` pushes to a server.  A factory makes each kind at most once and
  gives the same instance again.  Settings are read when a logger is made,
  through the secrets it is given, or from the process itself.
-/
import Cascade.Failure
import Cascade.Log.Loki
import Cascade.Secrets

namespace Cascade

/-- A logger with its settings. -/
inductive Logger
  | memory
  | pretty (threshold : Level)
  | loki (settings : Loki)
  deriving DecidableEq, Repr

namespace Logger

/-- The names of the kinds of logger. -/
def kinds : List Text := ["pretty", "memory", "loki"]

/-- The name under which a logger reports its own failures. -/
def title : Logger → Text
  | memory => "MemoryLogger"
  | pretty _ => "PrettyLogger"
  | loki _ => "LokiLogger"

/-- An entry, unless a logger cannot take it for the name of a context value. -/
def accept (l : Logger) (e : Entry) : Except Failure Entry :=
  match e.reservedName? with
  | some name => .error (.reservedName l.title e.level name)
  | none => .ok e

/-- A pretty logger for a level given directly; without one, the variable LOG_LEVEL of the
process, even an empty one. -/
def prettyAt (process : Environment) (level : Option Text) : Logger :=
  match level with
  | some (c :: cs) => .pretty (Level.ofName (c :: cs))
  | _ => .pretty (Level.ofName ((process.get? "LOG_LEVEL").getD "WARN"))

/-- A pretty logger with its settings from secrets. -/
def prettyFrom (process : Environment) (s : Secrets) : Logger :=
  prettyAt process (some (s.getD process "LOG_LEVEL" "WARN"))

/-- A Loki logger with its settings from secrets. -/
def lokiFrom (process : Environment) (s : Secrets) : Loki :=
  let url := s.getD process "LOKI_URL" "http://localhost:3100"
  { pushUrl := Text.dropEnd '/' url ++ "/loki/api/v1/push"
    service := s.getD process "LOKI_SERVICE" "envchain"
    environment := s.getD process "LOKI_ENVIRONMENT" "development"
    threshold := Level.ofName (s.getD process "LOKI_LEVEL" "INFO") }

/-- The failure for a name that is no kind of logger. -/
def unknown (name : Text) : Failure := .unknownLogger name kinds

/-- A new logger of a kind. -/
def make (process : Environment) (secrets : Option Secrets) (name : Text) :
    Except Failure Logger :=
  if name = "pretty" then
    .ok (match secrets with
      | some s => prettyFrom process s
      | none => prettyAt process none)
  else if name = "memory" then .ok .memory
  else if name = "loki" then .ok (.loki (lokiFrom process (secrets.getD .ofProcess)))
  else .error (unknown name)

end Logger

/-- A maker of loggers: the kind it makes unless told otherwise, where settings come from,
and the instances made so far. -/
structure LoggerFactory where
  fallback : Text
  secrets : Option Secrets
  instances : Mapping Logger

namespace LoggerFactory

/-- A factory that has made nothing yet. -/
def new (fallback : Text) (secrets : Option Secrets) : Except Failure LoggerFactory :=
  if Logger.kinds.contains fallback then .ok ⟨fallback, secrets, .empty⟩
  else .error (Logger.unknown fallback)

/-- The kind that a request is for: the one named, unless that is empty. -/
def kindOf (f : LoggerFactory) (name : Option Text) : Text :=
  match name with
  | some (c :: cs) => c :: cs
  | _ => f.fallback

/-- The logger of a kind, made now if there is none yet. -/
def create (f : LoggerFactory) (process : Environment) (name : Option Text) :
    Except Failure (Logger × LoggerFactory) :=
  let kind := f.kindOf name
  match f.instances.get? kind with
  | some logger => .ok (logger, f)
  | none => do
    let logger ← Logger.make process f.secrets kind
    return (logger, { f with instances := f.instances.insert kind logger })

end LoggerFactory

end Cascade
