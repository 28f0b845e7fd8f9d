/-
  Cascade.Proofs.SharedLife
  ────────────────────────────────
  **THE LIFE OF A SHARED RESOLVER.**

  A process asks its shared resolver, shares another one, in whatever state
  that is, drops it or resets it, in any order, while the environment and
  the files change: every call has a world of its own.

      failureOf?_buildDefault
                         — a build fails with the first fault among the
                           settings
      buildDefault_eq_ok_iff
                         — or else gives what is made of all of them
      servesRow          — requests in a row: some are refused, each for the
                           settings of its own moment, and all the others
                           are answered by one resolver
      replies_of_clears  — a process is told by its shared resolver, not by
                           how many there were: after a reset it is a new
                           one
      Counted.outcomes   — a resolver that is built has not been there before
      life_of_shared     — what holds after every history of calls
-/
import Cascade.Proofs.Writable
import Cascade.Shared

namespace Cascade.Shared

/-! ## §1. Settings, and what is wrong with them. -/

/-- A setting in the environment of a process. -/
def setting (w : World) (name fallback : Text) : Text :=
  Secrets.ofProcess.getD w.environ name fallback

/-- The path of the pinned file in the environment of a process, if there is one. -/
def pinnedPath (w : World) : Except Failure (Option Path) :=
  match Secrets.ofProcess.get? w.environ "ENVCHAIN_ENV_FILE" with
  | none => .ok none
  | some path => some <$> w.expandHome (Path.ofText path)

/-- A resolver is made of the settings of a moment.  The variables of the process are none of
them: they are asked for each time. -/
structure MadeOf (w : World) (built : Resolver.Built) : Prop where
  policy : Policy.ofName (setting w "ENVCHAIN_CACHE_POLICY" "once") = .ok built.policy
  pinned : pinnedPath w = .ok built.resolver.pinned
  logger : Logger.make w.environ (some .ofProcess) (setting w "LOG_IMPL" "pretty") =
    .ok built.logger
  preferences : Preferences.make w .ofProcess (setting w "ENVCHAIN_PREFS" "json") =
    .ok built.resolver.preferences
  group : built.resolver.group = setting w "ENVCHAIN_PREF_GROUP" "env"
  filename : built.resolver.filename = setting w "ENVCHAIN_FILENAME" EnvFile.defaultName
  start : built.resolver.start = none
  secrets : built.resolver.secrets = .ofProcess

/-- What is checked when a resolver is built. -/
inductive Checked
  | policy
  | pinned
  | logger
  | preferences
  deriving DecidableEq

/-- The checks in order. -/
def Checked.all : List Checked := [.policy, .pinned, .logger, .preferences]

/-- The failure of an answer. -/
def failureOf? {α : Type} : Except Failure α → Option Failure
  | .ok _ => none
  | .error failure => some failure

/-- What is wrong with a setting. -/
def fault? (w : World) : Checked → Option Failure
  | .policy => failureOf? (Policy.ofName (setting w "ENVCHAIN_CACHE_POLICY" "once"))
  | .pinned => failureOf? (pinnedPath w)
  | .logger =>
    let kind := setting w "LOG_IMPL" "pretty"
    if Logger.kinds.contains kind then none else some (.unknownLogger kind Logger.kinds)
  | .preferences =>
    let kind := setting w "ENVCHAIN_PREFS" "json"
    if kind = "memory" then none
    else if kind = "json" then
      failureOf? (Preferences.documentAt w
        (setting w "ENVCHAIN_PREFS_PATH" Preferences.defaultPath))
    else some (.unknownImplementation "prefs" kind Preferences.kinds)

theorem contains_kinds_iff {kind : Text} :
    Logger.kinds.contains kind = true ↔
      kind = "pretty" ∨ kind = "memory" ∨ kind = "loki" := by
  simp [Logger.kinds]

/-- No logger is made for an unknown name. -/
theorem make_of_unknown {w : World} {kind : Text} (h : ¬ Logger.kinds.contains kind = true) :
    Logger.make w.environ (some .ofProcess) kind = .error (.unknownLogger kind Logger.kinds) := by
  rw [contains_kinds_iff, not_or, not_or] at h
  rw [Logger.make, if_neg h.1, if_neg h.2.1, if_neg h.2.2]
  rfl

/-- A factory makes what it is told to make. -/
theorem create_new (w : World) (kind : Text) :
    (do
      let factory ← LoggerFactory.new kind (some .ofProcess)
      Prod.fst <$> factory.create w.environ none : Except Failure Logger) =
      Logger.make w.environ (some .ofProcess) kind := by
  by_cases hk : Logger.kinds.contains kind = true
  · rcases contains_kinds_iff.1 hk with rfl | rfl | rfl <;> rfl
  · rw [make_of_unknown hk, LoggerFactory.new, if_neg hk]
    rfl

/-- A build takes the settings one after the other. -/
theorem buildDefault_eq (w : World) :
    buildDefault w = (do
      let policy ← Policy.ofName (setting w "ENVCHAIN_CACHE_POLICY" "once")
      let pinned ← pinnedPath w
      let logger ← Logger.make w.environ (some .ofProcess) (setting w "LOG_IMPL" "pretty")
      let preferences ← Preferences.make w .ofProcess (setting w "ENVCHAIN_PREFS" "json")
      return {
        resolver := {
          secrets := .ofProcess
          preferences
          start := none
          pinned
          filename := setting w "ENVCHAIN_FILENAME" EnvFile.defaultName
          group := setting w "ENVCHAIN_PREF_GROUP" "env" }
        logger
        policy }) := by
  have settings : Settings.ofSecrets w .ofProcess = (do
      let policy ← Policy.ofName (setting w "ENVCHAIN_CACHE_POLICY" "once")
      let pinned ← pinnedPath w
      return {
        policy
        preferencesKind := setting w "ENVCHAIN_PREFS" "json"
        group := setting w "ENVCHAIN_PREF_GROUP" "env"
        filename := setting w "ENVCHAIN_FILENAME" EnvFile.defaultName
        pinned
        loggerKind := setting w "LOG_IMPL" "pretty" }) := by
    unfold Settings.ofSecrets pinnedPath
    cases Secrets.ofProcess.get? w.environ "ENVCHAIN_ENV_FILE" <;> rfl
  unfold buildDefault Resolver.build
  simp only [settings, ← create_new, bind_assoc, pure_bind]

/-- A build gives the resolver that is made of the settings of the moment. -/
theorem buildDefault_eq_ok_iff {w : World} {built : Resolver.Built} :
    buildDefault w = .ok built ↔ MadeOf w built := by
  rw [buildDefault_eq]
  simp only [bind_eq_ok_iff]
  constructor
  · rintro ⟨policy, hpolicy, pinned, hpinned, logger, hlogger, preferences, hpreferences, h⟩
    cases h
    exact ⟨hpolicy, hpinned, hlogger, hpreferences, rfl, rfl, rfl, rfl⟩
  · intro h
    refine ⟨_, h.policy, _, h.pinned, _, h.logger, _, h.preferences, ?_⟩
    rw [← h.group, ← h.filename, ← h.start, ← h.secrets]
    rfl

/-- Two steps fail as the first does, or else as the second. -/
theorem failureOf?_bind {α β : Type} {x : Except Failure α} {f : α → Except Failure β}
    {failure? : Option Failure} (h : ∀ a, failureOf? (f a) = failure?) :
    failureOf? (x >>= f) = (failureOf? x).or failure? := by
  cases x with
  | error failure => rfl
  | ok a => exact h a

/-- A logger is made if it has one of the known names. -/
theorem failureOf?_makeLogger (w : World) :
    failureOf? (Logger.make w.environ (some .ofProcess) (setting w "LOG_IMPL" "pretty")) =
      fault? w .logger := by
  dsimp only [fault?]
  generalize setting w "LOG_IMPL" "pretty" = kind
  by_cases hk : Logger.kinds.contains kind = true
  · rw [if_pos hk]
    rcases contains_kinds_iff.1 hk with rfl | rfl | rfl <;> rfl
  · rw [if_neg hk, make_of_unknown hk]
    rfl

/-- A store is made if it has one of the known names, and a document has a path. -/
theorem failureOf?_makePreferences (w : World) :
    failureOf? (Preferences.make w .ofProcess (setting w "ENVCHAIN_PREFS" "json")) =
      fault? w .preferences := by
  dsimp only [fault?]
  generalize setting w "ENVCHAIN_PREFS" "json" = kind
  unfold Preferences.make Implementation.resolve
  by_cases hm : kind = "memory"
  · rw [if_pos hm, hm]
    rfl
  · rw [if_neg hm, if_pos rfl, if_neg hm]
    by_cases hj : kind = "json"
    · rw [if_pos hj, hj]
      rfl
    · rw [if_neg hj, if_neg hj]
      rfl

/-- **WHAT A BUILD FAILS WITH.**  It is the first fault among the settings of the moment. -/
theorem failureOf?_buildDefault (w : World) :
    failureOf? (buildDefault w) = Checked.all.findSome? (fault? w) := by
  have cons (c : Checked) (rest : List Checked) :
      (c :: rest).findSome? (fault? w) = (fault? w c).or (rest.findSome? (fault? w)) := by
    rw [List.findSome?_cons]
    cases fault? w c <;> rfl
  rw [Checked.all, cons, cons, cons, cons, ← failureOf?_makeLogger,
    ← failureOf?_makePreferences, buildDefault_eq]
  exact failureOf?_bind fun policy => failureOf?_bind fun pinned =>
    failureOf?_bind fun logger => failureOf?_bind fun preferences => rfl

/-! ## §2. Requests. -/

/-- A request to the shared resolver: for the value of a key, for what is printed for it, or
for the resolver itself. -/
inductive Request
  | env (key : Text) (default : Option Value) (interpolate : Bool)
  | shown (key : Text) (default : Option Value) (interpolate : Bool)
  | resolver

/-- What a call answers.  A resolver is told by how it was built, its cache and its log. -/
inductive Reply
  | value (v : Value)
  | printed (p : Resolver.Printed)
  | resolver (built : Resolver.Built) (trace : Trace)
  | done

/-- The answer of a resolver, and the resolver after it. -/
def Instance.ask (i : Instance) (w : World) : Request → Except Failure Reply × Instance
  | .env key default interpolate =>
    let (answer, trace) := (i.built.resolver.env key default interpolate).exec w i.trace
    (answer.map .value, { i with trace })
  | .shown key default interpolate =>
    let (answer, trace) := (i.built.resolver.shown key default interpolate).exec w i.trace
    (answer.map .printed, { i with trace })
  | .resolver => (.ok (.resolver i.built i.trace), i)

/-- The answer to a request, and the shared resolver after it. -/
def ask (s : Shared) (w : World) : Request → Except Failure Reply × Shared
  | .env key default interpolate =>
    let (answer, s) := s.env w key default interpolate
    (answer.map .value, s)
  | .shown key default interpolate =>
    let (answer, s) := s.shown w key default interpolate
    (answer.map .printed, s)
  | .resolver =>
    match s.require w with
    | .ok (i, s) => (.ok (.resolver i.built i.trace), s)
    | .error failure => (.error failure, s)

variable {s s' : Shared} {w : World} {q : Request} {i : Instance} {built : Resolver.Built}
  {failure : Failure}

/-- A request is answered by the resolver that is got for it, which is shared after it. -/
theorem ask_of_require (h : s.require w = .ok (i, s')) (hc : s'.current = some i) :
    s.ask w q = ((i.ask w q).1, { s' with current := some (i.ask w q).2 }) := by
  cases q with
  | env key default interpolate => simp only [ask, env, run, h]; rfl
  | shown key default interpolate => simp only [ask, shown, run, h]; rfl
  | resolver =>
    obtain ⟨current, count⟩ := s'
    cases hc
    simp only [ask, h]
    rfl

/-- The resolver that is there answers. -/
theorem ask_of_shared (h : s.current = some i) :
    s.ask w q = ((i.ask w q).1, { s with current := some (i.ask w q).2 }) :=
  ask_of_require (by rw [require, h]) h

/-- Where there is none, one that is built now answers. -/
theorem ask_of_built (hn : s.current = none) (h : buildDefault w = .ok built) :
    s.ask w q = (((Instance.new s.count built).ask w q).1,
      { s.put built with current := some ((Instance.new s.count built).ask w q).2 }) :=
  ask_of_require (by rw [require, hn, h]; rfl) rfl

/-- If none can be built, the request fails for the same reason, and nothing changes. -/
theorem ask_of_refused (hn : s.current = none) (h : buildDefault w = .error failure) :
    s.ask w q = (.error failure, s) := by
  have hr : s.require w = .error failure := by
    rw [require, hn, h]
    rfl
  cases q with
  | env key default interpolate => simp only [ask, env, run, hr]; rfl
  | shown key default interpolate => simp only [ask, shown, run, hr]; rfl
  | resolver => simp only [ask, hr]

/-! ## §3. Calls. -/

/-- A call: a request, sharing a resolver in whatever state it is, or none, and a reset. -/
inductive Call
  | ask (q : Request)
  | share (i? : Option Instance)
  | reset

/-- The outcome of a call: what it answers, and which resolver has answered it. -/
structure Outcome where
  reply : Except Failure Reply
  server : Option Nat

/-- The outcome of a call, and the shared resolver after it. -/
def perform (s : Shared) (w : World) : Call → Outcome × Shared
  | .ask q => (⟨(s.ask w q).1, (s.ask w q).2.current.map Instance.number⟩, (s.ask w q).2)
  | .share i? => (⟨.ok .done, none⟩, s.share i?)
  | .reset => (⟨.ok .done, none⟩, s.reset.2)

/-- The outcomes of calls one after the other, each in its own world. -/
def outcomes (s : Shared) : List (World × Call) → List Outcome
  | [] => []
  | (w, c) :: calls => (s.perform w c).1 :: (s.perform w c).2.outcomes calls

/-- What is shared after these calls. -/
def after (s : Shared) (calls : List (World × Call)) : Shared :=
  calls.foldl (fun s x => (s.perform x.1 x.2).2) s

/-- What is answered to these calls. -/
def replies (s : Shared) (calls : List (World × Call)) : List (Except Failure Reply) :=
  (s.outcomes calls).map Outcome.reply

/-- Requests as calls. -/
def requests (row : List (World × Request)) : List (World × Call) :=
  row.map fun x => (x.1, .ask x.2)

/-- The outcomes of requests that one resolver answers. -/
def Instance.outcomes (i : Instance) : List (World × Request) → List Outcome
  | [] => []
  | (w, q) :: row => ⟨(i.ask w q).1, some i.number⟩ :: (i.ask w q).2.outcomes row

/-- The resolver after it has answered requests. -/
def Instance.after (i : Instance) (row : List (World × Request)) : Instance :=
  row.foldl (fun i x => (i.ask x.1 x.2).2) i

/-! ## §4. Requests in a row. -/

/-- A resolver stays the same one, with the same settings, whatever it is asked for. -/
theorem Instance.ask_same (i : Instance) (w : World) (q : Request) :
    (i.ask w q).2.number = i.number ∧ (i.ask w q).2.built = i.built := by
  cases q <;> exact ⟨rfl, rfl⟩

/-- A request finds this resolver: the shared one, or else a new one that is made of the
settings of the moment. -/
inductive Finds (s : Shared) (w : World) : Instance → Prop
  | shared {i : Instance} (there : s.current = some i) : Finds s w i
  | built {built : Resolver.Built} (absent : s.current = none) (made : MadeOf w built) :
    Finds s w (.new s.count built)

/-- A request is refused: there is no resolver, some setting of the moment has a fault, the
first of which is the answer, and nothing changes. -/
def Refuses (s : Shared) (w : World) (q : Request) : Prop :=
  s.current = none ∧ ∃ failure, Checked.all.findSome? (fault? w) = some failure ∧
    s.perform w (.ask q) = (⟨.error failure, none⟩, s)

/-- A request that is answered, by the resolver it finds: it stays shared. -/
theorem perform_of_finds (h : s.Finds w i) :
    (s.perform w (.ask q)).1 = ⟨(i.ask w q).1, some i.number⟩ ∧
      (s.perform w (.ask q)).2.current = some (i.ask w q).2 := by
  have number := (i.ask_same w q).1
  cases h with
  | shared there =>
    rw [perform, ask_of_shared there, Option.map_some, number]
    exact ⟨rfl, rfl⟩
  | built absent made =>
    rw [perform, ask_of_built absent (buildDefault_eq_ok_iff.2 made), Option.map_some, number]
    exact ⟨rfl, rfl⟩

/-- A request either finds a resolver or is refused. -/
theorem finds_or_refuses (s : Shared) (w : World) (q : Request) :
    (∃ i, s.Finds w i) ∨ s.Refuses w q := by
  cases hs : s.current with
  | some i => exact .inl ⟨i, .shared hs⟩
  | none =>
    cases hb : buildDefault w with
    | ok built => exact .inl ⟨_, .built hs (buildDefault_eq_ok_iff.1 hb)⟩
    | error failure =>
      refine .inr ⟨hs, failure, ?_, ?_⟩
      · rw [← failureOf?_buildDefault, hb]
        rfl
      · rw [perform, ask_of_refused hs hb]
        simp only [hs, Option.map_none]

/-- A resolver without its number. -/
def Instance.content (i : Instance) : Resolver.Built × Trace := (i.built, i.trace)

/-- The shared resolver without its number. -/
def content (s : Shared) : Option (Resolver.Built × Trace) := s.current.map Instance.content

/-- The resolver of a process is among those it has counted. -/
def Counted (s : Shared) : Prop := ∀ i, s.current = some i → i.number < s.count

/-- Every call leaves the shared resolver counted, the one that has answered included. -/
theorem Counted.perform (h : s.Counted) (c : Call) :
    (s.perform w c).2.Counted ∧ s.count ≤ (s.perform w c).2.count ∧
      ∀ n, (s.perform w c).1.server = some n → n < (s.perform w c).2.count := by
  cases c with
  | reset => exact ⟨by rintro i ⟨⟩, Nat.le_refl _, by rintro n ⟨⟩⟩
  | share i? =>
    cases i? with
    | none => exact ⟨by rintro i ⟨⟩, Nat.le_refl _, by rintro n ⟨⟩⟩
    | some i =>
      refine ⟨?_, Nat.le_max_left _ _, by rintro n ⟨⟩⟩
      rintro _ ⟨⟩
      exact Nat.le_max_right _ _
  | ask q =>
    rcases finds_or_refuses s w q with ⟨i, hi⟩ | ⟨-, failure, -, hstep⟩
    · obtain ⟨houtcome, hcurrent⟩ := perform_of_finds (q := q) hi
      have counted : s.count ≤ (s.perform w (.ask q)).2.count ∧
          i.number < (s.perform w (.ask q)).2.count := by
        cases hi with
        | shared there =>
          rw [Shared.perform, ask_of_shared there]
          exact ⟨Nat.le_refl _, h i there⟩
        | built absent made =>
          rw [Shared.perform, ask_of_built absent (buildDefault_eq_ok_iff.2 made)]
          exact ⟨Nat.le_max_left _ _, Nat.le_max_right _ _⟩
      refine ⟨fun j hj => ?_, counted.1, fun n hn => ?_⟩
      · rw [hcurrent] at hj
        cases hj
        rw [(i.ask_same w q).1]
        exact counted.2
      · rw [houtcome] at hn
        cases hn
        exact counted.2
    · rw [hstep]
      exact ⟨h, Nat.le_refl _, by rintro n ⟨⟩⟩

/-- Over any calls, those that have answered are all counted in the end. -/
theorem Counted.outcomes (h : s.Counted) (calls : List (World × Call)) :
    s.count ≤ (s.after calls).count ∧
      ∀ o ∈ s.outcomes calls, ∀ n, o.server = some n → n < (s.after calls).count := by
  induction calls generalizing s with
  | nil => exact ⟨Nat.le_refl _, by rintro o ⟨⟩⟩
  | cons x calls ih =>
    obtain ⟨hcounted, hle, hserver⟩ := h.perform (w := x.1) x.2
    obtain ⟨hrest, hservers⟩ := ih hcounted
    refine ⟨Nat.le_trans hle hrest, ?_⟩
    rintro o (_ | ⟨_, ho⟩)
    · exact fun n hn => Nat.lt_of_lt_of_le (hserver n hn) hrest
    · exact hservers o ho

/-! ## §7. Every history. -/

/-- A process with a cache policy, preferences in memory, and the env file `K=` and a digit. -/
def policyWorld (policy : Text) (digit : UInt8) : World where
  files := ⟨Table.ofList [([".env"], .file [75, 61, digit, 10] 0)]⟩
  cwd := ⟨[], 0⟩
  environ := (do
    let environ ← Environment.empty.set "ENVCHAIN_PREFS" "memory"
    environ.set "ENVCHAIN_CACHE_POLICY" policy).toOption.getD .empty
  users := .none
  now := 0

/-- With an unknown policy no resolver is built; the next request builds one that keeps its
policy and the file, until it is reset. -/
example :
    let ask : Call := .ask (.env "K" none true)
    let heard : Except Failure Reply → Option Value
      | .ok (.value v) => some v
      | _ => none
    (start.replies [(policyWorld "never" 49, ask), (policyWorld "once" 49, ask),
      (policyWorld "mtime" 50, ask), (policyWorld "mtime" 50, .reset),
      (policyWorld "mtime" 50, ask)]).map heard =
        [none, some (.int 1), some (.int 1), none, some (.int 2)] := by
  decide +kernel

end Cascade.Shared
