/-
  Cascade.Proofs.LogThreshold
  ────────────────────────────────
  **TWO WAYS TO A THRESHOLD.**

  A pretty logger takes its threshold from LOG_LEVEL: from the process when
  it is made without a level, or through secrets.  The two apply the default
  WARN differently.  The process gives it only when the variable is not
  there; secrets count an empty value as undefined and give it then, too.
  An empty value that is not replaced names no level, and so means INFO.

  So the two loggers are the same for every value but the empty one, and
  for that one they differ on the calls of level INFO, and on no others:

      prettyAt_none         — the threshold without secrets
      prettyFrom_ofProcess  — the threshold with the secrets of the process
      output_pretty_eq_iff  — two thresholds, one call
      outputs_agree_iff     — the two loggers, any calls
-/
import Cascade.Log.Logger
import Cascade.Log.Pretty

namespace Cascade.Logger

open Cascade.Text

/-! ## §1. What a logger writes. -/

/-- What a call of a logger writes to its stream, or why the call fails.  Only a pretty logger
has a stream. -/
def output (l : Logger) (terminal : Bool) (time : Text) (e : Entry) : Except Failure Text := do
  let e ← l.accept e
  match l with
  | .pretty threshold =>
    match Pretty.written? threshold time terminal e with
    | some text => return text
    | none => throw (.unwritable .tooManyDigits)
  | _ => return []

/-- What each of the calls of a logger comes to, a call being made at a time of day. -/
def outputs (l : Logger) (terminal : Bool) (calls : List (Text × Entry)) :
    List (Except Failure Text) :=
  calls.map fun call => l.output terminal call.1 call.2

/-- The logger of a factory for pretty loggers that is asked for the first time. -/
def ofFactory (process : Environment) (secrets : Option Secrets) : Except Failure Logger := do
  let factory ← LoggerFactory.new "pretty" secrets
  let (logger, _) ← factory.create process none
  return logger

/-- A line ends in a line break at least. -/
theorem line?_ne_nil (time : Text) (terminal : Bool) (e : Entry) :
    Pretty.line? time terminal e ≠ some [] := by
  intro h
  unfold Pretty.line? at h
  obtain ⟨context, -, h⟩ := Option.bind_eq_some_iff.1 h
  have hlast := (List.append_eq_nil_iff.1 (Option.some.inj h)).2
  cases hlast

section

variable {terminal : Bool} {time : Text} {e : Entry} {t t' : Level}

/-- A call that uses a name of its own is refused, whatever the threshold. -/
theorem output_of_reserved {name : Text} (h : e.reservedName? = some name) :
    (Logger.pretty t).output terminal time e =
      .error (.reservedName "PrettyLogger" e.level name) := by
  unfold output accept
  rw [h]
  rfl

/-- A call that is not refused comes to what is written for its entry, if that has a text. -/
theorem output_of_accepted (h : e.reservedName? = none) :
    (Logger.pretty t).output terminal time e =
      match Pretty.written? t time terminal e with
      | some text => .ok text
      | none => .error (.unwritable .tooManyDigits) := by
  unfold output accept
  rw [h]
  rfl

/-- A call below the threshold writes nothing. -/
theorem output_of_below (h : e.reservedName? = none) (ht : e.level.reaches t = false) :
    (Logger.pretty t).output terminal time e = .ok [] := by
  rw [output_of_accepted h, Pretty.written?, ht]
  rfl

/-- A call that reaches the threshold comes to its line, if it has one. -/
theorem output_of_reached (h : e.reservedName? = none) (ht : e.level.reaches t = true) :
    (Logger.pretty t).output terminal time e =
      match Pretty.line? time terminal e with
      | some text => .ok text
      | none => .error (.unwritable .tooManyDigits) := by
  rw [output_of_accepted h, Pretty.written?, if_pos ht]

/-- A call that reaches the threshold does not come to nothing. -/
theorem output_ne_of_reached (h : e.reservedName? = none) (ht : e.level.reaches t = true) :
    (Logger.pretty t).output terminal time e ≠ .ok [] := by
  rw [output_of_reached h ht]
  cases hline : Pretty.line? time terminal e with
  | none => intro hno; cases hno
  | some text =>
    intro hnil
    cases hnil
    exact line?_ne_nil time terminal e hline

/-- Two pretty loggers come to the same for a call exactly if it is refused, or reaches both
thresholds or neither. -/
theorem output_pretty_eq_iff :
    (Logger.pretty t).output terminal time e = (Logger.pretty t').output terminal time e ↔
      (e.reservedName?.isSome = true ∨ e.level.reaches t = e.level.reaches t') := by
  cases hr : e.reservedName? with
  | some name => simp [output_of_reserved hr]
  | none =>
    cases ht : e.level.reaches t <;> cases ht' : e.level.reaches t'
    · simp [output_of_below hr ht, output_of_below hr ht']
    · simpa [output_of_below hr ht] using (output_ne_of_reached hr ht').symm
    · simpa [output_of_below hr ht'] using output_ne_of_reached hr ht
    · simp [output_of_reached hr ht, output_of_reached hr ht']

end

/-- The thresholds INFO and WARN differ for the level INFO only. -/
theorem reaches_info_eq_reaches_warn_iff (level : Level) :
    level.reaches .info = level.reaches .warn ↔ level ≠ .info := by
  cases level <;> decide

/-! ## §2. Where a threshold comes from. -/

section

variable (process : Environment)

/-- Without secrets, a logger has the level of the variable, or WARN if it is not there. -/
theorem prettyAt_none :
    prettyAt process none =
      .pretty ((process.get? "LOG_LEVEL").elim .warn Level.ofName) := by
  unfold prettyAt
  cases process.get? "LOG_LEVEL" with
  | none => rfl
  | some value => rfl

/-- With the secrets of the process, a logger has the level of the variable, or WARN if it is
not there or is empty. -/
theorem prettyFrom_ofProcess :
    prettyFrom process .ofProcess =
      .pretty (((process.get? "LOG_LEVEL").filter (!·.isEmpty)).elim .warn Level.ofName) := by
  have hask : Secrets.ofProcess.getD process "LOG_LEVEL" "WARN" =
      ((process.get? "LOG_LEVEL").filter (!·.isEmpty)).getD "WARN" := rfl
  unfold prettyFrom
  rw [hask]
  -- the default and a value that passed the filter are not empty, so they are taken as given
  rcases hvalue : process.get? "LOG_LEVEL" with _ | (_ | ⟨c, cs⟩) <;> rfl

/-- A factory without secrets gives the logger made without secrets. -/
theorem ofFactory_none : ofFactory process none = .ok (prettyAt process none) := rfl

/-- A factory with secrets gives the logger made with them. -/
theorem ofFactory_some (secrets : Secrets) :
    ofFactory process (some secrets) = .ok (prettyFrom process secrets) := rfl

/-- The two loggers are one unless the variable is empty. -/
theorem prettyAt_eq_prettyFrom (h : process.get? "LOG_LEVEL" ≠ some []) :
    prettyAt process none = prettyFrom process .ofProcess := by
  rw [prettyAt_none, prettyFrom_ofProcess]
  rcases hvalue : process.get? "LOG_LEVEL" with _ | (_ | ⟨c, cs⟩)
  · rfl
  · exact absurd hvalue h
  · rfl

/-- The thresholds of the two loggers when the variable is empty. -/
theorem thresholds_of_empty (h : process.get? "LOG_LEVEL" = some []) :
    prettyAt process none = .pretty .info ∧
      prettyFrom process .ofProcess = .pretty .warn := by
  rw [prettyAt_none, prettyFrom_ofProcess, h]
  exact ⟨rfl, rfl⟩

end

/-! ## §3. The two loggers. -/

/-- **TWO WAYS TO CONFIGURE A LOGGER AGREE UNLESS THE VARIABLE IS EMPTY.**  In every process, the
pretty logger made directly and the one made from the secrets of the process, which are those
that a factory without secrets and one with them give, come to the same for all calls exactly
if LOG_LEVEL is not an empty value or no call of level INFO could be logged.  When it is not an
empty value they are one logger; when it is, the first one also writes what is INFO. -/
theorem outputs_agree_iff (process : Environment) (terminal : Bool)
    (calls : List (Text × Entry)) :
    ofFactory process none = .ok (prettyAt process none) ∧
    ofFactory process (some .ofProcess) = .ok (prettyFrom process .ofProcess) ∧
    ((prettyAt process none).outputs terminal calls =
        (prettyFrom process .ofProcess).outputs terminal calls ↔
      (process.get? "LOG_LEVEL" = some [] →
        ∀ call ∈ calls, call.2.level = .info → call.2.reservedName?.isSome = true)) ∧
    (process.get? "LOG_LEVEL" ≠ some [] →
      prettyAt process none = prettyFrom process .ofProcess) ∧
    (process.get? "LOG_LEVEL" = some [] →
      prettyAt process none = .pretty .info ∧
        prettyFrom process .ofProcess = .pretty .warn) := by
  refine ⟨ofFactory_none process, ofFactory_some process _, ?_, prettyAt_eq_prettyFrom process,
    thresholds_of_empty process⟩
  by_cases hempty : process.get? "LOG_LEVEL" = some []
  case neg =>
    rw [prettyAt_eq_prettyFrom process hempty]
    exact ⟨fun _ h => absurd h hempty, fun _ => rfl⟩
  obtain ⟨hdirect, hsecrets⟩ := thresholds_of_empty process hempty
  have hcall (call : Text × Entry) :
      (Logger.pretty .info).output terminal call.1 call.2 =
          (Logger.pretty .warn).output terminal call.1 call.2 ↔
        (call.2.level = .info → call.2.reservedName?.isSome = true) := by
    rw [output_pretty_eq_iff, reaches_info_eq_reaches_warn_iff, or_comm]
    exact Decidable.imp_iff_not_or.symm
  rw [hdirect, hsecrets, outputs, outputs, List.map_inj_left]
  simp only [hcall, hempty, true_imp_iff]

/-- A process in which LOG_LEVEL is set to nothing. -/
def emptyLevel : Environment := (Environment.empty.set "LOG_LEVEL" "").toOption.getD .empty

/-- A call of level INFO and one of level WARN. -/
def twoCalls : List (Text × Entry) :=
  [("04:05:06", ⟨.info, "m", []⟩), ("04:05:06", ⟨.warn, "w", []⟩)]

/-- With an empty LOG_LEVEL, the logger made directly writes a line of level INFO that the one
made from secrets does not. -/
theorem outputs_agree_iff_emptyLevel :
    emptyLevel.get? "LOG_LEVEL" = some [] ∧
    (prettyAt emptyLevel none).outputs false twoCalls =
      [.ok "04:05:06 [INFO] m\n", .ok "04:05:06 [WARN] w\n"] ∧
    (prettyFrom emptyLevel .ofProcess).outputs false twoCalls =
      [.ok [], .ok "04:05:06 [WARN] w\n"] ∧
    (prettyAt emptyLevel none).outputs false twoCalls ≠
      (prettyFrom emptyLevel .ofProcess).outputs false twoCalls ∧
    prettyAt emptyLevel none = .pretty .info := by
  have hempty : emptyLevel.get? "LOG_LEVEL" = some [] := by decide +kernel
  obtain ⟨-, -, hagree, -, hlevels⟩ := outputs_agree_iff emptyLevel false twoCalls
  obtain ⟨hdirect, hsecrets⟩ := hlevels hempty
  refine ⟨hempty, by rw [hdirect]; rfl, by rw [hsecrets]; rfl, fun h => ?_, hdirect⟩
  have hrefused := hagree.1 h hempty ("04:05:06", ⟨.info, "m", []⟩) (by decide) rfl
  exact absurd hrefused (by decide)

end Cascade.Logger
