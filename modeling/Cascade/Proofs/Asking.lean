/-
  Cascade.Proofs.Asking
  ────────────────────────────────
  **COMPUTATIONS THAT ASK.**

  An expansion that does not know the answers stops at each name and goes on
  when it is told: `Asking`.  Answering the names from any other computation
  gives back the expansion there, and it only asks for the names of the value
  (`requests_expandValue`):

      Asking.run      — the questions answered, one after the other
      Asking.Within   — every question that may come is about certain names
-/
import Cascade.Proofs.Transfer

namespace Cascade.Reference

/-- A computation that is done, or that asks for a name and goes on with what replaces it. -/
inductive Asking (α : Type) where
  | done (a : α)
  | ask (name : Text) (next : Option Text → Asking α)

namespace Asking

variable {α β : Type}

/-- One computation after another. -/
def bind : Asking α → (α → Asking β) → Asking β
  | .done a, f => f a
  | .ask name next, f => .ask name fun text => (next text).bind f

instance : Monad Asking where
  pure := .done
  bind := bind

instance : LawfulMonad Asking := by
  refine LawfulMonad.mk' Asking (fun x => ?_) (fun a f => rfl) fun x f g => ?_
  · induction x with
    | done a => rfl
    | ask name next ih => exact congrArg (ask name) (funext ih)
  · induction x with
    | done a => rfl
    | ask name next ih => exact congrArg (ask name) (funext ih)

/-- A question, and nothing else. -/
def request (name : Text) : Asking (Option Text) := .ask name .done

/-- What is left once the first question is answered. -/
def answered : Asking α → Option Text → Asking α
  | .done a, _ => .done a
  | .ask _ next, text => next text

/-- The computation with its questions answered. -/
def run {m : Type → Type} [Monad m] (answer : Text → m (Option Text)) : Asking α → m α
  | .done a => return a
  | .ask name next => do
    let text ← answer name
    (next text).run answer

/-- Whatever the answers are, the questions are about names with a property. -/
inductive Within (P : Text → Prop) : Asking α → Prop
  | done (a : α) : Within P (.done a)
  | ask {name : Text} {next : Option Text → Asking α} :
      P name → (∀ text, Within P (next text)) → Within P (.ask name next)

variable {P Q : Text → Prop}

/-- A weaker property. -/
theorem Within.imp {x : Asking α} (h : x.Within P) (hpq : ∀ n, P n → Q n) : x.Within Q := by
  induction h with
  | done a => exact .done a
  | ask hn _ ih => exact .ask (hpq _ hn) ih

/-- An answer brings no question about other names. -/
theorem Within.answered {x : Asking α} (h : x.Within P) (text : Option Text) :
    (x.answered text).Within P := by
  cases h with
  | done a => exact .done a
  | ask _ hnext => exact hnext text

/-- One computation after another asks what both ask. -/
theorem Within.bind {x : Asking α} {f : α → Asking β} (hx : x.Within P)
    (hf : ∀ a, (f a).Within P) : (x >>= f).Within P := by
  induction hx with
  | done a => exact hf a
  | ask hn _ ih => exact .ask hn ih

variable {m : Type → Type} [Monad m] [LawfulMonad m] {answer : Text → m (Option Text)}

/-- One computation after another is answered part by part. -/
theorem run_bind (x : Asking α) (f : α → Asking β) :
    (x >>= f).run answer = x.run answer >>= fun a => (f a).run answer := by
  induction x with
  | done a =>
    rw [run, pure_bind]
    rfl
  | ask name next ih =>
    rw [run, bind_assoc]
    exact congrArg (answer name >>= ·) (funext ih)

end Asking

/-- A computation with questions beside one that answers them itself. -/
structure Requests {m : Type → Type} [Monad m] (answer : Text → m (Option Text)) (α : Type)
    (names : List Text) (x : Asking α) (y : m α) : Prop where
  run : x.run answer = y
  within : x.Within (· ∈ names)

section

variable {m : Type → Type} [Monad m] [LawfulMonad m]

/-- Questions are answered step by step. -/
theorem transfers_requests (answer : Text → m (Option Text)) : Transfers (Requests answer) where
  pure a := ⟨rfl, .done a⟩
  bind hx hf :=
    { run := by
        rw [Asking.run_bind, hx.run]
        exact congrArg (_ >>= ·) (funext fun a => (hf a).run)
      within := (hx.within.imp fun _ => List.mem_append_left _).bind fun a =>
        (hf a).within.imp fun _ => List.mem_append_right _ }

/-- A value that is expanded with questions asks for its names, and with their answers it is
expanded as ever. -/
theorem requests_expandValue (answer : Text → m (Option Text)) (v : Value) :
    Requests answer Value (answeredNames v) (expandValue Asking.request v)
      (expandValue answer v) :=
  (transfers_requests answer).expandValue fun n _ =>
    ⟨bind_pure (answer n), .ask (List.mem_singleton_self n) fun text => .done text⟩

end

end Cascade.Reference
