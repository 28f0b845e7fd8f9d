/-
  Cascade.Proofs.Pattern
  ────────────────────────────────
  **PATTERNS THAT ARE TRIED WITH BACKTRACKING.**

  A pattern has a list of WAYS to take something off the front of a text, in
  the order in which they are tried: of two alternatives the first one first,
  of a run the longest one first.  The match is the first way there is, so a
  longer run is given up only where what follows the run in the pattern does
  not fit.

      head?_runs     — a run by itself takes all it can
      flatMap_runs   — so does one that cannot be followed by what it takes
-/
import Mathlib.Data.List.Basic
import Cascade.Table

namespace Cascade.Text

/-- A pattern with parts that are captured under names. -/
inductive Pattern (γ : Type)
  | nothing
  | one (accepts : CodePoint → Bool)
  | run (accepts : CodePoint → Bool)
  | both (p q : Pattern γ)
  | either (p q : Pattern γ)
  | group (name : γ) (p : Pattern γ)

/-- A way in which a pattern takes something off the front of a text. -/
structure Way (γ : Type) where
  groups : List (γ × Text)
  taken : Text
  rest : Text

/-- The runs at the front of a text with what follows them, the longest first. -/
def runs (accepts : CodePoint → Bool) : Text → List (Text × Text)
  | [] => [([], [])]
  | c :: t =>
    if accepts c then (runs accepts t).map (fun r => (c :: r.1, r.2)) ++ [([], c :: t)]
    else [([], c :: t)]

namespace Pattern

variable {γ : Type}

/-- A pattern that need not be there; that it is there is tried first. -/
def maybe (p : Pattern γ) : Pattern γ := either p nothing

/-- One given character. -/
def mark (c : CodePoint) : Pattern γ := one (· == c)

/-- The ways of a pattern, in the order in which they are tried. -/
def ways : Pattern γ → Text → List (Way γ)
  | nothing, t => [⟨[], [], t⟩]
  | one _, [] => []
  | one accepts, c :: t => if accepts c then [⟨[], [c], t⟩] else []
  | run accepts, t => (runs accepts t).map fun r => ⟨[], r.1, r.2⟩
  | both p q, t => (ways p t).flatMap fun w =>
      (ways q w.rest).map fun w' => ⟨w.groups ++ w'.groups, w.taken ++ w'.taken, w'.rest⟩
  | either p q, t => ways p t ++ ways q t
  | group name p, t => (ways p t).map fun w => { w with groups := w.groups ++ [(name, w.taken)] }

/-- A mark at the front, and something after it. -/
theorem ways_mark (mark c : CodePoint) (p : Pattern γ) (t : Text) :
    (both (.mark mark) p).ways (c :: t) =
      if c = mark then (p.ways t).map fun w => ⟨w.groups, mark :: w.taken, w.rest⟩ else [] := by
  by_cases hc : c = mark
  · simp [Pattern.mark, ways, hc]
  · simp [Pattern.mark, ways, hc]

/-- The match at the front of a text. -/
def match? (p : Pattern γ) (t : Text) : Option (Way γ) := (p.ways t).head?

/-- The matches after the first `skip` characters, one after the other.  The pattern must be
one that takes something. -/
def findFrom (p : Pattern γ) : (skip : Nat) → Text → List (Way γ)
  | _, [] => []
  | skip + 1, _ :: rest => p.findFrom skip rest
  | 0, c :: rest =>
    match p.match? (c :: rest) with
    | some w => w :: p.findFrom (w.taken.length - 1) rest
    | none => p.findFrom 0 rest

/-- The matches in a text, from left to right and without overlap. -/
def find (p : Pattern γ) (t : Text) : List (Way γ) := p.findFrom 0 t

end Pattern

/-- What was captured under a name. -/
def Way.group {γ : Type} [DecidableEq γ] (w : Way γ) (name : γ) : Option Text :=
  Entries.get? name w.groups

/-! ## Runs. -/

section Runs

variable {accepts : CodePoint → Bool} {t : Text}

/-- A run of its own takes all it can. -/
theorem head?_runs : (runs accepts t).head? = some (t.takeWhile accepts, t.dropWhile accepts) := by
  induction t with
  | nil => rfl
  | cons c t ih =>
    rw [runs]
    split
    · rename_i hc
      rw [List.head?_append, List.head?_map, ih]
      simp [hc]
    · rename_i hc
      simp [hc]

/-- A run takes all it can where nothing fits that begins with what it takes. -/
theorem flatMap_runs {α : Type} (accepts : CodePoint → Bool) (t : Text)
    {f : Text × Text → List α}
    (h : ∀ taken c rest, accepts c = true → f (taken, c :: rest) = []) :
    (runs accepts t).flatMap f = f (t.takeWhile accepts, t.dropWhile accepts) := by
  induction t generalizing f with
  | nil => simp [runs]
  | cons c t ih =>
    rw [runs]
    split
    · rename_i hc
      -- the shorter run leaves the character behind
      have hlonger := ih (f := fun r => f (c :: r.1, r.2)) fun taken d rest hd => h _ d rest hd
      rw [List.flatMap_append, List.flatMap_map, hlonger, List.flatMap_singleton, h [] c t hc,
        List.append_nil]
      simp [hc]
    · rename_i hc
      simp [hc]

end Runs

/-- A text is cut where the characters before the mark end. -/
theorem cut_eq_takeWhile (mark : CodePoint) (t : Text) :
    cut mark t = (t.takeWhile (· != mark), (t.dropWhile (· != mark)).tail?) := by
  induction t with
  | nil => rfl
  | cons c t ih =>
    rw [cut]
    by_cases hc : c = mark
    · simp [hc]
    · simp [hc, ih]

end Cascade.Text
