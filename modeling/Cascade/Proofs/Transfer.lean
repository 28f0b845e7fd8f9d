/-
  Cascade.Proofs.Transfer
  ────────────────────────────────
  **ONE EXPANSION IN TWO MONADS.**

  Expansion takes its answers from any computation, so what it does in one
  monad it does in another.  Let a relation between the computations of two
  monads, indexed by the names that are answered, hold for results and be
  kept by running one computation after another (`Transfers`).  If it holds
  for the answers, it holds for the expansion:

      Transfers.expandText    — for a text and its distinct names
      Transfers.expandValue   — for a value and the names of its texts
      holds_expandValue       — for a property of one monad alone
-/
import Cascade.Proofs.Rewriting

namespace Cascade.Reference

/-- The names of a value in the order in which they are answered: each once in a text, and the
items of a list one after the other. -/
def answeredNames : Value → List Text
  | .str t => distinctNames t
  | .list items => items.flatMap itemNames
  | _ => []

/-- The names that are answered are those of the value. -/
theorem mem_answeredNames_iff {n : Text} {v : Value} : n ∈ answeredNames v ↔ n ∈ namesOf v := by
  cases v with
  | str t => simp [answeredNames, mem_namesOf_iff, textsOf]
  | list items => exact mem_itemNames_iff
  | _ => simp [answeredNames, mem_namesOf_iff, textsOf]

variable {m n : Type → Type} [Monad m] [Monad n]

/-- A relation between computations in two monads, and the names they answer, that holds for
results and is kept by sequencing. -/
structure Transfers (R : (α : Type) → List Text → m α → n α → Prop) : Prop where
  pure {α : Type} (a : α) : R α [] (pure a) (pure a)
  bind {α β : Type} {names names' : List Text} {x : m α} {y : n α} {f : α → m β} {g : α → n β} :
    R α names x y → (∀ a, R β names' (f a) (g a)) → R β (names ++ names') (x >>= f) (y >>= g)

namespace Transfers

variable {R : (α : Type) → List Text → m α → n α → Prop} {α β : Type}

/-- A result that is turned into another one. -/
theorem map (h : Transfers R) (f : α → β) {names : List Text} {x : m α} {y : n α}
    (hx : R α names x y) : R β names (do return f (← x)) (do return f (← y)) := by
  rw [← List.append_nil names]
  exact h.bind hx fun a => h.pure (f a)

variable [LawfulMonad m] [LawfulMonad n]

/-- A list of computations, one after the other. -/
theorem mapM (h : Transfers R) {f : α → m β} {g : α → n β} {names : α → List Text} {l : List α}
    (hf : ∀ a ∈ l, R β (names a) (f a) (g a)) :
    R (List β) (l.flatMap names) (l.mapM f) (l.mapM g) := by
  induction l with
  | nil => exact h.pure []
  | cons a l ih =>
    rw [List.mapM_cons, List.mapM_cons, List.flatMap_cons]
    exact h.bind (hf a (by simp)) fun b => h.map (b :: ·) (ih fun c hc => hf c (by simp [hc]))

variable {answer : Text → m (Option Text)} {answer' : Text → n (Option Text)}

/-- A text whose names are answered alike is expanded alike. -/
theorem expandText (h : Transfers R) {t : Text}
    (ha : ∀ n ∈ distinctNames t, R (Option Text) [n] (answer n) (answer' n)) :
    R Text (distinctNames t) (expandText answer t) (expandText answer' t) := by
  have named : ∀ n ∈ distinctNames t,
      R (Text × Option Text) [n] (do return (n, ← answer n)) (do return (n, ← answer' n)) :=
    fun n hn =>
    h.map (fun text => (n, text)) (ha n hn)
  have all := h.mapM named
  rw [List.flatMap_singleton'] at all
  exact h.map
    (fun answers => substitute (fun name => (Entries.get? name answers).getD none) t) all

/-- A value whose names are answered alike is expanded alike. -/
theorem expandValue (h : Transfers R) {v : Value}
    (ha : ∀ n ∈ answeredNames v, R (Option Text) [n] (answer n) (answer' n)) :
    R Value (answeredNames v) (expandValue answer v) (expandValue answer' v) := by
  cases v with
  | str t => exact h.map Value.str (h.expandText ha)
  | list items =>
    have item : ∀ item ∈ items, R Value (itemNames item) (expandItem answer item)
        (expandItem answer' item) := fun item hi => by
      cases item with
      | str t =>
        exact h.map Value.str (h.expandText fun n hn => ha n (List.mem_flatMap.2 ⟨_, hi, hn⟩))
      | _ => exact h.pure _
    exact h.map Value.list (h.mapM item)
  | _ => exact h.pure _

end Transfers

/-- What holds for results in one monad and is kept by sequencing holds for the expansion of a
value if it holds for the answers. -/
theorem holds_expandValue [LawfulMonad m] {P : (α : Type) → List Text → m α → Prop}
    (hpure : ∀ {α : Type} (a : α), P α [] (pure a))
    (hbind : ∀ {α β : Type} {names names' : List Text} {x : m α} {f : α → m β},
      P α names x → (∀ a, P β names' (f a)) → P β (names ++ names') (x >>= f))
    {answer : Text → m (Option Text)} {v : Value}
    (ha : ∀ n ∈ answeredNames v, P (Option Text) [n] (answer n)) :
    P Value (answeredNames v) (expandValue answer v) := by
  -- beside it runs an expansion that says nothing and has no answers
  have transfers : Transfers fun α names (x : m α) (_ : Id α) => P α names x :=
    ⟨hpure, fun hx hf => hbind hx hf⟩
  exact @Transfers.expandValue m Id _ _ _ _ _ answer (fun _ => pure none) transfers v ha

end Cascade.Reference
