/-
  Cascade.Proofs.FailsWith
  ────────────────────────────────
  **ANSWERS WITH ONE WAY TO FAIL.**

  `FailsWith failure bad x` says that `x` fails exactly when `bad` holds,
  and then with this failure.  The conditions of two answers one after the
  other add up (`FailsWith.bind`), and so do those of the names in a value
  that is expanded (`failsWith_expandValue`).
-/
import Cascade.Failure
import Cascade.Proofs.Transfer

namespace Cascade

variable {α β : Type} {failure : Failure} {bad bad' : Prop}

/-- The answer fails exactly when `bad` holds, and then with the given failure. -/
def FailsWith (failure : Failure) (bad : Prop) (x : Except Failure α) : Prop :=
  (bad ∧ x = .error failure) ∨ (¬ bad ∧ ∃ a, x = .ok a)

namespace FailsWith

/-- An answer that is there. -/
theorem ok (a : α) : FailsWith failure False (.ok a : Except Failure α) :=
  .inr ⟨id, a, rfl⟩

/-- The same condition in other words. -/
theorem congr {x : Except Failure α} (h : FailsWith failure bad x) (hb : bad ↔ bad') :
    FailsWith failure bad' x := by
  rcases h with ⟨hbad, hx⟩ | ⟨hbad, hx⟩
  · exact .inl ⟨hb.1 hbad, hx⟩
  · exact .inr ⟨fun h => hbad (hb.2 h), hx⟩

/-- An answer that is there when nothing is bad. -/
theorem exists_ok {x : Except Failure α} (h : FailsWith failure bad x) (hb : ¬ bad) :
    ∃ a, x = .ok a := by
  rcases h with ⟨hbad, -⟩ | ⟨-, hx⟩
  · exact absurd hbad hb
  · exact hx

/-- An answer that fails. -/
theorem eq_error {x : Except Failure α} (h : FailsWith failure bad x) (hb : bad) :
    x = .error failure := by
  rcases h with ⟨-, hx⟩ | ⟨hbad, -⟩
  · exact hx
  · exact absurd hb hbad

/-- One answer after another. -/
theorem bind {x : Except Failure α} {f : α → Except Failure β} (hx : FailsWith failure bad x)
    (hf : ∀ a, x = .ok a → FailsWith failure bad' (f a)) :
    FailsWith failure (bad ∨ bad') (x >>= f) := by
  rcases hx with ⟨hbad, rfl⟩ | ⟨hbad, a, rfl⟩
  -- the first failure ends both; without it the second condition decides
  · exact .inl ⟨.inl hbad, rfl⟩
  · exact (hf a rfl).congr (by simp [hbad])

/-- One answer after another that does not fail. -/
theorem andOk {x : Except Failure α} {f : α → Except Failure β} (hx : FailsWith failure bad x)
    (hf : ∀ a, x = .ok a → ∃ b, f a = .ok b) : FailsWith failure bad (x >>= f) := by
  rcases hx with ⟨hbad, rfl⟩ | ⟨hbad, a, rfl⟩
  · exact .inl ⟨hbad, rfl⟩
  · exact .inr ⟨hbad, hf a rfl⟩

/-- An answer that is turned into another one. -/
theorem map {x : Except Failure α} (hx : FailsWith failure bad x) (f : α → β) :
    FailsWith failure bad (do return f (← x)) := hx.andOk fun a _ => ⟨f a, rfl⟩

end FailsWith

namespace Reference

variable {bad : Text → Prop} {answer : Text → Except Failure (Option Text)}

/-- The names whose answers fail add up step by step. -/
theorem transfers_failsWith (failure : Failure) (bad : Text → Prop) :
    Transfers fun α names (x y : Except Failure α) =>
      x = y ∧ FailsWith failure (∃ n ∈ names, bad n) x where
  pure a := ⟨rfl, (FailsWith.ok a).congr (by simp)⟩
  bind hx hf := by
    refine ⟨by rw [hx.1, funext fun a => (hf a).1], ?_⟩
    refine (hx.2.bind fun a _ => (hf a).2).congr ?_
    simp only [List.mem_append, or_and_right, exists_or]

/-- A value fails to be expanded when one of its names fails to be answered. -/
theorem failsWith_expandValue {v : Value}
    (h : ∀ n ∈ namesOf v, FailsWith failure (bad n) (answer n)) :
    FailsWith failure (∃ n ∈ namesOf v, bad n) (expandValue answer v) := by
  have named : ∀ n ∈ answeredNames v,
      answer n = answer n ∧ FailsWith failure (∃ k ∈ [n], bad k) (answer n) := fun n hn =>
    ⟨rfl, (h n (mem_answeredNames_iff.1 hn)).congr (by simp)⟩
  have expanded := ((transfers_failsWith failure bad).expandValue named).2
  exact expanded.congr (by simp only [mem_answeredNames_iff])

end Reference

end Cascade
