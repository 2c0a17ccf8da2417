/-
# Loops without a counter

A body looks at the state of its loop and either asks to be repeated, or ends the loop
with a result. `Ends` says that the loop comes to an end, after how many repeats and with
which result. There is no fuel in it: a loop that runs forever has no derivation.

A measure that every repeat makes smaller is a bound on the repeats.
-/

import Mathlib

namespace Obsr.Lib

universe u v w

variable {σ : Type u} {ρ : Type v}

/-- The loop over `body` ends after so many repeats with this result. -/
inductive Ends (body : σ → σ ⊕ ρ) : σ → ℕ → ρ → Prop
  | done {s : σ} {r : ρ} (stops : body s = .inr r) : Ends body s 0 r
  | again {s next : σ} {n : ℕ} {r : ρ} (repeats : body s = .inl next)
      (rest : Ends body next n r) : Ends body s (n + 1) r

variable {body : σ → σ ⊕ ρ} {s : σ} {n n' : ℕ} {r r' : ρ}

/-- The measure rule. The measure is only asked about where the invariant holds. -/
theorem ends_of_measure {I : σ → Prop} {m : σ → ℕ}
    (hrepeat : ∀ s next, I s → body s = .inl next → I next ∧ m next < m s)
    (h : I s) : ∃ n ≤ m s, ∃ r, Ends body s n r := by
  induction hk : m s using Nat.strong_induction_on generalizing s with
  | _ k ih =>
      cases hbody : body s with
      | inr r => exact ⟨0, Nat.zero_le _, r, .done hbody⟩
      | inl next =>
          obtain ⟨hnext, hless⟩ := hrepeat s next h hbody
          obtain ⟨n, hn, r, hends⟩ := ih (m next) (hk ▸ hless) hnext rfl
          exact ⟨n + 1, by omega, r, .again hbody hends⟩

/-- The loop with at most so many calls of its body; one that needs more gives up. -/
def bounded (body : σ → σ ⊕ ρ) (giveUp : σ → ρ) : ℕ → σ → ρ
  | 0, s => giveUp s
  | bound + 1, s =>
      match body s with
      | .inl next => bounded body giveUp bound next
      | .inr r => r

/-- A bound above the repeats is no bound. -/
theorem Ends.bounded_eq (h : Ends body s n r) (giveUp : σ → ρ) {bound : ℕ} (hbound : n < bound) :
    bounded body giveUp bound s = r := by
  induction h generalizing bound with
  | done stops =>
      obtain ⟨bound, rfl⟩ := Nat.exists_eq_succ_of_ne_zero (Nat.ne_zero_of_lt hbound)
      rw [bounded, stops]
  | again repeats rest ih =>
      obtain ⟨bound, rfl⟩ := Nat.exists_eq_succ_of_ne_zero (Nat.ne_zero_of_lt hbound)
      rw [bounded, repeats]
      exact ih (Nat.lt_of_succ_lt_succ hbound)

/-- The measure rule for a loop that was written with a bound. -/
theorem ends_bounded {I : σ → Prop} {m : σ → ℕ}
    (hrepeat : ∀ s next, I s → body s = .inl next → I next ∧ m next < m s)
    (h : I s) (giveUp : σ → ρ) {bound : ℕ} (hbound : m s < bound) :
    ∃ n ≤ m s, Ends body s n (bounded body giveUp bound s) := by
  obtain ⟨n, hn, r, hends⟩ := ends_of_measure hrepeat h
  refine ⟨n, hn, ?_⟩
  rw [hends.bounded_eq giveUp (hn.trans_lt hbound)]
  exact hends

end Obsr.Lib
