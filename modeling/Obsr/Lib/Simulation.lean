/-
# Simulations

A machine is simulated by a more abstract one if every step of it is matched by a block of
steps of the other, up to a relation between their states; which blocks match which input
is part of the simulation. The two then run in step: whatever the first machine does, its
state is related to that of the other after every input and the block that matches it.
-/

import Obsr.Lib.Run

namespace Obsr.Lib

universe u v u' v'

variable {σ : Type u} {ι : Type v} {τ : Type u'} {κ : Type v'}

/-- Related states stay related: a step that meets `ok` is matched by a block. -/
structure Simulation (step : σ → ι → σ) (ok : σ → ι → Prop) (step' : τ → κ → τ)
    (Matches : ι → List κ → Prop) (R : σ → τ → Prop) : Prop where
  matched : ∀ s t i, R s t → ok s i →
    ∃ block, Matches i block ∧ R (step s i) (block.foldl step' t)

/-- Two runs side by side: the blocks match the inputs, and the states are related before
the first of them and after each. -/
def InStep (step : σ → ι → σ) (step' : τ → κ → τ) (Matches : ι → List κ → Prop)
    (R : σ → τ → Prop) : σ → τ → List ι → List (List κ) → Prop
  | s, t, [], [] => R s t
  | s, t, i :: is, block :: blocks =>
      R s t ∧ Matches i block ∧
        InStep step step' Matches R (step s i) (block.foldl step' t) is blocks
  | _, _, [], _ :: _ => False
  | _, _, _ :: _, [] => False

variable {step : σ → ι → σ} {ok : σ → ι → Prop} {step' : τ → κ → τ}
  {Matches : ι → List κ → Prop} {R R' : σ → τ → Prop} {s : σ} {t : τ} {inputs : List ι}
  {blocks : List (List κ)}

/-- A run is in step with that of the blocks that match its steps. -/
theorem Simulation.run (h : Simulation step ok step' Matches R) (hrelated : R s t)
    (hmeet : StepsMeet step ok s inputs) :
    ∃ blocks, InStep step step' Matches R s t inputs blocks := by
  induction inputs generalizing s t with
  | nil => exact ⟨[], hrelated⟩
  | cons input inputs ih =>
      obtain ⟨block, hmatches, hnext⟩ := h.matched s t input hrelated hmeet.1
      obtain ⟨blocks, hrest⟩ := ih hnext hmeet.2
      exact ⟨block :: blocks, hrelated, hmatches, hrest⟩

theorem InStep.imp (himp : ∀ s t, R s t → R' s t)
    (h : InStep step step' Matches R s t inputs blocks) :
    InStep step step' Matches R' s t inputs blocks := by
  induction inputs generalizing s t blocks with
  | nil =>
      cases blocks with
      | nil => exact himp s t h
      | cons block blocks => exact h
  | cons input inputs ih =>
      cases blocks with
      | nil => exact h
      | cons block blocks => exact ⟨himp s t h.1, h.2.1, ih h.2.2⟩

/-- The states at the end are related. -/
theorem InStep.last (h : InStep step step' Matches R s t inputs blocks) :
    R (inputs.foldl step s) (blocks.flatten.foldl step' t) := by
  induction inputs generalizing s t blocks with
  | nil =>
      cases blocks with
      | nil => exact h
      | cons block blocks => exact h.elim
  | cons input inputs ih =>
      cases blocks with
      | nil => exact h.elim
      | cons block blocks =>
          rw [List.flatten_cons, List.foldl_append]
          exact ih h.2.2

end Obsr.Lib
