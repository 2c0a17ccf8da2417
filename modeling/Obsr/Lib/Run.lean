/-
# Runs of a deterministic machine

A machine is a step function `σ → ι → σ`; everything that is not decided by its
state (what a device answers, what a peer sends, what the clock reads) is part
of the input `ι`. A run is therefore a starting state with a list of inputs,
and a statement about every run is a statement about every such list.

The module packages the two inductions the developments below need: the
invariant rule for runs whose steps all meet a side condition, and its
converse, which turns "the property survives the run" into an exact
description of the steps that are allowed.
-/

import Mathlib

namespace Obsr.Lib

universe u v

variable {σ : Type u} {ι : Type v}

/-- Every input of the run meets `ok` in the state it is consumed in. -/
def StepsMeet (step : σ → ι → σ) (ok : σ → ι → Prop) : σ → List ι → Prop
  | _, [] => True
  | s, i :: is => ok s i ∧ StepsMeet step ok (step s i) is

/-- The property holds in every state the run passes through, the first and
the last included. -/
def HoldsThroughout (step : σ → ι → σ) (P : σ → Prop) : σ → List ι → Prop
  | s, [] => P s
  | s, i :: is => P s ∧ HoldsThroughout step P (step s i) is

instance StepsMeet.decidable (step : σ → ι → σ) (ok : σ → ι → Prop)
    [∀ s i, Decidable (ok s i)] :
    ∀ s is, Decidable (StepsMeet step ok s is)
  | _, [] => inferInstanceAs (Decidable True)
  | s, i :: is =>
      @instDecidableAnd _ _ _ (StepsMeet.decidable step ok (step s i) is)

instance HoldsThroughout.decidable (step : σ → ι → σ) (P : σ → Prop)
    [DecidablePred P] :
    ∀ s is, Decidable (HoldsThroughout step P s is)
  | s, [] => inferInstanceAs (Decidable (P s))
  | s, i :: is =>
      @instDecidableAnd _ _ _ (HoldsThroughout.decidable step P (step s i) is)

variable {step : σ → ι → σ} {ok : σ → ι → Prop} {P I : σ → Prop}

@[simp]
theorem stepsMeet_nil (s : σ) : StepsMeet step ok s [] := trivial

@[simp]
theorem stepsMeet_cons (s : σ) (i : ι) (is : List ι) :
    StepsMeet step ok s (i :: is) ↔ ok s i ∧ StepsMeet step ok (step s i) is :=
  Iff.rfl

@[simp]
theorem holdsThroughout_nil (s : σ) : HoldsThroughout step P s [] ↔ P s := Iff.rfl

@[simp]
theorem holdsThroughout_cons (s : σ) (i : ι) (is : List ι) :
    HoldsThroughout step P s (i :: is) ↔
      P s ∧ HoldsThroughout step P (step s i) is :=
  Iff.rfl

theorem StepsMeet.and {ok' : σ → ι → Prop} {s : σ} {is : List ι} (h : StepsMeet step ok s is)
    (h' : StepsMeet step ok' s is) : StepsMeet step (fun s i => ok s i ∧ ok' s i) s is := by
  induction is generalizing s with
  | nil => trivial
  | cons i is ih => exact ⟨⟨h.1, h'.1⟩, ih h.2 h'.2⟩

/-- A condition on the inputs alone. -/
theorem stepsMeet_of_forall {allowed : ι → Prop} {s : σ} {is : List ι}
    (h : ∀ i ∈ is, allowed i) : StepsMeet step (fun _ i => allowed i) s is := by
  induction is generalizing s with
  | nil => trivial
  | cons i is ih =>
      obtain ⟨hfirst, hothers⟩ := List.forall_mem_cons.mp h
      exact ⟨hfirst, ih hothers⟩

theorem HoldsThroughout.first {s : σ} {is : List ι}
    (h : HoldsThroughout step P s is) : P s := by
  cases is with
  | nil => exact h
  | cons i is => exact h.1

/-- A run passes through exactly the states its prefixes end in. -/
theorem holdsThroughout_iff_forall (s : σ) (is : List ι) :
    HoldsThroughout step P s is ↔ ∀ before, before <+: is → P (before.foldl step s) := by
  induction is generalizing s with
  | nil => simp
  | cons i is ih =>
      rw [holdsThroughout_cons, ih]
      constructor
      · rintro ⟨hfirst, hrest⟩ before hbefore
        cases before with
        | nil => exact hfirst
        | cons j before =>
            obtain ⟨rfl, htail⟩ := List.cons_prefix_cons.mp hbefore
            exact hrest before htail
      · intro h
        refine ⟨h [] List.nil_prefix, fun before hbefore => ?_⟩
        exact h (i :: before) (List.cons_prefix_cons.mpr ⟨rfl, hbefore⟩)

/-- The last state of a run is one of the states it passes through. -/
theorem HoldsThroughout.last {s : σ} {is : List ι}
    (h : HoldsThroughout step P s is) : P (is.foldl step s) :=
  (holdsThroughout_iff_forall s is).mp h is (List.prefix_refl is)

/-- Weakening the property along the run. -/
theorem HoldsThroughout.imp {Q : σ → Prop} (himp : ∀ s, P s → Q s) {s : σ}
    {is : List ι} (h : HoldsThroughout step P s is) : HoldsThroughout step Q s is := by
  induction is generalizing s with
  | nil => exact himp s h
  | cons i is ih => exact ⟨himp s h.1, ih h.2⟩

/-- The invariant rule: what holds at the start and is kept by every step that
meets the side condition holds throughout every run whose steps meet it. -/
theorem holdsThroughout_of_invariant
    (hstep : ∀ s i, I s → ok s i → I (step s i)) {s : σ} (hinit : I s)
    {is : List ι} (hmeet : StepsMeet step ok s is) :
    HoldsThroughout step I s is := by
  induction is generalizing s with
  | nil => exact hinit
  | cons i is ih => exact ⟨hinit, ih (hstep s i hinit hmeet.1) hmeet.2⟩

/-- The invariant rule without a side condition. -/
theorem foldl_of_invariant (hstep : ∀ s i, I s → I (step s i)) {s : σ} (hinit : I s)
    (is : List ι) : I (is.foldl step s) := by
  induction is generalizing s with
  | nil => exact hinit
  | cons i is ih => exact ih (hstep s i hinit)

/-- The exact form of the invariant rule: if, in addition, a step that misses
the side condition destroys the property at once, then the runs on which the
property holds throughout are exactly those whose steps all meet it. -/
theorem holdsThroughout_iff_stepsMeet
    (hkeep : ∀ s i, I s → ok s i → I (step s i))
    (hprop : ∀ s, I s → P s)
    (hbreak : ∀ s i, I s → ¬ ok s i → ¬ P (step s i))
    {s : σ} (hinit : I s) (is : List ι) :
    HoldsThroughout step P s is ↔ StepsMeet step ok s is := by
  constructor
  · intro h
    induction is generalizing s with
    | nil => trivial
    | cons i is ih =>
        have hok : ok s i := by
          by_contra hbad
          exact hbreak s i hinit hbad h.2.first
        exact ⟨hok, ih (hkeep s i hinit hok) h.2⟩
  · intro h
    exact (holdsThroughout_of_invariant hkeep hinit h).imp hprop

/-! ## Logs -/

/-- The last entry of a log is the one that is looked at, or it is behind that one. -/
theorem concat_eq_append_cons {α : Type*} {log before after : List α} {last entry : α}
    (h : log ++ [last] = before ++ entry :: after) :
    (before = log ∧ entry = last) ∨
      ∃ rest, after = rest ++ [last] ∧ log = before ++ entry :: rest := by
  rcases after.eq_nil_or_concat with rfl | ⟨rest, other, rfl⟩
  · obtain ⟨hbefore, hlast⟩ := List.append_inj' h rfl
    exact .inl ⟨hbefore.symm, (List.cons.inj hlast).1.symm⟩
  · rw [List.concat_eq_append, ← List.cons_append, ← List.append_assoc] at h
    obtain ⟨hbefore, hlast⟩ := List.append_inj' h rfl
    rw [List.concat_eq_append, (List.cons.inj hlast).1]
    exact .inr ⟨rest, rfl, hbefore⟩

end Obsr.Lib
