/-
# A lock that is not recursive

One thread runs a component whose entry points take a lock. What an entry point does
while it holds the lock may come back to the component through another entry point; the
thread then waits for a lock that it holds itself, for ever.
-/

import Mathlib.Tactic.Common

namespace Obsr.Lib

universe u

/-- A state behind a lock. -/
structure Guarded (σ : Type u) where
  state : σ
  held : Bool := false
  /-- Ghost: the thread has asked for the lock while it held it. -/
  stuck : Bool := false

namespace Guarded

variable {σ : Type u}

/-- Work on the state that does not concern the lock. -/
def map (work : σ → σ) (s : Guarded σ) : Guarded σ := { s with state := work s.state }

/-- An entry point: the lock is held for as long as the work takes. A thread that is stuck
does not get to the work. -/
def lock (work : Guarded σ → Guarded σ) (s : Guarded σ) : Guarded σ :=
  if s.held then { s with stuck := true }
  else { work { s with held := true } with held := false }

/-- Outside of all entry points, and never stuck so far. -/
structure Free (s : Guarded σ) : Prop where
  held : s.held = false
  stuck : s.stuck = false

variable {s : Guarded σ} {work : Guarded σ → Guarded σ}

@[simp]
theorem state_map (work : σ → σ) (s : Guarded σ) : (s.map work).state = work s.state := rfl

@[simp]
theorem held_map (work : σ → σ) (s : Guarded σ) : (s.map work).held = s.held := rfl

@[simp]
theorem stuck_map (work : σ → σ) (s : Guarded σ) : (s.map work).stuck = s.stuck := rfl

theorem free_new (state : σ) : Free ⟨state, false, false⟩ := ⟨rfl, rfl⟩

theorem Free.map (h : s.Free) (work : σ → σ) : (s.map work).Free := ⟨h.held, h.stuck⟩

theorem lock_of_held (h : s.held = true) : s.lock work = { s with stuck := true } := if_pos h

theorem lock_of_free (h : s.held = false) :
    s.lock work = { work { s with held := true } with held := false } :=
  if_neg (by simp [h])

theorem stuck_lock (h : s.held = false) :
    (s.lock work).stuck = (work { s with held := true }).stuck := by
  rw [lock_of_free h]

theorem held_lock (h : s.held = false) : (s.lock work).held = false := by
  rw [lock_of_free h]

/-- Work that stays in the component needs no more than the lock. -/
theorem stuck_lock_map (h : s.held = false) (work : σ → σ) :
    (s.lock (Guarded.map work)).stuck = s.stuck := by
  rw [stuck_lock h, stuck_map]

theorem Free.lock_map (h : s.Free) (work : σ → σ) : (s.lock (Guarded.map work)).Free :=
  ⟨held_lock h.held, (stuck_lock_map h.held work).trans h.stuck⟩

end Guarded

end Obsr.Lib
