/-
# The state machine base class

`state_machine` runs a derived class's `process_state` as long as it returns
`true`. A derived class is a `Behaviour` over its own fields `γ`; the loop takes
a bound on its iterations, and each derived class shows that its bound is never
the reason the loop ends.
-/

import Mathlib

namespace Obsr

inductive OverallState
  | start
  | ended
  | error
  | inState
  deriving DecidableEq, Repr

/-- How a call of `process_state` ends: with `true`, with `false`, or with an
exception. -/
inductive Verdict
  | again
  | stop
  | threw
  deriving DecidableEq, Repr

structure StateMachine (σ δ : Type) where
  state : OverallState
  userState : σ
  errorCode : UInt8
  data : δ
  deriving DecidableEq, Repr

namespace StateMachine

variable {σ δ γ : Type}

def isFinished (m : StateMachine σ δ) : Bool := m.state = .ended

def isErrored (m : StateMachine σ δ) : Bool := m.errorCode ≠ 0

/-- `reset()`: the data stays. -/
def reset (first : σ) (m : StateMachine σ δ) : StateMachine σ δ :=
  { m with state := .start, errorCode := 0, userState := first }

def moveToState (m : StateMachine σ δ) (state : σ) : Verdict × StateMachine σ δ :=
  (.again, { m with state := .inState, userState := state })

def error (m : StateMachine σ δ) (code : UInt8) : Verdict × StateMachine σ δ :=
  (.stop, { m with state := .error, errorCode := code })

def tryLater (m : StateMachine σ δ) : Verdict × StateMachine σ δ := (.stop, m)

def finished (m : StateMachine σ δ) : Verdict × StateMachine σ δ :=
  (.stop, { m with state := .ended })

/-- A derived class with fields `γ`: its first state and its `process_state`. -/
structure Behaviour (σ δ γ : Type) where
  first : σ
  processState : σ → StateMachine σ δ → γ → Verdict × StateMachine σ δ × γ

variable (behaviour : Behaviour σ δ γ)

def processOnce (m : StateMachine σ δ) (fields : γ) : Verdict × StateMachine σ δ × γ :=
  match m.state with
  | .inState => behaviour.processState m.userState m fields
  | .start | .error | .ended => (.stop, m, fields)

/-- `while (process_once());` with at most `bound` calls. -/
def processLoop : ℕ → StateMachine σ δ → γ → Verdict × StateMachine σ δ × γ
  | 0, m, fields => (.stop, m, fields)
  | bound + 1, m, fields =>
      match processOnce behaviour m fields with
      | (.again, m, fields) => processLoop bound m fields
      | done => done

def process (bound : ℕ) (m : StateMachine σ δ) (fields : γ) :
    Verdict × StateMachine σ δ × γ :=
  match m.state with
  | .start => processLoop behaviour bound
      { m with state := .inState, errorCode := 0, userState := behaviour.first } fields
  | .error | .ended => (.stop, m, fields)
  | .inState => processLoop behaviour bound m fields

/-! ## The bound of the loop -/

/-- A class whose `process_state` only goes on to states of smaller rank ends
its loop by itself: every bound above the rank gives the same result. -/
theorem processLoop_eq_of_rank {rank : σ → ℕ}
    (hdec : ∀ s m fields m' fields',
      behaviour.processState s m fields = (.again, m', fields') →
        rank m'.userState < rank s)
    {bound bound' : ℕ} (m : StateMachine σ δ) (fields : γ)
    (hbound : rank m.userState < bound) (hbound' : rank m.userState < bound') :
    processLoop behaviour bound m fields = processLoop behaviour bound' m fields := by
  induction bound generalizing bound' m fields with
  | zero => exact absurd hbound (Nat.not_lt_zero _)
  | succ bound ih =>
      cases bound' with
      | zero => exact absurd hbound' (Nat.not_lt_zero _)
      | succ bound' =>
          show (match processOnce behaviour m fields with
              | (.again, m, fields) => processLoop behaviour bound m fields
              | done => done) =
            (match processOnce behaviour m fields with
              | (.again, m, fields) => processLoop behaviour bound' m fields
              | done => done)
          rcases honce : processOnce behaviour m fields with ⟨verdict, m', fields'⟩
          cases verdict with
          | again =>
              have hstate : behaviour.processState m.userState m fields =
                  (.again, m', fields') := by
                unfold processOnce at honce
                split at honce
                · exact honce
                all_goals exact absurd (congrArg Prod.fst honce) (by simp)
              have hlt := hdec _ _ _ _ _ hstate
              exact ih m' fields' (by omega) (by omega)
          | stop => rfl
          | threw => rfl

end StateMachine

end Obsr
