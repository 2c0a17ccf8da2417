/-
# Channels

A receiver behind a channel that keeps messages in order and loses none. The state
the receiver will have once everything in the channel has arrived is the one it would
have if messages took no time. A property of a channel and its receiver is therefore
shown for messages that arrive at once, and holds of the receiver itself whenever the
channel is empty.
-/

import Obsr.Lib.Run

namespace Obsr.Lib.Channel

universe u v

variable {σ : Type u} {μ : Type v} (receive : σ → μ → σ)

/-- The receiver once the messages of a channel have arrived. -/
def drained (front : σ) (messages : List μ) : σ := messages.foldl receive front

/-- A message that is sent arrives after the others. -/
theorem drained_concat (front : σ) (messages : List μ) (message : μ) :
    drained receive front (messages ++ [message]) =
      receive (drained receive front messages) message := List.foldl_concat ..

variable {receive} {ok : σ → μ → Prop} {P : σ → Prop} {front : σ} {messages : List μ}

/-- The last message is received behind the others. -/
theorem stepsMeet_concat {message : μ} (h : StepsMeet receive ok front messages)
    (hlast : ok (drained receive front messages) message) :
    StepsMeet receive ok front (messages ++ [message]) := by
  induction messages generalizing front with
  | nil => exact ⟨hlast, trivial⟩
  | cons first messages ih => exact ⟨h.1, ih h.2 hlast⟩

theorem holdsThroughout_concat {message : μ} (h : HoldsThroughout receive P front messages)
    (hlast : P (receive (drained receive front messages) message)) :
    HoldsThroughout receive P front (messages ++ [message]) := by
  induction messages generalizing front with
  | nil => exact ⟨h, hlast⟩
  | cons first messages ih => exact ⟨h.1, ih h.2 hlast⟩

/-- The end of a channel is lost with its connection. -/
theorem stepsMeet_of_append {lost : List μ}
    (h : StepsMeet receive ok front (messages ++ lost)) :
    StepsMeet receive ok front messages := by
  induction messages generalizing front with
  | nil => trivial
  | cons message messages ih => exact ⟨h.1, ih h.2⟩

theorem holdsThroughout_of_append {lost : List μ}
    (h : HoldsThroughout receive P front (messages ++ lost)) :
    HoldsThroughout receive P front messages := by
  induction messages generalizing front with
  | nil => exact h.first
  | cons message messages ih => exact ⟨h.1, ih h.2⟩

end Obsr.Lib.Channel
