/-
# Asking the server for the time

A client stamps a request with its clock, the server stamps the answer with its own, and
the client sets its clock by the two. In an exchange that takes equally long both ways the
client can know the time of the server exactly. `clock::sync` computes how far the
server is ahead, and `clock::now` then takes it for how far the server is behind.
-/

import Obsr.Lib.Run
import Obsr.Net.NetworkClient

namespace Obsr.Net

open Obsr.Lib

/-- An exchange that starts at a time of the client's system and takes as long to the
server as back. -/
structure TimeExchange where
  time : ℤ
  delay : ℤ
  deriving DecidableEq, Repr

namespace TimeExchange

/-- What the clock of the server reads when the system of the client has a time. -/
def serverNow (ahead time : ℤ) : ℤ := ({} : Clock).now (time + ahead)

/-- The system time of the client when it handles the answer. -/
def finish (x : TimeExchange) : ℤ := x.time + x.delay + x.delay

/-- The request of the client. -/
def request (x : TimeExchange) (clock : Clock) : OutMessage :=
  .timeSyncRequest (clock.now x.time)

/-- The answer of the server, which reads its clock when the request arrives. -/
def response (x : TimeExchange) (ahead : ℤ) (request : OutMessage) : OutMessage :=
  .timeSyncResponse (serverNow ahead (x.time + x.delay)) request.sendTime

/-- What the answer does to the clock of the client. -/
def sync (x : TimeExchange) (ahead : ℤ) (clock : Clock) : Bool × Clock :=
  let answer := x.response ahead (x.request clock)
  clock.sync x.finish answer.time answer.sendTime

/-! ## Runs of exchanges -/

/-- The clock of a client, and the system time at which it was set last. -/
structure Progress where
  clock : Clock := {}
  since : Option ℤ := none
  deriving DecidableEq, Repr

def step (ahead : ℤ) (s : Progress) (x : TimeExchange) : Progress :=
  { clock := (x.sync ahead s.clock).2
    since := if (x.sync ahead s.clock).1 then some x.finish else s.since }

/-- From the moment it was set on, the clock of the client reads what that of the server
reads. -/
def Synchronised (ahead : ℤ) (s : Progress) : Prop :=
  ∀ since, s.since = some since → ∀ time, since ≤ time →
    s.clock.now time = serverNow ahead time

/-- Half the round trip a clock starts with; every shorter one is taken. -/
def longest : ℤ := ({} : Clock).rtt2

variable {ahead : ℤ} {x : TimeExchange}

/-- An exchange sets the offset to what the server is ahead of the clock as it was. -/
theorem sync_eq (x : TimeExchange) (ahead : ℤ) (clock : Clock) :
    x.sync ahead clock =
      if clock.rtt2 ≤ x.delay then (false, clock)
      else (true, { offset := ahead + clock.offset, rtt2 := x.delay }) := by
  have hround : x.finish - clock.offset - (x.time - clock.offset) = 2 * x.delay := by
    rw [finish]
    ring
  have hoffset : x.time + x.delay + ahead - 0 + x.delay - (x.finish - clock.offset) =
      ahead + clock.offset := by
    rw [finish]
    ring
  simp only [sync, Clock.sync, Clock.now, request, response, serverNow, OutMessage.timeSyncRequest,
    OutMessage.timeSyncResponse, hround, Int.mul_tdiv_cancel_left _ (two_ne_zero (α := ℤ)),
    hoffset, ge_iff_le]

/-- The clock has no offset, and if the server is ahead it was never set. -/
structure Unset (ahead : ℤ) (s : Progress) : Prop where
  offset : s.clock.offset = 0
  ahead : ahead ≠ 0 → s.since = none ∧ s.clock.rtt2 = longest

theorem Unset.synchronised (s : Progress) (h : Unset ahead s) : Synchronised ahead s := by
  intro since hsince time _
  by_cases hahead : ahead = 0
  · rw [Clock.now, serverNow, Clock.now, h.offset, hahead]
    ring
  · rw [(h.ahead hahead).1] at hsince
    cases hsince

theorem Unset.step (s : Progress) (x : TimeExchange) (h : Unset ahead s)
    (hok : ahead = 0 ∨ longest ≤ x.delay) : Unset ahead (TimeExchange.step ahead s x) := by
  by_cases hahead : ahead = 0
  · refine ⟨?_, fun hne => absurd hahead hne⟩
    simp only [TimeExchange.step, sync_eq]
    split_ifs
    · exact h.offset
    · show ahead + s.clock.offset = 0
      rw [h.offset, hahead, zero_add]
  · obtain ⟨hsince, hrtt⟩ := h.ahead hahead
    have hrefused : x.sync ahead s.clock = (false, s.clock) := by
      rw [sync_eq, hrtt, if_pos (hok.resolve_left hahead)]
    simp only [TimeExchange.step, hrefused]
    exact ⟨h.offset, fun _ => ⟨hsince, hrtt⟩⟩

theorem Unset.not_synchronised (s : Progress) (x : TimeExchange) (h : Unset ahead s)
    (hbad : ¬ (ahead = 0 ∨ longest ≤ x.delay)) :
    ¬ Synchronised ahead (TimeExchange.step ahead s x) := by
  push Not at hbad
  obtain ⟨hahead, hshort⟩ := hbad
  have hset : x.sync ahead s.clock =
      (true, { offset := ahead + s.clock.offset, rtt2 := x.delay }) := by
    rw [sync_eq, (h.ahead hahead).2, if_neg (not_le.mpr hshort)]
  intro hsync
  have hnow := hsync x.finish (by simp only [TimeExchange.step, hset, if_true]) x.finish le_rfl
  simp only [TimeExchange.step, hset, Clock.now, serverNow, h.offset] at hnow
  omega

/-- The clock of a client follows that of its server exactly if the two agreed already, or
no exchange was short enough to be taken. -/
theorem synchronised_iff (ahead : ℤ) (xs : List TimeExchange) :
    HoldsThroughout (step ahead) (Synchronised ahead) {} xs ↔
      ahead = 0 ∨ ∀ x ∈ xs, longest ≤ x.delay := by
  have hinit : Unset ahead {} := ⟨rfl, fun _ => ⟨rfl, rfl⟩⟩
  have hmeet : HoldsThroughout (step ahead) (Synchronised ahead) {} xs ↔
      StepsMeet (step ahead) (fun _ x => ahead = 0 ∨ longest ≤ x.delay) {} xs :=
    holdsThroughout_iff_stepsMeet Unset.step Unset.synchronised Unset.not_synchronised hinit xs
  rw [hmeet]
  clear hmeet hinit
  generalize ({} : Progress) = s
  induction xs generalizing s with
  | nil => simp
  | cons x xs ih =>
      have hrest := ih (step ahead s x)
      rw [stepsMeet_cons, List.forall_mem_cons]
      tauto

/-- A server that is a second ahead, after one exchange of ten milliseconds. -/
theorem not_synchronised_secondAhead :
    ¬ HoldsThroughout (step 1000) (Synchronised 1000) {} [⟨50000, 5⟩] := by
  rintro ⟨-, hsync⟩
  have hnow := hsync 50010 (by decide +kernel) 50010 le_rfl
  revert hnow
  decide +kernel

end TimeExchange

end Obsr.Net
