/-
# From the storage to the socket

A storage pass clears the mark of an entry and leaves its change to a message.
The message waits in the queue until the socket accepts it; a new connection and a
new start empty the queue. This module says which runs lose no change.
-/

import Obsr.Net.NetworkClient
import Obsr.Storage.Pending

namespace Obsr.Net

open Obsr.Io Obsr.Lib

namespace NetworkClient

variable {s : NetworkClient}

/-! ## The statement -/

/-- The change of a message has not reached the socket, and nothing has replaced
it. -/
def Owes (s : NetworkClient) (ticket : Ticket) : Prop :=
  ticket ∈ s.record.built ∧ ticket ∉ s.record.accepted ∧ ticket ∉ s.record.excused

/-- Every entry message that was built is in the queue or was accepted, unless its
entry was set or deleted once more. -/
def KeepsChanges (s : NetworkClient) : Prop :=
  ∀ ticket ∈ s.record.built,
    .handed ticket ∈ s.queue ∨ ticket ∈ s.record.accepted ∨ ticket ∈ s.record.excused

/-- The step empties the queue. -/
def Clears (s : NetworkClient) : Input → Prop
  | .connect .. => True
  | .start => s.state = .idle
  | _ => False

/-- A step that empties the queue finds no message in it whose change is owed. -/
def ClearsSettled (s : NetworkClient) (input : Input) : Prop :=
  s.Clears input → ∀ ticket, .handed ticket ∈ s.queue → ¬ s.Owes ticket

instance : DecidablePred KeepsChanges := fun s =>
  inferInstanceAs (Decidable (∀ ticket ∈ s.record.built, _))

/-! ## What the parts of a step do to the queue and the record -/

/-- No change is lost, and the queue holds no message that was not built. -/
structure Accounted (s : NetworkClient) : Prop where
  keeps : s.KeepsChanges
  built : ∀ ticket, .handed ticket ∈ s.queue → ticket ∈ s.record.built

theorem Accounted.of_eq (h : s.Accounted) {s' : NetworkClient} (hqueue : s'.queue = s.queue)
    (hrecord : s'.record = s.record) : s'.Accounted := by
  obtain ⟨hkeeps, hbuilt⟩ := h
  constructor
  · intro ticket hticket
    rw [hrecord] at hticket ⊢
    rw [hqueue]
    exact hkeeps ticket hticket
  · intro ticket hticket
    rw [hqueue] at hticket
    rw [hrecord]
    exact hbuilt ticket hticket

/-- A message of the client itself does not matter. -/
theorem Accounted.of_own (h : s.Accounted) {s' : NetworkClient} (hrecord : s'.record = s.record)
    (hqueue : ∀ ticket, .handed ticket ∈ s'.queue ↔ .handed ticket ∈ s.queue) :
    s'.Accounted := by
  constructor
  · intro ticket hticket
    rw [hrecord] at hticket ⊢
    rw [hqueue]
    exact h.keeps ticket hticket
  · intro ticket hticket
    rw [hrecord]
    exact h.built ticket ((hqueue ticket).mp hticket)

theorem Accounted.perform (h : s.Accounted) (op : Storage.Operation) :
    (s.perform op).Accounted := by
  refine ⟨fun ticket hticket => ?_, h.built⟩
  rcases h.keeps ticket hticket with hqueue | haccepted | hexcused
  · exact Or.inl hqueue
  · exact Or.inr (Or.inl haccepted)
  · exact Or.inr (Or.inr (List.mem_append_left _ hexcused))

theorem Accounted.handOver (h : s.Accounted) (now : ℤ) (entry : StorageEntry) :
    (handOver now entry s).2.Accounted := by
  constructor
  · intro ticket hticket
    rcases List.mem_append.mp hticket with hold | hnew
    · rcases h.keeps ticket hold with hqueue | hdone
      · exact Or.inl (List.mem_append_left _ hqueue)
      · exact Or.inr hdone
    · rw [List.mem_singleton.mp hnew]
      exact Or.inl (List.mem_append_right _ (List.mem_singleton.mpr rfl))
  · intro ticket hticket
    rcases List.mem_append.mp hticket with hold | hnew
    · exact List.mem_append_left _ (h.built ticket hold)
    · rw [Queued.handed.inj (List.mem_singleton.mp hnew)]
      exact List.mem_append_right _ (List.mem_singleton.mpr rfl)

theorem Accounted.handOverStorage (h : s.Accounted) (now : ℤ) :
    (s.handOverStorage now).Accounted :=
  Storage.actOnDirtyEntries_of_invariant storage withStorage
    (fun _ _ data hs _ => hs.handOver now data) (fun _ _ hs => hs.of_eq rfl rfl) h

/-- A message leaves the queue only when it is written. -/
theorem mem_processQueue (behind : Behind) (queue : List Queued) (answers : List Bool)
    (ticket : Ticket) :
    (.handed ticket ∈ queue → .handed ticket ∈ (processQueue behind queue answers).1 ∨
        ticket ∈ (processQueue behind queue answers).2) ∧
      (.handed ticket ∈ (processQueue behind queue answers).1 → .handed ticket ∈ queue) := by
  induction queue generalizing answers with
  | nil => exact ⟨Or.inl, fun h => h⟩
  | cons queued queue ih =>
      rw [processQueue]
      cases hwrite : queued.write behind answers with
      | mk written rest =>
          cases written with
          | false => exact ⟨Or.inl, fun h => h⟩
          | true =>
              obtain ⟨hkept, hold⟩ := ih rest
              refine ⟨fun h => ?_, fun h => List.mem_cons_of_mem _ (hold h)⟩
              rcases List.mem_cons.mp h with hfirst | hrest
              · rw [← hfirst]
                exact Or.inr (List.mem_cons_self ..)
              · exact (hkept hrest).imp_right (List.mem_append_right _)

theorem Accounted.process (h : s.Accounted) (behind : Behind) (answers : List Bool) :
    (s.process behind answers).Accounted := by
  constructor
  · intro ticket hticket
    rcases h.keeps ticket hticket with hqueue | haccepted | hexcused
    · rcases (mem_processQueue behind s.queue answers ticket).1 hqueue with hkept | hwritten
      · exact Or.inl hkept
      · exact Or.inr (Or.inl (List.mem_append_right _ hwritten))
    · exact Or.inr (Or.inl (List.mem_append_left _ haccepted))
    · exact Or.inr (Or.inr hexcused)
  · intro ticket hticket
    exact h.built ticket ((mem_processQueue behind s.queue answers ticket).2 hticket)

theorem Accounted.enqueue (h : s.Accounted) (message : OutMessage) :
    (s.enqueue message).Accounted :=
  h.of_own rfl fun ticket => by simp [NetworkClient.enqueue]

theorem Accounted.requestTimeSync (h : s.Accounted) (tick : Tick) :
    (s.requestTimeSync tick).1.Accounted := by
  obtain ⟨queue, running, hframe, hqueue⟩ := s.requestTimeSync_frame tick
  rw [hframe]
  exact h.of_own rfl hqueue

theorem Accounted.advance (h : s.Accounted) (tick : Tick) (answers : List Bool) :
    (s.advance tick answers).Accounted := by
  unfold NetworkClient.advance
  cases s.state with
  | opening =>
      show (s.openAndConnect tick).Accounted
      unfold openAndConnect
      split_ifs
      · exact h
      · exact h.of_eq rfl rfl
      · exact h.of_eq rfl rfl
  | inUse => exact (h.handOverStorage _).process tick.behind answers
  | inHandshakeTimeSync => exact h.process tick.behind answers
  | inHandshake => exact h.process tick.behind answers
  | connecting => exact h
  | idle => exact h

theorem Accounted.update (h : s.Accounted) (tick : Tick) : (s.update tick).Accounted := by
  unfold NetworkClient.update
  split_ifs
  · exact h
  · exact (h.requestTimeSync tick).advance tick _

theorem syncClock_frame (s : NetworkClient) (timeNow : ℤ) (data : ParseData) :
    (s.syncClock timeNow data).queue = s.queue ∧ (s.syncClock timeNow data).record = s.record := by
  unfold syncClock
  split <;> exact ⟨rfl, rfl⟩

theorem Accounted.handle (h : s.Accounted) (timeNow : ℤ) (type : MessageType)
    (data : ParseData) : (s.handle timeNow type data).Accounted := by
  cases type with
  | entryUpdate => exact h.perform _
  | entryDelete => exact h.perform _
  | entryIdAssign => exact (h.perform _).of_eq rfl rfl
  | handshakeFinished => exact h.of_eq rfl rfl
  | timeSyncResponse =>
      obtain ⟨hqueue, hrecord⟩ := s.syncClock_frame timeNow data
      have hsynced : (s.syncClock timeNow data).Accounted := h.of_eq hqueue hrecord
      unfold NetworkClient.handle
      simp only
      split_ifs
      · exact (hsynced.enqueue .handshakeReady).of_eq rfl rfl
      · exact hsynced.of_eq rfl rfl
  | _ => exact h

theorem Accounted.onMessage (h : s.Accounted) (timeNow : ℤ) (type : UInt8)
    (payload : List UInt8) : (s.onMessage timeNow type payload).Accounted := by
  have hparsed : Accounted
      { s with parser := s.parser.parse (MessageType.ofByte type) payload } := h.of_eq rfl rfl
  unfold NetworkClient.onMessage
  simp only
  split_ifs
  · exact hparsed.handle ..
  · exact hparsed

/-! ## Steps that empty the queue -/

/-- An emptied queue keeps every change exactly if none was owed. -/
theorem accounted_of_cleared (h : s.Accounted) {s' : NetworkClient}
    (hrecord : s'.record = s.record) (hcleared : ∀ ticket, .handed ticket ∉ s'.queue) :
    ((∀ ticket, .handed ticket ∈ s.queue → ¬ s.Owes ticket) → s'.Accounted) ∧
      (¬ (∀ ticket, .handed ticket ∈ s.queue → ¬ s.Owes ticket) → ¬ s'.KeepsChanges) := by
  constructor
  · intro hsettled
    refine ⟨fun ticket hticket => ?_, fun ticket hticket => absurd hticket (hcleared ticket)⟩
    rw [hrecord] at hticket ⊢
    rcases h.keeps ticket hticket with hqueue | hdone
    · right
      by_contra hnot
      rw [not_or] at hnot
      exact hsettled ticket hqueue ⟨hticket, hnot⟩
    · exact Or.inr hdone
  · intro hunsettled hkeeps
    push Not at hunsettled
    obtain ⟨ticket, hqueue, hbuilt, haccepted, hexcused⟩ := hunsettled
    rcases hkeeps ticket (hrecord ▸ hbuilt) with hwaits | hdone
    · exact hcleared ticket hwaits
    · rw [hrecord] at hdone
      exact hdone.elim haccepted hexcused

theorem onConnect_cleared (s : NetworkClient) (timeNow : ℤ) (behind : Behind)
    (answers : List Bool) :
    (s.onConnect timeNow behind answers).record = s.record ∧
      ∀ ticket, .handed ticket ∉ (s.onConnect timeNow behind answers).queue := by
  obtain ⟨queue, hframe, hqueue⟩ := NetworkClient.enqueueImmediate_frame { s with queue := [] }
    behind (.timeSyncRequest (s.clock.now timeNow)) answers
  have hconnect : s.onConnect timeNow behind answers =
      { s with queue, state := .inHandshakeTimeSync, session := {} } := by
    unfold onConnect
    rw [hframe]
  rw [hconnect]
  exact ⟨rfl, fun ticket hticket => List.not_mem_nil ((hqueue ticket).mp hticket)⟩

/-! ## Runs -/

/-- A step that empties the queue keeps every change exactly if none was owed;
every other step keeps them all. -/
theorem accounted_step (h : s.Accounted) (input : Input) :
    (s.ClearsSettled input → (s.step input).Accounted) ∧
      (¬ s.ClearsSettled input → ¬ (s.step input).KeepsChanges) := by
  have hkept : ¬ s.Clears input → (s.step input).Accounted →
      (s.ClearsSettled input → (s.step input).Accounted) ∧
        (¬ s.ClearsSettled input → ¬ (s.step input).KeepsChanges) := by
    intro hnot hstep
    exact ⟨fun _ => hstep, fun hunsettled =>
      absurd (fun hclears => absurd hclears hnot) hunsettled⟩
  cases input with
  | start =>
      by_cases hidle : s.state = .idle
      · have hstart : s.step .start = { s with
            storage := s.storage.clearNetIds, connectRetryTimer := false,
            clockSyncTimer := false, queue := [], state := .opening, session := {} } :=
          if_pos hidle
        have hrecord : (s.step .start).record = s.record := by rw [hstart]
        have hcleared : ∀ ticket, .handed ticket ∉ (s.step .start).queue := by
          rw [hstart]
          exact fun _ => List.not_mem_nil
        obtain ⟨hgood, hbad⟩ := accounted_of_cleared h hrecord hcleared
        exact ⟨fun hsettled => hgood (hsettled hidle), fun hnot => hbad fun hsettled =>
          hnot fun _ => hsettled⟩
      · refine hkept hidle ?_
        have hstart : s.step .start = s := if_neg hidle
        rwa [hstart]
  | stop => exact hkept not_false (h.of_eq rfl rfl)
  | connect timeNow behind answers =>
      obtain ⟨hrecord, hcleared⟩ := s.onConnect_cleared timeNow behind answers
      obtain ⟨hgood, hbad⟩ := accounted_of_cleared h hrecord hcleared
      exact ⟨fun hsettled => hgood (hsettled trivial), fun hnot => hbad fun hsettled =>
        hnot fun _ => hsettled⟩
  | close => exact hkept not_false (h.of_eq rfl rfl)
  | message timeNow type payload => exact hkept not_false (h.onMessage timeNow type payload)
  | localOperation timeNow op => exact hkept not_false (h.perform _)
  | update tick => exact hkept not_false (h.update tick)

theorem accounted_new (memory : ParseData) (storage : Storage) (clock : Clock) :
    (new memory storage clock).Accounted :=
  ⟨fun _ hticket => absurd hticket List.not_mem_nil,
    fun _ hticket => absurd hticket List.not_mem_nil⟩

/-- The runs that lose no change are those in which the queue is emptied only when
it owes none. -/
theorem keepsChanges_iff_clearsSettled (memory : ParseData) (storage : Storage) (clock : Clock)
    (inputs : List Input) :
    HoldsThroughout step KeepsChanges (new memory storage clock) inputs ↔
      StepsMeet step ClearsSettled (new memory storage clock) inputs :=
  holdsThroughout_iff_stepsMeet (I := Accounted)
    (fun _ input hs => (accounted_step hs input).1) (fun _ hs => hs.keeps)
    (fun _ input hs => (accounted_step hs input).2) (accounted_new memory storage clock) inputs

/-- The link drops between a tick whose writes are refused and the next one; the
client connects again. -/
def refusedAndReconnected : List Input :=
  let tick : Tick := ⟨9, false, true, true, fun _ => 0, []⟩
  [.localOperation 1 (.getOrCreateEntry [97]),
    .localOperation 2 (.setEntryValue 0 (Value.makeInt32 7)), .start, .update tick,
    .connect 3 (fun _ => 0) [true], .message 4 8 (List.replicate 16 0), .message 5 5 [],
    .update tick, .close, .update tick, .connect 6 (fun _ => 0) [true]]

/-- The create of an entry is gone, and its entry is not marked. -/
theorem not_keepsChanges_refusedAndReconnected :
    ¬ ∀ (memory : ParseData) (storage : Storage) (clock : Clock) (inputs : List Input),
      HoldsThroughout step KeepsChanges (new memory storage clock) inputs := by
  intro h
  have hrun := (h ⟨0, 0, [], 0, Value.make, 0⟩ Storage.new {} refusedAndReconnected).last
  revert hrun
  decide +kernel

end NetworkClient

end Obsr.Net
