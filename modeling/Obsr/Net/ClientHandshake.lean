/-
# Nothing is sent before the handshake is done

A client is to keep its entries to itself until the server has declared the handshake
finished. Until then it may only ask for the time and say that it is ready.

What the queue of a client hands to the socket, whether it is accepted or refused, goes
into a log together with the connects and the end of each handshake. The queue outlives a
connection, and a message that is refused goes back to its front; but it is emptied when
a connection is made, and entries get into it in the state `in_use` only.
-/

import Obsr.Lib.Run
import Obsr.Net.NetworkClient

namespace Obsr.Net

open Obsr.Io Obsr.Lib

/-! ## The log -/

/-- What is noted about a client. -/
inductive ClientNote
  | connected
  | handshakeFinished
  | handed (type : UInt8) (payload : List UInt8)
  deriving DecidableEq, Repr

namespace ClientNote

/-- The handshake of the last connection is finished. -/
def Finished (log : List ClientNote) : Prop :=
  ∃ before after, log = before ++ .handshakeFinished :: after ∧ .connected ∉ after

/-- The messages about entries that a client sends. -/
def IsEntry (type : UInt8) : Prop :=
  type = MessageType.entryCreate.toByte ∨ type = MessageType.entryUpdate.toByte ∨
    type = MessageType.entryDelete.toByte

/-- The messages a client sends during a handshake. -/
def IsHandshake (type : UInt8) : Prop :=
  type = MessageType.timeSyncRequest.toByte ∨ type = MessageType.handshakeReady.toByte

/-- Entries are handed over after the end of the handshake; from the connection to the end
of the handshake nothing is handed over but what belongs to it. -/
structure Discreet (log : List ClientNote) : Prop where
  entry : ∀ before type payload after, log = before ++ .handed type payload :: after →
    IsEntry type → Finished before
  handshake : ∀ before during type payload after,
    log = before ++ .connected :: during ++ .handed type payload :: after →
      .handshakeFinished ∉ during → IsHandshake type

variable {log : List ClientNote} {note : ClientNote}

theorem not_isEntry_of_isHandshake {type : UInt8} (h : IsHandshake type) : ¬ IsEntry type := by
  rcases h with rfl | rfl
  · rintro (h | h | h) <;> revert h <;> decide
  · rintro (h | h | h) <;> revert h <;> decide

theorem finished_append_finished (log : List ClientNote) :
    Finished (log ++ [.handshakeFinished]) := ⟨log, [], rfl, List.not_mem_nil⟩

/-- What is handed over does not change how far the handshake is. -/
theorem finished_append_handed (log : List ClientNote) (type : UInt8) (payload : List UInt8) :
    Finished (log ++ [.handed type payload]) ↔ Finished log := by
  constructor
  · rintro ⟨before, after, hlog, hafter⟩
    rcases concat_eq_append_cons hlog with ⟨-, hlast⟩ | ⟨rest, rfl, rfl⟩
    · cases hlast
    · exact ⟨before, rest, rfl, fun hmem => hafter (List.mem_append_left _ hmem)⟩
  · rintro ⟨before, after, rfl, hafter⟩
    refine ⟨before, after ++ [.handed type payload], by simp, fun hmem => ?_⟩
    rcases List.mem_append.mp hmem with hold | hnew
    · exact hafter hold
    · cases List.mem_singleton.mp hnew

theorem not_finished_append_connected (log : List ClientNote) :
    ¬ Finished (log ++ [.connected]) := by
  rintro ⟨before, after, hlog, hafter⟩
  rcases concat_eq_append_cons hlog with ⟨-, hlast⟩ | ⟨rest, rfl, rfl⟩
  · cases hlast
  · exact hafter (List.mem_append_right _ (List.mem_singleton.mpr rfl))

/-- A handshake goes on until its end is noted. -/
theorem not_finished_of_during {before during : List ClientNote}
    (h : .handshakeFinished ∉ during) : ¬ Finished (before ++ .connected :: during) := by
  induction during using List.reverseRecOn with
  | nil => exact not_finished_append_connected before
  | append_singleton during last ih =>
      rw [← List.cons_append, ← List.append_assoc]
      cases last with
      | connected => exact not_finished_append_connected _
      | handshakeFinished => exact absurd (List.mem_append_right _ (List.mem_singleton.mpr rfl)) h
      | handed type payload =>
          rw [finished_append_handed]
          exact ih fun hmem => h (List.mem_append_left _ hmem)

theorem discreet_nil : Discreet [] where
  entry before _ _ _ hlog :=
    absurd hlog.symm (List.append_ne_nil_of_right_ne_nil before (List.cons_ne_nil _ _))
  handshake before during _ _ _ hlog :=
    absurd hlog.symm (List.append_ne_nil_of_right_ne_nil (before ++ .connected :: during)
      (List.cons_ne_nil _ _))

/-- A log stays discreet if the next note is none of a message, if that message belongs to
a handshake, or if no handshake is going on. -/
theorem Discreet.append (h : Discreet log)
    (hnote : ∀ type payload, note = .handed type payload → IsHandshake type ∨ Finished log) :
    Discreet (log ++ [note]) where
  entry before type payload after hlog hentry := by
    rcases concat_eq_append_cons hlog with ⟨rfl, hlast⟩ | ⟨rest, rfl, hold⟩
    · exact (hnote type payload hlast.symm).resolve_left fun hshake =>
        not_isEntry_of_isHandshake hshake hentry
    · exact h.entry before type payload rest hold hentry
  handshake before during type payload after hlog hduring := by
    rcases concat_eq_append_cons hlog with ⟨rfl, hlast⟩ | ⟨rest, rfl, hold⟩
    · exact (hnote type payload hlast.symm).resolve_right (not_finished_of_during hduring)
    · exact h.handshake before during type payload rest hold hduring

/-- The same for several messages. -/
theorem Discreet.append_handed (h : Discreet log) {added : List ClientNote}
    (hadded : ∀ note ∈ added, ∃ type payload, note = .handed type payload ∧
      (IsHandshake type ∨ Finished log)) :
    Discreet (log ++ added) ∧ (Finished (log ++ added) ↔ Finished log) := by
  induction added using List.reverseRecOn with
  | nil =>
      rw [List.append_nil]
      exact ⟨h, Iff.rfl⟩
  | append_singleton added last ih =>
      obtain ⟨hdiscreet, hfinished⟩ := ih fun note hnote =>
        hadded note (List.mem_append_left _ hnote)
      obtain ⟨type, payload, rfl, hallowed⟩ :=
        hadded last (List.mem_append_right _ (List.mem_singleton.mpr rfl))
      rw [← List.append_assoc, finished_append_handed]
      refine ⟨hdiscreet.append fun type' payload' heq => ?_, hfinished⟩
      cases heq
      exact hallowed.imp_right hfinished.mpr

end ClientNote

namespace NetworkClient

/-! ## What a client hands over -/

/-- `m_io.write` with answers as listed, and what it is given. -/
def noting : MessageQueue.Destination (List Bool × List ClientNote) :=
  fun type payload (answers, notes) =>
    (answers.headD false, (answers.tail, notes ++ [.handed type payload]))

/-- What is handed over when the socket is connected. -/
def notesOfConnect (s : NetworkClient) (timeNow : ℤ) (behind : Behind) (answers : List Bool) :
    List ClientNote :=
  (MessageQueue.writeMessage behind noting (.timeSyncRequest (s.clock.now timeNow))
    (answers, [])).2.2

/-- What is handed over by the request for the time, with the answers that are left. -/
def notesOfRequest (s : NetworkClient) (tick : Tick) : List Bool × List ClientNote :=
  if s.clockSyncTimer && tick.syncElapsed then
    (MessageQueue.writeMessage tick.behind noting
      (.timeSyncRequest (s.clock.now tick.timeNow)) (tick.answers, [])).2
  else (tick.answers, [])

/-- What is handed over by the switch over the state. -/
def notesOfAdvance (s : NetworkClient) (tick : Tick) (written : List Bool × List ClientNote) :
    List ClientNote :=
  let queue :=
    match s.state with
    | .inUse => (s.handOverStorage (s.clock.now tick.timeNow)).messages
    | .inHandshakeTimeSync | .inHandshake => s.messages
    | .opening | .connecting | .idle => []
  (queue.process (MessageQueue.writeMessage tick.behind noting) written).2.2

/-- The end of a handshake. -/
def notesOfMessage (s : NetworkClient) (type : UInt8) (payload : List UInt8) :
    List ClientNote :=
  if (s.parser.parse (MessageType.ofByte type) payload).isFinished ∧
      MessageType.ofByte type = .handshakeFinished then [.handshakeFinished]
  else []

def notes (s : NetworkClient) : Input → List ClientNote
  | .connect timeNow behind answers => .connected :: s.notesOfConnect timeNow behind answers
  | .message _ type payload => s.notesOfMessage type payload
  | .update tick =>
      if s.state = .idle then []
      else (s.requestTimeSync tick).1.notesOfAdvance tick (s.notesOfRequest tick)
  | .start | .stop | .close | .localOperation .. => []

/-- A step of a client with its log. -/
def logStep (s : NetworkClient × List ClientNote) (input : Input) :
    NetworkClient × List ClientNote :=
  (s.1.step input, s.2 ++ s.1.notes input)

/-- The log of a run. -/
def logOf (s : NetworkClient) (inputs : List Input) : List ClientNote :=
  (inputs.foldl logStep (s, [])).2

open ClientNote

variable {s : NetworkClient} {log : List ClientNote}

theorem notes_writeMessage (behind : Behind) (message : OutMessage)
    (written : List Bool × List ClientNote) :
    ∃ added, (MessageQueue.writeMessage behind noting message written).2.2 =
        written.2 ++ added ∧
      ∀ note ∈ added, ∃ payload, note = .handed message.type.toByte payload := by
  unfold MessageQueue.writeMessage
  split
  · exact ⟨[], (List.append_nil _).symm, fun _ h => absurd h List.not_mem_nil⟩
  · split
    · exact ⟨[], (List.append_nil _).symm, fun _ h => absurd h List.not_mem_nil⟩
    · next buffer _ =>
        refine ⟨[.handed message.type.toByte buffer.written], rfl, fun note hnote => ?_⟩
        exact ⟨_, List.mem_singleton.mp hnote⟩

theorem notes_process (behind : Behind) (queue : MessageQueue)
    (written : List Bool × List ClientNote) :
    ∃ added, (queue.process (MessageQueue.writeMessage behind noting) written).2.2 =
        written.2 ++ added ∧
      ∀ note ∈ added, ∃ message ∈ queue, ∃ payload,
        note = .handed message.type.toByte payload := by
  induction queue generalizing written with
  | nil => exact ⟨[], (List.append_nil _).symm, fun _ h => absurd h List.not_mem_nil⟩
  | cons message queue ih =>
      obtain ⟨first, hfirst, hfirstNotes⟩ := notes_writeMessage behind message written
      rw [MessageQueue.process]
      rcases hwrite : MessageQueue.writeMessage behind noting message written with
        ⟨accepted, rest⟩
      rw [hwrite] at hfirst
      replace hfirst : rest.2 = written.2 ++ first := hfirst
      have hhead : ∀ note ∈ first, ∃ other ∈ message :: queue, ∃ payload,
          note = .handed other.type.toByte payload := fun note hnote =>
        ⟨message, List.mem_cons_self, hfirstNotes note hnote⟩
      cases accepted with
      | false => exact ⟨first, hfirst, hhead⟩
      | true =>
          obtain ⟨added, hadded, hnotes⟩ := ih rest
          refine ⟨first ++ added, ?_, fun note hnote => ?_⟩
          · rw [hadded, hfirst, List.append_assoc]
          · rcases List.mem_append.mp hnote with hold | hnew
            · exact hhead note hold
            · obtain ⟨other, hmem, hother⟩ := hnotes note hnew
              exact ⟨other, List.mem_cons_of_mem _ hmem, hother⟩

/-- What is left in a queue was in it. -/
theorem processQueue_suffix (behind : Behind) (queue : List Queued) (answers : List Bool) :
    (processQueue behind queue answers).1 <:+ queue := by
  induction queue generalizing answers with
  | nil => exact List.suffix_rfl
  | cons queued queue ih =>
      rw [processQueue]
      rcases queued.write behind answers with ⟨written, rest⟩
      cases written with
      | true => exact (ih rest).trans (List.suffix_cons ..)
      | false => exact List.suffix_rfl

/-! ## The invariant -/

/-- Only messages of a handshake wait in the queue. -/
def WaitsQuietly (s : NetworkClient) : Prop :=
  ∀ queued ∈ s.queue, IsHandshake queued.message.type.toByte

/-- As long as the handshake is not finished, the client keeps to it. -/
structure Shy (s : NetworkClient × List ClientNote) : Prop where
  discreet : Discreet s.2
  keeps : ¬ Finished s.2 → s.1.state ≠ .inUse ∧ s.1.WaitsQuietly

/-- A step that hands nothing over. -/
theorem Shy.of_silent (h : Shy (s, log)) {s' : NetworkClient}
    (hstate : s.state ≠ .inUse → s'.state ≠ .inUse)
    (hqueue : s.WaitsQuietly → s'.WaitsQuietly) : Shy (s', log ++ []) := by
  rw [List.append_nil]
  exact ⟨h.discreet, fun hnot => (h.keeps hnot).imp hstate hqueue⟩

theorem WaitsQuietly.enqueueImmediate (h : s.WaitsQuietly) (behind : Behind)
    (timeNow : ℤ) (answers : List Bool) :
    (s.enqueueImmediate behind (.timeSyncRequest timeNow) answers).1.WaitsQuietly := by
  unfold NetworkClient.enqueueImmediate
  split
  · exact h
  · exact List.forall_mem_cons.mpr ⟨.inl rfl, h⟩

theorem syncClock_keeps (s : NetworkClient) (timeNow : ℤ) (data : ParseData) :
    (s.syncClock timeNow data).state = s.state ∧ (s.syncClock timeNow data).queue = s.queue := by
  unfold syncClock
  split
  · exact ⟨rfl, rfl⟩
  · exact ⟨rfl, rfl⟩

/-- The message is any here, so that nothing looks into it. -/
theorem onConnect_keeps (s : NetworkClient) (timeNow : ℤ) (behind : Behind)
    (answers : List Bool) :
    (s.onConnect timeNow behind answers).state = .inHandshakeTimeSync ∧
      (s.onConnect timeNow behind answers).queue =
        ({ s with queue := [] }.enqueueImmediate behind
          (.timeSyncRequest (s.clock.now timeNow)) answers).1.queue := by
  unfold NetworkClient.onConnect
  generalize OutMessage.timeSyncRequest (s.clock.now timeNow) = message
  exact ⟨rfl, rfl⟩

theorem Shy.onConnect (h : Shy (s, log)) (timeNow : ℤ) (behind : Behind)
    (answers : List Bool) : Shy (logStep (s, log) (.connect timeNow behind answers)) := by
  obtain ⟨added, hadded, hnotes⟩ := notes_writeMessage behind
    (.timeSyncRequest (s.clock.now timeNow)) (answers, [])
  have hlog : log ++ s.notes (.connect timeNow behind answers) =
      (log ++ [.connected]) ++ added := by
    show log ++ .connected :: s.notesOfConnect timeNow behind answers = _
    rw [notesOfConnect, hadded]
    simp
  have hconnected : Discreet (log ++ [.connected]) := h.discreet.append fun _ _ heq => by
    cases heq
  have hempty : WaitsQuietly { s with queue := [] } := fun _ hmem => absurd hmem List.not_mem_nil
  constructor
  · show Discreet (log ++ s.notes (.connect timeNow behind answers))
    rw [hlog]
    refine (hconnected.append_handed fun note hnote => ?_).1
    obtain ⟨payload, hpayload⟩ := hnotes note hnote
    exact ⟨_, payload, hpayload, .inl (.inl rfl)⟩
  · intro _
    obtain ⟨hstate, hqueue⟩ := s.onConnect_keeps timeNow behind answers
    simp only [logStep, NetworkClient.step, WaitsQuietly, hstate, hqueue]
    exact ⟨State.noConfusion, hempty.enqueueImmediate behind (s.clock.now timeNow) answers⟩

/-- Only the end of a handshake ends it; the other messages may at most have the client
say that it is ready. -/
theorem handle_keeps (s : NetworkClient) (timeNow : ℤ) {type : MessageType}
    (htype : type ≠ .handshakeFinished) (data : ParseData) :
    (s.state ≠ .inUse → (s.handle timeNow type data).state ≠ .inUse) ∧
      (s.WaitsQuietly → (s.handle timeNow type data).WaitsQuietly) := by
  cases type with
  | handshakeFinished => exact absurd rfl htype
  | timeSyncResponse =>
      obtain ⟨hstate, hqueue⟩ := s.syncClock_keeps timeNow data
      unfold NetworkClient.handle
      simp only
      split_ifs
      · refine ⟨fun _ => State.noConfusion, fun hquiet queued hmem => ?_⟩
        rcases List.mem_append.mp hmem with hold | hnew
        · exact hquiet queued (hqueue ▸ hold)
        · rw [List.mem_singleton.mp hnew]
          exact .inr rfl
      · exact ⟨fun hnot => hstate ▸ hnot, fun hquiet queued hmem => hquiet queued (hqueue ▸ hmem)⟩
  | _ => exact ⟨fun hnot => hnot, fun hquiet => hquiet⟩

theorem Shy.onMessage (h : Shy (s, log)) (timeNow : ℤ) (type : UInt8)
    (payload : List UInt8) : Shy (logStep (s, log) (.message timeNow type payload)) := by
  show Shy (s.onMessage timeNow type payload, log ++ s.notesOfMessage type payload)
  unfold NetworkClient.onMessage notesOfMessage
  simp only
  generalize s.parser.parse (MessageType.ofByte type) payload = parser
  by_cases hparsed : parser.isFinished = true
  · rw [if_pos hparsed]
    by_cases htype : MessageType.ofByte type = .handshakeFinished
    · rw [if_pos ⟨hparsed, htype⟩]
      exact ⟨h.discreet.append fun _ _ heq => (by cases heq),
        fun hnot => absurd (finished_append_finished log) hnot⟩
    · rw [if_neg fun hboth => htype hboth.2]
      obtain ⟨hstate, hqueue⟩ := handle_keeps { s with parser } timeNow htype parser.data
      exact h.of_silent hstate hqueue
  · rw [if_neg hparsed, if_neg fun hboth => hparsed hboth.1]
    exact h.of_silent (fun hstate => hstate) (fun hqueue => hqueue)

theorem requestTimeSync_keeps (s : NetworkClient) (tick : Tick) :
    (s.requestTimeSync tick).1.state = s.state ∧
      (s.WaitsQuietly → (s.requestTimeSync tick).1.WaitsQuietly) := by
  obtain ⟨queue, running, hframe, -⟩ := s.requestTimeSync_frame tick
  refine ⟨by rw [hframe], fun h => ?_⟩
  have hsent := h.enqueueImmediate tick.behind (s.clock.now tick.timeNow) tick.answers
  unfold requestTimeSync
  generalize OutMessage.timeSyncRequest (s.clock.now tick.timeNow) = message at hsent ⊢
  split_ifs
  · exact hsent
  · exact h

theorem notesOfRequest_quiet (s : NetworkClient) (tick : Tick) :
    ∀ note ∈ (s.notesOfRequest tick).2,
      ∃ payload, note = .handed MessageType.timeSyncRequest.toByte payload := by
  unfold notesOfRequest
  split_ifs
  · obtain ⟨added, hadded, hnotes⟩ := notes_writeMessage tick.behind
      (.timeSyncRequest (s.clock.now tick.timeNow)) (tick.answers, [])
    rw [hadded]
    exact hnotes
  · exact fun _ hnote => absurd hnote List.not_mem_nil

/-- A tick in a handshake hands over what waits in the queue. -/
theorem WaitsQuietly.advance (h : s.WaitsQuietly) (hstate : s.state ≠ .inUse) (tick : Tick)
    (answers : List Bool) :
    (s.advance tick answers).state ≠ .inUse ∧ (s.advance tick answers).WaitsQuietly := by
  have hprocess : s.state ≠ .inUse → (s.process tick.behind answers).state ≠ .inUse ∧
      (s.process tick.behind answers).WaitsQuietly := fun hnot =>
    ⟨hnot, fun queued hmem =>
      h queued ((processQueue_suffix tick.behind s.queue answers).subset hmem)⟩
  unfold NetworkClient.advance
  cases hcase : s.state with
  | inUse => exact absurd hcase hstate
  | opening =>
      show (s.openAndConnect tick).state ≠ .inUse ∧ (s.openAndConnect tick).WaitsQuietly
      unfold openAndConnect
      split_ifs
      · exact ⟨hstate, h⟩
      · exact ⟨State.noConfusion, h⟩
      · exact ⟨hstate, h⟩
  | inHandshakeTimeSync => exact hprocess hstate
  | inHandshake => exact hprocess hstate
  | connecting => exact ⟨hstate, h⟩
  | idle => exact ⟨hstate, h⟩

theorem notes_waiting (s : NetworkClient) (tick : Tick)
    (written : List Bool × List ClientNote) :
    ∃ added,
      (s.messages.process (MessageQueue.writeMessage tick.behind noting) written).2.2 =
        written.2 ++ added ∧
      ∀ note ∈ added, ∃ type payload, note = .handed type payload ∧
        (s.state ≠ .inUse → s.WaitsQuietly → IsHandshake type) := by
  obtain ⟨added, hadded, hnotes⟩ := notes_process tick.behind s.messages written
  refine ⟨added, hadded, fun note hnote => ?_⟩
  obtain ⟨message, hmem, payload, hpayload⟩ := hnotes note hnote
  obtain ⟨queued, hqueued, rfl⟩ := List.mem_map.mp hmem
  exact ⟨_, payload, hpayload, fun _ hwaits => hwaits queued hqueued⟩

/-- Whatever a tick notes was handed over; in a handshake, it belongs to that. -/
theorem notesOfAdvance_handed (s : NetworkClient) (tick : Tick)
    (written : List Bool × List ClientNote) :
    ∃ added, s.notesOfAdvance tick written = written.2 ++ added ∧
      ∀ note ∈ added, ∃ type payload, note = .handed type payload ∧
        (s.state ≠ .inUse → s.WaitsQuietly → IsHandshake type) := by
  unfold notesOfAdvance
  simp only
  split
  · next hstate =>
      obtain ⟨added, hadded, hnotes⟩ := notes_process tick.behind
        (s.handOverStorage (s.clock.now tick.timeNow)).messages written
      refine ⟨added, hadded, fun note hnote => ?_⟩
      obtain ⟨message, -, payload, hpayload⟩ := hnotes note hnote
      exact ⟨_, payload, hpayload, fun hnot => absurd hstate hnot⟩
  · exact notes_waiting s tick written
  · exact notes_waiting s tick written
  · exact ⟨[], (List.append_nil _).symm, fun _ h => absurd h List.not_mem_nil⟩
  · exact ⟨[], (List.append_nil _).symm, fun _ h => absurd h List.not_mem_nil⟩
  · exact ⟨[], (List.append_nil _).symm, fun _ h => absurd h List.not_mem_nil⟩

theorem Shy.update (h : Shy (s, log)) (tick : Tick) :
    Shy (logStep (s, log) (.update tick)) := by
  show Shy (s.update tick, log ++ s.notes (.update tick))
  unfold NetworkClient.update notes
  simp only
  split_ifs with hidle
  · exact h.of_silent (fun hstate => hstate) (fun hqueue => hqueue)
  · obtain ⟨hstate, hqueue⟩ := s.requestTimeSync_keeps tick
    obtain ⟨added, hadded, hnotes⟩ :=
      (s.requestTimeSync tick).1.notesOfAdvance_handed tick (s.notesOfRequest tick)
    have hallowed : ∀ note ∈ (s.notesOfRequest tick).2 ++ added,
        ∃ type payload, note = .handed type payload ∧ (IsHandshake type ∨ Finished log) := by
      intro note hnote
      rcases List.mem_append.mp hnote with hfirst | hsecond
      · obtain ⟨payload, rfl⟩ := s.notesOfRequest_quiet tick note hfirst
        exact ⟨_, payload, rfl, .inl (.inl rfl)⟩
      · obtain ⟨type, payload, rfl, hquiet⟩ := hnotes note hsecond
        refine ⟨type, payload, rfl, ?_⟩
        by_cases hfinished : Finished log
        · exact .inr hfinished
        · obtain ⟨hnot, hwaits⟩ := h.keeps hfinished
          exact .inl (hquiet (by rwa [hstate]) (hqueue hwaits))
    have hlog := h.discreet.append_handed hallowed
    rw [hadded]
    refine ⟨hlog.1, fun hfinished => ?_⟩
    obtain ⟨hnot, hwaits⟩ := h.keeps fun hold => hfinished (hlog.2.mpr hold)
    exact (hqueue hwaits).advance (by rwa [hstate]) tick _

theorem Shy.step (s : NetworkClient × List ClientNote) (input : Input) (h : Shy s) :
    Shy (logStep s input) := by
  obtain ⟨s, log⟩ := s
  cases input with
  | start =>
      show Shy (s.start, log ++ [])
      unfold NetworkClient.start
      split_ifs
      · exact h.of_silent (fun _ => State.noConfusion) fun _ _ hmem =>
          absurd hmem List.not_mem_nil
      · exact h.of_silent (fun hstate => hstate) (fun hqueue => hqueue)
  | stop => exact h.of_silent (fun _ => State.noConfusion) (fun hqueue => hqueue)
  | connect timeNow behind answers => exact h.onConnect timeNow behind answers
  | close => exact h.of_silent (fun _ => State.noConfusion) (fun hqueue => hqueue)
  | message timeNow type payload => exact h.onMessage timeNow type payload
  | localOperation timeNow op =>
      exact h.of_silent (fun hstate => hstate) (fun hqueue => hqueue)
  | update tick => exact h.update tick

/-- Whatever happens to a client, its log is discreet. -/
theorem discreet_logOf (memory : ParseData) (storage : Storage) (clock : Clock)
    (inputs : List Input) : Discreet (logOf (new memory storage clock) inputs) := by
  have hinit : Shy (new memory storage clock, []) :=
    ⟨discreet_nil, fun _ => ⟨State.noConfusion, fun _ hmem => absurd hmem List.not_mem_nil⟩⟩
  exact (foldl_of_invariant Shy.step hinit inputs).discreet

end NetworkClient

end Obsr.Net
