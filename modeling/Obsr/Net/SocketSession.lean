/-
# A session of a framed socket

An object that was started and is connected, together with its side of the connection:
bytes arrive at the socket, and the looper calls the object when it can read or write.
A session shows the calls of `on_message` and the bytes that were sent. Objects that are
alike show the same in every session.
-/

import Obsr.Net.ReaderRun
import Obsr.Net.SocketIo

namespace Obsr.Net

open Obsr.Io Obsr.Lib

namespace SocketIo

/-- Two objects nobody can tell apart from what they do next. -/
structure Alike (s s' : SocketIo) : Prop where
  state : s.state = s'.state
  reader : s.reader.Alike s'.reader
  between : s.reader.machine.state ≠ .ended
  writeBuffer : s.writeBuffer.Alike s'.writeBuffer
  index : s.nextMessageIndex = s'.nextMessageIndex

variable {s s' : SocketIo}

theorem Alike.withState (h : Alike s s') (state : State) :
    Alike { s with state } { s' with state } :=
  ⟨rfl, h.reader, h.between, h.writeBuffer, h.index⟩

theorem Alike.stopInternal (h : Alike s s') (notify : Bool) :
    (s.stopInternal notify).2 = (s'.stopInternal notify).2 ∧
      Alike (s.stopInternal notify).1 (s'.stopInternal notify).1 := by
  rw [SocketIo.stopInternal, SocketIo.stopInternal, ← h.state]
  split_ifs
  · exact ⟨rfl, h⟩
  · exact ⟨rfl, h.withState .idle⟩
  · exact ⟨rfl, h.withState .idle⟩

theorem Alike.start (h : Alike s s') (connected : Bool) :
    Alike (s.start connected) (s'.start connected) := by
  rw [SocketIo.start, SocketIo.start, ← h.state]
  split_ifs
  · exact h.withState _
  · exact h.withState _
  · exact h

theorem Alike.connect (h : Alike s s') (accepted : Bool) :
    (s.connect accepted).2 = (s'.connect accepted).2 ∧
      Alike (s.connect accepted).1 (s'.connect accepted).1 := by
  rw [SocketIo.connect, SocketIo.connect, ← h.state]
  cases s.state with
  | idle | connecting | connected => exact ⟨rfl, h⟩
  | bound =>
      dsimp only
      split_ifs
      · exact ⟨rfl, h.withState .connecting⟩
      · exact (h.withState .connecting).stopInternal true

theorem Alike.headerFor (h : Alike s s') (type : UInt8) (message : List UInt8) :
    s.headerFor type message = s'.headerFor type message := by
  rw [SocketIo.headerFor, SocketIo.headerFor, h.index]

theorem Alike.counted (h : Alike s s') {b c : CircularBuffer} (hbuffers : b.Alike c) :
    Alike (s.counted b) (s'.counted c) :=
  ⟨h.state, h.reader, h.between, hbuffers, congrArg (· + 1) h.index⟩

theorem Alike.write (h : Alike s s') (type : UInt8) (message : List UInt8) :
    (s.write type message).2 = (s'.write type message).2 ∧
      Alike (s.write type message).1 (s'.write type message).1 := by
  have hroom := h.writeBuffer.canWrite (MessageHeader.sizeOf + message.length)
  have hheader : (s.headerWritten type message).value = (s'.headerWritten type message).value ∧
      (s.headerWritten type message).buffer.Alike (s'.headerWritten type message).buffer := by
    rw [headerWritten, headerWritten, h.headerFor]
    exact h.writeBuffer.write _
  obtain ⟨hvalue, hafter⟩ := hheader
  obtain ⟨hbody, hwritten⟩ := hafter.write message
  cases hcan : s.writeBuffer.canWrite (MessageHeader.sizeOf + message.length) with
  | false =>
      rw [write_of_not_canWrite hcan, write_of_not_canWrite (hroom ▸ hcan)]
      exact ⟨rfl, h⟩
  | true =>
      rw [hcan] at hroom
      cases hfits : (s.headerWritten type message).value with
      | false =>
          rw [write_of_no_header hcan hfits, write_of_no_header hroom.symm (hvalue ▸ hfits)]
          exact ⟨rfl, h.counted hafter⟩
      | true =>
          rw [hfits] at hvalue
          rcases Nat.eq_zero_or_pos message.length with hzero | hpos
          · obtain rfl := List.length_eq_zero_iff.mp hzero
            rw [write_of_nil hcan hfits, write_of_nil hroom.symm hvalue.symm, h.state]
            exact ⟨rfl, h.counted hafter⟩
          · cases hmessage : ((s.headerWritten type message).buffer.write message).value with
            | false =>
                obtain ⟨houtputs, hstopped⟩ := (h.counted hafter).stopInternal true
                rw [write_of_no_body hpos hcan hfits hmessage,
                  write_of_no_body hpos hroom.symm hvalue.symm (hbody ▸ hmessage), houtputs]
                exact ⟨rfl, hstopped⟩
            | true =>
                rw [write_of_body hpos hcan hfits hmessage,
                  write_of_body hpos hroom.symm hvalue.symm (hbody ▸ hmessage), h.state]
                exact ⟨rfl, h.counted hwritten⟩

theorem Alike.processMessages (h : Alike s s') (bound : ℕ) :
    (s.processMessages bound).2 = (s'.processMessages bound).2 ∧
      Alike (s.processMessages bound).1 (s'.processMessages bound).1 := by
  induction bound generalizing s s' with
  | zero => exact ⟨rfl, h⟩
  | succ bound ih =>
      have hprocess := h.reader.process h.between
      have hnext : ∀ r r' : Reader, r.Alike r' → r.machine.state ≠ .ended →
          Alike { s with reader := r } { s' with reader := r' } := fun r r' hr hbetween =>
        ⟨h.state, hr, hbetween, h.writeBuffer, h.index⟩
      simp only [SocketIo.processMessages]
      cases hprocess.machine with
      | failed left right =>
          rw [left.isErrored, right.isErrored, if_pos rfl, if_pos rfl]
          exact (hnext _ _ hprocess (by simp [left.state])).stopInternal true
      | waits behind left right =>
          simp only [left.isErrored, right.isErrored, left.isFinished, right.isFinished,
            Bool.false_eq_true, if_false]
          exact ⟨trivial, hnext _ _ hprocess left.state_ne⟩
      | delivers left right data =>
          simp only [left.isErrored, right.isErrored, left.isFinished, right.isFinished,
            Bool.false_eq_true, if_false, if_true, data]
          have hreset : s.reader.process.reset.Alike s'.reader.process.reset :=
            ⟨.waits none (Reader.waits_reset _) (Reader.waits_reset _), hprocess.buffer⟩
          obtain ⟨houtputs, hafter⟩ :=
            ih (hnext _ _ hreset (Reader.waits_reset s.reader.process).state_ne)
          exact ⟨by rw [houtputs], hafter⟩

theorem Alike.processNewData (h : Alike s s') :
    s.processNewData.2 = s'.processNewData.2 ∧ Alike s.processNewData.1 s'.processNewData.1 := by
  rw [SocketIo.processNewData, SocketIo.processNewData, h.reader.buffer.readAvailable]
  exact h.processMessages _

theorem Alike.onReadReady (h : Alike s s') (first second : ReadCall) :
    (s.onReadReady first second).2 = (s'.onReadReady first second).2 ∧
      Alike (s.onReadReady first second).1 (s'.onReadReady first second).1 := by
  rw [SocketIo.onReadReady, SocketIo.onReadReady, h.state]
  by_cases hconnected : s'.state = .connected
  · obtain ⟨htransfer, hbuffer⟩ := h.reader.buffer.readFrom first second
    have hread : Alike { s with reader := (s.reader.update first second).1 }
        { s' with reader := (s'.reader.update first second).1 } :=
      ⟨h.state, ⟨h.reader.machine, hbuffer⟩, h.between, h.writeBuffer, h.index⟩
    have houtcome : (s.reader.update first second).2.outcome =
        (s'.reader.update first second).2.outcome := congrArg Transfer.outcome htransfer
    rw [if_pos hconnected, if_pos hconnected]
    simp only [houtcome]
    rw [h.state] at hread
    cases (s'.reader.update first second).2.outcome with
    | some _ => exact hread.processNewData
    | none =>
        obtain ⟨hclosed, hstopped⟩ := hread.stopInternal true
        obtain ⟨houtputs, hafter⟩ := hstopped.processNewData
        simp only [hclosed, houtputs]
        exact ⟨trivial, hafter⟩
  · rw [if_neg hconnected, if_neg hconnected]
    exact ⟨rfl, h⟩

theorem Alike.onWriteReady (h : Alike s s') (finalized : Bool) (first second : WriteCall) :
    (s.onWriteReady finalized first second).2 = (s'.onWriteReady finalized first second).2 ∧
      Alike (s.onWriteReady finalized first second).1
        (s'.onWriteReady finalized first second).1 := by
  obtain ⟨htransfer, hbuffer⟩ := h.writeBuffer.writeInto first second
  have hwritten : Alike { s with writeBuffer := (s.writeBuffer.writeInto first second).buffer }
      { s' with writeBuffer := (s'.writeBuffer.writeInto first second).buffer } :=
    ⟨h.state, h.reader, h.between, hbuffer, h.index⟩
  have hstate := h.state
  rw [SocketIo.onWriteReady, SocketIo.onWriteReady]
  cases hs : s.state with
  | idle | bound =>
      rw [hs] at hstate
      simp only [← hstate]
      exact ⟨trivial, h⟩
  | connecting =>
      rw [hs] at hstate
      simp only [← hstate]
      split_ifs
      · exact ⟨rfl, h.withState .connected⟩
      · exact h.stopInternal true
  | connected =>
      rw [hs] at hstate hwritten
      rw [← hstate] at hwritten
      simp only [← hstate, htransfer]
      cases (s'.writeBuffer.writeInto first second).value.outcome with
      | some _ => exact ⟨rfl, hwritten⟩
      | none =>
          obtain ⟨houtputs, hstopped⟩ := hwritten.stopInternal true
          simp only [houtputs]
          exact ⟨trivial, hstopped⟩

/-- Alike objects show the same in a step and are alike after it. -/
theorem Alike.step (h : Alike s s') (input : Input) :
    (s.step input).2 = (s'.step input).2 ∧ Alike (s.step input).1 (s'.step input).1 := by
  cases input with
  | start connected => exact ⟨rfl, h.start connected⟩
  | stop => exact h.stopInternal false
  | connect accepted => exact h.connect accepted
  | write type message =>
      obtain ⟨houtputs, hafter⟩ := h.write type message
      refine ⟨?_, hafter⟩
      show (s.write type message).2.2 = (s'.write type message).2.2
      rw [houtputs]
  | readReady first second => exact h.onReadReady first second
  | writeReady finalized first second => exact h.onWriteReady finalized first second
  | hungOrError => exact h.stopInternal true

end SocketIo

/-- An object with its side of a connection, and what it has shown so far. -/
structure SocketSession where
  io : SocketIo
  /-- The bytes that have arrived at the socket and are not read yet. -/
  arrived : List UInt8
  /-- The peer has closed its side. -/
  closed : Bool
  messages : List (MessageHeader × List UInt8)
  sent : List UInt8

namespace SocketSession

inductive Event
  | arrives (bytes : List UInt8)
  | closes
  | readReady
  | write (type : UInt8) (message : List UInt8)
  | writeReady (room : ℕ)
  | hungOrError
  | stop
  deriving DecidableEq, Repr

/-- A session of an object that has just been connected. -/
def start (io : SocketIo) : SocketSession where
  io
  arrived := []
  closed := false
  messages := []
  sent := []

/-- `socket::read`; the end of the stream throws. -/
def socketRead (closed : Bool) (arrived : List UInt8) : ReadCall :=
  if closed ∧ arrived = [] then .throws else .delivers arrived

/-- `socket::write` of `size` bytes; a socket without room throws. -/
def socketWrite (room size : ℕ) : WriteCall :=
  if room = 0 ∧ 0 < size then .throws else .takes room

variable (s : SocketSession)

def firstRead : ReadCall := socketRead s.closed s.arrived

/-- A second call comes after a first one that delivered all it was asked for. -/
def secondRead : ReadCall :=
  socketRead s.closed (s.arrived.drop s.io.reader.readBuffer.firstRequest)

def firstWrite (room : ℕ) : WriteCall := socketWrite room s.io.writeBuffer.firstOffer

def secondWrite (room : ℕ) : WriteCall :=
  socketWrite (room - s.io.writeBuffer.firstOffer) s.io.writeBuffer.writePos

def perform (input : SocketIo.Input) : SocketSession :=
  let (io, outputs) := s.io.step input
  { s with
    io
    messages := s.messages ++ SocketIo.messagesIn outputs
    sent := s.sent ++ SocketIo.sentIn outputs }

def step (s : SocketSession) : Event → SocketSession
  | .arrives bytes => { s with arrived := s.arrived ++ bytes }
  | .closes => { s with closed := true }
  | .readReady =>
      let taken :=
        if s.io.state = .connected then
          (s.io.reader.update s.firstRead s.secondRead).2.bytes.length
        else 0
      { s.perform (.readReady s.firstRead s.secondRead) with arrived := s.arrived.drop taken }
  | .write type message => s.perform (.write type message)
  | .writeReady room => s.perform (.writeReady true (s.firstWrite room) (s.secondWrite room))
  | .hungOrError => s.perform .hungOrError
  | .stop => s.perform .stop

def run (io : SocketIo) (events : List Event) : SocketSession := events.foldl step (start io)

/-- Sessions that have shown the same, of objects that are alike. -/
structure Alike (s s' : SocketSession) : Prop where
  io : s.io.Alike s'.io
  arrived : s.arrived = s'.arrived
  closed : s.closed = s'.closed
  messages : s.messages = s'.messages
  sent : s.sent = s'.sent

variable {s} {s' : SocketSession}

theorem Alike.perform (h : Alike s s') (input : SocketIo.Input) :
    Alike (s.perform input) (s'.perform input) := by
  obtain ⟨houtputs, hafter⟩ := h.io.step input
  refine ⟨hafter, h.arrived, h.closed, ?_, ?_⟩
  · show s.messages ++ SocketIo.messagesIn (s.io.step input).2 =
      s'.messages ++ SocketIo.messagesIn (s'.io.step input).2
    rw [h.messages, houtputs]
  · show s.sent ++ SocketIo.sentIn (s.io.step input).2 =
      s'.sent ++ SocketIo.sentIn (s'.io.step input).2
    rw [h.sent, houtputs]

theorem Alike.step (h : Alike s s') (event : Event) : Alike (s.step event) (s'.step event) := by
  cases event with
  | arrives bytes =>
      exact ⟨h.io, congrArg (· ++ bytes) h.arrived, h.closed, h.messages, h.sent⟩
  | closes => exact ⟨h.io, h.arrived, rfl, h.messages, h.sent⟩
  | readReady =>
      have hfirst : s.firstRead = s'.firstRead := by
        rw [firstRead, firstRead, h.arrived, h.closed]
      have hsecond : s.secondRead = s'.secondRead := by
        rw [secondRead, secondRead, h.arrived, h.closed, h.io.reader.buffer.firstRequest]
      have htransfer := (h.io.reader.buffer.readFrom s'.firstRead s'.secondRead).1
      have hafter := h.perform (.readReady s'.firstRead s'.secondRead)
      rw [SocketSession.step, SocketSession.step, hfirst, hsecond]
      refine ⟨hafter.io, ?_, hafter.closed, hafter.messages, hafter.sent⟩
      simp only [Reader.update, htransfer, h.io.state, h.arrived]
  | write type message => exact h.perform (.write type message)
  | writeReady room =>
      have hfirst : s.firstWrite room = s'.firstWrite room := by
        rw [firstWrite, firstWrite, h.io.writeBuffer.firstOffer]
      have hsecond : s.secondWrite room = s'.secondWrite room := by
        rw [secondWrite, secondWrite, h.io.writeBuffer.firstOffer, h.io.writeBuffer.writePos]
      rw [SocketSession.step, SocketSession.step, hfirst, hsecond]
      exact h.perform _
  | hungOrError => exact h.perform .hungOrError
  | stop => exact h.perform .stop

/-- Alike objects show the same in every session. -/
theorem alike_run {io io' : SocketIo} (h : io.Alike io') (events : List Event) :
    Alike (run io events) (run io' events) := by
  have hstart : Alike (start io) (start io') := ⟨h, rfl, rfl, rfl, rfl⟩
  rw [run, run]
  generalize start io = s at hstart ⊢
  generalize start io' = s' at hstart ⊢
  induction events generalizing s s' with
  | nil => exact hstart
  | cons event events ih => exact ih _ _ (hstart.step event)

end SocketSession

end Obsr.Net
