/-
# The framed socket

`socket_io` writes messages into a circular buffer that it empties into its
socket, and hands the messages a reader finds in the bytes of the socket to its
owner. What the socket does is part of the input of a step. What the owner and
the peer see of a step, the calls of the callbacks and the bytes that went into
the socket, is its output.

The looper only decides when the steps come. The callbacks are taken not to call
back into the object.
-/

import Obsr.Net.Reader

namespace Obsr.Net

open Obsr.Io Obsr.Lib

namespace SocketIo

inductive State
  | idle
  | bound
  | connecting
  | connected
  deriving DecidableEq, Repr

/-- What a step shows to the outside. -/
inductive Output
  | onConnect
  | onClose
  | onMessage (header : MessageHeader) (message : List UInt8)
  | sent (bytes : List UInt8)
  deriving DecidableEq, Repr

/-- The calls of `on_message` among the outputs. -/
def messagesIn (outputs : List Output) : List (MessageHeader × List UInt8) :=
  outputs.filterMap fun
    | .onMessage header message => some (header, message)
    | _ => none

/-- The bytes among the outputs that went into the socket. -/
def sentIn (outputs : List Output) : List UInt8 :=
  outputs.flatMap fun
    | .sent bytes => bytes
    | _ => []

def bufferSize : ℕ := 1024

/-- The memory an object is constructed in: its two arrays and the data of its
reader are not initialised. -/
structure Memory where
  readArray : List UInt8
  writeArray : List UInt8
  data : ReadData
  readSize : readArray.length = bufferSize
  writeSize : writeArray.length = bufferSize

/-- Memory of which every byte happens to be zero. -/
def Memory.blank : Memory where
  readArray := List.replicate bufferSize 0
  writeArray := List.replicate bufferSize 0
  data := ⟨MessageHeader.ofBytes [], []⟩
  readSize := List.length_replicate
  writeSize := List.length_replicate

end SocketIo

structure SocketIo where
  state : SocketIo.State
  reader : Reader
  writeBuffer : CircularBuffer
  nextMessageIndex : UInt32
  deriving DecidableEq, Repr

namespace SocketIo

def new (memory : Memory) : SocketIo where
  state := .idle
  reader :=
    { machine :=
        { state := .start, userState := .header, errorCode := 0, data := memory.data }
      readBuffer := CircularBuffer.new memory.readArray }
  writeBuffer := CircularBuffer.new memory.writeArray
  nextMessageIndex := 0

/-- `stop_internal`: nothing but the state changes. -/
def stopInternal (s : SocketIo) (notify : Bool) : SocketIo × List Output :=
  if s.state = .idle then (s, [])
  else ({ s with state := .idle }, if notify then [.onClose] else [])

/-- `start(looper, socket, connected)`; it throws if the object was started. -/
def start (s : SocketIo) (connected : Bool) : SocketIo :=
  if s.state = .idle then { s with state := if connected then .connected else .bound } else s

def stop (s : SocketIo) : SocketIo × List Output := s.stopInternal false

/-- `connect`; `accepted` says whether the socket starts to connect. -/
def connect (s : SocketIo) (accepted : Bool) : SocketIo × List Output :=
  match s.state with
  | .idle | .connecting | .connected => (s, [])
  | .bound =>
      if accepted then ({ s with state := .connecting }, [])
      else { s with state := .connecting }.stopInternal true

/-- The header `write` puts before a message. -/
def headerFor (s : SocketIo) (type : UInt8) (message : List UInt8) : MessageHeader where
  magic := MessageHeader.messageMagic
  version := MessageHeader.currentVersion
  index := s.nextMessageIndex
  type
  messageSize := UInt32.ofNat message.length

/-- `write`, with what it returns; in an object that is not started, the looper
throws when the bytes are in the buffer. -/
def write (s : SocketIo) (type : UInt8) (message : List UInt8) :
    SocketIo × Option Bool × List Output :=
  if s.writeBuffer.canWrite (MessageHeader.sizeOf + message.length) then
    let header := s.writeBuffer.write (s.headerFor type message).toBytes
    let s := { s with nextMessageIndex := s.nextMessageIndex + 1, writeBuffer := header.buffer }
    if header.value then
      let body := s.writeBuffer.write message
      if message.length > 0 ∧ body.value = false then
        let (s, outputs) := s.stopInternal true
        (s, some false, outputs)
      else
        let s := if message.length > 0 then { s with writeBuffer := body.buffer } else s
        (s, if s.state = .idle then none else some true, [])
    else (s, some false, [])
  else (s, some false, [])

/-- The loop of `process_new_data`. A round that delivers a message has a header
taken out of the buffer, before it or in it. -/
def processMessages : ℕ → SocketIo → SocketIo × List Output
  | 0, s => (s, [])
  | bound + 1, s =>
      let s := { s with reader := s.reader.process }
      if s.reader.machine.isErrored then s.stopInternal true
      else if s.reader.machine.isFinished then
        let data := s.reader.machine.data
        let (s, outputs) := processMessages bound { s with reader := s.reader.reset }
        (s, .onMessage data.header data.messageBuffer :: outputs)
      else (s, [])

def processNewData (s : SocketIo) : SocketIo × List Output :=
  s.processMessages (s.reader.readBuffer.readAvailable + 2)

def onReadReady (s : SocketIo) (first second : ReadCall) : SocketIo × List Output :=
  if s.state = .connected then
    let (reader, transfer) := s.reader.update first second
    let s := { s with reader }
    match transfer.outcome with
    | none =>
        let (s, closed) := s.stopInternal true
        let (s, outputs) := s.processNewData
        (s, closed ++ outputs)
    | some _ => s.processNewData
  else (s, [])

/-- `on_write_ready`; `finalized` says whether a connection that is being made
succeeds. -/
def onWriteReady (s : SocketIo) (finalized : Bool) (first second : WriteCall) :
    SocketIo × List Output :=
  match s.state with
  | .connecting =>
      if finalized then ({ s with state := .connected }, [.onConnect])
      else s.stopInternal true
  | .connected =>
      let result := s.writeBuffer.writeInto first second
      let s := { s with writeBuffer := result.buffer }
      match result.value.outcome with
      | none =>
          let (s, outputs) := s.stopInternal true
          (s, .sent result.value.bytes :: outputs)
      | some _ => (s, [.sent result.value.bytes])
  | .idle | .bound => (s, [])

def onHungOrError (s : SocketIo) : SocketIo × List Output := s.stopInternal true

/-- One call of an object, with what its socket does. -/
inductive Input
  | start (connected : Bool)
  | stop
  | connect (accepted : Bool)
  | write (type : UInt8) (message : List UInt8)
  | readReady (first second : ReadCall)
  | writeReady (finalized : Bool) (first second : WriteCall)
  | hungOrError
  deriving DecidableEq, Repr

def step (s : SocketIo) : Input → SocketIo × List Output
  | .start connected => (s.start connected, [])
  | .stop => s.stop
  | .connect accepted => s.connect accepted
  | .write type message =>
      let (s, _, outputs) := s.write type message
      (s, outputs)
  | .readReady first second => s.onReadReady first second
  | .writeReady finalized first second => s.onWriteReady finalized first second
  | .hungOrError => s.onHungOrError

theorem inBounds_new (memory : List UInt8) (hsize : memory.length = bufferSize) :
    (CircularBuffer.new memory).InBounds := by
  have hlength : (CircularBuffer.new memory).size = 1024 := hsize
  refine ⟨?_, ?_, ?_⟩
  · rw [hlength]
    exact Nat.zero_lt_of_lt (Nat.lt_succ_self 1023)
  · rw [hlength]
    exact Nat.zero_lt_of_lt (Nat.lt_succ_self 1023)
  · rw [hlength]
    decide

/-! ## The cases of a write -/

/-- The object after a header went into its write buffer. -/
def counted (s : SocketIo) (writeBuffer : CircularBuffer) : SocketIo :=
  { s with nextMessageIndex := s.nextMessageIndex + 1, writeBuffer }

/-- What writing the header of a message does to the write buffer. -/
def headerWritten (s : SocketIo) (type : UInt8) (message : List UInt8) : Result Bool :=
  s.writeBuffer.write (s.headerFor type message).toBytes

variable {s : SocketIo} {type : UInt8} {message : List UInt8}

theorem write_of_not_canWrite
    (hroom : s.writeBuffer.canWrite (MessageHeader.sizeOf + message.length) = false) :
    s.write type message = (s, some false, []) := by
  simp [SocketIo.write, hroom]

theorem write_of_no_header
    (hroom : s.writeBuffer.canWrite (MessageHeader.sizeOf + message.length) = true)
    (hheader : (s.headerWritten type message).value = false) :
    s.write type message = (s.counted (s.headerWritten type message).buffer, some false, []) := by
  rw [headerWritten] at hheader
  simp [SocketIo.write, hroom, hheader, counted, headerWritten]

theorem write_of_nil (hroom : s.writeBuffer.canWrite MessageHeader.sizeOf = true)
    (hheader : (s.headerWritten type []).value = true) :
    s.write type [] =
      (s.counted (s.headerWritten type []).buffer,
        if s.state = .idle then none else some true, []) := by
  rw [headerWritten] at hheader
  simp [SocketIo.write, hroom, hheader, counted, headerWritten]

/-- The header is in the buffer and the message does not fit behind it. -/
theorem write_of_no_body (hpos : 0 < message.length)
    (hroom : s.writeBuffer.canWrite (MessageHeader.sizeOf + message.length) = true)
    (hheader : (s.headerWritten type message).value = true)
    (hbody : ((s.headerWritten type message).buffer.write message).value = false) :
    s.write type message =
      (((s.counted (s.headerWritten type message).buffer).stopInternal true).1, some false,
        ((s.counted (s.headerWritten type message).buffer).stopInternal true).2) := by
  rw [headerWritten] at hheader hbody
  simp [SocketIo.write, hroom, hheader, hpos, hbody, counted, headerWritten]

theorem write_of_body (hpos : 0 < message.length)
    (hroom : s.writeBuffer.canWrite (MessageHeader.sizeOf + message.length) = true)
    (hheader : (s.headerWritten type message).value = true)
    (hbody : ((s.headerWritten type message).buffer.write message).value = true) :
    s.write type message =
      (s.counted ((s.headerWritten type message).buffer.write message).buffer,
        if s.state = .idle then none else some true, []) := by
  rw [headerWritten] at hheader hbody
  simp [SocketIo.write, hroom, hheader, hpos, hbody, counted, headerWritten]

/-- A header that does not fill the buffer is appended to what it holds. -/
theorem content_headerWritten (h : s.writeBuffer.InBounds)
    (hvalue : (s.headerWritten type message).value = true)
    (hne : s.writeBuffer.free ≠ MessageHeader.sizeOf) :
    (s.headerWritten type message).buffer.InBounds ∧
      (s.headerWritten type message).buffer.content =
        s.writeBuffer.content ++ (s.headerFor type message).toBytes ∧
      (s.headerWritten type message).buffer.free + MessageHeader.sizeOf = s.writeBuffer.free := by
  have hlength : (s.headerFor type message).toBytes.length = MessageHeader.sizeOf :=
    MessageHeader.length_toBytes _
  rw [← hlength]
  exact CircularBuffer.write_of_value h hvalue (hlength ▸ hne.symm)

/-- A `write` that returns `true` has put the header and then the message into the
buffer. -/
theorem write_accepted (h : (s.write type message).2.1 = some true) :
    (s.headerWritten type message).value = true ∧
      (0 < message.length → ((s.headerWritten type message).buffer.write message).value = true) ∧
      (s.write type message).1 = s.counted
        (if 0 < message.length then ((s.headerWritten type message).buffer.write message).buffer
        else (s.headerWritten type message).buffer) := by
  cases hroom : s.writeBuffer.canWrite (MessageHeader.sizeOf + message.length) with
  | false =>
      rw [write_of_not_canWrite hroom] at h
      cases h
  | true =>
      cases hheader : (s.headerWritten type message).value with
      | false =>
          rw [write_of_no_header hroom hheader] at h
          cases h
      | true =>
          rcases Nat.eq_zero_or_pos message.length with hzero | hpos
          · obtain rfl := List.length_eq_zero_iff.mp hzero
            rw [write_of_nil hroom hheader]
            exact ⟨rfl, fun hpos => absurd hpos (Nat.lt_irrefl 0), by simp⟩
          · cases hbody : ((s.headerWritten type message).buffer.write message).value with
            | false =>
                rw [write_of_no_body hpos hroom hheader hbody] at h
                cases h
            | true =>
                rw [write_of_body hpos hroom hheader hbody, if_pos hpos]
                exact ⟨rfl, fun _ => rfl, rfl⟩

/-- A write does not look at the reader. -/
theorem write_withReader (s : SocketIo) (type : UInt8) (message : List UInt8)
    (reader : Reader) :
    ({ s with reader } : SocketIo).write type message =
      ({ (s.write type message).1 with reader }, (s.write type message).2) := by
  simp only [SocketIo.write, stopInternal, headerFor]
  split_ifs <;> rfl

/-! ## Writes that fail half way -/

theorem stopInternal_of_idle (h : s.state = .idle) (notify : Bool) :
    s.stopInternal notify = (s, []) := if_pos h

theorem stopInternal_of_ne_idle (h : s.state ≠ .idle) (notify : Bool) :
    s.stopInternal notify =
      ({ s with state := .idle }, if notify then [.onClose] else []) := if_neg h

/-- The header of a message fits into the write buffer and the message does not fit
behind it, in an object that was started. -/
def CutsShort (s : SocketIo) (type : UInt8) (message : List UInt8) : Prop :=
  s.state ≠ .idle ∧ 0 < message.length ∧
    s.writeBuffer.canWrite (MessageHeader.sizeOf + message.length) = true ∧
      (s.headerWritten type message).value = true ∧
        ((s.headerWritten type message).buffer.write message).value = false

instance (s : SocketIo) (type : UInt8) (message : List UInt8) :
    Decidable (s.CutsShort type message) := inferInstanceAs (Decidable (_ ∧ _))

/-- Such a write closes the object and returns `false`. -/
theorem write_of_cutsShort (h : s.CutsShort type message) :
    s.write type message =
      ({ s.counted (s.headerWritten type message).buffer with state := .idle }, some false,
        [.onClose]) := by
  obtain ⟨hstate, hpos, hroom, hheader, hbody⟩ := h
  have hstarted : (s.counted (s.headerWritten type message).buffer).state ≠ .idle := hstate
  rw [write_of_no_body hpos hroom hheader hbody, stopInternal_of_ne_idle hstarted]
  rfl

/-- Every other write calls nobody. -/
theorem write_of_not_cutsShort (h : ¬ s.CutsShort type message) :
    (s.write type message).1.state = s.state ∧ (s.write type message).2.2 = [] := by
  cases hroom : s.writeBuffer.canWrite (MessageHeader.sizeOf + message.length) with
  | false =>
      rw [write_of_not_canWrite hroom]
      exact ⟨rfl, rfl⟩
  | true =>
      cases hheader : (s.headerWritten type message).value with
      | false =>
          rw [write_of_no_header hroom hheader]
          exact ⟨rfl, rfl⟩
      | true =>
          rcases Nat.eq_zero_or_pos message.length with hzero | hpos
          · obtain rfl := List.length_eq_zero_iff.mp hzero
            rw [write_of_nil hroom hheader]
            exact ⟨rfl, rfl⟩
          · cases hbody : ((s.headerWritten type message).buffer.write message).value with
            | false =>
                have hidle : (s.counted (s.headerWritten type message).buffer).state = .idle := by
                  by_contra hstate
                  exact h ⟨hstate, hpos, hroom, hheader, hbody⟩
                rw [write_of_no_body hpos hroom hheader hbody, stopInternal_of_idle hidle]
                exact ⟨rfl, rfl⟩
            | true =>
                rw [write_of_body hpos hroom hheader hbody]
                exact ⟨rfl, rfl⟩

end SocketIo

end Obsr.Net
