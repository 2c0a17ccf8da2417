/-
# The outgoing queue and its serializer

`message_queue` with the one buffer all of its messages are serialized into, and with
every offer it makes to its destination. The destination accepts or refuses, in any
sequence of answers.

The code looks at nothing but the message of what it queues. The queue is therefore over
any elements that hold a message: with the messages themselves it is the queue of the
source, and with tickets it keeps track of which call a message came from.
-/

import Obsr.Io.BufferSerializer
import Obsr.Net.Sending

namespace Obsr.Net

open Obsr.Io Obsr.Lib

/-! ## The serializer of messages -/

namespace MessageBuffer

def entryIdAssign (id : EntryId) (name : Text) : BufferSerialize :=
  (BufferSerializer.write16 id).andThen (BufferSerializer.writeStr name)

/-- The tag of a value and its bytes. -/
def typedValue (behind : Behind) (value : Value) : BufferSerialize :=
  (BufferSerializer.write8 value.type.toByte).andThen (BufferSerializer.writeValue behind value)

def entryCreated (behind : Behind) (sendTime : ℤ) (name : Text) (value : Value) :
    BufferSerialize :=
  (BufferSerializer.write64 (count sendTime)).andThen
    ((BufferSerializer.writeStr name).andThen (typedValue behind value))

def entryUpdated (behind : Behind) (sendTime : ℤ) (id : EntryId) (value : Value) :
    BufferSerialize :=
  (BufferSerializer.write64 (count sendTime)).andThen
    ((BufferSerializer.write16 id).andThen (typedValue behind value))

def entryDeleted (sendTime : ℤ) (id : EntryId) : BufferSerialize :=
  (BufferSerializer.write64 (count sendTime)).andThen (BufferSerializer.write16 id)

def timeSyncRequest (sendTime : ℤ) : BufferSerialize := BufferSerializer.write64 (count sendTime)

def timeSyncResponse (sendTime requestTime : ℤ) : BufferSerialize :=
  (BufferSerializer.write64 (count sendTime)).andThen
    (BufferSerializer.write64 (count requestTime))

/-- `reset()`: the size stays. -/
def reset (buffer : LinearBuffer) : LinearBuffer := BoundedBuffer.empty buffer.size

end MessageBuffer

/-! ## The queue -/

/-- What the destination was given, for which message, and what it has answered. -/
structure Offer (τ : Type) where
  element : τ
  type : UInt8
  payload : List UInt8
  accepted : Bool
  deriving DecidableEq, Repr

/-- The fields of `message_queue`: the buffer of `m_serializer`, `m_outgoing`, and the
offers made to `m_destination` so far. -/
structure OutgoingQueue (τ : Type) where
  serializer : LinearBuffer
  outgoing : List τ
  offers : List (Offer τ)

/-- A call of a queue that is never cleared. -/
inductive QueueCall (τ : Type)
  | enqueue (element : τ) (flags : UInt8)
  | process

namespace OutgoingQueue

variable {τ : Type}

def flagImmediate : UInt8 := 1

def new : OutgoingQueue τ where
  serializer := BoundedBuffer.empty MessageSerializer.writerBufferSize
  outgoing := []
  offers := []

section

variable (behind : Behind) (answers : ℕ → Bool) (message : τ → OutMessage)

/-- `m_destination(type, data, size)`. -/
def offer (element : τ) (type : MessageType) (payload : List UInt8) (q : OutgoingQueue τ) :
    Bool × OutgoingQueue τ :=
  let accepted := answers q.offers.length
  (accepted,
    { q with offers := q.offers ++ [⟨element, type.toByte, payload, accepted⟩] })

/-- What the `write_*` have in common: a buffer that is reset, a method of the serializer,
and its bytes for the destination. -/
def writeWith (element : τ) (type : MessageType) (method : BufferSerialize)
    (q : OutgoingQueue τ) : Bool × OutgoingQueue τ :=
  match method.run (MessageBuffer.reset q.serializer) with
  | (true, serializer) =>
      offer answers element type serializer.written { q with serializer }
  | (false, serializer) => (false, { q with serializer })

def writeEntryCreated (element : τ) : OutgoingQueue τ → Bool × OutgoingQueue τ :=
  writeWith answers element .entryCreate
    (MessageBuffer.entryCreated behind (message element).sendTime (message element).name
      (message element).value)

def writeEntryUpdated (element : τ) : OutgoingQueue τ → Bool × OutgoingQueue τ :=
  writeWith answers element .entryUpdate
    (MessageBuffer.entryUpdated behind (message element).sendTime (message element).id
      (message element).value)

def writeEntryDeleted (element : τ) : OutgoingQueue τ → Bool × OutgoingQueue τ :=
  writeWith answers element .entryDelete
    (MessageBuffer.entryDeleted (message element).sendTime (message element).id)

def writeEntryIdAssigned (element : τ) : OutgoingQueue τ → Bool × OutgoingQueue τ :=
  writeWith answers element .entryIdAssign
    (MessageBuffer.entryIdAssign (message element).id (message element).name)

def writeTimeSyncRequest (element : τ) : OutgoingQueue τ → Bool × OutgoingQueue τ :=
  writeWith answers element .timeSyncRequest
    (MessageBuffer.timeSyncRequest (message element).sendTime)

def writeTimeSyncResponse (element : τ) : OutgoingQueue τ → Bool × OutgoingQueue τ :=
  writeWith answers element .timeSyncResponse
    (MessageBuffer.timeSyncResponse (message element).sendTime (message element).time)

/-- No bytes at all, whatever the buffer holds. -/
def writeBasic (element : τ) : OutgoingQueue τ → Bool × OutgoingQueue τ :=
  offer answers element (message element).type []

def writeMessage (element : τ) (q : OutgoingQueue τ) : Bool × OutgoingQueue τ :=
  match (message element).type with
  | .entryCreate => writeEntryCreated behind answers message element q
  | .entryUpdate => writeEntryUpdated behind answers message element q
  | .entryDelete => writeEntryDeleted answers message element q
  | .entryIdAssign => writeEntryIdAssigned answers message element q
  | .timeSyncRequest => writeTimeSyncRequest answers message element q
  | .timeSyncResponse => writeTimeSyncResponse answers message element q
  | .handshakeReady | .handshakeFinished => writeBasic answers message element q
  | .noType | .unknown _ => (true, q)

def enqueue (element : τ) (flags : UInt8) (q : OutgoingQueue τ) : OutgoingQueue τ :=
  if flags &&& flagImmediate ≠ 0 then
    match writeMessage behind answers message element q with
    | (true, q) => q
    | (false, q) => { q with outgoing := element :: q.outgoing }
  else { q with outgoing := q.outgoing ++ [element] }

/-- The loop of `process`, from the iterator on. What was before it is erased. -/
def processFrom : List τ → OutgoingQueue τ → OutgoingQueue τ
  | [], q => { q with outgoing := [] }
  | element :: elements, q =>
      match writeMessage behind answers message element
        { q with outgoing := element :: elements } with
      | (true, q) => processFrom elements q
      | (false, q) => q

def process (q : OutgoingQueue τ) : OutgoingQueue τ :=
  processFrom behind answers message q.outgoing q

def call (q : OutgoingQueue τ) : QueueCall τ → OutgoingQueue τ
  | .enqueue element flags => enqueue behind answers message element flags q
  | .process => process behind answers message q

/-- A new queue after these calls. -/
def run (calls : List (QueueCall τ)) : OutgoingQueue τ :=
  calls.foldl (call behind answers message) new

end

/-! ## What a write does -/

/-- The message has one of the types of the protocol. -/
def Typed (message : OutMessage) : Prop :=
  message.type ≠ .noType ∧ ∀ byte, message.type ≠ .unknown byte

variable {behind : Behind} {answers : ℕ → Bool} {message : τ → OutMessage}

/-- How a write of a message ends: it has offered the encoding of this message on its own,
and returns the answer, or there is none and it has offered nothing. -/
inductive Written (behind : Behind) (answers : ℕ → Bool) (message : τ → OutMessage)
    (element : τ) (q : OutgoingQueue τ) : Bool × OutgoingQueue τ → Prop
  | offered {type : UInt8} {payload : List UInt8} {serializer : LinearBuffer}
      (hsize : serializer.size = q.serializer.size)
      (encodes : Sending.handedOver behind (message element) = some (type, payload)) :
      Written behind answers message element q (answers q.offers.length,
        { q with
          serializer
          offers := q.offers ++ [⟨element, type, payload, answers q.offers.length⟩] })
  | unserialized {serializer : LinearBuffer} (hsize : serializer.size = q.serializer.size)
      (fails : Sending.handedOver behind (message element) = none) :
      Written behind answers message element q (false, { q with serializer })

variable {element : τ} {q : OutgoingQueue τ}

/-- The buffer is reset first, so it does not matter what it was left with. -/
theorem written_writeWith {type : MessageType} {method : BufferSerialize}
    (htype : (message element).type = type)
    (hserializer : (message element).serializer behind = some method.toSymbolWriter)
    (hsize : q.serializer.size = MessageSerializer.writerBufferSize) :
    Written behind answers message element q (writeWith answers element type method q) := by
  have hreset : MessageBuffer.reset q.serializer =
      BoundedBuffer.empty MessageSerializer.writerBufferSize :=
    congrArg BoundedBuffer.empty hsize
  have hhanded : Sending.handedOver behind (message element) =
      (method.toSymbolWriter (MessageBuffer.reset q.serializer)).map fun buffer =>
        (type.toByte, buffer.written) := by
    rw [Sending.handedOver, hserializer, hreset, htype]
    rfl
  have hkeeps := method.keepsSize (MessageBuffer.reset q.serializer)
  rw [writeWith]
  rcases hrun : method.run (MessageBuffer.reset q.serializer) with ⟨written, left⟩
  rw [BufferWriter.toSymbolWriter, hrun] at hhanded
  rw [hrun] at hkeeps
  cases written with
  | true => exact .offered hkeeps hhanded
  | false => exact .unserialized hkeeps hhanded

open BufferSerializer BufferWriter in
/-- The spec of `write_message`. -/
theorem written_writeMessage (htyped : Typed (message element))
    (hsize : q.serializer.size = MessageSerializer.writerBufferSize) :
    Written behind answers message element q
      (writeMessage behind answers message element q) := by
  have hvalue : ∀ value, (MessageBuffer.typedValue behind value).toSymbolWriter =
      MessageSerializer.typedValue behind value := by
    intro value
    rw [MessageBuffer.typedValue, toSymbolWriter_andThen, toSymbolWriter_write8,
      toSymbolWriter_writeValue]
    rfl
  rw [writeMessage]
  cases htype : (message element).type
  case noType => exact absurd htype htyped.1
  case unknown byte => exact absurd htype (htyped.2 byte)
  case handshakeReady | handshakeFinished =>
    refine @Written.offered τ behind answers message element q _ _ q.serializer rfl ?_
    rw [Sending.handedOver, OutMessage.serializer, htype]
    rfl
  all_goals
    refine written_writeWith htype ?_ hsize
    rw [OutMessage.serializer, htype]
  case entryCreate =>
    simp only [MessageBuffer.entryCreated, toSymbolWriter_andThen, toSymbolWriter_write64,
      toSymbolWriter_writeStr, hvalue, MessageSerializer.entryCreated]
  case entryUpdate =>
    simp only [MessageBuffer.entryUpdated, toSymbolWriter_andThen, toSymbolWriter_write64,
      toSymbolWriter_write16, hvalue, MessageSerializer.entryUpdated]
  case entryDelete =>
    simp only [MessageBuffer.entryDeleted, toSymbolWriter_andThen, toSymbolWriter_write64,
      toSymbolWriter_write16, MessageSerializer.entryDeleted]
  case entryIdAssign =>
    simp only [MessageBuffer.entryIdAssign, toSymbolWriter_andThen, toSymbolWriter_writeStr,
      toSymbolWriter_write16, MessageSerializer.entryIdAssign]
  case timeSyncRequest =>
    simp only [MessageBuffer.timeSyncRequest, toSymbolWriter_write64,
      MessageSerializer.timeSyncRequest]
  case timeSyncResponse =>
    simp only [MessageBuffer.timeSyncResponse, toSymbolWriter_andThen, toSymbolWriter_write64,
      MessageSerializer.timeSyncResponse]

end OutgoingQueue

end Obsr.Net
