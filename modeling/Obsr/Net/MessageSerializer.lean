/-
# The message serializer

`message_serializer` writes the fields of a message into a buffer of its own, and
`message_queue::write_message` hands the type and these bytes to the destination.
-/

import Obsr.Io.Serializer
import Obsr.Net.Message

namespace Obsr.Net

open Obsr.Io Obsr.Lib

/-- `count()` of a time, converted to an unsigned number. -/
def count (time : ℤ) : UInt64 := (Int64.ofInt time).toUInt64

namespace MessageSerializer

def writerBufferSize : ℕ := 512

def entryIdAssign (id : EntryId) (name : Text) : Serialize :=
  (Serializer.write16 id).andThen (Serializer.writeStr name)

/-- The tag of a value and its bytes. -/
def typedValue (behind : Behind) (value : Value) : Serialize :=
  (Serializer.write8 value.type.toByte).andThen (Serializer.writeValue behind value)

def entryCreated (behind : Behind) (sendTime : ℤ) (name : Text) (value : Value) : Serialize :=
  (Serializer.write64 (count sendTime)).andThen
    ((Serializer.writeStr name).andThen (typedValue behind value))

def entryUpdated (behind : Behind) (sendTime : ℤ) (id : EntryId) (value : Value) : Serialize :=
  (Serializer.write64 (count sendTime)).andThen
    ((Serializer.write16 id).andThen (typedValue behind value))

def entryDeleted (sendTime : ℤ) (id : EntryId) : Serialize :=
  (Serializer.write64 (count sendTime)).andThen (Serializer.write16 id)

def timeSyncRequest (sendTime : ℤ) : Serialize := Serializer.write64 (count sendTime)

def timeSyncResponse (sendTime requestTime : ℤ) : Serialize :=
  (Serializer.write64 (count sendTime)).andThen (Serializer.write64 (count requestTime))

end MessageSerializer

namespace OutMessage

/-- The method of the serializer that `write_message` selects for a message.
`write_basic` hands over no bytes at all, and a message without a type is not
handed over. -/
def serializer (behind : Behind) (message : OutMessage) : Option Serialize :=
  match message.type with
  | .entryCreate =>
      some (MessageSerializer.entryCreated behind message.sendTime message.name message.value)
  | .entryUpdate =>
      some (MessageSerializer.entryUpdated behind message.sendTime message.id message.value)
  | .entryDelete => some (MessageSerializer.entryDeleted message.sendTime message.id)
  | .entryIdAssign => some (MessageSerializer.entryIdAssign message.id message.name)
  | .timeSyncRequest => some (MessageSerializer.timeSyncRequest message.sendTime)
  | .timeSyncResponse =>
      some (MessageSerializer.timeSyncResponse message.sendTime message.time)
  | .handshakeReady | .handshakeFinished => some SymbolWriter.done
  | .noType | .unknown _ => none

end OutMessage

namespace MessageQueue

/-- What `m_destination` is given, and its answer. -/
abbrev Destination (δ : Type) := UInt8 → List UInt8 → δ → Bool × δ

/-- `write_message`; the buffer of the serializer is reset first. -/
def writeMessage {δ : Type} (behind : Behind) (destination : Destination δ)
    (message : OutMessage) (d : δ) : Bool × δ :=
  match message.serializer behind with
  | none => (true, d)
  | some serializer =>
      match serializer (BoundedBuffer.empty MessageSerializer.writerBufferSize) with
      | none => (false, d)
      | some buffer => destination message.type.toByte buffer.written d

end MessageQueue

end Obsr.Net
