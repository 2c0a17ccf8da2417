/-
# Messages into a socket

A `message_queue` writes its messages into a socket, one after the other until one is
refused. A write of which the header fits into the write buffer and the rest does not
closes the socket; it is the last one of its queue.
-/

import Obsr.Net.MessageSerializer
import Obsr.Net.SocketIo

namespace Obsr.Net

open Obsr.Io Obsr.Lib

/-- A socket that is written to, with its answers so far. -/
structure Sending where
  io : SocketIo
  answers : List Bool := []
  /-- A write has thrown. -/
  thrown : Bool := false
  /-- A write has called `on_close`. -/
  closed : Bool := false
  deriving DecidableEq, Repr

namespace Sending

/-- `m_destination`. A write that throws ends the work of the queue like one that is
refused. -/
def destination : MessageQueue.Destination Sending := fun type bytes sending =>
  let (io, result, outputs) := sending.io.write type bytes
  (result.getD false,
    { io
      answers := sending.answers ++ [result.getD false]
      thrown := sending.thrown || result.isNone
      closed := sending.closed || outputs.contains .onClose })

def writeMessage (behind : Behind) (message : OutMessage) (sending : Sending) : Bool × Sending :=
  MessageQueue.writeMessage behind destination message sending

/-- `process` of a queue. -/
def writeQueue (behind : Behind) (queue : MessageQueue) (sending : Sending) :
    MessageQueue × Sending :=
  MessageQueue.process (writeMessage behind) queue sending

/-! ## Writes that close the socket -/

/-- What `write_message` hands over for a message, if anything. -/
def handedOver (behind : Behind) (message : OutMessage) : Option (UInt8 × List UInt8) :=
  (message.serializer behind).bind fun serializer =>
    (serializer (BoundedBuffer.empty MessageSerializer.writerBufferSize)).map fun buffer =>
      (message.type.toByte, buffer.written)

/-- The bytes of the message do not fit behind its header. -/
def CutsShort (behind : Behind) (io : SocketIo) (message : OutMessage) : Prop :=
  ∃ bytes ∈ handedOver behind message, io.CutsShort bytes.1 bytes.2

/-- One of the messages that get to the socket is such a message. -/
def QueueCutsShort (behind : Behind) : Sending → MessageQueue → Prop
  | _, [] => False
  | sending, message :: queue =>
      CutsShort behind sending.io message ∨
        (writeMessage behind message sending).1 = true ∧
          QueueCutsShort behind (writeMessage behind message sending).2 queue

variable {behind : Behind}

theorem closed_destination (type : UInt8) (bytes : List UInt8) (sending : Sending) :
    (destination type bytes sending).2.closed = true ↔
      sending.closed = true ∨ sending.io.CutsShort type bytes := by
  show (sending.closed || (sending.io.write type bytes).2.2.contains .onClose) = true ↔ _
  rw [Bool.or_eq_true]
  refine or_congr Iff.rfl ?_
  by_cases hcuts : sending.io.CutsShort type bytes
  · rw [SocketIo.write_of_cutsShort hcuts]
    exact iff_of_true rfl hcuts
  · rw [(SocketIo.write_of_not_cutsShort hcuts).2]
    exact iff_of_false Bool.false_ne_true hcuts

/-- Nobody but the reader itself looks at the reader. -/
theorem destination_withReader (type : UInt8) (bytes : List UInt8) (sending : Sending)
    (reader : Reader) :
    destination type bytes { sending with io := { sending.io with reader } } =
      ((destination type bytes sending).1,
        { (destination type bytes sending).2 with
          io := { (destination type bytes sending).2.io with reader } }) := by
  simp only [destination, SocketIo.write_withReader]

theorem closed_writeMessage (behind : Behind) (message : OutMessage) (sending : Sending) :
    (writeMessage behind message sending).2.closed = true ↔
      sending.closed = true ∨ CutsShort behind sending.io message := by
  unfold writeMessage MessageQueue.writeMessage CutsShort handedOver
  cases message.serializer behind with
  | none => simp
  | some serializer =>
      cases hbuffer : serializer (BoundedBuffer.empty MessageSerializer.writerBufferSize) with
      | none => simp [hbuffer]
      | some buffer => simpa [hbuffer] using closed_destination message.type.toByte _ sending

theorem closed_writeQueue (behind : Behind) (queue : MessageQueue) (sending : Sending) :
    (writeQueue behind queue sending).2.closed = true ↔
      sending.closed = true ∨ QueueCutsShort behind sending queue := by
  induction queue generalizing sending with
  | nil => simp [writeQueue, MessageQueue.process, QueueCutsShort]
  | cons message queue ih =>
      have hfirst := closed_writeMessage behind message sending
      unfold writeQueue at ih ⊢
      rw [MessageQueue.process, QueueCutsShort]
      rcases hwrite : writeMessage behind message sending with ⟨written, next⟩
      rw [hwrite] at hfirst
      cases written with
      | true =>
          rw [show (true = true ∧ QueueCutsShort behind next queue) ↔ _ from
            and_iff_right rfl, ← or_assoc, ← hfirst]
          exact ih next
      | false => simpa using hfirst

end Sending

end Obsr.Net
