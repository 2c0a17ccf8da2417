/-
# Packets

A message queue turns the messages at its front into packets for as long as the
destination takes them. A packet keeps, as a ghost, the message it was made of: that is
what the parser at the other end of the connection shows.
-/

import Obsr.Net.MessageRoundTrip
import Obsr.Net.NetworkClient

namespace Obsr.Net

open Obsr.Io Obsr.Lib

/-- What a connection is given: the type and the bytes of a message. -/
structure Packet where
  /-- Ghost: the message. -/
  message : OutMessage
  type : UInt8
  payload : List UInt8
  deriving DecidableEq, Repr

namespace Packet

/-- The packet was made of its message. -/
def Made (p : Packet) : Prop :=
  ∃ behind, MessageQueue.Hands behind p.message p.type p.payload

end Packet

namespace OutMessage

/-- The serializer has a method for messages of the type. -/
def isTyped (message : OutMessage) : Bool :=
  match message.type with
  | .noType | .unknown _ => false
  | _ => true

theorem isSome_serializer (message : OutMessage) (behind : Behind) :
    (message.serializer behind).isSome = message.isTyped := by
  unfold serializer isTyped
  cases message.type <;> rfl

end OutMessage

namespace MessageQueue

/-- The packets of what `write_message` hands over. -/
def packetsOf (message : OutMessage) (handed : List (UInt8 × List UInt8)) : List Packet :=
  handed.map fun frame => ⟨message, frame.1, frame.2⟩

/-- `process` with a destination that answers as listed, and the packets it takes. -/
def flush (behind : Behind) : MessageQueue → List Bool → MessageQueue × List Packet
  | [], _ => ([], [])
  | message :: queue, answers =>
      match writeMessage behind recording message [] with
      | (false, _) => (message :: queue, [])
      | (true, []) => flush behind queue answers
      | (true, handed) =>
          if answers.headD false then
            ((flush behind queue answers.tail).1,
              packetsOf message handed ++ (flush behind queue answers.tail).2)
          else (message :: queue, [])

variable {behind : Behind} {message : OutMessage}

/-- There is nothing to hand over, it cannot be serialized, or it is one packet. -/
theorem writeMessage_cases (behind : Behind) (message : OutMessage) :
    (message.isTyped = false ∧
        ∀ {δ : Type} (destination : Destination δ) d,
          writeMessage behind destination message d = (true, d)) ∨
      (message.isTyped = true ∧
        ∀ {δ : Type} (destination : Destination δ) d,
          writeMessage behind destination message d = (false, d)) ∨
      (message.isTyped = true ∧ ∃ payload, Hands behind message message.type.toByte payload ∧
        ∀ {δ : Type} (destination : Destination δ) d,
          writeMessage behind destination message d =
            destination message.type.toByte payload d) := by
  have htyped := message.isSome_serializer behind
  unfold writeMessage
  cases hserializer : message.serializer behind with
  | none =>
      rw [hserializer] at htyped
      exact .inl ⟨htyped.symm, fun _ _ => rfl⟩
  | some serializer =>
      rw [hserializer] at htyped
      cases hwrite : serializer (BoundedBuffer.empty MessageSerializer.writerBufferSize) with
      | none => exact .inr (.inl ⟨htyped.symm, fun _ _ => by simp only [hwrite]⟩)
      | some buffer =>
          refine .inr (.inr ⟨htyped.symm, buffer.written, ?_, fun _ _ => by simp only [hwrite]⟩)
          exact hands_iff.mpr ⟨rfl, serializer, buffer, hserializer, hwrite, rfl⟩

/-- The queue is left as `process` leaves it. -/
theorem fst_flush (behind : Behind) (queue : MessageQueue) (answers : List Bool) :
    (flush behind queue answers).1 =
      (process (writeMessage behind fun _ _ answers => (answers.headD false, answers.tail))
        queue answers).1 := by
  induction queue generalizing answers with
  | nil => rfl
  | cons message queue ih =>
      rw [flush, process]
      rcases writeMessage_cases behind message with
        ⟨-, hwrite⟩ | ⟨-, hwrite⟩ | ⟨-, payload, -, hwrite⟩
      · rw [hwrite, hwrite]
        exact ih answers
      · rw [hwrite, hwrite]
      · rw [hwrite, hwrite]
        simp only [recording, List.nil_append]
        cases answers.headD false with
        | true => exact ih answers.tail
        | false => rfl

/-- What leaves the queue becomes packets, but for messages of no type. -/
theorem flush_spec (behind : Behind) (queue : MessageQueue) (answers : List Bool) :
    ∃ sent, queue = sent ++ (flush behind queue answers).1 ∧
      (flush behind queue answers).2.map Packet.message = sent.filter OutMessage.isTyped ∧
        ∀ packet ∈ (flush behind queue answers).2, packet.Made := by
  induction queue generalizing answers with
  | nil => exact ⟨[], rfl, rfl, fun _ hpacket => absurd hpacket List.not_mem_nil⟩
  | cons message queue ih =>
      have hstays : ∃ sent, message :: queue = sent ++ message :: queue ∧
          ([] : List Packet).map Packet.message = sent.filter OutMessage.isTyped ∧
            ∀ packet ∈ ([] : List Packet), packet.Made :=
        ⟨[], rfl, rfl, fun _ hpacket => absurd hpacket List.not_mem_nil⟩
      rw [flush]
      rcases writeMessage_cases behind message with
        ⟨htyped, hwrite⟩ | ⟨-, hwrite⟩ | ⟨htyped, payload, hhands, hwrite⟩
      · rw [hwrite]
        obtain ⟨sent, hqueue, hmessages, hmade⟩ := ih answers
        refine ⟨message :: sent, congrArg (message :: ·) hqueue, ?_, hmade⟩
        rw [List.filter_cons_of_neg (by simp [htyped])]
        exact hmessages
      · rw [hwrite]
        exact hstays
      · rw [hwrite]
        simp only [recording, List.nil_append]
        split_ifs
        · obtain ⟨sent, hqueue, hmessages, hmade⟩ := ih answers.tail
          refine ⟨message :: sent, congrArg (message :: ·) hqueue, ?_, ?_⟩
          · rw [List.filter_cons_of_pos htyped]
            exact congrArg (message :: ·) hmessages
          · intro packet hpacket
            rcases List.mem_cons.mp hpacket with rfl | hpacket
            · exact ⟨behind, hhands⟩
            · exact hmade packet hpacket
        · exact hstays

theorem made_flush {queue : MessageQueue} {answers : List Bool} {packet : Packet}
    (h : packet ∈ (flush behind queue answers).2) : packet.Made ∧ packet.message ∈ queue := by
  obtain ⟨sent, hqueue, hmessages, hmade⟩ := flush_spec behind queue answers
  refine ⟨hmade packet h, ?_⟩
  have hmem : packet.message ∈ sent.filter OutMessage.isTyped :=
    hmessages ▸ List.mem_map_of_mem h
  rw [hqueue]
  exact List.mem_append_left _ (List.mem_filter.mp hmem).1

/-- The queue of the server is left so by as many messages. -/
theorem process_count (queue : MessageQueue) (count : ℕ) :
    (queue.process (fun _ count => (decide (0 < count), count - 1)) count).1 =
      queue.drop count := by
  induction queue generalizing count with
  | nil => cases count <;> rfl
  | cons message queue ih =>
      cases count with
      | zero => rfl
      | succ count =>
          rw [process]
          simpa using ih count

/-- A client of the server has left what `flush` leaves. -/
theorem queue_update (record : ServerClient) (behind : Behind) (answers : List Bool) :
    (record.update (record.queue.length - (record.queue.flush behind answers).1.length)).queue =
      (record.queue.flush behind answers).1 := by
  obtain ⟨sent, hqueue, -⟩ := flush_spec behind record.queue answers
  have hlength := congrArg List.length hqueue
  rw [List.length_append] at hlength
  have hcount : record.queue.length - (record.queue.flush behind answers).1.length =
      sent.length := by omega
  rw [hcount]
  refine (process_count ..).trans ?_
  conv_lhs => rw [hqueue]
  exact List.drop_left

end MessageQueue

/-! ## A packet that arrives -/

/-- The value comes out of a packet as it went in. -/
def Portable (value : Value) : Prop :=
  ∃ c : Construction, c.build = .ok value ∧ c.Survives

theorem portable_make : Portable Value.make := ⟨.make, rfl, trivial⟩

/-- The message is read as it is written. -/
structure OutMessage.Readable (message : OutMessage) : Prop where
  value : Portable message.value
  sendTime : InTimeRange message.sendTime
  time : InTimeRange message.time

namespace Packet

variable {p : Packet}

theorem Made.type_eq (h : p.Made) :
    MessageType.ofByte p.type = p.message.type ∧ p.message.isTyped = true := by
  obtain ⟨behind, hhands⟩ := h
  obtain ⟨htype, serializer, buffer, hserializer, -⟩ := MessageQueue.hands_iff.mp hhands
  refine ⟨htype ▸ (ofByte_toByte_of_serializer hserializer).1, ?_⟩
  rw [← p.message.isSome_serializer behind, hserializer]
  rfl

/-- A packet is parsed to its end; what the parser collects is the message, if the times in
it are in range. -/
theorem Made.parses (h : p.Made) (hvalue : Portable p.message.value) (parser : MessageParser) :
    let parsed := parser.parse (.ofByte p.type) p.payload
    parsed.isFinished = true ∧ parsed.input.view = [] ∧
      (InTimeRange p.message.sendTime → InTimeRange p.message.time →
        p.message.ShownBy parsed.data) := by
  obtain ⟨behind, hhands⟩ := h
  obtain ⟨c, hbuild, hsurvives⟩ := hvalue
  obtain ⟨htype, serializer, buffer, hserializer, hwrite, hpayload⟩ :=
    MessageQueue.hands_iff.mp hhands
  obtain ⟨hofByte, fields, hfields⟩ := ofByte_toByte_of_serializer hserializer
  have hname : p.message.NameFits := by
    by_contra hname
    rw [OutMessage.refuses_serializer hserializer hname] at hwrite
    cases hwrite
  have hwritten := (OutMessage.writes_serializer hserializer hname hbuild).written hwrite
  have hback : c.readBack behind = p.message.value := by
    rw [(Construction.readBack_eq_value_iff c behind).mpr hsurvives]
    exact Construction.value_of_build hbuild hsurvives
  obtain ⟨data, hconsumes, hshown⟩ := OutMessage.consumes_bytes hfields hname hbuild parser.data []
  rw [List.append_nil] at hconsumes
  obtain ⟨hfinishes, hdata, hview⟩ := MessageParser.parse_of_consumes hfields parser hconsumes
  dsimp only
  rw [htype, hofByte, ← hpayload, hwritten]
  exact ⟨hfinishes, hview, hdata ▸ hshown hback⟩

theorem Made.finishes (h : p.Made) (hvalue : Portable p.message.value) (parser : MessageParser) :
    (parser.parse (.ofByte p.type) p.payload).isFinished = true := (h.parses hvalue parser).1

/-- The parser shows the message of a packet. -/
theorem Made.readsBack (h : p.Made) (hreadable : p.message.Readable) (parser : MessageParser) :
    ReadsBack p.message (parser.parse (.ofByte p.type) p.payload) := by
  obtain ⟨hfinishes, hview, hshown⟩ := h.parses hreadable.value parser
  exact ⟨hfinishes, hview, hshown hreadable.sendTime hreadable.time⟩

end Packet

end Obsr.Net
