/-
# A connection, down to its bytes

The messages of a queue on their way to the parser of the other end: a message is
serialized and framed into the write buffer of a socket, the bytes go over the pipe in
pieces of any size, and the frames that are complete at the other end are parsed one after
the other. A message the socket refuses stays in the queue for another time.

As long as no buffer is filled to the brim and no write is cut short, a connection keeps
its packets in order and loses none of them, and the parser shows every message as it
was when it left the queue, if its value and its times come out of a packet unchanged. The
sockets may have had connections before, of which nothing is left in them.
-/

import Obsr.Net.Kept
import Obsr.Net.Link
import Obsr.Net.MessageLimits
import Obsr.Net.Packet

namespace Obsr.Net

open Obsr.Io Obsr.Lib

/-- One direction of a connection. -/
structure Transport where
  queue : MessageQueue
  link : Link
  parser : MessageParser
  /-- Ghost: the messages that have left the queue. -/
  sent : List OutMessage
  /-- Ghost: the parser after each message that arrived. -/
  parsed : List MessageParser
  /-- Ghost: a buffer was filled to the brim, or a write was cut short. -/
  spoiled : Bool
  deriving DecidableEq, Repr

namespace Link

/-- A write that neither fills the buffer to the brim nor puts half a frame into it. -/
def Spares (link : Link) (type : UInt8) (payload : List UInt8) : Prop :=
  link.KeepsFrames (.write type payload) ∧ ¬ link.writer.CutsShort type payload

instance (link : Link) (type : UInt8) (payload : List UInt8) :
    Decidable (link.Spares type payload) := inferInstanceAs (Decidable (_ ∧ _))

/-- A read hands out messages, behind the others. -/
theorem step_readReady (link : Link) (first second : ℕ) :
    (link.step (.readReady first second)).written = link.written ∧
      ∃ new, (link.step (.readReady first second)).delivered = link.delivered ++ new := by
  unfold step
  dsimp only
  split_ifs
  · exact ⟨rfl, _, rfl⟩
  · exact ⟨rfl, [], (List.append_nil _).symm⟩

end Link

namespace Transport

/-- A new connection between two sockets: nothing is queued. -/
def start (writer reader : SocketIo) (parser : MessageParser) : Transport where
  queue := []
  link := Link.between writer reader
  parser := parser
  sent := []
  parsed := []
  spoiled := false

/-- `m_io.write`, as the destination of the queue. -/
def destination : MessageQueue.Destination Transport := fun type payload t =>
  ((t.link.writer.write type payload).2.1.getD false,
    { t with
      link := t.link.step (.write type payload)
      spoiled := t.spoiled || !decide (t.link.Spares type payload) })

/-- `write_message`, with a note of what has left the queue. -/
def send (behind : Behind) (message : OutMessage) (t : Transport) : Bool × Transport :=
  let (written, t) := MessageQueue.writeMessage behind destination message t
  (written, if written then { t with sent := t.sent ++ [message] } else t)

def enqueue (t : Transport) (message : OutMessage) : Transport :=
  { t with queue := t.queue.enqueue message }

/-- `enqueue` with `flag_immediate`. -/
def enqueueImmediate (t : Transport) (behind : Behind) (message : OutMessage) : Transport :=
  let (written, t) := t.send behind message
  { t with queue := t.queue.enqueueImmediate message written }

def process (t : Transport) (behind : Behind) : Transport :=
  let (queue, t) := t.queue.process (send behind) t
  { t with queue }

/-- The handler of the other end is given a message. -/
def handle (t : Transport) (message : UInt8 × List UInt8) : Transport :=
  let parser := t.parser.parse (.ofByte message.1) message.2
  { t with parser, parsed := t.parsed ++ [parser] }

/-- `on_read_ready` hands out the messages that have become complete. -/
def readReady (t : Transport) (first second : ℕ) : Transport :=
  let link := t.link.step (.readReady first second)
  (link.delivered.drop t.link.delivered.length).foldl handle
    { t with
      link
      spoiled := t.spoiled || !decide (t.link.KeepsFrames (.readReady first second)) }

inductive Input
  | enqueue (message : OutMessage)
  | enqueueImmediate (behind : Behind) (message : OutMessage)
  | process (behind : Behind)
  | writeReady (first second : ℕ)
  | readReady (first second : ℕ)

def step (t : Transport) : Input → Transport
  | .enqueue message => t.enqueue message
  | .enqueueImmediate behind message => t.enqueueImmediate behind message
  | .process behind => t.process behind
  | .writeReady first second => { t with link := t.link.step (.writeReady first second) }
  | .readReady first second => t.readReady first second

def run (t : Transport) (inputs : List Input) : Transport := inputs.foldl step t

/-- The messages that came to the queue. -/
def enqueued (inputs : List Input) : List OutMessage := inputs.filterMap fun
  | .enqueue message | .enqueueImmediate _ message => some message
  | _ => none

end Transport

/-! ## The sockets -/

namespace SocketIo

variable {s : SocketIo} {type : UInt8} {message : List UInt8}

/-- A socket that has nothing left to write is started again. -/
theorem Kept.flushed (h : Kept s) (hidle : s.state = .idle)
    (hnothing : s.writeBuffer.content = []) : (s.start true).Flushed := by
  unfold SocketIo.start
  rw [if_pos hidle]
  exact ⟨rfl, h.writeBounds, hnothing⟩

/-- The same of one that was read to the end of a message. -/
theorem Kept.awaiting (h : Kept s) (hidle : s.state = .idle)
    (hwaits : Reader.Waits s.reader.machine none) (hnothing : s.reader.readBuffer.content = []) :
    (s.start true).Awaiting := by
  have hbehind : s.reader.behind = none := by
    unfold Reader.behind
    apply if_neg
    rintro ⟨hin, hmessage⟩
    rcases hwaits.2 with hstart | ⟨-, hheader⟩
    · cases hstart.symm.trans hin
    · cases hheader.symm.trans hmessage
  unfold SocketIo.start
  rw [if_pos hidle]
  exact ⟨rfl, ⟨h.readBounds, hwaits.1, hwaits.2.imp_right And.left⟩, hbehind, hnothing⟩

/-- A connected socket that refuses a write it does not cut short keeps its buffer. -/
theorem write_refused (h : s.writeBuffer.InBounds) (hstate : s.state = .connected)
    (hcuts : ¬ s.CutsShort type message) (hrefused : (s.write type message).2.1 ≠ some true) :
    (s.write type message).1.writeBuffer = s.writeBuffer := by
  cases hroom : s.writeBuffer.canWrite (MessageHeader.sizeOf + message.length) with
  | false => rw [write_of_not_canWrite hroom]
  | true =>
      cases hheader : (s.headerWritten type message).value with
      | false =>
          rw [write_of_no_header hroom hheader]
          show (s.headerWritten type message).buffer = s.writeBuffer
          rcases Nat.lt_trichotomy (s.headerFor type message).toBytes.length s.writeBuffer.free with
            hlt | heq | hgt
          · cases hheader.symm.trans (CircularBuffer.write_of_lt h hlt).1
          · cases hheader.symm.trans (CircularBuffer.write_of_eq h heq).1
          · exact (CircularBuffer.write_of_gt h hgt).1
      | true =>
          rcases Nat.eq_zero_or_pos message.length with hzero | hpos
          · obtain rfl := List.length_eq_zero_iff.mp hzero
            rw [write_of_nil hroom hheader, hstate] at hrefused
            exact absurd rfl hrefused
          · cases hbody : ((s.headerWritten type message).buffer.write message).value with
            | false =>
                have hstarted : s.state ≠ .idle := hstate ▸ State.noConfusion
                exact absurd ⟨hstarted, hpos, hroom, hheader, hbody⟩ hcuts
            | true =>
                rw [write_of_body hpos hroom hheader hbody, hstate] at hrefused
                exact absurd rfl hrefused

end SocketIo

namespace Link

variable {link : Link} {frames : List (Format.Frame MessageHeader.format)}

/-- Nothing goes onto the link with a write that is refused. -/
theorem Carrying.refused (h : link.Carrying frames) {type : UInt8} {payload : List UInt8}
    (hcuts : ¬ link.writer.CutsShort type payload)
    (hrefused : (link.writer.write type payload).2.1 ≠ some true) :
    (link.step (.write type payload)).Carrying frames ∧
      (link.step (.write type payload)).written = link.written := by
  have hbuffer := SocketIo.write_refused h.bounds h.connected hcuts hrefused
  have hwritten : (link.step (.write type payload)).written = link.written := if_neg hrefused
  have hwriter : (link.step (.write type payload)).writer = (link.writer.write type payload).1 :=
    rfl
  refine ⟨⟨?_, ?_, h.supported, ?_, h.waiting, hwritten.trans h.accounted⟩, hwritten⟩
  · rw [hwriter, (SocketIo.write_of_not_cutsShort hcuts).1]
    exact h.connected
  · rw [hwriter, hbuffer]
    exact h.bounds
  · rw [hwriter, hbuffer]
    exact h.reading

end Link

namespace Transport

variable {t t' : Transport} {behind : Behind} {message : OutMessage}

/-- The messages in the order they are due: those that were sent, and those in the queue. -/
def due (t : Transport) : List OutMessage := t.sent ++ t.queue

/-! ## What is on the way -/

/-- The type and the bytes of a packet. -/
def frameOf (packet : Packet) : UInt8 × List UInt8 := (packet.type, packet.payload)

/-- A parser after a message. -/
def Parses (frame : UInt8 × List UInt8) (parsed : MessageParser) : Prop :=
  ∃ parser : MessageParser, parsed = parser.parse (.ofByte frame.1) frame.2

/-- The link carries the packets of the messages that were sent, and the parser has seen
those that were delivered. -/
structure Conveys (t : Transport) : Prop where
  carrying : ∃ frames, t.link.Carrying frames
  packets : ∃ packets : List Packet, t.link.written = packets.map frameOf ∧
    packets.map Packet.message = t.sent.filter OutMessage.isTyped ∧
      ∀ packet ∈ packets, packet.Made
  parsed : List.Forall₂ Parses t.link.delivered t.parsed

/-- A transport is kept in order for as long as it is not spoiled. -/
def Sound (t : Transport) : Prop := t.spoiled = false → t.Conveys

theorem sound_start {writer reader : SocketIo} (hwriter : writer.Flushed)
    (hreader : reader.Awaiting) (parser : MessageParser) : (start writer reader parser).Sound :=
  fun _ =>
    ⟨⟨[], Link.carrying_between hwriter hreader⟩,
      ⟨[], rfl, rfl, fun _ hpacket => by cases hpacket⟩, .nil⟩

/-! ## The queue -/

/-- Another queue does not matter to what is on the way. -/
theorem Sound.requeue (h : t.Sound) (queue : MessageQueue) : Sound { t with queue } :=
  fun hclean => ⟨(h hclean).carrying, (h hclean).packets, (h hclean).parsed⟩

/-- What a write leaves alone, and what it notes. -/
theorem send_same (t : Transport) (behind : Behind) (message : OutMessage) :
    (t.send behind message).2.queue = t.queue ∧
      (t.send behind message).2.sent =
        if (t.send behind message).1 then t.sent ++ [message] else t.sent := by
  unfold send
  dsimp only
  have hsame : ∀ (type : UInt8) (payload : List UInt8),
      (destination type payload t).2.queue = t.queue ∧
        (destination type payload t).2.sent = t.sent := fun _ _ => ⟨rfl, rfl⟩
  rcases MessageQueue.writeMessage_cases behind message with
    ⟨-, hwrite⟩ | ⟨-, hwrite⟩ | ⟨-, payload, -, hwrite⟩
  · rw [hwrite]
    exact ⟨rfl, rfl⟩
  · rw [hwrite]
    exact ⟨rfl, rfl⟩
  · rw [hwrite]
    obtain ⟨hqueue, hsent⟩ := hsame message.type.toByte payload
    split_ifs
    · exact ⟨hqueue, congrArg (· ++ [message]) hsent⟩
    · exact ⟨hqueue, hsent⟩

/-- A packet that the socket takes is on the link, behind the others. -/
theorem Conveys.accept (h : t.Conveys) {payload : List UInt8}
    (hhands : MessageQueue.Hands behind message message.type.toByte payload)
    (htyped : message.isTyped = true) (hspares : t.link.Spares message.type.toByte payload)
    (haccepted : (t.link.writer.write message.type.toByte payload).2.1 = some true) :
    Conveys { t with
      link := t.link.step (.write message.type.toByte payload)
      sent := t.sent ++ [message]
      spoiled := t.spoiled || !decide (t.link.Spares message.type.toByte payload) } := by
  obtain ⟨frames, hcarrying⟩ := h.carrying
  obtain ⟨packets, hwritten, hmessages, hmade⟩ := h.packets
  have hfits := MessageQueue.length_le_of_hands hhands
  refine ⟨hcarrying.write ⟨hfits, haccepted⟩ hspares.1, ?_, h.parsed⟩
  refine ⟨packets ++ [⟨message, message.type.toByte, payload⟩], ?_, ?_, ?_⟩
  · have hlast : (t.link.step (.write message.type.toByte payload)).written =
        t.link.written ++ [(message.type.toByte, payload)] := if_pos haccepted
    rw [hlast, hwritten, List.map_append]
    rfl
  · rw [List.map_append, hmessages, List.filter_append, List.filter_cons_of_pos htyped]
    rfl
  · intro packet hpacket
    rcases List.mem_append.mp hpacket with hold | hnew
    · exact hmade packet hold
    · rw [List.mem_singleton.mp hnew]
      exact ⟨behind, hhands⟩

/-- A message goes onto the link whole, or not at all. -/
theorem Sound.send (h : t.Sound) (behind : Behind) (message : OutMessage) :
    (t.send behind message).2.Sound := by
  unfold Transport.send
  dsimp only
  rcases MessageQueue.writeMessage_cases behind message with
    ⟨huntyped, hwrite⟩ | ⟨-, hwrite⟩ | ⟨htyped, payload, hhands, hwrite⟩
  · rw [hwrite]
    intro hclean
    obtain ⟨packets, hwritten, hmessages, hmade⟩ := (h hclean).packets
    refine ⟨(h hclean).carrying, ⟨packets, hwritten, ?_, hmade⟩, (h hclean).parsed⟩
    have hnone : [message].filter OutMessage.isTyped = [] := by
      rw [List.filter_cons_of_neg (by simp [huntyped]), List.filter_nil]
    show packets.map Packet.message = (t.sent ++ [message]).filter OutMessage.isTyped
    rw [List.filter_append, hnone, List.append_nil]
    exact hmessages
  · rw [hwrite]
    exact h
  · rw [hwrite]
    unfold destination
    dsimp only
    set result := (t.link.writer.write message.type.toByte payload).2.1 with hresult
    intro hclean
    have hspoiled : (t.spoiled || !decide (t.link.Spares message.type.toByte payload)) = false := by
      split_ifs at hclean <;> exact hclean
    obtain ⟨hbefore, hspares⟩ := Bool.or_eq_false_iff.mp hspoiled
    replace hspares : t.link.Spares message.type.toByte payload := by simpa using hspares
    have hconveys := h hbefore
    by_cases haccepted : result = some true
    · rw [haccepted]
      exact hconveys.accept hhands htyped hspares haccepted
    · have hfalse : result.getD false = false := by
        rcases hcase : result with _ | (_ | _)
        · rfl
        · rfl
        · exact absurd hcase haccepted
      rw [hfalse]
      obtain ⟨frames, hcarrying⟩ := hconveys.carrying
      obtain ⟨hcarrying', hwritten⟩ := hcarrying.refused hspares.2 haccepted
      obtain ⟨packets, hpackets, hmessages, hmade⟩ := hconveys.packets
      exact ⟨⟨frames, hcarrying'⟩, ⟨packets, hwritten.trans hpackets, hmessages, hmade⟩,
        hconveys.parsed⟩

/-- A message that goes first is due before those in the queue. -/
theorem Sound.enqueueImmediate (h : t.Sound) (behind : Behind) (message : OutMessage) :
    (t.enqueueImmediate behind message).Sound ∧
      (t.enqueueImmediate behind message).due = t.sent ++ message :: t.queue := by
  obtain ⟨hqueue, hsent⟩ := t.send_same behind message
  have hsound := h.send behind message
  unfold Transport.enqueueImmediate due
  dsimp only
  rcases hsend : Transport.send behind message t with ⟨written, after⟩
  rw [hsend] at hqueue hsent hsound
  unfold MessageQueue.enqueueImmediate
  dsimp only at hqueue hsent hsound ⊢
  refine ⟨hsound.requeue _, ?_⟩
  cases written with
  | true =>
      rw [if_pos rfl] at hsent ⊢
      rw [hsent, hqueue]
      exact List.append_assoc ..
  | false =>
      rw [if_neg Bool.false_ne_true] at hsent ⊢
      rw [hqueue, hsent]

/-- The loop of `process`: what leaves the queue has been sent. -/
theorem Sound.processFrom (h : t.Sound) (behind : Behind) (queue : MessageQueue) :
    let after := queue.process (Transport.send behind) t
    after.2.Sound ∧ after.2.sent ++ after.1 = t.sent ++ queue := by
  dsimp only
  induction queue generalizing t with
  | nil => exact ⟨h, rfl⟩
  | cons message queue ih =>
      have hsent := (t.send_same behind message).2
      have hsound := h.send behind message
      rw [MessageQueue.process]
      rcases hsend : Transport.send behind message t with ⟨written, after⟩
      rw [hsend] at hsent hsound
      cases written with
      | true =>
          obtain ⟨hlast, hdue⟩ := ih hsound
          refine ⟨hlast, hdue.trans ?_⟩
          rw [hsent, if_pos rfl, List.append_assoc]
          rfl
      | false =>
          refine ⟨hsound, ?_⟩
          rw [hsent]
          rfl

theorem Sound.process (h : t.Sound) (behind : Behind) :
    (t.process behind).Sound ∧
      (t.process behind).sent ++ (t.process behind).queue = t.sent ++ t.queue := by
  obtain ⟨hsound, hdue⟩ := h.processFrom behind t.queue
  exact ⟨hsound.requeue _, hdue⟩

/-! ## The other end -/

theorem foldl_handle (t : Transport) (frames : List (UInt8 × List UInt8)) :
    let after := frames.foldl handle t
    after.queue = t.queue ∧ after.link = t.link ∧ after.sent = t.sent ∧
      after.spoiled = t.spoiled ∧
        ∃ shown, after.parsed = t.parsed ++ shown ∧ List.Forall₂ Parses frames shown := by
  dsimp only
  induction frames generalizing t with
  | nil => exact ⟨rfl, rfl, rfl, rfl, [], (List.append_nil _).symm, .nil⟩
  | cons frame frames ih =>
      obtain ⟨hqueue, hlink, hsent, hspoiled, shown, hparsed, hshown⟩ := ih (t.handle frame)
      refine ⟨hqueue, hlink, hsent, hspoiled,
        t.parser.parse (.ofByte frame.1) frame.2 :: shown, ?_, .cons ⟨t.parser, rfl⟩ hshown⟩
      rw [List.foldl_cons, hparsed]
      exact List.append_assoc ..

theorem link_readReady (t : Transport) (first second : ℕ) :
    (t.readReady first second).link = t.link.step (.readReady first second) :=
  (foldl_handle ..).2.1

theorem Sound.readReady (h : t.Sound) (first second : ℕ) :
    (t.readReady first second).Sound ∧ (t.readReady first second).sent = t.sent ∧
      (t.readReady first second).queue = t.queue := by
  unfold Transport.readReady
  dsimp only
  obtain ⟨hqueue, hlink, hsent, hspoiled, shown, hparsed, hshown⟩ := foldl_handle
    { t with
      link := t.link.step (.readReady first second)
      spoiled := t.spoiled || !decide (t.link.KeepsFrames (.readReady first second)) }
    ((t.link.step (.readReady first second)).delivered.drop t.link.delivered.length)
  refine ⟨fun hclean => ?_, hsent, hqueue⟩
  obtain ⟨hbefore, hkeeps⟩ := Bool.or_eq_false_iff.mp (hspoiled.symm.trans hclean)
  replace hkeeps : t.link.KeepsFrames (.readReady first second) := by simpa using hkeeps
  have hconveys := h hbefore
  obtain ⟨frames, hcarrying⟩ := hconveys.carrying
  obtain ⟨hwritten, new, hnew⟩ := t.link.step_readReady first second
  rw [hnew, List.drop_left] at hshown
  refine ⟨hlink ▸ hcarrying.readReady hkeeps, ?_, ?_⟩
  · rw [hlink, hsent]
    exact hwritten ▸ hconveys.packets
  · rw [hlink, hparsed, hnew]
    exact List.rel_append hconveys.parsed hshown

theorem Sound.writeReady (h : t.Sound) (first second : ℕ) :
    Sound { t with link := t.link.step (.writeReady first second) } := by
  intro hclean
  obtain ⟨⟨frames, hcarrying⟩, hpackets, hparsed⟩ := h hclean
  exact ⟨⟨frames, hcarrying.writeReady first second⟩, hpackets, hparsed⟩

/-! ## Every run -/

def Input.isImmediate : Input → Bool
  | .enqueueImmediate _ _ => true
  | _ => false

/-- A step loses no message and repeats none; only one that goes first changes the order. -/
theorem Sound.step (h : t.Sound) (input : Input) :
    (t.step input).Sound ∧ (t.step input).due.Perm (t.due ++ enqueued [input]) ∧
      (input.isImmediate = false → (t.step input).due = t.due ++ enqueued [input]) := by
  cases input with
  | enqueue message =>
      have hdue : (t.step (.enqueue message)).due = t.due ++ [message] :=
        (List.append_assoc ..).symm
      exact ⟨h.requeue _, .of_eq hdue, fun _ => hdue⟩
  | enqueueImmediate behind message =>
      obtain ⟨hsound, hdue⟩ := h.enqueueImmediate behind message
      refine ⟨hsound, ?_, fun hplain => by cases hplain⟩
      refine (List.Perm.of_eq hdue).trans (List.perm_middle.trans ?_)
      exact @List.perm_append_comm _ [message] _
  | process behind =>
      obtain ⟨hsound, hdue⟩ := h.process behind
      have hsame : (t.step (.process behind)).due = t.due ++ enqueued [.process behind] :=
        hdue.trans (List.append_nil _).symm
      exact ⟨hsound, .of_eq hsame, fun _ => hsame⟩
  | writeReady first second =>
      exact ⟨h.writeReady first second, .of_eq (List.append_nil _).symm,
        fun _ => (List.append_nil _).symm⟩
  | readReady first second =>
      obtain ⟨hsound, hsent, hqueue⟩ := h.readReady first second
      have hsame : (t.step (.readReady first second)).due =
          t.due ++ enqueued [.readReady first second] := by
        show (t.readReady first second).sent ++ (t.readReady first second).queue = _
        rw [hsent, hqueue]
        exact (List.append_nil _).symm
      exact ⟨hsound, .of_eq hsame, fun _ => hsame⟩

theorem Sound.run (h : t.Sound) (inputs : List Input) :
    (t.run inputs).Sound ∧ (t.run inputs).due.Perm (t.due ++ enqueued inputs) ∧
      ((∀ input ∈ inputs, input.isImmediate = false) →
        (t.run inputs).due = t.due ++ enqueued inputs) := by
  induction inputs generalizing t with
  | nil => exact ⟨h, .of_eq (List.append_nil _).symm, fun _ => (List.append_nil _).symm⟩
  | cons input inputs ih =>
      have hsplit : enqueued (input :: inputs) = enqueued [input] ++ enqueued inputs :=
        List.filterMap_append (l := [input])
      obtain ⟨hsound, hperm, horder⟩ := h.step input
      obtain ⟨hlast, hrest, hrestOrder⟩ := ih hsound
      rw [hsplit, ← List.append_assoc]
      refine ⟨hlast, hrest.trans (hperm.append_right _), fun hplain => ?_⟩
      obtain ⟨hfirst, hothers⟩ := List.forall_mem_cons.mp hplain
      exact (hrestOrder hothers).trans (congrArg (· ++ enqueued inputs) (horder hfirst))

/-- A parser after a packet of the message: it shows the message, if that can be read. -/
structure Shows (message : OutMessage) (parsed : MessageParser) : Prop where
  parses : ∃ packet : Packet, packet.message = message ∧ packet.Made ∧
    Parses (frameOf packet) parsed
  readsBack : message.Readable → ReadsBack message parsed

/-- A parser shows the messages of the packets it was given. -/
theorem shows_parsed {packets : List Packet} {parsed : List MessageParser}
    (hmade : ∀ packet ∈ packets, packet.Made)
    (hparsed : List.Forall₂ Parses (packets.map frameOf) parsed) :
    List.Forall₂ Shows (packets.map Packet.message) parsed := by
  induction packets generalizing parsed with
  | nil =>
      cases hparsed
      exact .nil
  | cons packet packets ih =>
      obtain ⟨hfirst, hothers⟩ := List.forall_mem_cons.mp hmade
      cases hparsed with
      | cons hparses hrest =>
          refine .cons ⟨⟨packet, rfl, hfirst, hparses⟩, ?_⟩ (ih hothers hrest)
          obtain ⟨parser, rfl⟩ := hparses
          exact fun hreadable => hfirst.readsBack hreadable parser

/-- What the parser of the other end shows are the messages that left the queue, each once
and in their order, and all of them when nothing is on the way; the queue has the
others. -/
theorem shows_of_sent {writer reader : SocketIo} (hwriter : writer.Flushed)
    (hreader : reader.Awaiting) (parser : MessageParser) (inputs : List Input) :
    let t := (start writer reader parser).run inputs
    t.spoiled = false →
      (t.due.Perm (enqueued inputs) ∧
        ((∀ input ∈ inputs, input.isImmediate = false) → t.due = enqueued inputs)) ∧
      ∃ shown underway, t.sent.filter OutMessage.isTyped = shown ++ underway ∧
        List.Forall₂ Shows shown t.parsed ∧ (t.link.Drained → underway = []) := by
  intro t hclean
  obtain ⟨hsound, hperm, horder⟩ := (sound_start hwriter hreader parser).run inputs
  refine ⟨⟨hperm, horder⟩, ?_⟩
  obtain ⟨⟨frames, hcarrying⟩, ⟨packets, hwritten, hpackets, hmade⟩, hparsed⟩ := hsound hclean
  obtain ⟨⟨rest, hrest⟩, hdrained⟩ := hcarrying.delivers
  obtain ⟨arrived, others, rfl, harrived, hothers⟩ :=
    List.map_eq_append_iff.mp (hwritten.symm.trans hrest.symm)
  refine ⟨arrived.map Packet.message, others.map Packet.message, ?_, ?_, fun hquiet => ?_⟩
  · rw [← hpackets, List.map_append]
  · apply shows_parsed fun packet hpacket => hmade packet (List.mem_append_left _ hpacket)
    rw [harrived]
    exact hparsed
  · have hnone : rest = [] := by
      have hall := hdrained hquiet
      rw [← hrest] at hall
      exact List.self_eq_append_right.mp hall
    rw [hnone, List.map_eq_nil_iff] at hothers
    rw [hothers, List.map_nil]

/-! ## A socket with a past -/

/-- A session in which a message was sent and another one received. -/
def earlier : List SocketIo.Input :=
  let frame := ((SocketIo.new .blank).headerFor 7 [8, 9]).toBytes ++ [8, 9]
  [.start true, .write 5 [1, 2, 3], .writeReady true (.takes 100) (.takes 0),
    .readReady (.delivers frame) (.delivers []), .hungOrError]

/-- The socket of that session, connected again. -/
def used : SocketIo := (SocketIo.after .blank earlier).start true

theorem kept_earlier : SocketIo.Kept (SocketIo.after .blank earlier) := by
  apply SocketIo.kept_after
  exact ⟨trivial, trivial, trivial, fun _ => by decide +kernel, trivial, trivial⟩

/-- Two updates and a request that overtakes them in the queue, in pieces. -/
def pieces : List Input :=
  [.enqueue (.entryUpdate 5 3 (Value.makeInt32 7)),
    .enqueue (.entryUpdate 6 3 (Value.makeDouble 0x3FF0000000000000)),
    .enqueueImmediate (fun _ => 0) (.timeSyncRequest 9), .writeReady 5 0, .readReady 3 0,
    .process fun _ => 0, .writeReady 100 0, .readReady 20 0, .readReady 100 0]

/-- All three arrive over sockets that were connected before; nothing is said of what the
parser makes of the double. -/
theorem shows_pieces :
    let t := (start used used (.new ⟨0, 0, [], 0, Value.make, 0⟩)).run pieces
    ∃ first second third, t.parsed = [first, second, third] ∧
      ReadsBack (.timeSyncRequest 9) first ∧
        ReadsBack (.entryUpdate 5 3 (Value.makeInt32 7)) second := by
  intro t
  have hidle : (SocketIo.after .blank earlier).state = .idle := by decide +kernel
  obtain ⟨-, shown, underway, hsent, hshown, hquiet⟩ :=
    shows_of_sent (kept_earlier.flushed hidle (by decide +kernel))
      (kept_earlier.awaiting hidle ⟨by decide +kernel, .inr (by decide +kernel)⟩
        (by decide +kernel)) (.new ⟨0, 0, [], 0, Value.make, 0⟩) pieces (by decide +kernel)
  have hall : shown = [.timeSyncRequest 9, .entryUpdate 5 3 (Value.makeInt32 7),
      .entryUpdate 6 3 (Value.makeDouble 0x3FF0000000000000)] := by
    rw [hquiet (by decide +kernel), List.append_nil] at hsent
    exact hsent.symm.trans (by decide +kernel)
  rw [hall] at hshown
  obtain ⟨first, rest, hfirst, hrest, hparsed⟩ := List.forall₂_cons_left_iff.mp hshown
  obtain ⟨second, last, hsecond, hlast, rfl⟩ := List.forall₂_cons_left_iff.mp hrest
  obtain ⟨third, none, -, hnone, rfl⟩ := List.forall₂_cons_left_iff.mp hlast
  obtain rfl := List.forall₂_nil_left_iff.mp hnone
  refine ⟨first, second, third, hparsed, ?_, ?_⟩
  · exact hfirst.readsBack ⟨portable_make, by decide, by decide⟩
  · exact hsecond.readsBack ⟨⟨.makeInt32 7, rfl, trivial⟩, by decide, by decide⟩

end Transport

end Obsr.Net
