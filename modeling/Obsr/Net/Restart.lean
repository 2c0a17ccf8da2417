/-
# A framed socket that is started again

`stop_internal` leaves the reader and both buffers as they are. An object that ended a
session is compared with a new one: both are started and connected, and take part in the
same session. Nobody can tell them apart exactly when the sessions before have left no
trace: the reader waits for a header, and no position of a buffer has moved.
-/

import Obsr.Net.FirstMessage
import Obsr.Net.Kept

namespace Obsr.Net

open Obsr.Io Obsr.Lib

namespace SocketIo

/-- How an object that is started becomes connected: with a socket that was accepted,
or with one that connects. -/
inductive Opening
  | accepted
  | connecting
  deriving DecidableEq, Repr

def opened (s : SocketIo) : Opening → SocketIo
  | .accepted => s.start true
  | .connecting =>
      (((s.start false).connect true).1.onWriteReady true (.takes 0) (.takes 0)).1

/-- A new object, with the index of its next message. -/
def newAt (memory : Memory) (index : UInt32) : SocketIo :=
  { SocketIo.new memory with nextMessageIndex := index }

/-- In every session the object shows the calls of `on_message` and the bytes that a new
object shows whose headers count from the same index. -/
def BehavesAsNew (s : SocketIo) : Prop :=
  ∀ (memory : Memory) (opening : Opening) (events : List SocketSession.Event),
    let restarted := SocketSession.run (s.opened opening) events
    let fresh := SocketSession.run ((newAt memory s.nextMessageIndex).opened opening) events
    restarted.messages = fresh.messages ∧ restarted.sent = fresh.sent

/-- The reader waits for a header, and no position of a buffer has moved. -/
structure AsNew (s : SocketIo) : Prop where
  waits : Reader.Waits s.reader.machine none
  readPos : s.reader.readBuffer.readPos = 0
  readWritePos : s.reader.readBuffer.writePos = 0
  writeReadPos : s.writeBuffer.readPos = 0
  writePos : s.writeBuffer.writePos = 0

/-- The first sessions stay inside the memory of the object, and it then behaves as a new
one. -/
def RestartsAsNew (memory : Memory) (inputs : List Input) : Prop :=
  StepsMeet (fun s input => (s.step input).1) ReadsInside (SocketIo.new memory) inputs ∧
    (after memory inputs).BehavesAsNew

variable {s : SocketIo}

theorem opened_eq (h : s.state = .idle) (opening : Opening) :
    s.opened opening = { s with state := .connected } := by
  cases opening with
  | accepted => simp [opened, SocketIo.start, h]
  | connecting => simp [opened, SocketIo.start, SocketIo.connect, SocketIo.onWriteReady, h]

/-! ## An object without a trace of the past -/

theorem agrees_of_empty {b c : CircularBuffer} (hb : b.InBounds) (hc : c.InBounds)
    (hsize : b.size = c.size) (hbread : b.readPos = 0) (hbwrite : b.writePos = 0)
    (hcread : c.readPos = 0) (hcwrite : c.writePos = 0) : b.Agrees c where
  left := hb
  right := hc
  size := hsize
  readPos := by rw [hbread, hcread]
  writePos := by rw [hbwrite, hcwrite]
  content := by
    rw [CircularBuffer.content_of_eq (hbwrite.trans hbread.symm),
      CircularBuffer.content_of_eq (hcwrite.trans hcread.symm)]

theorem AsNew.alike (h : s.AsNew) (hkept : Kept s) (hidle : s.state = .idle) (memory : Memory) :
    s.Alike (newAt memory s.nextMessageIndex) where
  state := hidle
  reader :=
    ⟨.waits none h.waits ⟨rfl, Or.inl rfl⟩,
      .agree (agrees_of_empty hkept.readBounds (inside_new memory).readBounds
        (hkept.readSize.trans (inside_new memory).readSize.symm) h.readPos h.readWritePos rfl rfl)⟩
  between := h.waits.state_ne
  writeBuffer :=
    .agree (agrees_of_empty hkept.writeBounds (inside_new memory).writeBounds
      (hkept.writeSize.trans (inside_new memory).writeSize.symm) h.writeReadPos h.writePos rfl rfl)
  index := rfl

theorem AsNew.behavesAsNew (h : s.AsNew) (hkept : Kept s) (hidle : s.state = .idle) :
    s.BehavesAsNew := by
  intro memory opening events
  have halike :=
    SocketSession.alike_run ((h.alike hkept hidle memory).withState .connected) events
  rw [opened_eq hidle, opened_eq (s := newAt memory s.nextMessageIndex) rfl]
  exact ⟨halike.messages, halike.sent⟩

variable {r : Reader} {type : UInt8} {junk : List UInt8}

/-! ## Sessions that show a trace in the reader -/

/-- A reader without a trace, between two calls. -/
structure Blank (r : Reader) : Prop where
  waits : Reader.Waits r.machine none
  bounds : r.readBuffer.InBounds
  size : r.readBuffer.size = bufferSize
  readPos : r.readBuffer.readPos = 0
  writePos : r.readBuffer.writePos = 0

theorem Blank.content (h : Blank r) : r.readBuffer.content = [] :=
  CircularBuffer.content_of_eq (h.writePos.trans h.readPos.symm)

theorem blank_new (memory : Memory) : Blank (SocketIo.new memory).reader where
  waits := ⟨rfl, Or.inl rfl⟩
  bounds := (inside_new memory).readBounds
  size := (inside_new memory).readSize
  readPos := rfl
  writePos := rfl

/-- A short stream arrives completely at a blank reader. -/
theorem Blank.firstMessage_probe (h : Blank r)
    (hshort : MessageHeader.sizeOf + junk.length < bufferSize) :
    firstMessage (receiving r (probe type ++ junk)).process = some (probeHeader type, []) := by
  have hlength : (probe type ++ junk).length < bufferSize := by
    rw [List.length_append, length_probe]
    exact hshort
  have hfree : r.readBuffer.free = bufferSize := by
    rw [CircularBuffer.free_of_le (by rw [h.readPos]; exact Nat.zero_le _), h.size, h.readPos,
      h.writePos]
    rfl
  have hcontent : (receiving r (probe type ++ junk)).readBuffer.content =
      r.readBuffer.content ++ (probe type ++ junk) :=
    CircularBuffer.content_readFrom_of_lt h.bounds (hfree ▸ hlength)
      (Or.inr (by rw [h.writePos, h.size, Nat.zero_add]; exact hlength))
  rw [h.content, List.nil_append] at hcontent
  refine SocketIo.firstMessage_probe (h.bounds.readFrom ?_).1 h.waits hcontent
  rintro ⟨-, -, hlong⟩
  rw [h.size, h.writePos] at hlong
  omega

/-- A stream that fills the whole array at once is lost by a blank reader. -/
theorem Blank.firstMessage_overrun (h : Blank r) {bytes : List UInt8}
    (hlength : bytes.length = bufferSize) : firstMessage (receiving r bytes).process = none := by
  have hle : r.readBuffer.readPos ≤ r.readBuffer.writePos := by
    rw [h.readPos]
    exact Nat.zero_le _
  have hlong : r.readBuffer.size - r.readBuffer.writePos ≤ bytes.length := by
    rw [h.size, hlength]
    exact Nat.sub_le _ _
  have hrequest : bytes.drop r.readBuffer.firstRequest = [] := by
    rw [CircularBuffer.firstRequest, if_pos hle, subSize_of_le h.bounds.write.le, h.size,
      h.writePos, Nat.sub_zero]
    exact List.drop_of_length_le hlength.le
  have hfront : 1 ≤ subSize r.readBuffer.readPos 1 := by
    rw [h.readPos]
    decide
  have hread : (receiving r bytes).readBuffer.readPos = 0 ∧
      (receiving r bytes).readBuffer.writePos = 0 ∧
      (receiving r bytes).readBuffer.size = bufferSize := by
    simp only [receiving, Reader.update, hrequest,
      CircularBuffer.readFrom_front h.bounds hle hlong hfront]
    refine ⟨h.readPos, by simp, ?_⟩
    exact ((CircularBuffer.size_copyIn 0).trans (CircularBuffer.size_copyIn _)).trans h.size
  obtain ⟨hreadPos, hwritePos, hsize⟩ := hread
  have hpos : 0 < bufferSize := by decide
  refine firstMessage_nothing (r := receiving r bytes) h.waits ⟨?_, ?_, ?_⟩
    (CircularBuffer.content_of_eq (hwritePos.trans hreadPos.symm))
  · rwa [hreadPos, hsize]
  · rwa [hwritePos, hsize]
  · rw [hsize]
    decide

/-- A stream of which the object makes something else than a new one. -/
theorem not_behavesAsNew_of_reading (hidle : s.state = .idle)
    (hbounds : s.reader.readBuffer.InBounds) (bytes : List UInt8)
    (hne : firstMessage (receiving s.reader bytes).process ≠
      firstMessage (receiving (SocketIo.new .blank).reader bytes).process) :
    ¬ s.BehavesAsNew := by
  intro h
  obtain ⟨hmessages, -⟩ := h .blank .accepted [.arrives bytes, .readReady]
  have hhead := congrArg List.head? hmessages
  rw [opened_eq hidle, opened_eq (s := newAt .blank s.nextMessageIndex) rfl,
    head?_messages (s := { s with state := .connected }) hbounds rfl,
    head?_messages (s := { newAt .blank s.nextMessageIndex with state := .connected })
      (inside_new .blank).readBounds rfl] at hhead
  exact hne hhead

theorem not_behavesAsNew_of_failed (hidle : s.state = .idle)
    (hbounds : s.reader.readBuffer.InBounds) (hfailed : Reader.Failed s.reader.machine) :
    ¬ s.BehavesAsNew := by
  refine not_behavesAsNew_of_reading hidle hbounds (probe 0 ++ []) ?_
  rw [(blank_new .blank).firstMessage_probe (by decide),
    firstMessage_failed (r := receiving s.reader (probe 0 ++ [])) hfailed]
  simp

theorem not_behavesAsNew_of_behind (hidle : s.state = .idle)
    (hbounds : s.reader.readBuffer.InBounds) {header : MessageHeader}
    (hwaits : Reader.Waits s.reader.machine (some header)) : ¬ s.BehavesAsNew := by
  refine not_behavesAsNew_of_reading hidle hbounds (probe (header.type + 1) ++ []) ?_
  rw [(blank_new .blank).firstMessage_probe (by decide)]
  intro hfirst
  rw [Reader.process_of_message (r := receiving s.reader _) hwaits] at hfirst
  have htype := congrArg MessageHeader.type (firstMessage_behind (r := receiving s.reader _)
    hwaits hfirst)
  exact absurd htype (by simp [probeHeader])

theorem not_behavesAsNew_of_beginning (hidle : s.state = .idle)
    (hbounds : s.reader.readBuffer.InBounds) (hsize : s.reader.readBuffer.size = bufferSize)
    (hwaits : Reader.Waits s.reader.machine none) {rest : List UInt8}
    (hcontent : s.reader.readBuffer.content = MessageHeader.messageMagic :: rest)
    (hshort : s.reader.readBuffer.content.length < MessageHeader.sizeOf) :
    ¬ s.BehavesAsNew := by
  refine not_behavesAsNew_of_reading hidle hbounds (probe 0 ++ []) ?_
  rw [(blank_new .blank).firstMessage_probe (by decide), List.append_nil]
  have hlength := CircularBuffer.length_content hbounds
  have hbuffer : (1024 : ℕ) = bufferSize := rfl
  have hheader : (11 : ℕ) = MessageHeader.sizeOf := rfl
  have hfront : 0 < s.reader.readBuffer.readPos ∨
      s.reader.readBuffer.writePos + (probe 0).length < s.reader.readBuffer.size := by
    rcases Nat.eq_zero_or_pos s.reader.readBuffer.readPos with hzero | hpos
    · rw [CircularBuffer.readAvailable_of_le (by rw [hzero]; exact Nat.zero_le _), hzero] at hlength
      rw [hsize, length_probe]
      exact Or.inr (by omega)
    · exact Or.inl hpos
  have hreceived : (receiving s.reader (probe 0)).readBuffer.content =
      s.reader.readBuffer.content ++ probe 0 :=
    CircularBuffer.content_readFrom_of_lt hbounds
      (by rw [CircularBuffer.free, hsize, length_probe]; omega) hfront
  rw [hcontent, List.length_cons] at hshort
  rw [hcontent] at hreceived
  refine firstMessage_begun (hbounds.readFrom ?_).1 hwaits hshort hreceived
  rintro ⟨-, hzero, hlong⟩
  have hless := hfront.resolve_left (by omega)
  omega

theorem not_behavesAsNew_of_stuck (hidle : s.state = .idle)
    (hbounds : s.reader.readBuffer.InBounds) (hsize : s.reader.readBuffer.size = bufferSize)
    (hwaits : Reader.Waits s.reader.machine none)
    (hwrap : s.reader.readBuffer.writePos < s.reader.readBuffer.readPos)
    (hatEnd : s.reader.readBuffer.writePos = 0) : ¬ s.BehavesAsNew := by
  -- the stream fills the gap before the read position, and the content is lost
  have hread := hbounds.read
  have hbuffer : (1024 : ℕ) = bufferSize := rfl
  have hheader : (11 : ℕ) = MessageHeader.sizeOf := rfl
  let junk := List.replicate (s.reader.readBuffer.readPos - 11) (0 : UInt8)
  have hjunk : junk.length = s.reader.readBuffer.readPos - 11 := List.length_replicate
  refine not_behavesAsNew_of_reading hidle hbounds (probe 0 ++ junk) ?_
  have hlength : (probe 0 ++ junk).length = 11 + junk.length := by
    rw [List.length_append, length_probe, ← hheader]
  rw [(blank_new .blank).firstMessage_probe (by omega)]
  have htaken : ((probe 0 ++ junk).take (s.reader.readBuffer.readPos -
      s.reader.readBuffer.writePos)).length = s.reader.readBuffer.readPos := by
    rw [List.length_take, hlength]
    omega
  have hlost : (receiving s.reader (probe 0 ++ junk)).readBuffer.content = [] := by
    simp only [receiving, Reader.update, CircularBuffer.readFrom_gap hwrap]
    exact CircularBuffer.content_of_eq (by simp only [CircularBuffer.copyIn]; omega)
  rw [firstMessage_nothing (r := receiving s.reader (probe 0 ++ junk)) hwaits
    (hbounds.readFrom ?_).1 hlost]
  · simp
  · rintro ⟨hle, -, -⟩
    omega

theorem not_behavesAsNew_of_moved (hidle : s.state = .idle)
    (hbounds : s.reader.readBuffer.InBounds) (hsize : s.reader.readBuffer.size = bufferSize)
    (hwaits : Reader.Waits s.reader.machine none)
    (heq : s.reader.readBuffer.writePos = s.reader.readBuffer.readPos)
    (hpos : 0 < s.reader.readBuffer.readPos) : ¬ s.BehavesAsNew := by
  -- the stream fills an array at once that is empty from the front
  have hbuffer : (1024 : ℕ) = bufferSize := rfl
  have hheader : (11 : ℕ) = MessageHeader.sizeOf := rfl
  let junk := List.replicate 1013 (0 : UInt8)
  have hlength : (probe 0 ++ junk).length = bufferSize := by
    rw [List.length_append, length_probe, List.length_replicate]
    rfl
  refine not_behavesAsNew_of_reading hidle hbounds (probe 0 ++ junk) ?_
  have hcontent := CircularBuffer.content_readFrom_unwrapped hbounds heq.ge hpos (probe 0 ++ junk)
  have hfree : s.reader.readBuffer.free - 1 = MessageHeader.sizeOf + 1012 := by
    rw [CircularBuffer.free_of_le heq.ge, hsize, heq, Nat.sub_self]
    rfl
  rw [CircularBuffer.content_of_eq heq, List.nil_append, hfree, ← length_probe 0,
    List.take_length_add_append] at hcontent
  rw [(blank_new .blank).firstMessage_overrun hlength,
    firstMessage_probe (r := receiving s.reader (probe 0 ++ junk)) (hbounds.readFrom ?_).1 hwaits
      hcontent]
  · simp
  · rintro ⟨-, hzero, -⟩
    omega

/-! ## Sessions that show a trace in the write buffer -/

/-- The write buffer of a connected object. -/
structure Writing (s : SocketIo) : Prop where
  connected : s.state = .connected
  bounds : s.writeBuffer.InBounds
  size : s.writeBuffer.size = bufferSize

theorem sentIn_stopInternal (s : SocketIo) (notify : Bool) :
    sentIn (s.stopInternal notify).2 = [] := by
  rw [SocketIo.stopInternal]
  split_ifs <;> rfl

/-- More room than there are bytes in a write buffer. -/
def ampleRoom : ℕ := 4096

theorem step_writeReady {t : SocketSession} (h : Writing t.io) :
    (t.step (.writeReady ampleRoom)).io =
        { t.io with
          writeBuffer := t.io.writeBuffer.advanceRead t.io.writeBuffer.readAvailable } ∧
      (t.step (.writeReady ampleRoom)).sent = t.sent ++ t.io.writeBuffer.content := by
  have hread := h.bounds.read
  have hwrite := h.bounds.write
  have hsize := h.size
  have hbuffer : (1024 : ℕ) = bufferSize := rfl
  have hroom : (4096 : ℕ) = ampleRoom := rfl
  have hoffer : t.io.writeBuffer.firstOffer ≤ 1024 := by
    rw [CircularBuffer.firstOffer]
    split_ifs with hwrap
    · rw [subSize_of_le hread.le, h.size]
      exact Nat.sub_le _ _
    · rw [subSize_of_le (Nat.not_lt.mp hwrap)]
      omega
  have hfirst : t.firstWrite ampleRoom = .takes ampleRoom := by
    rw [SocketSession.firstWrite, SocketSession.socketWrite, if_neg (by omega)]
  have hsecond : t.secondWrite ampleRoom =
      .takes (ampleRoom - t.io.writeBuffer.firstOffer) := by
    rw [SocketSession.secondWrite, SocketSession.socketWrite, if_neg (by omega)]
  have hcount : t.io.writeBuffer.size ≤ ampleRoom := by omega
  have hmore : t.io.writeBuffer.size ≤ ampleRoom - t.io.writeBuffer.firstOffer := by omega
  obtain ⟨hafter, hbytes⟩ := CircularBuffer.writeInto_all h.bounds hcount hmore
  obtain ⟨outcome, hsome⟩ := Option.ne_none_iff_exists'.mp
    (CircularBuffer.outcome_writeInto_takes h.bounds ampleRoom
      (ampleRoom - t.io.writeBuffer.firstOffer))
  simp only [SocketSession.step, SocketSession.perform, SocketIo.step, hfirst, hsecond,
    SocketIo.onWriteReady, h.connected, hsome, hafter, hbytes, sentIn, List.flatMap_cons,
    List.flatMap_nil, List.append_nil]
  exact ⟨trivial, trivial⟩

theorem step_write (t : SocketSession) (type : UInt8) (message : List UInt8) :
    (t.step (.write type message)).io = (t.io.write type message).1 ∧
      (t.step (.write type message)).sent =
        t.sent ++ sentIn (t.io.write type message).2.2 := ⟨rfl, rfl⟩

/-- The object after a `write` that fits. -/
structure Wrote (s next : SocketIo) (length : ℕ) : Prop extends Writing next where
  readPos : next.writeBuffer.readPos = s.writeBuffer.readPos
  writePos : next.writeBuffer.writePos = (s.writeBuffer.writePos + length) % bufferSize
  content : next.writeBuffer.content.length = s.writeBuffer.content.length + length

theorem Writing.headerWritten (h : Writing s) (type : UInt8) (message : List UInt8)
    (hfree : MessageHeader.sizeOf < s.writeBuffer.free) :
    (s.headerWritten type message).value = true ∧
      Wrote s (s.counted (s.headerWritten type message).buffer) MessageHeader.sizeOf := by
  have hlength : (s.headerFor type message).toBytes.length = MessageHeader.sizeOf :=
    MessageHeader.length_toBytes _
  obtain ⟨hvalue, hcontent⟩ := CircularBuffer.write_of_lt h.bounds (hlength ▸ hfree)
  obtain ⟨hbounds, hsize⟩ := h.bounds.write_bytes (s.headerFor type message).toBytes
  refine ⟨hvalue, ⟨h.connected, hbounds, hsize.trans h.size⟩,
    CircularBuffer.readPos_write _ _, ?_, ?_⟩
  · show (s.writeBuffer.write (s.headerFor type message).toBytes).buffer.writePos = _
    rw [CircularBuffer.writePos_write, hvalue, if_pos rfl, hlength, h.size]
  · show (s.writeBuffer.write (s.headerFor type message).toBytes).buffer.content.length = _
    rw [hcontent, List.length_append, hlength]

theorem Writing.free (h : Writing s) :
    s.writeBuffer.free = bufferSize - s.writeBuffer.content.length := by
  rw [CircularBuffer.free, h.size, CircularBuffer.length_content h.bounds]

theorem Writing.write_of_lt (h : Writing s) (type : UInt8) {message : List UInt8}
    (hpos : 0 < message.length)
    (hroom : s.writeBuffer.canWrite (MessageHeader.sizeOf + message.length) = true)
    (hfree : s.writeBuffer.content.length + MessageHeader.sizeOf + message.length <
      bufferSize) :
    (s.write type message).2.2 = [] ∧
      Wrote s (s.write type message).1 (MessageHeader.sizeOf + message.length) := by
  obtain ⟨hvalue, hheader⟩ := h.headerWritten type message (by rw [h.free]; omega)
  have hroomBody : message.length < (s.headerWritten type message).buffer.free := by
    have hfree' := hheader.toWriting.free
    have hcontent := hheader.content
    simp only [counted] at hfree' hcontent
    omega
  obtain ⟨hbody, hcontent⟩ := CircularBuffer.write_of_lt
    (b := (s.headerWritten type message).buffer) hheader.bounds hroomBody
  obtain ⟨hbounds, hsize⟩ := hheader.bounds.write_bytes message
  rw [write_of_body hpos hroom hvalue hbody]
  refine ⟨rfl, ⟨h.connected, hbounds, hsize.trans hheader.size⟩,
    (CircularBuffer.readPos_write _ _).trans hheader.readPos, ?_, ?_⟩
  · have hbefore := hheader.writePos
    have hbodyPos := CircularBuffer.writePos_write (s.headerWritten type message).buffer message
    have hheaderSize : (s.headerWritten type message).buffer.size = bufferSize := hheader.size
    simp only [counted] at hbefore ⊢
    rw [hbodyPos, hbody, if_pos rfl, hheaderSize, hbefore, Nat.mod_add_mod, Nat.add_assoc]
  · have hbefore := hheader.content
    simp only [counted] at hbefore ⊢
    rw [hcontent, List.length_append, hbefore, Nat.add_assoc]

theorem sent_writeReady_idle {t : SocketSession} (hidle : t.io.state = .idle) (room : ℕ) :
    (t.step (.writeReady room)).sent = t.sent := by
  simp [SocketSession.step, SocketSession.perform, SocketIo.step, SocketIo.onWriteReady, hidle,
    sentIn]

/-- A write buffer in which twelve cells are free refuses two bytes as a whole when its
content wraps around the end of the array. Otherwise their header is accepted and they
are not, and the object stops. -/
theorem length_sent_refused {t : SocketSession} (h : Writing t.io)
    (hcontent : t.io.writeBuffer.content.length = 1012) :
    (([.write 0 [0, 0], .writeReady ampleRoom] : List SocketSession.Event).foldl
        SocketSession.step t).sent.length =
      t.sent.length +
        if t.io.writeBuffer.writePos < t.io.writeBuffer.readPos then 1012 else 0 := by
  have hsize := h.size
  have hbuffer : bufferSize = 1024 := rfl
  have hheader : MessageHeader.sizeOf = 11 := rfl
  have hfree := h.free
  obtain ⟨hio, hsent⟩ := step_write t 0 [0, 0]
  simp only [List.foldl_cons, List.foldl_nil]
  rcases Nat.lt_or_ge t.io.writeBuffer.writePos t.io.writeBuffer.readPos with hwrap | hle
  · have hroom : t.io.writeBuffer.canWrite (MessageHeader.sizeOf + [(0 : UInt8), 0].length) =
        false := by
      rw [CircularBuffer.free_of_lt h.bounds hwrap] at hfree
      rw [CircularBuffer.canWrite, CircularBuffer.writeAvailable, if_neg (Nat.not_le.mpr hwrap),
        subSize_of_le hwrap.le]
      refine decide_eq_false ?_
      rw [List.length_cons, List.length_singleton]
      omega
    rw [SocketIo.write_of_not_canWrite hroom] at hio hsent
    obtain ⟨-, hall⟩ := step_writeReady (t := t.step (.write 0 [0, 0])) (hio ▸ h)
    rw [if_pos hwrap, hall, hio, hsent, List.length_append, hcontent]
    simp [sentIn]
  · have hroom : t.io.writeBuffer.canWrite (MessageHeader.sizeOf + [(0 : UInt8), 0].length) =
        true := by
      rw [CircularBuffer.canWrite, CircularBuffer.writeAvailable, if_pos hle,
        subSize_of_le h.bounds.write.le]
      refine decide_eq_true ?_
      rw [List.length_cons, List.length_singleton]
      omega
    obtain ⟨hvalue, hwrote⟩ := h.headerWritten 0 [0, 0] (by omega)
    have hfull : (t.io.headerWritten 0 [0, 0]).buffer.free < [(0 : UInt8), 0].length := by
      have hafter := hwrote.toWriting.free
      have hlength := hwrote.content
      simp only [counted] at hafter hlength
      rw [List.length_cons, List.length_singleton]
      omega
    obtain ⟨-, hbody⟩ := CircularBuffer.write_of_gt
      (b := (t.io.headerWritten 0 [0, 0]).buffer) hwrote.bounds hfull
    rw [SocketIo.write_of_no_body (by simp) hroom hvalue hbody] at hio hsent
    have hidle : (t.step (.write 0 [0, 0])).io.state = .idle := by
      rw [hio, stopInternal_fst]
    rw [if_neg (Nat.not_lt.mpr hle), sent_writeReady_idle hidle, hsent, sentIn_stopInternal,
      List.append_nil, Nat.add_zero]

/-- Two messages: one that leaves twelve cells free, and one that needs thirteen. -/
def fillEvents : List SocketSession.Event :=
  [.write 0 (List.replicate 1001 0), .write 0 [0, 0], .writeReady ampleRoom]

theorem length_sent_fill {t : SocketSession} (h : Writing t.io)
    (hempty : t.io.writeBuffer.writePos = t.io.writeBuffer.readPos) :
    (fillEvents.foldl SocketSession.step t).sent.length =
      t.sent.length + if 12 ≤ t.io.writeBuffer.readPos then 1012 else 0 := by
  have hread := h.bounds.read
  have hsize := h.size
  have hbuffer : bufferSize = 1024 := rfl
  have hheader : MessageHeader.sizeOf = 11 := rfl
  have hnothing := CircularBuffer.content_of_eq hempty
  have hlong : (List.replicate 1001 (0 : UInt8)).length = 1001 := List.length_replicate
  have hroom : t.io.writeBuffer.canWrite
      (MessageHeader.sizeOf + (List.replicate 1001 (0 : UInt8)).length) = true := by
    rw [CircularBuffer.canWrite, CircularBuffer.writeAvailable, if_pos hempty.ge,
      subSize_of_le h.bounds.write.le]
    exact decide_eq_true (by omega)
  obtain ⟨houtputs, hwrote⟩ := h.write_of_lt 0 (by omega) hroom
    (by rw [hnothing, List.length_nil]; omega)
  obtain ⟨hio, hsent⟩ := step_write t 0 (List.replicate 1001 0)
  rw [← hio] at hwrote
  have hcontent := hwrote.content
  have hwritePos := hwrote.writePos
  have hreadPos := hwrote.readPos
  rw [hnothing, List.length_nil, hlong, hheader] at hcontent
  rw [hempty, hlong, hheader, hbuffer] at hwritePos
  have hrefused := length_sent_refused hwrote.toWriting hcontent
  rw [hsent, houtputs] at hrefused
  rw [fillEvents, List.foldl_cons, hrefused, hwritePos, hreadPos]
  have hnone : sentIn [] = [] := rfl
  rw [hnone, List.append_nil, Nat.add_left_cancel_iff]
  split_ifs <;> omega

/-- An empty message that is sent moves both positions by its header. -/
theorem pushed_empty {t : SocketSession} (h : Writing t.io)
    (hempty : t.io.writeBuffer.writePos = t.io.writeBuffer.readPos)
    (hroom : t.io.writeBuffer.readPos + MessageHeader.sizeOf < bufferSize) :
    let next := ([.write 0 [], .writeReady ampleRoom] : List SocketSession.Event).foldl
      SocketSession.step t
    Writing next.io ∧ next.io.writeBuffer.writePos = next.io.writeBuffer.readPos ∧
      next.io.writeBuffer.readPos = t.io.writeBuffer.readPos + MessageHeader.sizeOf ∧
      next.sent.length = t.sent.length + MessageHeader.sizeOf := by
  have hsize := h.size
  have hbuffer : bufferSize = 1024 := rfl
  have hheader : MessageHeader.sizeOf = 11 := rfl
  have hcan : t.io.writeBuffer.canWrite MessageHeader.sizeOf = true := by
    rw [CircularBuffer.canWrite, CircularBuffer.writeAvailable, if_pos hempty.ge,
      subSize_of_le h.bounds.write.le]
    exact decide_eq_true (by omega)
  obtain ⟨hvalue, hwrote⟩ := h.headerWritten 0 []
    (by rw [h.free, CircularBuffer.content_of_eq hempty, List.length_nil]; omega)
  obtain ⟨hio, hsent⟩ := step_write t 0 []
  rw [write_of_nil hcan hvalue] at hio hsent
  have hnext : (t.step (.write 0 [])).io =
      t.io.counted (t.io.headerWritten 0 []).buffer := hio
  rw [← hnext] at hwrote
  obtain ⟨hafter, hall⟩ := step_writeReady hwrote.toWriting
  have hlength := CircularBuffer.length_content hwrote.bounds
  have hcontent := hwrote.content
  rw [CircularBuffer.content_of_eq hempty, List.length_nil, Nat.zero_add] at hcontent
  have hreadPos : (t.step (.write 0 [])).io.writeBuffer.readPos = t.io.writeBuffer.readPos :=
    hwrote.readPos
  have hwritePos : (t.step (.write 0 [])).io.writeBuffer.writePos =
      t.io.writeBuffer.readPos + MessageHeader.sizeOf := by
    rw [hwrote.writePos, hempty, Nat.mod_eq_of_lt hroom]
  have hall' := CircularBuffer.advanceRead_readAvailable hwrote.bounds
  simp only [List.foldl_cons, List.foldl_nil]
  rw [hafter, hall', hall, hsent]
  refine ⟨⟨hwrote.connected, ?_, hwrote.size⟩, rfl, hwritePos, ?_⟩
  · rw [← hall']
    exact hwrote.bounds.advanceRead _
  · simp [sentIn, hcontent]

/-- Positions that have moved show in some session. -/
theorem exists_sent_ne {t t' : SocketSession} (h : Writing t.io) (h' : Writing t'.io)
    (hempty : t.io.writeBuffer.writePos = t.io.writeBuffer.readPos)
    (hempty' : t'.io.writeBuffer.writePos = t'.io.writeBuffer.readPos)
    (hpos : 0 < t.io.writeBuffer.readPos) (hzero : t'.io.writeBuffer.readPos = 0)
    (hsame : t.sent.length = t'.sent.length) :
    ∃ events : List SocketSession.Event,
      (events.foldl SocketSession.step t).sent ≠ (events.foldl SocketSession.step t').sent := by
  have hbuffer : bufferSize = 1024 := rfl
  have hheader : MessageHeader.sizeOf = 11 := rfl
  rcases Nat.lt_or_ge t.io.writeBuffer.readPos 12 with hsmall | hlarge
  · obtain ⟨hwriting, hstill, hmoved, hmore⟩ := pushed_empty h hempty (by omega)
    obtain ⟨hwriting', hstill', hmoved', hmore'⟩ := pushed_empty h' hempty' (by omega)
    refine ⟨[.write 0 [], .writeReady ampleRoom] ++ fillEvents, fun heq => ?_⟩
    have hlengths := congrArg List.length heq
    rw [List.foldl_append, List.foldl_append, length_sent_fill hwriting hstill,
      length_sent_fill hwriting' hstill', if_pos (by omega), if_neg (by omega), hmore,
      hmore'] at hlengths
    omega
  · refine ⟨fillEvents, fun heq => ?_⟩
    have hlengths := congrArg List.length heq
    rw [length_sent_fill h hempty, length_sent_fill h' hempty', if_pos hlarge,
      if_neg (by omega)] at hlengths
    omega

theorem writing_opened (hbounds : s.writeBuffer.InBounds)
    (hsize : s.writeBuffer.size = bufferSize) :
    Writing (SocketSession.start { s with state := .connected }).io := ⟨rfl, hbounds, hsize⟩

theorem not_behavesAsNew_of_writing (hidle : s.state = .idle)
    (hne : ∃ events : List SocketSession.Event,
      (events.foldl SocketSession.step (SocketSession.start { s with state := .connected })).sent ≠
        (events.foldl SocketSession.step (SocketSession.start
          { newAt .blank s.nextMessageIndex with state := .connected })).sent) :
    ¬ s.BehavesAsNew := by
  obtain ⟨events, hevents⟩ := hne
  intro h
  obtain ⟨-, hsent⟩ := h .blank .accepted events
  rw [opened_eq hidle, opened_eq (s := newAt .blank s.nextMessageIndex) rfl] at hsent
  exact hevents hsent

/-- Bytes that wait in the write buffer are sent in the next session. -/
theorem not_behavesAsNew_of_unsent (hidle : s.state = .idle) (hkept : Kept s)
    (hwriting : s.writeBuffer.content ≠ []) : ¬ s.BehavesAsNew := by
  refine not_behavesAsNew_of_writing hidle ⟨[.writeReady ampleRoom], ?_⟩
  have hfresh := inside_new .blank
  obtain ⟨-, hsent⟩ := step_writeReady (writing_opened hkept.writeBounds hkept.writeSize)
  obtain ⟨-, hnothing⟩ := step_writeReady
    (writing_opened (s := newAt .blank s.nextMessageIndex) hfresh.writeBounds hfresh.writeSize)
  have hempty : (newAt .blank s.nextMessageIndex).writeBuffer.content = [] :=
    CircularBuffer.content_of_eq rfl
  rw [List.foldl_cons, List.foldl_cons, List.foldl_nil, List.foldl_nil, hsent, hnothing]
  intro heq
  exact hwriting (heq.trans hempty)

/-- An empty write buffer whose positions have moved takes other messages. -/
theorem not_behavesAsNew_of_written (hidle : s.state = .idle) (hkept : Kept s)
    (hempty : s.writeBuffer.writePos = s.writeBuffer.readPos)
    (hpos : 0 < s.writeBuffer.readPos) : ¬ s.BehavesAsNew :=
  not_behavesAsNew_of_writing hidle (exists_sent_ne
    (writing_opened hkept.writeBounds hkept.writeSize)
    (writing_opened (s := newAt .blank s.nextMessageIndex) (inside_new .blank).writeBounds
      (inside_new .blank).writeSize) hempty rfl hpos rfl rfl)

/-- An object that behaves as a new one has kept no trace. -/
theorem BehavesAsNew.asNew (h : s.BehavesAsNew) (hkept : Kept s) (hidle : s.state = .idle) :
    s.AsNew := by
  have hreading : Reader.Waits s.reader.machine none ∧ s.reader.readBuffer.content = [] := by
    cases hkept.settled with
    | failed failed => exact absurd h (not_behavesAsNew_of_failed hidle hkept.readBounds failed)
    | waits behind waits rest =>
        cases behind with
        | some header =>
            exact absurd h (not_behavesAsNew_of_behind hidle hkept.readBounds waits)
        | none =>
            cases rest rfl with
            | empty nothing => exact ⟨waits, nothing⟩
            | beginning rest magic short =>
                exact absurd h (not_behavesAsNew_of_beginning hidle hkept.readBounds
                  hkept.readSize waits magic short)
            | stuck wrap atEnd =>
                exact absurd h (not_behavesAsNew_of_stuck hidle hkept.readBounds
                  hkept.readSize waits wrap atEnd)
  obtain ⟨hwaits, hnothing⟩ := hreading
  have heq := (CircularBuffer.content_eq_nil_iff hkept.readBounds).mp hnothing
  have hreadPos : s.reader.readBuffer.readPos = 0 := by
    by_contra hne
    exact not_behavesAsNew_of_moved hidle hkept.readBounds hkept.readSize hwaits heq
      (Nat.pos_of_ne_zero hne) h
  have hwritten : s.writeBuffer.content = [] := by
    by_contra hne
    exact not_behavesAsNew_of_unsent hidle hkept hne h
  have heq' := (CircularBuffer.content_eq_nil_iff hkept.writeBounds).mp hwritten
  have hwriteReadPos : s.writeBuffer.readPos = 0 := by
    by_contra hne
    exact not_behavesAsNew_of_written hidle hkept heq' (Nat.pos_of_ne_zero hne) h
  exact ⟨hwaits, hreadPos, heq.trans hreadPos, hwriteReadPos, heq'.trans hwriteReadPos⟩

/-- A stopped object whose first sessions stayed inside its memory behaves as a new one
exactly if they have left no trace in it. -/
theorem restartsAsNew_iff (memory : Memory) (inputs : List Input)
    (hidle : (after memory inputs).state = .idle) :
    RestartsAsNew memory inputs ↔
      StepsMeet (fun s input => (s.step input).1) ReadsInside (SocketIo.new memory) inputs ∧
        (after memory inputs).AsNew := by
  constructor
  · rintro ⟨hinside, hbehaves⟩
    exact ⟨hinside, hbehaves.asNew (kept_after memory hinside) hidle⟩
  · rintro ⟨hinside, hnew⟩
    exact ⟨hinside, hnew.behavesAsNew (kept_after memory hinside) hidle⟩

/-- A session of two messages in either direction, as long as half a buffer each. -/
def exchanged : List Input :=
  let payload : List UInt8 := List.replicate 501 7
  let frame := ({ probeHeader 2 with messageSize := 501 } : MessageHeader).toBytes ++ payload
  let read := Input.readReady (.delivers frame) (.delivers [])
  let send := [Input.write 2 payload, .writeReady true (.takes 512) (.takes 0)]
  [.start true, read] ++ send ++ [read] ++ send ++ [.hungOrError]

/-- The messages were received and sent, and have taken all positions once around the
arrays: the object behaves as a new one. -/
theorem restartsAsNew_exchanged :
    (after .blank exchanged).state = .idle ∧ (after .blank exchanged).nextMessageIndex = 2 ∧
      RestartsAsNew .blank exchanged := by
  have hidle : (after .blank exchanged).state = .idle := by decide +kernel
  have hinside : StepsMeet (fun s input => (s.step input).1) ReadsInside (SocketIo.new .blank)
      exchanged := by
    refine ⟨trivial, fun _ => ?_, trivial, trivial, fun _ => ?_, trivial, trivial, trivial, trivial⟩
    · decide +kernel
    · decide +kernel
  refine ⟨hidle, by decide +kernel, ?_⟩
  apply (restartsAsNew_iff .blank exchanged hidle).mpr
  refine ⟨hinside, ⟨⟨by decide +kernel, Or.inr (by decide +kernel)⟩, ?_, ?_, ?_, ?_⟩⟩
  all_goals decide +kernel

/-- After a session that ends with the first byte of a header, the object misses the first
message of the next session. -/
theorem not_restartsAsNew_interrupted :
    ¬ RestartsAsNew .blank
      [.start true, .readReady (.delivers [0x29]) (.delivers []), .hungOrError] := by
  rintro ⟨-, hbehaves⟩
  obtain ⟨hmessages, -⟩ := hbehaves .blank .accepted [.arrives (probe 0), .readReady]
  exact absurd hmessages (by decide +kernel)

end SocketIo

end Obsr.Net
