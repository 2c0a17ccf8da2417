/-
# The first message of a session

What a session in which bytes arrive and are read at once shows of the reader, and what
the reader makes of a short stream that starts with an empty message.
-/

import Obsr.Net.SocketSession

namespace Obsr.Net

open Obsr.Io Obsr.Lib

namespace SocketIo

variable {s : SocketIo}

/-- The message a reader has read, if its machine ended with one. -/
def firstMessage (r : Reader) : Option (MessageHeader × List UInt8) :=
  if r.machine.isErrored then none
  else if r.machine.isFinished then some (r.machine.data.header, r.machine.data.messageBuffer)
  else none

theorem messagesIn_stopInternal (s : SocketIo) (notify : Bool) :
    messagesIn (s.stopInternal notify).2 = [] := by
  rw [SocketIo.stopInternal]
  split_ifs <;> rfl

theorem head?_processMessages (s : SocketIo) (bound : ℕ) :
    (messagesIn (s.processMessages (bound + 1)).2).head? = firstMessage s.reader.process := by
  simp only [SocketIo.processMessages, firstMessage]
  split_ifs
  · rw [messagesIn_stopInternal]
    rfl
  · rfl
  · rfl

/-- The reader after bytes have arrived and were read. -/
def receiving (r : Reader) (bytes : List UInt8) : Reader :=
  (r.update (.delivers bytes) (.delivers (bytes.drop r.readBuffer.firstRequest))).1

/-- The first message of a session in which bytes arrive and are read at once. -/
theorem head?_messages (hbounds : s.reader.readBuffer.InBounds) (hconnected : s.state = .connected)
    (bytes : List UInt8) :
    (SocketSession.run s [.arrives bytes, .readReady]).messages.head? =
      firstMessage (receiving s.reader bytes).process := by
  obtain ⟨houtcome, -⟩ :=
    CircularBuffer.readFrom_stream hbounds bytes bytes.length bytes.length
  rw [List.take_length, List.take_of_length_le (by simp)] at houtcome
  obtain ⟨outcome, hsome⟩ := Option.ne_none_iff_exists'.mp houtcome
  have hmessages : (SocketSession.run s [.arrives bytes, .readReady]).messages =
      messagesIn (s.onReadReady (.delivers bytes)
        (.delivers (bytes.drop s.reader.readBuffer.firstRequest))).2 := by
    simp [SocketSession.run, SocketSession.step, SocketSession.perform, SocketSession.start,
      SocketSession.firstRead, SocketSession.secondRead, SocketSession.socketRead, SocketIo.step]
  rw [hmessages, SocketIo.onReadReady, if_pos hconnected]
  simp only [Reader.update, hsome]
  exact head?_processMessages _ _

/-! ## What the reader makes of an empty message -/

/-- The header of an empty message. -/
def probeHeader (type : UInt8) : MessageHeader where
  magic := MessageHeader.messageMagic
  version := MessageHeader.currentVersion
  index := 0
  type
  messageSize := 0

def probe (type : UInt8) : List UInt8 := (probeHeader type).toBytes

variable {r : Reader} {type : UInt8} {junk : List UInt8}

theorem length_probe (type : UInt8) : (probe type).length = MessageHeader.sizeOf :=
  MessageHeader.length_toBytes _

theorem findHeader_probe {b : CircularBuffer} (hbounds : b.InBounds)
    (hcontent : b.content = probe type ++ junk) (header : MessageHeader) (bound : ℕ) :
    Reader.findHeader (bound + 1) header b =
      (true, probeHeader type, b.advanceRead MessageHeader.sizeOf) := by
  have hindex : b.content.findIdx? (· = MessageHeader.messageMagic) = some 0 := by
    rw [hcontent]
    simp [probe, probeHeader, MessageHeader.toBytes, List.findIdx?_cons]
  have hlong : MessageHeader.sizeOf ≤ b.readAvailable := by
    rw [← CircularBuffer.length_content hbounds, hcontent, List.length_append, length_probe]
    exact Nat.le_add_right _ _
  have hzero := CircularBuffer.advanceRead_zero hbounds
  have hheader : MessageHeader.ofBytes (b.content.take MessageHeader.sizeOf) =
      probeHeader type := by
    have htake : b.content.take MessageHeader.sizeOf = (probeHeader type).toBytes := by
      rw [hcontent, List.take_append_of_le_length (length_probe type).ge]
      exact List.take_of_length_le (length_probe type).le
    rw [htake, MessageHeader.ofBytes_toBytes]
  rw [Reader.findHeader_of_findIdx?_eq_some_of_ge hbounds hindex (by rwa [hzero]), hzero, hheader,
    if_neg (by simp [probeHeader])]

theorem firstMessage_probe (hbounds : r.readBuffer.InBounds)
    (hwaits : Reader.Waits r.machine none) (hcontent : r.readBuffer.content = probe type ++ junk) :
    firstMessage r.process = some (probeHeader type, []) := by
  have hfind := findHeader_probe hbounds hcontent r.machine.data.header
    r.readBuffer.readAvailable
  have hafter := hbounds.advanceRead MessageHeader.sizeOf
  obtain ⟨hread, hbytes⟩ := CircularBuffer.read_of_le hafter (Nat.zero_le _)
  have hmessage := Reader.takeMessage_of_some
    (r := r.within .message (probeHeader type)
      (r.readBuffer.advanceRead MessageHeader.sizeOf)) (Nat.zero_le _)
    (decide_eq_true (Nat.zero_le _)) hbytes
  rw [Reader.process_of_header hwaits, Reader.takeFrame]
  simp only [hfind, if_true, hmessage]
  rfl

theorem firstMessage_nothing (hwaits : Reader.Waits r.machine none)
    (hbounds : r.readBuffer.InBounds) (hcontent : r.readBuffer.content = []) :
    firstMessage r.process = none := by
  have hindex : r.readBuffer.content.findIdx? (· = MessageHeader.messageMagic) = none := by
    rw [hcontent]
    rfl
  rw [Reader.process_of_header hwaits, Reader.takeFrame]
  simp only [Reader.findHeader_of_findIdx?_eq_none hbounds hindex, Bool.false_eq_true, if_false]
  rfl

theorem firstMessage_failed (h : Reader.Failed r.machine) : firstMessage r.process = none := by
  rw [Reader.process_of_failed h, firstMessage, h.isErrored, if_pos rfl]

/-- Behind a header the first message is that header's, whatever is in the buffer. -/
theorem firstMessage_behind {header : MessageHeader}
    (hwaits : Reader.Waits r.machine (some header)) {message : MessageHeader × List UInt8}
    (hfirst : firstMessage r.takeMessage = some message) : message.1 = header := by
  have hfail : ∀ (code : UInt8) (b : CircularBuffer), code ≠ 0 →
      firstMessage (r.fail code b) = none := by
    intro code b hcode
    simp [firstMessage, Reader.fail, StateMachine.isErrored, hcode]
  rcases Nat.lt_or_ge ReadData.messageBufferSize r.messageSize with hbig | hsmall
  · rw [Reader.takeMessage_of_gt hbig, hfail _ _ (by decide)] at hfirst
    cases hfirst
  · cases hcan : r.readBuffer.canRead r.messageSize with
    | false =>
        rw [Reader.takeMessage_of_not_canRead hsmall hcan, firstMessage, hwaits.isErrored,
          hwaits.isFinished] at hfirst
        cases hfirst
    | true =>
        cases hread : (r.readBuffer.read r.messageSize).value with
        | none =>
            rw [Reader.takeMessage_of_none hsmall hcan hread, hfail _ _ (by decide)] at hfirst
            cases hfirst
        | some bytes =>
            obtain ⟨hcode, -, -, hheader⟩ := hwaits
            rw [Reader.takeMessage_of_some hsmall hcan hread] at hfirst
            simp only [firstMessage, Reader.deliver, StateMachine.isErrored,
              StateMachine.isFinished, hcode] at hfirst
            cases hfirst
            exact hheader

/-- After the search has found a header the first message is that header's. -/
theorem firstMessage_found (hwaits : Reader.Waits r.machine none) {header : MessageHeader}
    {b : CircularBuffer}
    (hfind : Reader.findHeader (r.readBuffer.readAvailable + 1) r.machine.data.header
      r.readBuffer = (true, header, b)) {message : MessageHeader × List UInt8}
    (hfirst : firstMessage r.process = some message) : message.1 = header := by
  rw [Reader.process_of_header hwaits, Reader.takeFrame] at hfirst
  simp only [hfind, if_true] at hfirst
  exact firstMessage_behind (r := r.within .message header b) ⟨rfl, rfl, rfl, rfl⟩ hfirst

theorem firstMessage_of_not_found (hwaits : Reader.Waits r.machine none)
    (hfind : (Reader.findHeader (r.readBuffer.readAvailable + 1) r.machine.data.header
      r.readBuffer).1 = false) : firstMessage r.process = none := by
  rw [Reader.process_of_header hwaits, Reader.takeFrame]
  simp only [hfind, Bool.false_eq_true, if_false]
  rfl

/-- Only the first byte of a probe is the magic byte. -/
theorem getElem?_probe_ne {k : ℕ} (hpos : 0 < k) :
    (probe 0)[k]? ≠ some MessageHeader.messageMagic := by
  have hall : ∀ k < 11, 0 < k → (probe 0)[k]? ≠ some MessageHeader.messageMagic := by decide
  rcases Nat.lt_or_ge k 11 with hlt | hge
  · exact hall k hlt hpos
  · rw [List.getElem?_eq_none (by rw [length_probe]; exact hge)]
    simp

/-- Bytes that start a header and go on with a probe are not the header of the probe. -/
theorem ofBytes_ne_probeHeader {begun : List UInt8} (hpos : 0 < begun.length)
    (hshort : begun.length < MessageHeader.sizeOf) :
    MessageHeader.ofBytes ((begun ++ probe 0).take MessageHeader.sizeOf) ≠ probeHeader 0 := by
  intro heq
  have hlength : ((begun ++ probe 0).take MessageHeader.sizeOf).length = MessageHeader.sizeOf := by
    rw [List.length_take, List.length_append, length_probe]
    omega
  have hbytes : (begun ++ probe 0).take MessageHeader.sizeOf = probe 0 := by
    rw [← MessageHeader.toBytes_ofBytes hlength, heq]
    rfl
  have hmagic : ((begun ++ probe 0).take MessageHeader.sizeOf)[begun.length]? =
      some MessageHeader.messageMagic := by
    rw [List.getElem?_take_of_lt hshort, List.getElem?_append_right le_rfl, Nat.sub_self]
    rfl
  rw [hbytes] at hmagic
  exact getElem?_probe_ne hpos hmagic

theorem findIdx?_drop_probe {k : ℕ} (hpos : 0 < k) :
    ((probe 0).drop k).findIdx? (· = MessageHeader.messageMagic) = none := by
  rw [List.findIdx?_eq_none_iff]
  intro byte hbyte
  obtain ⟨i, hi⟩ := List.mem_iff_getElem?.mp hbyte
  rw [List.getElem?_drop] at hi
  refine decide_eq_false fun heq => ?_
  exact getElem?_probe_ne (Nat.add_pos_left hpos i) (heq ▸ hi)

/-- Behind the beginning of another header, the first message is not the probe. -/
theorem firstMessage_begun (hbounds : r.readBuffer.InBounds)
    (hwaits : Reader.Waits r.machine none) {rest : List UInt8}
    (hshort : rest.length + 1 < MessageHeader.sizeOf)
    (hcontent : r.readBuffer.content = MessageHeader.messageMagic :: rest ++ probe 0) :
    firstMessage r.process ≠ some (probeHeader 0, []) := by
  have hindex : r.readBuffer.content.findIdx? (· = MessageHeader.messageMagic) = some 0 := by
    rw [hcontent]
    simp [List.findIdx?_cons]
  have hlength : r.readBuffer.readAvailable = rest.length + 1 + MessageHeader.sizeOf := by
    rw [← CircularBuffer.length_content hbounds, hcontent, List.length_append, length_probe,
      List.length_cons]
  have hlong : MessageHeader.sizeOf ≤ r.readBuffer.readAvailable := by omega
  have hzero := CircularBuffer.advanceRead_zero hbounds
  have hround := Reader.findHeader_of_findIdx?_eq_some_of_ge hbounds hindex (by rwa [hzero])
    r.machine.data.header
  rw [hzero] at hround
  have hother : MessageHeader.ofBytes (r.readBuffer.content.take MessageHeader.sizeOf) ≠
      probeHeader 0 := by
    rw [hcontent]
    exact ofBytes_ne_probeHeader (Nat.succ_pos _) hshort
  generalize MessageHeader.ofBytes (r.readBuffer.content.take MessageHeader.sizeOf) = header at *
  by_cases hvalid : header.magic ≠ MessageHeader.messageMagic ∨
      header.version ≠ MessageHeader.currentVersion
  · -- the header is dropped, and the rest of the probe holds no magic byte
    have hafter := hbounds.advanceRead MessageHeader.sizeOf
    have hrest : (r.readBuffer.advanceRead MessageHeader.sizeOf).content =
        (probe 0).drop (MessageHeader.sizeOf - (rest.length + 1)) := by
      rw [CircularBuffer.content_advanceRead hbounds hlong, hcontent, List.drop_append,
        List.drop_of_length_le (by rw [List.length_cons]; omega), List.nil_append,
        List.length_cons]
    have hnone := findIdx?_drop_probe (k := MessageHeader.sizeOf - (rest.length + 1)) (by omega)
    rw [← hrest] at hnone
    have hfind : (Reader.findHeader (r.readBuffer.readAvailable + 1) r.machine.data.header
        r.readBuffer).1 = false := by
      obtain ⟨bound, hbound⟩ : ∃ bound, r.readBuffer.readAvailable = bound + 1 :=
        ⟨rest.length + MessageHeader.sizeOf, by omega⟩
      rw [hround, if_pos hvalid, hbound, Reader.findHeader_of_findIdx?_eq_none hafter hnone]
    rw [firstMessage_of_not_found hwaits hfind]
    simp
  · intro hfirst
    refine hother (firstMessage_found (b := r.readBuffer.advanceRead MessageHeader.sizeOf)
      hwaits ?_ hfirst).symm
    rw [hround, if_neg hvalid]

end SocketIo

end Obsr.Net
