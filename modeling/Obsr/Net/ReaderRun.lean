/-
# Runs of the reader on any bytes

What one run of the reader's machine does when nothing is known about the bytes: the
search for a header, then the message behind it. Readers whose machines are in the same
place and whose buffers answer alike do the same, whatever is left in the rest of their
memory.
-/

import Obsr.Io.CircularAlike
import Obsr.Net.Reader

namespace Obsr.Net.Reader

open Obsr.Io Obsr.Lib

/-- A machine between two runs waits for a header, or for the message of one. -/
def Waits (m : StateMachine ReadState ReadData) : Option MessageHeader → Prop
  | none => m.errorCode = 0 ∧ (m.state = .start ∨ m.state = .inState ∧ m.userState = .header)
  | some header =>
      m.errorCode = 0 ∧ m.state = .inState ∧ m.userState = .message ∧ m.data.header = header

/-- A machine that found a frame it does not support stays where it is. -/
structure Failed (m : StateMachine ReadState ReadData) : Prop where
  state : m.state = .error
  code : m.errorCode ≠ 0

/-- A machine that has read a message. -/
structure Delivering (m : StateMachine ReadState ReadData) : Prop where
  state : m.state = .ended
  code : m.errorCode = 0

theorem Failed.isErrored {m : StateMachine ReadState ReadData} (h : Failed m) :
    m.isErrored = true := decide_eq_true h.code

theorem Delivering.isErrored {m : StateMachine ReadState ReadData} (h : Delivering m) :
    m.isErrored = false := by
  simp [StateMachine.isErrored, h.code]

theorem Delivering.isFinished {m : StateMachine ReadState ReadData} (h : Delivering m) :
    m.isFinished = true := decide_eq_true h.state

theorem Waits.isErrored {m : StateMachine ReadState ReadData} {behind : Option MessageHeader}
    (h : Waits m behind) : m.isErrored = false := by
  cases behind <;> simp [StateMachine.isErrored, h.1]

theorem Waits.state_ne {m : StateMachine ReadState ReadData} {behind : Option MessageHeader}
    (h : Waits m behind) : m.state ≠ .ended := by
  cases behind with
  | none =>
      rcases h.2 with hstart | ⟨hin, -⟩
      · simp [hstart]
      · simp [hin]
  | some header => simp [h.2.1]

theorem Waits.isFinished {m : StateMachine ReadState ReadData} {behind : Option MessageHeader}
    (h : Waits m behind) : m.isFinished = false := by
  simp [StateMachine.isFinished, h.state_ne]

theorem waits_reset (r : Reader) : Waits r.reset.machine none := ⟨rfl, Or.inl rfl⟩

/-- The message state. -/
def takeMessage (r : Reader) : Reader :=
  let (_, machine, readBuffer) := processState .message r.machine r.readBuffer
  { machine, readBuffer }

/-- The reader in a state of its machine, with the header it read last. -/
def within (r : Reader) (userState : ReadState) (header : MessageHeader)
    (readBuffer : CircularBuffer) : Reader where
  machine :=
    { state := .inState, userState, errorCode := 0, data := { r.machine.data with header } }
  readBuffer

/-- The header state, and the message state behind a header that was found. -/
def takeFrame (r : Reader) : Reader :=
  let (found, header, buffer) :=
    findHeader (r.readBuffer.readAvailable + 1) r.machine.data.header r.readBuffer
  if found then (r.within .message header buffer).takeMessage
  else r.within .header header buffer

variable {r r' : Reader} {header : MessageHeader}

theorem processState_message (m : StateMachine ReadState ReadData) (buffer : CircularBuffer) :
    (processState .message m buffer).1 = .stop := by
  simp only [processState]
  split_ifs
  · rfl
  · split <;> rfl
  · rfl

theorem processLoop_message_state (bound : ℕ) {m : StateMachine ReadState ReadData}
    (hstate : m.state = .inState) (huser : m.userState = .message) (buffer : CircularBuffer) :
    StateMachine.processLoop behaviour (bound + 1) m buffer = processState .message m buffer := by
  rcases hstep : processState .message m buffer with ⟨verdict, next, rest⟩
  have hstop := processState_message m buffer
  rw [hstep] at hstop
  obtain rfl : verdict = .stop := hstop
  simp only [StateMachine.processLoop, StateMachine.processOnce, hstate, huser, behaviour, hstep]

theorem process_of_failed (h : Failed r.machine) : r.process = r := by
  simp only [process, StateMachine.process, h.state]

theorem process_of_message (h : Waits r.machine (some header)) : r.process = r.takeMessage := by
  obtain ⟨-, hstate, huser, -⟩ := h
  simp only [process, StateMachine.process, hstate, takeMessage,
    processLoop_message_state 1 hstate huser]

theorem process_of_header (h : Waits r.machine none) : r.process = r.takeFrame := by
  obtain ⟨⟨state, userState, errorCode, data⟩, buffer⟩ := r
  obtain ⟨hcode, hstate⟩ := h
  obtain rfl : errorCode = 0 := hcode
  have hstart : StateMachine.process behaviour 2 ⟨state, userState, 0, data⟩ buffer =
      StateMachine.processLoop behaviour 2 ⟨.inState, .header, 0, data⟩ buffer := by
    rcases hstate with hstart | ⟨hin, huser⟩
    · obtain rfl : state = .start := hstart
      rfl
    · obtain rfl : state = .inState := hin
      obtain rfl : userState = .header := huser
      rfl
  simp only [process, hstart, takeFrame]
  rcases hfind : findHeader (buffer.readAvailable + 1) data.header buffer with
    ⟨found, header, rest⟩
  cases found with
  | false =>
      simp [StateMachine.processLoop, StateMachine.processOnce, behaviour, processState, hfind,
        StateMachine.tryLater, within]
  | true =>
      have hagain : StateMachine.processLoop behaviour 2 ⟨.inState, .header, 0, data⟩ buffer =
          StateMachine.processLoop behaviour 1
            ⟨.inState, .message, 0, { data with header }⟩ rest := by
        rw [StateMachine.processLoop]
        simp only [StateMachine.processOnce, behaviour, processState, hfind,
          StateMachine.moveToState, if_true]
      rw [hagain, processLoop_message_state 0 rfl rfl]
      rfl

/-! ## The message state -/

/-- A machine that stops with an error. -/
def fail (r : Reader) (code : UInt8) (readBuffer : CircularBuffer) : Reader where
  machine := { r.machine with state := .error, errorCode := code }
  readBuffer

/-- A machine that has read a message. -/
def deliver (r : Reader) (messageBuffer : List UInt8) (readBuffer : CircularBuffer) :
    Reader where
  machine := { r.machine with state := .ended, data := { r.machine.data with messageBuffer } }
  readBuffer

/-- The size of the message the machine is behind the header of. -/
def messageSize (r : Reader) : ℕ := r.machine.data.header.messageSize.toNat

theorem takeMessage_of_gt (h : ReadData.messageBufferSize < r.messageSize) :
    r.takeMessage = r.fail ReadError.unsupportedSize (r.readBuffer.seekRead r.messageSize) := by
  have hbig : r.machine.data.header.messageSize.toNat > ReadData.messageBufferSize := h
  simp only [takeMessage, processState, if_pos hbig]
  rfl

theorem takeMessage_of_not_canRead (h : r.messageSize ≤ ReadData.messageBufferSize)
    (hcan : r.readBuffer.canRead r.messageSize = false) : r.takeMessage = r := by
  have hsmall : ¬ r.machine.data.header.messageSize.toNat > ReadData.messageBufferSize :=
    Nat.not_lt.mpr h
  rw [messageSize] at hcan
  simp only [takeMessage, processState, if_neg hsmall, hcan, Bool.false_eq_true, if_false]
  rfl

theorem takeMessage_of_none (h : r.messageSize ≤ ReadData.messageBufferSize)
    (hcan : r.readBuffer.canRead r.messageSize = true)
    (hread : (r.readBuffer.read r.messageSize).value = none) :
    r.takeMessage =
      r.fail ReadError.readFailed (r.readBuffer.read r.messageSize).buffer := by
  have hsmall : ¬ r.machine.data.header.messageSize.toNat > ReadData.messageBufferSize :=
    Nat.not_lt.mpr h
  rw [messageSize] at hcan hread
  simp only [takeMessage, processState, if_neg hsmall, if_pos hcan, hread]
  rfl

theorem takeMessage_of_some (h : r.messageSize ≤ ReadData.messageBufferSize)
    (hcan : r.readBuffer.canRead r.messageSize = true) {bytes : List UInt8}
    (hread : (r.readBuffer.read r.messageSize).value = some bytes) :
    r.takeMessage = r.deliver bytes (r.readBuffer.read r.messageSize).buffer := by
  have hsmall : ¬ r.machine.data.header.messageSize.toNat > ReadData.messageBufferSize :=
    Nat.not_lt.mpr h
  rw [messageSize] at hcan hread
  simp only [takeMessage, processState, if_neg hsmall, if_pos hcan, hread]
  rfl

/-! ## The search for a header -/

/-- What the search leaves in the buffer when it finds no header: nothing, the beginning
of one, or bytes up to the end of the array among which the magic byte is not. -/
inductive Rest (b : CircularBuffer) : Prop
  | empty (nothing : b.content = [])
  | beginning (rest : List UInt8) (magic : b.content = MessageHeader.messageMagic :: rest)
      (short : b.content.length < MessageHeader.sizeOf)
  | stuck (wrap : b.writePos < b.readPos) (atEnd : b.writePos = 0)

/-- The magic byte is at the front of the buffer once the search has found it. -/
theorem content_of_sought {b : CircularBuffer} (h : b.InBounds)
    (hfound : (b.findAndSeekRead MessageHeader.messageMagic).value = true) :
    ∃ rest, (b.findAndSeekRead MessageHeader.messageMagic).buffer.content =
      MessageHeader.messageMagic :: rest := by
  cases hindex : b.content.findIdx? (· = MessageHeader.messageMagic) with
  | none =>
      rw [(CircularBuffer.findAndSeekRead_of_findIdx?_eq_none h hindex).1] at hfound
      cases hfound
  | some k =>
      obtain ⟨hlt, hbyte, -⟩ := List.findIdx?_eq_some_iff_getElem.mp hindex
      have hk : k ≤ b.readAvailable := CircularBuffer.length_content h ▸ hlt.le
      refine ⟨b.content.drop (k + 1), ?_⟩
      rw [(CircularBuffer.findAndSeekRead_of_findIdx?_eq_some h hindex).1,
        CircularBuffer.content_advanceRead h hk, List.drop_eq_getElem_cons hlt]
      exact congrArg (· :: _) (of_decide_eq_true hbyte)

theorem rest_of_not_sought {b : CircularBuffer} (h : b.InBounds)
    (hfound : (b.findAndSeekRead MessageHeader.messageMagic).value = false) :
    Rest (b.findAndSeekRead MessageHeader.messageMagic).buffer := by
  cases hindex : b.content.findIdx? (· = MessageHeader.messageMagic) with
  | some k =>
      rw [(CircularBuffer.findAndSeekRead_of_findIdx?_eq_some h hindex).2] at hfound
      cases hfound
  | none =>
      rw [(CircularBuffer.findAndSeekRead_of_findIdx?_eq_none h hindex).2]
      split_ifs with hstuck
      · exact .stuck hstuck.1 hstuck.2
      · refine .empty ?_
        rw [CircularBuffer.content_advanceRead h le_rfl, ← CircularBuffer.length_content h,
          List.drop_length]

/-- The search ends with a header, or with what the next search starts from. -/
theorem rest_of_findHeader {buffer : CircularBuffer} (h : buffer.InBounds)
    (header : MessageHeader) {bound : ℕ} (hbound : buffer.readAvailable < bound)
    (hfound : (findHeader bound header buffer).1 = false) :
    Rest (findHeader bound header buffer).2.2 := by
  induction bound generalizing header buffer with
  | zero => exact absurd hbound (Nat.not_lt_zero _)
  | succ bound ih =>
      obtain ⟨k, -, hsought⟩ :=
        CircularBuffer.findAndSeekRead_buffer h MessageHeader.messageMagic
      have hbounds : (buffer.findAndSeekRead MessageHeader.messageMagic).buffer.InBounds :=
        hsought ▸ h.advanceRead k
      simp only [findHeader] at hfound ⊢
      split_ifs at hfound ⊢ with hvalue
      · cases hread : ((buffer.findAndSeekRead MessageHeader.messageMagic).buffer.read
            MessageHeader.sizeOf).value with
        | none =>
            obtain ⟨rest, hcontent⟩ := content_of_sought h hvalue
            have hshort : (buffer.findAndSeekRead
                MessageHeader.messageMagic).buffer.readAvailable < MessageHeader.sizeOf := by
              by_contra hlong
              rw [(CircularBuffer.read_of_le hbounds (Nat.not_lt.mp hlong)).2] at hread
              cases hread
            simp only [(CircularBuffer.read_of_gt hbounds hshort).1]
            exact .beginning rest hcontent (CircularBuffer.length_content hbounds ▸ hshort)
        | some bytes =>
            obtain ⟨hnext, hfewer⟩ := readAvailable_round h hread
            simp only [hread] at hfound ⊢
            split_ifs at hfound ⊢
            exact ih hnext _ (by omega) hfound
      · exact rest_of_not_sought h (Bool.eq_false_iff.mpr hvalue)

/-- The search only moves the read position, and by something when it finds a header. -/
theorem findHeader_advances {buffer : CircularBuffer} (h : buffer.InBounds)
    (header : MessageHeader) (bound : ℕ) :
    ∃ k ≤ buffer.readAvailable,
      (findHeader bound header buffer).2.2 = buffer.advanceRead k ∧
        ((findHeader bound header buffer).1 = true → 0 < k) := by
  induction bound generalizing header buffer with
  | zero =>
      exact ⟨0, Nat.zero_le _, (CircularBuffer.advanceRead_zero h).symm,
        fun hfound => by cases hfound⟩
  | succ bound ih =>
      obtain ⟨k, hk, hsought⟩ :=
        CircularBuffer.findAndSeekRead_buffer h MessageHeader.messageMagic
      obtain ⟨n, hn, hafter, -⟩ :=
        CircularBuffer.read_buffer (h.advanceRead k) MessageHeader.sizeOf
      rw [CircularBuffer.readAvailable_advanceRead h hk] at hn
      rw [CircularBuffer.advanceRead_advanceRead] at hafter
      simp only [findHeader]
      split_ifs
      · cases hread : ((buffer.findAndSeekRead MessageHeader.messageMagic).buffer.read
            MessageHeader.sizeOf).value with
        | none =>
            refine ⟨k + n, by omega, ?_, fun hfound => by cases hfound⟩
            rw [hsought, hafter]
        | some bytes =>
            obtain ⟨hnext, hfewer⟩ := readAvailable_round h hread
            simp only [hsought, hafter] at hnext hfewer ⊢
            rw [CircularBuffer.readAvailable_advanceRead h (by omega)] at hfewer
            split_ifs
            · obtain ⟨k', hk', hbuffer, -⟩ := ih hnext (MessageHeader.ofBytes bytes)
              rw [CircularBuffer.readAvailable_advanceRead h (by omega)] at hk'
              refine ⟨k + n + k', by omega, ?_, fun _ => by omega⟩
              rw [hbuffer, CircularBuffer.advanceRead_advanceRead]
            · exact ⟨k + n, by omega, rfl, fun _ => by omega⟩
      · exact ⟨k, hk, hsought, fun hfound => by cases hfound⟩

/-! ## One run of the machine -/

/-- How a run of a machine that waited behind `behind` ends. -/
inductive Ran (behind : Option MessageHeader) (r next : Reader) : Prop
  | failed (failed : Failed next.machine)
  | waits (behind' : Option MessageHeader) (waits : Waits next.machine behind')
      (rest : behind' = none → Rest next.readBuffer)
  | delivers (delivering : Delivering next.machine)
      (fewer : behind = none → next.readBuffer.readAvailable < r.readBuffer.readAvailable)
      (header : ∀ header, behind = some header → next.machine.data.header = header)

theorem ran_takeMessage (hbounds : r.readBuffer.InBounds) (h : Waits r.machine (some header)) :
    (∃ k ≤ r.readBuffer.readAvailable,
        r.takeMessage.readBuffer = r.readBuffer.advanceRead k) ∧
      Ran (some header) r r.takeMessage := by
  obtain ⟨hcode, hstate, huser, rfl⟩ := h
  rcases Nat.lt_or_ge ReadData.messageBufferSize r.messageSize with hbig | hsmall
  · rw [takeMessage_of_gt hbig]
    refine ⟨⟨_, ?_, rfl⟩, .failed ⟨rfl, ?_⟩⟩
    · exact (CircularBuffer.seekOffset_eq hbounds).trans_le (Nat.min_le_right _ _)
    · show ReadError.unsupportedSize ≠ 0
      decide
  · rcases Nat.lt_or_ge r.readBuffer.readAvailable r.messageSize with hshort | hlong
    · rw [takeMessage_of_not_canRead hsmall (by simpa [CircularBuffer.canRead] using hshort)]
      refine ⟨⟨0, Nat.zero_le _, (CircularBuffer.advanceRead_zero hbounds).symm⟩, ?_⟩
      exact .waits (some r.machine.data.header) ⟨hcode, hstate, huser, rfl⟩
        fun hnone => by cases hnone
    · obtain ⟨hread, hbytes⟩ := CircularBuffer.read_of_le hbounds hlong
      rw [takeMessage_of_some hsmall (decide_eq_true hlong) hbytes, hread]
      refine ⟨⟨_, hlong, rfl⟩, .delivers ⟨rfl, hcode⟩ (fun hnone => by cases hnone) ?_⟩
      rintro header hheader
      exact Option.some.inj hheader

theorem ran_takeFrame (hbounds : r.readBuffer.InBounds) :
    (∃ k ≤ r.readBuffer.readAvailable,
        r.takeFrame.readBuffer = r.readBuffer.advanceRead k) ∧ Ran none r r.takeFrame := by
  obtain ⟨k, hk, hbuffer, hpos⟩ := findHeader_advances hbounds r.machine.data.header
    (r.readBuffer.readAvailable + 1)
  have hrest := rest_of_findHeader hbounds r.machine.data.header
    (Nat.lt_succ_self r.readBuffer.readAvailable)
  rcases hfind : findHeader (r.readBuffer.readAvailable + 1) r.machine.data.header
    r.readBuffer with ⟨found, header, buffer⟩
  rw [hfind] at hbuffer hpos hrest
  obtain rfl : buffer = r.readBuffer.advanceRead k := hbuffer
  simp only [takeFrame, hfind]
  cases found with
  | false =>
      refine ⟨⟨k, hk, rfl⟩, .waits none ⟨rfl, Or.inr ⟨rfl, rfl⟩⟩ fun _ => hrest rfl⟩
  | true =>
      rw [if_pos rfl]
      have hwaits : Waits (r.within .message header (r.readBuffer.advanceRead k)).machine
          (some header) := ⟨rfl, rfl, rfl, rfl⟩
      obtain ⟨⟨n, hn, hafter⟩, hran⟩ := ran_takeMessage (hbounds.advanceRead k) hwaits
      have havail : (r.within .message header
          (r.readBuffer.advanceRead k)).readBuffer.readAvailable =
            r.readBuffer.readAvailable - k := CircularBuffer.readAvailable_advanceRead hbounds hk
      rw [havail] at hn
      have hmoved : (r.within .message header (r.readBuffer.advanceRead k)).takeMessage.readBuffer =
          r.readBuffer.advanceRead (k + n) := by
        rw [hafter]
        exact CircularBuffer.advanceRead_advanceRead k n
      refine ⟨⟨k + n, by omega, hmoved⟩, ?_⟩
      cases hran with
      | failed failed => exact .failed failed
      | waits behind' waits rest => exact .waits behind' waits rest
      | delivers delivering fewer header =>
          refine .delivers delivering (fun _ => ?_) fun header hsome => by cases hsome
          have hstep : 0 < k := hpos rfl
          rw [hmoved, CircularBuffer.readAvailable_advanceRead hbounds (by omega)]
          omega

theorem ran_process (hbounds : r.readBuffer.InBounds) {behind : Option MessageHeader}
    (h : Waits r.machine behind) :
    (∃ k ≤ r.readBuffer.readAvailable, r.process.readBuffer = r.readBuffer.advanceRead k) ∧
      Ran behind r r.process := by
  cases behind with
  | none => exact process_of_header h ▸ ran_takeFrame hbounds
  | some header => exact process_of_message h ▸ ran_takeMessage hbounds h

/-! ## Readers that do the same -/

/-- Machines that will do the same with the same bytes. -/
inductive SamePlace (m m' : StateMachine ReadState ReadData) : Prop
  | failed (left : Failed m) (right : Failed m')
  | waits (behind : Option MessageHeader) (left : Waits m behind) (right : Waits m' behind)
  | delivers (left : Delivering m) (right : Delivering m') (data : m.data = m'.data)

structure Alike (r r' : Reader) : Prop where
  machine : SamePlace r.machine r'.machine
  buffer : r.readBuffer.Alike r'.readBuffer

theorem alike_findHeader {b c : CircularBuffer} (h : b.Alike c) (header header' : MessageHeader)
    (bound : ℕ) :
    (findHeader bound header b).1 = (findHeader bound header' c).1 ∧
      ((findHeader bound header b).1 = true →
        (findHeader bound header b).2.1 = (findHeader bound header' c).2.1) ∧
      (findHeader bound header b).2.2.Alike (findHeader bound header' c).2.2 := by
  induction bound generalizing header header' b c with
  | zero => exact ⟨rfl, (fun hfound => by cases hfound), h⟩
  | succ bound ih =>
      obtain ⟨hvalue, hsought⟩ := h.findAndSeekRead MessageHeader.messageMagic
      obtain ⟨hread, hafter⟩ := hsought.read MessageHeader.sizeOf
      simp only [findHeader, hvalue]
      split_ifs
      · rw [hread]
        cases ((c.findAndSeekRead MessageHeader.messageMagic).buffer.read
            MessageHeader.sizeOf).value with
        | none => exact ⟨rfl, (fun hfound => by cases hfound), hafter⟩
        | some bytes =>
            dsimp only
            split_ifs
            · exact ih hafter _ _
            · exact ⟨rfl, fun _ => rfl, hafter⟩
      · exact ⟨rfl, (fun hfound => by cases hfound), hsought⟩

theorem alike_takeMessage (h : r.readBuffer.Alike r'.readBuffer)
    (hwaits : Waits r.machine (some header)) (hwaits' : Waits r'.machine (some header)) :
    Alike r.takeMessage r'.takeMessage := by
  obtain ⟨hcode, hstate, huser, hheader⟩ := hwaits
  obtain ⟨hcode', hstate', huser', hheader'⟩ := hwaits'
  have hsize : r'.messageSize = r.messageSize := by
    rw [messageSize, messageSize, hheader, hheader']
  rcases Nat.lt_or_ge ReadData.messageBufferSize r.messageSize with hbig | hsmall
  · rw [takeMessage_of_gt hbig, takeMessage_of_gt (hsize ▸ hbig), hsize]
    exact ⟨.failed ⟨rfl, (by decide : ReadError.unsupportedSize ≠ 0)⟩
      ⟨rfl, (by decide : ReadError.unsupportedSize ≠ 0)⟩, h.seekRead _⟩
  · have hsmall' : r'.messageSize ≤ ReadData.messageBufferSize := hsize ▸ hsmall
    have hcan := h.canRead r.messageSize
    obtain ⟨hvalue, hbuffer⟩ := h.read r.messageSize
    cases hleft : r.readBuffer.canRead r.messageSize with
    | false =>
        rw [takeMessage_of_not_canRead hsmall hleft,
          takeMessage_of_not_canRead hsmall' (by rw [hsize, ← hcan, hleft])]
        exact ⟨.waits (some header) ⟨hcode, hstate, huser, hheader⟩
          ⟨hcode', hstate', huser', hheader'⟩, h⟩
    | true =>
        have hright : r'.readBuffer.canRead r'.messageSize = true := by
          rw [hsize, ← hcan, hleft]
        cases hread : (r.readBuffer.read r.messageSize).value with
        | none =>
            rw [takeMessage_of_none hsmall hleft hread,
              takeMessage_of_none hsmall' hright (by rw [hsize, ← hvalue, hread]), hsize]
            exact ⟨.failed ⟨rfl, (by decide : ReadError.readFailed ≠ 0)⟩
              ⟨rfl, (by decide : ReadError.readFailed ≠ 0)⟩, hbuffer⟩
        | some bytes =>
            rw [takeMessage_of_some hsmall hleft hread,
              takeMessage_of_some hsmall' hright (by rw [hsize, ← hvalue, hread]), hsize]
            refine ⟨.delivers ⟨rfl, hcode⟩ ⟨rfl, hcode'⟩ ?_, hbuffer⟩
            show ReadData.mk r.machine.data.header bytes = ReadData.mk r'.machine.data.header bytes
            rw [hheader, hheader']

theorem alike_takeFrame (h : r.readBuffer.Alike r'.readBuffer) :
    Alike r.takeFrame r'.takeFrame := by
  obtain ⟨hfound, hheader, hbuffer⟩ := alike_findHeader h r.machine.data.header
    r'.machine.data.header (r.readBuffer.readAvailable + 1)
  rw [takeFrame, takeFrame, ← h.readAvailable]
  rcases hleft : findHeader (r.readBuffer.readAvailable + 1) r.machine.data.header
    r.readBuffer with ⟨found, header, buffer⟩
  rcases hright : findHeader (r.readBuffer.readAvailable + 1) r'.machine.data.header
    r'.readBuffer with ⟨found', header', buffer'⟩
  rw [hleft, hright] at hfound hheader hbuffer
  obtain rfl : found = found' := hfound
  cases found with
  | false => exact ⟨.waits none ⟨rfl, Or.inr ⟨rfl, rfl⟩⟩ ⟨rfl, Or.inr ⟨rfl, rfl⟩⟩, hbuffer⟩
  | true =>
      obtain rfl : header = header' := hheader rfl
      have hleft : Waits (r.within .message header buffer).machine (some header) :=
        ⟨rfl, rfl, rfl, rfl⟩
      have hright : Waits (r'.within .message header buffer').machine (some header) :=
        ⟨rfl, rfl, rfl, rfl⟩
      exact alike_takeMessage hbuffer hleft hright

/-- One run of the machine keeps two readers alike that wait for more bytes. -/
theorem Alike.process (h : Alike r r') (hleft : r.machine.state ≠ .ended) :
    Alike r.process r'.process := by
  cases h.machine with
  | failed left right =>
      rw [process_of_failed left, process_of_failed right]
      exact h
  | waits behind left right =>
      cases behind with
      | none =>
          rw [process_of_header left, process_of_header right]
          exact alike_takeFrame h.buffer
      | some header =>
          rw [process_of_message left, process_of_message right]
          exact alike_takeMessage h.buffer left right
  | delivers left => exact absurd left.state hleft

end Obsr.Net.Reader
