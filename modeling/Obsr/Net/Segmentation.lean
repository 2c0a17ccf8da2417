/-
# The stream behind the reads

What a reader makes of a stream of bytes does not depend on how the bytes are handed to
it. `messagesOf` says which messages a stream carries for a reader that waits for a header
or for the message of one. Every call of `process_new_data` delivers the messages of what
is in the buffer, and leaves a reader for which the rest of the stream is the rest of the
messages.
-/

import Obsr.Net.FirstMessage

namespace Obsr.Net

open Obsr.Io Obsr.Lib

namespace Reader

/-! ## The messages of a stream -/

/-- The bytes from the first magic byte on. -/
def seek (bytes : List UInt8) : List UInt8 := bytes.dropWhile (· ≠ MessageHeader.messageMagic)

theorem length_seek_le (bytes : List UInt8) : (seek bytes).length ≤ bytes.length :=
  (List.dropWhile_suffix _).length_le

def Unsupported (header : MessageHeader) : Prop :=
  header.magic ≠ MessageHeader.messageMagic ∨ header.version ≠ MessageHeader.currentVersion

instance : DecidablePred Unsupported := fun _ => inferInstanceAs (Decidable (_ ∨ _))

/-- The first header of a stream that the reader accepts, and the bytes behind it. -/
def nextHeader (bytes : List UInt8) : Option (MessageHeader × List UInt8) :=
  if _ : (seek bytes).length < MessageHeader.sizeOf then none
  else if Unsupported (MessageHeader.ofBytes ((seek bytes).take MessageHeader.sizeOf)) then
    nextHeader ((seek bytes).drop MessageHeader.sizeOf)
  else
    some (MessageHeader.ofBytes ((seek bytes).take MessageHeader.sizeOf),
      (seek bytes).drop MessageHeader.sizeOf)
termination_by bytes.length
decreasing_by
  have hle := length_seek_le bytes
  have hheader : (11 : ℕ) = MessageHeader.sizeOf := rfl
  rw [List.length_drop]
  omega

/-- The message of a header at the front of a stream, and the bytes behind it. -/
def nextMessage (header : MessageHeader) (bytes : List UInt8) :
    Option ((MessageHeader × List UInt8) × List UInt8) :=
  if header.messageSize.toNat ≤ ReadData.messageBufferSize ∧
      header.messageSize.toNat ≤ bytes.length then
    some ((header, bytes.take header.messageSize.toNat), bytes.drop header.messageSize.toNat)
  else none

/-- The first message of a stream for a reader that waits for a header, or for the message
of one. -/
def firstOf : Option MessageHeader → List UInt8 →
    Option ((MessageHeader × List UInt8) × List UInt8)
  | none, bytes => (nextHeader bytes).bind fun found => nextMessage found.1 found.2
  | some header, bytes => nextMessage header bytes

theorem length_of_nextHeader {bytes rest : List UInt8} {header : MessageHeader}
    (h : nextHeader bytes = some (header, rest)) : rest.length < bytes.length := by
  have hheader : (11 : ℕ) = MessageHeader.sizeOf := rfl
  induction bytes using nextHeader.induct with
  | case1 bytes hshort =>
      rw [nextHeader, dif_pos hshort] at h
      cases h
  | case2 bytes hlong hunsupported ih =>
      rw [nextHeader, dif_neg hlong, if_pos hunsupported] at h
      have hle := length_seek_le bytes
      have hrest := ih h
      rw [List.length_drop] at hrest
      omega
  | case3 bytes hlong hsupported =>
      rw [nextHeader, dif_neg hlong, if_neg hsupported] at h
      cases h
      have hle := length_seek_le bytes
      rw [List.length_drop]
      omega

theorem length_of_nextMessage {header : MessageHeader} {bytes rest : List UInt8}
    {message : MessageHeader × List UInt8}
    (h : nextMessage header bytes = some (message, rest)) : rest.length ≤ bytes.length := by
  rw [nextMessage] at h
  split_ifs at h
  cases h
  rw [List.length_drop]
  exact Nat.sub_le _ _

/-- What is left of the stream, and whether a header has been taken from it. -/
def remaining (behind : Option MessageHeader) (bytes : List UInt8) : ℕ :=
  2 * bytes.length + if behind = none then 0 else 1

theorem remaining_of_firstOf {behind : Option MessageHeader} {bytes rest : List UInt8}
    {message : MessageHeader × List UInt8} (h : firstOf behind bytes = some (message, rest)) :
    remaining none rest < remaining behind bytes := by
  cases behind with
  | none =>
      obtain ⟨found, hfound, hmessage⟩ := Option.bind_eq_some_iff.mp h
      have hheader := length_of_nextHeader hfound
      have hrest := length_of_nextMessage hmessage
      simp only [remaining, if_true]
      omega
  | some header =>
      have hrest := length_of_nextMessage h
      simp only [remaining, if_true, reduceCtorEq, if_false]
      omega

/-- The messages a stream carries. -/
def messagesOf (behind : Option MessageHeader) (bytes : List UInt8) :
    List (MessageHeader × List UInt8) :=
  match _ : firstOf behind bytes with
  | none => []
  | some (message, rest) => message :: messagesOf none rest
termination_by remaining behind bytes
decreasing_by exact remaining_of_firstOf ‹_›

variable {behind : Option MessageHeader} {bytes more rest : List UInt8}
  {header : MessageHeader} {message : MessageHeader × List UInt8}

theorem messagesOf_of_none (h : firstOf behind bytes = none) : messagesOf behind bytes = [] := by
  rw [messagesOf]
  split
  · rfl
  · rename_i hfirst
    rw [h] at hfirst
    cases hfirst

theorem messagesOf_of_some (h : firstOf behind bytes = some (message, rest)) :
    messagesOf behind bytes = message :: messagesOf none rest := by
  rw [messagesOf]
  split
  · rename_i hfirst
    rw [h] at hfirst
    cases hfirst
  · rename_i hfirst
    rw [h] at hfirst
    cases hfirst
    rfl

/-- Streams with the same first message are the same stream. -/
theorem messagesOf_congr {behind' : Option MessageHeader} {bytes' : List UInt8}
    (h : firstOf behind bytes = firstOf behind' bytes') :
    messagesOf behind bytes = messagesOf behind' bytes' := by
  cases hfirst : firstOf behind' bytes' with
  | none => rw [messagesOf_of_none (h.trans hfirst), messagesOf_of_none hfirst]
  | some first => rw [messagesOf_of_some (h.trans hfirst), messagesOf_of_some hfirst]

/-! ## A stream of which more arrives -/

theorem seek_append_of_ne_nil (h : seek bytes ≠ []) :
    seek (bytes ++ more) = seek bytes ++ more := by
  rw [seek, List.dropWhile_append, if_neg (by rwa [List.isEmpty_iff]), seek]

theorem seek_append_of_eq_nil (h : seek bytes = []) : seek (bytes ++ more) = seek more := by
  rw [seek, List.dropWhile_append, if_pos (by rwa [List.isEmpty_iff]), seek]

theorem seek_seek (bytes : List UInt8) : seek (seek bytes) = seek bytes :=
  List.dropWhile_idempotent _ _

/-- The search does not look at what stands before the magic byte. -/
theorem nextHeader_congr {bytes' : List UInt8} (h : seek bytes = seek bytes') :
    nextHeader bytes = nextHeader bytes' := by
  rw [nextHeader.eq_1 bytes, nextHeader.eq_1 bytes', h]

theorem nextHeader_of_lt (h : (seek bytes).length < MessageHeader.sizeOf) :
    nextHeader bytes = none := by
  rw [nextHeader, dif_pos h]

theorem seek_of_findIdx?_eq_some {k : ℕ}
    (h : bytes.findIdx? (· = MessageHeader.messageMagic) = some k) :
    seek bytes = bytes.drop k := by
  obtain ⟨-, hk⟩ := List.findIdx?_eq_some_iff_findIdx_eq.mp h
  rw [seek, List.dropWhile_eq_drop_findIdx_not, ← hk]
  simp

theorem seek_of_findIdx?_eq_none
    (h : bytes.findIdx? (· = MessageHeader.messageMagic) = none) : seek bytes = [] := by
  rw [List.findIdx?_eq_none_iff] at h
  rw [seek, List.dropWhile_eq_nil_iff]
  intro byte hbyte
  simpa using h byte hbyte

/-- A complete header stays the same when more bytes arrive. -/
theorem nextHeader_append (h : MessageHeader.sizeOf ≤ (seek bytes).length) (more : List UInt8) :
    nextHeader (bytes ++ more) =
      if Unsupported (MessageHeader.ofBytes ((seek bytes).take MessageHeader.sizeOf)) then
        nextHeader ((seek bytes).drop MessageHeader.sizeOf ++ more)
      else
        some (MessageHeader.ofBytes ((seek bytes).take MessageHeader.sizeOf),
          (seek bytes).drop MessageHeader.sizeOf ++ more) := by
  have hpos : 0 < MessageHeader.sizeOf := by decide
  have hseek : seek (bytes ++ more) = seek bytes ++ more :=
    seek_append_of_ne_nil (List.ne_nil_of_length_pos (hpos.trans_le h))
  have hlong : ¬ (seek bytes ++ more).length < MessageHeader.sizeOf := by
    rw [List.length_append]
    omega
  rw [nextHeader.eq_1 (bytes ++ more), hseek, dif_neg hlong, List.take_append_of_le_length h,
    List.drop_append_of_le_length h]

/-- How a search in a buffer goes on in the stream. -/
inductive Sought (bytes : List UInt8) : Bool × MessageHeader × CircularBuffer → Prop
  | found (header : MessageHeader) (b : CircularBuffer)
      (carries : ∀ more, nextHeader (bytes ++ more) = some (header, b.content ++ more)) :
      Sought bytes (true, header, b)
  | missing (header : MessageHeader) (b : CircularBuffer) (nothing : nextHeader bytes = none)
      (resumes : ∀ more, nextHeader (bytes ++ more) = nextHeader (b.content ++ more)) :
      Sought bytes (false, header, b)

theorem Sought.congr {bytes' : List UInt8} {result : Bool × MessageHeader × CircularBuffer}
    (h : Sought bytes' result)
    (hsame : ∀ more, nextHeader (bytes ++ more) = nextHeader (bytes' ++ more)) :
    Sought bytes result := by
  cases h with
  | found header b carries =>
      exact .found header b fun more => (hsame more).trans (carries more)
  | missing header b nothing resumes =>
      refine .missing header b ?_ fun more => (hsame more).trans (resumes more)
      have hnow := hsame []
      rwa [List.append_nil, List.append_nil, nothing] at hnow

theorem sought_findHeader {b : CircularBuffer} (h : b.InBounds) (header : MessageHeader)
    {bound : ℕ} (hbound : b.readAvailable < bound) :
    Sought b.content (findHeader bound header b) := by
  have hheader : (11 : ℕ) = MessageHeader.sizeOf := rfl
  induction bound generalizing header b with
  | zero => exact absurd hbound (Nat.not_lt_zero _)
  | succ bound ih =>
      cases hindex : b.content.findIdx? (· = MessageHeader.messageMagic) with
      | none =>
          have hnothing := seek_of_findIdx?_eq_none hindex
          rw [findHeader_of_findIdx?_eq_none h hindex]
          refine .missing _ _ (nextHeader_of_lt ?_) fun more => nextHeader_congr ?_
          · rw [hnothing]
            decide
          · rw [seek_append_of_eq_nil hnothing]
            split_ifs
            · rw [seek_append_of_eq_nil hnothing]
            · rw [CircularBuffer.content_advanceRead h le_rfl, ← CircularBuffer.length_content h,
                List.drop_length, List.nil_append]
      | some k =>
          have hseek := seek_of_findIdx?_eq_some hindex
          obtain ⟨hklt, -⟩ := List.findIdx?_eq_some_iff_findIdx_eq.mp hindex
          have hk : k ≤ b.readAvailable := CircularBuffer.length_content h ▸ hklt.le
          have hne : seek b.content ≠ [] := by
            rw [hseek]
            exact List.ne_nil_of_length_pos (by rw [List.length_drop]; omega)
          have hbounds := h.advanceRead k
          have hcontent : (b.advanceRead k).content = seek b.content := by
            rw [CircularBuffer.content_advanceRead h hk, hseek]
          have hlength := CircularBuffer.length_content hbounds
          rw [hcontent] at hlength
          rcases Nat.lt_or_ge (seek b.content).length MessageHeader.sizeOf with hshort | hlong
          · rw [findHeader_of_findIdx?_eq_some_of_lt h hindex (hlength ▸ hshort)]
            refine .missing _ _ (nextHeader_of_lt hshort) fun more => nextHeader_congr ?_
            rw [hcontent, seek_append_of_ne_nil hne,
              seek_append_of_ne_nil (by rw [seek_seek]; exact hne), seek_seek]
          · have hrest : ((b.advanceRead k).advanceRead MessageHeader.sizeOf).content =
                (seek b.content).drop MessageHeader.sizeOf := by
              rw [CircularBuffer.content_advanceRead hbounds (hlength ▸ hlong), hcontent]
            rw [findHeader_of_findIdx?_eq_some_of_ge h hindex (hlength ▸ hlong), hcontent]
            split_ifs with hunsupported
            · have hnext := ih (hbounds.advanceRead MessageHeader.sizeOf)
                (MessageHeader.ofBytes ((seek b.content).take MessageHeader.sizeOf)) (by
                  rw [CircularBuffer.readAvailable_advanceRead hbounds (hlength ▸ hlong)]
                  have havail := CircularBuffer.readAvailable_advanceRead h hk
                  omega)
              rw [hrest] at hnext
              refine hnext.congr fun more => ?_
              have hskips : Unsupported (MessageHeader.ofBytes
                  ((seek b.content).take MessageHeader.sizeOf)) := hunsupported
              rw [nextHeader_append hlong, if_pos hskips]
            · refine .found _ _ fun more => ?_
              have haccepts : ¬ Unsupported (MessageHeader.ofBytes
                  ((seek b.content).take MessageHeader.sizeOf)) := hunsupported
              rw [nextHeader_append hlong, if_neg haccepts, hrest]

/-! ## Runs of the machine -/

/-- How a run of the machine goes on in the stream. -/
inductive Follows (behind : Option MessageHeader) (bytes : List UInt8) (next : Reader) : Prop
  | failed (failed : Failed next.machine)
      (nothing : ∀ more, messagesOf behind (bytes ++ more) = [])
  | waits (behind' : Option MessageHeader) (waits : Waits next.machine behind')
      (nothing : messagesOf behind bytes = [])
      (resumes : ∀ more, messagesOf behind (bytes ++ more) =
        messagesOf behind' (next.readBuffer.content ++ more))
  | delivers (delivering : Delivering next.machine)
      (carries : ∀ more, messagesOf behind (bytes ++ more) =
        (next.machine.data.header, next.machine.data.messageBuffer) ::
          messagesOf none (next.readBuffer.content ++ more))

theorem Follows.congr {behind' : Option MessageHeader} {bytes' : List UInt8} {next : Reader}
    (h : Follows behind' bytes' next)
    (hsame : ∀ more, messagesOf behind (bytes ++ more) = messagesOf behind' (bytes' ++ more)) :
    Follows behind bytes next := by
  cases h with
  | failed failed nothing =>
      exact .failed failed fun more => (hsame more).trans (nothing more)
  | waits behind'' waits nothing resumes =>
      refine .waits behind'' waits ?_ fun more => (hsame more).trans (resumes more)
      have hnow := hsame []
      rwa [List.append_nil, List.append_nil, nothing] at hnow
  | delivers delivering carries =>
      exact .delivers delivering fun more => (hsame more).trans (carries more)

variable {r : Reader}

theorem follows_takeMessage (hbounds : r.readBuffer.InBounds)
    (h : Waits r.machine (some header)) :
    Follows (some header) r.readBuffer.content r.takeMessage := by
  have hlength := CircularBuffer.length_content hbounds
  have hsize : r.messageSize = header.messageSize.toNat := by rw [messageSize, h.2.2.2]
  rcases Nat.lt_or_ge ReadData.messageBufferSize r.messageSize with hbig | hsmall
  · rw [takeMessage_of_gt hbig]
    refine .failed ⟨rfl, ?_⟩ fun more => messagesOf_of_none ?_
    · show ReadError.unsupportedSize ≠ 0
      decide
    · rw [firstOf, nextMessage, if_neg (by omega)]
  · rcases Nat.lt_or_ge r.readBuffer.readAvailable r.messageSize with hshort | hlong
    · have hcan : r.readBuffer.canRead r.messageSize = false := by
        rw [CircularBuffer.canRead]
        exact decide_eq_false (Nat.not_le.mpr hshort)
      rw [takeMessage_of_not_canRead hsmall hcan]
      refine .waits (some header) h (messagesOf_of_none ?_) fun more => rfl
      rw [firstOf, nextMessage, if_neg (by omega)]
    · obtain ⟨hread, hbytes⟩ := CircularBuffer.read_of_le hbounds hlong
      rw [takeMessage_of_some hsmall (decide_eq_true hlong) hbytes, hread]
      refine .delivers ⟨rfl, h.1⟩ fun more => messagesOf_of_some ?_
      have hfits : header.messageSize.toNat ≤ r.readBuffer.content.length := by omega
      have hroom : header.messageSize.toNat ≤ (r.readBuffer.content ++ more).length := by
        rw [List.length_append]
        omega
      rw [firstOf, nextMessage, if_pos ⟨by omega, hroom⟩, List.take_append_of_le_length hfits,
        List.drop_append_of_le_length hfits]
      simp only [deliver, h.2.2.2, hsize,
        CircularBuffer.content_advanceRead hbounds (hsize ▸ hlong)]

theorem follows_takeFrame (hbounds : r.readBuffer.InBounds) :
    Follows none r.readBuffer.content r.takeFrame := by
  obtain ⟨k, -, hbuffer, -⟩ := findHeader_advances hbounds r.machine.data.header
    (r.readBuffer.readAvailable + 1)
  have hsought := sought_findHeader hbounds r.machine.data.header
    (Nat.lt_succ_self r.readBuffer.readAvailable)
  rw [takeFrame]
  generalize findHeader (r.readBuffer.readAvailable + 1) r.machine.data.header r.readBuffer =
    result at hbuffer hsought
  cases hsought with
  | missing header b nothing resumes =>
      refine .waits none ⟨rfl, Or.inr ⟨rfl, rfl⟩⟩ (messagesOf_of_none ?_) fun more => ?_
      · rw [firstOf, nothing, Option.bind_none]
      · refine messagesOf_congr ?_
        rw [firstOf, firstOf, resumes more]
        rfl
  | found header b carries =>
      have hafter : b.InBounds := by
        have hb : b = r.readBuffer.advanceRead k := hbuffer
        rw [hb]
        exact hbounds.advanceRead k
      have hwaits : Waits (r.within .message header b).machine (some header) :=
        ⟨rfl, rfl, rfl, rfl⟩
      refine (follows_takeMessage (r := r.within .message header b) hafter hwaits).congr
        fun more => messagesOf_congr ?_
      rw [firstOf, firstOf, carries more, Option.bind_some]
      rfl

theorem follows_process (hbounds : r.readBuffer.InBounds) (h : Waits r.machine behind) :
    Follows behind r.readBuffer.content r.process := by
  cases behind with
  | none => exact process_of_header h ▸ follows_takeFrame hbounds
  | some header => exact process_of_message h ▸ follows_takeMessage hbounds h

/-! ## Machines that stand still -/

/-- A machine that makes no message of any bytes. -/
inductive Mute (m : StateMachine ReadState ReadData) : Prop
  | error (state : m.state = .error)
  | stopped (state : m.state ≠ .start) (code : m.errorCode ≠ 0)

theorem Failed.mute {m : StateMachine ReadState ReadData} (h : Failed m) : Mute m := .error h.state

/-- What a state does leaves an error code. -/
theorem stopped_processState (current : ReadState) {m : StateMachine ReadState ReadData}
    (hstate : m.state ≠ .start) (hcode : m.errorCode ≠ 0) (buffer : CircularBuffer) :
    (processState current m buffer).2.1.state ≠ .start ∧
      (processState current m buffer).2.1.errorCode ≠ 0 := by
  cases current with
  | header =>
      simp only [processState]
      split_ifs
      · exact ⟨by simp [StateMachine.moveToState], hcode⟩
      · exact ⟨hstate, hcode⟩
  | message =>
      simp only [processState]
      split_ifs
      · exact ⟨by simp [StateMachine.error],
          by simp [StateMachine.error, ReadError.unsupportedSize]⟩
      · split
        · exact ⟨by simp [StateMachine.error], by simp [StateMachine.error, ReadError.readFailed]⟩
        · exact ⟨by simp [StateMachine.finished], hcode⟩
      · exact ⟨hstate, hcode⟩

theorem stopped_processLoop (bound : ℕ) {m : StateMachine ReadState ReadData}
    (hstate : m.state ≠ .start) (hcode : m.errorCode ≠ 0) (buffer : CircularBuffer) :
    (StateMachine.processLoop behaviour bound m buffer).2.1.state ≠ .start ∧
      (StateMachine.processLoop behaviour bound m buffer).2.1.errorCode ≠ 0 := by
  induction bound generalizing m buffer with
  | zero => exact ⟨hstate, hcode⟩
  | succ bound ih =>
      have honce : (StateMachine.processOnce behaviour m buffer).2.1.state ≠ .start ∧
          (StateMachine.processOnce behaviour m buffer).2.1.errorCode ≠ 0 := by
        rw [StateMachine.processOnce]
        cases m.state with
        | inState => exact stopped_processState m.userState hstate hcode buffer
        | start | error | ended => exact ⟨hstate, hcode⟩
      rw [StateMachine.processLoop]
      split
      · rename_i hagain
        rw [hagain] at honce
        exact ih honce.1 honce.2 _
      · exact honce

theorem Mute.process (h : Mute r.machine) : Mute r.process.machine := by
  cases h with
  | error state =>
      have hsame : r.process = r := by simp only [Reader.process, StateMachine.process, state]
      rw [hsame]
      exact .error state
  | stopped state code =>
      have hkept : (StateMachine.process behaviour 2 r.machine r.readBuffer).2.1.state ≠ .start ∧
          (StateMachine.process behaviour 2 r.machine r.readBuffer).2.1.errorCode ≠ 0 := by
        cases hstate : r.machine.state with
        | start => exact absurd hstate state
        | inState =>
            rw [StateMachine.process, hstate]
            exact stopped_processLoop 2 state code r.readBuffer
        | error | ended =>
            rw [StateMachine.process, hstate]
            exact ⟨state, code⟩
      exact .stopped hkept.1 hkept.2

theorem Mute.delivers_nothing {m : StateMachine ReadState ReadData} (h : Mute m) :
    m.isErrored = true ∨ m.isErrored = false ∧ m.isFinished = false := by
  cases h with
  | error state =>
      cases herrored : m.isErrored with
      | true => exact Or.inl rfl
      | false => exact Or.inr ⟨rfl, by simp [StateMachine.isFinished, state]⟩
  | stopped state code => exact Or.inl (decide_eq_true code)

end Reader

namespace SocketIo

open Reader

variable {s : SocketIo} {behind : Option MessageHeader}

/-- How `process_new_data` leaves the reader in the stream. -/
inductive Resumes (behind : Option MessageHeader) (bytes : List UInt8) (next : Reader) : Prop
  | failed (failed : Failed next.machine)
      (stays : ∀ more, messagesOf behind (bytes ++ more) = messagesOf behind bytes)
  | waits (behind' : Option MessageHeader) (waits : Waits next.machine behind')
      (resumes : ∀ more, messagesOf behind (bytes ++ more) =
        messagesOf behind bytes ++ messagesOf behind' (next.readBuffer.content ++ more))

theorem reader_stopInternal (s : SocketIo) (notify : Bool) :
    (s.stopInternal notify).1.reader = s.reader := by
  rw [SocketIo.stopInternal]
  split_ifs <;> rfl

/-- The loop delivers the messages of what is in the buffer. The induction is on its bound:
every round takes a header out of the buffer, or the message behind one. -/
theorem processMessages_stream (hbounds : s.reader.readBuffer.InBounds)
    (hwaits : Waits s.reader.machine behind) {bound : ℕ}
    (hbound : s.reader.readBuffer.readAvailable + (if behind = none then 0 else 1) < bound) :
    messagesIn (s.processMessages bound).2 = messagesOf behind s.reader.readBuffer.content ∧
      Resumes behind s.reader.readBuffer.content (s.processMessages bound).1.reader ∧
      ∃ k ≤ s.reader.readBuffer.readAvailable,
        (s.processMessages bound).1.reader.readBuffer = s.reader.readBuffer.advanceRead k := by
  induction bound generalizing s behind with
  | zero => exact absurd hbound (Nat.not_lt_zero _)
  | succ bound ih =>
      obtain ⟨⟨k, hk, hbuffer⟩, hran⟩ := ran_process hbounds hwaits
      have hfollows := follows_process hbounds hwaits
      simp only [SocketIo.processMessages]
      cases hfollows with
      | failed failed nothing =>
          have hnothing := nothing []
          rw [List.append_nil] at hnothing
          rw [failed.isErrored, if_pos rfl, messagesIn_stopInternal, hnothing,
            reader_stopInternal]
          refine ⟨rfl, .failed failed fun more => ?_, k, hk, hbuffer⟩
          rw [nothing more, hnothing]
      | waits behind' waits nothing resumes =>
          simp only [waits.isErrored, waits.isFinished, Bool.false_eq_true, if_false]
          refine ⟨nothing.symm, .waits behind' waits fun more => ?_, k, hk, hbuffer⟩
          rw [resumes more, nothing, List.nil_append]
      | delivers delivering carries =>
          cases hran with
          | failed failed => exact absurd delivering.code failed.code
          | waits _ waits => exact absurd delivering.state waits.state_ne
          | delivers _ fewer =>
              simp only [delivering.isErrored, delivering.isFinished, Bool.false_eq_true,
                if_false, if_true]
              have hbounds' : s.reader.process.readBuffer.InBounds :=
                hbuffer ▸ hbounds.advanceRead k
              have havail : s.reader.process.readBuffer.readAvailable =
                  s.reader.readBuffer.readAvailable - k :=
                hbuffer ▸ CircularBuffer.readAvailable_advanceRead hbounds hk
              have hnext : s.reader.process.readBuffer.readAvailable + 0 < bound := by
                cases behind with
                | none =>
                    have hfewer := fewer rfl
                    rw [if_pos rfl] at hbound
                    omega
                | some header =>
                    rw [if_neg (by simp)] at hbound
                    omega
              obtain ⟨hmessages, hresumes, n, hn, hmoved⟩ :=
                ih (s := { s with reader := s.reader.process.reset }) hbounds'
                  (waits_reset s.reader.process) hnext
              have hnow := carries []
              rw [List.append_nil, List.append_nil] at hnow
              refine ⟨?_, ?_, k + n, ?_, ?_⟩
              · rw [hnow]
                exact congrArg (_ :: ·) hmessages
              · cases hresumes with
                | failed failed stays =>
                    refine .failed failed fun more => ?_
                    rw [carries more, hnow]
                    exact congrArg (_ :: ·) (stays more)
                | waits behind' waits resumes =>
                    refine .waits behind' waits fun more => ?_
                    rw [carries more, hnow]
                    exact congrArg (_ :: ·) (resumes more)
              · have hle : n ≤ s.reader.process.readBuffer.readAvailable := hn
                omega
              · rw [← CircularBuffer.advanceRead_advanceRead, ← hbuffer]
                exact hmoved

/-- A machine that makes no message delivers none, and goes on like that. -/
theorem processMessages_mute (hmute : Mute s.reader.machine) (bound : ℕ) :
    messagesIn (s.processMessages bound).2 = [] ∧
      Mute (s.processMessages bound).1.reader.machine := by
  cases bound with
  | zero => exact ⟨rfl, hmute⟩
  | succ bound =>
      have hnext := hmute.process
      simp only [SocketIo.processMessages]
      rcases hnext.delivers_nothing with herrored | ⟨hnot, hunfinished⟩
      · rw [herrored, if_pos rfl, messagesIn_stopInternal, reader_stopInternal]
        exact ⟨rfl, hnext⟩
      · simp only [hnot, hunfinished, Bool.false_eq_true, if_false]
        exact ⟨rfl, hnext⟩

/-- The object after bytes have arrived that fit into its read buffer. -/
def receives (s : SocketIo) (bytes : List UInt8) : SocketIo :=
  { s with reader := receiving s.reader bytes }

/-- Bytes that leave one cell free are appended to what can be read. -/
theorem receives_of_lt (hbounds : s.reader.readBuffer.InBounds) {bytes : List UInt8}
    (hroom : s.reader.readBuffer.content.length + bytes.length < s.reader.readBuffer.size) :
    (s.receives bytes).reader.readBuffer.InBounds ∧
      (s.receives bytes).reader.readBuffer.content = s.reader.readBuffer.content ++ bytes := by
  have hlength := CircularBuffer.length_content hbounds
  have hinside : s.reader.readBuffer.readPos = 0 →
      s.reader.readBuffer.writePos + bytes.length < s.reader.readBuffer.size := by
    intro hzero
    rw [CircularBuffer.readAvailable_of_le (by rw [hzero]; exact Nat.zero_le _), hzero] at hlength
    omega
  constructor
  · refine (hbounds.readFrom ?_).1
    rintro ⟨-, hzero, hlong⟩
    have hless := hinside hzero
    omega
  · refine CircularBuffer.content_readFrom_of_lt hbounds ?_ ?_
    · rw [CircularBuffer.free]
      omega
    · rcases Nat.eq_zero_or_pos s.reader.readBuffer.readPos with hzero | hpos
      · exact Or.inr (hinside hzero)
      · exact Or.inl hpos

/-- The object delivers what it has already and then the messages of what it can read. -/
structure Streams (first : List (MessageHeader × List UInt8)) (behind : Option MessageHeader)
    (s : SocketIo) : Prop where
  messages : messagesIn s.processNewData.2 =
    first ++ messagesOf behind s.reader.readBuffer.content
  resumes : Resumes behind s.reader.readBuffer.content s.processNewData.1.reader
  moves : ∃ k ≤ s.reader.readBuffer.readAvailable,
    s.processNewData.1.reader.readBuffer = s.reader.readBuffer.advanceRead k

theorem streams_of_waits (hbounds : s.reader.readBuffer.InBounds)
    (hwaits : Waits s.reader.machine behind) : Streams [] behind s := by
  have hbound : s.reader.readBuffer.readAvailable + (if behind = none then 0 else 1) <
      s.reader.readBuffer.readAvailable + 2 := by
    split_ifs <;> omega
  obtain ⟨hmessages, hresumes, hmoves⟩ := processMessages_stream hbounds hwaits hbound
  exact ⟨hmessages, hresumes, hmoves⟩

/-- A machine that was reset forgets its error. -/
theorem streams_of_start (hbounds : s.reader.readBuffer.InBounds)
    (hstart : s.reader.machine.state = .start) : Streams [] none s := by
  let forgotten : SocketIo :=
    { s with reader := { s.reader with machine := { s.reader.machine with errorCode := 0 } } }
  have hprocess : forgotten.reader.process = s.reader.process := by
    simp only [forgotten, Reader.process, StateMachine.process, hstart]
  have hsame : forgotten.processNewData = s.processNewData := by
    simp only [SocketIo.processNewData, SocketIo.processMessages, hprocess]
    rfl
  obtain ⟨hmessages, hresumes, hmoves⟩ :=
    streams_of_waits (s := forgotten) hbounds (show Waits forgotten.reader.machine none from
      ⟨rfl, Or.inl hstart⟩)
  rw [hsame] at hmessages hresumes hmoves
  exact ⟨hmessages, hresumes, hmoves⟩

/-- A machine that has read a message delivers it first. -/
theorem streams_of_delivering (hbounds : s.reader.readBuffer.InBounds)
    (hended : Delivering s.reader.machine) :
    Streams [(s.reader.machine.data.header, s.reader.machine.data.messageBuffer)] none s := by
  have hprocess : s.reader.process = s.reader := by
    simp only [Reader.process, StateMachine.process, hended.state]
  obtain ⟨hmessages, hresumes, hmoves⟩ :=
    processMessages_stream (s := { s with reader := s.reader.reset }) hbounds
      (waits_reset s.reader) (Nat.lt_succ_self (s.reader.readBuffer.readAvailable + 0))
  have hround : s.processNewData =
      ((({ s with reader := s.reader.reset } : SocketIo).processMessages
          (s.reader.readBuffer.readAvailable + 1)).1,
        .onMessage s.reader.machine.data.header s.reader.machine.data.messageBuffer ::
          (({ s with reader := s.reader.reset } : SocketIo).processMessages
            (s.reader.readBuffer.readAvailable + 1)).2) := by
    simp only [SocketIo.processNewData]
    rw [SocketIo.processMessages]
    simp only [hprocess, hended.isErrored, hended.isFinished, Bool.false_eq_true, if_false,
      if_true]
  refine ⟨?_, ?_, ?_⟩
  · rw [hround]
    exact congrArg (_ :: ·) hmessages
  · rw [hround]
    exact hresumes
  · rw [hround]
    exact hmoves

/-- What an object delivers is decided by its machine and the bytes it can read. -/
theorem mute_or_streams (m : StateMachine ReadState ReadData) :
    Mute m ∨ ∃ first behind, ∀ s : SocketIo, s.reader.machine = m →
      s.reader.readBuffer.InBounds → Streams first behind s := by
  cases hstate : m.state with
  | error => exact Or.inl (.error hstate)
  | start =>
      refine Or.inr ⟨[], none, fun s hm hbounds => ?_⟩
      exact streams_of_start hbounds (hm ▸ hstate)
  | inState =>
      by_cases hcode : m.errorCode = 0
      · cases huser : m.userState with
        | header =>
            refine Or.inr ⟨[], none, fun s hm hbounds => ?_⟩
            subst hm
            exact streams_of_waits hbounds ⟨hcode, Or.inr ⟨hstate, huser⟩⟩
        | message =>
            refine Or.inr ⟨[], some m.data.header, fun s hm hbounds => ?_⟩
            subst hm
            exact streams_of_waits hbounds ⟨hcode, hstate, huser, rfl⟩
      · exact Or.inl (.stopped (by simp [hstate]) hcode)
  | ended =>
      by_cases hcode : m.errorCode = 0
      · refine Or.inr ⟨[(m.data.header, m.data.messageBuffer)], none, fun s hm hbounds => ?_⟩
        subst hm
        exact streams_of_delivering hbounds ⟨hstate, hcode⟩
      · exact Or.inl (.stopped (by simp [hstate]) hcode)

/-- It makes no difference whether bytes that fit into the read buffer arrive before the
reader runs, or after it has run once on what was there. -/
theorem messages_segmented (hbounds : s.reader.readBuffer.InBounds) {bytes : List UInt8}
    (hroom : s.reader.readBuffer.content.length + bytes.length < s.reader.readBuffer.size) :
    messagesIn s.processNewData.2 ++
        messagesIn (s.processNewData.1.receives bytes).processNewData.2 =
      messagesIn (s.receives bytes).processNewData.2 := by
  rcases mute_or_streams s.reader.machine with hmute | ⟨first, behind, hstreams⟩
  · have hnow := processMessages_mute hmute (s.reader.readBuffer.readAvailable + 2)
    have hlater : messagesIn (s.processNewData.1.receives bytes).processNewData.2 = [] :=
      (processMessages_mute (s := s.processNewData.1.receives bytes) hnow.2 _).1
    have honce : messagesIn (s.receives bytes).processNewData.2 = [] :=
      (processMessages_mute (s := s.receives bytes) hmute _).1
    rw [hlater, honce, List.append_nil]
    exact hnow.1
  · obtain ⟨hafter, hcontent⟩ := receives_of_lt hbounds hroom
    obtain ⟨hmessages, hresumes, k, hk, hmoved⟩ := hstreams s rfl hbounds
    have honce := (hstreams (s.receives bytes) rfl hafter).messages
    rw [hcontent] at honce
    rw [hmessages, honce]
    cases hresumes with
    | failed failed stays =>
        have hlater : messagesIn (s.processNewData.1.receives bytes).processNewData.2 = [] :=
          (processMessages_mute (s := s.processNewData.1.receives bytes) failed.mute _).1
        rw [hlater, List.append_nil, stays]
    | waits behind' waits resumes =>
        have hbounds' : s.processNewData.1.reader.readBuffer.InBounds :=
          hmoved ▸ hbounds.advanceRead k
        have hshorter : s.processNewData.1.reader.readBuffer.content.length ≤
            s.reader.readBuffer.content.length := by
          rw [hmoved, CircularBuffer.content_advanceRead hbounds hk, List.length_drop]
          exact Nat.sub_le _ _
        have hsize : s.processNewData.1.reader.readBuffer.size = s.reader.readBuffer.size :=
          hmoved ▸ CircularBuffer.size_advanceRead k
        have hroom' : s.processNewData.1.reader.readBuffer.content.length + bytes.length <
            s.processNewData.1.reader.readBuffer.size := by omega
        obtain ⟨hbounds'', hcontent'⟩ := receives_of_lt hbounds' hroom'
        have hlater := (streams_of_waits (s := s.processNewData.1.receives bytes) hbounds''
          waits).messages
        rw [hlater, hcontent', List.nil_append, List.append_assoc, resumes]

/-- A header of which five bytes were there when the reader ran. -/
theorem messages_segmented_probe :
    let half := (SocketIo.new .blank).receives ((probe 0).take 5)
    messagesIn half.processNewData.2 ++
          messagesIn (half.processNewData.1.receives ((probe 0).drop 5)).processNewData.2 =
        messagesIn (half.receives ((probe 0).drop 5)).processNewData.2 ∧
      messagesIn (half.receives ((probe 0).drop 5)).processNewData.2 = [(probeHeader 0, [])] :=
  ⟨messages_segmented ⟨by decide +kernel, by decide +kernel, by decide +kernel⟩
    (by decide +kernel), by decide +kernel⟩

end SocketIo

end Obsr.Net
