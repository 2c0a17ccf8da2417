/-
# The frame reader

`reader` is a state machine over `read_data`. It looks for a header in its
circular buffer, then waits for the message behind it. As long as the bytes that
arrive are those of a framed stream, every run of the machine either delivers the
next frame or waits for bytes that have not arrived.
-/

import Obsr.Io.CircularRun
import Obsr.Lib.Framing
import Obsr.Net.Message
import Obsr.Util.StateMachine

namespace Obsr.Net

open Obsr.Io Obsr.Lib

namespace MessageHeader

/-- The frames of the protocol. -/
def format : Format MessageHeader UInt8 where
  width := sizeOf
  encode := toBytes
  payloadSize header := header.messageSize.toNat
  length_encode := length_toBytes

end MessageHeader

inductive ReadState
  | header
  | message
  deriving DecidableEq, Repr

namespace ReadError

def unsupportedSize : UInt8 := 1

def readFailed : UInt8 := 3

end ReadError

/-- The message buffer is known by the bytes of the message in it; nobody looks
at those behind. -/
structure ReadData where
  header : MessageHeader
  messageBuffer : List UInt8
  deriving DecidableEq, Repr

def ReadData.messageBufferSize : ℕ := 1024

structure Reader where
  machine : StateMachine ReadState ReadData
  readBuffer : CircularBuffer
  deriving DecidableEq, Repr

namespace Reader

/-- The loop of the header state: whether it found a header, and the last one it
read. Each round takes a header out of the buffer. -/
def findHeader : ℕ → MessageHeader → CircularBuffer → Bool × MessageHeader × CircularBuffer
  | 0, header, buffer => (false, header, buffer)
  | bound + 1, header, buffer =>
      let sought := buffer.findAndSeekRead MessageHeader.messageMagic
      if sought.value then
        let result := sought.buffer.read MessageHeader.sizeOf
        match result.value with
        | none => (false, header, result.buffer)
        | some bytes =>
            let header := MessageHeader.ofBytes bytes
            if header.magic ≠ MessageHeader.messageMagic ∨
                header.version ≠ MessageHeader.currentVersion then
              findHeader bound header result.buffer
            else (true, header, result.buffer)
      else (false, header, sought.buffer)

def processState (current : ReadState) (m : StateMachine ReadState ReadData)
    (buffer : CircularBuffer) : Verdict × StateMachine ReadState ReadData × CircularBuffer :=
  match current with
  | .header =>
      let (found, header, buffer) := findHeader (buffer.readAvailable + 1) m.data.header buffer
      let m := { m with data := { m.data with header } }
      if found then
        let (verdict, m) := m.moveToState .message
        (verdict, m, buffer)
      else
        let (verdict, m) := m.tryLater
        (verdict, m, buffer)
  | .message =>
      let size := m.data.header.messageSize.toNat
      if size > ReadData.messageBufferSize then
        let (verdict, m) := m.error ReadError.unsupportedSize
        (verdict, m, buffer.seekRead size)
      else if buffer.canRead size then
        let result := buffer.read size
        match result.value with
        | none =>
            let (verdict, m) := m.error ReadError.readFailed
            (verdict, m, result.buffer)
        | some bytes =>
            let m := { m with data := { m.data with messageBuffer := bytes } }
            let (verdict, m) := m.finished
            (verdict, m, result.buffer)
      else
        let (verdict, m) := m.tryLater
        (verdict, m, buffer)

def behaviour : StateMachine.Behaviour ReadState ReadData CircularBuffer where
  first := .header
  processState

/-- The bound on the calls of `process_state` is never reached: after the header
comes the message, and after the message the loop ends. -/
def process (r : Reader) : Reader :=
  let (_, machine, readBuffer) := r.machine.process behaviour 2 r.readBuffer
  { machine, readBuffer }

def reset (r : Reader) : Reader := { r with machine := r.machine.reset .header }

/-- `update`: what the circular buffer reads from the socket. -/
def update (r : Reader) (first second : ReadCall) : Reader × Transfer :=
  let result := r.readBuffer.readFrom first second
  ({ r with readBuffer := result.buffer }, result.value)

/-! ## The bounds of the loops -/

/-- A round that reads a header takes its bytes out of the buffer. -/
theorem readAvailable_round_add {buffer : CircularBuffer} (h : buffer.InBounds)
    {bytes : List UInt8}
    (hread : ((buffer.findAndSeekRead MessageHeader.messageMagic).buffer.read
      MessageHeader.sizeOf).value = some bytes) :
    let next := ((buffer.findAndSeekRead MessageHeader.messageMagic).buffer.read
      MessageHeader.sizeOf).buffer
    next.InBounds ∧ next.readAvailable + MessageHeader.sizeOf ≤ buffer.readAvailable := by
  obtain ⟨k, hk, hsought⟩ :=
    CircularBuffer.findAndSeekRead_buffer h MessageHeader.messageMagic
  have havail := CircularBuffer.readAvailable_advanceRead h hk
  have hbounds := h.advanceRead k
  rw [hsought] at hread ⊢
  rcases Nat.lt_or_ge (buffer.advanceRead k).readAvailable MessageHeader.sizeOf with hlt | hle
  · rw [(CircularBuffer.read_of_gt hbounds hlt).2] at hread
    cases hread
  · simp only
    rw [(CircularBuffer.read_of_le hbounds hle).1]
    refine ⟨hbounds.advanceRead _, ?_⟩
    rw [CircularBuffer.readAvailable_advanceRead hbounds hle]
    omega

/-- So it leaves fewer bytes to search. -/
theorem readAvailable_round {buffer : CircularBuffer} (h : buffer.InBounds) {bytes : List UInt8}
    (hread : ((buffer.findAndSeekRead MessageHeader.messageMagic).buffer.read
      MessageHeader.sizeOf).value = some bytes) :
    let next := ((buffer.findAndSeekRead MessageHeader.messageMagic).buffer.read
      MessageHeader.sizeOf).buffer
    next.InBounds ∧ next.readAvailable < buffer.readAvailable := by
  obtain ⟨hnext, hfewer⟩ := readAvailable_round_add h hread
  have hpos : 0 < MessageHeader.sizeOf := by decide
  exact ⟨hnext, by omega⟩

/-! ## A round of the search -/

/-- Without the magic byte nothing is found. -/
theorem findHeader_of_findIdx?_eq_none {buffer : CircularBuffer} (h : buffer.InBounds)
    (hindex : buffer.content.findIdx? (· = MessageHeader.messageMagic) = none)
    (header : MessageHeader) (bound : ℕ) :
    findHeader (bound + 1) header buffer =
      (false, header,
        if buffer.writePos < buffer.readPos ∧ buffer.writePos = 0 then buffer
        else buffer.advanceRead buffer.readAvailable) := by
  obtain ⟨hvalue, hbuffer⟩ := CircularBuffer.findAndSeekRead_of_findIdx?_eq_none h hindex
  simp only [findHeader, hvalue, hbuffer, Bool.false_eq_true, if_false]

/-- Behind the magic byte a header that is not complete is left where it is. -/
theorem findHeader_of_findIdx?_eq_some_of_lt {buffer : CircularBuffer} (h : buffer.InBounds)
    {k : ℕ} (hindex : buffer.content.findIdx? (· = MessageHeader.messageMagic) = some k)
    (hshort : (buffer.advanceRead k).readAvailable < MessageHeader.sizeOf)
    (header : MessageHeader) (bound : ℕ) :
    findHeader (bound + 1) header buffer = (false, header, buffer.advanceRead k) := by
  obtain ⟨hbuffer, hvalue⟩ := CircularBuffer.findAndSeekRead_of_findIdx?_eq_some h hindex
  obtain ⟨hsame, hnone⟩ := CircularBuffer.read_of_gt (h.advanceRead k) hshort
  simp only [findHeader, hvalue, if_true, hbuffer, hnone, hsame]

/-- A complete one is taken, or dropped if it is not supported. -/
theorem findHeader_of_findIdx?_eq_some_of_ge {buffer : CircularBuffer} (h : buffer.InBounds)
    {k : ℕ} (hindex : buffer.content.findIdx? (· = MessageHeader.messageMagic) = some k)
    (hlong : MessageHeader.sizeOf ≤ (buffer.advanceRead k).readAvailable)
    (header : MessageHeader) (bound : ℕ) :
    findHeader (bound + 1) header buffer =
      if (MessageHeader.ofBytes
            ((buffer.advanceRead k).content.take MessageHeader.sizeOf)).magic ≠
          MessageHeader.messageMagic ∨
        (MessageHeader.ofBytes
            ((buffer.advanceRead k).content.take MessageHeader.sizeOf)).version ≠
          MessageHeader.currentVersion then
        findHeader bound
          (MessageHeader.ofBytes ((buffer.advanceRead k).content.take MessageHeader.sizeOf))
          ((buffer.advanceRead k).advanceRead MessageHeader.sizeOf)
      else
        (true,
          MessageHeader.ofBytes ((buffer.advanceRead k).content.take MessageHeader.sizeOf),
          (buffer.advanceRead k).advanceRead MessageHeader.sizeOf) := by
  obtain ⟨hbuffer, hvalue⟩ := CircularBuffer.findAndSeekRead_of_findIdx?_eq_some h hindex
  obtain ⟨hread, hbytes⟩ := CircularBuffer.read_of_le (h.advanceRead k) hlong
  simp only [findHeader, hvalue, if_true, hbuffer, hbytes, hread]

/-! ## The loop of the machine -/

/-- The machine goes on from the header to the message only. -/
def rank : ReadState → ℕ
  | .header => 1
  | .message => 0

theorem rank_lt_of_again {s : ReadState} {m m' : StateMachine ReadState ReadData}
    {buffer buffer' : CircularBuffer}
    (h : behaviour.processState s m buffer = (.again, m', buffer')) :
    rank m'.userState < rank s := by
  cases s with
  | header =>
      simp only [behaviour, processState] at h
      split_ifs at h
      · obtain ⟨-, rfl, -⟩ := h
        exact Nat.zero_lt_one
      · cases h
  | message =>
      simp only [behaviour, processState] at h
      split_ifs at h
      · cases h
      · split at h <;> cases h
      · cases h

/-! ## Framed streams -/

/-- The header whose message the reader waits for. -/
def behind (r : Reader) : Option MessageHeader :=
  if r.machine.state = .inState ∧ r.machine.userState = .message then
    some r.machine.data.header
  else none

/-- A reader between two runs of its machine: no error, and the machine is at its
start or in a state. -/
structure Ready (r : Reader) : Prop where
  bounds : r.readBuffer.InBounds
  noError : r.machine.errorCode = 0
  state : r.machine.state = .start ∨ r.machine.state = .inState

/-- A header the reader accepts. -/
structure Supported (header : MessageHeader) : Prop where
  magic : header.magic = MessageHeader.messageMagic
  version : header.version = MessageHeader.currentVersion
  size : header.messageSize.toNat ≤ ReadData.messageBufferSize

variable {more : List UInt8} {frames : List (Format.Frame MessageHeader.format)}
variable {buffer : CircularBuffer}

/-- What has arrived of a framed stream starts with the magic byte. -/
theorem findIdx?_magic (hsupported : ∀ frame ∈ frames, Supported frame.header)
    (hcarries : MessageHeader.format.Carries none (buffer.content ++ more) frames)
    (hcontent : buffer.content ≠ []) :
    buffer.content.findIdx? (· = MessageHeader.messageMagic) = some 0 := by
  rcases hcarries.starts with hnil | ⟨frame, rest, rfl⟩
  · exact absurd hnil hcontent
  · obtain ⟨byte, content, hsplit⟩ := List.exists_cons_of_ne_nil hcontent
    have hstream := Eq.trans (b := Format.stream (frame :: rest)) hcarries
      (Format.stream_cons frame rest)
    rw [hsplit] at hstream ⊢
    have hbyte : byte = frame.header.magic := (List.cons.inj hstream).1
    have hmagic := (hsupported frame (List.mem_cons_self ..)).magic
    simp [List.findIdx?_cons, hbyte, hmagic]

/-- Without a complete header in it the buffer stays as it is. -/
theorem findHeader_of_lt (h : buffer.InBounds)
    (hsupported : ∀ frame ∈ frames, Supported frame.header)
    (hcarries : MessageHeader.format.Carries none (buffer.content ++ more) frames)
    (hshort : buffer.content.length < MessageHeader.sizeOf) (bound : ℕ)
    (header : MessageHeader) :
    findHeader (bound + 1) header buffer = (false, header, buffer) := by
  have hzero := CircularBuffer.advanceRead_zero h
  by_cases hcontent : buffer.content = []
  · have hnone : buffer.content.findIdx? (· = MessageHeader.messageMagic) = none := by
      rw [hcontent]
      rfl
    have havail : buffer.readAvailable = 0 := by
      rw [← CircularBuffer.length_content h, hcontent, List.length_nil]
    rw [findHeader_of_findIdx?_eq_none h hnone, havail, hzero, ite_self]
  · have hindex := findIdx?_magic hsupported hcarries hcontent
    rw [CircularBuffer.length_content h] at hshort
    rw [findHeader_of_findIdx?_eq_some_of_lt h hindex (by rwa [hzero]), hzero]

/-- A complete header is found and taken out. -/
theorem findHeader_of_ge (h : buffer.InBounds)
    (hsupported : ∀ frame ∈ frames, Supported frame.header)
    (hcarries : MessageHeader.format.Carries none (buffer.content ++ more) frames)
    (hlong : MessageHeader.sizeOf ≤ buffer.content.length) (bound : ℕ)
    (header : MessageHeader) :
    ∃ frame rest, frames = frame :: rest ∧
      findHeader (bound + 1) header buffer =
        (true, frame.header, buffer.advanceRead MessageHeader.sizeOf) ∧
      MessageHeader.format.Carries (some frame.header)
        ((buffer.advanceRead MessageHeader.sizeOf).content ++ more) frames := by
  have hpos : 0 < MessageHeader.sizeOf := by decide
  have hcontent : buffer.content ≠ [] := List.ne_nil_of_length_pos (hpos.trans_le hlong)
  obtain ⟨frame, rest, hframes, htake, hafter⟩ := hcarries.header hpos hlong
  have hframe := hsupported frame (by rw [hframes]; exact List.mem_cons_self ..)
  have hindex := findIdx?_magic hsupported hcarries hcontent
  have hzero := CircularBuffer.advanceRead_zero h
  rw [CircularBuffer.length_content h] at hlong
  have hheader : MessageHeader.ofBytes (buffer.content.take MessageHeader.sizeOf) =
      frame.header := by
    rw [show buffer.content.take MessageHeader.sizeOf = frame.header.toBytes from htake,
      MessageHeader.ofBytes_toBytes]
  refine ⟨frame, rest, hframes, ?_, ?_⟩
  · rw [findHeader_of_findIdx?_eq_some_of_ge h hindex (by rwa [hzero]), hzero, hheader,
      if_neg (by simp [hframe.magic, hframe.version])]
  · rw [CircularBuffer.content_advanceRead h hlong]
    exact hafter

/-- The outcome of a run of the machine on a framed stream: it waits, or it has
the next frame. -/
inductive Processed (more : List UInt8) (frames : List (Format.Frame MessageHeader.format))
    (next : Reader) : Prop
  | waits (ready : next.Ready) (notFinished : next.machine.isFinished = false)
      (carries : MessageHeader.format.Carries next.behind (next.readBuffer.content ++ more)
        frames)
      (waiting : MessageHeader.format.Waiting next.behind next.readBuffer.content)
  | delivers (frame : Format.Frame MessageHeader.format)
      (rest : List (Format.Frame MessageHeader.format)) (split : frames = frame :: rest)
      (ready : next.reset.Ready)
      (finished : next.machine.isFinished = true) (noError : next.machine.isErrored = false)
      (header : next.machine.data.header = frame.header)
      (message : next.machine.data.messageBuffer = frame.payload)
      (carries : MessageHeader.format.Carries none (next.readBuffer.content ++ more) rest)

/-- The message state on a framed stream. -/
theorem processed_message {m : StateMachine ReadState ReadData} (h : buffer.InBounds)
    (hstate : m.state = .inState) (huser : m.userState = .message) (herror : m.errorCode = 0)
    (hsupported : ∀ frame ∈ frames, Supported frame.header)
    (hcarries : MessageHeader.format.Carries (some m.data.header) (buffer.content ++ more)
      frames) :
    ∃ m' buffer', processState .message m buffer = (.stop, m', buffer') ∧
      Processed more frames ⟨m', buffer'⟩ := by
  have hsize : m.data.header.messageSize.toNat ≤ ReadData.messageBufferSize := by
    obtain ⟨frame, rest, rfl, hheader, -⟩ := hcarries
    rw [← hheader]
    exact (hsupported frame (List.mem_cons_self ..)).size
  have hlength := CircularBuffer.length_content h
  simp only [processState, if_neg (Nat.not_lt_of_le hsize), CircularBuffer.canRead,
    decide_eq_true_iff, ge_iff_le]
  by_cases hlong : m.data.header.messageSize.toNat ≤ buffer.readAvailable
  · rw [if_pos hlong]
    obtain ⟨hread, hbytes⟩ := CircularBuffer.read_of_le h hlong
    obtain ⟨frame, rest, hframes, hheader, htake, hafter⟩ :=
      hcarries.payload (by rw [hlength]; exact hlong)
    rw [hread, hbytes]
    refine ⟨_, _, rfl, .delivers frame rest hframes ⟨h.advanceRead _, rfl, Or.inl rfl⟩ rfl
      ?_ hheader.symm htake ?_⟩
    · simp [StateMachine.isErrored, StateMachine.finished, herror]
    · rw [CircularBuffer.content_advanceRead h hlong]
      exact hafter
  · rw [if_neg hlong]
    have hbehind : Reader.behind ⟨m, buffer⟩ = some m.data.header := if_pos ⟨hstate, huser⟩
    refine ⟨_, _, rfl, .waits ⟨h, herror, Or.inr hstate⟩ ?_ ?_ ?_⟩
    · simp [StateMachine.isFinished, StateMachine.tryLater, hstate]
    · exact hbehind ▸ hcarries
    · show MessageHeader.format.Waiting (Reader.behind ⟨m, buffer⟩) buffer.content
      rw [hbehind]
      show buffer.content.length < m.data.header.messageSize.toNat
      rw [hlength]
      exact Nat.lt_of_not_le hlong

theorem processLoop_message {m : StateMachine ReadState ReadData} (bound : ℕ)
    (h : buffer.InBounds) (hstate : m.state = .inState) (huser : m.userState = .message)
    (herror : m.errorCode = 0) (hsupported : ∀ frame ∈ frames, Supported frame.header)
    (hcarries : MessageHeader.format.Carries (some m.data.header) (buffer.content ++ more)
      frames) :
    ∃ m' buffer', StateMachine.processLoop behaviour (bound + 1) m buffer =
        (.stop, m', buffer') ∧ Processed more frames ⟨m', buffer'⟩ := by
  obtain ⟨m', buffer', hprocess, hprocessed⟩ :=
    processed_message h hstate huser herror hsupported hcarries
  refine ⟨m', buffer', ?_, hprocessed⟩
  simp only [StateMachine.processLoop, StateMachine.processOnce, hstate, huser, behaviour,
    hprocess]

/-- The header state on a framed stream, with the message state behind it. -/
theorem processLoop_header {m : StateMachine ReadState ReadData} (h : buffer.InBounds)
    (hstate : m.state = .inState) (huser : m.userState = .header) (herror : m.errorCode = 0)
    (hsupported : ∀ frame ∈ frames, Supported frame.header)
    (hcarries : MessageHeader.format.Carries none (buffer.content ++ more) frames) :
    ∃ m' buffer', StateMachine.processLoop behaviour 2 m buffer = (.stop, m', buffer') ∧
      Processed more frames ⟨m', buffer'⟩ := by
  rcases Nat.lt_or_ge buffer.content.length MessageHeader.sizeOf with hshort | hlong
  · have hfound := findHeader_of_lt h hsupported hcarries hshort buffer.readAvailable
      m.data.header
    have hbehind : Reader.behind ⟨m, buffer⟩ = none := by simp [behind, huser]
    refine ⟨m, buffer, ?_, .waits ⟨h, herror, Or.inr hstate⟩ ?_ ?_ ?_⟩
    · simp [StateMachine.processLoop, StateMachine.processOnce, hstate, huser, behaviour,
        processState, hfound, StateMachine.tryLater]
      rw [← hstate, ← huser]
    · simp [StateMachine.isFinished, hstate]
    · exact hbehind ▸ hcarries
    · rw [hbehind]
      exact hshort
  · obtain ⟨frame, rest, -, hfound, hafter⟩ := findHeader_of_ge h hsupported hcarries hlong
      buffer.readAvailable m.data.header
    -- the loop goes on in the message state
    obtain ⟨m', buffer', hloop, hprocessed⟩ := processLoop_message 0
      (m := { m with data := { m.data with header := frame.header }, userState := .message })
      (h.advanceRead MessageHeader.sizeOf) hstate rfl herror hsupported hafter
    refine ⟨m', buffer', ?_, hprocessed⟩
    rw [← hloop]
    simp [StateMachine.processLoop, StateMachine.processOnce, hstate, huser, behaviour,
      processState, hfound, StateMachine.moveToState]

/-- A run of the machine on a framed stream. -/
theorem processed_process {r : Reader} (h : r.Ready)
    (hsupported : ∀ frame ∈ frames, Supported frame.header)
    (hcarries : MessageHeader.format.Carries r.behind (r.readBuffer.content ++ more) frames) :
    Processed more frames r.process := by
  obtain ⟨m, buffer⟩ := r
  have hrun : ∀ (m₀ : StateMachine ReadState ReadData), (∃ m' buffer',
      StateMachine.processLoop behaviour 2 m₀ buffer = (.stop, m', buffer') ∧
        Processed more frames ⟨m', buffer'⟩) →
      StateMachine.process behaviour 2 m buffer = StateMachine.processLoop behaviour 2 m₀ buffer →
        Processed more frames (Reader.process ⟨m, buffer⟩) := by
    rintro m₀ ⟨m', buffer', hloop, hprocessed⟩ hprocess
    simp only [Reader.process, hprocess, hloop]
    exact hprocessed
  rcases h.state with hstate | hstate
  · have hbehind : Reader.behind ⟨m, buffer⟩ = none := if_neg fun hin => by
      rw [hstate] at hin
      cases hin.1
    rw [hbehind] at hcarries
    apply hrun { m with state := .inState, errorCode := 0, userState := .header }
      (processLoop_header h.bounds rfl rfl rfl hsupported hcarries)
    rw [StateMachine.process, hstate]
    rfl
  · have hprocess : StateMachine.process behaviour 2 m buffer =
        StateMachine.processLoop behaviour 2 m buffer := by
      rw [StateMachine.process, hstate]
    cases huser : m.userState with
    | header =>
        have hbehind : Reader.behind ⟨m, buffer⟩ = none := by simp [behind, huser]
        rw [hbehind] at hcarries
        exact hrun m (processLoop_header h.bounds hstate huser h.noError hsupported hcarries)
          hprocess
    | message =>
        have hbehind : Reader.behind ⟨m, buffer⟩ = some m.data.header :=
          if_pos ⟨hstate, huser⟩
        rw [hbehind] at hcarries
        exact hrun m
          (processLoop_message 1 h.bounds hstate huser h.noError hsupported hcarries) hprocess

end Reader

end Obsr.Net
