/-
# Two framed sockets and the pipe between them

One socket writes, a lossless pipe carries its bytes, and the other socket reads
them. How many bytes each socket takes or delivers at a call is part of the input.
The link records what was written and what the owner of the reading socket was
handed. As long as no transfer fills a buffer to the brim, the bytes in the two
buffers and the pipe are the frames that are still to be delivered.
-/

import Obsr.Net.SocketIo

namespace Obsr.Net

open Obsr.Io Obsr.Lib

namespace SocketIo

/-- A connected socket that has sent all there was. -/
structure Flushed (s : SocketIo) : Prop where
  connected : s.state = .connected
  bounds : s.writeBuffer.InBounds
  nothing : s.writeBuffer.content = []

/-- A connected socket that waits for a header, and has read nothing of it. -/
structure Awaiting (s : SocketIo) : Prop where
  connected : s.state = .connected
  ready : s.reader.Ready
  behind : s.reader.behind = none
  nothing : s.reader.readBuffer.content = []

theorem flushed_new (memory : Memory) : ((SocketIo.new memory).start true).Flushed where
  connected := rfl
  bounds := inBounds_new _ memory.writeSize
  nothing := CircularBuffer.content_of_eq rfl

theorem awaiting_new (memory : Memory) : ((SocketIo.new memory).start true).Awaiting where
  connected := rfl
  ready := ⟨inBounds_new _ memory.readSize, rfl, Or.inl rfl⟩
  behind := rfl
  nothing := CircularBuffer.content_of_eq rfl

end SocketIo

structure Link where
  writer : SocketIo
  pipe : List UInt8
  reader : SocketIo
  /-- The type and the payload of every message a `write` accepted. -/
  written : List (UInt8 × List UInt8)
  /-- The type and the payload of every call of `on_message`. -/
  delivered : List (UInt8 × List UInt8)
  deriving DecidableEq, Repr

namespace Link

/-- Two sockets, and an empty pipe between them. -/
def between (writer reader : SocketIo) : Link where
  writer
  pipe := []
  reader
  written := []
  delivered := []

/-- A new link: two objects that were started with a connected socket. -/
def start (writer reader : SocketIo.Memory) : Link where
  writer := (SocketIo.new writer).start true
  pipe := []
  reader := (SocketIo.new reader).start true
  written := []
  delivered := []

/-- The numbers bound what the socket takes or delivers at its two calls; it never
fails. -/
inductive Input
  | write (type : UInt8) (message : List UInt8)
  | writeReady (first second : ℕ)
  | readReady (first second : ℕ)
  deriving DecidableEq, Repr

variable (link : Link)

def firstRead (first : ℕ) : ReadCall := .delivers (link.pipe.take first)

/-- A second call comes after a first one that delivered all it was asked for. -/
def secondRead (second : ℕ) : ReadCall :=
  .delivers ((link.pipe.drop link.reader.reader.readBuffer.firstRequest).take second)

def step (link : Link) : Input → Link
  | .write type message =>
      let (writer, accepted, _) := link.writer.write type message
      { link with
        writer
        written :=
          if accepted = some true then link.written ++ [(type, message)] else link.written }
  | .writeReady first second =>
      let (writer, outputs) := link.writer.onWriteReady true (.takes first) (.takes second)
      { link with writer, pipe := link.pipe ++ SocketIo.sentIn outputs }
  | .readReady first second =>
      if link.reader.state = .connected then
        let transfer :=
          (link.reader.reader.update (link.firstRead first) (link.secondRead second)).2
        let (reader, outputs) :=
          link.reader.onReadReady (link.firstRead first) (link.secondRead second)
        { link with
          reader
          pipe := link.pipe.drop transfer.bytes.length
          delivered := link.delivered ++
            (SocketIo.messagesIn outputs).map fun (header, message) => (header.type, message) }
      else link

/-- Nothing is on its way any more. A reading socket processes all it has read. -/
def Drained : Prop := link.writer.writeBuffer.content = [] ∧ link.pipe = []

/-- What was delivered is a prefix of what was written, and all of it once nothing is
on its way. -/
def Delivers : Prop :=
  link.delivered <+: link.written ∧ (link.Drained → link.delivered = link.written)

/-- Messages fit into a reader's buffer, and every `write` returns `true`. -/
def Accepts : Input → Prop
  | .write type message =>
      message.length ≤ ReadData.messageBufferSize ∧
        (link.writer.write type message).2.1 = some true
  | .writeReady _ _ | .readReady _ _ => True

/-- The step fills no buffer to the brim, and no array whose read position is
`0`. -/
def KeepsFrames : Input → Prop
  | .write _ message =>
      link.writer.writeBuffer.free ≠ MessageHeader.sizeOf ∧
        link.writer.writeBuffer.free ≠ MessageHeader.sizeOf + message.length
  | .writeReady _ _ => True
  | .readReady first second =>
      link.reader.reader.readBuffer.ReadFromKeeps (link.firstRead first) (link.secondRead second)

instance : Decidable link.Drained := inferInstanceAs (Decidable (_ ∧ _))

instance : Decidable link.Delivers := inferInstanceAs (Decidable (_ ∧ _))

instance : DecidablePred link.Accepts
  | .write _ _ => inferInstanceAs (Decidable (_ ∧ _))
  | .writeReady _ _ | .readReady _ _ => inferInstanceAs (Decidable True)

instance : DecidablePred link.KeepsFrames
  | .write _ _ => inferInstanceAs (Decidable (_ ∧ _))
  | .writeReady _ _ => inferInstanceAs (Decidable True)
  | .readReady first second => inferInstanceAs (Decidable
      (link.reader.reader.readBuffer.ReadFromKeeps (link.firstRead first)
        (link.secondRead second)))

/-! ## The reading socket -/

variable {more : List UInt8} {frames : List (Format.Frame MessageHeader.format)}

/-- What the reading socket holds and what is still to come carry the frames. -/
structure Reading (s : SocketIo) (more : List UInt8)
    (frames : List (Format.Frame MessageHeader.format)) : Prop where
  connected : s.state = .connected
  ready : s.reader.Ready
  carries : MessageHeader.format.Carries s.reader.behind (s.reader.readBuffer.content ++ more)
    frames

def outputOf (frame : Format.Frame MessageHeader.format) : SocketIo.Output :=
  .onMessage frame.header frame.payload

/-- The type and the payload of a frame. -/
def pairOf (frame : Format.Frame MessageHeader.format) : UInt8 × List UInt8 :=
  (frame.header.type, frame.payload)

theorem messagesIn_outputOf (frames : List (Format.Frame MessageHeader.format)) :
    (SocketIo.messagesIn (frames.map outputOf)).map
        (fun (header, message) => (header.type, message)) = frames.map pairOf := by
  induction frames with
  | nil => rfl
  | cons frame frames ih => exact congrArg (pairOf frame :: ·) ih

@[simp]
theorem behind_reset (r : Reader) : r.reset.behind = none := by
  simp [Reader.behind, Reader.reset, StateMachine.reset]

/-- A reading socket hands out the frames that have arrived completely, and waits. The
induction is on the bound of the loop: every round takes a header out of the buffer or
the payload behind one. -/
theorem processMessages_reading (hsupported : ∀ frame ∈ frames, Reader.Supported frame.header)
    {s : SocketIo} (h : Reading s more frames) {bound : ℕ}
    (hbound : s.reader.readBuffer.content.length +
      (if s.reader.behind = none then 0 else 1) < bound) :
    ∃ done rest, frames = done ++ rest ∧ (s.processMessages bound).2 = done.map outputOf ∧
      Reading (s.processMessages bound).1 more rest ∧
      MessageHeader.format.Waiting (s.processMessages bound).1.reader.behind
        (s.processMessages bound).1.reader.readBuffer.content := by
  induction bound generalizing s frames with
  | zero => exact absurd hbound (Nat.not_lt_zero _)
  | succ bound ih =>
      simp only [SocketIo.processMessages]
      cases Reader.processed_process h.ready hsupported h.carries with
      | waits ready notFinished carries waiting =>
          have hnoError : s.reader.process.machine.isErrored = false := by
            simp [StateMachine.isErrored, ready.noError]
          simp only [hnoError, notFinished, if_neg, Bool.false_eq_true, not_false_eq_true]
          exact ⟨[], frames, rfl, rfl, ⟨h.connected, ready, carries⟩, waiting⟩
      | delivers frame rest split ready finished noError header message carries =>
          simp only [noError, finished, Bool.false_eq_true, if_false, if_true]
          have hnext : Reading { s with reader := s.reader.process.reset } more rest :=
            ⟨h.connected, ready, by rw [behind_reset]; exact carries⟩
          have hfewer := Format.Carries.length_le (split ▸ h.carries) carries
          rw [List.length_append, List.length_append] at hfewer
          have hwidth : MessageHeader.format.width = 11 := rfl
          have hshort : s.reader.process.reset.readBuffer.content.length +
              (if s.reader.process.reset.behind = none then 0 else 1) < bound := by
            rw [behind_reset, if_pos rfl]
            have hsame : s.reader.process.reset.readBuffer = s.reader.process.readBuffer := rfl
            rw [hsame]
            split_ifs at hfewer hbound <;> omega
          obtain ⟨done, rest', hrest, houtputs, hreading, hwaiting⟩ := ih
            (fun frame hframe => hsupported frame (split ▸ List.mem_cons_of_mem _ hframe))
            hnext hshort
          refine ⟨frame :: done, rest', ?_, ?_, hreading, hwaiting⟩
          · rw [split, hrest, List.cons_append]
          · rw [houtputs, List.map_cons, outputOf, header, message]

/-- A call of `on_read_ready` that keeps its bytes moves them from the stream into the
reader, and hands out the frames they complete. -/
theorem onReadReady_reading (hsupported : ∀ frame ∈ frames, Reader.Supported frame.header)
    {s : SocketIo} {first second : ReadCall}
    (h : Reading s ((s.reader.update first second).2.bytes ++ more) frames)
    (hkeeps : s.reader.readBuffer.ReadFromKeeps first second)
    (houtcome : (s.reader.update first second).2.outcome ≠ none) :
    ∃ done rest, frames = done ++ rest ∧ (s.onReadReady first second).2 = done.map outputOf ∧
      Reading (s.onReadReady first second).1 more rest ∧
      MessageHeader.format.Waiting (s.onReadReady first second).1.reader.behind
        (s.onReadReady first second).1.reader.readBuffer.content := by
  obtain ⟨outcome, hsome⟩ := Option.ne_none_iff_exists'.mp houtcome
  have hcontent := CircularBuffer.content_readFrom h.ready.bounds hkeeps
  have hbounds : (s.reader.update first second).1.readBuffer.InBounds :=
    (h.ready.bounds.readFrom (CircularBuffer.not_overruns_of_readFromKeeps hkeeps)).1
  have hreading : Reading { s with reader := (s.reader.update first second).1 } more frames := by
    refine ⟨h.connected, ⟨hbounds, h.ready.noError, h.ready.state⟩, ?_⟩
    have hcarries := h.carries
    rw [← List.append_assoc] at hcarries
    show MessageHeader.format.Carries s.reader.behind
      ((s.reader.readBuffer.readFrom first second).buffer.content ++ more) frames
    rw [hcontent]
    exact hcarries
  rw [SocketIo.onReadReady, if_pos h.connected]
  simp only [hsome, SocketIo.processNewData]
  refine processMessages_reading hsupported hreading ?_
  rw [CircularBuffer.length_content hreading.ready.bounds]
  dsimp only
  split_ifs <;> omega

/-! ## The link -/

/-- The frames that were written and are not delivered yet are in the two buffers and
in the pipe. -/
structure Carrying (link : Link) (frames : List (Format.Frame MessageHeader.format)) :
    Prop where
  connected : link.writer.state = .connected
  bounds : link.writer.writeBuffer.InBounds
  supported : ∀ frame ∈ frames, Reader.Supported frame.header
  reading : Reading link.reader (link.pipe ++ link.writer.writeBuffer.content) frames
  waiting : MessageHeader.format.Waiting link.reader.reader.behind
    link.reader.reader.readBuffer.content
  accounted : link.written = link.delivered ++ frames.map pairOf

variable {link : Link}

theorem Carrying.delivers (h : link.Carrying frames) : link.Delivers := by
  refine ⟨⟨frames.map pairOf, h.accounted.symm⟩, ?_⟩
  rintro ⟨hwriter, hpipe⟩
  have hcarries := h.reading.carries
  rw [hwriter, hpipe, List.append_nil, List.append_nil] at hcarries
  rw [h.accounted, hcarries.eq_nil h.waiting, List.map_nil, List.append_nil]

/-- The frame of a message. -/
def frameFor (s : SocketIo) (type : UInt8) (message : List UInt8)
    (hsize : message.length ≤ ReadData.messageBufferSize) :
    Format.Frame MessageHeader.format where
  header := s.headerFor type message
  payload := message
  length_payload := by
    have hlt : message.length < 2 ^ 32 := by
      rw [ReadData.messageBufferSize] at hsize
      omega
    show message.length = (UInt32.ofNat message.length).toNat
    rw [UInt32.toNat_ofNat_of_lt' hlt]

theorem supported_frameFor (s : SocketIo) (type : UInt8) (message : List UInt8)
    (hsize : message.length ≤ ReadData.messageBufferSize) :
    Reader.Supported (frameFor s type message hsize).header where
  magic := rfl
  version := rfl
  size := by
    have hlength := (frameFor s type message hsize).length_payload
    exact hlength.symm.trans_le hsize

/-- A `write` that returns `true` and fills nothing to the brim appends its frame. -/
theorem write_appends {s : SocketIo} (h : s.writeBuffer.InBounds) {type : UInt8}
    {message : List UInt8} (hsize : message.length ≤ ReadData.messageBufferSize)
    (hheader : s.writeBuffer.free ≠ MessageHeader.sizeOf)
    (hframe : s.writeBuffer.free ≠ MessageHeader.sizeOf + message.length)
    (haccepted : (s.write type message).2.1 = some true) :
    (s.write type message).1.state = s.state ∧
      (s.write type message).1.writeBuffer.InBounds ∧
      (s.write type message).1.writeBuffer.content =
        s.writeBuffer.content ++ (frameFor s type message hsize).symbols := by
  obtain ⟨hvalue, hbody, hafter⟩ := SocketIo.write_accepted haccepted
  obtain ⟨hbounds, hcontent, hfree⟩ := SocketIo.content_headerWritten h hvalue hheader
  rw [hafter]
  rcases Nat.eq_zero_or_pos message.length with hzero | hpos
  · obtain rfl := List.length_eq_zero_iff.mp hzero
    rw [if_neg (by simp)]
    refine ⟨rfl, hbounds, hcontent.trans ?_⟩
    exact congrArg _ (List.append_nil _).symm
  · rw [if_pos hpos]
    obtain ⟨hbounds', hcontent', -⟩ :=
      CircularBuffer.write_of_value hbounds (hbody hpos) (by omega)
    refine ⟨rfl, hbounds', hcontent'.trans ?_⟩
    rw [hcontent, List.append_assoc]
    rfl

theorem Carrying.write (h : link.Carrying frames) {type : UInt8} {message : List UInt8}
    (haccepts : link.Accepts (.write type message))
    (hkeeps : link.KeepsFrames (.write type message)) :
    ∃ frames', (link.step (.write type message)).Carrying frames' := by
  obtain ⟨hsize, haccepted⟩ := haccepts
  obtain ⟨hstate, hbounds, hcontent⟩ :=
    write_appends h.bounds hsize hkeeps.1 hkeeps.2 haccepted
  refine ⟨frames ++ [frameFor link.writer type message hsize], ?_⟩
  refine ⟨hstate.trans h.connected, hbounds, ?_, ?_, h.waiting, ?_⟩
  · intro frame hframe
    rcases List.mem_append.mp hframe with hold | hnew
    · exact h.supported frame hold
    · rw [List.mem_singleton.mp hnew]
      exact supported_frameFor link.writer type message hsize
  · refine ⟨h.reading.connected, h.reading.ready, ?_⟩
    have hcarries := h.reading.carries.append [frameFor link.writer type message hsize]
    have hstream : Format.stream [frameFor link.writer type message hsize] =
        (frameFor link.writer type message hsize).symbols := List.append_nil _
    show MessageHeader.format.Carries link.reader.reader.behind
      (link.reader.reader.readBuffer.content ++
        (link.pipe ++ (link.writer.write type message).1.writeBuffer.content)) _
    rw [hcontent, ← hstream]
    simpa only [List.append_assoc] using hcarries
  · show (if (link.writer.write type message).2.1 = some true then
      link.written ++ [(type, message)] else link.written) = _
    rw [if_pos haccepted, h.accounted, List.map_append, ← List.append_assoc]
    rfl

theorem Carrying.writeReady (h : link.Carrying frames) (first second : ℕ) :
    (link.step (.writeReady first second)).Carrying frames := by
  have hkeeps : link.writer.writeBuffer.WriteIntoKeeps (.takes first) (.takes second) :=
    fun _ _ hthrows => by cases hthrows
  obtain ⟨k, hk, hbuffer, hbytes⟩ := CircularBuffer.writeInto_of_keeps h.bounds hkeeps
  obtain ⟨outcome, hsome⟩ := Option.ne_none_iff_exists'.mp
    (CircularBuffer.outcome_writeInto_takes h.bounds first second)
  have hready : link.writer.onWriteReady true (.takes first) (.takes second) =
      ({ link.writer with writeBuffer := link.writer.writeBuffer.advanceRead k },
        [.sent (link.writer.writeBuffer.content.take k)]) := by
    simp only [SocketIo.onWriteReady, h.connected, hsome, hbuffer, hbytes]
  have hstep : link.step (.writeReady first second) =
      { link with
        writer := { link.writer with writeBuffer := link.writer.writeBuffer.advanceRead k }
        pipe := link.pipe ++ link.writer.writeBuffer.content.take k } := by
    simp only [step, hready, SocketIo.sentIn, List.flatMap_cons, List.flatMap_nil,
      List.append_nil]
  rw [hstep]
  refine ⟨h.connected, h.bounds.advanceRead k, h.supported, ?_, h.waiting, h.accounted⟩
  refine ⟨h.reading.connected, h.reading.ready, ?_⟩
  show MessageHeader.format.Carries _ (link.reader.reader.readBuffer.content ++
    (link.pipe ++ link.writer.writeBuffer.content.take k ++
      (link.writer.writeBuffer.advanceRead k).content)) frames
  rw [CircularBuffer.content_advanceRead h.bounds hk, List.append_assoc,
    List.take_append_drop]
  exact h.reading.carries

theorem Carrying.readReady (h : link.Carrying frames) {first second : ℕ}
    (hkeeps : link.KeepsFrames (.readReady first second)) :
    ∃ frames', (link.step (.readReady first second)).Carrying frames' := by
  obtain ⟨houtcome, k, hbytes⟩ :=
    CircularBuffer.readFrom_stream h.reading.ready.bounds link.pipe first second
  set transfer := (link.reader.reader.update (link.firstRead first)
    (link.secondRead second)).2 with htransfer
  have hpipe : transfer.bytes ++ link.pipe.drop transfer.bytes.length = link.pipe := by
    have htaken : transfer.bytes = link.pipe.take k := hbytes
    rw [htaken]
    exact (List.prefix_append_drop (List.take_prefix k link.pipe)).symm
  have hreading : Reading link.reader (transfer.bytes ++
      (link.pipe.drop transfer.bytes.length ++ link.writer.writeBuffer.content)) frames := by
    rw [← List.append_assoc, hpipe]
    exact h.reading
  obtain ⟨done, rest, hsplit, houtputs, hafter, hwaiting⟩ :=
    onReadReady_reading h.supported hreading hkeeps houtcome
  refine ⟨rest, ?_⟩
  rw [step, if_pos h.reading.connected]
  refine ⟨h.connected, h.bounds, ?_, hafter, hwaiting, ?_⟩
  · intro frame hframe
    exact h.supported frame (hsplit ▸ List.mem_append_right done hframe)
  · show link.written = link.delivered ++ (SocketIo.messagesIn
      (link.reader.onReadReady (link.firstRead first) (link.secondRead second)).2).map _ ++
        rest.map pairOf
    rw [houtputs, messagesIn_outputOf, h.accounted, hsplit, List.map_append, List.append_assoc]

/-- Nothing is on its way between two sockets that hold nothing. -/
theorem carrying_between {writer reader : SocketIo} (hwriter : writer.Flushed)
    (hreader : reader.Awaiting) : (between writer reader).Carrying [] where
  connected := hwriter.connected
  bounds := hwriter.bounds
  supported := by simp
  reading := by
    refine ⟨hreader.connected, hreader.ready, ?_⟩
    dsimp only [between]
    rw [hreader.behind, hreader.nothing, hwriter.nothing]
    rfl
  waiting := by
    dsimp only [between]
    rw [hreader.behind, hreader.nothing]
    exact (by decide : 0 < MessageHeader.sizeOf)
  accounted := rfl

theorem carrying_start (writer reader : SocketIo.Memory) : (start writer reader).Carrying [] :=
  carrying_between (SocketIo.flushed_new writer) (SocketIo.awaiting_new reader)

/-- At every moment of a run that fills no buffer to the brim, what the reading side was
handed is a prefix of what was written, and once nothing is on its way it is all of
it. -/
theorem delivers_of_keepsFrames (writer reader : SocketIo.Memory) (inputs : List Input)
    (haccepts : StepsMeet step Accepts (start writer reader) inputs)
    (hkeeps : StepsMeet step KeepsFrames (start writer reader) inputs) :
    HoldsThroughout step Delivers (start writer reader) inputs := by
  have hmeet : StepsMeet step (fun link input => link.Accepts input ∧ link.KeepsFrames input)
      (start writer reader) inputs := haccepts.and hkeeps
  have hcarrying := holdsThroughout_of_invariant
    (I := fun link : Link => ∃ frames, link.Carrying frames) ?_
    ⟨[], carrying_start writer reader⟩ hmeet
  · exact hcarrying.imp fun link ⟨frames, h⟩ => h.delivers
  · rintro link input ⟨frames, h⟩ ⟨haccept, hkeep⟩
    cases input with
    | write type message => exact h.write haccept hkeep
    | writeReady first second => exact ⟨frames, h.writeReady first second⟩
    | readReady first second => exact h.readReady hkeep

/-- Two messages whose bytes come in pieces. -/
theorem delivers_in_pieces :
    HoldsThroughout step Delivers (start .blank .blank)
      [.write 7 [1, 2], .writeReady 5 0, .readReady 3 0, .write 8 [], .writeReady 100 0,
        .readReady 4 0, .readReady 100 0] :=
  delivers_of_keepsFrames .blank .blank _ (by decide +kernel) (by decide +kernel)

/-- A message that fills a new write buffer to the brim is accepted and never sent. -/
theorem not_delivers_brim_full :
    StepsMeet step Accepts (start .blank .blank) [.write 7 (List.replicate 1013 1)] ∧
      ¬ HoldsThroughout step Delivers (start .blank .blank)
        [.write 7 (List.replicate 1013 1)] := by
  decide +kernel

end Link

end Obsr.Net
