/-
# What sessions leave behind

A run of calls keeps the positions of both buffers in their arrays, as long as no read
writes past the end of one. It also leaves the reader in one of a few places: it has failed,
it waits for the message of a header, or it waits for a header with what a search could
not use.
-/

import Obsr.Lib.Run
import Obsr.Net.ReaderRun
import Obsr.Net.SocketIo

namespace Obsr.Net

open Obsr.Io Obsr.Lib

namespace SocketIo

/-- The object after the calls of its first sessions. -/
def after (memory : Memory) (inputs : List Input) : SocketIo :=
  inputs.foldl (fun s input => (s.step input).1) (SocketIo.new memory)

/-- The step does not write past the end of the array of the read buffer. -/
def ReadsInside (s : SocketIo) : Input → Prop
  | .readReady first _ => s.state = .connected → ¬ s.reader.readBuffer.Overruns first
  | _ => True

variable {s : SocketIo}

/-- The reader between two calls. -/
inductive Settled (r : Reader) : Prop
  | failed (failed : Reader.Failed r.machine)
  | waits (behind : Option MessageHeader) (waits : Reader.Waits r.machine behind)
      (rest : behind = none → Reader.Rest r.readBuffer)

/-- The positions of both buffers are in their arrays. -/
structure Inside (s : SocketIo) : Prop where
  readBounds : s.reader.readBuffer.InBounds
  readSize : s.reader.readBuffer.size = bufferSize
  writeBounds : s.writeBuffer.InBounds
  writeSize : s.writeBuffer.size = bufferSize

/-- What holds of an object between two calls. -/
structure Kept (s : SocketIo) : Prop extends Inside s where
  settled : Settled s.reader

theorem inside_new (memory : Memory) : Inside (SocketIo.new memory) where
  readBounds := inBounds_new _ memory.readSize
  readSize := memory.readSize
  writeBounds := inBounds_new _ memory.writeSize
  writeSize := memory.writeSize

theorem kept_new (memory : Memory) : Kept (SocketIo.new memory) where
  toInside := inside_new memory
  settled := .waits none ⟨rfl, Or.inl rfl⟩ fun _ => .empty (CircularBuffer.content_of_eq rfl)

theorem Kept.withState (h : Kept s) (state : State) : Kept { s with state } :=
  ⟨⟨h.readBounds, h.readSize, h.writeBounds, h.writeSize⟩, h.settled⟩

theorem stopInternal_fst (s : SocketIo) (notify : Bool) :
    (s.stopInternal notify).1 = { s with state := .idle } := by
  obtain ⟨state, reader, writeBuffer, index⟩ := s
  cases state <;> rfl

theorem Kept.stopInternal (h : Kept s) (notify : Bool) : Kept (s.stopInternal notify).1 := by
  rw [stopInternal_fst]
  exact h.withState .idle

theorem Kept.write (h : Kept s) (type : UInt8) (message : List UInt8) :
    Kept (s.write type message).1 := by
  have hcounted : ∀ b : CircularBuffer, b.InBounds → b.size = s.writeBuffer.size →
      Kept (s.counted b) := fun b hb hsize =>
    ⟨⟨h.readBounds, h.readSize, hb, hsize.trans h.writeSize⟩, h.settled⟩
  obtain ⟨hbounds, hsize⟩ :=
    h.writeBounds.write_bytes (s.headerFor type message).toBytes
  obtain ⟨hbounds', hsize'⟩ := hbounds.write_bytes message
  have hheader : Kept (s.counted (s.headerWritten type message).buffer) :=
    hcounted _ hbounds hsize
  cases hroom : s.writeBuffer.canWrite (MessageHeader.sizeOf + message.length) with
  | false =>
      rw [write_of_not_canWrite hroom]
      exact h
  | true =>
      cases hvalue : (s.headerWritten type message).value with
      | false =>
          rw [write_of_no_header hroom hvalue]
          exact hheader
      | true =>
          rcases Nat.eq_zero_or_pos message.length with hzero | hpos
          · obtain rfl := List.length_eq_zero_iff.mp hzero
            rw [write_of_nil hroom hvalue]
            exact hheader
          · cases hbody : ((s.headerWritten type message).buffer.write message).value with
            | false =>
                rw [write_of_no_body hpos hroom hvalue hbody]
                exact hheader.stopInternal true
            | true =>
                rw [write_of_body hpos hroom hvalue hbody]
                exact hcounted _ hbounds' (hsize'.trans hsize)

/-- A machine that ends its work in fewer rounds than the bound. -/
def Runs (r : Reader) (bound : ℕ) : Prop :=
  Reader.Failed r.machine ∨ ∃ behind, Reader.Waits r.machine behind ∧
    r.readBuffer.readAvailable + (if behind = none then 0 else 1) < bound

theorem Inside.withReader (h : Inside s) {r : Reader}
    (hadvanced : ∃ k ≤ s.reader.readBuffer.readAvailable,
      r.readBuffer = s.reader.readBuffer.advanceRead k) : Inside { s with reader := r } := by
  obtain ⟨k, -, hbuffer⟩ := hadvanced
  refine ⟨?_, ?_, h.writeBounds, h.writeSize⟩
  · show r.readBuffer.InBounds
    exact hbuffer ▸ h.readBounds.advanceRead k
  · show r.readBuffer.size = bufferSize
    rw [hbuffer]
    exact h.readSize

/-- After a message the machine has one round less to do. -/
theorem readAvailable_process_lt {r : Reader} (hbounds : r.readBuffer.InBounds)
    {behind : Option MessageHeader} {bound : ℕ}
    (hbound : r.readBuffer.readAvailable + (if behind = none then 0 else 1) < bound + 1)
    (hadvanced : ∃ k ≤ r.readBuffer.readAvailable,
      r.process.readBuffer = r.readBuffer.advanceRead k)
    (hfewer : behind = none →
      r.process.readBuffer.readAvailable < r.readBuffer.readAvailable) :
    r.process.readBuffer.readAvailable < bound := by
  obtain ⟨k, hk, hbuffer⟩ := hadvanced
  have hle : r.process.readBuffer.readAvailable ≤ r.readBuffer.readAvailable := by
    rw [hbuffer, CircularBuffer.readAvailable_advanceRead hbounds hk]
    exact Nat.sub_le _ _
  cases behind with
  | none =>
      have hless := hfewer rfl
      rw [if_pos rfl] at hbound
      omega
  | some header =>
      rw [if_neg (by simp)] at hbound
      omega

/-- The loop of `process_new_data` ends with a reader that has nothing more to deliver.
The induction is on the bound: every round takes a header out of the buffer, or the
message behind one. -/
theorem kept_processMessages (h : Inside s) {bound : ℕ} (hruns : Runs s.reader bound) :
    Kept (s.processMessages bound).1 := by
  induction bound generalizing s with
  | zero =>
      rcases hruns with hfailed | ⟨behind, -, hbound⟩
      · exact ⟨h, .failed hfailed⟩
      · exact absurd hbound (Nat.not_lt_zero _)
  | succ bound ih =>
      simp only [SocketIo.processMessages]
      rcases hruns with hfailed | ⟨behind, hwaits, hbound⟩
      · rw [Reader.process_of_failed hfailed, hfailed.isErrored, if_pos rfl]
        exact Kept.stopInternal ⟨h, .failed hfailed⟩ true
      · obtain ⟨hadvanced, hran⟩ := Reader.ran_process h.readBounds hwaits
        have hinside := h.withReader hadvanced
        cases hran with
        | failed failed =>
            rw [failed.isErrored, if_pos rfl]
            exact Kept.stopInternal ⟨hinside, .failed failed⟩ true
        | waits behind' waits rest =>
            simp only [waits.isErrored, waits.isFinished, Bool.false_eq_true, if_false]
            exact ⟨hinside, .waits behind' waits rest⟩
        | delivers delivering fewer header =>
            simp only [delivering.isErrored, delivering.isFinished, Bool.false_eq_true,
              if_false, if_true]
            exact ih (h.withReader hadvanced) (Or.inr ⟨none, Reader.waits_reset _,
              readAvailable_process_lt h.readBounds hbound hadvanced fewer⟩)

theorem kept_processNewData (h : Inside s)
    (hmachine : Reader.Failed s.reader.machine ∨ ∃ behind, Reader.Waits s.reader.machine behind) :
    Kept s.processNewData.1 := by
  refine kept_processMessages h ?_
  rcases hmachine with hfailed | ⟨behind, hwaits⟩
  · exact Or.inl hfailed
  · refine Or.inr ⟨behind, hwaits, ?_⟩
    split_ifs <;> omega

theorem Settled.machine {r : Reader} (h : Settled r) :
    Reader.Failed r.machine ∨ ∃ behind, Reader.Waits r.machine behind := by
  cases h with
  | failed failed => exact Or.inl failed
  | waits behind waits rest => exact Or.inr ⟨behind, waits⟩

theorem Kept.onReadReady (h : Kept s) {first second : ReadCall}
    (hinside : s.ReadsInside (.readReady first second)) :
    Kept (s.onReadReady first second).1 := by
  rw [SocketIo.onReadReady]
  split_ifs with hconnected
  · have hbuffer : (s.reader.update first second).1.readBuffer.InBounds ∧
        (s.reader.update first second).1.readBuffer.size = s.reader.readBuffer.size :=
      h.readBounds.readFrom (hinside hconnected)
    obtain ⟨hbounds, hsize⟩ := hbuffer
    have hupdated : Inside { s with reader := (s.reader.update first second).1 } :=
      ⟨hbounds, hsize.trans h.readSize, h.writeBounds, h.writeSize⟩
    cases houtcome : (s.reader.update first second).2.outcome with
    | some _ =>
        simp only [houtcome]
        exact kept_processNewData hupdated h.settled.machine
    | none =>
        simp only [houtcome, stopInternal_fst]
        exact kept_processNewData
          (s := { s with state := .idle, reader := (s.reader.update first second).1 })
          ⟨hbounds, hsize.trans h.readSize, h.writeBounds, h.writeSize⟩ h.settled.machine
  · exact h

theorem Kept.onWriteReady (h : Kept s) (finalized : Bool) (first second : WriteCall) :
    Kept (s.onWriteReady finalized first second).1 := by
  obtain ⟨k, -, hbuffer⟩ := CircularBuffer.writeInto_buffer h.writeBounds first second
  have hwritten : Kept { s with writeBuffer := (s.writeBuffer.writeInto first second).buffer } := by
    refine ⟨⟨h.readBounds, h.readSize, ?_, ?_⟩, h.settled⟩
    · exact hbuffer ▸ h.writeBounds.advanceRead k
    · show (s.writeBuffer.writeInto first second).buffer.size = bufferSize
      rw [hbuffer]
      exact h.writeSize
  rw [SocketIo.onWriteReady]
  cases hstate : s.state with
  | idle | bound => exact h
  | connecting =>
      dsimp only
      split_ifs
      · exact h.withState .connected
      · exact h.stopInternal true
  | connected =>
      rw [hstate] at hwritten
      dsimp only
      cases (s.writeBuffer.writeInto first second).value.outcome with
      | some _ => exact hwritten
      | none => exact hwritten.stopInternal true

theorem Kept.connect (h : Kept s) (accepted : Bool) : Kept (s.connect accepted).1 := by
  rw [SocketIo.connect]
  cases s.state with
  | idle | connecting | connected => exact h
  | bound =>
      dsimp only
      split_ifs
      · exact h.withState .connecting
      · exact (h.withState .connecting).stopInternal true

theorem Kept.start (h : Kept s) (connected : Bool) : Kept (s.start connected) := by
  rw [SocketIo.start]
  split_ifs
  · exact h.withState .connected
  · exact h.withState .bound
  · exact h

theorem Kept.step (h : Kept s) {input : Input} (hinside : s.ReadsInside input) :
    Kept (s.step input).1 := by
  cases input with
  | start connected => exact h.start connected
  | stop => exact h.stopInternal false
  | connect accepted => exact h.connect accepted
  | write type message => exact h.write type message
  | readReady first second => exact h.onReadReady hinside
  | writeReady finalized first second => exact h.onWriteReady finalized first second
  | hungOrError => exact h.stopInternal true

theorem kept_after (memory : Memory) {inputs : List Input}
    (hinside : StepsMeet (fun s input => (s.step input).1) ReadsInside (SocketIo.new memory)
      inputs) : Kept (after memory inputs) :=
  (holdsThroughout_of_invariant (I := Kept) (fun _ _ h hin => h.step hin) (kept_new memory)
    hinside).last

end SocketIo

end Obsr.Net
