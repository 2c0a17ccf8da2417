/-
# Sending a whole frame or none of it

`socket_io::write` first asks its buffer whether the whole frame fits and then
writes header and payload one after the other. The question is answered by
`write_available`, the writes look at the free cells themselves, and the two
agree only when nothing is stored between the read position and the end of the
array that does not wrap. The other way to lose a frame is to fill the last free
cell, which makes the buffer look empty.
-/

import Obsr.Net.SocketIo

namespace Obsr.Io.CircularBuffer

variable {b : CircularBuffer}

theorem value_write_iff (h : b.InBounds) (bytes : List UInt8) :
    (b.write bytes).value = true ↔ bytes.length ≤ b.free := by
  rcases Nat.lt_trichotomy bytes.length b.free with hlt | heq | hgt
  · exact iff_of_true (write_of_lt h hlt).1 hlt.le
  · exact iff_of_true (write_of_eq h heq).1 heq.le
  · rw [(write_of_gt h hgt).2]
    exact iff_of_false Bool.false_ne_true (Nat.not_le_of_lt hgt)

theorem canWrite_iff (n : ℕ) : b.canWrite n = true ↔ n ≤ b.writeAvailable := by
  rw [canWrite, decide_eq_true_iff]

/-- Around the end of the array `write_available` counts the free cells. -/
theorem writeAvailable_of_lt (h : b.InBounds) (hwrap : b.writePos < b.readPos) :
    b.writeAvailable = b.free := by
  rw [writeAvailable, if_neg (Nat.not_le_of_lt hwrap), subSize_of_le hwrap.le,
    free_of_lt h hwrap]

/-- Everywhere else it counts all cells: the source adds the write position where the
read position belongs. -/
theorem writeAvailable_of_le (h : b.InBounds) (hle : b.readPos ≤ b.writePos) :
    b.writeAvailable = b.size := by
  have hwrite := h.write
  rw [writeAvailable, if_pos hle, subSize_of_le hwrite.le]
  omega

theorem free_le_writeAvailable (h : b.InBounds) : b.free ≤ b.writeAvailable := by
  rcases Nat.lt_or_ge b.writePos b.readPos with hwrap | hle
  · exact (writeAvailable_of_lt h hwrap).ge
  · rw [writeAvailable_of_le h hle, free]
    exact Nat.sub_le _ _

/-- `can_write` tells whether `write` succeeds. -/
def PromisesWrites (b : CircularBuffer) : Prop :=
  ∀ bytes, b.canWrite bytes.length = true ↔ (b.write bytes).value = true

theorem writeAvailable_eq_free_iff (h : b.InBounds) :
    b.writeAvailable = b.free ↔ b.writePos ≤ b.readPos := by
  have hread := h.read
  have hwrite := h.write
  rcases Nat.lt_or_ge b.writePos b.readPos with hwrap | hle
  · exact iff_of_true (writeAvailable_of_lt h hwrap) hwrap.le
  · rw [writeAvailable_of_le h hle, free_of_le hle]
    omega

theorem promisesWrites_iff (h : b.InBounds) :
    b.PromisesWrites ↔ b.writePos ≤ b.readPos := by
  rw [← writeAvailable_eq_free_iff h]
  constructor
  · intro hpromises
    have hall := (hpromises (List.replicate b.writeAvailable 0)).mp
      (by rw [canWrite_iff, List.length_replicate])
    rw [value_write_iff h, List.length_replicate] at hall
    exact le_antisymm hall (free_le_writeAvailable h)
  · intro heq bytes
    rw [canWrite_iff, value_write_iff h, heq]

end Obsr.Io.CircularBuffer

namespace Obsr.Net.SocketIo

open Obsr.Io

variable {s : SocketIo} {type : UInt8} {message : List UInt8}

/-- The bytes of a message on the wire. -/
def frameFor (s : SocketIo) (type : UInt8) (message : List UInt8) : List UInt8 :=
  (s.headerFor type message).toBytes ++ message

theorem length_frameFor :
    (s.frameFor type message).length = MessageHeader.sizeOf + message.length := by
  rw [frameFor, List.length_append, MessageHeader.length_toBytes]

/-- The call takes the branch with the message "write attempt failed halfway". -/
def FailsHalfway (s : SocketIo) (type : UInt8) (message : List UInt8) : Prop :=
  0 < message.length ∧
    s.writeBuffer.canWrite (MessageHeader.sizeOf + message.length) = true ∧
      (s.headerWritten type message).value = true ∧
        ((s.headerWritten type message).buffer.write message).value = false

/-- A call of `write` sends the whole frame or leaves the buffer alone, and the buffer
has told it which. -/
structure SendsWhole (s : SocketIo) (type : UInt8) (message : List UInt8) : Prop where
  promised : s.writeBuffer.PromisesWrites
  whole : ((s.write type message).2.1 = some true ∧
      (s.write type message).1.writeBuffer.content =
        s.writeBuffer.content ++ s.frameFor type message) ∨
    ((s.write type message).2.1 = some false ∧
      (s.write type message).1.writeBuffer = s.writeBuffer)
  notHalfway : ¬ s.FailsHalfway type message

/-- A frame shorter than the free space goes in as it is. -/
theorem write_of_room (type : UInt8) (h : s.writeBuffer.InBounds)
    (hroom : MessageHeader.sizeOf + message.length < s.writeBuffer.free) :
    (s.write type message).2.1 = (if s.state = .idle then none else some true) ∧
      (s.write type message).1.writeBuffer.content =
        s.writeBuffer.content ++ s.frameFor type message ∧
      ¬ s.FailsHalfway type message := by
  have hcan : s.writeBuffer.canWrite (MessageHeader.sizeOf + message.length) = true := by
    rw [CircularBuffer.canWrite_iff]
    exact hroom.le.trans (CircularBuffer.free_le_writeAvailable h)
  have hheader : (s.headerWritten type message).value = true := by
    rw [headerWritten, CircularBuffer.value_write_iff h, MessageHeader.length_toBytes]
    omega
  obtain ⟨hbounds, hcontent, hfree⟩ := content_headerWritten h hheader (by omega)
  have hbody : ((s.headerWritten type message).buffer.write message).value = true := by
    rw [CircularBuffer.value_write_iff hbounds]
    omega
  refine ⟨?_, ?_, fun hhalf => Bool.false_ne_true (hhalf.2.2.2.symm.trans hbody)⟩
  · rcases Nat.eq_zero_or_pos message.length with hzero | hpos
    · obtain rfl := List.length_eq_zero_iff.mp hzero
      rw [write_of_nil hcan hheader]
    · rw [write_of_body hpos hcan hheader hbody]
  · rcases Nat.eq_zero_or_pos message.length with hzero | hpos
    · obtain rfl := List.length_eq_zero_iff.mp hzero
      rw [write_of_nil hcan hheader, frameFor, List.append_nil]
      exact hcontent
    · rw [write_of_body hpos hcan hheader hbody]
      have hlt : message.length < (s.headerWritten type message).buffer.free := by omega
      rw [counted, (CircularBuffer.write_of_lt hbounds hlt).2, hcontent, frameFor,
        List.append_assoc]

/-- Where the buffer promises rightly, a frame longer than the free space is
refused. -/
theorem write_of_no_room (type : UInt8) (h : s.writeBuffer.InBounds)
    (hpromises : s.writeBuffer.PromisesWrites)
    (hroom : s.writeBuffer.free < MessageHeader.sizeOf + message.length) :
    s.write type message = (s, some false, []) ∧ ¬ s.FailsHalfway type message := by
  have havail := (CircularBuffer.writeAvailable_eq_free_iff h).mpr
    ((CircularBuffer.promisesWrites_iff h).mp hpromises)
  have hcan : s.writeBuffer.canWrite (MessageHeader.sizeOf + message.length) = false := by
    rw [Bool.eq_false_iff, ne_eq, CircularBuffer.canWrite_iff, havail]
    exact Nat.not_le_of_lt hroom
  exact ⟨write_of_not_canWrite hcan, fun hhalf => Bool.false_ne_true (hcan.symm.trans hhalf.2.1)⟩

/-- A frame just as long as the free space makes the buffer look empty, whole as it
is in there. -/
theorem content_write_of_fill (type : UInt8) (h : s.writeBuffer.InBounds)
    (hfill : MessageHeader.sizeOf + message.length = s.writeBuffer.free) :
    (s.write type message).2.1 ≠ some false ∧
      (s.write type message).1.writeBuffer.content = [] := by
  have hcan : s.writeBuffer.canWrite (MessageHeader.sizeOf + message.length) = true := by
    rw [CircularBuffer.canWrite_iff, hfill]
    exact CircularBuffer.free_le_writeAvailable h
  have hheader : (s.headerWritten type message).value = true := by
    rw [headerWritten, CircularBuffer.value_write_iff h, MessageHeader.length_toBytes]
    omega
  rcases Nat.eq_zero_or_pos message.length with hzero | hpos
  · obtain rfl := List.length_eq_zero_iff.mp hzero
    rw [write_of_nil hcan hheader]
    refine ⟨by split_ifs <;> simp, (CircularBuffer.write_of_eq h ?_).2⟩
    rw [MessageHeader.length_toBytes]
    exact hfill
  · obtain ⟨hbounds, hcontent, hfree⟩ := content_headerWritten h hheader (by omega)
    have hlast : message.length = (s.headerWritten type message).buffer.free := by omega
    obtain ⟨hbody, hempty⟩ := CircularBuffer.write_of_eq hbounds hlast
    rw [write_of_body hpos hcan hheader hbody]
    exact ⟨by split_ifs <;> simp, hempty⟩

/-- The buffer promises rightly, and the frame does not just fill it; an object that
was stopped has to refuse. -/
theorem sendsWhole_iff (h : s.writeBuffer.InBounds) :
    s.SendsWhole type message ↔
      s.writeBuffer.writePos ≤ s.writeBuffer.readPos ∧
        (s.writeBuffer.free < MessageHeader.sizeOf + message.length ∨
          (MessageHeader.sizeOf + message.length < s.writeBuffer.free ∧ s.state ≠ .idle)) := by
  have hpromises := CircularBuffer.promisesWrites_iff h
  constructor
  · intro hsends
    refine ⟨hpromises.mp hsends.promised, ?_⟩
    rcases Nat.lt_trichotomy s.writeBuffer.free (MessageHeader.sizeOf + message.length) with
      hlong | hfill | hroom
    · exact Or.inl hlong
    · obtain ⟨hvalue, hempty⟩ := content_write_of_fill type h hfill.symm
      rcases hsends.whole with ⟨-, hcontent⟩ | ⟨hfalse, -⟩
      · rw [hempty] at hcontent
        have hlength := congrArg List.length hcontent
        rw [List.length_append, length_frameFor, List.length_nil, MessageHeader.sizeOf] at hlength
        omega
      · exact absurd hfalse hvalue
    · refine Or.inr ⟨hroom, fun hidle => ?_⟩
      have hvalue := (write_of_room type h hroom).1
      rw [if_pos hidle] at hvalue
      rcases hsends.whole with ⟨htrue, -⟩ | ⟨hfalse, -⟩
      · rw [hvalue] at htrue
        cases htrue
      · rw [hvalue] at hfalse
        cases hfalse
  · rintro ⟨hpos, hlong | ⟨hroom, hstate⟩⟩
    · obtain ⟨hwrite, hhalf⟩ := write_of_no_room type h (hpromises.mpr hpos) hlong
      refine ⟨hpromises.mpr hpos, Or.inr ?_, hhalf⟩
      rw [hwrite]
      exact ⟨rfl, rfl⟩
    · obtain ⟨hvalue, hcontent, hhalf⟩ := write_of_room type h hroom
      rw [if_neg hstate] at hvalue
      exact ⟨hpromises.mpr hpos, Or.inl ⟨hvalue, hcontent⟩, hhalf⟩

/-- A connected object whose write buffer holds 524 bytes around the end of its array. -/
def wrapped : SocketIo :=
  { new .blank with state := .connected, writeBuffer := ⟨List.replicate 1024 0, 600, 100⟩ }

/-- Of the 500 free bytes a payload of 300 bytes takes some, and goes out behind what is
there; one of 489 bytes takes them all, and everything is lost. -/
theorem sendsWhole_iff_wrapped :
    wrapped.SendsWhole 1 (List.replicate 300 7) ∧
      ¬ wrapped.SendsWhole 1 (List.replicate 489 7) := by
  have hbounds : wrapped.writeBuffer.InBounds := by
    refine ⟨?_, ?_, ?_⟩ <;> decide +kernel
  have hfree : wrapped.writeBuffer.free = 500 := by decide +kernel
  have hheader : MessageHeader.sizeOf = 11 := rfl
  constructor
  · apply (sendsWhole_iff hbounds).mpr
    rw [hfree, hheader, List.length_replicate]
    exact ⟨by decide, Or.inr ⟨by decide, by decide⟩⟩
  · rw [sendsWhole_iff hbounds, hfree, hheader, List.length_replicate]
    rintro ⟨-, hlong | ⟨hroom, -⟩⟩
    · exact absurd hlong (by decide)
    · exact absurd hroom (by decide)

/-- The header fits and the payload does not, though the buffer has promised both. -/
theorem failsHalfway_of_lt (h : s.writeBuffer.InBounds)
    (hheader : MessageHeader.sizeOf < s.writeBuffer.free)
    (hlong : s.writeBuffer.free < MessageHeader.sizeOf + message.length)
    (havail : MessageHeader.sizeOf + message.length ≤ s.writeBuffer.writeAvailable) :
    s.FailsHalfway type message := by
  have hvalue : (s.headerWritten type message).value = true := by
    rw [headerWritten, CircularBuffer.value_write_iff h, MessageHeader.length_toBytes]
    exact hheader.le
  obtain ⟨hbounds, -, hfree⟩ := content_headerWritten h hvalue hheader.ne'
  refine ⟨by omega, (CircularBuffer.canWrite_iff _).mpr havail, hvalue, ?_⟩
  rw [Bool.eq_false_iff, ne_eq, CircularBuffer.value_write_iff hbounds]
  omega

/-- With ten bytes stored at its start the buffer promises room for 1024 bytes. A
payload of 1010 bytes is then refused behind its header, and the connection closed. -/
theorem not_sendsWhole_halfway :
    ¬ ∀ (s : SocketIo) (type : UInt8) (message : List UInt8), s.writeBuffer.InBounds →
      s.SendsWhole type message := by
  intro hall
  let s : SocketIo :=
    { new .blank with state := .connected, writeBuffer := ⟨List.replicate 1024 0, 0, 10⟩ }
  have hsize : s.writeBuffer.size = 1024 := List.length_replicate
  have hbounds : s.writeBuffer.InBounds := by
    refine ⟨?_, ?_, ?_⟩ <;> rw [hsize] <;> decide
  have hfree : s.writeBuffer.free = 1014 := by
    rw [CircularBuffer.free_of_le (Nat.zero_le 10), hsize]
    rfl
  have havail : s.writeBuffer.writeAvailable = 1024 := by
    rw [CircularBuffer.writeAvailable_of_le hbounds (Nat.zero_le 10), hsize]
  have hlength : MessageHeader.sizeOf + (List.replicate 1010 (0 : UInt8)).length = 1021 := by
    rw [List.length_replicate, MessageHeader.sizeOf]
  apply (hall s 1 (List.replicate 1010 0) hbounds).notHalfway
  apply failsHalfway_of_lt hbounds
  · rw [hfree]
    decide
  · rw [hfree, hlength]
    decide
  · rw [havail, hlength]
    decide

end Obsr.Net.SocketIo
