/-
# Taking bytes out of a circular buffer

The four operations that take bytes out differ in their branches and in how much
they take. To the content they all do the same thing: a first part of it goes,
and the rest stays as it was. The content is what lies between the two positions
when one walks around the array.
-/

import Obsr.Io.CircularRun

namespace Obsr.Io.CircularBuffer

open Obsr.Lib

variable {b : CircularBuffer}

/-! ## The walk around the array -/

/-- The cells from the read position on, around the end of the array, up to the
write position. -/
def walk (b : CircularBuffer) : List UInt8 :=
  (List.range ((b.writePos + b.size - b.readPos) % b.size)).map fun i =>
    b.buffer.getD ((b.readPos + i) % b.size) 0

theorem readAvailable_eq_mod (h : b.InBounds) :
    b.readAvailable = (b.writePos + b.size - b.readPos) % b.size := by
  have hread := h.read
  have hwrite := h.write
  rcases Nat.lt_or_ge b.writePos b.readPos with hwrap | hle
  · rw [readAvailable_of_lt h hwrap, Nat.mod_eq_of_lt (by omega)]
    omega
  · have hsum : b.writePos + b.size - b.readPos = (b.writePos - b.readPos) + b.size := by omega
    rw [readAvailable_of_le hle, hsum, Nat.add_mod_right, Nat.mod_eq_of_lt (by omega)]

/-- A readable byte and the cell it is in. -/
theorem getElem?_content (h : b.InBounds) {i : ℕ} (hi : i < b.readAvailable) :
    b.content[i]? = b.buffer[(b.readPos + i) % b.size]? := by
  have hread := h.read
  have hwrite := h.write
  have hsize : b.size = b.buffer.length := rfl
  rcases Nat.lt_or_ge b.writePos b.readPos with hwrap | hle
  · rw [readAvailable_of_lt h hwrap] at hi
    have hfirst : (slice b.buffer b.readPos b.size).length = b.size - b.readPos := by
      simp only [length_slice, size]
      omega
    rw [content, if_pos hwrap]
    rcases Nat.lt_or_ge i (b.size - b.readPos) with hend | hfront
    · rw [List.getElem?_append_left (by omega), Nat.mod_eq_of_lt (by omega), slice,
        List.getElem?_take_of_lt hend, List.getElem?_drop]
    · have hpos : (b.readPos + i) % b.size = i - (b.size - b.readPos) := by
        rw [Nat.mod_eq_sub_mod (by omega), Nat.mod_eq_of_lt (by omega)]
        omega
      rw [List.getElem?_append_right (by omega), hfirst, hpos, slice_zero,
        List.getElem?_take_of_lt (by omega)]
  · rw [readAvailable_of_le hle] at hi
    rw [content, if_neg (by omega), Nat.mod_eq_of_lt (by omega), slice,
      List.getElem?_take_of_lt hi, List.getElem?_drop]

theorem content_eq_walk (h : b.InBounds) : b.content = b.walk := by
  have hlength := length_content h
  apply List.ext_getElem?
  intro i
  rcases Nat.lt_or_ge i b.readAvailable with hi | hi
  · have hcell : (b.readPos + i) % b.size < b.buffer.length :=
      Nat.mod_lt _ (Nat.zero_lt_of_lt h.read)
    rw [getElem?_content h hi, walk, ← readAvailable_eq_mod h, List.getElem?_map,
      List.getElem?_range hi, Option.map_some, List.getD_eq_getElem?_getD,
      List.getElem?_eq_getElem hcell, Option.getD_some]
  · rw [List.getElem?_eq_none (by omega), List.getElem?_eq_none]
    rw [walk, List.length_map, List.length_range, ← readAvailable_eq_mod h]
    exact hi

/-! ## The operations -/

theorem isSome_read_iff (h : b.InBounds) (n : ℕ) :
    (b.read n).value.isSome = true ↔ n ≤ b.content.length := by
  rw [length_content h]
  rcases Nat.lt_or_ge b.readAvailable n with hgt | hle
  · rw [(read_of_gt h hgt).2]
    exact iff_of_false Bool.false_ne_true (Nat.not_le_of_lt hgt)
  · rw [(read_of_le h hle).2]
    exact iff_of_true rfl hle

/-- A search that succeeds stops at the first occurrence. -/
theorem findAndSeekRead_of_mem (h : b.InBounds) {byte : UInt8} (hmem : byte ∈ b.content) :
    (b.findAndSeekRead byte).value = true ∧
      (b.findAndSeekRead byte).buffer.content = b.content.drop (b.content.idxOf byte) := by
  have hlt : b.content.idxOf byte < b.content.length := List.idxOf_lt_length_of_mem hmem
  have hfound : b.content.findIdx? (· = byte) = some (b.content.idxOf byte) := by
    rw [List.findIdx?_eq_some_iff_findIdx_eq]
    refine ⟨hlt, ?_⟩
    rw [List.idxOf]
    congr 1
  obtain ⟨hbuffer, hvalue⟩ := findAndSeekRead_of_findIdx?_eq_some h hfound
  rw [hbuffer]
  exact ⟨hvalue, content_advanceRead h (length_content h ▸ hlt.le)⟩

/-- A search that fails drops everything, or nothing when the write position is at
the start of the array. -/
theorem findAndSeekRead_of_not_mem (h : b.InBounds) {byte : UInt8}
    (hmem : byte ∉ b.content) :
    (b.findAndSeekRead byte).value = false ∧
      (b.findAndSeekRead byte).buffer.content <:+ b.content := by
  have hnone : b.content.findIdx? (· = byte) = none := by
    rw [List.findIdx?_eq_none_iff]
    intro x hx
    exact decide_eq_false fun heq => hmem (heq ▸ hx)
  obtain ⟨k, hk, hbuffer⟩ := findAndSeekRead_buffer h byte
  rw [hbuffer, content_advanceRead h hk]
  exact ⟨(findAndSeekRead_of_findIdx?_eq_none h hnone).1, List.drop_suffix k _⟩

/-- A device that does not throw gets the bytes that go. -/
theorem bytes_append_writeInto (h : b.InBounds) (count more : ℕ) :
    (b.writeInto (.takes count) (.takes more)).value.bytes ++
      (b.writeInto (.takes count) (.takes more)).buffer.content = b.content := by
  have hkeep : b.WriteIntoKeeps (.takes count) (.takes more) := by
    intro _ _
    simp
  obtain ⟨k, hk, hbuffer, hbytes⟩ := writeInto_of_keeps h hkeep
  rw [hbytes, hbuffer, content_advanceRead h hk, List.take_append_drop]

/-- `write_into` returns `false` on an empty buffer only. -/
theorem outcome_writeInto (h : b.InBounds) (count more : ℕ) :
    (b.writeInto (.takes count) (.takes more)).value.outcome =
      some (!b.content.isEmpty) := by
  have hempty := content_eq_nil_iff h
  rcases Nat.lt_trichotomy b.writePos b.readPos with hwrap | heq | hlt
  · have hne : b.content ≠ [] := fun hnil => hwrap.ne (hempty.mp hnil)
    rw [List.isEmpty_eq_false_iff.mpr hne]
    rcases Nat.lt_or_ge count (b.size - b.readPos) with hshort | hlong
    · rw [writeInto_wrapped_short h hwrap hshort]
      rfl
    · rw [writeInto_wrapped h hwrap hlong]
      rfl
  · rw [writeInto_of_eq heq, hempty.mpr heq]
    rfl
  · have hne : b.content ≠ [] := fun hnil => hlt.ne' (hempty.mp hnil)
    rw [List.isEmpty_eq_false_iff.mpr hne, writeInto_unwrapped h hlt]
    rfl

/-- What a device takes that wants `count` bytes of the first part it is offered and
`more` of the second one. The second part is offered if the first one is all gone. -/
def takenOf (b : CircularBuffer) (count more : ℕ) : ℕ :=
  if b.writePos < b.readPos then
    if count < b.size - b.readPos then count else b.size - b.readPos + min more b.writePos
  else min count (b.writePos - b.readPos)

theorem length_bytes_writeInto (h : b.InBounds) (count more : ℕ) :
    (b.writeInto (.takes count) (.takes more)).value.bytes.length = b.takenOf count more := by
  have hlength := length_content h
  rw [takenOf]
  rcases Nat.lt_trichotomy b.writePos b.readPos with hwrap | heq | hlt
  · rw [readAvailable_of_lt h hwrap] at hlength
    rw [if_pos hwrap]
    rcases Nat.lt_or_ge count (b.size - b.readPos) with hshort | hlong
    · rw [writeInto_wrapped_short h hwrap hshort, if_pos hshort, List.length_take]
      omega
    · rw [writeInto_wrapped h hwrap hlong, if_neg (Nat.not_lt_of_le hlong), List.length_take]
      omega
  · rw [writeInto_of_eq heq, if_neg heq.not_lt, heq, Nat.sub_self, Nat.min_zero]
    rfl
  · rw [readAvailable_of_le hlt.le] at hlength
    rw [if_neg hlt.not_gt, writeInto_unwrapped h hlt, List.length_take]
    omega

/-! ## One meaning for all of them -/

/-- Every operation that takes bytes out removes a first part of the content. -/
structure TakesPrefixes (b : CircularBuffer) : Prop where
  read_iff : ∀ n, (b.read n).value.isSome = true ↔ n ≤ b.content.length
  read_takes : ∀ n bytes, (b.read n).value = some bytes →
    bytes = b.content.take n ∧ (b.read n).buffer.content = b.content.drop n
  read_fails : ∀ n, (b.read n).value = none → (b.read n).buffer = b
  seek : ∀ n, (b.seekRead n).content = b.content.drop (min n b.content.length)
  find_iff : ∀ byte, (b.findAndSeekRead byte).value = true ↔ byte ∈ b.content
  find_hit : ∀ byte, (b.findAndSeekRead byte).value = true →
    (b.findAndSeekRead byte).buffer.content = b.content.drop (b.content.idxOf byte)
  find_miss : ∀ byte, (b.findAndSeekRead byte).value = false →
    (b.findAndSeekRead byte).buffer.content <:+ b.content
  sink : ∀ count more, (b.writeInto (.takes count) (.takes more)).value.bytes ++
    (b.writeInto (.takes count) (.takes more)).buffer.content = b.content
  sink_length : ∀ count more,
    (b.writeInto (.takes count) (.takes more)).value.bytes.length = b.takenOf count more
  sink_iff : ∀ count more,
    (b.writeInto (.takes count) (.takes more)).value.outcome = some (!b.content.isEmpty)

/-- The content is what a walk from the read position finds, and every operation that takes
bytes takes the first ones of it. -/
theorem content_eq_walk_and_takesPrefixes (h : b.InBounds) :
    b.content = b.walk ∧ b.TakesPrefixes := by
  refine ⟨content_eq_walk h, isSome_read_iff h, ?_, ?_, ?_, ?_, ?_, ?_,
    bytes_append_writeInto h, length_bytes_writeInto h, outcome_writeInto h⟩
  · intro n bytes hvalue
    have hn : n ≤ b.readAvailable := by
      rw [← length_content h, ← isSome_read_iff h, hvalue]
      rfl
    obtain ⟨hbuffer, htaken⟩ := read_of_le h hn
    rw [hbuffer, content_advanceRead h hn]
    exact ⟨Option.some.inj (hvalue.symm.trans htaken), rfl⟩
  · intro n hvalue
    have hn : b.readAvailable < n := by
      by_contra hle
      rw [(read_of_le h (Nat.le_of_not_lt hle)).2] at hvalue
      cases hvalue
    exact (read_of_gt h hn).1
  · intro n
    rw [content_seekRead h, length_content h]
  · intro byte
    refine ⟨fun hvalue => ?_, fun hmem => (findAndSeekRead_of_mem h hmem).1⟩
    by_contra hmem
    rw [(findAndSeekRead_of_not_mem h hmem).1] at hvalue
    cases hvalue
  · intro byte hvalue
    by_cases hmem : byte ∈ b.content
    · exact (findAndSeekRead_of_mem h hmem).2
    · rw [(findAndSeekRead_of_not_mem h hmem).1] at hvalue
      cases hvalue
  · intro byte hvalue
    by_cases hmem : byte ∈ b.content
    · rw [(findAndSeekRead_of_mem h hmem).1] at hvalue
      cases hvalue
    · exact (findAndSeekRead_of_not_mem h hmem).2

/-- Six bytes around the end of an array of eight. -/
theorem content_eq_walk_and_takesPrefixes_wrapped :
    (CircularBuffer.mk [5, 6, 0, 0, 1, 2, 3, 4] 4 2).content =
        (CircularBuffer.mk [5, 6, 0, 0, 1, 2, 3, 4] 4 2).walk ∧
      (CircularBuffer.mk [5, 6, 0, 0, 1, 2, 3, 4] 4 2).TakesPrefixes :=
  content_eq_walk_and_takesPrefixes ⟨by decide, by decide, by decide⟩

end Obsr.Io.CircularBuffer
