/-
# The bytes a circular buffer holds

The abstract state of a circular buffer is the list of bytes from the read
position around to the write position. Each operation has one theorem that
says what it does to that list; the branch structure and the index arithmetic
of the source do not appear outside this module.

A buffer of `size` cells represents at most `size - 1` bytes: equal positions
mean empty. Every operation that brings the write position back onto the read
position therefore drops the whole content, and the theorems state exactly
when that happens.
-/

import Obsr.Io.CircularBuffer

namespace Obsr.Io.CircularBuffer

open Obsr.Lib

variable {b : CircularBuffer} {n : ℕ} {byte : UInt8} {bytes : List UInt8}

/-- Both positions point into an array the allocator can return. -/
structure InBounds (b : CircularBuffer) : Prop where
  read : b.readPos < b.size
  write : b.writePos < b.size
  alloc : b.size ≤ maxAllocation

/-- The readable bytes, first to last. -/
def content (b : CircularBuffer) : List UInt8 :=
  if b.writePos < b.readPos then
    slice b.buffer b.readPos b.size ++ slice b.buffer 0 b.writePos
  else
    slice b.buffer b.readPos b.writePos

/-- The cells that hold no readable byte. -/
def free (b : CircularBuffer) : ℕ := b.size - b.readAvailable

theorem InBounds.size_lt (h : b.InBounds) : b.size < 2 ^ 63 := by
  have halloc := h.alloc
  simp only [maxAllocation] at halloc
  omega

@[simp]
theorem size_copyIn (offset : ℕ) : (b.copyIn offset bytes).size = b.size := by
  simp [copyIn, size]

theorem readAvailable_of_lt (h : b.InBounds) (hwrap : b.writePos < b.readPos) :
    b.readAvailable = b.size - b.readPos + b.writePos := by
  rw [readAvailable, if_pos hwrap, subSize_of_le h.read.le]

theorem readAvailable_of_le (hle : b.readPos ≤ b.writePos) :
    b.readAvailable = b.writePos - b.readPos := by
  rw [readAvailable, if_neg (by omega), subSize_of_le hle]

theorem readAvailable_lt_size (h : b.InBounds) : b.readAvailable < b.size := by
  have hread := h.read
  have hwrite := h.write
  rcases Nat.lt_or_ge b.writePos b.readPos with hwrap | hle
  · rw [readAvailable_of_lt h hwrap]
    omega
  · rw [readAvailable_of_le hle]
    omega

theorem free_pos (h : b.InBounds) : 0 < b.free := by
  have := readAvailable_lt_size h
  rw [free]
  omega

theorem length_content (h : b.InBounds) : b.content.length = b.readAvailable := by
  have hread := h.read
  have hwrite := h.write
  rw [size] at hread hwrite
  rcases Nat.lt_or_ge b.writePos b.readPos with hwrap | hle
  · rw [readAvailable_of_lt h hwrap, content, if_pos hwrap]
    simp only [List.length_append, length_slice, size]
    omega
  · rw [readAvailable_of_le hle, content, if_neg (by omega)]
    simp only [length_slice]
    omega

/-- Equal positions mean that nothing is readable. -/
theorem content_of_eq (h : b.writePos = b.readPos) : b.content = [] := by
  rw [content, if_neg (by omega), h, slice_self]

theorem content_eq_nil_iff (h : b.InBounds) :
    b.content = [] ↔ b.writePos = b.readPos := by
  refine ⟨fun hnil => ?_, content_of_eq⟩
  have hlen := length_content h
  rw [hnil, List.length_nil] at hlen
  have hread := h.read
  rcases Nat.lt_or_ge b.writePos b.readPos with hwrap | hle
  · rw [readAvailable_of_lt h hwrap] at hlen
    omega
  · rw [readAvailable_of_le hle] at hlen
    omega

/-! ## Taking bytes out -/

/-- Moving the read position forward drops the first readable bytes. -/
theorem content_advanceRead (h : b.InBounds) (hn : n ≤ b.readAvailable) :
    (b.advanceRead n).content = b.content.drop n := by
  have hread := h.read
  have hwrite := h.write
  rcases Nat.lt_or_ge b.writePos b.readPos with hwrap | hle
  · rw [readAvailable_of_lt h hwrap] at hn
    have hfirst : (slice b.buffer b.readPos b.size).length = b.size - b.readPos := by
      simp only [length_slice, size]
      omega
    rcases Nat.lt_or_ge n (b.size - b.readPos) with hshort | hlong
    · have hpos : (b.readPos + n) % b.size = b.readPos + n := Nat.mod_eq_of_lt (by omega)
      rw [content, content, if_pos hwrap, advanceRead, hpos, if_pos (by simp only; omega),
        List.drop_append_of_le_length (by omega), drop_slice]
      rfl
    · have hpos : (b.readPos + n) % b.size = n - (b.size - b.readPos) := by
        rw [Nat.mod_eq_sub_mod (by omega), Nat.mod_eq_of_lt (by omega)]
        omega
      rw [content, content, if_pos hwrap, advanceRead, hpos, if_neg (by simp only; omega),
        List.drop_append, List.drop_of_length_le (by omega), List.nil_append, hfirst,
        drop_slice, Nat.zero_add]
  · rw [readAvailable_of_le hle] at hn
    have hpos : (b.readPos + n) % b.size = b.readPos + n := Nat.mod_eq_of_lt (by omega)
    have hafter : (b.advanceRead n).content = slice b.buffer (b.readPos + n) b.writePos := by
      rw [content, advanceRead, hpos, if_neg (by simp only; omega)]
    rw [hafter, content, if_neg (by omega), drop_slice]

theorem InBounds.advanceRead (h : b.InBounds) (n : ℕ) : (b.advanceRead n).InBounds :=
  ⟨Nat.mod_lt _ (Nat.zero_lt_of_lt h.read), h.write, h.alloc⟩

/-- The bytes up to the end of the array are the first readable ones. -/
theorem copyOut_readPos (h : b.InBounds) (hn : n ≤ b.readAvailable)
    (hend : b.readPos + n ≤ b.size) : b.copyOut b.readPos n = b.content.take n := by
  have hread := h.read
  rcases Nat.lt_or_ge b.writePos b.readPos with hwrap | hle
  · have hfirst : (slice b.buffer b.readPos b.size).length = b.size - b.readPos := by
      simp only [length_slice, size]
      omega
    rw [content, if_pos hwrap, List.take_append_of_le_length (by omega), take_slice hend,
      copyOut]
  · rw [readAvailable_of_le hle] at hn
    rw [content, if_neg (by omega), take_slice (by omega), copyOut]

/-- The two parts of a read that wraps around the end of the array. -/
theorem copyOut_append_copyOut (h : b.InBounds) (hwrap : b.writePos < b.readPos)
    (hlong : b.size - b.readPos ≤ n) (hn : n ≤ b.readAvailable) :
    b.copyOut b.readPos (b.size - b.readPos) ++ b.copyOut 0 (n - (b.size - b.readPos)) =
      b.content.take n := by
  have hread := h.read
  have hfirst : (slice b.buffer b.readPos b.size).length = b.size - b.readPos := by
    simp only [length_slice, size]
    omega
  have hend : b.readPos + (b.size - b.readPos) = b.size := by omega
  rw [readAvailable_of_lt h hwrap] at hn
  rw [content, if_pos hwrap, List.take_append, List.take_of_length_le (by omega), hfirst,
    take_slice (by omega), copyOut, copyOut, hend, Nat.zero_add]

/-- A `read` that asks for no more than is readable returns the first bytes and
removes them. -/
theorem read_of_le (h : b.InBounds) (hn : n ≤ b.readAvailable) :
    (b.read n).buffer = b.advanceRead n ∧ (b.read n).value = some (b.content.take n) := by
  have hread := h.read
  have hlt := readAvailable_lt_size h
  rw [read, if_neg (by omega)]
  rcases Nat.lt_or_ge b.writePos b.readPos with hwrap | hle
  · rw [if_pos hwrap, subSize_of_le hread.le]
    rcases Nat.lt_or_ge n (b.size - b.readPos) with hshort | hlong
    · rw [if_pos hshort]
      exact ⟨rfl, congrArg some (copyOut_readPos h hn (by omega))⟩
    · have hfit := readAvailable_of_lt h hwrap
      rw [if_neg (by omega), if_neg (by omega), subSize_of_le hlong]
      exact ⟨rfl, congrArg some (copyOut_append_copyOut h hwrap hlong hn)⟩
  · have hfit := readAvailable_of_le hle
    rw [if_neg (by omega), subSize_of_le hle, if_neg (by omega)]
    exact ⟨rfl, congrArg some (copyOut_readPos h hn (by have := h.write; omega))⟩

/-- A `read` that asks for more than is readable changes nothing. -/
theorem read_of_gt (h : b.InBounds) (hn : b.readAvailable < n) :
    (b.read n).buffer = b ∧ (b.read n).value = none := by
  have hread := h.read
  rw [read]
  rcases Nat.lt_or_ge b.size n with hbig | hsmall
  · rw [if_pos hbig]
    exact ⟨rfl, rfl⟩
  · rw [if_neg (by omega)]
    rcases Nat.lt_or_ge b.writePos b.readPos with hwrap | hle
    · have hfit := readAvailable_of_lt h hwrap
      rw [if_pos hwrap, subSize_of_le hread.le, if_neg (by omega), if_pos (by omega)]
      exact ⟨rfl, rfl⟩
    · have hfit := readAvailable_of_le hle
      rw [if_neg (by omega), subSize_of_le hle, if_pos (by omega)]
      exact ⟨rfl, rfl⟩

/-- `seek_read` moves by what was asked, but never past the content. -/
theorem seekOffset_eq (h : b.InBounds) : b.seekOffset n = min n b.readAvailable := by
  have hread := h.read
  rcases Nat.lt_or_ge b.writePos b.readPos with hwrap | hle
  · rw [seekOffset, if_pos hwrap, subSize_of_le hread.le, readAvailable_of_lt h hwrap]
    dsimp only
    split_ifs <;> omega
  · rw [seekOffset, if_neg (by omega), subSize_of_le hle, readAvailable_of_le hle]
    dsimp only
    split_ifs <;> omega

theorem content_seekRead (h : b.InBounds) :
    (b.seekRead n).content = b.content.drop (min n b.readAvailable) := by
  rw [seekRead, seekOffset_eq h]
  exact content_advanceRead h (Nat.min_le_right _ _)

/-- Moving by the whole content puts the read position on the write position. -/
theorem advanceRead_readAvailable (h : b.InBounds) :
    b.advanceRead b.readAvailable = { b with readPos := b.writePos } := by
  have hread := h.read
  have hwrite := h.write
  rcases Nat.lt_or_ge b.writePos b.readPos with hwrap | hle
  · have hsum : b.readPos + b.readAvailable = b.writePos + b.size := by
      rw [readAvailable_of_lt h hwrap]
      omega
    rw [advanceRead, hsum, Nat.add_mod_right, Nat.mod_eq_of_lt hwrite]
  · have hsum : b.readPos + b.readAvailable = b.writePos := by
      rw [readAvailable_of_le hle]
      omega
    rw [advanceRead, hsum, Nat.mod_eq_of_lt hwrite]

/-- A byte that is readable is found, and what stands before its first
occurrence is dropped. -/
theorem findAndSeekRead_of_findIdx?_eq_some (h : b.InBounds) {k : ℕ}
    (hk : b.content.findIdx? (· = byte) = some k) :
    (b.findAndSeekRead byte).buffer = b.advanceRead k ∧
      (b.findAndSeekRead byte).value = true := by
  have hread := h.read
  have hwrite := h.write
  have hklt : k < b.content.length := (List.findIdx?_eq_some_iff_findIdx_eq.mp hk).1
  rw [length_content h] at hklt
  rw [findAndSeekRead]
  rcases Nat.lt_or_ge b.writePos b.readPos with hwrap | hle
  · rw [readAvailable_of_lt h hwrap] at hklt
    have hfirst : (slice b.buffer b.readPos b.size).length = b.size - b.readPos := by
      simp only [length_slice, size]
      omega
    have hend : b.readPos + (b.size - b.readPos) = b.size := by omega
    rw [content, if_pos hwrap, List.findIdx?_append, hfirst] at hk
    rw [if_pos hwrap, subSize_of_le hread.le]
    simp only [find, copyOut, hend, Nat.zero_add]
    cases hfound : (slice b.buffer b.readPos b.size).findIdx? (· = byte) with
    | some i =>
        rw [hfound, Option.some_or, Option.some.injEq] at hk
        subst hk
        have hlt := (List.findIdx?_eq_some_iff_findIdx_eq.mp hfound).1
        have hpos : (b.readPos + i) % b.size = b.readPos + i := Nat.mod_eq_of_lt (by omega)
        simp only [Option.map_some, advanceRead, hpos, and_self]
    | none =>
        rw [hfound, Option.none_or, Option.map_eq_some_iff] at hk
        obtain ⟨j, hj, rfl⟩ := hk
        have hlt := (List.findIdx?_eq_some_iff_findIdx_eq.mp hj).1
        rw [length_slice] at hlt
        have hpos : (b.readPos + (j + (b.size - b.readPos))) % b.size = j := by
          have hsum : b.readPos + (j + (b.size - b.readPos)) = j + b.size := by omega
          rw [hsum, Nat.add_mod_right, Nat.mod_eq_of_lt (by omega)]
        rw [Option.map_none]
        simp only
        rw [if_neg (by omega), hj]
        simp only [Option.map_some, advanceRead, hpos, and_self]
  · rw [readAvailable_of_le hle] at hklt
    have hend : b.readPos + (b.writePos - b.readPos) = b.writePos := by omega
    have hpos : (b.readPos + k) % b.size = b.readPos + k := Nat.mod_eq_of_lt (by omega)
    rw [content, if_neg (by omega)] at hk
    rw [if_neg (by omega), subSize_of_le hle]
    simp only [find, copyOut, hend, hk, Option.map_some, advanceRead, hpos, and_self]

/-- A byte that is not readable is not found. The content is dropped, except
when it ends exactly at the end of the array, where it is left as it is. -/
theorem findAndSeekRead_of_findIdx?_eq_none (h : b.InBounds)
    (hnone : b.content.findIdx? (· = byte) = none) :
    (b.findAndSeekRead byte).value = false ∧
      (b.findAndSeekRead byte).buffer =
        if b.writePos < b.readPos ∧ b.writePos = 0 then b
        else b.advanceRead b.readAvailable := by
  have hread := h.read
  rw [advanceRead_readAvailable h, findAndSeekRead]
  rcases Nat.lt_or_ge b.writePos b.readPos with hwrap | hle
  · have hend : b.readPos + (b.size - b.readPos) = b.size := by omega
    rw [content, if_pos hwrap, List.findIdx?_append, Option.or_eq_none_iff,
      Option.map_eq_none_iff] at hnone
    rw [if_pos hwrap, subSize_of_le hread.le]
    simp only [find, copyOut, hend, Nat.zero_add, hnone.1, hnone.2, Option.map_none]
    rcases Nat.eq_zero_or_pos b.writePos with hzero | hpos
    · rw [if_pos (by omega), if_pos ⟨hwrap, hzero⟩]
      exact ⟨rfl, rfl⟩
    · rw [if_neg (by omega), if_neg (by omega)]
      exact ⟨rfl, rfl⟩
  · have hend : b.readPos + (b.writePos - b.readPos) = b.writePos := by omega
    rw [content, if_neg (by omega)] at hnone
    rw [if_neg (by omega), if_neg (by omega), subSize_of_le hle]
    simp only [find, copyOut, hend, hnone, Option.map_none, and_self]

/-! ## Putting bytes in -/

/-- Bytes copied behind unwrapped content, short of the end of the array. -/
theorem content_append_of_le (hle : b.readPos ≤ b.writePos)
    (hfit : b.writePos + bytes.length ≤ b.size) :
    content { b.copyIn b.writePos bytes with writePos := b.writePos + bytes.length } =
      b.content ++ bytes := by
  rw [content, if_neg (by simp only [copyIn]; omega), content, if_neg (by omega)]
  simp only [copyIn]
  rw [← slice_append_slice hle (Nat.le_add_right _ _),
    slice_overwrite_before hfit le_rfl, slice_overwrite_self hfit]

/-- Bytes copied behind unwrapped content up to the end of the array and on at
its start, short of the read position. -/
theorem content_append_of_wrap (bytes front : List UInt8) (hle : b.readPos ≤ b.writePos)
    (hend : b.writePos + bytes.length = b.size) (hfront : front.length < b.readPos) :
    content { (b.copyIn b.writePos bytes).copyIn 0 front with
        writePos := front.length } = b.content ++ bytes ++ front := by
  have hsize : b.size = b.buffer.length := rfl
  have hfit : b.writePos + bytes.length ≤ b.buffer.length := by omega
  have hzero : 0 + front.length ≤ (overwrite b.buffer b.writePos bytes).length := by
    rw [length_overwrite]
    omega
  have hcopy : ((b.copyIn b.writePos bytes).copyIn 0 front).size = b.size := by
    rw [size_copyIn, size_copyIn]
  rw [content, if_pos (by simpa only [copyIn] using hfront), content, if_neg (by omega)]
  show slice _ b.readPos ((b.copyIn b.writePos bytes).copyIn 0 front).size ++ _ = _
  rw [hcopy]
  simp only [copyIn]
  rw [slice_overwrite_after hzero (by omega), ← hend,
    ← slice_append_slice hle (Nat.le_add_right _ _), slice_overwrite_before hfit le_rfl,
    slice_overwrite_self hfit]
  congr 1
  have hself := slice_overwrite_self hzero
  rwa [Nat.zero_add] at hself

/-- Copying behind unwrapped content without moving the write position makes
nothing readable. -/
theorem content_copyIn_writePos (bytes : List UInt8) (hle : b.readPos ≤ b.writePos)
    (hfit : b.writePos + bytes.length ≤ b.size) :
    (b.copyIn b.writePos bytes).content = b.content := by
  rw [content, if_neg (by simp only [copyIn]; omega), content, if_neg (by omega)]
  exact slice_overwrite_before hfit le_rfl

/-- Bytes copied behind wrapped content, short of the read position. -/
theorem content_append_of_gap (hread : b.readPos ≤ b.size)
    (hfit : b.writePos + bytes.length < b.readPos) :
    content { b.copyIn b.writePos bytes with writePos := b.writePos + bytes.length } =
      b.content ++ bytes := by
  have hsize : b.size = b.buffer.length := rfl
  have hroom : b.writePos + bytes.length ≤ b.buffer.length := by omega
  rw [content, if_pos (by simpa only [copyIn] using hfit), content, if_pos (by omega)]
  show slice _ b.readPos (b.copyIn b.writePos bytes).size ++ _ = _
  rw [size_copyIn, List.append_assoc]
  simp only [copyIn]
  rw [slice_overwrite_after hroom (by omega),
    ← slice_append_slice (Nat.zero_le _) (Nat.le_add_right _ _),
    slice_overwrite_before hroom le_rfl, slice_overwrite_self hroom]

theorem free_of_lt (h : b.InBounds) (hwrap : b.writePos < b.readPos) :
    b.free = b.readPos - b.writePos := by
  have hread := h.read
  rw [free, readAvailable_of_lt h hwrap]
  omega

theorem free_of_le (hle : b.readPos ≤ b.writePos) :
    b.free = b.size - (b.writePos - b.readPos) := by
  rw [free, readAvailable_of_le hle]

@[simp]
theorem size_advanceWrite : (b.advanceWrite n).size = b.size := rfl

/-- `write` keeps the array and both positions in range, whatever it is given. -/
theorem InBounds.write_bytes (h : b.InBounds) (bytes : List UInt8) :
    (b.write bytes).buffer.InBounds ∧ (b.write bytes).buffer.size = b.size := by
  have hpos : 0 < b.size := Nat.zero_lt_of_lt h.read
  have hadvance : ∀ c : CircularBuffer, c.size = b.size → c.readPos = b.readPos →
      (c.advanceWrite bytes.length).InBounds ∧
        (c.advanceWrite bytes.length).size = b.size := by
    intro c hsize hread
    refine ⟨⟨?_, ?_, ?_⟩, hsize⟩
    · show c.readPos < c.size
      rw [hsize, hread]
      exact h.read
    · show (c.writePos + bytes.length) % c.size < c.size
      exact Nat.mod_lt _ (hsize ▸ hpos)
    · show c.size ≤ maxAllocation
      rw [hsize]
      exact h.alloc
  rw [CircularBuffer.write]
  dsimp only
  split_ifs
  · exact ⟨h, rfl⟩
  · exact hadvance _ (size_copyIn _) rfl
  · exact ⟨h, rfl⟩
  · exact hadvance _ ((size_copyIn _).trans (size_copyIn _)) rfl
  · exact ⟨h, rfl⟩
  · exact hadvance _ (size_copyIn _) rfl

/-- A `write` of more bytes than are free is refused and changes nothing. -/
theorem write_of_gt (h : b.InBounds) (hn : b.free < bytes.length) :
    (b.write bytes).buffer = b ∧ (b.write bytes).value = false := by
  have hread := h.read
  have hwrite := h.write
  rw [write]
  dsimp only
  rcases Nat.lt_or_ge b.size bytes.length with hbig | hsmall
  · rw [if_pos hbig]
    exact ⟨rfl, rfl⟩
  · rw [if_neg (by omega)]
    rcases Nat.lt_or_ge b.writePos b.readPos with hwrap | hle
    · rw [free_of_lt h hwrap] at hn
      rw [if_neg (by omega), subSize_of_le hwrap.le, if_pos (by omega)]
      exact ⟨rfl, rfl⟩
    · rw [free_of_le hle] at hn
      rw [if_pos hle, subSize_of_le hwrite.le, if_neg (by omega), if_pos (by omega)]
      exact ⟨rfl, rfl⟩

/-- A `write` that leaves at least one cell free appends its bytes. -/
theorem write_of_lt (h : b.InBounds) (hn : bytes.length < b.free) :
    (b.write bytes).value = true ∧
      (b.write bytes).buffer.content = b.content ++ bytes := by
  have hread := h.read
  have hwrite := h.write
  rw [write]
  dsimp only
  rcases Nat.lt_or_ge b.writePos b.readPos with hwrap | hle
  · rw [free_of_lt h hwrap] at hn
    have hpos : (b.writePos + bytes.length) % b.size = b.writePos + bytes.length :=
      Nat.mod_eq_of_lt (by omega)
    rw [if_neg (by omega), if_neg (by omega), subSize_of_le hwrap.le, if_neg (by omega)]
    refine ⟨rfl, ?_⟩
    rw [advanceWrite, size_copyIn]
    simp only [copyIn, hpos]
    exact content_append_of_gap hread.le (by omega)
  · rw [free_of_le hle] at hn
    rw [if_neg (by omega), if_pos hle, subSize_of_le hwrite.le]
    rcases Nat.lt_or_ge bytes.length (b.size - b.writePos) with hshort | hlong
    · have hpos : (b.writePos + bytes.length) % b.size = b.writePos + bytes.length :=
        Nat.mod_eq_of_lt (by omega)
      rw [if_pos hshort]
      refine ⟨rfl, ?_⟩
      rw [advanceWrite, size_copyIn]
      simp only [copyIn, hpos]
      exact content_append_of_le hle (by omega)
    · have hpos : (b.writePos + bytes.length) % b.size =
          (bytes.drop (b.size - b.writePos)).length := by
        rw [Nat.mod_eq_sub_mod (by omega), Nat.mod_eq_of_lt (by omega), List.length_drop]
        omega
      rw [if_neg (by omega), if_neg (by omega)]
      refine ⟨rfl, ?_⟩
      rw [advanceWrite, size_copyIn, size_copyIn]
      simp only [copyIn, hpos]
      have happend := content_append_of_wrap (b := b)
        (bytes.take (b.size - b.writePos)) (bytes.drop (b.size - b.writePos)) hle
        (by rw [List.length_take]; omega) (by rw [List.length_drop]; omega)
      rw [List.append_assoc, List.take_append_drop] at happend
      exact happend

/-- A `write` that fills the last free cell is accepted and leaves the buffer
reporting itself as empty. -/
theorem write_of_eq (h : b.InBounds) (hn : bytes.length = b.free) :
    (b.write bytes).value = true ∧ (b.write bytes).buffer.content = [] := by
  have hread := h.read
  have hwrite := h.write
  rw [write]
  dsimp only
  rcases Nat.lt_or_ge b.writePos b.readPos with hwrap | hle
  · rw [free_of_lt h hwrap] at hn
    rw [if_neg (by omega), if_neg (by omega), subSize_of_le hwrap.le, if_neg (by omega)]
    refine ⟨rfl, content_of_eq ?_⟩
    show (b.writePos + bytes.length) % (b.copyIn b.writePos bytes).size = b.readPos
    rw [size_copyIn, Nat.mod_eq_of_lt (by omega)]
    omega
  · rw [free_of_le hle] at hn
    rw [if_neg (by omega), if_pos hle, subSize_of_le hwrite.le, if_neg (by omega),
      if_neg (by omega)]
    refine ⟨rfl, content_of_eq ?_⟩
    show (b.writePos + bytes.length) % (((b.copyIn b.writePos _).copyIn 0 _)).size =
      b.readPos
    rw [size_copyIn, size_copyIn, Nat.mod_eq_sub_mod (by omega), Nat.mod_eq_of_lt (by omega)]
    omega

/-- A `write` that is accepted and leaves at least one cell free. -/
theorem write_of_value (h : b.InBounds) (hvalue : (b.write bytes).value = true)
    (hne : bytes.length ≠ b.free) :
    (b.write bytes).buffer.InBounds ∧ (b.write bytes).buffer.content = b.content ++ bytes ∧
      (b.write bytes).buffer.free + bytes.length = b.free := by
  rcases Nat.lt_trichotomy bytes.length b.free with hlt | heq | hgt
  · obtain ⟨hbounds, hsize⟩ := h.write_bytes bytes
    obtain ⟨-, hcontent⟩ := write_of_lt h hlt
    refine ⟨hbounds, hcontent, ?_⟩
    have hlength := length_content hbounds
    rw [hcontent, List.length_append, length_content h] at hlength
    rw [free] at hlt ⊢
    rw [free, hsize, ← hlength]
    omega
  · exact absurd heq hne
  · rw [(write_of_gt h hgt).2] at hvalue
    cases hvalue

/-! ## Reading from a device

The seven lemmas below are the branches of `read_from`; all later facts about
it are case analyses over them. -/

section ReadFrom

variable {more : List UInt8} {first second : ReadCall}

theorem readFrom_throws (h : b.InBounds) :
    b.readFrom .throws second =
      ⟨b, ⟨none, []⟩, [⟨b.writePos,
        if b.readPos ≤ b.writePos then b.size - b.writePos
        else b.readPos - b.writePos⟩]⟩ := by
  have hwrite := h.write
  rw [readFrom]
  rcases Nat.lt_or_ge b.writePos b.readPos with hwrap | hle
  · have hnot : ¬ b.readPos ≤ b.writePos := by omega
    rw [if_neg hnot, if_neg hnot, subSize_of_le hwrap.le]
    dsimp only
    rw [if_pos (by omega)]
    rfl
  · rw [if_pos hle, if_pos hle, subSize_of_le hwrite.le]
    rfl

/-- The first call stays short of the end of the array. -/
theorem readFrom_short (h : b.InBounds) (hle : b.readPos ≤ b.writePos)
    (hshort : bytes.length < b.size - b.writePos) :
    b.readFrom (.delivers bytes) second =
      ⟨{ b.copyIn b.writePos bytes with writePos := b.writePos + bytes.length },
        ⟨some true, bytes⟩, [⟨b.writePos, b.size - b.writePos⟩]⟩ := by
  rw [readFrom, if_pos hle, subSize_of_le h.write.le]
  simp only [ReadCall.answer]
  rw [List.take_of_length_le hshort.le, if_pos hshort]

/-- The first call reaches the end of the array and the read position leaves no
room at its start. -/
theorem readFrom_full (h : b.InBounds) (hle : b.readPos ≤ b.writePos)
    (hlong : b.size - b.writePos ≤ bytes.length) (hone : b.readPos = 1) :
    b.readFrom (.delivers bytes) second =
      ⟨{ b.copyIn b.writePos (bytes.take (b.size - b.writePos)) with writePos := 0 },
        ⟨some false, bytes.take (b.size - b.writePos)⟩,
        [⟨b.writePos, b.size - b.writePos⟩]⟩ := by
  have hfilled : ¬ (bytes.take (b.size - b.writePos)).length < b.size - b.writePos := by
    rw [List.length_take]
    omega
  rw [readFrom, if_pos hle, subSize_of_le h.write.le, hone]
  simp only [ReadCall.answer]
  rw [if_neg hfilled]
  rfl

/-- The first call reaches the end of the array and the second one throws. -/
theorem readFrom_front_throws (h : b.InBounds) (hle : b.readPos ≤ b.writePos)
    (hlong : b.size - b.writePos ≤ bytes.length) (hfront : 1 ≤ subSize b.readPos 1) :
    b.readFrom (.delivers bytes) .throws =
      ⟨b.copyIn b.writePos (bytes.take (b.size - b.writePos)),
        ⟨none, bytes.take (b.size - b.writePos)⟩,
        [⟨b.writePos, b.size - b.writePos⟩, ⟨0, subSize b.readPos 1⟩]⟩ := by
  have hfilled : ¬ (bytes.take (b.size - b.writePos)).length < b.size - b.writePos := by
    rw [List.length_take]
    omega
  rw [readFrom, if_pos hle, subSize_of_le h.write.le]
  simp only [ReadCall.answer]
  rw [if_neg hfilled, if_pos hfront]

/-- The first call reaches the end of the array and the second one continues at
its start. -/
theorem readFrom_front (h : b.InBounds) (hle : b.readPos ≤ b.writePos)
    (hlong : b.size - b.writePos ≤ bytes.length) (hfront : 1 ≤ subSize b.readPos 1) :
    b.readFrom (.delivers bytes) (.delivers more) =
      ⟨{ (b.copyIn b.writePos (bytes.take (b.size - b.writePos))).copyIn 0
            (more.take (subSize b.readPos 1)) with
          writePos := (more.take (subSize b.readPos 1)).length },
        ⟨some true,
          bytes.take (b.size - b.writePos) ++ more.take (subSize b.readPos 1)⟩,
        [⟨b.writePos, b.size - b.writePos⟩, ⟨0, subSize b.readPos 1⟩]⟩ := by
  have hfilled : ¬ (bytes.take (b.size - b.writePos)).length < b.size - b.writePos := by
    rw [List.length_take]
    omega
  rw [readFrom, if_pos hle, subSize_of_le h.write.le]
  simp only [ReadCall.answer]
  rw [if_neg hfilled, if_pos hfront]

/-- Wrapped content: the only call is for the gap before the read position. -/
theorem readFrom_gap (hwrap : b.writePos < b.readPos) :
    b.readFrom (.delivers bytes) second =
      ⟨{ b.copyIn b.writePos (bytes.take (b.readPos - b.writePos)) with
          writePos := b.writePos + (bytes.take (b.readPos - b.writePos)).length },
        ⟨some true, bytes.take (b.readPos - b.writePos)⟩,
        [⟨b.writePos, b.readPos - b.writePos⟩]⟩ := by
  rw [readFrom, if_neg (by omega), subSize_of_le hwrap.le]
  dsimp only
  rw [if_pos (by omega)]
  rfl

/-- The array was filled to its end while the read position is `0`: the
unsigned `m_read_pos - 1` wraps around and the second call asks for `SIZE_MAX`
bytes. -/
def Overruns (b : CircularBuffer) : ReadCall → Prop
  | .throws => False
  | .delivers bytes =>
      b.readPos ≤ b.writePos ∧ b.readPos = 0 ∧ b.size - b.writePos ≤ bytes.length

instance (b : CircularBuffer) : DecidablePred b.Overruns
  | .throws => inferInstanceAs (Decidable False)
  | .delivers _ => inferInstanceAs (Decidable (_ ∧ _))

/-- The bytes that `read_from` receives all become readable. What is left out
is a call of the device that fills the array back to the read position, the
overrun, and a second call that throws after the first one filled the array. -/
def ReadFromKeeps (b : CircularBuffer) : ReadCall → ReadCall → Prop
  | .throws, _ => True
  | .delivers bytes, second =>
      if b.readPos ≤ b.writePos then
        b.size - b.writePos ≤ bytes.length →
          b.readPos ≠ 0 ∧ (b.readPos = 1 ∨ second ≠ .throws)
      else
        bytes.length < b.readPos - b.writePos

instance (b : CircularBuffer) : ∀ first second, Decidable (b.ReadFromKeeps first second)
  | .throws, _ => inferInstanceAs (Decidable True)
  | .delivers bytes, second =>
      inferInstanceAs (Decidable (if b.readPos ≤ b.writePos then
        b.size - b.writePos ≤ bytes.length →
          b.readPos ≠ 0 ∧ (b.readPos = 1 ∨ second ≠ .throws)
      else bytes.length < b.readPos - b.writePos))

theorem not_overruns_of_readFromKeeps (h : b.ReadFromKeeps first second) :
    ¬ b.Overruns first := by
  cases first with
  | throws => exact id
  | delivers bytes =>
      rintro ⟨hle, hzero, hlong⟩
      rw [ReadFromKeeps, if_pos hle] at h
      exact (h hlong).1 hzero

/-- Without the overrun `read_from` keeps both positions in the array. -/
theorem InBounds.readFrom (h : b.InBounds) (hover : ¬ b.Overruns first) :
    (b.readFrom first second).buffer.InBounds ∧
      (b.readFrom first second).buffer.size = b.size := by
  have hread := h.read
  have hwrite := h.write
  have hplace : ∀ (c : CircularBuffer) (pos : ℕ), c.size = b.size → c.readPos = b.readPos →
      pos < b.size →
      InBounds { c with writePos := pos } ∧ size { c with writePos := pos } = b.size := by
    intro c pos hsize hpos hlt
    refine ⟨⟨?_, ?_, ?_⟩, hsize⟩
    · show c.readPos < c.size
      omega
    · show pos < c.size
      omega
    · show c.size ≤ maxAllocation
      rw [hsize]
      exact h.alloc
  cases first with
  | throws =>
      rw [readFrom_throws h]
      exact ⟨h, rfl⟩
  | delivers bytes =>
      rcases Nat.lt_or_ge b.writePos b.readPos with hwrap | hle
      · rw [readFrom_gap hwrap]
        refine hplace _ _ (size_copyIn _) rfl ?_
        rw [List.length_take]
        omega
      · rcases Nat.lt_or_ge bytes.length (b.size - b.writePos) with hshort | hlong
        · rw [readFrom_short h hle hshort]
          exact hplace _ _ (size_copyIn _) rfl (by omega)
        · have hpos : b.readPos ≠ 0 := fun hzero => hover ⟨hle, hzero, hlong⟩
          rcases Nat.lt_or_ge 1 b.readPos with htwo | hone
          · have hfront : subSize b.readPos 1 = b.readPos - 1 := subSize_of_le (by omega)
            cases second with
            | throws =>
                rw [readFrom_front_throws h hle hlong (by omega)]
                exact hplace _ b.writePos (size_copyIn _) rfl hwrite
            | delivers more =>
                rw [readFrom_front h hle hlong (by omega)]
                refine hplace _ _ ((size_copyIn _).trans (size_copyIn _)) rfl ?_
                rw [List.length_take]
                omega
          · rw [readFrom_full h hle hlong (by omega)]
            exact hplace _ _ (size_copyIn _) rfl (by omega)

/-- A `read_from` that keeps its bytes appends exactly what the device
delivered. -/
theorem content_readFrom (h : b.InBounds) (hkeep : b.ReadFromKeeps first second) :
    (b.readFrom first second).buffer.content =
      b.content ++ (b.readFrom first second).value.bytes := by
  have hread := h.read
  have hwrite := h.write
  cases first with
  | throws =>
      rw [readFrom_throws h]
      simp
  | delivers bytes =>
      rcases Nat.lt_or_ge b.writePos b.readPos with hwrap | hle
      · rw [ReadFromKeeps, if_neg (by omega)] at hkeep
        rw [readFrom_gap hwrap, List.take_of_length_le hkeep.le]
        exact content_append_of_gap hread.le (by omega)
      · rw [ReadFromKeeps, if_pos hle] at hkeep
        rcases Nat.lt_or_ge bytes.length (b.size - b.writePos) with hshort | hlong
        · rw [readFrom_short h hle hshort]
          exact content_append_of_le hle (by omega)
        · obtain ⟨hpos, hsecond⟩ := hkeep hlong
          have hend : b.writePos + (bytes.take (b.size - b.writePos)).length = b.size := by
            rw [List.length_take]
            omega
          rcases Nat.lt_or_ge 1 b.readPos with htwo | hone
          · have hfront : subSize b.readPos 1 = b.readPos - 1 := subSize_of_le (by omega)
            cases second with
            | throws => exact absurd rfl (hsecond.resolve_left (by omega))
            | delivers more =>
                rw [readFrom_front h hle hlong (by omega)]
                dsimp only
                rw [← List.append_assoc]
                exact content_append_of_wrap _ _ hle hend (by rw [List.length_take]; omega)
          · rw [readFrom_full h hle hlong (by omega)]
            have happend := content_append_of_wrap _ [] hle hend
              (by rw [List.length_nil]; omega)
            simpa [copyIn] using happend

/-- A `read_from` that does not keep its bytes leaves fewer bytes readable than
were readable before together with those the device delivered. -/
theorem content_readFrom_length_lt (h : b.InBounds)
    (hlose : ¬ b.ReadFromKeeps first second) :
    (b.readFrom first second).buffer.content.length <
      (b.content ++ (b.readFrom first second).value.bytes).length := by
  have hread := h.read
  have hwrite := h.write
  have hsize := h.size_lt
  cases first with
  | throws => exact absurd trivial hlose
  | delivers bytes =>
      rcases Nat.lt_or_ge b.writePos b.readPos with hwrap | hle
      · rw [ReadFromKeeps, if_neg (by omega), Nat.not_lt] at hlose
        rw [readFrom_gap hwrap]
        have htake : (bytes.take (b.readPos - b.writePos)).length =
            b.readPos - b.writePos := by
          rw [List.length_take]
          omega
        rw [content_of_eq (by simp only [copyIn]; omega)]
        simp only [List.length_nil, List.length_append, htake]
        omega
      · rw [ReadFromKeeps, if_pos hle, Classical.not_imp] at hlose
        obtain ⟨hlong, hlose⟩ := hlose
        have htake : (bytes.take (b.size - b.writePos)).length = b.size - b.writePos := by
          rw [List.length_take]
          omega
        have hlen := length_content h
        rw [readAvailable_of_le hle] at hlen
        rcases Nat.eq_zero_or_pos b.readPos with hzero | hpos
        · have hwrapped : subSize b.readPos 1 = 2 ^ 64 - 1 := by
            rw [hzero]
            rfl
          cases second with
          | throws =>
              rw [readFrom_front_throws h hle hlong (by omega)]
              have hsame := content_copyIn_writePos
                (bytes.take (b.size - b.writePos)) hle (by omega)
              simp only [hsame, List.length_append, htake]
              omega
          | delivers more =>
              rw [readFrom_front h hle hlong (by omega)]
              have hafter : (content { (b.copyIn b.writePos
                  (bytes.take (b.size - b.writePos))).copyIn 0
                    (more.take (subSize b.readPos 1)) with
                  writePos := (more.take (subSize b.readPos 1)).length }).length ≤
                    (more.take (subSize b.readPos 1)).length := by
                rw [content, if_neg (by simp only [copyIn]; omega)]
                simp only [length_slice]
                omega
              simp only [List.length_append, htake] at hafter ⊢
              omega
        · have hthrow : 2 ≤ b.readPos ∧ second = .throws := by
            by_contra hcontra
            apply hlose
            refine ⟨by omega, ?_⟩
            by_cases hone : b.readPos = 1
            · exact Or.inl hone
            · exact Or.inr fun heq => hcontra ⟨by omega, heq⟩
          obtain ⟨htwo, rfl⟩ := hthrow
          have hfront : subSize b.readPos 1 = b.readPos - 1 := subSize_of_le (by omega)
          rw [readFrom_front_throws h hle hlong (by omega)]
          have hsame := content_copyIn_writePos
            (bytes.take (b.size - b.writePos)) hle (by omega)
          simp only [hsame, List.length_append, htake]
          omega

/-- What `read_from` asks its source for in its first call. -/
def firstRequest (b : CircularBuffer) : ℕ :=
  if b.writePos ≥ b.readPos then subSize b.size b.writePos else subSize b.readPos b.writePos

/-- A source that never throws and hands out one stream, at each call as much of it as
it likes: the bytes received are those at the front of the stream. -/
theorem readFrom_stream (h : b.InBounds) (stream : List UInt8) (i j : ℕ) :
    let transfer := (b.readFrom (.delivers (stream.take i))
      (.delivers ((stream.drop b.firstRequest).take j))).value
    transfer.outcome ≠ none ∧ ∃ k, transfer.bytes = stream.take k := by
  have hwrite := h.write
  rcases Nat.lt_or_ge b.writePos b.readPos with hwrap | hle
  · rw [readFrom_gap hwrap]
    exact ⟨by simp, _, List.take_take⟩
  · have hrequest : b.firstRequest = b.size - b.writePos := by
      rw [firstRequest, if_pos hle, subSize_of_le hwrite.le]
    rw [hrequest]
    rcases Nat.lt_or_ge (stream.take i).length (b.size - b.writePos) with hshort | hlong
    · rw [readFrom_short h hle hshort]
      exact ⟨by simp, i, rfl⟩
    · have hi : b.size - b.writePos ≤ i := hlong.trans (List.length_take_le _ _)
      have htake : (stream.take i).take (b.size - b.writePos) =
          stream.take (b.size - b.writePos) := by
        rw [List.take_take, Nat.min_eq_left hi]
      by_cases hone : b.readPos = 1
      · rw [readFrom_full h hle hlong hone]
        exact ⟨by simp, _, htake⟩
      · have hfront : 1 ≤ subSize b.readPos 1 := by
          unfold subSize
          split_ifs <;> omega
        rw [readFrom_front h hle hlong hfront]
        refine ⟨by simp, b.size - b.writePos + min (subSize b.readPos 1) j, ?_⟩
        rw [htake, List.take_take, List.take_add]

/-- A source with one stream at hand fills the free cells but one behind unwrapped
content. -/
theorem content_readFrom_unwrapped (h : b.InBounds) (hle : b.readPos ≤ b.writePos)
    (hpos : 0 < b.readPos) (stream : List UInt8) :
    (b.readFrom (.delivers stream) (.delivers (stream.drop b.firstRequest))).buffer.content =
      b.content ++ stream.take (b.free - 1) := by
  have hread := h.read
  have hwrite := h.write
  have hrequest : b.firstRequest = b.size - b.writePos := by
    rw [firstRequest, if_pos hle, subSize_of_le hwrite.le]
  have hfree : b.free - 1 = b.size - b.writePos + (b.readPos - 1) := by
    rw [free_of_le hle]
    omega
  rw [hrequest, hfree]
  rcases Nat.lt_or_ge stream.length (b.size - b.writePos) with hshort | hlong
  · rw [readFrom_short h hle hshort, List.take_of_length_le (by omega)]
    exact content_append_of_le hle (by omega)
  · rw [content_readFrom h]
    · by_cases hone : b.readPos = 1
      · rw [readFrom_full h hle hlong hone, hone]
        simp
      · rw [readFrom_front h hle hlong (by rw [subSize_of_le hpos]; omega),
          subSize_of_le hpos, List.take_add]
    · rw [ReadFromKeeps, if_pos hle]
      exact fun _ => ⟨hpos.ne', Or.inr (by simp)⟩

/-- A source with fewer bytes at hand than there are free cells hands all of them
over. -/
theorem content_readFrom_of_lt (h : b.InBounds) {stream : List UInt8}
    (hroom : stream.length < b.free)
    (hfront : 0 < b.readPos ∨ b.writePos + stream.length < b.size) :
    (b.readFrom (.delivers stream) (.delivers (stream.drop b.firstRequest))).buffer.content =
      b.content ++ stream := by
  have hread := h.read
  have hwrite := h.write
  rcases Nat.lt_or_ge b.writePos b.readPos with hwrap | hle
  · rw [free_of_lt h hwrap] at hroom
    rw [readFrom_gap hwrap, List.take_of_length_le hroom.le]
    exact content_append_of_gap hread.le (by omega)
  · rcases Nat.eq_zero_or_pos b.readPos with hzero | hpos
    · have hshort : b.writePos + stream.length < b.size :=
        hfront.resolve_left (by omega)
      rw [readFrom_short h hle (by omega)]
      exact content_append_of_le hle hshort.le
    · rw [content_readFrom_unwrapped h hle hpos, List.take_of_length_le (by omega)]

end ReadFrom

/-! ## Writing to a device -/

section WriteInto

variable {first second : WriteCall}

/-- The bytes the device took are exactly the ones that stop being readable.
What is left out is a second call that throws after the first one took the
whole first part of wrapped content: the position is not moved then. -/
def WriteIntoKeeps (b : CircularBuffer) : WriteCall → WriteCall → Prop
  | .throws, _ => True
  | .takes count, second =>
      b.writePos < b.readPos → b.size - b.readPos ≤ count → second ≠ .throws

instance (b : CircularBuffer) : ∀ first second, Decidable (b.WriteIntoKeeps first second)
  | .throws, _ => inferInstanceAs (Decidable True)
  | .takes _, _ => inferInstanceAs (Decidable (_ → _ → _ ≠ _))

theorem writeInto_of_eq (heq : b.writePos = b.readPos) :
    b.writeInto first second = ⟨b, ⟨some false, []⟩, []⟩ := by
  rw [writeInto, if_pos heq]

/-- The device throws on the first call. -/
theorem writeInto_throws (h : b.InBounds) (hne : b.writePos ≠ b.readPos) :
    b.writeInto .throws second =
      ⟨b, ⟨none, []⟩, [⟨b.readPos,
        if b.writePos < b.readPos then b.size - b.readPos
        else b.writePos - b.readPos⟩]⟩ := by
  have hread := h.read
  rw [writeInto, if_neg hne]
  rcases Nat.lt_or_ge b.writePos b.readPos with hwrap | hle
  · rw [if_pos hwrap, if_pos hwrap, subSize_of_le hread.le]
    dsimp only
    rw [if_neg (by omega)]
    rfl
  · have hnot : ¬ b.writePos < b.readPos := by omega
    rw [if_neg hnot, if_neg hnot, subSize_of_le hle]
    dsimp only
    rw [if_neg (by omega)]
    rfl

/-- Unwrapped content is offered in one call. -/
theorem writeInto_unwrapped (h : b.InBounds) (hlt : b.readPos < b.writePos) (count : ℕ) :
    b.writeInto (.takes count) second =
      ⟨b.advanceRead (min count (b.writePos - b.readPos)),
        ⟨some true, b.content.take (min count (b.writePos - b.readPos))⟩,
        [⟨b.readPos, b.writePos - b.readPos⟩]⟩ := by
  have hwrite := h.write
  have havail := readAvailable_of_le hlt.le
  have hpos : (b.readPos + min count (b.writePos - b.readPos)) % b.size =
      b.readPos + min count (b.writePos - b.readPos) := Nat.mod_eq_of_lt (by omega)
  rw [writeInto, if_neg (by omega), if_neg (by omega), subSize_of_le hlt.le]
  dsimp only
  rw [if_neg (by omega), advanceRead, hpos,
    ← copyOut_readPos h (by omega) (by omega)]
  rfl

/-- The device takes less than the first part of wrapped content. -/
theorem writeInto_wrapped_short (h : b.InBounds) (hwrap : b.writePos < b.readPos)
    {count : ℕ} (hshort : count < b.size - b.readPos) :
    b.writeInto (.takes count) second =
      ⟨b.advanceRead count, ⟨some true, b.content.take count⟩,
        [⟨b.readPos, b.size - b.readPos⟩]⟩ := by
  have hread := h.read
  have havail := readAvailable_of_lt h hwrap
  have hpos : (b.readPos + count) % b.size = b.readPos + count :=
    Nat.mod_eq_of_lt (by omega)
  rw [writeInto, if_neg (by omega), if_pos hwrap, subSize_of_le hread.le]
  dsimp only
  rw [if_neg (by omega), advanceRead, hpos, ← copyOut_readPos h (by omega) (by omega)]
  simp only [WriteCall.answer]
  rw [Nat.min_eq_left hshort.le, if_pos hshort]

/-- The device takes the first part of wrapped content and throws on the
second. -/
theorem writeInto_wrapped_throws (h : b.InBounds) (hwrap : b.writePos < b.readPos)
    {count : ℕ} (hlong : b.size - b.readPos ≤ count) :
    b.writeInto (.takes count) .throws =
      ⟨b, ⟨none, b.content.take (b.size - b.readPos)⟩,
        [⟨b.readPos, b.size - b.readPos⟩, ⟨0, b.writePos⟩]⟩ := by
  have hread := h.read
  have havail := readAvailable_of_lt h hwrap
  rw [writeInto, if_neg (by omega), if_pos hwrap, subSize_of_le hread.le]
  dsimp only
  rw [if_neg (by omega), ← copyOut_readPos h (by omega) (by omega)]
  simp only [WriteCall.answer]
  rw [Nat.min_eq_right hlong, if_neg (Nat.lt_irrefl _)]

/-- The device takes the first part of wrapped content and some of the
second. -/
theorem writeInto_wrapped (h : b.InBounds) (hwrap : b.writePos < b.readPos)
    {count : ℕ} (hlong : b.size - b.readPos ≤ count) (more : ℕ) :
    b.writeInto (.takes count) (.takes more) =
      ⟨b.advanceRead (b.size - b.readPos + min more b.writePos),
        ⟨some true, b.content.take (b.size - b.readPos + min more b.writePos)⟩,
        [⟨b.readPos, b.size - b.readPos⟩, ⟨0, b.writePos⟩]⟩ := by
  have hread := h.read
  have havail := readAvailable_of_lt h hwrap
  have hpos : (b.readPos + (b.size - b.readPos + min more b.writePos)) % b.size =
      min more b.writePos := by
    have hsum : b.readPos + (b.size - b.readPos + min more b.writePos) =
        min more b.writePos + b.size := by omega
    rw [hsum, Nat.add_mod_right, Nat.mod_eq_of_lt (by omega)]
  have hsplit := copyOut_append_copyOut h hwrap
    (n := b.size - b.readPos + min more b.writePos) (by omega) (by omega)
  rw [Nat.add_sub_cancel_left] at hsplit
  rw [writeInto, if_neg (by omega), if_pos hwrap, subSize_of_le hread.le]
  dsimp only
  rw [if_neg (by omega), advanceRead, hpos, ← hsplit]
  simp only [WriteCall.answer]
  rw [Nat.min_eq_right hlong, if_neg (Nat.lt_irrefl _)]

/-- A `write_into` that keeps track takes a prefix of the content and removes
exactly that prefix. -/
theorem writeInto_of_keeps (h : b.InBounds) (hkeep : b.WriteIntoKeeps first second) :
    ∃ k ≤ b.readAvailable,
      (b.writeInto first second).buffer = b.advanceRead k ∧
        (b.writeInto first second).value.bytes = b.content.take k := by
  have hread := h.read
  have hsame : b.advanceRead 0 = b := by
    rw [advanceRead, Nat.add_zero, Nat.mod_eq_of_lt hread]
  rcases Nat.lt_trichotomy b.writePos b.readPos with hwrap | heq | hlt
  · have havail := readAvailable_of_lt h hwrap
    cases first with
    | throws =>
        rw [writeInto_throws h (by omega)]
        exact ⟨0, by omega, hsame.symm, by simp⟩
    | takes count =>
        rcases Nat.lt_or_ge count (b.size - b.readPos) with hshort | hlong
        · rw [writeInto_wrapped_short h hwrap hshort]
          exact ⟨count, by omega, rfl, rfl⟩
        · cases second with
          | throws => exact absurd rfl (hkeep hwrap hlong)
          | takes more =>
              rw [writeInto_wrapped h hwrap hlong]
              exact ⟨_, by omega, rfl, rfl⟩
  · rw [writeInto_of_eq heq]
    exact ⟨0, by omega, hsame.symm, by simp⟩
  · have havail := readAvailable_of_le hlt.le
    cases first with
    | throws =>
        rw [writeInto_throws h (by omega)]
        exact ⟨0, by omega, hsame.symm, by simp⟩
    | takes count =>
        rw [writeInto_unwrapped h hlt]
        exact ⟨_, by omega, rfl, rfl⟩

/-- What `write_into` offers its destination in its first call. -/
def firstOffer (b : CircularBuffer) : ℕ :=
  if b.writePos < b.readPos then subSize b.size b.readPos else subSize b.writePos b.readPos

theorem outcome_writeInto_takes (h : b.InBounds) (count more : ℕ) :
    (b.writeInto (.takes count) (.takes more)).value.outcome ≠ none := by
  rcases Nat.lt_trichotomy b.writePos b.readPos with hwrap | heq | hlt
  · rcases Nat.lt_or_ge count (b.size - b.readPos) with hshort | hlong
    · simp [writeInto_wrapped_short h hwrap hshort]
    · simp [writeInto_wrapped h hwrap hlong]
  · simp [writeInto_of_eq heq]
  · simp [writeInto_unwrapped h hlt]

/-- A destination with room for the whole array takes the whole content. -/
theorem writeInto_all (h : b.InBounds) {count more : ℕ} (hcount : b.size ≤ count)
    (hmore : b.size ≤ more) :
    (b.writeInto (.takes count) (.takes more)).buffer = b.advanceRead b.readAvailable ∧
      (b.writeInto (.takes count) (.takes more)).value.bytes = b.content := by
  have hread := h.read
  have hwrite := h.write
  have hlength := length_content h
  rcases Nat.lt_trichotomy b.writePos b.readPos with hwrap | heq | hlt
  · have havail : b.size - b.readPos + min more b.writePos = b.readAvailable := by
      rw [readAvailable_of_lt h hwrap, Nat.min_eq_right (by omega)]
    rw [writeInto_wrapped h hwrap (by omega), havail]
    exact ⟨rfl, List.take_of_length_le hlength.le⟩
  · have havail : b.readAvailable = 0 := by
      rw [readAvailable_of_le heq.ge, heq, Nat.sub_self]
    rw [writeInto_of_eq heq, havail, advanceRead, Nat.add_zero, Nat.mod_eq_of_lt hread]
    exact ⟨rfl, (content_of_eq heq).symm⟩
  · have havail : min count (b.writePos - b.readPos) = b.readAvailable := by
      rw [readAvailable_of_le hlt.le, Nat.min_eq_right (by omega)]
    rw [writeInto_unwrapped h hlt, havail]
    exact ⟨rfl, List.take_of_length_le hlength.le⟩

/-- A `write_into` that loses track hands out bytes and leaves the buffer as it
was. -/
theorem writeInto_of_not_keeps (h : b.InBounds) (hlose : ¬ b.WriteIntoKeeps first second) :
    (b.writeInto first second).buffer = b ∧
      0 < (b.writeInto first second).value.bytes.length := by
  cases first with
  | throws => exact absurd trivial hlose
  | takes count =>
      simp only [WriteIntoKeeps, Classical.not_imp, Classical.not_not] at hlose
      obtain ⟨hwrap, hlong, rfl⟩ := hlose
      have hread := h.read
      have hlen := length_content h
      rw [readAvailable_of_lt h hwrap] at hlen
      rw [writeInto_wrapped_throws h hwrap hlong]
      refine ⟨rfl, ?_⟩
      rw [List.length_take]
      omega

end WriteInto

end Obsr.Io.CircularBuffer
