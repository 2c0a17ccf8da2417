/-
# Circular buffers that answer alike

What an operation answers depends on the positions and on the readable bytes only:
the other cells of the array may hold anything. Two buffers that agree on those answer
every operation alike and agree afterwards. The one operation that leaves the array,
the overrun of `read_from`, either overwrites both arrays completely, after which the
buffers are equal, or leaves nothing readable but the bytes it wrote.
-/

import Obsr.Io.CircularRun

namespace Obsr.Io.CircularBuffer

open Obsr.Lib

/-- Equal positions in arrays of equal size, and equal readable bytes. -/
structure Agrees (b c : CircularBuffer) : Prop where
  left : b.InBounds
  right : c.InBounds
  size : b.size = c.size
  readPos : b.readPos = c.readPos
  writePos : b.writePos = c.writePos
  content : b.content = c.content

/-- Two buffers nobody can tell apart. -/
inductive Alike : CircularBuffer → CircularBuffer → Prop
  | same (b : CircularBuffer) : Alike b b
  | agree {b c : CircularBuffer} (h : Agrees b c) : Alike b c

variable {b c : CircularBuffer} {bytes : List UInt8}

theorem Agrees.readAvailable (h : Agrees b c) : b.readAvailable = c.readAvailable := by
  rw [← length_content h.left, ← length_content h.right, h.content]

theorem Agrees.free (h : Agrees b c) : b.free = c.free := by
  rw [CircularBuffer.free, CircularBuffer.free, h.size, h.readAvailable]

/-- Both read positions are moved alike over readable bytes. -/
theorem Agrees.advanceRead (h : Agrees b c) {n : ℕ} (hn : n ≤ b.readAvailable) :
    Agrees (b.advanceRead n) (c.advanceRead n) where
  left := h.left.advanceRead n
  right := h.right.advanceRead n
  size := h.size
  readPos := by
    show (b.readPos + n) % b.size = (c.readPos + n) % c.size
    rw [h.readPos, h.size]
  writePos := h.writePos
  content := by
    rw [content_advanceRead h.left hn, content_advanceRead h.right (h.readAvailable ▸ hn),
      h.content]

theorem Alike.readAvailable (h : Alike b c) : b.readAvailable = c.readAvailable := by
  cases h with
  | same => rfl
  | agree h => exact h.readAvailable

theorem Alike.canRead (h : Alike b c) (n : ℕ) : b.canRead n = c.canRead n := by
  rw [CircularBuffer.canRead, CircularBuffer.canRead, h.readAvailable]

theorem Alike.canWrite (h : Alike b c) (n : ℕ) : b.canWrite n = c.canWrite n := by
  cases h with
  | same => rfl
  | agree h =>
      rw [CircularBuffer.canWrite, CircularBuffer.canWrite, writeAvailable, writeAvailable,
        h.size, h.readPos, h.writePos]

theorem Alike.firstRequest (h : Alike b c) : b.firstRequest = c.firstRequest := by
  cases h with
  | same => rfl
  | agree h =>
      rw [CircularBuffer.firstRequest, CircularBuffer.firstRequest, h.size, h.readPos,
        h.writePos]

theorem Alike.firstOffer (h : Alike b c) : b.firstOffer = c.firstOffer := by
  cases h with
  | same => rfl
  | agree h =>
      rw [CircularBuffer.firstOffer, CircularBuffer.firstOffer, h.size, h.readPos, h.writePos]

theorem Alike.writePos (h : Alike b c) : b.writePos = c.writePos := by
  cases h with
  | same => rfl
  | agree h => exact h.writePos

/-! ## Taking bytes out -/

theorem Alike.findAndSeekRead (h : Alike b c) (byte : UInt8) :
    (b.findAndSeekRead byte).value = (c.findAndSeekRead byte).value ∧
      Alike (b.findAndSeekRead byte).buffer (c.findAndSeekRead byte).buffer := by
  cases h with
  | same => exact ⟨rfl, .same _⟩
  | agree h =>
      cases hfound : b.content.findIdx? (· = byte) with
      | some k =>
          obtain ⟨hb, hbvalue⟩ := findAndSeekRead_of_findIdx?_eq_some h.left hfound
          have hlt := (List.findIdx?_eq_some_iff_findIdx_eq.mp hfound).1
          rw [length_content h.left] at hlt
          rw [h.content] at hfound
          obtain ⟨hc, hcvalue⟩ := findAndSeekRead_of_findIdx?_eq_some h.right hfound
          rw [hb, hc, hbvalue, hcvalue]
          exact ⟨rfl, .agree (h.advanceRead hlt.le)⟩
      | none =>
          obtain ⟨hbvalue, hb⟩ := findAndSeekRead_of_findIdx?_eq_none h.left hfound
          rw [h.content] at hfound
          obtain ⟨hcvalue, hc⟩ := findAndSeekRead_of_findIdx?_eq_none h.right hfound
          rw [hb, hc, hbvalue, hcvalue, h.readPos, h.writePos]
          refine ⟨rfl, ?_⟩
          split_ifs
          · exact .agree h
          · have hall := h.advanceRead le_rfl
            rw [← h.readAvailable]
            exact .agree hall

theorem Alike.read (h : Alike b c) (n : ℕ) :
    (b.read n).value = (c.read n).value ∧ Alike (b.read n).buffer (c.read n).buffer := by
  cases h with
  | same => exact ⟨rfl, .same _⟩
  | agree h =>
      rcases Nat.lt_or_ge b.readAvailable n with hgt | hle
      · obtain ⟨hb, hbvalue⟩ := read_of_gt h.left hgt
        obtain ⟨hc, hcvalue⟩ := read_of_gt h.right (h.readAvailable ▸ hgt)
        rw [hb, hc, hbvalue, hcvalue]
        exact ⟨rfl, .agree h⟩
      · obtain ⟨hb, hbvalue⟩ := read_of_le h.left hle
        obtain ⟨hc, hcvalue⟩ := read_of_le h.right (h.readAvailable ▸ hle)
        rw [hb, hc, hbvalue, hcvalue, h.content]
        exact ⟨rfl, .agree (h.advanceRead hle)⟩

theorem Alike.seekRead (h : Alike b c) (n : ℕ) : Alike (b.seekRead n) (c.seekRead n) := by
  cases h with
  | same => exact .same _
  | agree h =>
      rw [CircularBuffer.seekRead, CircularBuffer.seekRead, seekOffset_eq h.left,
        seekOffset_eq h.right, ← h.readAvailable]
      exact .agree (h.advanceRead (Nat.min_le_right _ _))

theorem Alike.writeInto (h : Alike b c) (first second : WriteCall) :
    (b.writeInto first second).value = (c.writeInto first second).value ∧
      Alike (b.writeInto first second).buffer (c.writeInto first second).buffer := by
  cases h with
  | same => exact ⟨rfl, .same _⟩
  | agree h =>
      have hread := h.left.read
      rcases Nat.lt_trichotomy b.writePos b.readPos with hwrap | heq | hlt
      · have hwrap' : c.writePos < c.readPos := h.writePos ▸ h.readPos ▸ hwrap
        have havail := readAvailable_of_lt h.left hwrap
        cases first with
        | throws =>
            rw [writeInto_throws h.left hwrap.ne, writeInto_throws h.right hwrap'.ne]
            exact ⟨rfl, .agree h⟩
        | takes count =>
            rcases Nat.lt_or_ge count (b.size - b.readPos) with hshort | hlong
            · rw [writeInto_wrapped_short h.left hwrap hshort,
                writeInto_wrapped_short h.right hwrap' (h.size ▸ h.readPos ▸ hshort), h.content]
              exact ⟨rfl, .agree (h.advanceRead (by omega))⟩
            · have hlong' : c.size - c.readPos ≤ count := h.size ▸ h.readPos ▸ hlong
              cases second with
              | throws =>
                  rw [writeInto_wrapped_throws h.left hwrap hlong,
                    writeInto_wrapped_throws h.right hwrap' hlong', h.content, h.size, h.readPos]
                  exact ⟨rfl, .agree h⟩
              | takes more =>
                  have hmoved := h.advanceRead
                    (n := b.size - b.readPos + min more b.writePos) (by omega)
                  rw [writeInto_wrapped h.left hwrap hlong,
                    writeInto_wrapped h.right hwrap' hlong', h.content]
                  rw [h.size, h.readPos, h.writePos] at hmoved ⊢
                  exact ⟨rfl, .agree hmoved⟩
      · have heq' : c.writePos = c.readPos := h.writePos ▸ h.readPos ▸ heq
        rw [writeInto_of_eq heq, writeInto_of_eq heq']
        exact ⟨rfl, .agree h⟩
      · have hlt' : c.readPos < c.writePos := h.writePos ▸ h.readPos ▸ hlt
        have havail := readAvailable_of_le hlt.le
        cases first with
        | throws =>
            rw [writeInto_throws h.left hlt.ne', writeInto_throws h.right hlt'.ne']
            exact ⟨rfl, .agree h⟩
        | takes count =>
            have hmoved := h.advanceRead (n := min count (b.writePos - b.readPos)) (by omega)
            rw [writeInto_unwrapped h.left hlt, writeInto_unwrapped h.right hlt', h.content]
            rw [h.readPos, h.writePos] at hmoved ⊢
            exact ⟨rfl, .agree hmoved⟩

/-! ## Putting bytes in -/

theorem readPos_write (b : CircularBuffer) (bytes : List UInt8) :
    (b.write bytes).buffer.readPos = b.readPos := by
  rw [CircularBuffer.write]
  dsimp only
  split_ifs <;> rfl

theorem writePos_write (b : CircularBuffer) (bytes : List UInt8) :
    (b.write bytes).buffer.writePos =
      if (b.write bytes).value then (b.writePos + bytes.length) % b.size else b.writePos := by
  rw [CircularBuffer.write]
  dsimp only
  split_ifs <;> simp_all [advanceWrite, copyIn, CircularBuffer.size]

/-- What a `write` returns and leaves readable depends on the number of free cells. -/
theorem Agrees.write_content (h : Agrees b c) (bytes : List UInt8) :
    (b.write bytes).value = (c.write bytes).value ∧
      (b.write bytes).buffer.content = (c.write bytes).buffer.content := by
  rcases Nat.lt_trichotomy bytes.length b.free with hlt | heq | hgt
  · obtain ⟨hb, hbcontent⟩ := write_of_lt h.left hlt
    obtain ⟨hc, hccontent⟩ := write_of_lt h.right (h.free ▸ hlt)
    rw [hb, hc, hbcontent, hccontent, h.content]
    exact ⟨rfl, rfl⟩
  · obtain ⟨hb, hbcontent⟩ := write_of_eq h.left heq
    obtain ⟨hc, hccontent⟩ := write_of_eq h.right (heq.trans h.free)
    rw [hb, hc, hbcontent, hccontent]
    exact ⟨rfl, rfl⟩
  · obtain ⟨hb, hbvalue⟩ := write_of_gt h.left hgt
    obtain ⟨hc, hcvalue⟩ := write_of_gt h.right (h.free ▸ hgt)
    rw [hb, hc, hbvalue, hcvalue, h.content]
    exact ⟨rfl, rfl⟩

theorem Alike.write (h : Alike b c) (bytes : List UInt8) :
    (b.write bytes).value = (c.write bytes).value ∧
      Alike (b.write bytes).buffer (c.write bytes).buffer := by
  cases h with
  | same => exact ⟨rfl, .same _⟩
  | agree h =>
      obtain ⟨hvalue, hcontent⟩ := h.write_content bytes
      obtain ⟨hb, hbsize⟩ := h.left.write_bytes bytes
      obtain ⟨hc, hcsize⟩ := h.right.write_bytes bytes
      refine ⟨hvalue, .agree ⟨hb, hc, ?_, ?_, ?_, hcontent⟩⟩
      · rw [hbsize, hcsize, h.size]
      · rw [readPos_write, readPos_write, h.readPos]
      · rw [writePos_write, writePos_write, hvalue, h.writePos, h.size]

/-- Buffers that were given the same write position and hold the same readable bytes. -/
theorem Agrees.placed (h : Agrees b c) {b' c' : CircularBuffer} (hb : b'.size = b.size)
    (hc : c'.size = c.size) (hbread : b'.readPos = b.readPos) (hcread : c'.readPos = c.readPos)
    (hwrite : b'.writePos = c'.writePos) (hlt : b'.writePos < b.size)
    (hcontent : b'.content = c'.content) : Agrees b' c' where
  left := by
    refine ⟨?_, ?_, ?_⟩
    · rw [hb, hbread]
      exact h.left.read
    · rwa [hb]
    · rw [hb]
      exact h.left.alloc
  right := by
    refine ⟨?_, ?_, ?_⟩
    · rw [hc, hcread]
      exact h.right.read
    · rwa [hc, ← hwrite, ← h.size]
    · rw [hc]
      exact h.right.alloc
  size := by rw [hb, hc, h.size]
  readPos := by rw [hbread, hcread, h.readPos]
  writePos := hwrite
  content := hcontent

/-- The overrun leaves readable what it wrote at the front, or the same array. -/
theorem Agrees.overrun (h : Agrees b c) (hzero : b.readPos = 0) (taken more : List UInt8) :
    Alike { (b.copyIn b.writePos taken).copyIn 0 more with writePos := more.length }
      { (c.copyIn c.writePos taken).copyIn 0 more with writePos := more.length } := by
  have hzero' : c.readPos = 0 := h.readPos ▸ hzero
  rcases Nat.lt_or_ge more.length b.size with hlt | hge
  · have hfront : ∀ d : CircularBuffer, d.readPos = 0 → more.length < d.size →
        CircularBuffer.content { d.copyIn 0 more with writePos := more.length } = more := by
      intro d hread hroom
      have hself := @slice_overwrite_self _ d.buffer more 0
        (by rw [Nat.zero_add]; exact hroom.le)
      rw [Nat.zero_add] at hself
      rw [CircularBuffer.content, if_neg (by simp only [copyIn]; omega)]
      simp only [copyIn, hread]
      exact hself
    refine .agree (h.placed ?_ ?_ rfl rfl rfl hlt ?_)
    · exact (size_copyIn 0).trans (size_copyIn _)
    · exact (size_copyIn 0).trans (size_copyIn _)
    · have hb := hfront (b.copyIn b.writePos taken) hzero (by rwa [size_copyIn])
      have hc := hfront (c.copyIn c.writePos taken) hzero' (by rwa [size_copyIn, ← h.size])
      exact hb.trans hc.symm
  · have hall : ∀ d : CircularBuffer, d.size ≤ more.length →
        overwrite d.buffer 0 more = more.take d.size := by
      intro d hsize
      have hlength : d.buffer.length ≤ more.length := hsize
      rw [overwrite, List.take_zero, List.nil_append, List.take_append_of_le_length hlength]
      rfl
    have hb := hall (b.copyIn b.writePos taken) (by rwa [size_copyIn])
    have hc := hall (c.copyIn c.writePos taken) (by rwa [size_copyIn, ← h.size])
    rw [size_copyIn, h.size] at hb
    rw [size_copyIn] at hc
    have hequal : CircularBuffer.mk (overwrite (b.copyIn b.writePos taken).buffer 0 more) b.readPos
        more.length = CircularBuffer.mk (overwrite (c.copyIn c.writePos taken).buffer 0 more)
          c.readPos more.length := by
      rw [hb, hc, h.readPos]
    exact hequal ▸ .same _

/-- Bytes in the gap of wrapped content are readable until they fill it. -/
theorem Agrees.content_gap (h : Agrees b c) (hwrap : b.writePos < b.readPos)
    (bytes : List UInt8) (hfit : bytes.length ≤ b.readPos - b.writePos) :
    CircularBuffer.content
        { b.copyIn b.writePos bytes with writePos := b.writePos + bytes.length } =
      CircularBuffer.content
        { c.copyIn c.writePos bytes with writePos := c.writePos + bytes.length } := by
  have hread := h.left.read
  have hread' := h.right.read
  have hwritePos := h.writePos
  have hreadPos := h.readPos
  rcases Nat.lt_or_ge bytes.length (b.readPos - b.writePos) with hless | hfull
  · rw [content_append_of_gap hread.le (by omega), content_append_of_gap hread'.le (by omega),
      h.content]
  · rw [content_of_eq (by simp only [copyIn]; omega), content_of_eq (by simp only [copyIn]; omega)]

/-- The first call reaches the end of the array. -/
theorem Agrees.readFrom_long (h : Agrees b c) (hle : b.readPos ≤ b.writePos)
    (hlong : b.size - b.writePos ≤ bytes.length) (second : ReadCall) :
    (b.readFrom (.delivers bytes) second).value = (c.readFrom (.delivers bytes) second).value ∧
      Alike (b.readFrom (.delivers bytes) second).buffer
        (c.readFrom (.delivers bytes) second).buffer := by
  have hread := h.left.read
  have hwrite := h.left.write
  have hle' : c.readPos ≤ c.writePos := h.writePos ▸ h.readPos ▸ hle
  have hlong' : c.size - c.writePos ≤ bytes.length := h.size ▸ h.writePos ▸ hlong
  have hspace : c.size - c.writePos = b.size - b.writePos := by rw [h.size, h.writePos]
  have hend : b.writePos + (bytes.take (b.size - b.writePos)).length = b.size := by
    rw [List.length_take]
    omega
  have hend' : c.writePos + (bytes.take (b.size - b.writePos)).length = c.size := by
    rw [← h.writePos, ← h.size, hend]
  by_cases hone : b.readPos = 1
  · rw [readFrom_full h.left hle hlong hone,
      readFrom_full h.right hle' hlong' (h.readPos ▸ hone), hspace]
    refine ⟨rfl, .agree (h.placed (size_copyIn _) (size_copyIn _) rfl rfl rfl ?_ ?_)⟩
    · dsimp only
      omega
    · have hb := content_append_of_wrap _ [] hle hend (by rw [List.length_nil]; omega)
      have hc := content_append_of_wrap _ [] hle' hend'
        (by rw [List.length_nil, ← h.readPos]; omega)
      rw [← h.content, ← hb] at hc
      simpa [copyIn] using hc.symm
  · have hfront : 1 ≤ subSize b.readPos 1 := by
      unfold subSize
      split_ifs <;> omega
    cases second with
    | throws =>
        rw [readFrom_front_throws h.left hle hlong hfront,
          readFrom_front_throws h.right hle' hlong' (h.readPos ▸ hfront), hspace]
        refine ⟨rfl, .agree (h.placed (size_copyIn _) (size_copyIn _) rfl rfl h.writePos
          hwrite ?_)⟩
        rw [content_copyIn_writePos _ hle hend.le, content_copyIn_writePos _ hle' hend'.le,
          h.content]
    | delivers more =>
        rw [readFrom_front h.left hle hlong hfront,
          readFrom_front h.right hle' hlong' (h.readPos ▸ hfront), hspace, ← h.readPos]
        refine ⟨rfl, ?_⟩
        rcases Nat.eq_zero_or_pos b.readPos with hzero | hpos
        · exact h.overrun hzero _ _
        · have hless : (more.take (subSize b.readPos 1)).length < b.readPos := by
            rw [List.length_take, subSize_of_le hpos]
            omega
          have hsizes : ∀ d : CircularBuffer, ∀ taken front : List UInt8,
              ((d.copyIn d.writePos taken).copyIn 0 front).size = d.size := fun d _ _ =>
            (size_copyIn 0).trans (size_copyIn _)
          refine .agree (h.placed (hsizes b _ _) (hsizes c _ _) rfl rfl rfl
            (hless.trans hread) ?_)
          rw [content_append_of_wrap _ _ hle hend hless,
            content_append_of_wrap _ _ hle' hend' (h.readPos ▸ hless), h.content]

theorem Alike.readFrom (h : Alike b c) (first second : ReadCall) :
    (b.readFrom first second).value = (c.readFrom first second).value ∧
      Alike (b.readFrom first second).buffer (c.readFrom first second).buffer := by
  cases h with
  | same => exact ⟨rfl, .same _⟩
  | agree h =>
      have hread := h.left.read
      have hread' := h.right.read
      have hwrite := h.left.write
      cases first with
      | throws =>
          rw [readFrom_throws h.left, readFrom_throws h.right]
          exact ⟨rfl, .agree h⟩
      | delivers bytes =>
          rcases Nat.lt_or_ge b.writePos b.readPos with hwrap | hle
          · have hwrap' : c.writePos < c.readPos := h.writePos ▸ h.readPos ▸ hwrap
            have hgap : c.readPos - c.writePos = b.readPos - b.writePos := by
              rw [h.readPos, h.writePos]
            rw [readFrom_gap hwrap, readFrom_gap hwrap', hgap]
            refine ⟨rfl, .agree (h.placed (size_copyIn _) (size_copyIn _) rfl rfl ?_ ?_ ?_)⟩
            · rw [h.writePos]
            · dsimp only
              rw [List.length_take]
              omega
            · exact h.content_gap hwrap (bytes.take (b.readPos - b.writePos))
                (by rw [List.length_take]; exact Nat.min_le_left _ _)
          · have hle' : c.readPos ≤ c.writePos := h.writePos ▸ h.readPos ▸ hle
            rcases Nat.lt_or_ge bytes.length (b.size - b.writePos) with hshort | hlong
            · have hshort' : bytes.length < c.size - c.writePos := h.size ▸ h.writePos ▸ hshort
              rw [readFrom_short h.left hle hshort, readFrom_short h.right hle' hshort']
              refine ⟨rfl, .agree (h.placed (size_copyIn _) (size_copyIn _) rfl rfl ?_ ?_ ?_)⟩
              · rw [h.writePos]
              · dsimp only
                omega
              · rw [content_append_of_le hle (by omega), content_append_of_le hle' (by omega),
                  h.content]
            · exact h.readFrom_long hle hlong second

end Obsr.Io.CircularBuffer
