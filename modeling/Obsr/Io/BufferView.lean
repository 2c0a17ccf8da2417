/-
# The view of a payload

`readonly_buffer_view` is a window of `m_size` bytes on memory it does not own; what lies
behind the window may be an older message. The deserializer only ever calls `read`, which
compares the size it is asked for with what is left of the window.
-/

import Obsr.Io.CircularBuffer
import Obsr.Io.Deserializer

namespace Obsr.Io

open Obsr.Lib

/-- The fields of `readonly_buffer_view`, with the memory at `m_buffer`. -/
structure ReadonlyBufferView where
  buffer : List UInt8
  readPos : ℕ
  size : ℕ
  deriving DecidableEq, Repr

namespace ReadonlyBufferView

def reset (buffer : List UInt8) (size : ℕ) : ReadonlyBufferView := ⟨buffer, 0, size⟩

/-- `read(buffer, size)`: the bytes copied to the caller, or `none` when the call returns
`false`, and the part of the memory that was copied. -/
def read (v : ReadonlyBufferView) (size : ℕ) :
    ReadonlyBufferView × Option (List UInt8) × List Region :=
  let spaceToMax := subSize v.size v.readPos
  if size > spaceToMax then (v, none, [])
  else
    ({ v with readPos := v.readPos + size },
      some (slice v.buffer v.readPos (v.readPos + size)), [⟨v.readPos, size⟩])

/-- The position is in the window, and the window in the memory. -/
structure InBounds (v : ReadonlyBufferView) : Prop where
  read : v.readPos ≤ v.size
  memory : v.size ≤ v.buffer.length

/-- The bytes that are not read yet. -/
def rest (v : ReadonlyBufferView) : List UInt8 := slice v.buffer v.readPos v.size

variable {v : ReadonlyBufferView}

theorem inBounds_reset {buffer : List UInt8} {size : ℕ} (h : size ≤ buffer.length) :
    (reset buffer size).InBounds := ⟨Nat.zero_le _, h⟩

theorem rest_reset (buffer : List UInt8) (size : ℕ) :
    (reset buffer size).rest = buffer.take size := slice_zero

theorem length_rest (h : v.InBounds) : v.rest.length = v.size - v.readPos := by
  have hmemory := h.memory
  rw [rest, length_slice]
  omega

theorem InBounds.read_view (h : v.InBounds) (n : ℕ) : (v.read n).1.InBounds := by
  have hread := h.read
  simp only [ReadonlyBufferView.read, subSize_of_le hread]
  split_ifs with hlong
  · exact h
  · exact ⟨by simp only; omega, h.memory⟩

/-- A read takes its bytes off the front of what is left, or fails. -/
theorem read_eq_readBytes (h : v.InBounds) (n : ℕ) :
    Deserializer.readBytes n v.rest =
      (v.read n).2.1.map fun bytes => (bytes, (v.read n).1.rest) := by
  have hread := h.read
  have hlength := length_rest h
  simp only [Deserializer.readBytes, read, subSize_of_le hread, hlength]
  split_ifs with hlong
  · rfl
  · rw [Option.map_some, rest, take_slice (by omega), drop_slice]
    rfl

/-- No read looks behind the window. -/
theorem read_inside (h : v.InBounds) (n : ℕ) : ∀ region ∈ (v.read n).2.2, region.Inside v.size := by
  have hread := h.read
  intro region hmem
  simp only [read, subSize_of_le hread] at hmem
  split_ifs at hmem with hlong
  · cases hmem
  · obtain rfl := List.mem_singleton.mp hmem
    show v.readPos + n ≤ v.size
    omega

/-- What a sequence of reads looks at. -/
def looksAt (v : ReadonlyBufferView) : List ℕ → List Region
  | [] => []
  | n :: sizes => (v.read n).2.2 ++ (v.read n).1.looksAt sizes

theorem size_read (v : ReadonlyBufferView) (n : ℕ) : (v.read n).1.size = v.size := by
  simp only [read]
  split_ifs <;> rfl

theorem looksAt_inside (h : v.InBounds) (sizes : List ℕ) :
    ∀ region ∈ v.looksAt sizes, region.Inside v.size := by
  induction sizes generalizing v with
  | nil => exact fun region hmem => by cases hmem
  | cons n sizes ih =>
      intro region hmem
      rcases List.mem_append.mp hmem with hfirst | hlater
      · exact read_inside h n region hfirst
      · have hinside := ih (h.read_view n) region hlater
        rwa [size_read] at hinside

end ReadonlyBufferView

end Obsr.Io
