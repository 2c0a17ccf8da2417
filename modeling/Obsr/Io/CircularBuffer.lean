/-
# The circular buffer

`circular_buffer` keeps the bytes between a socket and the framing code in one
allocated array with a read and a write position. The functions below follow
`io/buffer.cpp` branch by branch. Two things the C++ functions do only as side
effects are returned next to their result, because the properties are about
them: the regions of the array an operation copies or hands to a device, and
the bytes a device moved.

A copy past the end of the array is undefined in the source. Here it is cut off
at the end, and the region that was handed out still tells that it was too big.
-/

import Obsr.Lib.Slice

namespace Obsr.Io

open Obsr.Lib

/-- Subtraction of `size_t`: a negative difference wraps around at `2 ^ 64`. -/
def subSize (a b : ℕ) : ℕ := if b ≤ a then a - b else 2 ^ 64 + a - b

theorem subSize_of_le {a b : ℕ} (h : b ≤ a) : subSize a b = a - b := by
  simp [subSize, h]

/-- The largest object an allocation can return (`PTRDIFF_MAX`). -/
def maxAllocation : ℕ := 2 ^ 63 - 1

/-- A part of the backing array, as the offset and length an operation uses. -/
structure Region where
  offset : ℕ
  length : ℕ
  deriving DecidableEq, Repr

/-- The region lies inside an array of `size` cells. -/
def Region.Inside (size : ℕ) (region : Region) : Prop :=
  region.offset + region.length ≤ size

instance (size : ℕ) (region : Region) : Decidable (region.Inside size) :=
  inferInstanceAs (Decidable (_ ≤ _))

/-- How a `readable` answers one call of `read`: it throws, or it delivers the
given bytes as far as the caller asked for them. -/
inductive ReadCall
  | throws
  | delivers (bytes : List UInt8)
  deriving DecidableEq, Repr

/-- The bytes a `readable` puts into a destination of `size` bytes. -/
def ReadCall.answer : ReadCall → ℕ → Option (List UInt8)
  | throws, _ => none
  | delivers bytes, size => some (bytes.take size)

/-- How a `writable` answers one call of `write`: it throws, or it takes the
given number of bytes, as far as it was offered that many. -/
inductive WriteCall
  | throws
  | takes (count : ℕ)
  deriving DecidableEq, Repr

/-- The number of bytes a `writable` takes out of `size` offered ones. -/
def WriteCall.answer : WriteCall → ℕ → Option ℕ
  | throws, _ => none
  | takes count, size => some (min count size)

/-- The fields of `circular_buffer`; `m_size` is the length of the array. -/
structure CircularBuffer where
  buffer : List UInt8
  readPos : ℕ
  writePos : ℕ
  deriving DecidableEq, Repr

/-- What a transfer between the buffer and a device did: the value returned
(`none` when the device threw) and all bytes the device moved, in order. -/
structure Transfer where
  outcome : Option Bool
  bytes : List UInt8
  deriving DecidableEq, Repr

/-- The outcome of one operation. -/
structure Result (α : Type) where
  buffer : CircularBuffer
  value : α
  regions : List Region

namespace CircularBuffer

/-- A new buffer; the array comes from the allocator uninitialised. -/
def new (memory : List UInt8) : CircularBuffer := ⟨memory, 0, 0⟩

/-- The field `m_size`. -/
def size (b : CircularBuffer) : ℕ := b.buffer.length

/-- Copy bytes into the array (`memcpy` and what `readable.read` does). -/
def copyIn (b : CircularBuffer) (offset : ℕ) (bytes : List UInt8) : CircularBuffer :=
  { b with buffer := overwrite b.buffer offset bytes }

/-- Copy bytes out of the array. -/
def copyOut (b : CircularBuffer) (offset length : ℕ) : List UInt8 :=
  slice b.buffer offset (offset + length)

def readAvailable (b : CircularBuffer) : ℕ :=
  if b.writePos < b.readPos then
    subSize b.size b.readPos + b.writePos
  else
    subSize b.writePos b.readPos

def writeAvailable (b : CircularBuffer) : ℕ :=
  if b.writePos ≥ b.readPos then
    subSize b.size b.writePos + b.writePos
  else
    subSize b.readPos b.writePos

def canRead (b : CircularBuffer) (size : ℕ) : Bool :=
  b.readAvailable ≥ size

def canWrite (b : CircularBuffer) (size : ℕ) : Bool :=
  b.writeAvailable ≥ size

def reset (b : CircularBuffer) : CircularBuffer :=
  { b with readPos := 0, writePos := 0 }

/-- `memchr` over a part of the array: the offset of the first hit. -/
def find (b : CircularBuffer) (offset length : ℕ) (byte : UInt8) : Option ℕ :=
  ((b.copyOut offset length).findIdx? (· = byte)).map (offset + ·)

def findAndSeekRead (b : CircularBuffer) (byte : UInt8) : Result Bool :=
  if b.writePos < b.readPos then
    let spaceToMax := subSize b.size b.readPos
    match b.find b.readPos spaceToMax byte with
    | some offset =>
        ⟨{ b with readPos := offset }, true, [⟨b.readPos, spaceToMax⟩]⟩
    | none =>
        if b.writePos < 1 then
          ⟨b, false, [⟨b.readPos, spaceToMax⟩]⟩
        else
          match b.find 0 b.writePos byte with
          | none =>
              ⟨{ b with readPos := b.writePos }, false,
                [⟨b.readPos, spaceToMax⟩, ⟨0, b.writePos⟩]⟩
          | some offset =>
              ⟨{ b with readPos := offset }, true,
                [⟨b.readPos, spaceToMax⟩, ⟨0, b.writePos⟩]⟩
  else
    let space := subSize b.writePos b.readPos
    match b.find b.readPos space byte with
    | none => ⟨{ b with readPos := b.writePos }, false, [⟨b.readPos, space⟩]⟩
    | some offset => ⟨{ b with readPos := offset }, true, [⟨b.readPos, space⟩]⟩

/-- The offset `seek_read` really moves by. -/
def seekOffset (b : CircularBuffer) (offset : ℕ) : ℕ :=
  if b.writePos < b.readPos then
    let spaceToMax := subSize b.size b.readPos
    if offset > spaceToMax ∧ offset > spaceToMax + b.writePos then
      spaceToMax + b.writePos
    else
      offset
  else
    let space := subSize b.writePos b.readPos
    if offset > space then space else offset

/-- `m_read_pos += offset; m_read_pos %= m_size`. -/
def advanceRead (b : CircularBuffer) (offset : ℕ) : CircularBuffer :=
  { b with readPos := (b.readPos + offset) % b.size }

/-- `m_write_pos += offset; m_write_pos %= m_size`. -/
def advanceWrite (b : CircularBuffer) (offset : ℕ) : CircularBuffer :=
  { b with writePos := (b.writePos + offset) % b.size }

def seekRead (b : CircularBuffer) (offset : ℕ) : CircularBuffer :=
  b.advanceRead (b.seekOffset offset)

/-- `read(buffer, size)`: the bytes copied to the caller, or `none` when the
call returns `false`. -/
def read (b : CircularBuffer) (size : ℕ) : Result (Option (List UInt8)) :=
  if size > b.size then
    ⟨b, none, []⟩
  else if b.writePos < b.readPos then
    let spaceToMax := subSize b.size b.readPos
    if size < spaceToMax then
      ⟨b.advanceRead size, some (b.copyOut b.readPos size), [⟨b.readPos, size⟩]⟩
    else if size > spaceToMax + b.writePos then
      ⟨b, none, []⟩
    else
      let rest := subSize size spaceToMax
      ⟨b.advanceRead size,
        some (b.copyOut b.readPos spaceToMax ++ b.copyOut 0 rest),
        [⟨b.readPos, spaceToMax⟩, ⟨0, rest⟩]⟩
  else
    let space := subSize b.writePos b.readPos
    if size > space then
      ⟨b, none, []⟩
    else
      ⟨b.advanceRead size, some (b.copyOut b.readPos size), [⟨b.readPos, size⟩]⟩

/-- `write(buffer, size)`; the value is what the call returns. -/
def write (b : CircularBuffer) (bytes : List UInt8) : Result Bool :=
  let size := bytes.length
  if size > b.size then
    ⟨b, false, []⟩
  else if b.writePos ≥ b.readPos then
    let spaceToMax := subSize b.size b.writePos
    if size < spaceToMax then
      ⟨(b.copyIn b.writePos bytes).advanceWrite size, true, [⟨b.writePos, size⟩]⟩
    else if size > spaceToMax + b.readPos then
      ⟨b, false, []⟩
    else
      ⟨((b.copyIn b.writePos (bytes.take spaceToMax)).copyIn 0
          (bytes.drop spaceToMax)).advanceWrite size, true,
        [⟨b.writePos, spaceToMax⟩, ⟨0, subSize size spaceToMax⟩]⟩
  else
    let space := subSize b.readPos b.writePos
    if size > space then
      ⟨b, false, []⟩
    else
      ⟨(b.copyIn b.writePos bytes).advanceWrite size, true, [⟨b.writePos, size⟩]⟩

/-- `read_from(readable)`. The second call of `readable.read` happens only when
the first one filled the array up to its end. -/
def readFrom (b : CircularBuffer) (first second : ReadCall) : Result Transfer :=
  if b.writePos ≥ b.readPos then
    let space := subSize b.size b.writePos
    match first.answer space with
    | none => ⟨b, ⟨none, []⟩, [⟨b.writePos, space⟩]⟩
    | some got =>
        let filled := b.copyIn b.writePos got
        if got.length < space then
          ⟨{ filled with writePos := b.writePos + got.length },
            ⟨some true, got⟩, [⟨b.writePos, space⟩]⟩
        else
          let spaceAtFront := subSize b.readPos 1
          if spaceAtFront ≥ 1 then
            match second.answer spaceAtFront with
            | none =>
                ⟨filled, ⟨none, got⟩, [⟨b.writePos, space⟩, ⟨0, spaceAtFront⟩]⟩
            | some more =>
                ⟨{ filled.copyIn 0 more with writePos := more.length },
                  ⟨some true, got ++ more⟩,
                  [⟨b.writePos, space⟩, ⟨0, spaceAtFront⟩]⟩
          else
            ⟨{ filled with writePos := spaceAtFront },
              ⟨some false, got⟩, [⟨b.writePos, space⟩]⟩
  else
    let space := subSize b.readPos b.writePos
    if space ≥ 1 then
      match first.answer space with
      | none => ⟨b, ⟨none, []⟩, [⟨b.writePos, space⟩]⟩
      | some got =>
          ⟨{ b.copyIn b.writePos got with writePos := b.writePos + got.length },
            ⟨some true, got⟩, [⟨b.writePos, space⟩]⟩
    else
      ⟨b, ⟨some false, []⟩, []⟩

/-- `write_into(writable)`. The second call of `writable.write` happens only
when the content wraps and the first call took all of its first part. -/
def writeInto (b : CircularBuffer) (first second : WriteCall) : Result Transfer :=
  if b.writePos = b.readPos then
    ⟨b, ⟨some false, []⟩, []⟩
  else if b.writePos < b.readPos then
    let space := subSize b.size b.readPos
    if space < 1 then
      ⟨b, ⟨some false, []⟩, []⟩
    else
      match first.answer space with
      | none => ⟨b, ⟨none, []⟩, [⟨b.readPos, space⟩]⟩
      | some written =>
          let taken := b.copyOut b.readPos written
          if written < space then
            ⟨{ b with readPos := b.readPos + written },
              ⟨some true, taken⟩, [⟨b.readPos, space⟩]⟩
          else
            match second.answer b.writePos with
            | none =>
                ⟨b, ⟨none, taken⟩, [⟨b.readPos, space⟩, ⟨0, b.writePos⟩]⟩
            | some more =>
                ⟨{ b with readPos := more },
                  ⟨some true, taken ++ b.copyOut 0 more⟩,
                  [⟨b.readPos, space⟩, ⟨0, b.writePos⟩]⟩
  else
    let space := subSize b.writePos b.readPos
    if space < 1 then
      ⟨b, ⟨some false, []⟩, []⟩
    else
      match first.answer space with
      | none => ⟨b, ⟨none, []⟩, [⟨b.readPos, space⟩]⟩
      | some written =>
          ⟨{ b with readPos := b.readPos + written },
            ⟨some true, b.copyOut b.readPos written⟩, [⟨b.readPos, space⟩]⟩

end CircularBuffer

end Obsr.Io
