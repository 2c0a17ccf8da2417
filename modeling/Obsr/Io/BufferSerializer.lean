/-
# The serializer and its buffer

`serializer` once more, with the buffer it leaves when it fails in the middle of a value.
Where it succeeds, it is the serializer of before.
-/

import Obsr.Io.Serializer
import Obsr.Lib.BufferWriter

namespace Obsr.Io

open Obsr.Lib

/-- A method of `serializer` over its `m_buffer`. -/
abbrev BufferSerialize := BufferWriter UInt8

namespace BufferSerializer

def write8 (value : UInt8) : BufferSerialize := BufferWriter.write [value]

def write16 (value : UInt16) : BufferSerialize :=
  BufferWriter.write (BigEndian.toBytes 2 value.toNat)

def write32 (value : UInt32) : BufferSerialize :=
  BufferWriter.write (BigEndian.toBytes 4 value.toNat)

def write64 (value : UInt64) : BufferSerialize :=
  BufferWriter.write (BigEndian.toBytes 8 value.toNat)

def writef32 (bits : UInt32) : BufferSerialize := write32 bits

def writef64 (bits : UInt64) : BufferSerialize := write64 bits

def writeSize (size : ℕ) : BufferSerialize :=
  BufferWriter.guarded (Serializer.isWithinSizeLimits size) (write8 (UInt8.ofNat size))

def writeRaw (bytes : List UInt8) : BufferSerialize :=
  (writeSize bytes.length).andThen (BufferWriter.write bytes)

def writeStr (text : Text) : BufferSerialize := writeRaw text

/-- An array: its length, then its elements. -/
def writeArr {α : Type} (element : α → BufferSerialize) (array : List α) : BufferSerialize :=
  (writeSize array.length).andThen (BufferWriter.each element array)

def writeArrI32 (array : List Int32) : BufferSerialize :=
  writeArr (fun n => write32 n.toUInt32) array

def writeArrI64 (array : List Int64) : BufferSerialize :=
  writeArr (fun n => write64 n.toUInt64) array

def writeArrF32 (array : List UInt32) : BufferSerialize := writeArr writef32 array

def writeArrF64 (array : List UInt64) : BufferSerialize := writeArr writef64 array

def writeValue (behind : Behind) (v : Value) : BufferSerialize :=
  match v.type, v.data with
  | .raw, .raw bytes => writeRaw bytes
  | .string, .string text => writeStr text
  | .boolean, .boolean bit => write8 (if bit then 1 else 0)
  | .integer32, .integer32 number => write32 number.toUInt32
  | .integer64, .integer64 number => write64 number.toUInt64
  | .floatingPoint32, .floatingPoint32 bits => writef32 bits
  | .floatingPoint64, .floatingPoint64 bits => writef64 bits
  | .integer32Array, .integer32Array numbers => writeArrI32 numbers
  | .integer64Array, _ => writeArrI64 (v.getInt64Array behind)
  | .floatingPoint32Array, .floatingPoint32Array bits => writeArrF32 bits
  | .floatingPoint64Array, .floatingPoint64Array bits => writeArrF64 bits
  | .empty, _ => BufferWriter.done
  | _, _ => BufferWriter.fail

/-! ## The same bytes -/

@[simp]
theorem toSymbolWriter_write8 (value : UInt8) :
    (write8 value).toSymbolWriter = Serializer.write8 value :=
  BufferWriter.toSymbolWriter_write _

@[simp]
theorem toSymbolWriter_write16 (value : UInt16) :
    (write16 value).toSymbolWriter = Serializer.write16 value :=
  BufferWriter.toSymbolWriter_write _

@[simp]
theorem toSymbolWriter_write32 (value : UInt32) :
    (write32 value).toSymbolWriter = Serializer.write32 value :=
  BufferWriter.toSymbolWriter_write _

@[simp]
theorem toSymbolWriter_write64 (value : UInt64) :
    (write64 value).toSymbolWriter = Serializer.write64 value :=
  BufferWriter.toSymbolWriter_write _

theorem toSymbolWriter_writeSize (size : ℕ) :
    (writeSize size).toSymbolWriter = Serializer.writeSize size := by
  rw [writeSize, BufferWriter.toSymbolWriter_guarded, toSymbolWriter_write8]
  rfl

theorem toSymbolWriter_writeRaw (bytes : List UInt8) :
    (writeRaw bytes).toSymbolWriter = Serializer.writeRaw bytes := by
  rw [writeRaw, BufferWriter.toSymbolWriter_andThen, toSymbolWriter_writeSize,
    BufferWriter.toSymbolWriter_write]
  rfl

@[simp]
theorem toSymbolWriter_writeStr (text : Text) :
    (writeStr text).toSymbolWriter = Serializer.writeStr text :=
  toSymbolWriter_writeRaw text

theorem toSymbolWriter_writeArr {α : Type} {element : α → BufferSerialize}
    {element' : α → Serialize} (h : ∀ a, (element a).toSymbolWriter = element' a)
    (array : List α) :
    (writeArr element array).toSymbolWriter = Serializer.writeArr element' array := by
  rw [writeArr, BufferWriter.toSymbolWriter_andThen, toSymbolWriter_writeSize,
    BufferWriter.toSymbolWriter_each, funext h]
  rfl

@[simp]
theorem toSymbolWriter_writeValue (behind : Behind) (v : Value) :
    (writeValue behind v).toSymbolWriter = Serializer.writeValue behind v := by
  obtain ⟨type, data⟩ := v
  cases type with
  | empty => rfl
  | integer64Array => exact toSymbolWriter_writeArr (fun _ => toSymbolWriter_write64 _) _
  | raw =>
      cases data with
      | raw bytes => exact toSymbolWriter_writeRaw bytes
      | _ => rfl
  | string =>
      cases data with
      | string text => exact toSymbolWriter_writeRaw text
      | _ => rfl
  | boolean =>
      cases data with
      | boolean bit => exact toSymbolWriter_write8 _
      | _ => rfl
  | integer32 =>
      cases data with
      | integer32 number => exact toSymbolWriter_write32 _
      | _ => rfl
  | integer64 =>
      cases data with
      | integer64 number => exact toSymbolWriter_write64 _
      | _ => rfl
  | floatingPoint32 =>
      cases data with
      | floatingPoint32 bits => exact toSymbolWriter_write32 bits
      | _ => rfl
  | floatingPoint64 =>
      cases data with
      | floatingPoint64 bits => exact toSymbolWriter_write64 bits
      | _ => rfl
  | integer32Array =>
      cases data with
      | integer32Array numbers =>
          exact toSymbolWriter_writeArr (fun _ => toSymbolWriter_write32 _) numbers
      | _ => rfl
  | floatingPoint32Array =>
      cases data with
      | floatingPoint32Array bits => exact toSymbolWriter_writeArr toSymbolWriter_write32 bits
      | _ => rfl
  | floatingPoint64Array =>
      cases data with
      | floatingPoint64Array bits => exact toSymbolWriter_writeArr toSymbolWriter_write64 bits
      | _ => rfl

end BufferSerializer

end Obsr.Io
