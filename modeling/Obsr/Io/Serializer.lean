/-
# The serializer

`serializer` writes typed data into a `linear_buffer`, in network byte order.
-/

import Obsr.Lib.BigEndian
import Obsr.Lib.Codec
import Obsr.Types.Value

namespace Obsr.Io

open Obsr.Lib

/-- `linear_buffer`: its size and the bytes before the write position. -/
abbrev LinearBuffer := BoundedBuffer UInt8

abbrev Serialize := SymbolWriter UInt8

/-- The words of memory behind an array of `float`. Only a read past its end
sees them. -/
abbrev Behind := ℕ → UInt32

end Obsr.Io

namespace Obsr.Value

open Obsr.Io

/-- An array of `float` looked at as one of `int64_t`, on a little-endian host:
two words for each element, those past the end from behind the array. -/
def int64sOfFloats (behind : Behind) (bits : List UInt32) : List Int64 :=
  let word := fun k => if k < bits.length then bits.getD k 0 else behind (k - bits.length)
  (List.range bits.length).map fun i =>
    (UInt64.ofNat ((word (2 * i)).toNat + 2 ^ 32 * (word (2 * i + 1)).toNat)).toInt64

/-- `get_int64_array`: the elements of whatever member was written last. -/
def getInt64Array (behind : Behind) (v : Value) : List Int64 :=
  match v.data with
  | .integer64Array numbers => numbers
  | .floatingPoint32Array bits => int64sOfFloats behind bits
  | .floatingPoint64Array bits => bits.map UInt64.toInt64
  | _ => []

end Obsr.Value

namespace Obsr.Io

open Obsr.Lib

namespace Serializer

def writeBytes (bytes : List UInt8) : Serialize := fun b => b.append bytes

def write8 (value : UInt8) : Serialize := writeBytes [value]

def write16 (value : UInt16) : Serialize := writeBytes (BigEndian.toBytes 2 value.toNat)

def write32 (value : UInt32) : Serialize := writeBytes (BigEndian.toBytes 4 value.toNat)

def write64 (value : UInt64) : Serialize := writeBytes (BigEndian.toBytes 8 value.toNat)

def writef32 (bits : UInt32) : Serialize := write32 bits

def writef64 (bits : UInt64) : Serialize := write64 bits

/-- `is_within_size_limits`. -/
def isWithinSizeLimits (size : ℕ) : Bool := size < 255

def writeSize (size : ℕ) : Serialize :=
  SymbolWriter.guarded (isWithinSizeLimits size) (write8 (UInt8.ofNat size))

def writeRaw (bytes : List UInt8) : Serialize :=
  (writeSize bytes.length).andThen (writeBytes bytes)

def writeStr (text : Text) : Serialize := writeRaw text

/-- An array: its length, then its elements. -/
def writeArr {α : Type} (element : α → Serialize) (array : List α) : Serialize :=
  (writeSize array.length).andThen (SymbolWriter.each element array)

def writeArrI32 (array : List Int32) : Serialize := writeArr (fun n => write32 n.toUInt32) array

def writeArrI64 (array : List Int64) : Serialize := writeArr (fun n => write64 n.toUInt64) array

def writeArrF32 (array : List UInt32) : Serialize := writeArr writef32 array

def writeArrF64 (array : List UInt64) : Serialize := writeArr writef64 array

/-- `write_value`: the tag decides which member is read. A tag without its member
is only ever `integer64_array`. -/
def writeValue (behind : Behind) (v : Value) : Serialize :=
  match v.type, v.data with
  | .raw, .raw bytes => writeRaw bytes
  | .string, .string text => writeStr text
  | .boolean, .boolean bit => write8 (if bit then 1 else 0)
  | .integer32, .integer32 number => write32 number.toUInt32
  | .integer64, .integer64 number => write64 number.toUInt64
  | .floatingPoint32, .floatingPoint32 bits => writef32 bits
  | .floatingPoint64, .floatingPoint64 bits => writef64 bits
  | .integer32Array, .integer32Array numbers => writeArrI32 numbers
  | .integer64Array, _ => writeArrI64 (v.getInt64Array behind)
  | .floatingPoint32Array, .floatingPoint32Array bits => writeArrF32 bits
  | .floatingPoint64Array, .floatingPoint64Array bits => writeArrF64 bits
  | .empty, _ => SymbolWriter.done
  | _, _ => fun _ => none

/-! ## The buffer -/

open SymbolWriter

theorem keepsSize_writeBytes (bytes : List UInt8) : KeepsSize (writeBytes bytes) := by
  have hwrites : Writes (writeBytes bytes) bytes := fun _ => rfl
  exact hwrites.keepsSize

theorem keepsSize_writeRaw (bytes : List UInt8) : KeepsSize (writeRaw bytes) :=
  ((keepsSize_writeBytes _).guarded _).andThen (keepsSize_writeBytes bytes)

theorem keepsSize_writeArr {α : Type} {element : α → Serialize}
    (h : ∀ a, KeepsSize (element a)) (array : List α) : KeepsSize (writeArr element array) :=
  ((keepsSize_writeBytes _).guarded _).andThen (KeepsSize.each h array)

theorem keepsSize_writeValue (behind : Behind) (v : Value) : KeepsSize (writeValue behind v) := by
  unfold writeValue
  split
  case h_1 | h_2 => exact keepsSize_writeRaw _
  case h_8 | h_9 | h_10 | h_11 => exact keepsSize_writeArr (fun _ => keepsSize_writeBytes _) _
  case h_12 => exact writes_done.keepsSize
  case h_13 => exact Refuses.keepsSize fun _ => rfl
  all_goals exact keepsSize_writeBytes _

end Serializer

end Obsr.Io
