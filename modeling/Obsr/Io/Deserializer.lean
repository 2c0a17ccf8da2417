/-
# The deserializer

`deserializer` reads typed data out of a `readonly_buffer_view`. The view is the
list of the bytes not read yet; a read that does not find enough of them fails,
and the readers never look at what a failed read left behind.
-/

import Obsr.Lib.BigEndian
import Obsr.Types.Value

namespace Obsr.Io

open Obsr.Lib

/-- A reader takes bytes off the front of the view or fails. -/
abbrev Deserialize (α : Type) := StateT (List UInt8) Option α

namespace Deserializer

/-- `readonly_buffer_view::read`. -/
def readBytes (size : ℕ) : Deserialize (List UInt8) := fun view =>
  if size > view.length then none else some (view.take size, view.drop size)

def read8 : Deserialize UInt8 := do
  return UInt8.ofNat (BigEndian.ofBytes (← readBytes 1))

def read16 : Deserialize UInt16 := do
  return UInt16.ofNat (BigEndian.ofBytes (← readBytes 2))

def read32 : Deserialize UInt32 := do
  return UInt32.ofNat (BigEndian.ofBytes (← readBytes 4))

def read64 : Deserialize UInt64 := do
  return UInt64.ofNat (BigEndian.ofBytes (← readBytes 8))

def readf32 : Deserialize UInt32 := read32

/-- The union that reinterprets the bits has a 32-bit integer member, so only
the low half of what was read arrives in the double. -/
def readf64 : Deserialize UInt64 := do
  return (← read64).toUInt32.toUInt64

def readSize : Deserialize ℕ := do
  return (← read8).toNat

def readRaw : Deserialize (List UInt8) := do
  readBytes (← readSize)

def readStr : Deserialize Text := readRaw

/-- The element loop of the array readers. -/
def readElements {α : Type} (element : Deserialize α) : ℕ → Deserialize (List α)
  | 0 => return []
  | count + 1 => do
      let first ← element
      let rest ← readElements element count
      return first :: rest

/-- An array: its length, then its elements. -/
def readArr {α : Type} (element : Deserialize α) : Deserialize (List α) := do
  readElements element (← readSize)

def readArrI32 : Deserialize (List Int32) := readArr (UInt32.toInt32 <$> read32)

def readArrI64 : Deserialize (List Int64) := readArr (UInt64.toInt64 <$> read64)

def readArrF32 : Deserialize (List UInt32) := readArr readf32

def readArrF64 : Deserialize (List UInt64) := readArr readf64

/-- Build a value out of what was read; only the constructor can throw. -/
def construct {α : Type} (make : α → Except Exception Value) (reader : Deserialize α)
    (view : List UInt8) : Except Exception (Option (Value × List UInt8)) :=
  match reader view with
  | none => .ok none
  | some (read, rest) => (make read).map fun value => some (value, rest)

/-- `read_value(type)`, with the type as the raw byte of the message. -/
def readValue (type : UInt8) (view : List UInt8) :
    Except Exception (Option (Value × List UInt8)) :=
  match ValueType.ofByte type with
  | some .raw => construct Value.makeRaw readRaw view
  | some .string => construct Value.makeString readStr view
  | some .boolean => construct (fun byte => .ok (Value.makeBoolean (byte != 0))) read8 view
  | some .integer32 =>
      construct (fun number => .ok (Value.makeInt32 number.toInt32)) read32 view
  | some .integer64 =>
      construct (fun number => .ok (Value.makeInt64 number.toInt64)) read64 view
  | some .floatingPoint32 => construct (fun bits => .ok (Value.makeFloat bits)) readf32 view
  | some .floatingPoint64 => construct (fun bits => .ok (Value.makeDouble bits)) readf64 view
  | some .integer32Array => construct Value.makeInt32Array readArrI32 view
  | some .integer64Array => construct Value.makeInt64Array readArrI64 view
  | some .floatingPoint32Array => construct Value.makeFloatArray readArrF32 view
  | some .floatingPoint64Array => construct Value.makeDoubleArray readArrF64 view
  | some .empty => .ok (some (Value.make, view))
  | none => .ok none

end Deserializer

end Obsr.Io
