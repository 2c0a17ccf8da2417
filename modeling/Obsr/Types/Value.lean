/-
# Values

`obsr::value` is a type tag next to a union. The tag and the union are separate
fields here as well, because two of the array constructors set a tag that does
not belong to the union member they fill.

Floating point numbers are their bit patterns; strings and raw buffers are
bytes.
-/

import Mathlib

namespace Obsr

/-- Text as the source keeps it: a `std::string` is a sequence of bytes. -/
abbrev Text := List UInt8

/-- A handle of an object, an entry or a listener. -/
abbrev Handle := ℕ

def emptyHandle : Handle := 2 ^ 32 - 1

inductive ValueType
  | empty
  | raw
  | string
  | boolean
  | integer32
  | integer64
  | floatingPoint32
  | floatingPoint64
  | integer32Array
  | integer64Array
  | floatingPoint32Array
  | floatingPoint64Array
  deriving DecidableEq, Repr

/-- The exceptions of `obsr_except.h` that the modelled code throws. -/
inductive Exception
  | noSuchHandle (handle : Handle)
  | noSpace
  | entryTypeMismatch (entry : Handle) (actual new : ValueType)
  | dataExceedsSizeLimits
  deriving DecidableEq, Repr

namespace ValueType

/-- The enumerators in the order of the source. -/
def all : List ValueType :=
  [empty, raw, string, boolean, integer32, integer64, floatingPoint32, floatingPoint64,
    integer32Array, integer64Array, floatingPoint32Array, floatingPoint64Array]

def toByte : ValueType → UInt8
  | empty => 0
  | raw => 1
  | string => 2
  | boolean => 3
  | integer32 => 4
  | integer64 => 5
  | floatingPoint32 => 6
  | floatingPoint64 => 7
  | integer32Array => 8
  | integer64Array => 9
  | floatingPoint32Array => 10
  | floatingPoint64Array => 11

/-- The enumerator a byte stands for, if it is one. -/
def ofByte (byte : UInt8) : Option ValueType :=
  all.find? (·.toByte = byte)

@[simp]
theorem ofByte_toByte (type : ValueType) : ofByte type.toByte = some type := by
  cases type <;> rfl

end ValueType

/-- The union of `obsr::value`, by the member that was written last. -/
inductive Payload
  | none
  | raw (bytes : List UInt8)
  | string (text : Text)
  | boolean (bit : Bool)
  | integer32 (number : Int32)
  | integer64 (number : Int64)
  | floatingPoint32 (bits : UInt32)
  | floatingPoint64 (bits : UInt64)
  | integer32Array (numbers : List Int32)
  | integer64Array (numbers : List Int64)
  | floatingPoint32Array (bits : List UInt32)
  | floatingPoint64Array (bits : List UInt64)
  deriving DecidableEq, Repr

structure Value where
  type : ValueType
  data : Payload
  deriving DecidableEq, Repr

namespace Value

/-- `verify_within_size_limits`: what an array member may hold. -/
def withinSizeLimits (size : ℕ) : Bool := size < 255

/-- `create_array` followed by the assignment of tag and member. -/
def ofArray {α : Type} (type : ValueType) (member : List α → Payload) (array : List α) :
    Except Exception Value :=
  if withinSizeLimits array.length then
    .ok ⟨type, member array⟩
  else
    .error .dataExceedsSizeLimits

def make : Value := ⟨.empty, .none⟩

def makeRaw (bytes : List UInt8) : Except Exception Value := ofArray .raw .raw bytes

def makeString (text : Text) : Except Exception Value := ofArray .string .string text

def makeBoolean (bit : Bool) : Value := ⟨.boolean, .boolean bit⟩

def makeInt32 (number : Int32) : Value := ⟨.integer32, .integer32 number⟩

/-- Constructed with the tag `floating_point64`, which `set_int64` corrects. -/
def makeInt64 (number : Int64) : Value := ⟨.integer64, .integer64 number⟩

def makeFloat (bits : UInt32) : Value := ⟨.floatingPoint32, .floatingPoint32 bits⟩

def makeDouble (bits : UInt64) : Value := ⟨.floatingPoint64, .floatingPoint64 bits⟩

def makeInt32Array (numbers : List Int32) : Except Exception Value :=
  ofArray .integer32Array .integer32Array numbers

def makeInt64Array (numbers : List Int64) : Except Exception Value :=
  ofArray .integer64Array .integer64Array numbers

/-- `set_float_array` leaves the tag `integer64_array`. -/
def makeFloatArray (bits : List UInt32) : Except Exception Value :=
  ofArray .integer64Array .floatingPoint32Array bits

/-- `set_double_array` leaves the tag `integer64_array`. -/
def makeDoubleArray (bits : List UInt64) : Except Exception Value :=
  ofArray .integer64Array .floatingPoint64Array bits

@[simp]
theorem type_make : make.type = .empty := rfl

end Value

end Obsr
