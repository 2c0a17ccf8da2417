/-
# Values on the wire

What the serializer writes for a value, and what the deserializer makes of it. A
value comes back as it was built, but for the types the source confuses: a double
keeps only its low half, and the arrays of floating point numbers travel under
the tag of `integer64_array`.
-/

import Obsr.Io.Deserializer
import Obsr.Io.Serializer

namespace Obsr.Io

open Obsr.Lib SymbolWriter SymbolReader

namespace Serializer

/-! ## What is written -/

theorem writes_writeBytes (bytes : List UInt8) : Writes (writeBytes bytes) bytes := fun _ => rfl

theorem writes_writeSize {size : ℕ} (h : size < 255) :
    Writes (writeSize size) [UInt8.ofNat size] := by
  have haccepts : isWithinSizeLimits size = true := decide_eq_true h
  unfold writeSize
  rw [haccepts]
  exact (writes_writeBytes _).guarded

theorem writes_writeRaw {bytes : List UInt8} (h : bytes.length < 255) :
    Writes (writeRaw bytes) (UInt8.ofNat bytes.length :: bytes) :=
  (writes_writeSize h).andThen (writes_writeBytes bytes)

theorem writes_writeArr {α : Type} {element : α → Serialize} {encode : α → List UInt8}
    (helement : ∀ a, Writes (element a) (encode a)) {array : List α} (h : array.length < 255) :
    Writes (writeArr element array) (UInt8.ofNat array.length :: array.flatMap encode) :=
  (writes_writeSize h).andThen (Writes.each helement array)

/-- Beyond the limit nothing is written. -/
theorem refuses_writeStr {text : Text} (h : 255 ≤ text.length) : Refuses (writeStr text) := by
  have hlimit : isWithinSizeLimits text.length = false := decide_eq_false (Nat.not_lt_of_le h)
  have hsize : Refuses (writeSize text.length) := by
    unfold writeSize
    rw [hlimit]
    exact refuses_guarded _
  exact hsize.andThen _

end Serializer

namespace Deserializer

/-! ## What is read -/

theorem reads_readBytes (bytes : List UInt8) : Reads (readBytes bytes.length) bytes bytes := by
  intro rest
  unfold readBytes
  rw [if_neg (by simp), List.take_left, List.drop_left]

/-- Reading a number gives back what was written of it. -/
theorem reads_number {α : Type} (width : ℕ) (ofNat : ℕ → α) (n : ℕ) (h : n < 256 ^ width) :
    Reads (do return ofNat (BigEndian.ofBytes (← readBytes width))) (BigEndian.toBytes width n)
      (ofNat n) := by
  have hbytes := reads_readBytes (BigEndian.toBytes width n)
  rw [BigEndian.length_toBytes] at hbytes
  have hnumber := hbytes.map fun bytes => ofNat (BigEndian.ofBytes bytes)
  rw [BigEndian.ofBytes_toBytes h] at hnumber
  exact hnumber

theorem reads_read8 (byte : UInt8) : Reads read8 [byte] byte := by
  have hnumber := reads_number 1 UInt8.ofNat byte.toNat byte.toNat_lt
  simp only [BigEndian.toBytes, List.nil_append, UInt8.ofNat_toNat] at hnumber
  exact hnumber

theorem reads_read16 (n : UInt16) : Reads read16 (BigEndian.toBytes 2 n.toNat) n := by
  have hnumber := reads_number 2 UInt16.ofNat n.toNat n.toNat_lt
  rwa [UInt16.ofNat_toNat] at hnumber

theorem reads_read32 (n : UInt32) : Reads read32 (BigEndian.toBytes 4 n.toNat) n := by
  have hnumber := reads_number 4 UInt32.ofNat n.toNat n.toNat_lt
  rwa [UInt32.ofNat_toNat] at hnumber

theorem reads_read64 (n : UInt64) : Reads read64 (BigEndian.toBytes 8 n.toNat) n := by
  have hnumber := reads_number 8 UInt64.ofNat n.toNat n.toNat_lt
  rwa [UInt64.ofNat_toNat] at hnumber

/-- The high half of a double is lost. -/
theorem reads_readf64 (bits : UInt64) :
    Reads readf64 (BigEndian.toBytes 8 bits.toNat) bits.toUInt32.toUInt64 :=
  (reads_read64 bits).map fun bits => bits.toUInt32.toUInt64

theorem reads_readSize {size : ℕ} (h : size < 255) :
    Reads readSize [UInt8.ofNat size] size := by
  have hbyte := (reads_read8 (UInt8.ofNat size)).map UInt8.toNat
  rw [UInt8.toNat_ofNat_of_lt' (h.trans (by decide))] at hbyte
  exact hbyte

theorem reads_readRaw {bytes : List UInt8} (h : bytes.length < 255) :
    Reads readRaw (UInt8.ofNat bytes.length :: bytes) bytes :=
  (reads_readSize h).bind (reads_readBytes bytes)

theorem reads_readElements {α β : Type} {element : Deserialize α} {encode : β → List UInt8}
    {decode : β → α} (h : ∀ b, Reads element (encode b) (decode b)) (array : List β) :
    Reads (readElements element array.length) (array.flatMap encode) (array.map decode) := by
  induction array with
  | nil => exact reads_pure []
  | cons b array ih =>
      have hrest := ih.map fun rest => decode b :: rest
      exact (h b).bind hrest

theorem reads_readArr {α β : Type} {element : Deserialize α} {encode : β → List UInt8}
    {decode : β → α} (helement : ∀ b, Reads element (encode b) (decode b)) {array : List β}
    (h : array.length < 255) :
    Reads (readArr element) (UInt8.ofNat array.length :: array.flatMap encode)
      (array.map decode) :=
  (reads_readSize h).bind (reads_readElements helement array)

theorem construct_of_reads {α : Type} {make : α → Except Exception Value}
    {reader : Deserialize α} {bytes : List UInt8} {a : α} {v : Value}
    (h : Reads reader bytes a) (hmake : make a = .ok v) (rest : List UInt8) :
    construct make reader (bytes ++ rest) = .ok (some (v, rest)) := by
  unfold construct
  rw [h rest]
  simp only [hmake]
  rfl

theorem construct_ok {α : Type} (make : α → Value) {reader : Deserialize α}
    {bytes : List UInt8} {a : α} (h : Reads reader bytes a) (rest : List UInt8) :
    construct (fun a => .ok (make a)) reader (bytes ++ rest) = .ok (some (make a, rest)) :=
  construct_of_reads h rfl rest

end Deserializer

/-! ## Values -/

/-- A constructor of `value` with what it is given. -/
inductive Construction
  | make
  | makeRaw (bytes : List UInt8)
  | makeString (text : Text)
  | makeBoolean (bit : Bool)
  | makeInt32 (number : Int32)
  | makeInt64 (number : Int64)
  | makeFloat (bits : UInt32)
  | makeDouble (bits : UInt64)
  | makeInt32Array (numbers : List Int32)
  | makeInt64Array (numbers : List Int64)
  | makeFloatArray (bits : List UInt32)
  | makeDoubleArray (bits : List UInt64)
  deriving DecidableEq, Repr

namespace Construction

def build : Construction → Except Exception Value
  | make => .ok Value.make
  | makeRaw bytes => Value.makeRaw bytes
  | makeString text => Value.makeString text
  | makeBoolean bit => .ok (Value.makeBoolean bit)
  | makeInt32 number => .ok (Value.makeInt32 number)
  | makeInt64 number => .ok (Value.makeInt64 number)
  | makeFloat bits => .ok (Value.makeFloat bits)
  | makeDouble bits => .ok (Value.makeDouble bits)
  | makeInt32Array numbers => Value.makeInt32Array numbers
  | makeInt64Array numbers => Value.makeInt64Array numbers
  | makeFloatArray bits => Value.makeFloatArray bits
  | makeDoubleArray bits => Value.makeDoubleArray bits

/-- The type a constructor names. -/
def type : Construction → ValueType
  | make => .empty
  | makeRaw _ => .raw
  | makeString _ => .string
  | makeBoolean _ => .boolean
  | makeInt32 _ => .integer32
  | makeInt64 _ => .integer64
  | makeFloat _ => .floatingPoint32
  | makeDouble _ => .floatingPoint64
  | makeInt32Array _ => .integer32Array
  | makeInt64Array _ => .integer64Array
  | makeFloatArray _ => .floatingPoint32Array
  | makeDoubleArray _ => .floatingPoint64Array

/-- What a constructor was given. -/
def payload : Construction → Payload
  | make => .none
  | makeRaw bytes => .raw bytes
  | makeString text => .string text
  | makeBoolean bit => .boolean bit
  | makeInt32 number => .integer32 number
  | makeInt64 number => .integer64 number
  | makeFloat bits => .floatingPoint32 bits
  | makeDouble bits => .floatingPoint64 bits
  | makeInt32Array numbers => .integer32Array numbers
  | makeInt64Array numbers => .integer64Array numbers
  | makeFloatArray bits => .floatingPoint32Array bits
  | makeDoubleArray bits => .floatingPoint64Array bits

/-- The value named and given. -/
def value (c : Construction) : Value := ⟨c.type, c.payload⟩

/-- An array with its length in front. -/
def arrayBytes {α : Type} (encode : α → List UInt8) (array : List α) : List UInt8 :=
  UInt8.ofNat array.length :: array.flatMap encode

/-- The bytes `write_value` writes. -/
def bytes (behind : Behind) : Construction → List UInt8
  | make => []
  | makeRaw bytes => UInt8.ofNat bytes.length :: bytes
  | makeString text => UInt8.ofNat text.length :: text
  | makeBoolean bit => [if bit then 1 else 0]
  | makeInt32 number => BigEndian.toBytes 4 number.toUInt32.toNat
  | makeInt64 number => BigEndian.toBytes 8 number.toUInt64.toNat
  | makeFloat bits => BigEndian.toBytes 4 bits.toNat
  | makeDouble bits => BigEndian.toBytes 8 bits.toNat
  | makeInt32Array numbers =>
      arrayBytes (fun n => BigEndian.toBytes 4 n.toUInt32.toNat) numbers
  | makeInt64Array numbers =>
      arrayBytes (fun n => BigEndian.toBytes 8 n.toUInt64.toNat) numbers
  | makeFloatArray bits =>
      arrayBytes (fun n => BigEndian.toBytes 8 n.toUInt64.toNat)
        (Value.int64sOfFloats behind bits)
  | makeDoubleArray bits =>
      arrayBytes (fun n => BigEndian.toBytes 8 n.toUInt64.toNat) (bits.map UInt64.toInt64)

/-- The value `read_value` returns for these bytes. -/
def readBack (behind : Behind) : Construction → Value
  | makeDouble bits => ⟨.floatingPoint64, .floatingPoint64 bits.toUInt32.toUInt64⟩
  | makeFloatArray bits =>
      ⟨.integer64Array, .integer64Array (Value.int64sOfFloats behind bits)⟩
  | makeDoubleArray bits => ⟨.integer64Array, .integer64Array (bits.map UInt64.toInt64)⟩
  | c => c.value

/-- The constructors that throw on an array that is too long. -/
theorem ofArray_eq_ok {α : Type} {type : ValueType} {member : List α → Payload}
    {array : List α} {v : Value} (h : Value.ofArray type member array = .ok v) :
    array.length < 255 ∧ v = ⟨type, member array⟩ := by
  unfold Value.ofArray at h
  split_ifs at h with hsize
  · exact ⟨of_decide_eq_true hsize, (Except.ok.inj h).symm⟩

theorem ofArray_of_lt {α : Type} (type : ValueType) (member : List α → Payload)
    {array : List α} (h : array.length < 255) :
    Value.ofArray type member array = .ok ⟨type, member array⟩ :=
  if_pos (decide_eq_true h)

@[simp]
theorem length_int64sOfFloats (behind : Behind) (bits : List UInt32) :
    (Value.int64sOfFloats behind bits).length = bits.length := by
  simp [Value.int64sOfFloats]

theorem writes_writeValue (c : Construction) {v : Value} (h : c.build = .ok v)
    (behind : Behind) : Writes (Serializer.writeValue behind v) (c.bytes behind) := by
  cases c with
  | make =>
      cases h
      exact writes_done
  | makeRaw bytes =>
      obtain ⟨hlength, rfl⟩ := ofArray_eq_ok h
      exact Serializer.writes_writeRaw hlength
  | makeString text =>
      obtain ⟨hlength, rfl⟩ := ofArray_eq_ok h
      exact Serializer.writes_writeRaw hlength
  | makeBoolean bit => cases h; exact Serializer.writes_writeBytes _
  | makeInt32 number => cases h; exact Serializer.writes_writeBytes _
  | makeInt64 number => cases h; exact Serializer.writes_writeBytes _
  | makeFloat bits => cases h; exact Serializer.writes_writeBytes _
  | makeDouble bits => cases h; exact Serializer.writes_writeBytes _
  | makeInt32Array numbers =>
      obtain ⟨hlength, rfl⟩ := ofArray_eq_ok h
      exact Serializer.writes_writeArr (fun n => Serializer.writes_writeBytes _) hlength
  | makeInt64Array numbers =>
      obtain ⟨hlength, rfl⟩ := ofArray_eq_ok h
      exact Serializer.writes_writeArr (fun n => Serializer.writes_writeBytes _) hlength
  | makeFloatArray bits =>
      obtain ⟨hlength, rfl⟩ := ofArray_eq_ok h
      exact Serializer.writes_writeArr (fun n => Serializer.writes_writeBytes _)
        ((length_int64sOfFloats behind bits).trans_lt hlength)
  | makeDoubleArray bits =>
      obtain ⟨hlength, rfl⟩ := ofArray_eq_ok h
      exact Serializer.writes_writeArr (fun n => Serializer.writes_writeBytes _)
        (by simpa [Value.getInt64Array] using hlength)

open Deserializer in
theorem reads_readArrI32 {numbers : List Int32} (h : numbers.length < 255) :
    Reads readArrI32 (arrayBytes (fun n => BigEndian.toBytes 4 n.toUInt32.toNat) numbers)
      numbers := by
  have helement : ∀ n : Int32, Reads (UInt32.toInt32 <$> read32)
      (BigEndian.toBytes 4 n.toUInt32.toNat) (id n) := fun n =>
    (reads_read32 n.toUInt32).map UInt32.toInt32
  have harray := reads_readArr helement h
  rwa [List.map_id] at harray

open Deserializer in
theorem reads_readArrI64 {numbers : List Int64} (h : numbers.length < 255) :
    Reads readArrI64 (arrayBytes (fun n => BigEndian.toBytes 8 n.toUInt64.toNat) numbers)
      numbers := by
  have helement : ∀ n : Int64, Reads (UInt64.toInt64 <$> read64)
      (BigEndian.toBytes 8 n.toUInt64.toNat) (id n) := fun n =>
    (reads_read64 n.toUInt64).map UInt64.toInt64
  have harray := reads_readArr helement h
  rwa [List.map_id] at harray

open Deserializer in
theorem readValue_bytes (c : Construction) {v : Value} (h : c.build = .ok v)
    (behind : Behind) (rest : List UInt8) :
    readValue v.type.toByte (c.bytes behind ++ rest) =
      .ok (some (c.readBack behind, rest)) := by
  cases c with
  | make => cases h; rfl
  | makeRaw bytes =>
      obtain ⟨hlength, rfl⟩ := ofArray_eq_ok h
      exact construct_of_reads (reads_readRaw hlength) (ofArray_of_lt _ _ hlength) rest
  | makeString text =>
      obtain ⟨hlength, rfl⟩ := ofArray_eq_ok h
      exact construct_of_reads (reads_readRaw hlength) (ofArray_of_lt _ _ hlength) rest
  | makeBoolean bit =>
      cases h
      have hread := construct_ok (fun byte => Value.makeBoolean (byte != 0))
        (reads_read8 (if bit then 1 else 0)) rest
      cases bit <;> exact hread
  | makeInt32 number =>
      cases h
      exact construct_ok (fun n => Value.makeInt32 n.toInt32) (reads_read32 number.toUInt32) rest
  | makeInt64 number =>
      cases h
      exact construct_ok (fun n => Value.makeInt64 n.toInt64) (reads_read64 number.toUInt64) rest
  | makeFloat bits => cases h; exact construct_ok Value.makeFloat (reads_read32 bits) rest
  | makeDouble bits => cases h; exact construct_ok Value.makeDouble (reads_readf64 bits) rest
  | makeInt32Array numbers =>
      obtain ⟨hlength, rfl⟩ := ofArray_eq_ok h
      exact construct_of_reads (reads_readArrI32 hlength) (ofArray_of_lt _ _ hlength) rest
  | makeInt64Array numbers =>
      obtain ⟨hlength, rfl⟩ := ofArray_eq_ok h
      exact construct_of_reads (reads_readArrI64 hlength) (ofArray_of_lt _ _ hlength) rest
  | makeFloatArray bits =>
      obtain ⟨hlength, rfl⟩ := ofArray_eq_ok h
      have hcount := (length_int64sOfFloats behind bits).trans_lt hlength
      exact construct_of_reads (reads_readArrI64 hcount) (ofArray_of_lt _ _ hcount) rest
  | makeDoubleArray bits =>
      obtain ⟨hlength, rfl⟩ := ofArray_eq_ok h
      have hcount : (bits.map UInt64.toInt64).length < 255 := by rwa [List.length_map]
      exact construct_of_reads (reads_readArrI64 hcount) (ofArray_of_lt _ _ hcount) rest

/-! ## The round trip -/

/-- Whenever the serializer writes the value the constructor has built, the
deserializer takes just these bytes and returns what the constructor was given,
under the type it names. -/
def RoundTrips (c : Construction) (v : Value) : Prop :=
  ∀ (behind : Behind) (b b' : LinearBuffer) (rest : List UInt8),
    Serializer.writeValue behind v b = some b' →
      ∃ bytes, b'.written = b.written ++ bytes ∧
        Deserializer.readValue v.type.toByte (bytes ++ rest) = .ok (some (c.value, rest))

/-- The constructors whose values survive: all but those of the floating point
arrays, and doubles only without a high half. -/
def Survives : Construction → Prop
  | makeDouble bits => bits.toNat < 2 ^ 32
  | makeFloatArray _ => False
  | makeDoubleArray _ => False
  | _ => True

theorem readBack_eq_value_iff (c : Construction) (behind : Behind) :
    c.readBack behind = c.value ↔ c.Survives := by
  cases c with
  | makeDouble bits =>
      simp only [readBack, value, type, payload, Survives, Value.mk.injEq,
        Payload.floatingPoint64.injEq, true_and]
      rw [← UInt64.toNat_inj, UInt32.toNat_toUInt64, UInt64.toNat_toUInt32]
      exact Nat.mod_eq_iff_lt (by decide)
  | makeFloatArray bits => simp [readBack, value, type, Survives]
  | makeDoubleArray bits => simp [readBack, value, type, Survives]
  | _ => simp [readBack, Survives]

/-- The value built is the one named and given, if it survives. -/
theorem value_of_build {c : Construction} {v : Value} (h : c.build = .ok v)
    (hsurvives : c.Survives) : c.value = v := by
  cases c with
  | makeFloatArray bits => exact absurd hsurvives id
  | makeDoubleArray bits => exact absurd hsurvives id
  | makeRaw bytes => exact (ofArray_eq_ok h).2.symm
  | makeString text => exact (ofArray_eq_ok h).2.symm
  | makeInt32Array numbers => exact (ofArray_eq_ok h).2.symm
  | makeInt64Array numbers => exact (ofArray_eq_ok h).2.symm
  | _ => exact Except.ok.inj h

/-- A value comes back as it was exactly if its construction is one that survives: the type
is read as it is written, and no bit of a number is lost. -/
theorem roundTrips_iff_survives (c : Construction) {v : Value} (h : c.build = .ok v) :
    c.RoundTrips v ↔ c.Survives := by
  have hwrites := writes_writeValue c h
  constructor
  · intro htrips
    have hbuffer : Serializer.writeValue (fun _ => 0) v
        (BoundedBuffer.empty (c.bytes fun _ => 0).length) = some _ :=
      (hwrites _ _).trans (BoundedBuffer.append_of_le (by simp [BoundedBuffer.empty]))
    obtain ⟨bytes, hbytes, hread⟩ := htrips _ _ _ [] hbuffer
    obtain rfl : c.bytes (fun _ => 0) = bytes := by simpa [BoundedBuffer.empty] using hbytes
    rw [readValue_bytes c h] at hread
    apply (readBack_eq_value_iff c fun _ => 0).mp
    exact (Prod.mk.inj (Option.some.inj (Except.ok.inj hread))).1
  · intro hsurvives behind b b' rest hwrite
    rw [hwrites behind b] at hwrite
    refine ⟨c.bytes behind, (BoundedBuffer.written_of_append hwrite).1, ?_⟩
    rw [readValue_bytes c h, (readBack_eq_value_iff c behind).mpr hsurvives]

/-- An array of two numbers, one of them negative, which survives. -/
theorem roundTrips_int64Array :
    (makeInt64Array [1, -1]).RoundTrips ⟨.integer64Array, .integer64Array [1, -1]⟩ ↔
      (makeInt64Array [1, -1]).Survives :=
  roundTrips_iff_survives (makeInt64Array [1, -1]) rfl

/-- The double 1.0 has its bits in the high half, and comes back as 0.0. -/
theorem not_roundTrips_one :
    ¬ ∀ (c : Construction) (v : Value), c.build = .ok v → c.RoundTrips v := by
  intro hall
  obtain ⟨bytes, hbytes, hread⟩ := hall (makeDouble 0x3FF0000000000000) _ rfl (fun _ => 0)
    (BoundedBuffer.empty 8) _ [] rfl
  obtain rfl : [0x3F, 0xF0, 0, 0, 0, 0, 0, 0] = bytes := hbytes
  have hzero : Deserializer.readValue 7 [0x3F, 0xF0, 0, 0, 0, 0, 0, 0] =
      .ok (some (⟨.floatingPoint64, .floatingPoint64 0⟩, [])) := rfl
  have hsame := Except.ok.inj (hzero.symm.trans hread)
  exact absurd hsame (by decide)

end Construction

end Obsr.Io
