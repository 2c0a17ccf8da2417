/-
# Messages

The header of a frame, the message types and the data of outgoing and incoming
messages (`net/serialize.h`).
-/

import Obsr.Lib.BigEndian
import Obsr.Storage.Entry

namespace Obsr.Net

open Obsr.Lib

/-- The packed header of a frame, in host byte order. -/
structure MessageHeader where
  magic : UInt8
  version : UInt8
  index : UInt32
  type : UInt8
  messageSize : UInt32
  deriving DecidableEq, Repr

namespace MessageHeader

def messageMagic : UInt8 := 0x29

def currentVersion : UInt8 := 0x1

/-- `sizeof(message_header)`; the structure is packed. -/
def sizeOf : ℕ := 11

/-- The bytes of a header after `header_convert_net`. -/
def toBytes (header : MessageHeader) : List UInt8 :=
  [header.magic, header.version] ++ BigEndian.toBytes 4 header.index.toNat ++
    [header.type] ++ BigEndian.toBytes 4 header.messageSize.toNat

/-- The header in a list of bytes after `header_convert_host`. -/
def ofBytes (bytes : List UInt8) : MessageHeader where
  magic := bytes.getD 0 0
  version := bytes.getD 1 0
  index := UInt32.ofNat (BigEndian.ofBytes ((bytes.drop 2).take 4))
  type := bytes.getD 6 0
  messageSize := UInt32.ofNat (BigEndian.ofBytes ((bytes.drop 7).take 4))

@[simp]
theorem length_toBytes (header : MessageHeader) : header.toBytes.length = sizeOf := by
  simp [toBytes, sizeOf]

theorem ofNat_ofBytes_toBytes (n : UInt32) :
    UInt32.ofNat (BigEndian.ofBytes (BigEndian.toBytes 4 n.toNat)) = n := by
  rw [BigEndian.ofBytes_toBytes n.toNat_lt]
  exact UInt32.ofNat_toNat

/-- A header is read back from its bytes. -/
@[simp]
theorem ofBytes_toBytes (header : MessageHeader) : ofBytes header.toBytes = header := by
  obtain ⟨magic, version, index, type, messageSize⟩ := header
  have hindex : (BigEndian.toBytes 4 index.toNat).length = 4 := by simp
  have hsize : (BigEndian.toBytes 4 messageSize.toNat).length = 4 := by simp
  obtain ⟨i₀, i₁, i₂, i₃, hi⟩ := List.length_eq_four.mp hindex
  obtain ⟨s₀, s₁, s₂, s₃, hs⟩ := List.length_eq_four.mp hsize
  have hindexBack := ofNat_ofBytes_toBytes index
  have hsizeBack := ofNat_ofBytes_toBytes messageSize
  rw [hi] at hindexBack
  rw [hs] at hsizeBack
  simp [toBytes, ofBytes, hi, hs, hindexBack, hsizeBack]

theorem toBytes_ofNat_ofBytes {bytes : List UInt8} (h : bytes.length = 4) :
    BigEndian.toBytes 4 (UInt32.ofNat (BigEndian.ofBytes bytes)).toNat = bytes := by
  have hlt := BigEndian.ofBytes_lt bytes
  rw [h] at hlt
  rw [UInt32.toNat_ofNat_of_lt' hlt, ← h, BigEndian.toBytes_ofBytes]

/-- Any bytes of the right number are those of a header. -/
theorem toBytes_ofBytes {bytes : List UInt8} (h : bytes.length = sizeOf) :
    (ofBytes bytes).toBytes = bytes := by
  match bytes, h with
  | [b₀, b₁, b₂, b₃, b₄, b₅, b₆, b₇, b₈, b₉, b₁₀], _ =>
      have hindex := @toBytes_ofNat_ofBytes [b₂, b₃, b₄, b₅] rfl
      have hsize := @toBytes_ofNat_ofBytes [b₇, b₈, b₉, b₁₀] rfl
      show [b₀, b₁] ++ BigEndian.toBytes 4 (UInt32.ofNat (BigEndian.ofBytes
        [b₂, b₃, b₄, b₅])).toNat ++ [b₆] ++ BigEndian.toBytes 4 (UInt32.ofNat
          (BigEndian.ofBytes [b₇, b₈, b₉, b₁₀])).toNat = _
      rw [hindex, hsize]
      rfl

end MessageHeader

/-- `message_type`; any other byte can be cast to it as well. -/
inductive MessageType
  | noType
  | entryCreate
  | entryUpdate
  | entryDelete
  | entryIdAssign
  | handshakeFinished
  | handshakeReady
  | timeSyncRequest
  | timeSyncResponse
  | unknown (byte : UInt8)
  deriving DecidableEq, Repr

namespace MessageType

def ofByte (byte : UInt8) : MessageType :=
  if byte = 0 then noType
  else if byte = 1 then entryCreate
  else if byte = 2 then entryUpdate
  else if byte = 3 then entryDelete
  else if byte = 4 then entryIdAssign
  else if byte = 5 then handshakeFinished
  else if byte = 6 then handshakeReady
  else if byte = 7 then timeSyncRequest
  else if byte = 8 then timeSyncResponse
  else unknown byte

def toByte : MessageType → UInt8
  | noType => 0
  | entryCreate => 1
  | entryUpdate => 2
  | entryDelete => 3
  | entryIdAssign => 4
  | handshakeFinished => 5
  | handshakeReady => 6
  | timeSyncRequest => 7
  | timeSyncResponse => 8
  | unknown byte => byte

end MessageType

/-- What a parser collects out of incoming messages. -/
structure ParseData where
  sendTime : ℤ
  id : EntryId
  name : Text
  type : UInt8
  value : Value
  timeValue : ℤ
  deriving DecidableEq, Repr

/-- `out_message`; a constructor of the class fills the members of its type and
leaves the others at their defaults. -/
structure OutMessage where
  type : MessageType := .noType
  id : EntryId := 0
  name : Text := []
  value : Value := Value.make
  time : ℤ := 0
  sendTime : ℤ := 0
  deriving DecidableEq, Repr

namespace OutMessage

def empty : OutMessage := {}

def entryCreate (sendTime : ℤ) (name : Text) (value : Value) : OutMessage :=
  { type := .entryCreate, sendTime, name, value }

def entryUpdate (sendTime : ℤ) (id : EntryId) (value : Value) : OutMessage :=
  { type := .entryUpdate, sendTime, id, value }

def entryDeleted (sendTime : ℤ) (id : EntryId) : OutMessage :=
  { type := .entryDelete, sendTime, id }

def entryIdAssign (id : EntryId) (name : Text) : OutMessage :=
  { type := .entryIdAssign, id, name }

def handshakeReady : OutMessage := { type := .handshakeReady }

def handshakeFinished : OutMessage := { type := .handshakeFinished }

def timeSyncRequest (sendTime : ℤ) : OutMessage := { type := .timeSyncRequest, sendTime }

def timeSyncResponse (sendTime time : ℤ) : OutMessage :=
  { type := .timeSyncResponse, sendTime, time }

end OutMessage

/-! ## The queue of outgoing messages -/

/-- `m_outgoing` of a `message_queue`. -/
abbrev MessageQueue := List OutMessage

namespace MessageQueue

/-- `enqueue` without flags. -/
def enqueue (queue : MessageQueue) (message : OutMessage) : MessageQueue :=
  queue ++ [message]

/-- `enqueue` with `flag_immediate`: a message that cannot be written at once goes
to the front. -/
def enqueueImmediate (queue : MessageQueue) (message : OutMessage) (written : Bool) :
    MessageQueue :=
  if written then queue else message :: queue

/-- Write messages until one is refused; the destination has a state of its
own. -/
def process {δ : Type} (destination : OutMessage → δ → Bool × δ) :
    MessageQueue → δ → MessageQueue × δ
  | [], d => ([], d)
  | message :: queue, d =>
      match destination message d with
      | (true, d) => process destination queue d
      | (false, d) => (message :: queue, d)

end MessageQueue

end Obsr.Net
