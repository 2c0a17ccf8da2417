/-
# Storage entries

One entry of the storage with the two changes that can be made to it. The
storage finds the entry of a handle and calls these; everything
`set_entry_internal` and `delete_entry_internal` decide, they decide on the
entry alone. An entry knows the handle it is found under.
-/

import Obsr.Types.Value

namespace Obsr

/-- The number the network knows an entry by. -/
abbrev EntryId := UInt16

def idNotAssigned : EntryId := 0xFFFF

inductive EventType
  | created
  | deleted
  | valueChanged
  deriving DecidableEq, Repr

/-- An event for the listeners. -/
structure Event where
  timestamp : ℤ
  type : EventType
  path : Text
  entry : Handle
  oldValue : Value := Value.make
  value : Value := Value.make
  deriving DecidableEq, Repr

/-- The flags are the three internal ones; the code sets no other bit. -/
structure StorageEntry where
  handle : Handle
  path : Text
  value : Value := Value.make
  lastUpdateTimestamp : ℤ := 0
  netId : EntryId := idNotAssigned
  dirty : Bool := false
  deleted : Bool := false
  created : Bool := false
  deriving DecidableEq, Repr

namespace StorageEntry

/-- `is_in`: the path occurs somewhere in that of the entry. -/
def isIn (e : StorageEntry) (path : Text) : Bool := decide (path <:+: e.path)

/-- `does_entry_have_value`. -/
def hasValue (e : StorageEntry) : Bool := !e.created && !e.deleted

/-- The value of an entry that has one: what the entry is to the outside. -/
def view (e : StorageEntry) : Option Value := if e.hasValue then some e.value else none

/-- The new entry and the old value. -/
def setValue (e : StorageEntry) (value : Value) : Except Exception (StorageEntry × Value) :=
  if e.value.type ≠ .empty ∧ e.value.type ≠ value.type then
    .error (.entryTypeMismatch e.handle e.value.type value.type)
  else
    .ok ({ e with value }, e.value)

/-- The new entry and the old value. -/
def clear (e : StorageEntry) : StorageEntry × Value :=
  ({ e with value := Value.make }, e.value)

/-- An operation with a timestamp, if the entry has seen a later one. -/
def isStale (e : StorageEntry) (timestamp : ℤ) : Bool :=
  timestamp ≠ 0 ∧ e.lastUpdateTimestamp > timestamp

/-- The timestamp an operation leaves: its own, or the clock's for a local one. -/
def stamp (timestamp now : ℤ) : ℤ := if timestamp = 0 then now else timestamp

def event (e : StorageEntry) (now : ℤ) (type : EventType) : Event :=
  { timestamp := now, type, path := e.path, entry := e.handle }

/-- The first half of `set_entry_internal`: the entry is live from here on and
knows its id, even if the value turns out not to fit. -/
def revive (e : StorageEntry) (id : EntryId) : StorageEntry :=
  { e with
    created := false
    deleted := false
    netId := if id ≠ idNotAssigned then id else e.netId }

/-- `set_entry_internal` on the entry of the handle, with the events it
notifies of. -/
def set (e : StorageEntry) (now : ℤ) (value : Value) (clear : Bool) (id : EntryId)
    (markDirty : Bool) (timestamp : ℤ) :
    StorageEntry × List Event × Except Exception Unit :=
  if e.isStale timestamp then (e, [], .ok ())
  else
    let created := if e.hasValue then [] else [e.event now .created]
    let revived := e.revive id
    match if clear then .ok revived.clear else revived.setValue value with
    | .error thrown => (revived, created, .error thrown)
    | .ok (changed, oldValue) =>
        ({ changed with dirty := markDirty, lastUpdateTimestamp := stamp timestamp now },
          created ++ [{ e.event now .valueChanged with oldValue, value }], .ok ())

/-- `delete_entry_internal` on the entry of the handle, with the events it
notifies of. -/
def delete (e : StorageEntry) (now : ℤ) (markDirty : Bool) (timestamp : ℤ) :
    StorageEntry × List Event :=
  if e.isStale timestamp then (e, [])
  else if e.created || e.deleted then (e, [])
  else
    ({ e.clear.1 with
        deleted := true, dirty := markDirty, lastUpdateTimestamp := stamp timestamp now },
      [e.event now .deleted])

end StorageEntry

end Obsr
