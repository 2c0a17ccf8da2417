/-
# Listeners

`listener_storage` keeps the listeners of a storage, and a thread that takes the pending
events one by one and hands each to the listeners. A listener looks at the time and the
path of an event to decide whether to call its callback.

The thread lets go of the lock around every callback. A listener that is created or
destroyed meanwhile is taken to have been so before the event was dispatched or after it,
as its slot was still to be visited or not.
-/

import Obsr.Storage.Effect
import Obsr.Storage.Resync

namespace Obsr

open Obsr.Lib

/-- `listener_data`; its callback is known by the handle of the listener. -/
structure ListenerData where
  /-- `m_prefix`. -/
  path : Text
  creationTimestamp : ℤ
  deriving DecidableEq, Repr

namespace ListenerData

/-- Whether `invoke` calls the callback; `find` looks for the path anywhere. -/
def invokes (l : ListenerData) (event : Event) : Bool :=
  if event.timestamp < l.creationTimestamp then false
  else decide (l.path <:+: event.path)

def onClockResync (clock : Clock) (l : ListenerData) : ListenerData :=
  { l with creationTimestamp := clock.adjustTime l.creationTimestamp }

end ListenerData

/-! ## The events of an operation -/

namespace StorageEntry

variable {e : StorageEntry} {now : ℤ} {event : Event}

theorem timestamp_of_mem_revived (h : event ∈ e.revived now) : event.timestamp = now := by
  rw [revived] at h
  split_ifs at h
  · exact absurd h List.not_mem_nil
  · rw [List.mem_singleton.mp h]
    rfl

theorem timestamp_of_mem_after_set {value : Value} {clear : Bool} {id : EntryId}
    {markDirty : Bool} {timestamp : ℤ}
    (h : event ∈ (e.set now value clear id markDirty timestamp).2.1) :
    event.timestamp = now := by
  cases hstale : e.isStale timestamp with
  | true =>
      rw [set_of_stale hstale] at h
      exact absurd h List.not_mem_nil
  | false =>
      by_cases hfits : clear = false → e.Fits value
      · rw [events_set_of_fits hstale hfits] at h
        rcases List.mem_append.mp h with hrevived | hchanged
        · exact timestamp_of_mem_revived hrevived
        · rw [List.mem_singleton.mp hchanged]
          rfl
      · push Not at hfits
        obtain ⟨rfl, hfits⟩ := hfits
        rw [events_set_of_not_fits hstale hfits] at h
        exact timestamp_of_mem_revived h

theorem timestamp_of_mem_after_delete {markDirty : Bool} {timestamp : ℤ}
    (h : event ∈ (e.delete now markDirty timestamp).2) : event.timestamp = now := by
  rw [delete] at h
  split_ifs at h
  · exact absurd h List.not_mem_nil
  · exact absurd h List.not_mem_nil
  · rw [List.mem_singleton.mp h]
    rfl

end StorageEntry

namespace Storage

/-- An operation in which the clock is read at another time. -/
def Operation.withNow (now : ℤ) : Operation → Operation
  | .deleteEntry _ entry => .deleteEntry now entry
  | .deleteEntries _ path => .deleteEntries now path
  | .setEntryValue _ entry value => .setEntryValue now entry value
  | .clearEntry _ entry => .clearEntry now entry
  | .onEntryCreated _ id path value timestamp => .onEntryCreated now id path value timestamp
  | .onEntryUpdated _ id value timestamp => .onEntryUpdated now id value timestamp
  | .onEntryDeleted _ id timestamp => .onEntryDeleted now id timestamp
  | .getOrCreateEntry path => .getOrCreateEntry path
  | .clearDirty entry => .clearDirty entry
  | .clearNetIds => .clearNetIds
  | .onEntryIdAssigned id path => .onEntryIdAssigned id path

/-- New events come behind the pending ones, with the time at which they happened. -/
def Notifies (now : ℤ) (s s' : Storage) : Prop :=
  ∃ events, s'.pendingEvents = s.pendingEvents ++ events ∧
    ∀ event ∈ events, event.timestamp = now

variable {now : ℤ} {s s' s'' : Storage}

theorem Notifies.of_eq (h : s'.pendingEvents = s.pendingEvents) : Notifies now s s' :=
  ⟨[], by rw [h, List.append_nil], fun _ hevent => absurd hevent List.not_mem_nil⟩

theorem Notifies.trans (h : Notifies now s s') (h' : Notifies now s' s'') :
    Notifies now s s'' := by
  obtain ⟨first, hfirst, hfirstTimes⟩ := h
  obtain ⟨second, hsecond, hsecondTimes⟩ := h'
  refine ⟨first ++ second, by rw [hsecond, hfirst, List.append_assoc], ?_⟩
  intro event hevent
  rcases List.mem_append.mp hevent with hold | hnew
  · exact hfirstTimes event hold
  · exact hsecondTimes event hnew

theorem notifies_setEntryInternal (now : ℤ) (s : Storage) (entry : Handle) (value : Value)
    (clear : Bool) (id : EntryId) (markDirty : Bool) (timestamp : ℤ) :
    Notifies now s
      (s.setEntryInternal now entry value clear id markDirty timestamp).1 := by
  cases hdata : s.entries.get? entry with
  | none =>
      rw [setEntryInternal_of_none hdata]
      exact .of_eq rfl
  | some data =>
      rw [setEntryInternal_of_some hdata]
      exact ⟨_, rfl, fun _ => StorageEntry.timestamp_of_mem_after_set⟩

theorem notifies_deleteEntryInternal (now : ℤ) (s : Storage) (entry : Handle)
    (markDirty : Bool) (timestamp : ℤ) :
    Notifies now s (s.deleteEntryInternal now entry markDirty timestamp).1 := by
  cases hdata : s.entries.get? entry with
  | none =>
      rw [deleteEntryInternal_of_none hdata]
      exact .of_eq rfl
  | some data =>
      rw [deleteEntryInternal_of_some hdata]
      exact ⟨_, rfl, fun _ => StorageEntry.timestamp_of_mem_after_delete⟩

theorem notifies_deleteEntries (now : ℤ) (s : Storage) (path : Text) :
    Notifies now s (s.deleteEntries now path) := by
  show Notifies now s ((List.range 256).foldl (deleteIfIn now path) s)
  generalize List.range 256 = handles
  induction handles generalizing s with
  | nil => exact .of_eq rfl
  | cons handle handles ih =>
      have hfirst : Notifies now s (deleteIfIn now path s handle) := by
        rw [deleteIfIn]
        split
        · exact .of_eq rfl
        · split_ifs
          · exact notifies_deleteEntryInternal ..
          · exact .of_eq rfl
      exact hfirst.trans (ih _)

theorem notifies_onEntryCreated (now : ℤ) (s : Storage) (id : EntryId) (path : Text)
    (value : Value) (timestamp : ℤ) :
    Notifies now s (s.onEntryCreated now id path value timestamp).1 := by
  have hfound := pendingEvents_findOrCreate s path
  rw [onEntryCreated]
  rcases hfind : s.findOrCreate path with ⟨t, result⟩
  rw [hfind] at hfound
  cases result with
  | error thrown => exact .of_eq hfound
  | ok entry =>
      have hids : Notifies now s { t with ids := t.ids.emplace id entry } := .of_eq hfound
      exact hids.trans (notifies_setEntryInternal ..)

theorem pendingEvents_onEntryIdAssigned (s : Storage) (id : EntryId) (path : Text) :
    (s.onEntryIdAssigned id path).1.pendingEvents = s.pendingEvents := by
  have hfound := pendingEvents_findOrCreate s path
  rw [onEntryIdAssigned]
  rcases hfind : s.findOrCreate path with ⟨t, result⟩
  rw [hfind] at hfound
  cases result with
  | error thrown => exact hfound
  | ok entry =>
      dsimp only
      split <;> exact hfound

/-- Whatever an operation notifies of happened when the clock was read. -/
theorem notifies_perform (now : ℤ) (s : Storage) (op : Operation) :
    Notifies now s (s.perform (op.withNow now)) := by
  cases op with
  | getOrCreateEntry path =>
      refine .of_eq ?_
      show (s.getOrCreateEntry path).1.pendingEvents = s.pendingEvents
      rw [fst_getOrCreateEntry, pendingEvents_findOrCreate]
  | deleteEntry old entry => exact notifies_deleteEntryInternal ..
  | deleteEntries old path => exact notifies_deleteEntries ..
  | setEntryValue old entry value => exact notifies_setEntryInternal ..
  | clearEntry old entry => exact notifies_setEntryInternal ..
  | clearDirty entry => exact .of_eq rfl
  | clearNetIds => exact .of_eq rfl
  | onEntryCreated old id path value timestamp => exact notifies_onEntryCreated ..
  | onEntryUpdated old id value timestamp =>
      show Notifies now s (s.onEntryUpdated now id value timestamp).1
      rw [onEntryUpdated]
      split
      · exact .of_eq rfl
      · exact notifies_setEntryInternal ..
  | onEntryDeleted old id timestamp =>
      show Notifies now s (s.onEntryDeleted now id timestamp).1
      rw [onEntryDeleted]
      split
      · exact .of_eq rfl
      · exact notifies_deleteEntryInternal ..
  | onEntryIdAssigned id path => exact .of_eq (pendingEvents_onEntryIdAssigned s id path)

end Storage

/-! ## The storage and its listeners -/

/-- A storage with its clock and its listeners; the pending events are in the storage. -/
structure ListenedStorage where
  storage : Storage
  clock : Clock
  listeners : HandleTable ListenerData 16

namespace ListenedStorage

def new : ListenedStorage where
  storage := Storage.new
  clock := {}
  listeners := HandleTable.empty

/-- `create_listener`, with the handle it returns. -/
def createListener (s : ListenedStorage) (now : ℤ) (path : Text) :
    ListenedStorage × Option Handle :=
  match s.listeners.allocateNew { path, creationTimestamp := now } with
  | .error _ => (s, none)
  | .ok (listener, listeners) => ({ s with listeners }, some listener)

/-- `listen` to an entry, which throws if there is no such entry. -/
def listenEntry (s : ListenedStorage) (now : ℤ) (entry : Handle) :
    ListenedStorage × Option Handle :=
  match s.storage.entries.get? entry with
  | none => (s, none)
  | some data => s.createListener now data.path

/-- `destroy_listener`, which throws if there is no such listener. -/
def destroyListener (s : ListenedStorage) (listener : Handle) : ListenedStorage :=
  { s with listeners := s.listeners.release listener }

/-- The round of `thread_main` for the event at the front. -/
def dispatch (s : ListenedStorage) : ListenedStorage :=
  { s with storage := { s.storage with pendingEvents := s.storage.pendingEvents.tail } }

/-- The listeners a round of `thread_main` calls. -/
def called (s : ListenedStorage) (event : Event) (listener : Handle) : Bool :=
  (s.listeners.get? listener).any (·.invokes event)

def onClockResync (s : ListenedStorage) : ListenedStorage :=
  { s with
    storage := s.storage.onClockResync s.clock
    listeners := ⟨fun index => (s.listeners.data index).map (ListenerData.onClockResync s.clock)⟩ }

/-- `clock::sync`, followed by `on_clock_resync` if the clock was set. -/
def sync (s : ListenedStorage) (timeNow localTime remoteTime : ℤ) : ListenedStorage :=
  match s.clock.sync timeNow localTime remoteTime with
  | (true, clock) => { s with clock }.onClockResync
  | (false, _) => s

def operate (s : ListenedStorage) (now : ℤ) (op : Storage.Operation) : ListenedStorage :=
  { s with storage := s.storage.perform (op.withNow now) }

/-- What is called on a storage between two settings of its clock, or done by its thread. -/
inductive Call
  | operate (op : Storage.Operation)
  | listen (path : Text)
  | listenEntry (entry : Handle)
  | removeListener (listener : Handle)
  | dispatch
  deriving DecidableEq, Repr

/-- A call while the clock reads `now`, with the handle of the listener it creates. -/
def perform (s : ListenedStorage) (now : ℤ) : Call → ListenedStorage × Option Handle
  | .operate op => (s.operate now op, none)
  | .listen path => s.createListener now path
  | .listenEntry entry => s.listenEntry now entry
  | .removeListener listener => (s.destroyListener listener, none)
  | .dispatch => (s.dispatch, none)

variable {s s' : ListenedStorage} {now : ℤ} {path : Text} {listener : Handle}

theorem capacity_le_emptyHandle : 16 ≤ emptyHandle := by decide

/-- A listener was added under a handle that was free, and nothing else happened. -/
structure Listens (s : ListenedStorage) (now : ℤ) (path : Text) (listener : Handle)
    (s' : ListenedStorage) : Prop where
  storage : s'.storage = s.storage
  clock : s'.clock = s.clock
  fresh : s.listeners.get? listener = none
  listeners : ∀ other, s'.listeners.get? other =
    if other = listener then some { path, creationTimestamp := now }
    else s.listeners.get? other

theorem createListener_cases (s : ListenedStorage) (now : ℤ) (path : Text) :
    s.createListener now path = (s, none) ∨
      ∃ listener, (s.createListener now path).2 = some listener ∧
        s.Listens now path listener (s.createListener now path).1 := by
  rw [createListener]
  cases hnew : s.listeners.allocateNew { path, creationTimestamp := now } with
  | error thrown => exact .inl rfl
  | ok allocated =>
      obtain ⟨listener, listeners⟩ := allocated
      obtain ⟨hfresh, hlisteners⟩ :=
        HandleTable.allocateNewWithHandle_eq_ok capacity_le_emptyHandle hnew
      exact .inr ⟨listener, rfl, rfl, rfl, hfresh, hlisteners⟩

end ListenedStorage

end Obsr
