/-
# Calls that throw

A set clears the flags of an entry and notifies of its creation before it looks at the
type of the value, and a type that does not fit makes it throw after that. Nothing is
lost: an entry without a value holds the empty one, which every type fits, so the entry
of a set that throws has no flag to clear and its creation no event.
-/

import Obsr.Storage.Handles
import Obsr.Storage.Listeners

namespace Obsr

open Obsr.Lib

namespace HandleTable

variable {α : Type} {capacity : ℕ}

/-- Writing what is there already. -/
theorem modify_of_get? {t : HandleTable α capacity} {handle : Handle} {object : α}
    (h : t.get? handle = some object) : (t.modify handle fun _ => object) = t := by
  have hslot : ∀ index : Fin capacity, index.val = handle →
      t.data index = some object := by
    rintro index rfl
    rw [get?] at h
    split_ifs at h with hempty hlt
    exact h
  rw [modify]
  congr 1
  funext index
  split_ifs with hindex
  · rw [hslot index hindex]
    rfl
  · rfl

end HandleTable

namespace StorageEntry

variable {e : StorageEntry}

/-- A local set throws on an entry with a value only, and it has not touched the entry
then. -/
theorem Sound.set_of_error (h : e.Sound) {now : ℤ} {value : Value} {clear markDirty : Bool}
    {thrown : Exception}
    (hthrown : (e.set now value clear idNotAssigned markDirty 0).2.2 = .error thrown) :
    (e.set now value clear idNotAssigned markDirty 0).1 = e ∧
      (e.set now value clear idNotAssigned markDirty 0).2.1 = [] := by
  have hstale := isStale_zero e
  by_cases hfits : clear = false → e.Fits value
  · rw [(set_of_fits hstale hfits now idNotAssigned markDirty).2] at hthrown
    cases hthrown
  · push Not at hfits
    obtain ⟨rfl, hfits⟩ := hfits
    have hvalue : e.hasValue = true := by
      by_contra hdead
      refine hfits (.inl ?_)
      rw [h.empty (Bool.eq_false_iff.mpr hdead)]
      rfl
    obtain ⟨hcreated, hdeleted⟩ : e.created = false ∧ e.deleted = false := by
      simpa [hasValue] using hvalue
    constructor
    · rw [(set_of_not_fits hstale hfits now idNotAssigned markDirty).1]
      cases e with
      | mk handle path value timestamp netId dirty deleted created =>
          obtain rfl : created = false := hcreated
          obtain rfl : deleted = false := hdeleted
          rfl
    · rw [events_set_of_not_fits hstale hfits, revived, if_pos hvalue]

end StorageEntry

namespace Storage

variable {s : Storage}

theorem store_of_get? {entry : Handle} {data : StorageEntry}
    (h : s.entries.get? entry = some data) : s.store entry data [] = s := by
  rw [store, HandleTable.modify_of_get? h, List.append_nil]

/-- A local set that throws leaves the storage as it is. -/
theorem Coherent.setEntryInternal_of_error (h : s.Coherent) {now : ℤ} {entry : Handle}
    {value : Value} {clear markDirty : Bool} {thrown : Exception}
    (hthrown : (s.setEntryInternal now entry value clear idNotAssigned markDirty 0).2 =
      .error thrown) :
    (s.setEntryInternal now entry value clear idNotAssigned markDirty 0).1 = s := by
  cases hdata : s.entries.get? entry with
  | none => rw [setEntryInternal_of_none hdata]
  | some data =>
      rw [setEntryInternal_of_some hdata] at hthrown ⊢
      obtain ⟨hentry, hevents⟩ := (h.sound hdata).set_of_error hthrown
      show s.store entry _ _ = s
      rw [hentry, hevents, store_of_get? hdata]

theorem deleteEntry_of_error {now : ℤ} {entry : Handle} {thrown : Exception}
    (hthrown : (s.deleteEntry now entry).2 = .error thrown) :
    (s.deleteEntry now entry).1 = s := by
  rw [deleteEntry] at hthrown ⊢
  cases hdata : s.entries.get? entry with
  | none => rw [deleteEntryInternal_of_none hdata]
  | some data =>
      rw [deleteEntryInternal_of_some hdata] at hthrown
      cases hthrown

theorem Coherent.getOrCreateEntry_of_error (h : s.Coherent) {path : Text} {thrown : Exception}
    (hthrown : (s.getOrCreateEntry path).2 = .error thrown) :
    (s.getOrCreateEntry path).1 = s := by
  rw [getOrCreateEntry_eq_findOrCreate h] at hthrown ⊢
  rcases s.findOrCreate_cases path with ⟨entry, -, heq⟩ | ⟨entry, s', -, -, heq⟩ | ⟨-, -, heq⟩
  · rw [heq]
  · rw [heq] at hthrown
    cases hthrown
  · rw [heq]

end Storage

namespace ListenedStorage

/-- What a program calls that may throw. -/
inductive LocalCall
  | setEntryValue (entry : Handle) (value : Value)
  | clearEntry (entry : Handle)
  | deleteEntry (entry : Handle)
  | getOrCreateEntry (path : Text)
  | listenEntry (entry : Handle)
  | listen (path : Text)
  deriving DecidableEq, Repr

/-- The call among all those on a storage. -/
def LocalCall.toCall (now : ℤ) : LocalCall → Call
  | .setEntryValue entry value => .operate (.setEntryValue now entry value)
  | .clearEntry entry => .operate (.clearEntry now entry)
  | .deleteEntry entry => .operate (.deleteEntry now entry)
  | .getOrCreateEntry path => .operate (.getOrCreateEntry path)
  | .listenEntry entry => .listenEntry entry
  | .listen path => .listen path

/-- How `create_listener` ends. -/
def listenOutcome (s : ListenedStorage) (now : ℤ) (path : Text) : Except Exception Unit :=
  (s.listeners.allocateNew { path, creationTimestamp := now }).map fun _ => ()

/-- How a call ends while the clock reads `now`. -/
def outcomeOf (s : ListenedStorage) (now : ℤ) : LocalCall → Except Exception Unit
  | .setEntryValue entry value => (s.storage.setEntryValue now entry value).2
  | .clearEntry entry => (s.storage.clearEntry now entry).2
  | .deleteEntry entry => (s.storage.deleteEntry now entry).2
  | .getOrCreateEntry path => (s.storage.getOrCreateEntry path).2.map fun _ => ()
  | .listenEntry entry =>
      match s.storage.entries.get? entry with
      | none => .error (.noSuchHandle entry)
      | some data => s.listenOutcome now data.path
  | .listen path => s.listenOutcome now path

/-- A call of the program, of the network or of the thread; or the clock is set, or the
storage told of it. -/
inductive Use
  | call (now : ℤ) (c : Call)
  | setClock (clock : Clock)
  | onClockResync
  deriving DecidableEq, Repr

def use (s : ListenedStorage) : Use → ListenedStorage
  | .call now c => (s.perform now c).1
  | .setClock clock => { s with clock }
  | .onClockResync => s.onClockResync

variable {s : ListenedStorage} {now : ℤ}

theorem storage_createListener (s : ListenedStorage) (now : ℤ) (path : Text) :
    (s.createListener now path).1.storage = s.storage := by
  rcases createListener_cases s now path with hfull | ⟨listener, -, hlistens⟩
  · rw [hfull]
  · exact hlistens.storage

/-- The storage under the listeners stays coherent. -/
theorem coherent_use (h : s.storage.Coherent) (u : Use) : (s.use u).storage.Coherent := by
  cases u with
  | setClock clock => exact h
  | onClockResync => exact h.onClockResync s.clock
  | call now c =>
      cases c with
      | operate op => exact h.perform (op.withNow now)
      | removeListener listener => exact h
      | listen path =>
          show (s.createListener now path).1.storage.Coherent
          rw [storage_createListener]
          exact h
      | listenEntry entry =>
          show (s.listenEntry now entry).1.storage.Coherent
          rw [listenEntry]
          split
          · exact h
          · rw [storage_createListener]
            exact h
      | dispatch => exact ⟨h.entry_of_path, h.path_of_entry, h.entry_of_id, h.sound⟩

theorem createListener_of_error {path : Text} {thrown : Exception}
    (hthrown : s.listenOutcome now path = .error thrown) :
    (s.createListener now path).1 = s := by
  rw [listenOutcome] at hthrown
  rw [createListener]
  cases hnew : s.listeners.allocateNew { path, creationTimestamp := now } with
  | error thrown => rfl
  | ok allocated =>
      rw [hnew] at hthrown
      cases hthrown

/-- A call that throws in a coherent storage leaves everything as it is. -/
theorem perform_of_error (h : s.storage.Coherent) {call : LocalCall} {thrown : Exception}
    (hthrown : s.outcomeOf now call = .error thrown) :
    (s.perform now (call.toCall now)).1 = s := by
  have hoperate : ∀ storage : Storage, storage = s.storage → { s with storage } = s := by
    rintro storage rfl
    rfl
  cases call with
  | setEntryValue entry value => exact hoperate _ (h.setEntryInternal_of_error hthrown)
  | clearEntry entry => exact hoperate _ (h.setEntryInternal_of_error hthrown)
  | deleteEntry entry => exact hoperate _ (Storage.deleteEntry_of_error hthrown)
  | getOrCreateEntry path =>
      refine hoperate _ ?_
      rw [outcomeOf] at hthrown
      cases hresult : (s.storage.getOrCreateEntry path).2 with
      | error thrown => exact h.getOrCreateEntry_of_error hresult
      | ok entry =>
          rw [hresult] at hthrown
          cases hthrown
  | listen path => exact createListener_of_error hthrown
  | listenEntry entry =>
      show (s.listenEntry now entry).1 = s
      rw [outcomeOf] at hthrown
      rw [listenEntry]
      cases hdata : s.storage.entries.get? entry with
      | none => rfl
      | some data =>
          rw [hdata] at hthrown
          exact createListener_of_error hthrown

/-- After any run, a call that throws leaves every entry, both indices, the listeners and
the pending events as they are. -/
theorem unchanged_of_error (uses : List Use) (now : ℤ) (call : LocalCall) (thrown : Exception)
    (hthrown : (uses.foldl use new).outcomeOf now call = .error thrown) :
    ((uses.foldl use new).perform now (call.toCall now)).1 = uses.foldl use new :=
  perform_of_error (foldl_of_invariant (I := fun s : ListenedStorage => s.storage.Coherent)
    (fun _ u hs => coherent_use hs u) Storage.coherent_new uses) hthrown

/-- The second set brings a value of another type. -/
theorem unchanged_of_mismatch :
    (([.call 5 (.operate (.getOrCreateEntry [47])),
        .call 6 (.operate (.setEntryValue 6 0 (.makeBoolean true)))].foldl use new).perform 7
      (.operate (.setEntryValue 7 0 (.makeInt32 3)))).1 =
      [.call 5 (.operate (.getOrCreateEntry [47])),
        .call 6 (.operate (.setEntryValue 6 0 (.makeBoolean true)))].foldl use new :=
  unchanged_of_error _ 7 (.setEntryValue 0 (.makeInt32 3))
    (.entryTypeMismatch 0 .boolean .integer32) (by decide +kernel)

end ListenedStorage

end Obsr
