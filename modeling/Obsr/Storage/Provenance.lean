/-
# Where the paths and the values of a storage come from

An operation names paths and sets values; a storage shows nothing else, whatever ids the
operations use and in whatever order they come.
-/

import Obsr.Storage.Effect
import Obsr.Storage.Resync

namespace Obsr

variable {P : Text → Prop} {Q : Value → Prop}

namespace StorageEntry

variable {e : StorageEntry}

/-- The path and the value of the entry are known. -/
def Genuine (P : Text → Prop) (Q : Value → Prop) (e : StorageEntry) : Prop :=
  P e.path ∧ Q e.value

/-- The value of an effect is known. -/
def Sets (Q : Value → Prop) : Effect → Prop
  | .set _ value _ _ _ _ => Q value
  | _ => True

/-- A set leaves the value there was, the new one, or none. -/
theorem Genuine.set (h : e.Genuine P Q) (hmake : Q Value.make) {value : Value} (hvalue : Q value)
    (now : ℤ) (clear : Bool) (id : EntryId) (markDirty : Bool) (timestamp : ℤ) :
    (e.set now value clear id markDirty timestamp).1.Genuine P Q := by
  unfold Genuine
  rw [(set_frame now value clear id markDirty timestamp).1]
  refine ⟨h.1, ?_⟩
  cases hstale : e.isStale timestamp with
  | true =>
      rw [set_of_stale hstale]
      exact h.2
  | false =>
      by_cases hfits : clear = false → e.Fits value
      · rw [(set_of_fits hstale hfits now id markDirty).1]
        cases clear with
        | true => exact hmake
        | false => exact hvalue
      · push Not at hfits
        obtain ⟨rfl, hfits⟩ := hfits
        rw [(set_of_not_fits hstale hfits now id markDirty).1]
        exact h.2

theorem Genuine.delete (h : e.Genuine P Q) (hmake : Q Value.make) (now : ℤ) (markDirty : Bool)
    (timestamp : ℤ) : (e.delete now markDirty timestamp).1.Genuine P Q := by
  unfold StorageEntry.delete
  split_ifs
  · exact h
  · exact h
  · exact ⟨h.1, hmake⟩

theorem Genuine.after (h : e.Genuine P Q) (hmake : Q Value.make) {effect : Effect}
    (hsets : Sets Q effect) : (e.after effect).1.Genuine P Q := by
  cases effect with
  | keep => exact h
  | set now value clear id markDirty timestamp => exact h.set hmake hsets ..
  | delete now markDirty timestamp => exact h.delete hmake ..
  | assign id => exact h
  | clean => exact h

end StorageEntry

namespace Storage

/-- The path an operation names and the value it sets are known. -/
def Operation.Genuine (P : Text → Prop) (Q : Value → Prop) : Operation → Prop
  | .getOrCreateEntry path | .onEntryIdAssigned _ path => P path
  | .setEntryValue _ _ value | .onEntryUpdated _ _ value _ => Q value
  | .onEntryCreated _ _ path value _ => P path ∧ Q value
  | _ => True

/-- Every entry has a known path and a known value. -/
structure Genuine (P : Text → Prop) (Q : Value → Prop) (s : Storage) : Prop where
  coherent : s.Coherent
  entries : ∀ handle entry, s.entries.get? handle = some entry → entry.Genuine P Q

variable {s : Storage}

theorem genuine_new : new.Genuine P Q where
  coherent := coherent_new
  entries handle _ hentry := by
    rw [show new.entries.get? handle = none from HandleTable.get?_empty handle] at hentry
    cases hentry

theorem sets_effect {op : Operation} (hop : op.Genuine P Q) (hmake : Q Value.make)
    (entry : Handle) : StorageEntry.Sets Q (s.effect op entry) := by
  unfold effect
  cases op with
  | getOrCreateEntry path => trivial
  | clearNetIds => trivial
  | setEntryValue now target value =>
      dsimp only
      split_ifs
      · exact hop
      · trivial
  | clearEntry now target =>
      dsimp only
      split_ifs
      · exact hmake
      · trivial
  | onEntryCreated now id path value timestamp =>
      dsimp only
      split_ifs
      · exact hop.2
      · trivial
  | onEntryUpdated now id value timestamp =>
      dsimp only
      split_ifs
      · exact hop
      · trivial
  | _ =>
      dsimp only
      split_ifs <;> trivial

theorem genuine_createdPath {op : Operation} (hop : op.Genuine P Q) {path : Text}
    (hpath : createdPath op = some path) : P path := by
  cases op with
  | getOrCreateEntry other =>
      cases hpath
      exact hop
  | onEntryCreated now id other value timestamp =>
      cases hpath
      exact hop.1
  | onEntryIdAssigned id other =>
      cases hpath
      exact hop
  | _ => cases hpath

theorem Genuine.perform (h : s.Genuine P Q) (hmake : Q Value.make) {op : Operation}
    (hop : op.Genuine P Q) : (s.perform op).Genuine P Q := by
  refine ⟨h.coherent.perform op, fun handle entry hentry => ?_⟩
  rw [(reached_perform h.coherent op handle).1] at hentry
  obtain ⟨data, hbase, rfl⟩ := Option.map_eq_some_iff.mp hentry
  refine StorageEntry.Genuine.after ?_ hmake (sets_effect hop hmake handle)
  unfold base at hbase
  cases hdata : s.entries.get? handle with
  | some old =>
      rw [hdata] at hbase
      cases hbase
      exact h.entries handle data hdata
  | none =>
      -- the operation has created the entry
      rw [hdata, Option.none_or] at hbase
      obtain ⟨path, hpath, hnew⟩ := Option.bind_eq_some_iff.mp hbase
      split_ifs at hnew
      cases hnew
      exact ⟨genuine_createdPath hop hpath, hmake⟩

theorem Genuine.onClockResync (h : s.Genuine P Q) (clock : Clock) :
    (s.onClockResync clock).Genuine P Q := by
  refine ⟨h.coherent.onClockResync clock, fun handle entry hentry => ?_⟩
  rw [get?_onClockResync] at hentry
  obtain ⟨data, hdata, rfl⟩ := Option.map_eq_some_iff.mp hentry
  obtain ⟨time, htime⟩ := StorageEntry.onClockResync_frame clock data
  rw [htime]
  exact h.entries handle data hdata

/-- What a storage shows is known. -/
theorem Genuine.viewAt (h : s.Genuine P Q) {path : Text} {value : Value}
    (hview : s.viewAt path = some value) : P path ∧ Q value := by
  obtain ⟨entry, hentry, hvalue⟩ := Option.bind_eq_some_iff.mp hview
  obtain ⟨handle, hpath, hdata⟩ := Option.bind_eq_some_iff.mp hentry
  obtain ⟨data, hfound, hname⟩ := h.coherent.entry_of_path hpath
  obtain rfl : entry = data := Option.some.inj (hdata.symm.trans hfound)
  have hgenuine := h.entries handle entry hdata
  unfold StorageEntry.view at hvalue
  split_ifs at hvalue
  cases hvalue
  exact ⟨hname ▸ hgenuine.1, hgenuine.2⟩

theorem Genuine.getEntryValueFromId (h : s.Genuine P Q) {id : EntryId} {value : Value}
    (hfound : s.getEntryValueFromId id = some value) : Q value := by
  obtain ⟨handle, -, hvalue⟩ := Option.bind_eq_some_iff.mp hfound
  obtain ⟨entry, hentry, hview⟩ := Option.bind_eq_some_iff.mp hvalue
  unfold StorageEntry.view at hview
  split_ifs at hview
  cases hview
  exact (h.entries handle entry hentry).2

/-- A dirty entry is one of the entries. -/
theorem Genuine.dirtyEntries (h : s.Genuine P Q) {entry : StorageEntry}
    (hentry : entry ∈ s.dirtyEntries) : entry.Genuine P Q := by
  obtain ⟨handle, -, hfound⟩ := List.mem_filterMap.mp hentry
  exact h.entries handle entry (Option.filter_eq_some_iff.mp hfound).1

end Storage

end Obsr
