/-
# A clock that was set

After its clock took another time, the storage moves the times of its entries and
of the events its listeners have not heard of yet.
-/

import Obsr.Storage.Ids
import Obsr.Util.Clock

namespace Obsr

namespace StorageEntry

def onClockResync (clock : Clock) (e : StorageEntry) : StorageEntry :=
  if e.lastUpdateTimestamp = 0 then e
  else { e with lastUpdateTimestamp := clock.adjustTime e.lastUpdateTimestamp }

variable {clock : Clock} {e : StorageEntry}

/-- Nothing but the time of an entry changes. -/
theorem onClockResync_frame (clock : Clock) (e : StorageEntry) :
    ∃ time, e.onClockResync clock = { e with lastUpdateTimestamp := time } := by
  unfold onClockResync
  split_ifs
  · exact ⟨_, rfl⟩
  · exact ⟨_, rfl⟩

end StorageEntry

namespace Storage

def onClockResync (s : Storage) (clock : Clock) : Storage :=
  { s with
    entries := ⟨fun index => (s.entries.data index).map (StorageEntry.onClockResync clock)⟩
    pendingEvents := s.pendingEvents.map fun event =>
      { event with timestamp := clock.adjustTime event.timestamp } }

variable {s : Storage}

theorem get?_onClockResync (s : Storage) (clock : Clock) (entry : Handle) :
    (s.onClockResync clock).entries.get? entry =
      (s.entries.get? entry).map (StorageEntry.onClockResync clock) := by
  unfold HandleTable.get? onClockResync
  split_ifs <;> rfl

theorem Coherent.onClockResync (h : s.Coherent) (clock : Clock) :
    (s.onClockResync clock).Coherent where
  entry_of_path hpath := by
    obtain ⟨data, hdata, hdataPath⟩ := h.entry_of_path hpath
    obtain ⟨time, htime⟩ := StorageEntry.onClockResync_frame clock data
    rw [get?_onClockResync, hdata]
    refine ⟨_, rfl, ?_⟩
    rw [htime]
    exact hdataPath
  path_of_entry hdata := by
    rw [get?_onClockResync, Option.map_eq_some_iff] at hdata
    obtain ⟨old, hold, rfl⟩ := hdata
    obtain ⟨time, htime⟩ := StorageEntry.onClockResync_frame clock old
    rw [htime]
    exact (h.path_of_entry hold :)
  entry_of_id hid := by
    obtain ⟨data, hdata⟩ := h.entry_of_id hid
    rw [get?_onClockResync, hdata]
    exact ⟨_, rfl⟩
  sound hdata := by
    rw [get?_onClockResync, Option.map_eq_some_iff] at hdata
    obtain ⟨old, hold, rfl⟩ := hdata
    obtain ⟨time, htime⟩ := StorageEntry.onClockResync_frame clock old
    rw [htime]
    exact ⟨(h.sound hold).empty, (h.sound hold).clean⟩

theorem pathOfId_onClockResync (s : Storage) (clock : Clock) (id : EntryId) :
    (s.onClockResync clock).pathOfId id = s.pathOfId id := by
  unfold pathOfId
  show ((s.ids.find? id).bind (s.onClockResync clock).entries.get?).map _ = _
  cases s.ids.find? id with
  | none => rfl
  | some entry =>
      rw [Option.bind_some, Option.bind_some, get?_onClockResync, Option.map_map]
      refine congrFun (congrArg Option.map (funext fun data => ?_)) _
      obtain ⟨time, htime⟩ := StorageEntry.onClockResync_frame clock data
      rw [Function.comp_apply, htime]

end Storage

end Obsr
