/-
# Storages as tables of registers

Through its paths a storage is a table of registers of the last writer, some of which
are dirty. The network writes to them and erases them under ids, a local operation
changes them at the time it is made, and nothing else that happens to a storage shows
in the table, but that a resync of the clock moves the times.
-/

import Obsr.Storage.Effect
import Obsr.Storage.Ids
import Obsr.Storage.Remote
import Obsr.Storage.Resync

namespace Obsr

open Obsr.Lib

/-- What a local operation does to an entry. -/
inductive Effect.IsLocal (now : ℤ) : Effect → Prop
  | keep : IsLocal now .keep
  | set (value : Value) : IsLocal now (.set now value false idNotAssigned true 0)
  | delete : IsLocal now (.delete now true 0)

namespace StorageEntry

variable {e : StorageEntry} {now : ℤ}

theorem path_after (e : StorageEntry) (effect : Effect) : (e.after effect).1.path = e.path := by
  cases effect with
  | set now value clear id markDirty timestamp =>
      exact (e.set_frame now value clear id markDirty timestamp).1
  | delete now markDirty timestamp => exact (e.delete_frame now markDirty timestamp).1
  | _ => rfl

/-- The entry stays as it is, or becomes dirty at the time of the operation. -/
theorem register_after_local {effect : Effect} (h : effect.IsLocal now)
    (hfits : ∀ value, effect = .set now value false idNotAssigned true 0 → e.Fits value) :
    (e.after effect).1 = e ∨
      ((e.after effect).1.register.stamp = now ∧ (e.after effect).1.dirty = true) := by
  cases h with
  | keep => exact Or.inl rfl
  | set value =>
      have hset : (e.set now value false idNotAssigned true 0).1 = _ :=
        (set_of_fits (isStale_zero e) (fun _ => hfits value rfl) now idNotAssigned true).1
      right
      simp [after, hset, register, stamp]
  | delete =>
      cases hlive : e.hasValue with
      | false => exact Or.inl (congrArg Prod.fst (delete_of_not_hasValue hlive ..))
      | true =>
          have hdelete := delete_of_hasValue (isStale_zero e) hlive now true
          right
          simp [after, hdelete, register, stamp]

/-- A local operation shows nothing but the value it sets. -/
theorem view_after_local {effect : Effect} (h : effect.IsLocal now)
    (hfits : ∀ value, effect = .set now value false idNotAssigned true 0 → e.Fits value)
    {value : Value} (hview : (e.after effect).1.view = some value) :
    effect = .set now value false idNotAssigned true 0 ∨ e.view = some value := by
  cases h with
  | keep => exact Or.inr hview
  | set new =>
      have hset : (e.set now new false idNotAssigned true 0).1 = _ :=
        (set_of_fits (isStale_zero e) (fun _ => hfits new rfl) now idNotAssigned true).1
      left
      simp only [after, hset, view, hasValue, revive] at hview
      simpa using hview
  | delete =>
      right
      cases hlive : e.hasValue with
      | false =>
          have hkept : (e.after (.delete now true 0)).1 = e :=
            congrArg Prod.fst (delete_of_not_hasValue hlive ..)
          rwa [hkept] at hview
      | true =>
          have hdelete := delete_of_hasValue (isStale_zero e) hlive now true
          simp [after, hdelete, view, hasValue] at hview

/-- The network makes no entry dirty. -/
theorem dirty_set_clean (h : e.dirty = false) (now : ℤ) (value : Value) (id : EntryId)
    (timestamp : ℤ) : (e.set now value false id false timestamp).1.dirty = false := by
  cases hstale : e.isStale timestamp with
  | true => rwa [set_of_stale hstale]
  | false =>
      by_cases hfits : e.Fits value
      · rw [(set_of_fits hstale (fun _ => hfits) now id false).1]
      · rwa [(set_of_not_fits hstale hfits now id false).1]

theorem dirty_delete_clean (h : e.dirty = false) (now timestamp : ℤ) :
    (e.delete now false timestamp).1.dirty = false := by
  unfold delete
  split_ifs
  · exact h
  · exact h
  · rfl

end StorageEntry

namespace Storage

variable {s s' : Storage} {path : Text} {entry : Handle}

/-- What is at a path; a new entry is no different from none. -/
def registerAt (s : Storage) (path : Text) : Register ℤ Value :=
  ((s.entryAt path).map StorageEntry.register).getD ⟨0, none⟩

def dirtyAt (s : Storage) (path : Text) : Bool := (s.entryAt path).any StorageEntry.dirty

theorem registerAt_of_some {data : StorageEntry} (h : s.entryAt path = some data) :
    s.registerAt path = data.register := by
  rw [registerAt, h]
  rfl

theorem registerAt_of_none (h : s.entryAt path = none) : s.registerAt path = ⟨0, none⟩ := by
  rw [registerAt, h]
  rfl

theorem dirtyAt_of_some {data : StorageEntry} (h : s.entryAt path = some data) :
    s.dirtyAt path = data.dirty := by
  rw [dirtyAt, h]
  rfl

theorem dirtyAt_of_none (h : s.entryAt path = none) : s.dirtyAt path = false := by
  rw [dirtyAt, h]
  rfl

theorem content_registerAt (s : Storage) (path : Text) :
    (s.registerAt path).content = s.viewAt path := by
  unfold registerAt viewAt
  cases s.entryAt path <;> rfl

/-- The value under an id is the one at its path. -/
theorem Coherent.getEntryValueFromId_eq (h : s.Coherent) {id : EntryId}
    (hpath : s.pathOfId id = some path) : s.getEntryValueFromId id = s.viewAt path := by
  obtain ⟨entry, hid, hfind⟩ := (h.pathOfId_eq_some_iff id path).mp hpath
  rw [getEntryValueFromId, hid, viewAt, entryAt, hfind]
  rfl

/-! ## Operations that do not show -/

/-- The entries of a path in two storages show the same. -/
def SameTable (s s' : Storage) : Prop :=
  ∀ path, s'.registerAt path = s.registerAt path ∧ s'.dirtyAt path = s.dirtyAt path

theorem SameTable.refl (s : Storage) : SameTable s s := fun _ => ⟨rfl, rfl⟩

theorem SameTable.trans {t : Storage} (h : SameTable s s') (h' : SameTable s' t) :
    SameTable s t :=
  fun path => ⟨(h' path).1.trans (h path).1, (h' path).2.trans (h path).2⟩

theorem Found.sameTable (h : s.Found path entry s') : SameTable s s' := by
  intro other
  by_cases hother : other = path
  · subst hother
    have hnew : s'.entryAt other = _ := entryAt_of_find h.find h.data
    cases hold : s.entryAt other with
    | none =>
        rw [hold] at hnew
        exact ⟨(registerAt_of_some hnew).trans (registerAt_of_none hold).symm,
          (dirtyAt_of_some hnew).trans (dirtyAt_of_none hold).symm⟩
    | some data =>
        rw [hold] at hnew
        exact ⟨(registerAt_of_some hnew).trans (registerAt_of_some hold).symm,
          (dirtyAt_of_some hnew).trans (dirtyAt_of_some hold).symm⟩
  · unfold registerAt dirtyAt
    rw [h.entryAt_of_ne other hother]
    exact ⟨rfl, rfl⟩

/-- A change of one entry that does not show. -/
theorem Coherent.sameTable_modify (h : s.Coherent) {data : StorageEntry}
    (hdata : s.entries.get? entry = some data) {f : StorageEntry → StorageEntry}
    (hf : (f data).register = data.register ∧ (f data).dirty = data.dirty)
    (events : List Event) (ids : OrderedMap EntryId Handle) :
    SameTable s { s with entries := s.entries.modify entry f, pendingEvents := events, ids } := by
  intro other
  have hat := h.entryAt_modify hdata f events other
  have hsame : entryAt
      { s with entries := s.entries.modify entry f, pendingEvents := events, ids } other = _ := hat
  unfold registerAt dirtyAt
  rw [hsame]
  split_ifs with hother
  · subst hother
    rw [h.entryAt_path hdata]
    exact hf
  · exact ⟨rfl, rfl⟩

theorem Coherent.sameTable_findOrCreate (h : s.Coherent) (path : Text) :
    SameTable s (s.findOrCreate path).1 := by
  by_cases hroom : s.HasRoom path
  · obtain ⟨entry, t, hfind, hfound⟩ := h.findOrCreate_found hroom
    rw [hfind]
    exact hfound.sameTable
  · rw [findOrCreate_of_not_hasRoom hroom]
    exact SameTable.refl s

theorem Coherent.sameTable_getOrCreateEntry (h : s.Coherent) (path : Text) :
    SameTable s (s.getOrCreateEntry path).1 := by
  rw [fst_getOrCreateEntry]
  exact h.sameTable_findOrCreate path

theorem Coherent.sameTable_onEntryIdAssigned (h : s.Coherent) (id : EntryId) (path : Text) :
    SameTable s (s.onEntryIdAssigned id path).1 := by
  by_cases hroom : s.HasRoom path
  · obtain ⟨entry, t, hfind, hfound⟩ := h.findOrCreate_found hroom
    have hdata := hfound.data
    simp only [Storage.onEntryIdAssigned, hfind, hdata]
    apply hfound.sameTable.trans
    exact hfound.coherent.sameTable_modify (f := fun data => { data with netId := id }) hdata
      ⟨rfl, rfl⟩ t.pendingEvents _
  · rw [onEntryIdAssigned_of_not_hasRoom hroom]
    exact SameTable.refl s

theorem sameTable_clearNetIds (s : Storage) : SameTable s s.clearNetIds := by
  intro path
  have hat : s.clearNetIds.entryAt path =
      (s.entryAt path).map fun data => { data with netId := idNotAssigned } := by
    unfold entryAt
    cases hpath : s.paths.find? path with
    | none => exact congrArg (Option.bind · _) hpath
    | some entry =>
        have hfind : s.clearNetIds.paths.find? path = some entry := hpath
        rw [hfind, Option.bind_some, Option.bind_some, get?_clearNetIds]
  unfold registerAt dirtyAt
  rw [hat]
  cases s.entryAt path with
  | none => exact ⟨rfl, rfl⟩
  | some data => exact ⟨rfl, rfl⟩

/-! ## Operations of the network -/

theorem Coherent.registerAt_store (h : s.Coherent) {data new : StorageEntry}
    (hdata : s.entries.get? entry = some data) (events : List Event) :
    (s.store entry new events).registerAt =
      Function.update s.registerAt data.path new.register := by
  funext other
  have hat := h.entryAt_modify hdata (fun _ => new) (s.pendingEvents ++ events) other
  rw [Function.update_apply]
  split_ifs with hother
  · exact registerAt_of_some (hat.trans (if_pos hother))
  · exact congrArg (fun found : Option StorageEntry =>
      (found.map StorageEntry.register).getD ⟨0, none⟩) (hat.trans (if_neg hother))

/-- An update under an id writes to the register of its path. -/
theorem Coherent.registerAt_onEntryUpdated (h : s.Coherent) {id : EntryId}
    (hpath : s.pathOfId id = some path) {value : Value}
    (hfits : ∀ data, s.entryAt path = some data → data.Fits value) {timestamp : ℤ}
    (htime : timestamp ≠ 0) (now : ℤ) :
    (s.onEntryUpdated now id value timestamp).1.registerAt =
      Function.update s.registerAt path ((s.registerAt path).apply (.write timestamp value)) := by
  obtain ⟨entry, hid, hfind⟩ := (h.pathOfId_eq_some_iff id path).mp hpath
  obtain ⟨data, hdata, rfl⟩ := h.entry_of_path hfind
  have hat := h.entryAt_path hdata
  rw [Storage.onEntryUpdated, hid]
  show (s.setEntryInternal now entry value false id false timestamp).1.registerAt = _
  rw [setEntryInternal_of_some hdata, h.registerAt_store hdata, registerAt_of_some hat,
    StorageEntry.register_set htime (hfits data hat)]

/-- A deletion under an id erases the register of its path. -/
theorem Coherent.registerAt_onEntryDeleted (h : s.Coherent) {id : EntryId}
    (hpath : s.pathOfId id = some path) {timestamp : ℤ} (htime : timestamp ≠ 0) (now : ℤ) :
    (s.onEntryDeleted now id timestamp).1.registerAt =
      Function.update s.registerAt path ((s.registerAt path).apply (.erase timestamp)) := by
  obtain ⟨entry, hid, hfind⟩ := (h.pathOfId_eq_some_iff id path).mp hpath
  obtain ⟨data, hdata, rfl⟩ := h.entry_of_path hfind
  have hat := h.entryAt_path hdata
  rw [Storage.onEntryDeleted, hid]
  show (s.deleteEntryInternal now entry false timestamp).1.registerAt = _
  rw [deleteEntryInternal_of_some hdata, h.registerAt_store hdata, registerAt_of_some hat,
    StorageEntry.register_delete htime]

/-! ## Operations by path -/

/-- At a path an operation does what its effect says, to the entry that is there or to a
new one. -/
theorem Coherent.entryAt_perform (h : s.Coherent) (op : Operation) (path : Text) :
    (s.entryAt path = none ∧ (s.perform op).entryAt path = none) ∨
      ∃ entry data, (s.perform op).entryAt path = some (data.after (s.effect op entry)).1 ∧
        ((s.entries.get? entry = some data ∧ s.entryAt path = some data) ∨
          s.entryAt path = none ∧ createdPath op = some path ∧
            data = { handle := entry, path, created := true }) := by
  have hnext := h.perform op
  cases hold : s.entryAt path with
  | some data =>
      right
      obtain ⟨entry, hfind, hdata⟩ := Option.bind_eq_some_iff.mp hold
      have hafter := get?_perform h op hdata
      refine ⟨entry, data, ?_, .inl ⟨hdata, rfl⟩⟩
      rw [← hnext.entryAt_path hafter, StorageEntry.path_after, h.path_of_entryAt hold]
  | none =>
      cases hnew : (s.perform op).entryAt path with
      | none => exact .inl ⟨rfl, rfl⟩
      | some after =>
          right
          obtain ⟨entry, hfind, hafter⟩ := Option.bind_eq_some_iff.mp hnew
          have hpath := hnext.path_of_entryAt hnew
          rw [(reached_perform h op entry).1, Option.map_eq_some_iff] at hafter
          obtain ⟨data, hbase, rfl⟩ := hafter
          rw [StorageEntry.path_after] at hpath
          refine ⟨entry, data, rfl, .inr ⟨rfl, ?_⟩⟩
          unfold base at hbase
          cases hdata : s.entries.get? entry with
          | some present =>
              rw [hdata, Option.some_or] at hbase
              obtain rfl := Option.some.inj hbase
              have hat := h.entryAt_path hdata
              rw [hpath, hold] at hat
              cases hat
          | none =>
              rw [hdata, Option.none_or] at hbase
              obtain ⟨created, hcreates, hcreated⟩ := Option.bind_eq_some_iff.mp hbase
              split_ifs at hcreated
              obtain rfl := Option.some.inj hcreated
              subst hpath
              exact ⟨hcreates, rfl⟩

/-- What is edited here: entries are created, set, deleted. -/
inductive Operation.IsEdit (now : ℤ) : Operation → Prop
  | getOrCreateEntry (path : Text) : IsEdit now (.getOrCreateEntry path)
  | setEntryValue (entry : Handle) (value : Value) : IsEdit now (.setEntryValue now entry value)
  | deleteEntry (entry : Handle) : IsEdit now (.deleteEntry now entry)
  | deleteEntries (path : Text) : IsEdit now (.deleteEntries now path)

variable {now later : ℤ} {op : Operation}

theorem isLocal_effect (h : op.IsEdit now) (entry : Handle) :
    (s.effect op entry).IsLocal now := by
  cases h with
  | getOrCreateEntry path => exact .keep
  | setEntryValue target value =>
      simp only [effect]
      split_ifs
      · exact .set value
      · exact .keep
  | deleteEntry target =>
      simp only [effect]
      split_ifs
      · exact .delete
      · exact .keep
  | deleteEntries path =>
      simp only [effect]
      split_ifs
      · exact .delete
      · exact .keep

theorem eq_of_effect_set {value : Value} (h : op.IsEdit now)
    (heffect : s.effect op entry = .set now value false idNotAssigned true 0) :
    op = .setEntryValue now entry value := by
  cases h with
  | getOrCreateEntry path => cases heffect
  | setEntryValue target new =>
      simp only [effect] at heffect
      split_ifs at heffect with htarget
      cases heffect
      rw [htarget]
  | deleteEntry target =>
      simp only [effect] at heffect
      split_ifs at heffect
  | deleteEntries path =>
      simp only [effect] at heffect
      split_ifs at heffect

/-- The values of a table fit their paths, and its times are positive and past. -/
structure Supplies (fits : Text → Value → Prop) (now : ℤ) (s : Storage) : Prop where
  coherent : s.Coherent
  values : ∀ path value, s.viewAt path = some value → fits path value
  positive : ∀ path, s.viewAt path ≠ none → 0 < (s.registerAt path).stamp
  stamp_le : ∀ path, (s.registerAt path).stamp ≤ now

variable {fits : Text → Value → Prop}

theorem Supplies.wait (h : s.Supplies fits now) (hlater : now ≤ later) :
    s.Supplies fits later where
  coherent := h.coherent
  values := h.values
  positive := h.positive
  stamp_le path := (h.stamp_le path).trans hlater

theorem Supplies.of_registers (h : s.Supplies fits now)
    (hregisters : ∀ path, s'.registerAt path = s.registerAt path) (hcoherent : s'.Coherent) :
    s'.Supplies fits now := by
  have hview : ∀ path, s'.viewAt path = s.viewAt path := fun path => by
    rw [← content_registerAt, hregisters, content_registerAt]
  refine ⟨hcoherent, fun path => ?_, fun path => ?_, fun path => ?_⟩
  · rw [hview]
    exact h.values path
  · rw [hview, hregisters]
    exact h.positive path
  · rw [hregisters]
    exact h.stamp_le path

/-- An edit changes registers at the time it is made, and keeps them as they should be. -/
theorem Supplies.edit (h : s.Supplies fits now)
    (huniform : ∀ path value other, fits path value → fits path other → value.type = other.type)
    (hop : op.IsEdit later) (hlater : now ≤ later) (hpositive : 0 < later)
    (hset : ∀ entry value data, op = .setEntryValue later entry value →
      s.entries.get? entry = some data → fits data.path value) :
    (s.perform op).Supplies fits later ∧ ∀ path,
      ((s.perform op).registerAt path = s.registerAt path ∧
          (s.perform op).dirtyAt path = s.dirtyAt path) ∨
        (((s.perform op).registerAt path).stamp = later ∧ (s.perform op).dirtyAt path = true) := by
  have hentry : ∀ path,
      ((s.perform op).registerAt path = s.registerAt path ∧
          (s.perform op).dirtyAt path = s.dirtyAt path) ∨
        ((s.perform op).registerAt path).stamp = later ∧ (s.perform op).dirtyAt path = true ∧
          ∀ value, (s.perform op).viewAt path = some value → fits path value := by
    intro path
    rcases h.coherent.entryAt_perform op path with
      ⟨hold, hnew⟩ | ⟨entry, data, hnew, ⟨hdata, hold⟩ | ⟨hold, hcreates, rfl⟩⟩
    · left
      rw [registerAt_of_none hold, registerAt_of_none hnew, dirtyAt_of_none hold,
        dirtyAt_of_none hnew]
      exact ⟨rfl, rfl⟩
    · have hfitting : ∀ value, s.effect op entry = .set later value false idNotAssigned true 0 →
          fits path value := by
        intro value heffect
        rw [← h.coherent.path_of_entryAt hold]
        exact hset entry value data (eq_of_effect_set hop heffect) hdata
      have hfits : ∀ value, s.effect op entry = .set later value false idNotAssigned true 0 →
          data.Fits value := by
        intro value heffect
        cases hlive : data.hasValue with
        | false => exact Or.inl (congrArg Value.type ((h.coherent.sound hdata).empty hlive))
        | true =>
            have hview : s.viewAt path = some data.value := by
              rw [viewAt, hold]
              exact StorageEntry.view_of_live hlive
            exact Or.inr (huniform path _ _ (h.values path _ hview) (hfitting value heffect))
      rcases StorageEntry.register_after_local (isLocal_effect hop entry) hfits with
        hkept | ⟨hstamp, hdirty⟩
      · left
        rw [hkept] at hnew
        rw [registerAt_of_some hold, registerAt_of_some hnew, dirtyAt_of_some hold,
          dirtyAt_of_some hnew]
        exact ⟨rfl, rfl⟩
      · right
        refine ⟨by rw [registerAt_of_some hnew, hstamp], by rw [dirtyAt_of_some hnew, hdirty],
          fun value hview => ?_⟩
        rw [viewAt, hnew] at hview
        rcases StorageEntry.view_after_local (isLocal_effect hop entry) hfits hview with
          heffect | hbefore
        · exact hfitting value heffect
        · apply h.values
          rw [viewAt, hold]
          exact hbefore
    · left
      have hkept : s.effect op entry = .keep := by
        cases hop with
        | getOrCreateEntry created => rfl
        | _ => cases hcreates
      rw [hkept] at hnew
      rw [registerAt_of_none hold, registerAt_of_some hnew, dirtyAt_of_none hold,
        dirtyAt_of_some hnew]
      exact ⟨rfl, rfl⟩
  refine ⟨⟨h.coherent.perform op, ?_, ?_, ?_⟩, fun path => ?_⟩
  · intro path value hview
    rcases hentry path with ⟨hsame, -⟩ | ⟨-, -, hfits⟩
    · rw [← content_registerAt, hsame, content_registerAt] at hview
      exact h.values path value hview
    · exact hfits value hview
  · intro path hview
    rcases hentry path with ⟨hsame, -⟩ | ⟨hstamp, -⟩
    · rw [← content_registerAt, hsame, content_registerAt] at hview
      rw [hsame]
      exact h.positive path hview
    · rw [hstamp]
      exact hpositive
  · intro path
    rcases hentry path with ⟨hsame, -⟩ | ⟨hstamp, -⟩
    · rw [hsame]
      exact (h.stamp_le path).trans hlater
    · exact hstamp.le
  · exact (hentry path).imp_right fun hchanged => ⟨hchanged.1, hchanged.2.1⟩

/-! ## A storage that only listens -/

/-- Entries have the type of their path, and none is to be sent. -/
structure Quiet (τ : Text → ValueType) (s : Storage) : Prop where
  coherent : s.Coherent
  typed : ∀ path data, s.entryAt path = some data → data.Typed (τ path)
  clean : ∀ path data, s.entryAt path = some data → data.dirty = false

/-- What the network brings, of the types of the paths. -/
inductive Operation.Arrives (τ : Text → ValueType) (s : Storage) : Operation → Prop
  | getOrCreateEntry (path : Text) : Arrives τ s (.getOrCreateEntry path)
  | onEntryIdAssigned (id : EntryId) (path : Text) : Arrives τ s (.onEntryIdAssigned id path)
  | onEntryUpdated (now : ℤ) (id : EntryId) (value : Value) (timestamp : ℤ)
      (htyped : ∀ path, s.pathOfId id = some path → value.type = τ path) :
      Arrives τ s (.onEntryUpdated now id value timestamp)
  | onEntryDeleted (now : ℤ) (id : EntryId) (timestamp : ℤ) :
      Arrives τ s (.onEntryDeleted now id timestamp)
  | clearNetIds : Arrives τ s .clearNetIds

variable {τ : Text → ValueType}

theorem Quiet.perform (h : s.Quiet τ) (hop : op.Arrives τ s) : (s.perform op).Quiet τ := by
  have hentry : ∀ path data', (s.perform op).entryAt path = some data' →
      data'.Typed (τ path) ∧ data'.dirty = false := by
    intro path data' hdata'
    rcases h.coherent.entryAt_perform op path with
      ⟨-, hnew⟩ | ⟨entry, data, hnew, ⟨hdata, hold⟩ | ⟨hold, hcreates, rfl⟩⟩
    · rw [hnew] at hdata'
      cases hdata'
    · obtain rfl := Option.some.inj (hnew.symm.trans hdata')
      have htyped := h.typed path data hold
      have hclean := h.clean path data hold
      have hpath := h.coherent.path_of_entryAt hold
      cases hop with
      | getOrCreateEntry created => exact ⟨htyped, hclean⟩
      | onEntryIdAssigned id assigned =>
          simp only [effect]
          split_ifs
          · exact ⟨htyped, hclean⟩
          · exact ⟨htyped, hclean⟩
      | onEntryUpdated now id value timestamp hvalue =>
          simp only [effect]
          split_ifs with hid
          · have hname := pathOfId_of_find hid hdata
            rw [hpath] at hname
            refine ⟨htyped.set (hvalue path hname) now id false timestamp, ?_⟩
            exact (StorageEntry.dirty_set_clean hclean now value id timestamp :)
          · exact ⟨htyped, hclean⟩
      | onEntryDeleted now id timestamp =>
          simp only [effect]
          split_ifs
          · exact ⟨htyped.delete now false timestamp,
              StorageEntry.dirty_delete_clean hclean now timestamp⟩
          · exact ⟨htyped, hclean⟩
      | clearNetIds => exact ⟨htyped, hclean⟩
    · obtain rfl := Option.some.inj (hnew.symm.trans hdata')
      cases hop with
      | getOrCreateEntry created => exact ⟨Or.inl rfl, rfl⟩
      | onEntryIdAssigned id assigned =>
          simp only [effect]
          split_ifs
          · exact ⟨Or.inl rfl, rfl⟩
          · exact ⟨Or.inl rfl, rfl⟩
      | _ => cases hcreates
  refine ⟨h.coherent.perform op, ?_, ?_⟩
  · exact fun path data hdata => (hentry path data hdata).1
  · exact fun path data hdata => (hentry path data hdata).2

theorem entryAt_onClockResync (s : Storage) (clock : Clock) (path : Text) :
    (s.onClockResync clock).entryAt path =
      (s.entryAt path).map (StorageEntry.onClockResync clock) := by
  unfold entryAt
  show ((s.paths.find? path).bind _) = _
  cases s.paths.find? path with
  | none => rfl
  | some entry => exact get?_onClockResync s clock entry

theorem Quiet.onClockResync (h : s.Quiet τ) (clock : Clock) : (s.onClockResync clock).Quiet τ := by
  refine ⟨h.coherent.onClockResync clock, fun path data hdata => ?_, fun path data hdata => ?_⟩
  all_goals
    rw [entryAt_onClockResync, Option.map_eq_some_iff] at hdata
    obtain ⟨old, hold, rfl⟩ := hdata
    obtain ⟨time, htime⟩ := StorageEntry.onClockResync_frame clock old
    rw [htime]
  · exact h.typed path old hold
  · exact h.clean path old hold

/-- A clock that is not set ahead moves no time forward. -/
theorem registerAt_onClockResync (s : Storage) {clock : Clock} (hclock : 0 ≤ clock.offset)
    (path : Text) :
    ((s.onClockResync clock).registerAt path).content = (s.registerAt path).content ∧
      ((s.onClockResync clock).registerAt path).stamp ≤ (s.registerAt path).stamp := by
  unfold registerAt
  rw [entryAt_onClockResync]
  cases s.entryAt path with
  | none => exact ⟨rfl, le_rfl⟩
  | some data =>
      obtain ⟨time, htime⟩ := StorageEntry.onClockResync_frame clock data
      refine ⟨?_, ?_⟩
      · show (data.onClockResync clock).view = data.view
        rw [htime]
        rfl
      · show (data.onClockResync clock).lastUpdateTimestamp ≤ data.lastUpdateTimestamp
        unfold StorageEntry.onClockResync
        split_ifs
        · exact le_rfl
        · show data.lastUpdateTimestamp - clock.offset ≤ data.lastUpdateTimestamp
          omega

/-! ## Passes over the dirty entries -/

/-- A pass keeps what its action keeps together with the clearing of the flag. -/
theorem actOnDirtyEntries_of_step {σ : Type} (storage : σ → Storage)
    (setStorage : σ → Storage → σ) {action : StorageEntry → σ → Bool × σ} {I : σ → Prop}
    (hresumes : ∀ data t, (action data t).1 = true)
    (hstep : ∀ t entry data, I t → (storage t).entries.get? entry = some data →
      data.dirty = true →
        I (setStorage (action data t).2 ((storage (action data t).2).clearDirty entry)))
    {t : σ} (h : I t) : I (actOnDirtyEntries storage setStorage action t) := by
  unfold actOnDirtyEntries
  generalize List.range 256 = handles
  induction handles generalizing t with
  | nil => exact h
  | cons handle handles ih =>
      rw [actOnDirtyEntriesFrom]
      cases hdata : (storage t).entries.get? handle with
      | none => exact ih h
      | some data =>
          simp only
          split_ifs with hdirty
          · have hresume := hresumes data t
            have hnext := hstep t handle data h hdata hdirty
            rcases haction : action data t with ⟨resume, after⟩
            rw [haction] at hresume hnext
            obtain rfl : resume = true := hresume
            exact ih hnext
          · exact ih h

theorem Coherent.clearDirty_at (h : s.Coherent) {data : StorageEntry}
    (hdata : s.entries.get? entry = some data) :
    (s.clearDirty entry).registerAt = s.registerAt ∧
      (s.clearDirty entry).dirtyAt = Function.update s.dirtyAt data.path false := by
  have hat := h.entryAt_modify hdata (fun data => { data with dirty := false }) s.pendingEvents
  constructor
  · funext path
    refine (congrArg (fun found : Option StorageEntry =>
      (found.map StorageEntry.register).getD ⟨0, none⟩) (hat path)).trans ?_
    split_ifs with hpath
    · rw [hpath, registerAt_of_some (h.entryAt_path hdata)]
      rfl
    · rfl
  · funext path
    refine (congrArg (fun found : Option StorageEntry => found.any StorageEntry.dirty)
      (hat path)).trans ?_
    rw [Function.update_apply]
    split_ifs
    · rfl
    · rfl

end Storage

end Obsr
