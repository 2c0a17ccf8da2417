/-
# Coherence of the storage

The two indices of a storage and its handle table describe the same entries, in
every state a run of its operations can reach. Every operation on an entry is
described by what it does to the entry alone; the storage around it stays.
-/

import Obsr.Lib.Run
import Obsr.Storage.Storage

namespace Obsr

open Obsr.Lib

namespace StorageEntry

variable {e : StorageEntry}

/-- An entry without a value holds the empty one, and a new entry has nothing to
report. -/
structure Sound (e : StorageEntry) : Prop where
  empty : e.hasValue = false → e.value = Value.make
  clean : e.created = true → e.dirty = false

/-! ## Setting and deleting -/

/-- A value can take the place of another one: the other one is empty or of the
same type. -/
def Fits (e : StorageEntry) (value : Value) : Prop :=
  e.value.type = .empty ∨ e.value.type = value.type

instance (e : StorageEntry) (value : Value) : Decidable (e.Fits value) :=
  inferInstanceAs (Decidable (_ ∨ _))

theorem isStale_zero (e : StorageEntry) : e.isStale 0 = false := by
  simp [isStale]

theorem setValue_of_fits {value : Value} (h : e.Fits value) :
    e.setValue value = .ok ({ e with value }, e.value) := by
  refine if_neg ?_
  rintro ⟨hempty, htype⟩
  exact h.elim hempty htype

theorem setValue_of_not_fits {value : Value} (h : ¬ e.Fits value) :
    e.setValue value = .error (.entryTypeMismatch e.handle e.value.type value.type) :=
  if_pos (not_or.mp h)

theorem hasValue_revive (id : EntryId) : (e.revive id).hasValue = true := rfl

theorem set_of_stale {timestamp : ℤ} (h : e.isStale timestamp = true) (now : ℤ)
    (value : Value) (clear : Bool) (id : EntryId) (markDirty : Bool) :
    e.set now value clear id markDirty timestamp = (e, [], .ok ()) := by
  rw [set, if_pos h]

/-- A set that is not stale and clears the entry or fits it. -/
theorem set_of_fits {timestamp : ℤ} (h : e.isStale timestamp = false) {value : Value}
    {clear : Bool} (hfits : clear = false → e.Fits value) (now : ℤ) (id : EntryId)
    (markDirty : Bool) :
    (e.set now value clear id markDirty timestamp).1 =
        { e.revive id with
          value := if clear then Value.make else value
          dirty := markDirty
          lastUpdateTimestamp := stamp timestamp now } ∧
      (e.set now value clear id markDirty timestamp).2.2 = .ok () := by
  rw [set, if_neg (by simp [h])]
  cases clear with
  | true => exact ⟨rfl, rfl⟩
  | false =>
      have hset : (e.revive id).setValue value =
          .ok ({ e.revive id with value }, (e.revive id).value) :=
        setValue_of_fits (hfits rfl)
      simp [hset]

/-- A set of a value of another type throws, after it has revived the entry. -/
theorem set_of_not_fits {timestamp : ℤ} (h : e.isStale timestamp = false) {value : Value}
    (hfits : ¬ e.Fits value) (now : ℤ) (id : EntryId) (markDirty : Bool) :
    (e.set now value false id markDirty timestamp).1 = e.revive id ∧
      ∃ thrown, (e.set now value false id markDirty timestamp).2.2 = .error thrown := by
  have hset : (e.revive id).setValue value =
      .error (.entryTypeMismatch e.handle e.value.type value.type) :=
    setValue_of_not_fits hfits
  rw [set, if_neg (by simp [h])]
  simp [hset]

theorem delete_of_stale {timestamp : ℤ} (h : e.isStale timestamp = true) (now : ℤ)
    (markDirty : Bool) : e.delete now markDirty timestamp = (e, []) := if_pos h

theorem delete_of_not_hasValue (h : e.hasValue = false) (now : ℤ) (markDirty : Bool)
    (timestamp : ℤ) : e.delete now markDirty timestamp = (e, []) := by
  have hdead : (e.created || e.deleted) = true := by
    revert h
    unfold hasValue
    cases e.created <;> cases e.deleted <;> decide
  unfold delete
  split_ifs <;> rfl

theorem delete_of_hasValue {timestamp : ℤ} (hstale : e.isStale timestamp = false)
    (h : e.hasValue = true) (now : ℤ) (markDirty : Bool) :
    (e.delete now markDirty timestamp).1 =
      { e with
        value := Value.make
        deleted := true
        dirty := markDirty
        lastUpdateTimestamp := stamp timestamp now } := by
  have hlive : (e.created || e.deleted) = false := by
    revert h
    unfold hasValue
    cases e.created <;> cases e.deleted <;> decide
  rw [delete, if_neg (by simp [hstale]), if_neg (by simp [hlive])]
  rfl

/-- What a set does to the fields of an entry that no set may change. -/
theorem set_frame (now : ℤ) (value : Value) (clear : Bool) (id : EntryId)
    (markDirty : Bool) (timestamp : ℤ) :
    (e.set now value clear id markDirty timestamp).1.path = e.path ∧
      (e.set now value clear id markDirty timestamp).1.handle = e.handle := by
  cases hstale : e.isStale timestamp with
  | true => rw [set_of_stale hstale]; exact ⟨rfl, rfl⟩
  | false =>
      by_cases hfits : clear = false → e.Fits value
      · rw [(set_of_fits hstale hfits now id markDirty).1]
        exact ⟨rfl, rfl⟩
      · push Not at hfits
        obtain ⟨rfl, hfits⟩ := hfits
        rw [(set_of_not_fits hstale hfits now id markDirty).1]
        exact ⟨rfl, rfl⟩

theorem delete_frame (now : ℤ) (markDirty : Bool) (timestamp : ℤ) :
    (e.delete now markDirty timestamp).1.path = e.path ∧
      (e.delete now markDirty timestamp).1.handle = e.handle ∧
      (e.delete now markDirty timestamp).1.netId = e.netId := by
  unfold delete
  split_ifs <;> exact ⟨rfl, rfl, rfl⟩

theorem Sound.set (h : e.Sound) (now : ℤ) (value : Value) (clear : Bool) (id : EntryId)
    (markDirty : Bool) (timestamp : ℤ) :
    (e.set now value clear id markDirty timestamp).1.Sound := by
  cases hstale : e.isStale timestamp with
  | true => rw [set_of_stale hstale]; exact h
  | false =>
      by_cases hfits : clear = false → e.Fits value
      · rw [(set_of_fits hstale hfits now id markDirty).1]
        exact ⟨fun hdead => Bool.noConfusion hdead, fun hcreated => Bool.noConfusion hcreated⟩
      · push Not at hfits
        obtain ⟨rfl, hfits⟩ := hfits
        rw [(set_of_not_fits hstale hfits now id markDirty).1]
        exact ⟨fun hdead => Bool.noConfusion hdead, fun hcreated => Bool.noConfusion hcreated⟩

theorem Sound.delete (h : e.Sound) (now : ℤ) (markDirty : Bool) (timestamp : ℤ) :
    (e.delete now markDirty timestamp).1.Sound := by
  cases hvalue : e.hasValue with
  | false => rw [delete_of_not_hasValue hvalue]; exact h
  | true =>
      cases hstale : e.isStale timestamp with
      | true => rw [delete_of_stale hstale]; exact h
      | false =>
          rw [delete_of_hasValue hstale hvalue]
          refine ⟨fun _ => rfl, fun hcreated => ?_⟩
          have hnew : e.created = true := hcreated
          simp [hasValue, hnew] at hvalue

end StorageEntry

namespace Storage

variable {s : Storage}

def entryAt (s : Storage) (path : Text) : Option StorageEntry :=
  (s.paths.find? path).bind s.entries.get?

/-- The value at a path, if the path has an entry with one. -/
def viewAt (s : Storage) (path : Text) : Option Value :=
  (s.entryAt path).bind StorageEntry.view

/-- There is no value at any path. -/
def showsNothing (s : Storage) : Bool :=
  s.paths.entries.all fun entry => (s.viewAt entry.1).isNone

theorem showsNothing_iff : s.showsNothing = true ↔ ∀ path, s.viewAt path = none := by
  unfold showsNothing
  rw [List.all_eq_true]
  constructor
  · intro h path
    cases hfound : s.paths.find? path with
    | none =>
        unfold viewAt entryAt
        rw [hfound]
        rfl
    | some entry =>
        have hmem := (s.paths.mem_entries_iff path entry).mpr hfound
        exact Option.isNone_iff_eq_none.mp (h _ hmem)
  · intro h entry _
    exact Option.isNone_iff_eq_none.mpr (h entry.1)

structure Coherent (s : Storage) : Prop where
  entry_of_path : ∀ {path entry}, s.paths.find? path = some entry →
    ∃ data, s.entries.get? entry = some data ∧ data.path = path
  path_of_entry : ∀ {entry data}, s.entries.get? entry = some data →
    s.paths.find? data.path = some entry ∧ data.handle = entry
  entry_of_id : ∀ {id entry}, s.ids.find? id = some entry →
    ∃ data, s.entries.get? entry = some data
  sound : ∀ {entry data}, s.entries.get? entry = some data → data.Sound

theorem coherent_new : new.Coherent where
  entry_of_path h := by simp [new] at h
  path_of_entry h := by simp [new] at h
  entry_of_id h := by simp [new] at h
  sound h := by simp [new] at h

theorem capacity_le_emptyHandle : 256 ≤ emptyHandle := by decide

/-! ## What the operations do to the storage -/

theorem setEntryInternal_of_some {entry : Handle} {data : StorageEntry}
    (h : s.entries.get? entry = some data) (now : ℤ) (value : Value) (clear : Bool)
    (id : EntryId) (markDirty : Bool) (timestamp : ℤ) :
    s.setEntryInternal now entry value clear id markDirty timestamp =
      (s.store entry (data.set now value clear id markDirty timestamp).1
          (data.set now value clear id markDirty timestamp).2.1,
        (data.set now value clear id markDirty timestamp).2.2) := by
  rw [setEntryInternal, h]

theorem setEntryInternal_of_none {entry : Handle} (h : s.entries.get? entry = none)
    (now : ℤ) (value : Value) (clear : Bool) (id : EntryId) (markDirty : Bool)
    (timestamp : ℤ) :
    s.setEntryInternal now entry value clear id markDirty timestamp =
      (s, .error (.noSuchHandle entry)) := by
  rw [setEntryInternal, h]

theorem deleteEntryInternal_of_some {entry : Handle} {data : StorageEntry}
    (h : s.entries.get? entry = some data) (now : ℤ) (markDirty : Bool) (timestamp : ℤ) :
    s.deleteEntryInternal now entry markDirty timestamp =
      (s.store entry (data.delete now markDirty timestamp).1
        (data.delete now markDirty timestamp).2, .ok ()) := by
  rw [deleteEntryInternal, h]

theorem deleteEntryInternal_of_none {entry : Handle} (h : s.entries.get? entry = none)
    (now : ℤ) (markDirty : Bool) (timestamp : ℤ) :
    s.deleteEntryInternal now entry markDirty timestamp =
      (s, .error (.noSuchHandle entry)) := by
  rw [deleteEntryInternal, h]

@[simp]
theorem paths_store (s : Storage) (entry : Handle) (data : StorageEntry)
    (events : List Event) : (s.store entry data events).paths = s.paths := rfl

theorem get?_store_of_ne (s : Storage) {entry other : Handle} (data : StorageEntry)
    (events : List Event) (h : other ≠ entry) :
    (s.store entry data events).entries.get? other = s.entries.get? other :=
  s.entries.get?_modify_of_ne _ h

theorem get?_store_self (s : Storage) {entry : Handle} {old : StorageEntry}
    (h : s.entries.get? entry = some old) (data : StorageEntry) (events : List Event) :
    (s.store entry data events).entries.get? entry = some data :=
  s.entries.get?_modify_self _ h

/-- A new entry of a path that has none. -/
structure Creates (s : Storage) (path : Text) (entry : Handle) (s' : Storage) : Prop where
  fresh : s.entries.get? entry = none
  entries : ∀ other, s'.entries.get? other =
    if other = entry then some { handle := entry, path, created := true }
    else s.entries.get? other
  paths : s'.paths = s.paths.emplace path entry
  ids : s'.ids = s.ids

theorem createNewEntry_eq_ok {path : Text} {entry : Handle} {s' : Storage}
    (h : s.createNewEntry path = (s', .ok entry)) : s.Creates path entry s' := by
  unfold createNewEntry at h
  split at h
  · simp at h
  · rename_i handle entries hallocate
    simp only [Prod.mk.injEq, Except.ok.injEq] at h
    obtain ⟨rfl, rfl⟩ := h
    obtain ⟨hfresh, hentries⟩ :=
      HandleTable.allocateNewWithHandle_eq_ok capacity_le_emptyHandle hallocate
    exact ⟨hfresh, hentries, rfl, rfl⟩

theorem createNewEntry_eq_error {path : Text} {thrown : Exception} {s' : Storage}
    (h : s.createNewEntry path = (s', .error thrown)) : s' = s ∧ ¬ s.entries.HasSpace := by
  unfold createNewEntry at h
  split at h
  · rename_i hallocate
    simp only [Prod.mk.injEq] at h
    exact ⟨h.1.symm, (HandleTable.allocateNewWithHandle_eq_error.mp hallocate).2⟩
  · simp at h

/-- `createNewEntry` succeeds when a slot is free. -/
theorem createNewEntry_of_hasSpace (h : s.entries.HasSpace) (path : Text) :
    ∃ entry s', s.createNewEntry path = (s', .ok entry) := by
  rcases hcreate : s.createNewEntry path with ⟨s', result⟩
  cases result with
  | error thrown => exact absurd h (createNewEntry_eq_error hcreate).2
  | ok entry => exact ⟨entry, s', rfl⟩

theorem createNewEntry_of_not_hasSpace (h : ¬ s.entries.HasSpace) (path : Text) :
    s.createNewEntry path = (s, .error .noSpace) := by
  rw [createNewEntry, HandleTable.allocateNewWithHandle_eq_error.mpr ⟨rfl, h⟩]

/-! ## Coherence is kept -/

/-- Changing an entry without touching its path or its handle. -/
theorem Coherent.modify (h : s.Coherent) (entry : Handle) {f : StorageEntry → StorageEntry}
    (hf : ∀ data, s.entries.get? entry = some data →
      (f data).path = data.path ∧ (f data).handle = data.handle ∧ (f data).Sound)
    (events : List Event) :
    Coherent { s with entries := s.entries.modify entry f, pendingEvents := events } := by
  have hlook : ∀ {other data}, (s.entries.modify entry f).get? other = some data →
      ∃ old, s.entries.get? other = some old ∧ data.path = old.path ∧
        data.handle = old.handle ∧ data.Sound := by
    intro other data hdata
    rw [HandleTable.get?_modify] at hdata
    by_cases hother : other = entry
    · subst hother
      rw [if_pos rfl, Option.map_eq_some_iff] at hdata
      obtain ⟨old, hold, rfl⟩ := hdata
      exact ⟨old, hold, hf old hold⟩
    · rw [if_neg hother] at hdata
      exact ⟨data, hdata, rfl, rfl, h.sound hdata⟩
  have hback : ∀ {other old}, s.entries.get? other = some old →
      ∃ data, (s.entries.modify entry f).get? other = some data ∧ data.path = old.path := by
    intro other old hold
    rw [HandleTable.get?_modify]
    by_cases hother : other = entry
    · subst hother
      rw [if_pos rfl, hold]
      exact ⟨f old, rfl, (hf old hold).1⟩
    · rw [if_neg hother]
      exact ⟨old, hold, rfl⟩
  refine ⟨fun {path other} hpath => ?_, fun {other data} hdata => ?_, fun {id other} hid => ?_,
    fun {other data} hdata => ?_⟩
  · obtain ⟨old, hold, hpathOld⟩ := h.entry_of_path hpath
    obtain ⟨data, hdata, hpathData⟩ := hback hold
    exact ⟨data, hdata, hpathData.trans hpathOld⟩
  · obtain ⟨old, hold, hpath, hhandle, -⟩ := hlook hdata
    rw [hpath, hhandle]
    exact h.path_of_entry hold
  · obtain ⟨old, hold⟩ := h.entry_of_id hid
    obtain ⟨data, hdata, -⟩ := hback hold
    exact ⟨data, hdata⟩
  · obtain ⟨-, -, -, -, hsound⟩ := hlook hdata
    exact hsound

theorem Coherent.creates (h : s.Coherent) {path : Text} {entry : Handle} {s' : Storage}
    (hpath : s.paths.find? path = none) (hcreates : s.Creates path entry s') :
    s'.Coherent := by
  have hlive : ∀ {other data}, s.entries.get? other = some data →
      s'.entries.get? other = some data := by
    intro other data hdata
    have hne : other ≠ entry := by
      rintro rfl
      rw [hcreates.fresh] at hdata
      cases hdata
    rw [hcreates.entries, if_neg hne, hdata]
  refine ⟨fun {other found} hfound => ?_, fun {other data} hdata => ?_,
    fun {id other} hid => ?_, fun {other data} hdata => ?_⟩
  · rw [hcreates.paths] at hfound
    by_cases hother : other = path
    · subst hother
      rw [OrderedMap.find?_emplace_self, hpath] at hfound
      obtain rfl := Option.some.inj hfound
      exact ⟨_, (hcreates.entries _).trans (if_pos rfl), rfl⟩
    · rw [OrderedMap.find?_emplace_of_ne _ _ hother] at hfound
      obtain ⟨data, hdata, hdataPath⟩ := h.entry_of_path hfound
      exact ⟨data, hlive hdata, hdataPath⟩
  · rw [hcreates.entries] at hdata
    rw [hcreates.paths]
    split_ifs at hdata with hother
    · obtain rfl := Option.some.inj hdata
      subst hother
      rw [OrderedMap.find?_emplace_self, hpath]
      exact ⟨rfl, rfl⟩
    · obtain ⟨hdataPath, hhandle⟩ := h.path_of_entry hdata
      have hne : data.path ≠ path := by
        intro heq
        rw [heq, hpath] at hdataPath
        cases hdataPath
      rw [OrderedMap.find?_emplace_of_ne _ _ hne]
      exact ⟨hdataPath, hhandle⟩
  · rw [hcreates.ids] at hid
    obtain ⟨data, hdata⟩ := h.entry_of_id hid
    exact ⟨data, hlive hdata⟩
  · rw [hcreates.entries] at hdata
    split_ifs at hdata with hother
    · obtain rfl := Option.some.inj hdata
      exact ⟨fun _ => rfl, fun _ => rfl⟩
    · exact h.sound hdata

theorem Coherent.emplace_id (h : s.Coherent) (id : EntryId) {entry : Handle}
    {data : StorageEntry} (hdata : s.entries.get? entry = some data) :
    Coherent { s with ids := s.ids.emplace id entry } where
  entry_of_path := h.entry_of_path
  path_of_entry := h.path_of_entry
  entry_of_id {other found} hfound := by
    replace hfound : (s.ids.emplace id entry).find? other = some found := hfound
    rw [OrderedMap.find?_emplace] at hfound
    split_ifs at hfound with hother
    · cases hid : s.ids.find? id with
      | none =>
          rw [hid] at hfound
          obtain rfl := Option.some.inj hfound
          exact ⟨data, hdata⟩
      | some present =>
          rw [hid] at hfound
          obtain rfl := Option.some.inj hfound
          exact h.entry_of_id hid
    · exact h.entry_of_id hfound
  sound := h.sound

theorem Coherent.setEntryInternal (h : s.Coherent) (now : ℤ) (entry : Handle)
    (value : Value) (clear : Bool) (id : EntryId) (markDirty : Bool) (timestamp : ℤ) :
    (s.setEntryInternal now entry value clear id markDirty timestamp).1.Coherent := by
  cases hdata : s.entries.get? entry with
  | none => rw [setEntryInternal_of_none hdata]; exact h
  | some data =>
      rw [setEntryInternal_of_some hdata]
      refine h.modify entry (fun old hold => ?_) _
      rw [hdata] at hold
      obtain rfl := Option.some.inj hold
      obtain ⟨hpath, hhandle⟩ := data.set_frame now value clear id markDirty timestamp
      exact ⟨hpath, hhandle, (h.sound hdata).set now value clear id markDirty timestamp⟩

theorem Coherent.deleteEntryInternal (h : s.Coherent) (now : ℤ) (entry : Handle)
    (markDirty : Bool) (timestamp : ℤ) :
    (s.deleteEntryInternal now entry markDirty timestamp).1.Coherent := by
  cases hdata : s.entries.get? entry with
  | none => rw [deleteEntryInternal_of_none hdata]; exact h
  | some data =>
      rw [deleteEntryInternal_of_some hdata]
      refine h.modify entry (fun old hold => ?_) _
      rw [hdata] at hold
      obtain rfl := Option.some.inj hold
      obtain ⟨hpath, hhandle, -⟩ := data.delete_frame now markDirty timestamp
      exact ⟨hpath, hhandle, (h.sound hdata).delete now markDirty timestamp⟩

/-- `findOrCreate` finds the entry of the path, or creates one, or finds the
table full. -/
theorem findOrCreate_cases (s : Storage) (path : Text) :
    (∃ entry, s.paths.find? path = some entry ∧ s.findOrCreate path = (s, .ok entry)) ∨
      (∃ entry s', s.paths.find? path = none ∧ s.Creates path entry s' ∧
        s.findOrCreate path = (s', .ok entry)) ∨
      (s.paths.find? path = none ∧ ¬ s.entries.HasSpace ∧
        s.findOrCreate path = (s, .error .noSpace)) := by
  unfold findOrCreate
  cases hpath : s.paths.find? path with
  | some entry => exact Or.inl ⟨entry, rfl, rfl⟩
  | none =>
      refine Or.inr ?_
      by_cases hspace : s.entries.HasSpace
      · obtain ⟨entry, s', hcreate⟩ := createNewEntry_of_hasSpace hspace path
        exact Or.inl ⟨entry, s', rfl, createNewEntry_eq_ok hcreate, hcreate⟩
      · exact Or.inr ⟨rfl, hspace, createNewEntry_of_not_hasSpace hspace path⟩

/-- The storage after `findOrCreate` is coherent and has the entry it names. -/
theorem Coherent.findOrCreate (h : s.Coherent) {path : Text} {s' : Storage}
    {result : Except Exception Handle} (hfind : s.findOrCreate path = (s', result)) :
    s'.Coherent ∧ ∀ entry, result = .ok entry →
      s'.paths.find? path = some entry ∧ ∃ data, s'.entries.get? entry = some data := by
  rcases s.findOrCreate_cases path with ⟨entry, hpath, heq⟩ | ⟨entry, t, hpath, hcreates, heq⟩ |
    ⟨-, -, heq⟩
  · obtain ⟨rfl, rfl⟩ := Prod.mk.inj (heq.symm.trans hfind)
    refine ⟨h, fun found hfound => ?_⟩
    obtain rfl := Except.ok.inj hfound
    obtain ⟨data, hdata, -⟩ := h.entry_of_path hpath
    exact ⟨hpath, data, hdata⟩
  · obtain ⟨rfl, rfl⟩ := Prod.mk.inj (heq.symm.trans hfind)
    refine ⟨h.creates hpath hcreates, fun found hfound => ?_⟩
    obtain rfl := Except.ok.inj hfound
    refine ⟨?_, _, (hcreates.entries _).trans (if_pos rfl)⟩
    rw [hcreates.paths, OrderedMap.find?_emplace_self, hpath]
    rfl
  · obtain ⟨rfl, rfl⟩ := Prod.mk.inj (heq.symm.trans hfind)
    exact ⟨h, fun found hfound => by cases hfound⟩

theorem Coherent.onEntryCreated (h : s.Coherent) (now : ℤ) (id : EntryId) (path : Text)
    (value : Value) (timestamp : ℤ) :
    (s.onEntryCreated now id path value timestamp).1.Coherent := by
  unfold Storage.onEntryCreated
  rcases hfind : s.findOrCreate path with ⟨s', result⟩
  obtain ⟨hs', hentry⟩ := h.findOrCreate hfind
  cases result with
  | error thrown => exact hs'
  | ok entry =>
      obtain ⟨-, data, hdata⟩ := hentry entry rfl
      exact (hs'.emplace_id id hdata).setEntryInternal ..

theorem Coherent.onEntryUpdated (h : s.Coherent) (now : ℤ) (id : EntryId) (value : Value)
    (timestamp : ℤ) : (s.onEntryUpdated now id value timestamp).1.Coherent := by
  unfold Storage.onEntryUpdated
  split
  · exact h
  · exact h.setEntryInternal ..

theorem Coherent.onEntryDeleted (h : s.Coherent) (now : ℤ) (id : EntryId) (timestamp : ℤ) :
    (s.onEntryDeleted now id timestamp).1.Coherent := by
  unfold Storage.onEntryDeleted
  split
  · exact h
  · exact h.deleteEntryInternal ..

theorem Coherent.onEntryIdAssigned (h : s.Coherent) (id : EntryId) (path : Text) :
    (s.onEntryIdAssigned id path).1.Coherent := by
  unfold Storage.onEntryIdAssigned
  rcases hfind : s.findOrCreate path with ⟨s', result⟩
  obtain ⟨hs', hentry⟩ := h.findOrCreate hfind
  cases result with
  | error thrown => exact hs'
  | ok entry =>
      obtain ⟨-, data, hdata⟩ := hentry entry rfl
      simp only [hdata]
      have hnamed := hs'.modify entry (f := fun data => { data with netId := id })
        (fun old hold => ⟨rfl, rfl, (hs'.sound hold).empty, (hs'.sound hold).clean⟩)
        s'.pendingEvents
      exact hnamed.emplace_id id (HandleTable.get?_modify_self _ _ hdata)

theorem Coherent.clearDirty (h : s.Coherent) (entry : Handle) :
    (s.clearDirty entry).Coherent :=
  h.modify entry (f := fun data => { data with dirty := false })
    (fun _ hold => ⟨rfl, rfl, (h.sound hold).empty, fun _ => rfl⟩) s.pendingEvents

theorem get?_clearNetIds (s : Storage) (entry : Handle) :
    s.clearNetIds.entries.get? entry =
      (s.entries.get? entry).map fun data => { data with netId := idNotAssigned } := by
  unfold HandleTable.get? clearNetIds
  split_ifs <;> rfl

theorem Coherent.clearNetIds (h : s.Coherent) : s.clearNetIds.Coherent where
  entry_of_path hpath := by
    obtain ⟨data, hdata, hdataPath⟩ := h.entry_of_path hpath
    rw [get?_clearNetIds, hdata]
    exact ⟨_, rfl, hdataPath⟩
  path_of_entry hdata := by
    rw [get?_clearNetIds, Option.map_eq_some_iff] at hdata
    obtain ⟨old, hold, rfl⟩ := hdata
    exact (h.path_of_entry hold :)
  entry_of_id hid := by simp [Storage.clearNetIds] at hid
  sound hdata := by
    rw [get?_clearNetIds, Option.map_eq_some_iff] at hdata
    obtain ⟨old, hold, rfl⟩ := hdata
    exact ⟨(h.sound hold).empty, (h.sound hold).clean⟩

theorem Coherent.getOrCreateEntry (h : s.Coherent) (path : Text) :
    (s.getOrCreateEntry path).1.Coherent := by
  cases hpath : s.paths.find? path with
  | some entry =>
      simp only [Storage.getOrCreateEntry, hpath]
      split_ifs <;> exact h
  | none =>
      simp only [Storage.getOrCreateEntry, hpath]
      rcases hcreate : s.createNewEntry path with ⟨s', result⟩
      cases result with
      | error thrown =>
          rw [(createNewEntry_eq_error hcreate).1]
          exact h
      | ok entry => exact h.creates hpath (createNewEntry_eq_ok hcreate)

theorem Coherent.deleteEntries (h : s.Coherent) (now : ℤ) (path : Text) :
    (s.deleteEntries now path).Coherent := by
  unfold Storage.deleteEntries
  generalize List.range 256 = handles
  induction handles generalizing s with
  | nil => exact h
  | cons handle handles ih =>
      rw [List.foldl_cons]
      refine ih ?_
      cases s.entries.get? handle with
      | none => exact h
      | some data =>
          show Coherent (if _ then _ else s)
          split_ifs
          · exact h.deleteEntryInternal ..
          · exact h

/-! ## Runs -/

/-- One call of an operation. A pass over the dirty entries is a sequence of
calls: those its action makes, and a `clearDirty` for each entry it went on
from. -/
inductive Operation
  | getOrCreateEntry (path : Text)
  | deleteEntry (now : ℤ) (entry : Handle)
  | deleteEntries (now : ℤ) (path : Text)
  | setEntryValue (now : ℤ) (entry : Handle) (value : Value)
  | clearEntry (now : ℤ) (entry : Handle)
  | clearDirty (entry : Handle)
  | clearNetIds
  | onEntryCreated (now : ℤ) (id : EntryId) (path : Text) (value : Value) (timestamp : ℤ)
  | onEntryUpdated (now : ℤ) (id : EntryId) (value : Value) (timestamp : ℤ)
  | onEntryDeleted (now : ℤ) (id : EntryId) (timestamp : ℤ)
  | onEntryIdAssigned (id : EntryId) (path : Text)
  deriving DecidableEq, Repr

def perform (s : Storage) : Operation → Storage
  | .getOrCreateEntry path => (s.getOrCreateEntry path).1
  | .deleteEntry now entry => (s.deleteEntry now entry).1
  | .deleteEntries now path => s.deleteEntries now path
  | .setEntryValue now entry value => (s.setEntryValue now entry value).1
  | .clearEntry now entry => (s.clearEntry now entry).1
  | .clearDirty entry => s.clearDirty entry
  | .clearNetIds => s.clearNetIds
  | .onEntryCreated now id path value timestamp =>
      (s.onEntryCreated now id path value timestamp).1
  | .onEntryUpdated now id value timestamp => (s.onEntryUpdated now id value timestamp).1
  | .onEntryDeleted now id timestamp => (s.onEntryDeleted now id timestamp).1
  | .onEntryIdAssigned id path => (s.onEntryIdAssigned id path).1

theorem Coherent.perform (h : s.Coherent) (op : Operation) : (s.perform op).Coherent := by
  cases op with
  | getOrCreateEntry path => exact h.getOrCreateEntry path
  | deleteEntry now entry => exact h.deleteEntryInternal ..
  | deleteEntries now path => exact h.deleteEntries now path
  | setEntryValue now entry value => exact h.setEntryInternal ..
  | clearEntry now entry => exact h.setEntryInternal ..
  | clearDirty entry => exact h.clearDirty entry
  | clearNetIds => exact h.clearNetIds
  | onEntryCreated now id path value timestamp => exact h.onEntryCreated ..
  | onEntryUpdated now id value timestamp => exact h.onEntryUpdated ..
  | onEntryDeleted now id timestamp => exact h.onEntryDeleted ..
  | onEntryIdAssigned id path => exact h.onEntryIdAssigned ..

/-- A new storage after some operations. -/
def run (ops : List Operation) : Storage := ops.foldl perform new

theorem coherent_run (ops : List Operation) : (run ops).Coherent :=
  foldl_of_invariant (fun _ op hs => hs.perform op) coherent_new ops

end Storage

end Obsr
