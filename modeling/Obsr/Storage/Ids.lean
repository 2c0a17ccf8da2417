/-
# Network ids in the storage

The storage knows the id of an entry twice: `m_ids` maps ids to entries, and an
entry holds its net id. This module says what each operation does to the two,
seen through the paths of the entries.
-/

import Obsr.Storage.Coherence

namespace Obsr

open Obsr.Lib

namespace Storage

variable {s s' : Storage} {path : Text} {entry : Handle}

/-- The path of the entry `m_ids` has under an id. -/
def pathOfId (s : Storage) (id : EntryId) : Option Text :=
  ((s.ids.find? id).bind s.entries.get?).map StorageEntry.path

/-- The net id of the entry at a path. -/
def netIdAt (s : Storage) (path : Text) : Option EntryId :=
  (s.entryAt path).map StorageEntry.netId

theorem entryAt_of_find {data : StorageEntry} (hpath : s.paths.find? path = some entry)
    (hdata : s.entries.get? entry = some data) : s.entryAt path = some data := by
  rw [entryAt, hpath, Option.bind_some, hdata]

theorem Coherent.entryAt_path (h : s.Coherent) {data : StorageEntry}
    (hdata : s.entries.get? entry = some data) : s.entryAt data.path = some data :=
  entryAt_of_find (h.path_of_entry hdata).1 hdata

theorem Coherent.path_of_entryAt (h : s.Coherent) {data : StorageEntry}
    (hdata : s.entryAt path = some data) : data.path = path := by
  obtain ⟨found, hfound, hget⟩ := Option.bind_eq_some_iff.mp hdata
  obtain ⟨other, hother, hpath⟩ := h.entry_of_path hfound
  obtain rfl := Option.some.inj (hget.symm.trans hother)
  exact hpath

theorem pathOfId_of_find {id : EntryId} {data : StorageEntry}
    (hid : s.ids.find? id = some entry) (hdata : s.entries.get? entry = some data) :
    s.pathOfId id = some data.path := by
  rw [pathOfId, hid, Option.bind_some, hdata]
  rfl

theorem pathOfId_of_none {id : EntryId} (hid : s.ids.find? id = none) :
    s.pathOfId id = none := by
  rw [pathOfId, hid]
  rfl

/-- Under an id is the entry of a path exactly if the path has that entry. -/
theorem Coherent.pathOfId_eq_some_iff (h : s.Coherent) (id : EntryId) (path : Text) :
    s.pathOfId id = some path ↔
      ∃ entry, s.ids.find? id = some entry ∧ s.paths.find? path = some entry := by
  constructor
  · intro hpath
    obtain ⟨data, hdata, rfl⟩ := Option.map_eq_some_iff.mp hpath
    obtain ⟨entry, hid, hget⟩ := Option.bind_eq_some_iff.mp hdata
    exact ⟨entry, hid, (h.path_of_entry hget).1⟩
  · rintro ⟨entry, hid, hpath⟩
    obtain ⟨data, hdata, rfl⟩ := h.entry_of_path hpath
    exact pathOfId_of_find hid hdata

/-! ## Operations that leave the ids alone -/

/-- Two storages know the same ids; a new entry has none. -/
structure SameIds (s s' : Storage) : Prop where
  pathOfId : ∀ id, s'.pathOfId id = s.pathOfId id
  netIdAt : ∀ id path, id ≠ idNotAssigned →
    (s'.netIdAt path = some id ↔ s.netIdAt path = some id)

theorem SameIds.refl (s : Storage) : SameIds s s := ⟨fun _ => rfl, fun _ _ _ => Iff.rfl⟩

theorem SameIds.trans {t : Storage} (h : SameIds s s') (h' : SameIds s' t) : SameIds s t where
  pathOfId id := (h'.pathOfId id).trans (h.pathOfId id)
  netIdAt id path hid := (h'.netIdAt id path hid).trans (h.netIdAt id path hid)

/-- A field that a change of one entry keeps is the same in every entry. -/
theorem map_get?_modify (s : Storage) (entry : Handle) {f : StorageEntry → StorageEntry}
    {α : Type} (field : StorageEntry → α)
    (hf : ∀ data, s.entries.get? entry = some data → field (f data) = field data)
    (other : Handle) :
    ((s.entries.modify entry f).get? other).map field =
      (s.entries.get? other).map field := by
  rw [HandleTable.get?_modify]
  split_ifs with hother
  · subst hother
    cases hdata : s.entries.get? other with
    | none => rfl
    | some data => exact congrArg some (hf data hdata)
  · rfl

theorem pathOfId_modify (s : Storage) (entry : Handle) {f : StorageEntry → StorageEntry}
    (hf : ∀ data, s.entries.get? entry = some data → (f data).path = data.path)
    (events : List Event) (id : EntryId) :
    pathOfId { s with entries := s.entries.modify entry f, pendingEvents := events } id =
      s.pathOfId id := by
  unfold pathOfId
  cases s.ids.find? id with
  | none => rfl
  | some other => exact map_get?_modify s entry StorageEntry.path hf other

theorem sameIds_modify (s : Storage) (entry : Handle) {f : StorageEntry → StorageEntry}
    (hf : ∀ data, s.entries.get? entry = some data →
      (f data).path = data.path ∧ (f data).netId = data.netId) (events : List Event) :
    SameIds s { s with entries := s.entries.modify entry f, pendingEvents := events } := by
  refine ⟨pathOfId_modify s entry (fun data hdata => (hf data hdata).1) events,
    fun id path _ => ?_⟩
  unfold netIdAt entryAt
  cases s.paths.find? path with
  | none => rfl
  | some other =>
      exact Eq.congr_left (map_get?_modify s entry StorageEntry.netId
        (fun data hdata => (hf data hdata).2) other)

/-- A changed entry shows at its own path only. -/
theorem Coherent.entryAt_modify (h : s.Coherent) {data : StorageEntry}
    (hdata : s.entries.get? entry = some data) (f : StorageEntry → StorageEntry)
    (events : List Event) (other : Text) :
    entryAt { s with entries := s.entries.modify entry f, pendingEvents := events } other =
      if other = data.path then some (f data) else s.entryAt other := by
  unfold entryAt
  split_ifs with hother
  · subst hother
    rw [(h.path_of_entry hdata).1]
    exact s.entries.get?_modify_self f hdata
  · cases hfound : s.paths.find? other with
    | none => rfl
    | some found =>
        have hne : found ≠ entry := by
          rintro rfl
          obtain ⟨present, hpresent, hpath⟩ := h.entry_of_path hfound
          obtain rfl := Option.some.inj (hdata.symm.trans hpresent)
          exact hother hpath.symm
        exact s.entries.get?_modify_of_ne f hne

theorem entryAt_creates (h : s.Coherent) (hpath : s.paths.find? path = none)
    (hcreates : s.Creates path entry s') (other : Text) :
    s'.entryAt other =
      if other = path then some { handle := entry, path, created := true }
      else s.entryAt other := by
  unfold entryAt
  rw [hcreates.paths, OrderedMap.find?_emplace]
  split_ifs with hother
  · rw [hpath]
    exact (hcreates.entries entry).trans (if_pos rfl)
  · cases hfound : s.paths.find? other with
    | none => rfl
    | some found =>
        obtain ⟨data, hdata, -⟩ := h.entry_of_path hfound
        have hne : found ≠ entry := by
          rintro rfl
          rw [hcreates.fresh] at hdata
          cases hdata
        exact (hcreates.entries found).trans (if_neg hne)

theorem pathOfId_creates (h : s.Coherent) (hcreates : s.Creates path entry s')
    (id : EntryId) : s'.pathOfId id = s.pathOfId id := by
  unfold pathOfId
  rw [hcreates.ids]
  cases hid : s.ids.find? id with
  | none => rfl
  | some found =>
      obtain ⟨data, hdata⟩ := h.entry_of_id hid
      have hne : found ≠ entry := by
        rintro rfl
        rw [hcreates.fresh] at hdata
        cases hdata
      rw [Option.bind_some, Option.bind_some, hcreates.entries, if_neg hne]

theorem sameIds_creates (h : s.Coherent) (hpath : s.paths.find? path = none)
    (hcreates : s.Creates path entry s') : SameIds s s' := by
  refine ⟨pathOfId_creates h hcreates, fun id other hid => ?_⟩
  unfold netIdAt
  rw [entryAt_creates h hpath hcreates]
  split_ifs with hother
  · subst hother
    rw [entryAt, hpath]
    refine iff_of_false (fun heq => ?_) (fun heq => by cases heq)
    exact hid (Option.some.inj heq).symm
  · exact Iff.rfl

/-- A set leaves the ids alone if it has no id, or that of its entry, or comes
too late. -/
theorem sameIds_setEntryInternal (s : Storage) (now : ℤ) (entry : Handle) (value : Value)
    (clear : Bool) {id : EntryId} (markDirty : Bool) {timestamp : ℤ}
    (hid : ∀ data, s.entries.get? entry = some data →
      id = idNotAssigned ∨ data.netId = id ∨ data.isStale timestamp = true) :
    SameIds s (s.setEntryInternal now entry value clear id markDirty timestamp).1 := by
  cases hdata : s.entries.get? entry with
  | none => rw [setEntryInternal_of_none hdata]; exact SameIds.refl s
  | some data =>
      rw [setEntryInternal_of_some hdata]
      refine sameIds_modify s entry (fun old hold => ?_) _
      obtain rfl := Option.some.inj (hdata.symm.trans hold)
      refine ⟨(data.set_frame now value clear id markDirty timestamp).1, ?_⟩
      have hrevive : id = idNotAssigned ∨ data.netId = id →
          (data.revive id).netId = data.netId := by
        rintro (rfl | rfl)
        · simp [StorageEntry.revive]
        · simp [StorageEntry.revive]
      cases hstale : data.isStale timestamp with
      | true => rw [StorageEntry.set_of_stale hstale]
      | false =>
          have hknown := hrevive (by simpa [hstale] using hid data hdata)
          by_cases hfits : clear = false → data.Fits value
          · rw [(StorageEntry.set_of_fits hstale hfits now id markDirty).1]
            exact hknown
          · push Not at hfits
            obtain ⟨rfl, hfits⟩ := hfits
            rw [(StorageEntry.set_of_not_fits hstale hfits now id markDirty).1]
            exact hknown

theorem sameIds_deleteEntryInternal (s : Storage) (now : ℤ) (entry : Handle)
    (markDirty : Bool) (timestamp : ℤ) :
    SameIds s (s.deleteEntryInternal now entry markDirty timestamp).1 := by
  cases hdata : s.entries.get? entry with
  | none => rw [deleteEntryInternal_of_none hdata]; exact SameIds.refl s
  | some data =>
      rw [deleteEntryInternal_of_some hdata]
      refine sameIds_modify s entry (fun old hold => ?_) _
      obtain rfl := Option.some.inj (hdata.symm.trans hold)
      obtain ⟨hpath, -, hnetId⟩ := data.delete_frame now markDirty timestamp
      exact ⟨hpath, hnetId⟩

theorem sameIds_clearDirty (s : Storage) (entry : Handle) : SameIds s (s.clearDirty entry) :=
  sameIds_modify s entry (f := fun data => { data with dirty := false })
    (fun _ _ => ⟨rfl, rfl⟩) s.pendingEvents

theorem sameIds_getOrCreateEntry (h : s.Coherent) (path : Text) :
    SameIds s (s.getOrCreateEntry path).1 := by
  cases hpath : s.paths.find? path with
  | some entry =>
      simp only [getOrCreateEntry, hpath]
      split_ifs <;> exact SameIds.refl s
  | none =>
      simp only [getOrCreateEntry, hpath]
      rcases hcreate : s.createNewEntry path with ⟨s', result⟩
      cases result with
      | error thrown =>
          rw [(createNewEntry_eq_error hcreate).1]
          exact SameIds.refl s
      | ok entry => exact sameIds_creates h hpath (createNewEntry_eq_ok hcreate)

theorem sameIds_deleteEntries (s : Storage) (now : ℤ) (path : Text) :
    SameIds s (s.deleteEntries now path) := by
  unfold deleteEntries
  generalize List.range 256 = handles
  induction handles generalizing s with
  | nil => exact SameIds.refl s
  | cons handle handles ih =>
      rw [List.foldl_cons]
      refine SameIds.trans ?_ (ih _)
      cases s.entries.get? handle with
      | none => exact SameIds.refl s
      | some data =>
          show SameIds s (if _ then _ else s)
          split_ifs
          · exact sameIds_deleteEntryInternal ..
          · exact SameIds.refl s

theorem sameIds_onEntryDeleted (s : Storage) (now : ℤ) (id : EntryId) (timestamp : ℤ) :
    SameIds s (s.onEntryDeleted now id timestamp).1 := by
  unfold onEntryDeleted
  split
  · exact SameIds.refl s
  · exact sameIds_deleteEntryInternal ..

/-! ## Operations that bring an id -/

/-- The entry of a path has been found or created. -/
structure Found (s : Storage) (path : Text) (entry : Handle) (s' : Storage) : Prop where
  coherent : s'.Coherent
  find : s'.paths.find? path = some entry
  data : s'.entries.get? entry =
    some ((s.entryAt path).getD { handle := entry, path, created := true })
  entryAt_of_ne : ∀ other, other ≠ path → s'.entryAt other = s.entryAt other
  sameIds : SameIds s s'
  ids : s'.ids = s.ids

theorem Found.data_path (h : s.Found path entry s') :
    ((s.entryAt path).getD { handle := entry, path, created := true }).path = path := by
  obtain ⟨data, hdata, hpath⟩ := h.coherent.entry_of_path h.find
  obtain rfl := Option.some.inj (h.data.symm.trans hdata)
  exact hpath

/-- The path has an entry or can get one. -/
def HasRoom (s : Storage) (path : Text) : Prop :=
  s.paths.find? path ≠ none ∨ s.entries.HasSpace

instance (s : Storage) (path : Text) : Decidable (s.HasRoom path) :=
  inferInstanceAs (Decidable (_ ∨ _))

theorem Coherent.findOrCreate_found (h : s.Coherent) (hroom : s.HasRoom path) :
    ∃ entry s', s.findOrCreate path = (s', .ok entry) ∧ s.Found path entry s' := by
  rcases s.findOrCreate_cases path with ⟨entry, hpath, hfind⟩ |
    ⟨entry, t, hpath, hcreates, hfind⟩ | ⟨hpath, hfull, -⟩
  · obtain ⟨data, hdata, -⟩ := h.entry_of_path hpath
    refine ⟨entry, s, hfind, h, hpath, ?_, fun _ _ => rfl, SameIds.refl s, rfl⟩
    rw [entryAt_of_find hpath hdata, hdata]
    rfl
  · have hcoherent := h.creates hpath hcreates
    refine ⟨entry, t, hfind, hcoherent, ?_, ?_, fun other hother => ?_,
      sameIds_creates h hpath hcreates, hcreates.ids⟩
    · rw [hcreates.paths, OrderedMap.find?_emplace_self, hpath]
      rfl
    · rw [hcreates.entries, if_pos rfl, entryAt, hpath]
      rfl
    · rw [entryAt_creates h hpath hcreates, if_neg hother]
  · exact absurd hroom (not_or.mpr ⟨not_not.mpr hpath, hfull⟩)

theorem findOrCreate_of_not_hasRoom (hroom : ¬ s.HasRoom path) :
    s.findOrCreate path = (s, .error .noSpace) := by
  obtain ⟨hpath, hfull⟩ := not_or.mp hroom
  rw [findOrCreate, not_not.mp hpath]
  exact createNewEntry_of_not_hasSpace hfull path

theorem pathOfId_emplace (s : Storage) {data : StorageEntry}
    (hdata : s.entries.get? entry = some data) (h : s.Coherent) (id other : EntryId) :
    pathOfId { s with ids := s.ids.emplace id entry } other =
      if other = id then some ((s.pathOfId id).getD data.path) else s.pathOfId other := by
  show (((s.ids.emplace id entry).find? other).bind s.entries.get?).map StorageEntry.path = _
  rw [OrderedMap.find?_emplace]
  split_ifs with hother
  · subst hother
    cases hid : s.ids.find? other with
    | none =>
        rw [pathOfId_of_none hid, Option.bind_some]
        exact congrArg (Option.map StorageEntry.path) hdata
    | some found =>
        obtain ⟨present, hpresent⟩ := h.entry_of_id hid
        rw [pathOfId_of_find hid hpresent, Option.bind_some]
        exact congrArg (Option.map StorageEntry.path) hpresent
  · rfl

/-- What the storage knows after an id was brought for a path: a new id stands
for the path, an old one for what it stood for, and the entry at the path has the
id in any case. -/
structure Named (s : Storage) (id : EntryId) (path : Text) (s' : Storage) : Prop where
  pathOfId : ∀ other, s'.pathOfId other =
    if other = id then some ((s.pathOfId id).getD path) else s.pathOfId other
  netIdAt : ∀ other, s'.netIdAt other = if other = path then some id else s.netIdAt other

theorem Named.hasRoom {id : EntryId} (h : s.Named id path s') : s'.HasRoom path := by
  refine Or.inl fun hpath => ?_
  have hnetId := h.netIdAt path
  rw [Storage.netIdAt, entryAt, hpath, if_pos rfl] at hnetId
  cases hnetId

theorem onEntryIdAssigned_named (h : s.Coherent) (hroom : s.HasRoom path) (id : EntryId) :
    ∃ s', s.onEntryIdAssigned id path = (s', .ok ()) ∧ s.Named id path s' := by
  obtain ⟨entry, t, hfind, hfound⟩ := h.findOrCreate_found hroom
  have hdata := hfound.data
  set data := (s.entryAt path).getD { handle := entry, path, created := true }
  have hdataPath : data.path = path := hfound.data_path
  have hnamed := hfound.coherent.modify entry (f := fun data => { data with netId := id })
    (fun old hold => ⟨rfl, rfl, (hfound.coherent.sound hold).empty,
      (hfound.coherent.sound hold).clean⟩) t.pendingEvents
  have hget := t.entries.get?_modify_self (fun data => { data with netId := id }) hdata
  have hsame : ∀ other, Storage.pathOfId
      { t with entries := t.entries.modify entry fun data => { data with netId := id } } other =
        s.pathOfId other := fun other =>
    (pathOfId_modify t entry (f := fun data => { data with netId := id }) (fun _ _ => rfl)
      t.pendingEvents other).trans
      (hfound.sameIds.pathOfId other)
  refine ⟨_, by simp only [onEntryIdAssigned, hfind, hdata]; rfl, fun other => ?_,
    fun other => ?_⟩
  · have hemplace := pathOfId_emplace
      { t with entries := t.entries.modify entry fun data => { data with netId := id } }
      hget hnamed id other
    rw [hsame, hsame] at hemplace
    rw [← hdataPath]
    exact hemplace
  · have hat := hfound.coherent.entryAt_modify hdata
      (fun data => { data with netId := id }) t.pendingEvents other
    rw [hdataPath] at hat
    refine (congrArg (Option.map StorageEntry.netId) hat).trans ?_
    split_ifs with hother
    · rfl
    · rw [hfound.entryAt_of_ne other hother]
      rfl

theorem onEntryIdAssigned_of_not_hasRoom (hroom : ¬ s.HasRoom path) (id : EntryId) :
    s.onEntryIdAssigned id path = (s, .error .noSpace) := by
  rw [onEntryIdAssigned, findOrCreate_of_not_hasRoom hroom]

/-- The time of the last change at a path; zero where there is no entry yet. -/
def lastUpdateAt (s : Storage) (path : Text) : ℤ :=
  ((s.entryAt path).map StorageEntry.lastUpdateTimestamp).getD 0

/-- A change with this timestamp comes too late for the path. -/
def StaleAt (s : Storage) (path : Text) (timestamp : ℤ) : Prop :=
  timestamp ≠ 0 ∧ s.lastUpdateAt path > timestamp

instance (s : Storage) (path : Text) (timestamp : ℤ) : Decidable (s.StaleAt path timestamp) :=
  inferInstanceAs (Decidable (_ ∧ _))

theorem netId_set {data : StorageEntry} {timestamp : ℤ} (now : ℤ) (value : Value)
    (clear : Bool) {id : EntryId} (hid : id ≠ idNotAssigned) (markDirty : Bool) :
    (data.set now value clear id markDirty timestamp).1.netId =
      if data.isStale timestamp then data.netId else id := by
  have hrevive : (data.revive id).netId = id := if_pos hid
  cases hstale : data.isStale timestamp with
  | true => rw [StorageEntry.set_of_stale hstale]; rfl
  | false =>
      by_cases hfits : clear = false → data.Fits value
      · rw [(StorageEntry.set_of_fits hstale hfits now id markDirty).1]
        exact hrevive
      · push Not at hfits
        obtain ⟨rfl, hfits⟩ := hfits
        rw [(StorageEntry.set_of_not_fits hstale hfits now id markDirty).1]
        exact hrevive

/-- A set with an id brings it to the entry, unless it comes too late. -/
theorem Coherent.netIdAt_setEntryInternal (h : s.Coherent) {data : StorageEntry}
    (hdata : s.entries.get? entry = some data) (now : ℤ) (value : Value) (clear : Bool)
    {id : EntryId} (hid : id ≠ idNotAssigned) (markDirty : Bool) (timestamp : ℤ)
    (other : Text) :
    (s.setEntryInternal now entry value clear id markDirty timestamp).1.netIdAt other =
      if other = data.path then some (if data.isStale timestamp then data.netId else id)
      else s.netIdAt other := by
  rw [setEntryInternal_of_some hdata]
  refine (congrArg (Option.map StorageEntry.netId)
    (h.entryAt_modify hdata _ _ other)).trans ?_
  split_ifs with hother hstale
  · exact congrArg some ((netId_set now value clear hid markDirty).trans (if_pos hstale))
  · exact congrArg some ((netId_set now value clear hid markDirty).trans (if_neg hstale))
  · rfl

theorem pathOfId_setEntryInternal (s : Storage) (now : ℤ) (entry : Handle) (value : Value)
    (clear : Bool) (id : EntryId) (markDirty : Bool) (timestamp : ℤ) (other : EntryId) :
    (s.setEntryInternal now entry value clear id markDirty timestamp).1.pathOfId other =
      s.pathOfId other := by
  cases hdata : s.entries.get? entry with
  | none => rw [setEntryInternal_of_none hdata]
  | some data =>
      rw [setEntryInternal_of_some hdata]
      refine pathOfId_modify s entry (fun old hold => ?_) _ other
      obtain rfl := Option.some.inj (hdata.symm.trans hold)
      exact (data.set_frame now value clear id markDirty timestamp).1

theorem pathOfId_onEntryUpdated (s : Storage) (now : ℤ) (id : EntryId) (value : Value)
    (timestamp : ℤ) (other : EntryId) :
    (s.onEntryUpdated now id value timestamp).1.pathOfId other = s.pathOfId other := by
  unfold onEntryUpdated
  split
  · rfl
  · exact pathOfId_setEntryInternal ..

/-- A create that finds room sets the entry of its path, which `m_ids` may have
under its id by then. -/
theorem onEntryCreated_eq (h : s.Coherent) (hroom : s.HasRoom path) (now : ℤ) (id : EntryId)
    (value : Value) (timestamp : ℤ) :
    ∃ entry t, s.Found path entry t ∧
      (s.onEntryCreated now id path value timestamp).1 =
        (Storage.setEntryInternal { t with ids := t.ids.emplace id entry } now entry value false
          id false timestamp).1 := by
  obtain ⟨entry, t, hfind, hfound⟩ := h.findOrCreate_found hroom
  exact ⟨entry, t, hfound, by rw [onEntryCreated, hfind]⟩

/-- A create that finds room brings its id to `m_ids`. -/
theorem pathOfId_onEntryCreated (h : s.Coherent) (hroom : s.HasRoom path) (now : ℤ)
    (id : EntryId) (value : Value) (timestamp : ℤ) (other : EntryId) :
    (s.onEntryCreated now id path value timestamp).1.pathOfId other =
      if other = id then some ((s.pathOfId id).getD path) else s.pathOfId other := by
  obtain ⟨entry, t, hfound, hcreated⟩ := onEntryCreated_eq h hroom now id value timestamp
  rw [hcreated, pathOfId_setEntryInternal, pathOfId_emplace t hfound.data hfound.coherent,
    hfound.sameIds.pathOfId, hfound.sameIds.pathOfId, hfound.data_path]

/-- It brings the id to the entry as well, unless it comes too late. -/
theorem netIdAt_onEntryCreated (h : s.Coherent) (hroom : s.HasRoom path) (now : ℤ)
    {id : EntryId} (hid : id ≠ idNotAssigned) (value : Value) (timestamp : ℤ) (other : Text) :
    (s.onEntryCreated now id path value timestamp).1.netIdAt other =
      if other = path then
        some (if s.StaleAt path timestamp then (s.netIdAt path).getD idNotAssigned else id)
      else s.netIdAt other := by
  obtain ⟨entry, t, hfound, hcreated⟩ := onEntryCreated_eq h hroom now id value timestamp
  have hdata := hfound.data
  have hstale : (((s.entryAt path).getD { handle := entry, path, created := true }).isStale
      timestamp = true) ↔ s.StaleAt path timestamp := by
    unfold StaleAt lastUpdateAt StorageEntry.isStale
    rw [decide_eq_true_iff]
    cases s.entryAt path <;> rfl
  have hnetId : ((s.entryAt path).getD { handle := entry, path, created := true }).netId =
      (s.netIdAt path).getD idNotAssigned := by
    unfold netIdAt
    cases s.entryAt path <;> rfl
  rw [hcreated, (hfound.coherent.emplace_id id hdata).netIdAt_setEntryInternal hdata now value
    false hid false timestamp other, hfound.data_path, hnetId]
  split_ifs with hother hlate hlate' hlate'
  · rfl
  · exact absurd (hstale.mp hlate) hlate'
  · exact absurd (hstale.mpr hlate') hlate
  · rfl
  · exact congrArg (Option.map StorageEntry.netId) (hfound.entryAt_of_ne other hother)

/-- An update whose id the entry has already changes no id. -/
theorem sameIds_onEntryUpdated (s : Storage) (now : ℤ) {id : EntryId} (value : Value)
    (timestamp : ℤ)
    (hid : ∀ entry data, s.ids.find? id = some entry → s.entries.get? entry = some data →
      id = idNotAssigned ∨ data.netId = id) :
    SameIds s (s.onEntryUpdated now id value timestamp).1 := by
  unfold onEntryUpdated
  cases hfound : s.ids.find? id with
  | none => exact SameIds.refl s
  | some entry =>
      refine sameIds_setEntryInternal s now entry value false false (fun data hdata => ?_)
      exact (hid entry data hfound hdata).imp_right Or.inl

theorem onEntryCreated_of_not_hasRoom (hroom : ¬ s.HasRoom path) (now : ℤ) (id : EntryId)
    (value : Value) (timestamp : ℤ) :
    s.onEntryCreated now id path value timestamp = (s, .error .noSpace) := by
  rw [onEntryCreated, findOrCreate_of_not_hasRoom hroom]

/-! ## The entry an id stands for -/

/-- An update and a deletion with the id are made at the entry of the path. -/
def AppliesAt (s : Storage) (id : EntryId) (path : Text) : Prop :=
  ∃ entry, s.paths.find? path = some entry ∧
    (∀ now value timestamp, s.onEntryUpdated now id value timestamp =
      s.setEntryInternal now entry value false id false timestamp) ∧
    ∀ now timestamp, s.onEntryDeleted now id timestamp =
      s.deleteEntryInternal now entry false timestamp

/-- This is so exactly if `m_ids` has the entry of the path under the id. -/
theorem Coherent.appliesAt_iff (h : s.Coherent) (id : EntryId) (path : Text) :
    s.AppliesAt id path ↔ s.pathOfId id = some path := by
  rw [h.pathOfId_eq_some_iff]
  constructor
  · rintro ⟨entry, hpath, hupdated, -⟩
    refine ⟨entry, ?_, hpath⟩
    obtain ⟨data, hdata, -⟩ := h.entry_of_path hpath
    -- a set of the value the entry has, at a new time, shows which entry it is made at
    have hset : (s.onEntryUpdated (data.lastUpdateTimestamp + 1) id data.value 0).1.entries.get?
        entry = some (data.set (data.lastUpdateTimestamp + 1) data.value false id false 0).1 := by
      rw [hupdated, setEntryInternal_of_some hdata]
      exact get?_store_self s hdata _ _
    have hstale := StorageEntry.isStale_zero data
    have hmoved : (data.set (data.lastUpdateTimestamp + 1) data.value false id false 0).1 ≠
        data := by
      rw [(StorageEntry.set_of_fits hstale (fun _ => Or.inr rfl) _ id false).1]
      intro heq
      have htime := congrArg StorageEntry.lastUpdateTimestamp heq
      simp [StorageEntry.stamp] at htime
    by_contra hother
    have hkept : (s.onEntryUpdated (data.lastUpdateTimestamp + 1) id data.value 0).1.entries.get?
        entry = some data := by
      unfold Storage.onEntryUpdated
      cases hid : s.ids.find? id with
      | none => exact hdata
      | some found =>
          have hne : entry ≠ found := fun heq => hother (heq ▸ hid)
          obtain ⟨present, hpresent⟩ := h.entry_of_id hid
          show (s.setEntryInternal _ found _ _ _ _ _).1.entries.get? entry = some data
          rw [setEntryInternal_of_some hpresent]
          exact (s.entries.get?_modify_of_ne _ hne).trans hdata
    exact hmoved (Option.some.inj (hset.symm.trans hkept))
  · rintro ⟨entry, hid, hpath⟩
    refine ⟨entry, hpath, fun now value timestamp => ?_, fun now timestamp => ?_⟩
    · rw [Storage.onEntryUpdated, hid]
    · rw [Storage.onEntryDeleted, hid]

/-- After the ids are cleared, no entry has one. -/
theorem netIdAt_clearNetIds {id : EntryId} (h : s.clearNetIds.netIdAt path = some id) :
    id = idNotAssigned := by
  obtain ⟨data, hdata, rfl⟩ := Option.map_eq_some_iff.mp h
  obtain ⟨entry, -, hget⟩ := Option.bind_eq_some_iff.mp hdata
  rw [get?_clearNetIds] at hget
  obtain ⟨old, -, rfl⟩ := Option.map_eq_some_iff.mp hget
  rfl

/-- The storage comes to know the id by the path: it knows it so already, or it does
not know it and has room for the path. -/
def TakesId (s : Storage) (id : EntryId) (path : Text) : Prop :=
  s.pathOfId id = some path ∨ (s.pathOfId id = none ∧ s.HasRoom path)

instance (s : Storage) (id : EntryId) (path : Text) : Decidable (s.TakesId id path) :=
  inferInstanceAs (Decidable (_ ∨ _))

/-- An assignment leaves the other ids alone, and names the path exactly if the
storage takes the id. -/
theorem pathOfId_onEntryIdAssigned (h : s.Coherent) (id : EntryId) (path : Text) :
    (∀ other, other ≠ id → (s.onEntryIdAssigned id path).1.pathOfId other = s.pathOfId other) ∧
      ((s.onEntryIdAssigned id path).1.pathOfId id = some path ↔ s.TakesId id path) := by
  by_cases hroom : s.HasRoom path
  · obtain ⟨s', hassign, hnamed⟩ := onEntryIdAssigned_named h hroom id
    rw [hassign]
    refine ⟨fun other hother => (hnamed.pathOfId other).trans (if_neg hother), ?_⟩
    show s'.pathOfId id = some path ↔ _
    rw [hnamed.pathOfId, if_pos rfl, TakesId]
    cases s.pathOfId id with
    | none => simp [hroom]
    | some found => simp
  · rw [onEntryIdAssigned_of_not_hasRoom hroom id]
    refine ⟨fun _ _ => rfl, ?_⟩
    show s.pathOfId id = some path ↔ _
    rw [TakesId]
    exact ⟨Or.inl, fun htakes => htakes.resolve_right fun hnew => hroom hnew.2⟩

end Storage

end Obsr
