/-
# What an operation does to one entry

An operation of the storage reaches each entry in one of five ways, and tells the
listeners what it did there. `Storage.effect` says which way it is, `Storage.base`
which entry it reaches; the two theorems in the middle of the module are all that
a property of single entries over whole runs needs to know of the operations.
-/

import Obsr.Storage.Coherence

namespace Obsr

open Obsr.Lib

/-- What an operation does to an entry. -/
inductive Effect
  | keep
  | set (now : ℤ) (value : Value) (clear : Bool) (id : EntryId) (markDirty : Bool)
      (timestamp : ℤ)
  | delete (now : ℤ) (markDirty : Bool) (timestamp : ℤ)
  | assign (id : EntryId)
  | clean
  deriving DecidableEq, Repr

namespace StorageEntry

variable {e : StorageEntry}

/-- The entry after an effect, and the events of it. -/
def after (e : StorageEntry) : Effect → StorageEntry × List Event
  | .keep => (e, [])
  | .set now value clear id markDirty timestamp =>
      ((e.set now value clear id markDirty timestamp).1,
        (e.set now value clear id markDirty timestamp).2.1)
  | .delete now markDirty timestamp => e.delete now markDirty timestamp
  | .assign id => ({ e with netId := id }, [])
  | .clean => ({ e with dirty := false }, [])

/-- The effect passes the checks of the entry, so that it gets another value or
loses the one it has. -/
def replacedBy (e : StorageEntry) : Effect → Bool
  | .set _ value clear _ _ timestamp =>
      !e.isStale timestamp && (clear || decide (e.Fits value))
  | .delete _ _ timestamp => !e.isStale timestamp && e.hasValue
  | _ => false

/-- The listeners hear of an entry that has a value again, and of the value. -/
def revived (e : StorageEntry) (now : ℤ) : List Event :=
  if e.hasValue then [] else [e.event now .created]

theorem events_set_of_fits {timestamp : ℤ} (h : e.isStale timestamp = false) {value : Value}
    {clear : Bool} (hfits : clear = false → e.Fits value) (now : ℤ) (id : EntryId)
    (markDirty : Bool) :
    (e.set now value clear id markDirty timestamp).2.1 =
      e.revived now ++ [{ e.event now .valueChanged with oldValue := e.value, value }] := by
  rw [set, if_neg (by simp [h])]
  cases clear with
  | true => rfl
  | false =>
      have hset : (e.revive id).setValue value =
          .ok ({ e.revive id with value }, e.value) :=
        setValue_of_fits (hfits rfl)
      simp [hset, revived]

theorem events_set_of_not_fits {timestamp : ℤ} (h : e.isStale timestamp = false) {value : Value}
    (hfits : ¬ e.Fits value) (now : ℤ) (id : EntryId) (markDirty : Bool) :
    (e.set now value false id markDirty timestamp).2.1 = e.revived now := by
  have hset : (e.revive id).setValue value =
      .error (.entryTypeMismatch e.handle e.value.type value.type) :=
    setValue_of_not_fits hfits
  rw [set, if_neg (by simp [h])]
  simp [hset, revived]

theorem entry_of_mem_revived {now : ℤ} {event : Event} (h : event ∈ e.revived now) :
    event.entry = e.handle := by
  unfold revived at h
  split_ifs at h
  · exact absurd h List.not_mem_nil
  · rw [List.mem_singleton.mp h]
    rfl

theorem entry_of_mem_set {now : ℤ} {value : Value} {clear : Bool} {id : EntryId}
    {markDirty : Bool} {timestamp : ℤ} {event : Event}
    (h : event ∈ (e.set now value clear id markDirty timestamp).2.1) :
    event.entry = e.handle := by
  cases hstale : e.isStale timestamp with
  | true =>
      rw [set_of_stale hstale] at h
      exact absurd h List.not_mem_nil
  | false =>
      by_cases hfits : clear = false → e.Fits value
      · rw [events_set_of_fits hstale hfits] at h
        rcases List.mem_append.mp h with hrevived | hchanged
        · exact entry_of_mem_revived hrevived
        · rw [List.mem_singleton.mp hchanged]
          rfl
      · push Not at hfits
        obtain ⟨rfl, hfits⟩ := hfits
        rw [events_set_of_not_fits hstale hfits] at h
        exact entry_of_mem_revived h

theorem events_delete_of_hasValue {timestamp : ℤ} (hstale : e.isStale timestamp = false)
    (h : e.hasValue = true) (now : ℤ) (markDirty : Bool) :
    (e.delete now markDirty timestamp).2 = [e.event now .deleted] := by
  have hlive : (e.created || e.deleted) = false := by
    revert h
    unfold hasValue
    cases e.created <;> cases e.deleted <;> decide
  rw [delete, if_neg (by simp [hstale]), if_neg (by simp [hlive])]

theorem entry_of_mem_delete {now : ℤ} {markDirty : Bool} {timestamp : ℤ} {event : Event}
    (h : event ∈ (e.delete now markDirty timestamp).2) : event.entry = e.handle := by
  unfold delete at h
  split_ifs at h
  · exact absurd h List.not_mem_nil
  · exact absurd h List.not_mem_nil
  · rw [List.mem_singleton.mp h]
    rfl

theorem entry_of_mem_after {effect : Effect} {event : Event}
    (h : event ∈ (e.after effect).2) : event.entry = e.handle := by
  cases effect with
  | set now value clear id markDirty timestamp => exact entry_of_mem_set h
  | delete now markDirty timestamp => exact entry_of_mem_delete h
  | _ => exact absurd h List.not_mem_nil

end StorageEntry

namespace Storage

variable {s : Storage} {entry : Handle}

/-! ## The effect of an operation -/

/-- The entry that stands for a path from now on, if there is room for it. -/
def entryOf (s : Storage) (path : Text) : Option Handle := (s.findOrCreate path).2.toOption

def effect (s : Storage) (op : Operation) (entry : Handle) : Effect :=
  match op with
  | .getOrCreateEntry _ => .keep
  | .deleteEntry now target => if target = entry then .delete now true 0 else .keep
  | .deleteEntries now path =>
      if (s.entries.get? entry).any (·.isIn path) then .delete now true 0 else .keep
  | .setEntryValue now target value =>
      if target = entry then .set now value false idNotAssigned true 0 else .keep
  | .clearEntry now target =>
      if target = entry then .set now Value.make true idNotAssigned true 0 else .keep
  | .clearDirty target => if target = entry then .clean else .keep
  | .clearNetIds => .assign idNotAssigned
  | .onEntryCreated now id path value timestamp =>
      if s.entryOf path = some entry then .set now value false id false timestamp else .keep
  | .onEntryUpdated now id value timestamp =>
      if s.ids.find? id = some entry then .set now value false id false timestamp else .keep
  | .onEntryDeleted now id timestamp =>
      if s.ids.find? id = some entry then .delete now false timestamp else .keep
  | .onEntryIdAssigned id path => if s.entryOf path = some entry then .assign id else .keep

/-- The operation sets or deletes the entry, and is not refused. -/
def replaces (s : Storage) (op : Operation) (entry : Handle) : Bool :=
  (s.entries.get? entry).any fun data => data.replacedBy (s.effect op entry)

/-- The path an operation creates an entry for if it has none. -/
def createdPath : Operation → Option Text
  | .getOrCreateEntry path | .onEntryCreated _ _ path _ _ | .onEntryIdAssigned _ path =>
      some path
  | _ => none

/-- The entry an operation reaches, as it is there already or as it is created. -/
def base (s : Storage) (op : Operation) (entry : Handle) : Option StorageEntry :=
  (s.entries.get? entry).or <|
    (createdPath op).bind fun path =>
      if s.entryOf path = some entry then some { handle := entry, path, created := true }
      else none

/-- The events of an entry. -/
def eventsOf (s : Storage) (entry : Handle) : List Event :=
  s.pendingEvents.filter (·.entry = entry)

/-- The operation reaches an entry as its effect says, and says so. -/
def Reached (s : Storage) (entry : Handle) (before : Option StorageEntry) (effect : Effect)
    (s' : Storage) : Prop :=
  s'.entries.get? entry = before.map (fun data => (data.after effect).1) ∧
    s'.eventsOf entry =
      s.eventsOf entry ++ (before.map fun data => (data.after effect).2).getD []

theorem reached_keep {s' : Storage} (hentry : s'.entries.get? entry = s.entries.get? entry)
    (hevents : s'.pendingEvents = s.pendingEvents) :
    Reached s entry (s.entries.get? entry) .keep s' := by
  constructor
  · rw [hentry]
    exact Option.map_id'.symm
  · rw [eventsOf, hevents]
    cases s.entries.get? entry <;> simp [eventsOf, StorageEntry.after]

/-- Storing an entry with events of its own. -/
theorem reached_store (h : s.Coherent) {target : Handle} {data : StorageEntry}
    (hdata : s.entries.get? target = some data) (effect : Effect) (entry : Handle) :
    Reached s entry (s.entries.get? entry) (if target = entry then effect else .keep)
      (s.store target (data.after effect).1 (data.after effect).2) := by
  have hhandle : data.handle = target := (h.path_of_entry hdata).2
  have hentry : ∀ event ∈ (data.after effect).2, event.entry = target := fun event hevent =>
    (StorageEntry.entry_of_mem_after hevent).trans hhandle
  by_cases htarget : target = entry
  · subst htarget
    rw [if_pos rfl, hdata]
    refine ⟨get?_store_self s hdata _ _, ?_⟩
    have hall : (data.after effect).2.filter (·.entry = target) = (data.after effect).2 :=
      List.filter_eq_self.mpr fun event hevent => decide_eq_true (hentry event hevent)
    show (s.pendingEvents ++ (data.after effect).2).filter _ = _
    rw [List.filter_append, hall]
    rfl
  · rw [if_neg htarget]
    have hnone : (data.after effect).2.filter (·.entry = entry) = [] :=
      List.filter_eq_nil_iff.mpr fun event hevent => by
        rw [hentry event hevent]
        simpa using htarget
    refine ⟨?_, ?_⟩
    · rw [get?_store_of_ne s _ _ (Ne.symm htarget)]
      exact Option.map_id'.symm
    · show (s.pendingEvents ++ (data.after effect).2).filter _ = _
      rw [List.filter_append, hnone]
      cases s.entries.get? entry <;> rfl

theorem reached_setEntryInternal (h : s.Coherent) (now : ℤ) (target : Handle) (value : Value)
    (clear : Bool) (id : EntryId) (markDirty : Bool) (timestamp : ℤ) (entry : Handle) :
    Reached s entry (s.entries.get? entry)
      (if target = entry then .set now value clear id markDirty timestamp else .keep)
      (s.setEntryInternal now target value clear id markDirty timestamp).1 := by
  cases hdata : s.entries.get? target with
  | none =>
      rw [setEntryInternal_of_none hdata]
      split_ifs with htarget
      · subst htarget
        rw [hdata]
        exact ⟨hdata, (List.append_nil _).symm⟩
      · exact reached_keep rfl rfl
  | some data =>
      rw [setEntryInternal_of_some hdata]
      exact reached_store h hdata (.set now value clear id markDirty timestamp) entry

theorem reached_deleteEntryInternal (h : s.Coherent) (now : ℤ) (target : Handle)
    (markDirty : Bool) (timestamp : ℤ) (entry : Handle) :
    Reached s entry (s.entries.get? entry)
      (if target = entry then .delete now markDirty timestamp else .keep)
      (s.deleteEntryInternal now target markDirty timestamp).1 := by
  cases hdata : s.entries.get? target with
  | none =>
      rw [deleteEntryInternal_of_none hdata]
      split_ifs with htarget
      · subst htarget
        rw [hdata]
        exact ⟨hdata, (List.append_nil _).symm⟩
      · exact reached_keep rfl rfl
  | some data =>
      rw [deleteEntryInternal_of_some hdata]
      exact reached_store h hdata (.delete now markDirty timestamp) entry

theorem Reached.of_pendingEvents {t s' : Storage} {before : Option StorageEntry}
    {effect : Effect} (h : Reached t entry before effect s')
    (hevents : t.pendingEvents = s.pendingEvents) : Reached s entry before effect s' := by
  have hsame : t.eventsOf entry = s.eventsOf entry := by rw [eventsOf, hevents, eventsOf]
  exact ⟨h.1, hsame ▸ h.2⟩

theorem Reached.keep_trans {t s' : Storage} {effect : Effect}
    (h : Reached s entry (s.entries.get? entry) .keep t)
    (h' : Reached t entry (t.entries.get? entry) effect s') :
    Reached s entry (s.entries.get? entry) effect s' := by
  have hentry : t.entries.get? entry = s.entries.get? entry := h.1.trans Option.map_id'
  have hevents : t.eventsOf entry = s.eventsOf entry := by
    rw [h.2]
    cases s.entries.get? entry <;> simp [StorageEntry.after]
  rw [← hentry]
  exact ⟨h'.1, hevents ▸ h'.2⟩

theorem Reached.trans_keep {t s' : Storage} {before : Option StorageEntry} {effect : Effect}
    (h : Reached s entry before effect t)
    (h' : Reached t entry (t.entries.get? entry) .keep s') :
    Reached s entry before effect s' := by
  have hentry : s'.entries.get? entry = t.entries.get? entry := h'.1.trans Option.map_id'
  have hevents : s'.eventsOf entry = t.eventsOf entry := by
    rw [h'.2]
    cases t.entries.get? entry <;> simp [StorageEntry.after]
  exact ⟨hentry.trans h.1, hevents.trans h.2⟩

/-! ## Operations that may create an entry -/

theorem pendingEvents_findOrCreate (s : Storage) (path : Text) :
    (s.findOrCreate path).1.pendingEvents = s.pendingEvents := by
  unfold findOrCreate
  cases s.paths.find? path with
  | some entry => rfl
  | none =>
      show (s.createNewEntry path).1.pendingEvents = s.pendingEvents
      unfold createNewEntry
      split <;> rfl

theorem fst_getOrCreateEntry (s : Storage) (path : Text) :
    (s.getOrCreateEntry path).1 = (s.findOrCreate path).1 := by
  unfold getOrCreateEntry findOrCreate
  cases s.paths.find? path with
  | none => rfl
  | some entry =>
      show (if s.entries.has entry then (s, _) else (s, _) :
        Storage × Except Exception Handle).1 = s
      split_ifs <;> rfl

theorem get?_findOrCreate (h : s.Coherent) (path : Text) (entry : Handle) :
    (s.findOrCreate path).1.entries.get? entry =
      (s.entries.get? entry).or
        (if s.entryOf path = some entry then some { handle := entry, path, created := true }
          else none) := by
  unfold entryOf
  rcases s.findOrCreate_cases path with ⟨found, hpath, hfind⟩ |
    ⟨found, t, hpath, hcreates, hfind⟩ | ⟨hpath, hfull, hfind⟩
  · obtain ⟨data, hdata, -⟩ := h.entry_of_path hpath
    rw [hfind]
    show s.entries.get? entry = (s.entries.get? entry).or (if some found = some entry then _ else _)
    split_ifs with hentry
    · rw [← Option.some.inj hentry, hdata]
      rfl
    · exact Option.or_none.symm
  · rw [hfind]
    show t.entries.get? entry = (s.entries.get? entry).or (if some found = some entry then _ else _)
    rw [hcreates.entries]
    by_cases hentry : entry = found
    · subst hentry
      rw [if_pos rfl, if_pos rfl, hcreates.fresh]
      rfl
    · rw [if_neg hentry, if_neg fun heq => hentry (Option.some.inj heq).symm]
      exact Option.or_none.symm
  · rw [hfind]
    show s.entries.get? entry = (s.entries.get? entry).or (if none = some entry then _ else _)
    rw [if_neg (Option.some_ne_none entry).symm]
    exact Option.or_none.symm

theorem base_of_createdPath (h : s.Coherent) {op : Operation} {path : Text}
    (hpath : createdPath op = some path) (entry : Handle) :
    s.base op entry = (s.findOrCreate path).1.entries.get? entry := by
  rw [get?_findOrCreate h, base, hpath]
  rfl

theorem base_of_not_creating {op : Operation} (hpath : createdPath op = none)
    (entry : Handle) : s.base op entry = s.entries.get? entry := by
  rw [base, hpath]
  exact Option.or_none

theorem reached_onEntryCreated (h : s.Coherent) (now : ℤ) (id : EntryId) (path : Text)
    (value : Value) (timestamp : ℤ) (entry : Handle) :
    Reached s entry ((s.findOrCreate path).1.entries.get? entry)
      (if s.entryOf path = some entry then .set now value false id false timestamp else .keep)
      (s.onEntryCreated now id path value timestamp).1 := by
  have hevents := pendingEvents_findOrCreate s path
  unfold entryOf onEntryCreated
  rcases hfind : s.findOrCreate path with ⟨t, result⟩
  rw [hfind] at hevents
  obtain ⟨ht, hentry⟩ := h.findOrCreate hfind
  cases result with
  | error thrown =>
      show Reached s entry (t.entries.get? entry) (if none = some entry then _ else _) t
      rw [if_neg (Option.some_ne_none entry).symm]
      exact (reached_keep rfl rfl).of_pendingEvents hevents
  | ok target =>
      obtain ⟨-, data, hdata⟩ := hentry target rfl
      have hset := reached_setEntryInternal (ht.emplace_id id hdata) now target value false id
        false timestamp entry
      show Reached s entry (t.entries.get? entry) (if some target = some entry then _ else _) _
      simp only [Option.some.injEq]
      exact hset.of_pendingEvents hevents

theorem reached_onEntryIdAssigned (h : s.Coherent) (id : EntryId) (path : Text)
    (entry : Handle) :
    Reached s entry ((s.findOrCreate path).1.entries.get? entry)
      (if s.entryOf path = some entry then .assign id else .keep)
      (s.onEntryIdAssigned id path).1 := by
  have hevents := pendingEvents_findOrCreate s path
  unfold entryOf onEntryIdAssigned
  rcases hfind : s.findOrCreate path with ⟨t, result⟩
  rw [hfind] at hevents
  obtain ⟨ht, hentry⟩ := h.findOrCreate hfind
  cases result with
  | error thrown =>
      show Reached s entry (t.entries.get? entry) (if none = some entry then _ else _) t
      rw [if_neg (Option.some_ne_none entry).symm]
      exact (reached_keep rfl rfl).of_pendingEvents hevents
  | ok target =>
      obtain ⟨-, data, hdata⟩ := hentry target rfl
      show Reached s entry (t.entries.get? entry) (if some target = some entry then _ else _) _
      simp only [Option.some.injEq, hdata]
      split_ifs with htarget
      · subst htarget
        refine Reached.of_pendingEvents (t := t) ?_ hevents
        rw [hdata]
        exact ⟨t.entries.get?_modify_self _ hdata, (List.append_nil _).symm⟩
      · refine Reached.of_pendingEvents (t := t) (reached_keep ?_ rfl) hevents
        exact t.entries.get?_modify_of_ne _ (Ne.symm htarget)

/-- One turn of the loop of `delete_entries`. -/
def deleteIfIn (now : ℤ) (path : Text) (s : Storage) (handle : Handle) : Storage :=
  match s.entries.get? handle with
  | none => s
  | some data => if data.isIn path then (s.deleteEntryInternal now handle true 0).1 else s

theorem reached_deleteIfIn (h : s.Coherent) (now : ℤ) (path : Text) (handle entry : Handle) :
    Reached s entry (s.entries.get? entry)
        (if handle = entry ∧ (s.entries.get? entry).any (·.isIn path) then .delete now true 0
          else .keep)
        (deleteIfIn now path s handle) ∧
      (deleteIfIn now path s handle).Coherent := by
  have hkept : ∀ hnot : ¬ (s.entries.get? handle).any (·.isIn path) = true,
      ¬ (handle = entry ∧ (s.entries.get? entry).any (·.isIn path) = true) := by
    rintro hnot ⟨rfl, hin⟩
    exact hnot hin
  unfold deleteIfIn
  cases hdata : s.entries.get? handle with
  | none =>
      rw [if_neg (hkept (by simp [hdata]))]
      exact ⟨reached_keep rfl rfl, h⟩
  | some data =>
      show Reached s entry _ _ (if _ then _ else s) ∧ Coherent (if _ then _ else s)
      by_cases hin : data.isIn path = true
      · have hdelete := reached_deleteEntryInternal h now handle true 0 entry
        have hsame : (handle = entry ∧ (s.entries.get? entry).any (·.isIn path) = true) ↔
            handle = entry := by
          refine and_iff_left_of_imp ?_
          rintro rfl
          rw [hdata]
          exact hin
        rw [if_pos hin]
        simp only [hsame]
        exact ⟨hdelete, h.deleteEntryInternal ..⟩
      · rw [if_neg hin, if_neg (hkept (by simpa [hdata] using hin))]
        exact ⟨reached_keep rfl rfl, h⟩

/-- The loop of `delete_entries` reaches every handle once. -/
theorem reached_deleteEntriesFrom (h : s.Coherent) (now : ℤ) (path : Text) (entry : Handle)
    {handles : List Handle} (hnodup : handles.Nodup) :
    Reached s entry (s.entries.get? entry)
      (if entry ∈ handles ∧ (s.entries.get? entry).any (·.isIn path) then .delete now true 0
        else .keep)
      (handles.foldl (deleteIfIn now path) s) := by
  induction handles generalizing s with
  | nil =>
      rw [if_neg fun hmem => List.not_mem_nil hmem.1]
      exact reached_keep rfl rfl
  | cons handle handles ih =>
      obtain ⟨hhandle, hhandles⟩ := List.nodup_cons.mp hnodup
      obtain ⟨hfirst, hcoherent⟩ := reached_deleteIfIn h now path handle entry
      have hrest := ih hcoherent hhandles
      rw [List.foldl_cons]
      by_cases hentry : handle = entry
      · subst hentry
        rw [if_neg fun hmem => hhandle hmem.1] at hrest
        simp only [true_and] at hfirst
        simp only [List.mem_cons_self, true_and]
        exact hfirst.trans_keep hrest
      · rw [if_neg fun hmem => hentry hmem.1] at hfirst
        have hsame := hfirst.1.trans Option.map_id'
        have hmem : entry ∈ handle :: handles ↔ entry ∈ handles := by
          rw [List.mem_cons, or_iff_right (Ne.symm hentry)]
        simp only [hmem]
        exact hfirst.keep_trans (by simpa only [hsame] using hrest)

theorem reached_deleteEntries (h : s.Coherent) (now : ℤ) (path : Text) (entry : Handle) :
    Reached s entry (s.entries.get? entry)
      (if (s.entries.get? entry).any (·.isIn path) then .delete now true 0 else .keep)
      (s.deleteEntries now path) := by
  have hloop := reached_deleteEntriesFrom h now path entry (List.nodup_range (n := 256))
  have hmem : (entry ∈ List.range 256 ∧ (s.entries.get? entry).any (·.isIn path) = true) ↔
      (s.entries.get? entry).any (·.isIn path) = true := by
    refine and_iff_right_of_imp fun hin => ?_
    cases hdata : s.entries.get? entry with
    | none =>
        rw [hdata] at hin
        exact Bool.noConfusion hin
    | some data => exact List.mem_range.mpr (HandleTable.lt_of_get? hdata)
  simp only [hmem] at hloop
  exact hloop

/-! ## Every operation -/

/-- Every operation does to an entry what its effect says. -/
theorem reached_perform (h : s.Coherent) (op : Operation) (entry : Handle) :
    Reached s entry (s.base op entry) (s.effect op entry) (s.perform op) := by
  cases op with
  | getOrCreateEntry path =>
      rw [base_of_createdPath h rfl]
      show Reached s entry _ .keep (s.getOrCreateEntry path).1
      rw [fst_getOrCreateEntry]
      exact (reached_keep rfl rfl).of_pendingEvents (pendingEvents_findOrCreate s path)
  | deleteEntry now target =>
      rw [base_of_not_creating rfl]
      exact reached_deleteEntryInternal h now target true 0 entry
  | deleteEntries now path =>
      rw [base_of_not_creating rfl]
      exact reached_deleteEntries h now path entry
  | setEntryValue now target value =>
      rw [base_of_not_creating rfl]
      exact reached_setEntryInternal h now target value false idNotAssigned true 0 entry
  | clearEntry now target =>
      rw [base_of_not_creating rfl]
      exact reached_setEntryInternal h now target Value.make true idNotAssigned true 0 entry
  | clearDirty target =>
      rw [base_of_not_creating rfl]
      show Reached s entry _ (if target = entry then .clean else .keep) (s.clearDirty target)
      split_ifs with htarget
      · subst htarget
        refine ⟨?_, ?_⟩
        · exact (s.entries.get?_modify ..).trans (if_pos rfl)
        · cases s.entries.get? target <;> exact (List.append_nil _).symm
      · exact reached_keep (s.entries.get?_modify_of_ne _ (Ne.symm htarget)) rfl
  | clearNetIds =>
      rw [base_of_not_creating rfl]
      refine ⟨get?_clearNetIds s entry, ?_⟩
      cases s.entries.get? entry <;> exact (List.append_nil _).symm
  | onEntryCreated now id path value timestamp =>
      rw [base_of_createdPath h rfl]
      exact reached_onEntryCreated h now id path value timestamp entry
  | onEntryUpdated now id value timestamp =>
      rw [base_of_not_creating rfl]
      show Reached s entry _ (if _ then _ else _) (s.onEntryUpdated now id value timestamp).1
      unfold onEntryUpdated
      cases hid : s.ids.find? id with
      | none =>
          rw [if_neg (Option.some_ne_none entry).symm]
          exact reached_keep rfl rfl
      | some target =>
          simp only [Option.some.injEq]
          exact reached_setEntryInternal h now target value false id false timestamp entry
  | onEntryDeleted now id timestamp =>
      rw [base_of_not_creating rfl]
      show Reached s entry _ (if _ then _ else _) (s.onEntryDeleted now id timestamp).1
      unfold onEntryDeleted
      cases hid : s.ids.find? id with
      | none =>
          rw [if_neg (Option.some_ne_none entry).symm]
          exact reached_keep rfl rfl
      | some target =>
          simp only [Option.some.injEq]
          exact reached_deleteEntryInternal h now target false timestamp entry
  | onEntryIdAssigned id path =>
      rw [base_of_createdPath h rfl]
      exact reached_onEntryIdAssigned h id path entry

/-- An entry that is there stays, and is what the effect makes of it. -/
theorem get?_perform (h : s.Coherent) (op : Operation) {data : StorageEntry}
    (hdata : s.entries.get? entry = some data) :
    (s.perform op).entries.get? entry = some (data.after (s.effect op entry)).1 := by
  rw [(reached_perform h op entry).1, base, hdata]
  rfl

end Storage

end Obsr
