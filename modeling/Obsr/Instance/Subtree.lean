/-
# Deleting an object

`delete_object` deletes the entries that `is_in` finds in the object, and `is_in` looks
for the path of the object anywhere in that of the entry. What is below the object has
its path and a slash in front. The two agree only where no other path has the one of the
object in it.
-/

import Obsr.Instance.Instance
import Obsr.Storage.Atomic
import Obsr.Storage.Effect

namespace Obsr

open Obsr.Lib

namespace StorageEntry

variable {e : StorageEntry} {object : Text}

/-- The entry is somewhere below the object of that path. -/
def IsBelow (e : StorageEntry) (object : Text) : Prop := object ++ [Instance.slash] <+: e.path

instance (e : StorageEntry) (object : Text) : Decidable (e.IsBelow object) :=
  inferInstanceAs (Decidable (_ <+: _))

theorem IsBelow.isInfix (h : e.IsBelow object) : object <:+: e.path :=
  ((List.prefix_append object [Instance.slash]).trans h).isInfix

/-- A live entry after it was deleted, to be told to the network. -/
def removed (e : StorageEntry) (now : ℤ) : StorageEntry :=
  { e with value := Value.make, deleted := true, dirty := true, lastUpdateTimestamp := now }

/-- What the loop of `delete_entries` does to an entry, with the events. -/
def removeIn (e : StorageEntry) (now : ℤ) (object : Text) : StorageEntry × List Event :=
  if e.isIn object then e.delete now true 0 else (e, [])

theorem removeIn_of_occurs {now : ℤ} (hvalue : e.hasValue = true) (h : object <:+: e.path) :
    e.removeIn now object = (e.removed now, [e.event now .deleted]) := by
  have hin : e.isIn object = true := decide_eq_true h
  rw [removeIn, if_pos hin]
  exact Prod.ext (delete_of_hasValue (isStale_zero e) hvalue now true)
    (events_delete_of_hasValue (isStale_zero e) hvalue now true)

/-- Entries without a value are left alone, and so are those the path does not occur in. -/
theorem removeIn_of_not {now : ℤ} (h : ¬ (e.hasValue = true ∧ object <:+: e.path)) :
    e.removeIn now object = (e, []) := by
  rw [removeIn]
  split_ifs with hin
  · refine delete_of_not_hasValue (Bool.eq_false_iff.mpr fun hvalue => h ⟨hvalue, ?_⟩) ..
    exact of_decide_eq_true hin
  · rfl

theorem deleted_of_hasValue (h : e.hasValue = true) : e.deleted = false := by
  rw [hasValue, Bool.and_eq_true, Bool.not_eq_true', Bool.not_eq_true'] at h
  exact h.2

end StorageEntry

namespace Storage

variable {s : Storage} {now : ℤ} {object : Text}

theorem deleteIfIn_of_some {handle : Handle} {data : StorageEntry}
    (h : s.entries.get? handle = some data) (now : ℤ) (object : Text) :
    deleteIfIn now object s handle =
      s.store handle (data.removeIn now object).1 (data.removeIn now object).2 := by
  rw [deleteIfIn, h, StorageEntry.removeIn]
  dsimp only
  split_ifs
  · rw [deleteEntryInternal_of_some h]
  · exact (store_of_get? h).symm

/-- The events of the loop at a handle. -/
def eventsIn (s : Storage) (now : ℤ) (object : Text) (handle : Handle) : List Event :=
  ((s.entries.get? handle).map fun data => (data.removeIn now object).2).getD []

/-- A turn of the loop changes the entry at its handle and no other. -/
theorem get?_deleteIfIn (s : Storage) (now : ℤ) (object : Text) (handle entry : Handle) :
    (deleteIfIn now object s handle).entries.get? entry =
      (s.entries.get? entry).map fun data =>
        if entry = handle then (data.removeIn now object).1 else data := by
  cases hdata : s.entries.get? handle with
  | none =>
      rw [deleteIfIn, hdata]
      by_cases hentry : entry = handle
      · rw [hentry, hdata]
        rfl
      · simp [hentry]
  | some data =>
      rw [deleteIfIn_of_some hdata]
      by_cases hentry : entry = handle
      · subst hentry
        rw [get?_store_self s hdata, hdata]
        simp
      · rw [get?_store_of_ne s _ _ hentry]
        simp [hentry]

theorem pendingEvents_deleteIfIn (s : Storage) (now : ℤ) (object : Text) (handle : Handle) :
    (deleteIfIn now object s handle).pendingEvents =
      s.pendingEvents ++ s.eventsIn now object handle := by
  cases hdata : s.entries.get? handle with
  | none =>
      rw [deleteIfIn, eventsIn, hdata]
      exact (List.append_nil _).symm
  | some data =>
      rw [deleteIfIn_of_some hdata, eventsIn, hdata]
      rfl

/-- The loop over some handles changes the entries of these. -/
theorem get?_foldl_deleteIfIn {handles : List Handle} (hnodup : handles.Nodup) (s : Storage)
    (entry : Handle) :
    (handles.foldl (deleteIfIn now object) s).entries.get? entry =
      (s.entries.get? entry).map fun data =>
        if entry ∈ handles then (data.removeIn now object).1 else data := by
  induction handles generalizing s with
  | nil => simp
  | cons handle handles ih =>
      obtain ⟨hhandle, hhandles⟩ := List.nodup_cons.mp hnodup
      rw [List.foldl_cons, ih hhandles, get?_deleteIfIn, Option.map_map]
      congr 1
      funext data
      by_cases hentry : entry = handle
      · subst hentry
        simp [hhandle]
      · simp [hentry]

/-- And it tells of them in turn. -/
theorem pendingEvents_foldl_deleteIfIn {handles : List Handle} (hnodup : handles.Nodup)
    (s : Storage) :
    (handles.foldl (deleteIfIn now object) s).pendingEvents =
      s.pendingEvents ++ handles.flatMap (s.eventsIn now object) := by
  induction handles generalizing s with
  | nil => exact (List.append_nil _).symm
  | cons handle handles ih =>
      obtain ⟨hhandle, hhandles⟩ := List.nodup_cons.mp hnodup
      -- what comes later does not look at this handle
      have hrest : handles.flatMap ((deleteIfIn now object s handle).eventsIn now object) =
          handles.flatMap (s.eventsIn now object) := by
        refine List.flatMap_congr fun other hmem => ?_
        have hne : other ≠ handle := fun heq => hhandle (heq ▸ hmem)
        rw [eventsIn, eventsIn, get?_deleteIfIn]
        simp only [if_neg hne, Option.map_id_fun', id_eq]
      rw [List.foldl_cons, ih hhandles, hrest, pendingEvents_deleteIfIn, List.flatMap_cons,
        List.append_assoc]

theorem get?_deleteEntries (s : Storage) (now : ℤ) (object : Text) (entry : Handle) :
    (s.deleteEntries now object).entries.get? entry =
      (s.entries.get? entry).map fun data => (data.removeIn now object).1 := by
  show ((List.range 256).foldl (deleteIfIn now object) s).entries.get? entry = _
  rw [get?_foldl_deleteIfIn List.nodup_range s entry]
  cases hdata : s.entries.get? entry with
  | none => rfl
  | some data => simp [HandleTable.lt_of_get? hdata]

theorem pendingEvents_deleteEntries (s : Storage) (now : ℤ) (object : Text) :
    (s.deleteEntries now object).pendingEvents =
      s.pendingEvents ++ (List.range 256).flatMap (s.eventsIn now object) :=
  pendingEvents_foldl_deleteIfIn List.nodup_range s

/-- The handle of a live entry below the object. -/
def IsBelow (s : Storage) (object : Text) (entry : Handle) : Prop :=
  ∃ data, s.entries.get? entry = some data ∧ data.hasValue = true ∧ data.IsBelow object

/-- The live entries below the object, and these only, are now deleted and dirty, with one
event each. -/
structure DeletesBelow (s : Storage) (now : ℤ) (object : Text) (s' : Storage) : Prop where
  entries : ∀ entry, s'.entries.get? entry = (s.entries.get? entry).map fun data =>
    if data.hasValue = true ∧ data.IsBelow object then data.removed now else data
  events : ∃ below : List Handle, below.Nodup ∧ (∀ entry, entry ∈ below ↔ s.IsBelow object entry) ∧
    s'.pendingEvents = s.pendingEvents ++
      below.filterMap fun entry => (s.entries.get? entry).map (·.event now .deleted)

/-- The path of the object occurs in those of the live entries below it only. -/
def OnlyBelow (s : Storage) (object : Text) : Prop :=
  ∀ entry data, s.entries.get? entry = some data → data.hasValue = true →
    object <:+: data.path → data.IsBelow object

/-- What the loop does to an entry, if only what is below the object has its path. -/
theorem OnlyBelow.removeIn (h : s.OnlyBelow object) {entry : Handle} {data : StorageEntry}
    (hdata : s.entries.get? entry = some data) :
    data.removeIn now object =
      if data.hasValue = true ∧ data.IsBelow object then
        (data.removed now, [data.event now .deleted])
      else (data, []) := by
  split_ifs with hbelow
  · exact StorageEntry.removeIn_of_occurs hbelow.1 hbelow.2.isInfix
  · refine StorageEntry.removeIn_of_not fun hoccurs => hbelow ⟨hoccurs.1, ?_⟩
    exact h entry data hdata hoccurs.1 hoccurs.2

theorem OnlyBelow.deletesBelow (h : s.OnlyBelow object) :
    s.DeletesBelow now object (s.deleteEntries now object) where
  entries entry := by
    rw [get?_deleteEntries]
    cases hdata : s.entries.get? entry with
    | none => rfl
    | some data =>
        rw [Option.map_some, Option.map_some, h.removeIn hdata]
        split_ifs <;> rfl
  events := by
    have hbelow : ∀ entry, s.IsBelow object entry ↔ (s.entries.get? entry).any (fun data =>
        decide (data.hasValue = true ∧ data.IsBelow object)) = true := by
      intro entry
      simp [IsBelow, Option.any_eq_true]
    refine ⟨(List.range 256).filter fun entry => (s.entries.get? entry).any fun data =>
      decide (data.hasValue = true ∧ data.IsBelow object), List.nodup_range.filter _, ?_, ?_⟩
    · intro entry
      rw [List.mem_filter, ← hbelow, and_iff_right_of_imp]
      rintro ⟨data, hdata, -⟩
      exact List.mem_range.mpr (HandleTable.lt_of_get? hdata)
    · rw [pendingEvents_deleteEntries, List.filterMap_filter, List.filterMap_eq_flatMap_toList]
      congr 1
      refine List.flatMap_congr fun entry _ => ?_
      rw [eventsIn]
      cases hdata : s.entries.get? entry with
      | none => rfl
      | some data =>
          rw [Option.map_some, Option.getD_some, h.removeIn hdata, Option.any_some]
          by_cases hlive : data.hasValue = true ∧ data.IsBelow object
          · rw [if_pos hlive, if_pos (decide_eq_true hlive)]
            rfl
          · rw [if_neg hlive, if_neg (by simpa using hlive)]
            rfl

/-- An entry that has the path of the object in it and is not below is deleted as well. -/
theorem onlyBelow_of_deletesBelow
    (h : s.DeletesBelow now object (s.deleteEntries now object)) : s.OnlyBelow object := by
  intro entry data hdata hvalue hoccurs
  by_contra hbelow
  have hentry := h.entries entry
  rw [get?_deleteEntries, hdata, Option.map_some, Option.map_some, if_neg fun hboth =>
    hbelow hboth.2, StorageEntry.removeIn_of_occurs hvalue hoccurs] at hentry
  have hdeleted : true = data.deleted := congrArg StorageEntry.deleted (Option.some.inj hentry)
  rw [StorageEntry.deleted_of_hasValue hvalue] at hdeleted
  cases hdeleted

end Storage

namespace Instance

/-- The deletion succeeds, and it deletes the live entries below the object only. -/
def DeletesSubtree (i : Instance) (now : ℤ) (object : Handle) (data : ObjectData) : Prop :=
  (i.deleteObject now object).2 = .ok () ∧
    i.storage.DeletesBelow now data.path (i.deleteObject now object).1.storage

/-- A deletion of an object deletes its subtree and nothing else exactly if its path occurs
in those of the live entries below it only. -/
theorem deletesSubtree_iff (i : Instance) (now : ℤ) (object : Handle) (data : ObjectData)
    (hroot : object ≠ i.root) (hdata : i.objects.get? object = some data) :
    i.DeletesSubtree now object data ↔ i.storage.OnlyBelow data.path := by
  have hdelete : i.deleteObject now object =
      ({ i with
          storage := i.storage.deleteEntries now data.path
          objects := i.objects.release object }, .ok ()) := by
    rw [deleteObject, if_neg hroot, hdata]
  rw [DeletesSubtree, hdelete]
  dsimp only
  constructor
  · rintro ⟨-, hbelow⟩
    exact Storage.onlyBelow_of_deletesBelow hbelow
  · exact fun honly => ⟨rfl, honly.deletesBelow⟩

/-- The object `/a` with the entry `/a/b` in it. -/
theorem deletesSubtree_below :
    (([.getChild 0 [97], .getEntryIn 1 [98], .setValue 5 0 (.makeBoolean true)] :
        List Call).foldl call new).DeletesSubtree 7 1 ⟨[97], [slash, 97]⟩ ↔
      (([.getChild 0 [97], .getEntryIn 1 [98], .setValue 5 0 (.makeBoolean true)] :
        List Call).foldl call new).storage.OnlyBelow [slash, 97] :=
  deletesSubtree_iff _ 7 1 ⟨[97], [slash, 97]⟩ (by decide +kernel) (by decide +kernel)

/-- The object `/a` next to the entry `/ab`. -/
theorem not_deletesSubtree_beside :
    ¬ (([.getChild 0 [97], .getEntryIn 0 [97, 98], .setValue 5 0 (.makeBoolean true)] :
        List Call).foldl call new).DeletesSubtree 7 1 ⟨[97], [slash, 97]⟩ := by
  rintro ⟨-, hbelow⟩
  have hentry := congrArg (Option.map StorageEntry.deleted) (hbelow.entries 0)
  revert hentry
  decide +kernel

end Instance

end Obsr
