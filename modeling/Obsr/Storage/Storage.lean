/-
# The storage

`storage` keeps the entries in a handle table, with one index by path and one by
network id. An operation that throws keeps what it did before, so the state
stands next to the result in every outcome.

Every operation reads the clock once, as `now`.
-/

import Obsr.Lib.OrderedMap
import Obsr.Storage.Entry
import Obsr.Util.HandleTable

namespace Obsr

open Obsr.Lib

structure Storage where
  entries : HandleTable StorageEntry 256
  paths : OrderedMap Text Handle
  ids : OrderedMap EntryId Handle
  pendingEvents : List Event

namespace Storage

def new : Storage where
  entries := HandleTable.empty
  paths := OrderedMap.empty
  ids := OrderedMap.empty
  pendingEvents := []

def createNewEntry (s : Storage) (path : Text) : Storage × Except Exception Handle :=
  match s.entries.allocateNewWithHandle fun handle => { handle, path, created := true } with
  | .error thrown => (s, .error thrown)
  | .ok (entry, entries) => ({ s with entries, paths := s.paths.emplace path entry }, .ok entry)

/-- Put the changed entry in its slot and the events in the queue. -/
def store (s : Storage) (entry : Handle) (data : StorageEntry) (events : List Event) :
    Storage :=
  { s with
    entries := s.entries.modify entry fun _ => data
    pendingEvents := s.pendingEvents ++ events }

def setEntryInternal (s : Storage) (now : ℤ) (entry : Handle) (value : Value) (clear : Bool)
    (id : EntryId) (markDirty : Bool) (timestamp : ℤ) : Storage × Except Exception Unit :=
  match s.entries.get? entry with
  | none => (s, .error (.noSuchHandle entry))
  | some data =>
      let (data, events, result) := data.set now value clear id markDirty timestamp
      (s.store entry data events, result)

def deleteEntryInternal (s : Storage) (now : ℤ) (entry : Handle) (markDirty : Bool)
    (timestamp : ℤ) : Storage × Except Exception Unit :=
  match s.entries.get? entry with
  | none => (s, .error (.noSuchHandle entry))
  | some data =>
      let (data, events) := data.delete now markDirty timestamp
      (s.store entry data events, .ok ())

/-! ## Local operations -/

def getOrCreateEntry (s : Storage) (path : Text) : Storage × Except Exception Handle :=
  match s.paths.find? path with
  | none => s.createNewEntry path
  | some entry =>
      if s.entries.has entry then (s, .ok entry) else (s, .error (.noSuchHandle entry))

def deleteEntry (s : Storage) (now : ℤ) (entry : Handle) : Storage × Except Exception Unit :=
  s.deleteEntryInternal now entry true 0

/-- Delete the entries whose path the given one occurs in, by handle. -/
def deleteEntries (s : Storage) (now : ℤ) (path : Text) : Storage :=
  (List.range 256).foldl
    (fun s handle =>
      match s.entries.get? handle with
      | none => s
      | some data =>
          if data.isIn path then (s.deleteEntryInternal now handle true 0).1 else s) s

def getEntryValue (s : Storage) (entry : Handle) : Option Value :=
  (s.entries.get? entry).bind StorageEntry.view

def setEntryValue (s : Storage) (now : ℤ) (entry : Handle) (value : Value) :
    Storage × Except Exception Unit :=
  s.setEntryInternal now entry value false idNotAssigned true 0

def clearEntry (s : Storage) (now : ℤ) (entry : Handle) : Storage × Except Exception Unit :=
  s.setEntryInternal now entry Value.make true idNotAssigned true 0

def clearDirty (s : Storage) (entry : Handle) : Storage :=
  { s with entries := s.entries.modify entry fun data => { data with dirty := false } }

/-- What a pass over the dirty entries visits. -/
def dirtyEntries (s : Storage) : List StorageEntry :=
  (List.range 256).filterMap fun handle => (s.entries.get? handle).filter StorageEntry.dirty

section DirtyEntries

/-! The pass over the dirty entries runs inside a larger state `σ`: its action may
use the storage it is called from, next to a state of its own. -/

variable {σ : Type} (storage : σ → Storage) (setStorage : σ → Storage → σ)

/-- `act_on_dirty_entries` from the first of the given handles on. -/
def actOnDirtyEntriesFrom (action : StorageEntry → σ → Bool × σ) : List Handle → σ → σ
  | [], s => s
  | handle :: handles, s =>
      match (storage s).entries.get? handle with
      | none => actOnDirtyEntriesFrom action handles s
      | some data =>
          if data.dirty then
            match action data s with
            | (true, s) =>
                actOnDirtyEntriesFrom action handles
                  (setStorage s ((storage s).clearDirty handle))
            | (false, s) => s
          else actOnDirtyEntriesFrom action handles s

def actOnDirtyEntries (action : StorageEntry → σ → Bool × σ) (s : σ) : σ :=
  actOnDirtyEntriesFrom storage setStorage action (List.range 256) s

theorem actOnDirtyEntriesFrom_of_invariant {action : StorageEntry → σ → Bool × σ}
    {I : σ → Prop}
    (haction : ∀ s handle data, I s → (storage s).entries.get? handle = some data →
      I (action data s).2)
    (hclear : ∀ s handle, I s → I (setStorage s ((storage s).clearDirty handle)))
    (handles : List Handle) {s : σ} (h : I s) :
    I (actOnDirtyEntriesFrom storage setStorage action handles s) := by
  induction handles generalizing s with
  | nil => exact h
  | cons handle handles ih =>
      cases hdata : (storage s).entries.get? handle with
      | none =>
          simp only [actOnDirtyEntriesFrom, hdata]
          exact ih h
      | some data =>
          simp only [actOnDirtyEntriesFrom, hdata]
          split_ifs
          · have hafter := haction s handle data h hdata
            rcases haction : action data s with ⟨resume, after⟩
            rw [haction] at hafter
            cases resume with
            | true => exact ih (hclear after handle hafter)
            | false => exact hafter
          · exact ih h

/-- A pass keeps what its action keeps on every dirty entry, and the clearing of
a flag. -/
theorem actOnDirtyEntries_of_invariant {action : StorageEntry → σ → Bool × σ}
    {I : σ → Prop}
    (haction : ∀ s handle data, I s → (storage s).entries.get? handle = some data →
      I (action data s).2)
    (hclear : ∀ s handle, I s → I (setStorage s ((storage s).clearDirty handle)))
    {s : σ} (h : I s) : I (actOnDirtyEntries storage setStorage action s) :=
  actOnDirtyEntriesFrom_of_invariant storage setStorage haction hclear (List.range 256) h

/-- A pass in one state is a pass in another one, if the action is the same in
both. -/
theorem actOnDirtyEntries_map {τ : Type} {storage' : τ → Storage}
    {setStorage' : τ → Storage → τ} {action : StorageEntry → σ → Bool × σ}
    {action' : StorageEntry → τ → Bool × τ} (f : σ → τ)
    (hstorage : ∀ s, storage' (f s) = storage s)
    (hset : ∀ s new, f (setStorage s new) = setStorage' (f s) new)
    (haction : ∀ data s, action' data (f s) = ((action data s).1, f (action data s).2))
    (s : σ) :
    f (actOnDirtyEntries storage setStorage action s) =
      actOnDirtyEntries storage' setStorage' action' (f s) := by
  unfold actOnDirtyEntries
  generalize List.range 256 = handles
  induction handles generalizing s with
  | nil => rfl
  | cons handle handles ih =>
      rw [actOnDirtyEntriesFrom, actOnDirtyEntriesFrom, hstorage]
      cases (storage s).entries.get? handle with
      | none => exact ih s
      | some data =>
          simp only
          rw [haction]
          split_ifs
          · rcases action data s with ⟨resume, after⟩
            cases resume with
            | true =>
                show _ = actOnDirtyEntriesFrom storage' setStorage' action' handles
                  (setStorage' (f after) ((storage' (f after)).clearDirty handle))
                rw [ih, hset, hstorage]
            | false => rfl
          · exact ih s

/-- An action that only adds to a log, and what a pass with it adds. -/
theorem log_actOnDirtyEntries {α : Type} (action : StorageEntry → σ → Bool × σ)
    (log : σ → List α) (added : StorageEntry → List α)
    (hstorage : ∀ s new, storage (setStorage s new) = new)
    (hlog : ∀ s new, log (setStorage s new) = log s)
    (hresumes : ∀ data s, (action data s).1 = true)
    (hkeeps : ∀ data s, storage (action data s).2 = storage s)
    (hadds : ∀ data s, log (action data s).2 = log s ++ added data) (s : σ) :
    log (actOnDirtyEntries storage setStorage action s) =
      log s ++ (storage s).dirtyEntries.flatMap added := by
  unfold actOnDirtyEntries dirtyEntries
  have hnodup := List.nodup_range (n := 256)
  revert hnodup
  generalize List.range 256 = handles
  intro hnodup
  induction handles generalizing s with
  | nil => exact (List.append_nil _).symm
  | cons handle handles ih =>
      obtain ⟨hhandle, hhandles⟩ := List.nodup_cons.mp hnodup
      rw [actOnDirtyEntriesFrom, List.filterMap_cons]
      cases hdata : (storage s).entries.get? handle with
      | none => exact ih s hhandles
      | some data =>
          simp only [Option.filter_some]
          cases hdirty : data.dirty with
          | false => exact ih s hhandles
          | true =>
              have hresume := hresumes data s
              have hkeep := hkeeps data s
              have hadd := hadds data s
              rcases haction : action data s with ⟨resume, after⟩
              rw [haction] at hresume hkeep hadd
              obtain rfl : resume = true := hresume
              replace hkeep : storage after = storage s := hkeep
              replace hadd : log after = log s ++ added data := hadd
              -- the flag that was cleared is not looked at again
              have hrest : handles.filterMap (fun other =>
                    (((storage s).clearDirty handle).entries.get? other).filter
                      StorageEntry.dirty) =
                  handles.filterMap fun other =>
                    ((storage s).entries.get? other).filter StorageEntry.dirty := by
                refine List.filterMap_congr fun other hother => ?_
                have hne : other ≠ handle := fun heq => hhandle (heq ▸ hother)
                rw [clearDirty, HandleTable.get?_modify_of_ne _ _ hne]
              show log (actOnDirtyEntriesFrom storage setStorage action handles
                (setStorage after ((storage after).clearDirty handle))) = _
              rw [ih _ hhandles, hlog, hstorage, hkeep, hrest, hadd, List.append_assoc]
              rfl

/-- Every call of the action in a pass meets a condition, in the state it is made
in. -/
def ActsMeetFrom (action : StorageEntry → σ → Bool × σ) (ok : StorageEntry → σ → Prop) :
    List Handle → σ → Prop
  | [], _ => True
  | handle :: handles, s =>
      match (storage s).entries.get? handle with
      | none => ActsMeetFrom action ok handles s
      | some data =>
          if data.dirty then
            ok data s ∧
              match action data s with
              | (true, s) =>
                  ActsMeetFrom action ok handles
                    (setStorage s ((storage s).clearDirty handle))
              | (false, _) => True
          else ActsMeetFrom action ok handles s

def ActsMeet (action : StorageEntry → σ → Bool × σ) (ok : StorageEntry → σ → Prop) (s : σ) :
    Prop :=
  ActsMeetFrom storage setStorage action ok (List.range 256) s

/-- The exact rule for a pass: calls that meet the condition keep an invariant,
the first one that does not does lasting damage. -/
theorem actOnDirtyEntries_exact (action : StorageEntry → σ → Bool × σ)
    (ok : StorageEntry → σ → Prop) {I B : σ → Prop}
    (hkeep : ∀ s handle data, I s → (storage s).entries.get? handle = some data →
      ok data s → I (action data s).2)
    (hclear : ∀ s handle, I s → I (setStorage s ((storage s).clearDirty handle)))
    (hbreak : ∀ s handle data, I s → (storage s).entries.get? handle = some data →
      ¬ ok data s → B (action data s).2)
    (hlast : ∀ s data, B s → B (action data s).2)
    (hlastClear : ∀ s handle, B s → B (setStorage s ((storage s).clearDirty handle)))
    {s : σ} (h : I s) :
    (ActsMeet storage setStorage action ok s →
        I (actOnDirtyEntries storage setStorage action s)) ∧
      (¬ ActsMeet storage setStorage action ok s →
        B (actOnDirtyEntries storage setStorage action s)) := by
  have hdamaged : ∀ (handles : List Handle) {s : σ}, B s →
      B (actOnDirtyEntriesFrom storage setStorage action handles s) :=
    actOnDirtyEntriesFrom_of_invariant storage setStorage (fun s _ data hs _ => hlast s data hs)
      hlastClear
  unfold ActsMeet actOnDirtyEntries
  generalize List.range 256 = handles
  induction handles generalizing s with
  | nil => exact ⟨fun _ => h, fun hnot => absurd trivial hnot⟩
  | cons handle handles ih =>
      rw [ActsMeetFrom, actOnDirtyEntriesFrom]
      cases hdata : (storage s).entries.get? handle with
      | none => exact ih h
      | some data =>
          simp only
          by_cases hdirty : data.dirty = true
          · rw [if_pos hdirty, if_pos hdirty]
            by_cases hok : ok data s
            · have hafter := hkeep s handle data h hdata hok
              rcases hact : action data s with ⟨resume, after⟩
              rw [hact] at hafter
              cases resume with
              | true =>
                  obtain ⟨hgood, hbad⟩ := ih (hclear after handle hafter)
                  exact ⟨fun hmeet => hgood hmeet.2, fun hnot => hbad fun hmeet =>
                    hnot ⟨hok, hmeet⟩⟩
              | false => exact ⟨fun _ => hafter, fun hnot => absurd ⟨hok, trivial⟩ hnot⟩
            · have hafter := hbreak s handle data h hdata hok
              refine ⟨fun hmeet => absurd hmeet.1 hok, fun _ => ?_⟩
              rcases hact : action data s with ⟨resume, after⟩
              rw [hact] at hafter
              cases resume with
              | true => exact hdamaged handles (hlastClear after handle hafter)
              | false => exact hafter
          · rw [if_neg hdirty, if_neg hdirty]
            exact ih h

end DirtyEntries

def clearNetIds (s : Storage) : Storage :=
  { s with
    entries := ⟨fun index => (s.entries.data index).map fun data =>
      { data with netId := idNotAssigned }⟩
    ids := OrderedMap.empty }

/-! ## Operations of the network -/

def getEntryValueFromId (s : Storage) (id : EntryId) : Option Value :=
  (s.ids.find? id).bind s.getEntryValue

/-- The entry of a path, created if there is none. -/
def findOrCreate (s : Storage) (path : Text) : Storage × Except Exception Handle :=
  match s.paths.find? path with
  | some entry => (s, .ok entry)
  | none => s.createNewEntry path

def onEntryCreated (s : Storage) (now : ℤ) (id : EntryId) (path : Text) (value : Value)
    (timestamp : ℤ) : Storage × Except Exception Unit :=
  match s.findOrCreate path with
  | (s, .error thrown) => (s, .error thrown)
  | (s, .ok entry) =>
      { s with ids := s.ids.emplace id entry }.setEntryInternal now entry value false id false
        timestamp

def onEntryUpdated (s : Storage) (now : ℤ) (id : EntryId) (value : Value) (timestamp : ℤ) :
    Storage × Except Exception Unit :=
  match s.ids.find? id with
  | none => (s, .ok ())
  | some entry => s.setEntryInternal now entry value false id false timestamp

def onEntryDeleted (s : Storage) (now : ℤ) (id : EntryId) (timestamp : ℤ) :
    Storage × Except Exception Unit :=
  match s.ids.find? id with
  | none => (s, .ok ())
  | some entry => s.deleteEntryInternal now entry false timestamp

def onEntryIdAssigned (s : Storage) (id : EntryId) (path : Text) :
    Storage × Except Exception Unit :=
  match s.findOrCreate path with
  | (s, .error thrown) => (s, .error thrown)
  | (s, .ok entry) =>
      match s.entries.get? entry with
      | none => (s, .error (.noSuchHandle entry))
      | some _ =>
          ({ s with
              entries := s.entries.modify entry fun data => { data with netId := id }
              ids := s.ids.emplace id entry }, .ok ())

end Storage

end Obsr
