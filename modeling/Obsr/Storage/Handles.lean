/-
# Handles as names

The users of a storage keep its handles for the life of the program. A path gets its
handle when it is first asked for or received, and nothing takes it away again: deletions
leave the slot, and no slot is ever given to a second path. So in every state the two
indices and the table agree on which paths there are, and a handle stands for the same
path from then on.
-/

import Obsr.Storage.Calls
import Obsr.Storage.Resync

namespace Obsr

open Obsr.Lib

namespace Storage

variable {s : Storage} {path : Text} {entry : Handle}

/-! ## Everything that is called on a storage -/

/-- How an operation ends. -/
def outcomeOf (s : Storage) : Operation → Except Exception Unit
  | .getOrCreateEntry path => (s.getOrCreateEntry path).2.map fun _ => ()
  | .deleteEntry now entry => (s.deleteEntry now entry).2
  | .deleteEntries _ _ => .ok ()
  | .setEntryValue now entry value => (s.setEntryValue now entry value).2
  | .clearEntry now entry => (s.clearEntry now entry).2
  | .clearDirty _ => .ok ()
  | .clearNetIds => .ok ()
  | .onEntryCreated now id path value timestamp =>
      (s.onEntryCreated now id path value timestamp).2
  | .onEntryUpdated now id value timestamp => (s.onEntryUpdated now id value timestamp).2
  | .onEntryDeleted now id timestamp => (s.onEntryDeleted now id timestamp).2
  | .onEntryIdAssigned id path => (s.onEntryIdAssigned id path).2

/-- The path an operation asks for or receives. -/
def requested : Operation → Option Text
  | .getOrCreateEntry path => some path
  | .onEntryCreated _ _ path _ _ => some path
  | .onEntryIdAssigned _ path => some path
  | _ => none

/-- The path of an operation, unless it was refused for lack of space. -/
def granted (s : Storage) (op : Operation) : List Text :=
  match s.outcomeOf op with
  | .error .noSpace => []
  | _ => (requested op).toList

def grantedBy (s : Storage) : List Operation → List Text
  | [] => []
  | op :: ops => s.granted op ++ grantedBy (s.perform op) ops

/-- A call of the program or of the network. The calls that only read, and those of the
listeners, leave the storage as it is. -/
inductive Use
  | call (c : Call)
  | onClockResync (clock : Clock)

def use (s : Storage) : Use → Storage
  | .call c => s.call c
  | .onClockResync clock => s.onClockResync clock

/-- The paths requested or received so far. -/
def knownPaths (s : Storage) : List Use → List Text
  | [] => []
  | .call c :: uses => s.grantedBy (s.operations c) ++ knownPaths (s.call c) uses
  | .onClockResync clock :: uses => knownPaths (s.onClockResync clock) uses

theorem Coherent.use (h : s.Coherent) (u : Use) : (s.use u).Coherent := by
  cases u with
  | call c =>
      show (s.call c).Coherent
      rw [call_eq]
      exact foldl_of_invariant (fun _ op hs => hs.perform op) h (s.operations c)
  | onClockResync clock => exact h.onClockResync clock

/-! ## What an operation does to the paths -/

/-- An operation leaves the paths alone, and a path it was granted is there already, or it
brings in the one path it asks for. -/
inductive PathStep (s : Storage) (op : Operation) : Prop
  | same (paths : (s.perform op).paths = s.paths)
      (there : ∀ path ∈ s.granted op, ∃ entry, s.paths.find? path = some entry)
  | fresh (path : Text) (entry : Handle) (absent : s.paths.find? path = none)
      (paths : (s.perform op).paths = s.paths.emplace path entry)
      (granted : s.granted op = [path])

theorem paths_setEntryInternal (s : Storage) (now : ℤ) (entry : Handle) (value : Value)
    (clear : Bool) (id : EntryId) (markDirty : Bool) (timestamp : ℤ) :
    (s.setEntryInternal now entry value clear id markDirty timestamp).1.paths = s.paths := by
  rw [setEntryInternal]
  cases s.entries.get? entry <;> rfl

theorem paths_deleteEntryInternal (s : Storage) (now : ℤ) (entry : Handle) (markDirty : Bool)
    (timestamp : ℤ) :
    (s.deleteEntryInternal now entry markDirty timestamp).1.paths = s.paths := by
  rw [deleteEntryInternal]
  cases s.entries.get? entry <;> rfl

theorem paths_deleteEntries (s : Storage) (now : ℤ) (path : Text) :
    (s.deleteEntries now path).paths = s.paths := by
  refine foldl_of_invariant (I := fun t : Storage => t.paths = s.paths) ?_ rfl (List.range 256)
  intro t handle ht
  cases t.entries.get? handle with
  | none => exact ht
  | some data =>
      show Storage.paths (if _ then _ else t) = _
      split_ifs
      · rw [paths_deleteEntryInternal, ht]
      · exact ht

/-- A value that is refused is refused for its type. -/
theorem setEntryInternal_ne_noSpace (s : Storage) (now : ℤ) (entry : Handle) (value : Value)
    (clear : Bool) (id : EntryId) (markDirty : Bool) (timestamp : ℤ) :
    (s.setEntryInternal now entry value clear id markDirty timestamp).2 ≠ .error .noSpace := by
  cases hdata : s.entries.get? entry with
  | none => rw [setEntryInternal_of_none hdata]; simp
  | some data =>
      rw [setEntryInternal_of_some hdata]
      cases hstale : data.isStale timestamp with
      | true => simp [StorageEntry.set_of_stale hstale]
      | false =>
          by_cases hfits : clear = false → data.Fits value
          · simp [(StorageEntry.set_of_fits hstale hfits now id markDirty).2]
          · obtain ⟨rfl, hmismatch⟩ := Classical.not_imp.mp hfits
            have hset : (data.revive id).setValue value =
                .error (.entryTypeMismatch data.handle data.value.type value.type) :=
              StorageEntry.setValue_of_not_fits hmismatch
            simp [StorageEntry.set, hstale, hset]

theorem getOrCreateEntry_eq_findOrCreate (h : s.Coherent) (path : Text) :
    s.getOrCreateEntry path = s.findOrCreate path := by
  rw [getOrCreateEntry, findOrCreate]
  cases hpath : s.paths.find? path with
  | none => rfl
  | some entry =>
      obtain ⟨data, hdata, -⟩ := h.entry_of_path hpath
      have hhas : s.entries.has entry = true := by rw [HandleTable.has, hdata]; rfl
      exact if_pos hhas

/-- The operations that look a path up or create it, by what they do with the handle. -/
theorem pathStep_findOrCreate {op : Operation} (hrequested : requested op = some path)
    (hfound : ∀ entry t, s.findOrCreate path = (t, .ok entry) →
      (s.perform op).paths = t.paths ∧ s.outcomeOf op ≠ .error .noSpace)
    (hfull : s.findOrCreate path = (s, .error .noSpace) →
      s.perform op = s ∧ s.outcomeOf op = .error .noSpace) : s.PathStep op := by
  have hgranted : s.outcomeOf op ≠ .error .noSpace → s.granted op = [path] := by
    intro hspace
    rw [granted, hrequested]
    split
    · next hnone => exact absurd hnone hspace
    · rfl
  rcases s.findOrCreate_cases path with ⟨entry, hpath, heq⟩ | ⟨entry, t, hpath, hcreates, heq⟩ |
    ⟨hpath, -, heq⟩
  · obtain ⟨hpaths, hspace⟩ := hfound entry s heq
    refine .same hpaths ?_
    rw [hgranted hspace]
    intro other hother
    obtain rfl := List.mem_singleton.mp hother
    exact ⟨entry, hpath⟩
  · obtain ⟨hpaths, hspace⟩ := hfound entry t heq
    exact .fresh path entry hpath (hpaths.trans hcreates.paths) (hgranted hspace)
  · obtain ⟨hsame, hnone⟩ := hfull heq
    refine .same (by rw [hsame]) ?_
    rw [granted, hnone]
    exact fun other hother => by cases hother

theorem granted_of_not_requested {op : Operation} (h : requested op = none) :
    s.granted op = [] := by
  rw [granted, h]
  split <;> rfl

theorem pathStep_of_not_requested {op : Operation} (h : requested op = none)
    (hpaths : (s.perform op).paths = s.paths) : s.PathStep op := by
  refine .same hpaths ?_
  rw [granted_of_not_requested h]
  exact fun path hpath => by cases hpath

/-- Every operation takes such a step. -/
theorem pathStep (h : s.Coherent) (op : Operation) : s.PathStep op := by
  cases op with
  | getOrCreateEntry path =>
      have hsame := getOrCreateEntry_eq_findOrCreate h path
      refine pathStep_findOrCreate rfl ?_ ?_
      · intro entry t hfind
        simp [perform, outcomeOf, hsame, hfind, Except.map]
      · intro hfind
        simp [perform, outcomeOf, hsame, hfind, Except.map]
  | onEntryCreated now id path value timestamp =>
      refine pathStep_findOrCreate rfl ?_ ?_
      · intro entry t hfind
        simp only [perform, outcomeOf, onEntryCreated, hfind]
        exact ⟨paths_setEntryInternal .., setEntryInternal_ne_noSpace _ _ _ _ _ _ _ _⟩
      · intro hfind
        simp [perform, outcomeOf, onEntryCreated, hfind]
  | onEntryIdAssigned id path =>
      refine pathStep_findOrCreate rfl ?_ ?_
      · intro entry t hfind
        simp only [perform, outcomeOf, onEntryIdAssigned, hfind]
        cases t.entries.get? entry <;> simp
      · intro hfind
        simp [perform, outcomeOf, onEntryIdAssigned, hfind]
  | deleteEntry now entry =>
      exact pathStep_of_not_requested rfl (paths_deleteEntryInternal ..)
  | deleteEntries now path => exact pathStep_of_not_requested rfl (paths_deleteEntries ..)
  | setEntryValue now entry value =>
      exact pathStep_of_not_requested rfl (paths_setEntryInternal ..)
  | clearEntry now entry => exact pathStep_of_not_requested rfl (paths_setEntryInternal ..)
  | clearDirty entry => exact pathStep_of_not_requested rfl rfl
  | clearNetIds => exact pathStep_of_not_requested rfl rfl
  | onEntryUpdated now id value timestamp =>
      refine pathStep_of_not_requested rfl ?_
      show (s.onEntryUpdated now id value timestamp).1.paths = _
      rw [onEntryUpdated]
      cases s.ids.find? id with
      | none => rfl
      | some entry => exact paths_setEntryInternal ..
  | onEntryDeleted now id timestamp =>
      refine pathStep_of_not_requested rfl ?_
      show (s.onEntryDeleted now id timestamp).1.paths = _
      rw [onEntryDeleted]
      cases s.ids.find? id with
      | none => rfl
      | some entry => exact paths_deleteEntryInternal ..

/-! ## Runs -/

/-- The paths known before, with those that were granted. -/
def PathsAre (s : Storage) (known : List Text) : Prop :=
  ∀ path, path ∈ known ↔ ∃ entry, s.paths.find? path = some entry

theorem PathsAre.perform {known : List Text} (h : s.PathsAre known) {op : Operation}
    (hstep : s.PathStep op) : (s.perform op).PathsAre (known ++ s.granted op) := by
  intro path
  rw [List.mem_append, h path]
  cases hstep with
  | same hpaths hthere =>
      rw [hpaths]
      exact or_iff_left_of_imp (hthere path)
  | fresh new entry habsent hpaths hgranted =>
      rw [hpaths, hgranted, List.mem_singleton]
      by_cases hnew : path = new
      · subst hnew
        rw [OrderedMap.find?_emplace_self]
        exact iff_of_true (.inr rfl) ⟨_, rfl⟩
      · rw [OrderedMap.find?_emplace_of_ne _ _ hnew]
        exact or_iff_left hnew

/-- No operation takes a handle away. -/
theorem find?_perform (hstep : s.PathStep op) (hpath : s.paths.find? path = some entry) :
    (s.perform op).paths.find? path = some entry := by
  cases hstep with
  | same hpaths _ => rw [hpaths, hpath]
  | fresh new handle habsent hpaths _ =>
      rw [hpaths]
      exact OrderedMap.find?_emplace_of_some hpath

theorem operations_of_invariant {I : Storage → List Text → Prop}
    (hperform : ∀ s known op, s.Coherent → I s known → I (s.perform op) (known ++ s.granted op))
    {known : List Text} (ops : List Operation) (hcoherent : s.Coherent) (h : I s known) :
    I (ops.foldl perform s) (known ++ s.grantedBy ops) := by
  induction ops generalizing s known with
  | nil => rwa [grantedBy, List.append_nil]
  | cons op ops ih =>
      rw [List.foldl_cons, grantedBy, ← List.append_assoc]
      exact ih (hcoherent.perform op) (hperform s known op hcoherent h)

/-- The invariant rule for the calls of a storage. -/
theorem uses_of_invariant {I : Storage → List Text → Prop}
    (hperform : ∀ s known op, s.Coherent → I s known → I (s.perform op) (known ++ s.granted op))
    (hresync : ∀ s known clock, I s known → I (s.onClockResync clock) known)
    {known : List Text} (uses : List Use) (hcoherent : s.Coherent) (h : I s known) :
    (uses.foldl use s).Coherent ∧ I (uses.foldl use s) (known ++ s.knownPaths uses) := by
  induction uses generalizing s known with
  | nil => exact ⟨hcoherent, by rwa [knownPaths, List.append_nil]⟩
  | cons u uses ih =>
      rw [List.foldl_cons]
      cases u with
      | call c =>
          have hcall := operations_of_invariant hperform (s.operations c) hcoherent h
          rw [← call_eq] at hcall
          rw [knownPaths, ← List.append_assoc]
          exact ih (hcoherent.use (.call c)) hcall
      | onClockResync clock => exact ih (hcoherent.onClockResync clock) (hresync s known clock h)

/-! ## Stable names -/

/-- The paths and the handles of a state name each other. -/
structure Names (s : Storage) (known : List Text) : Prop where
  /-- A path has a handle if and only if it is known. -/
  known : ∀ path, path ∈ known ↔ ∃ entry, s.paths.find? path = some entry
  /-- A handle is live if and only if it is the handle of a path. -/
  live : ∀ entry, (∃ data, s.entries.get? entry = some data) ↔
    ∃ path, s.paths.find? path = some entry
  /-- No two paths have one handle. -/
  injective : ∀ {path path' entry}, s.paths.find? path = some entry →
    s.paths.find? path' = some entry → path = path'
  path : ∀ {path entry}, s.paths.find? path = some entry →
    ∃ data, s.entries.get? entry = some data ∧ data.path = path
  ids : ∀ {id entry}, s.ids.find? id = some entry → ∃ data, s.entries.get? entry = some data

theorem names_of_coherent (h : s.Coherent) {known : List Text} (hknown : s.PathsAre known) :
    s.Names known where
  known := hknown
  live entry := by
    constructor
    · rintro ⟨data, hdata⟩
      exact ⟨data.path, (h.path_of_entry hdata).1⟩
    · rintro ⟨path, hpath⟩
      obtain ⟨data, hdata, -⟩ := h.entry_of_path hpath
      exact ⟨data, hdata⟩
  injective := by
    intro path path' entry hpath hpath'
    obtain ⟨data, hdata, rfl⟩ := h.entry_of_path hpath
    obtain ⟨data', hdata', rfl⟩ := h.entry_of_path hpath'
    rw [Option.some.inj (hdata.symm.trans hdata')]
  path := h.entry_of_path
  ids := h.entry_of_id

/-- A later state knows every handle under the same path. -/
structure KeepsNames (s later : Storage) : Prop where
  handle : ∀ {path entry}, s.paths.find? path = some entry →
    later.paths.find? path = some entry ∧
      ∃ data, later.entries.get? entry = some data ∧ data.path = path

/-- What a storage answers when it is asked for a path. -/
structure Answers (s : Storage) : Prop where
  /-- The handle of a path that has one, and nothing else happens. -/
  found : ∀ {path entry}, s.paths.find? path = some entry →
    s.getOrCreateEntry path = (s, .ok entry)
  /-- The branch of an index without its entry is never taken. -/
  neverDangling : ∀ path handle, (s.getOrCreateEntry path).2 ≠ .error (.noSuchHandle handle)
  /-- Without a free slot, a new path is refused and nothing changes. -/
  full : (∀ index, s.entries.data index ≠ none) → ∀ path, s.paths.find? path = none →
    s.getOrCreateEntry path = (s, .error .noSpace) ∧
      (∀ now id value timestamp,
        s.onEntryCreated now id path value timestamp = (s, .error .noSpace)) ∧
      ∀ id, s.onEntryIdAssigned id path = (s, .error .noSpace)

theorem answers_of_coherent (h : s.Coherent) : s.Answers where
  found := by
    intro path entry hpath
    rw [getOrCreateEntry_eq_findOrCreate h, findOrCreate, hpath]
  neverDangling := by
    intro path handle
    rw [getOrCreateEntry_eq_findOrCreate h]
    rcases s.findOrCreate_cases path with ⟨entry, -, heq⟩ | ⟨entry, t, -, -, heq⟩ | ⟨-, -, heq⟩ <;>
      simp [heq]
  full := by
    intro hused path hpath
    have hroom : ¬ s.HasRoom path := by
      rintro (hknown | ⟨index, hfree⟩)
      · exact hknown hpath
      · exact hused index hfree
    have hfind := findOrCreate_of_not_hasRoom hroom
    refine ⟨(getOrCreateEntry_eq_findOrCreate h path).trans hfind, ?_, ?_⟩
    · intro now id value timestamp
      exact onEntryCreated_of_not_hasRoom hroom now id value timestamp
    · intro id
      exact onEntryIdAssigned_of_not_hasRoom hroom id

theorem find?_use (h : s.Coherent) (u : Use) (hpath : s.paths.find? path = some entry) :
    (s.use u).paths.find? path = some entry := by
  cases u with
  | call c =>
      show (s.call c).paths.find? path = some entry
      rw [call_eq]
      refine (foldl_of_invariant
        (I := fun t : Storage => t.Coherent ∧ t.paths.find? path = some entry) ?_
        ⟨h, hpath⟩ (s.operations c)).2
      intro t op ht
      exact ⟨ht.1.perform op, find?_perform (pathStep ht.1 op) ht.2⟩
  | onClockResync clock => exact hpath

theorem keepsNames_uses (h : s.Coherent) (uses : List Use) : s.KeepsNames (uses.foldl use s) where
  handle := by
    intro path entry hpath
    have hlater := foldl_of_invariant
      (I := fun t : Storage => t.Coherent ∧ t.paths.find? path = some entry)
      (fun t u ht => ⟨ht.1.use u, find?_use ht.1 u ht.2⟩) ⟨h, hpath⟩ uses
    exact ⟨hlater.2, hlater.1.entry_of_path hlater.2⟩

end Storage

end Obsr
