/-
# Changes that wait to be reported

A local change marks its entry, and the mark and the change both stay until a pass
over the marked entries has taken the entry, or another change has replaced this
one. A pass takes every marked entry once.
-/

import Obsr.Storage.Calls
import Obsr.Storage.Effect

namespace Obsr

open Obsr.Lib

namespace StorageEntry

variable {e : StorageEntry} {view : Option Value}

/-- The entry is marked, and shows this. -/
structure Marked (e : StorageEntry) (view : Option Value) : Prop where
  dirty : e.dirty = true
  deleted : e.deleted = view.isNone
  shows : e.view = view

theorem marked_set {value : Value} {clear : Bool} (hfits : clear = false → e.Fits value)
    (now : ℤ) :
    (e.set now value clear idNotAssigned true 0).1.Marked
      (some (if clear then Value.make else value)) := by
  rw [(set_of_fits (isStale_zero e) hfits now idNotAssigned true).1]
  exact ⟨rfl, rfl, rfl⟩

theorem marked_delete (hlive : e.hasValue = true) (now : ℤ) :
    (e.delete now true 0).1.Marked none := by
  rw [delete_of_hasValue (isStale_zero e) hlive]
  refine ⟨rfl, rfl, if_neg ?_⟩
  simp [hasValue]

/-- A set that is stale or does not fit leaves the mark and the view. -/
theorem Marked.set (h : e.Marked view) (hsound : e.Sound) {value : Value} {timestamp : ℤ}
    (hrefused : e.isStale timestamp = true ∨ ¬ e.Fits value) (now : ℤ) (id : EntryId)
    (markDirty : Bool) : (e.set now value false id markDirty timestamp).1.Marked view := by
  cases hstale : e.isStale timestamp with
  | true => rwa [set_of_stale hstale]
  | false =>
      have hfits : ¬ e.Fits value := hrefused.resolve_left (by simp [hstale])
      have hlive : e.hasValue = true := by
        by_contra hdead
        apply hfits
        rw [Fits, hsound.empty (Bool.eq_false_iff.mpr hdead)]
        exact Or.inl rfl
      rw [(set_of_not_fits hstale hfits now id markDirty).1]
      have hview : (e.revive id).view = e.view :=
        (if_pos (hasValue_revive id)).trans (if_pos hlive).symm
      have hflags : (e.revive id).deleted = e.deleted := by
        revert hlive
        unfold hasValue
        cases hdeleted : e.deleted
        · exact fun _ => rfl
        · simp
      exact ⟨h.dirty, hflags.trans h.deleted, hview.trans h.shows⟩

theorem Marked.delete (h : e.Marked view) {timestamp : ℤ}
    (hrefused : e.isStale timestamp = true ∨ e.hasValue = false) (now : ℤ)
    (markDirty : Bool) : (e.delete now markDirty timestamp).1.Marked view := by
  rcases hrefused with hstale | hdead
  · rwa [delete_of_stale hstale]
  · rwa [delete_of_not_hasValue hdead]

theorem Marked.assign (h : e.Marked view) (id : EntryId) :
    (e.after (.assign id)).1.Marked view := ⟨h.dirty, h.deleted, h.shows⟩

end StorageEntry

namespace Storage

variable {s : Storage} {entry : Handle} {op : Operation} {view : Option Value}

/-! ## Changes -/

/-- A local operation that changes the entry, with what the entry shows after
it. -/
inductive LocalChange (s : Storage) (entry : Handle) : Operation → Option Value → Prop
  | set {now : ℤ} {value : Value} (h : (s.setEntryValue now entry value).2 = .ok ()) :
      LocalChange s entry (.setEntryValue now entry value) (some value)
  | clear {now : ℤ} (h : (s.clearEntry now entry).2 = .ok ()) :
      LocalChange s entry (.clearEntry now entry) (some Value.make)
  | delete {now : ℤ} {data : StorageEntry} (hentry : s.entries.get? entry = some data)
      (hlive : data.hasValue = true) : LocalChange s entry (.deleteEntry now entry) none
  | deleteIn {now : ℤ} {path : Text} {data : StorageEntry}
      (hentry : s.entries.get? entry = some data) (hlive : data.hasValue = true)
      (hin : data.isIn path = true) : LocalChange s entry (.deleteEntries now path) none

/-- A remote operation that passes the stale check of the entry, and its type
check where it makes one. -/
def AcceptedRemote (s : Storage) (entry : Handle) (op : Operation) : Prop :=
  ∃ data, s.entries.get? entry = some data ∧
    match op with
    | .onEntryCreated _ _ path value timestamp =>
        s.entryOf path = some entry ∧ data.isStale timestamp = false ∧ data.Fits value
    | .onEntryUpdated _ id value timestamp =>
        s.ids.find? id = some entry ∧ data.isStale timestamp = false ∧ data.Fits value
    | .onEntryDeleted _ id timestamp =>
        s.ids.find? id = some entry ∧ data.isStale timestamp = false
    | _ => False

/-- The operation is no local change of the entry, not the end of a pass's turn
whose action returned `true` for it, and no accepted remote operation for it. -/
structure Undisturbed (entry : Handle) (s : Storage) (op : Operation) : Prop where
  unchanged : ∀ view, ¬ LocalChange s entry op view
  untaken : op ≠ .clearDirty entry
  refused : ¬ AcceptedRemote s entry op

/-- The entry is marked and shows what the change has left. -/
def Pending (s : Storage) (entry : Handle) (view : Option Value) : Prop :=
  ∃ data, s.entries.get? entry = some data ∧ data.Marked view

/-! ## A change leaves its mark -/

/-- An edit returns if there is an entry, and it clears it or its value fits. -/
theorem setEntryInternal_eq_ok {now : ℤ} {value : Value} {clear : Bool} :
    (s.setEntryInternal now entry value clear idNotAssigned true 0).2 = .ok () ↔
      ∃ data, s.entries.get? entry = some data ∧ (clear = false → data.Fits value) := by
  cases hdata : s.entries.get? entry with
  | none =>
      rw [setEntryInternal_of_none hdata]
      simp
  | some data =>
      have hstale := StorageEntry.isStale_zero data
      rw [setEntryInternal_of_some hdata]
      constructor
      · intro hresult
        refine ⟨data, rfl, fun hclear => ?_⟩
        by_contra hfits
        subst hclear
        obtain ⟨thrown, hthrown⟩ :=
          (StorageEntry.set_of_not_fits hstale hfits now idNotAssigned true).2
        rw [hthrown] at hresult
        cases hresult
      · rintro ⟨found, hfound, hfits⟩
        obtain rfl := Option.some.inj hfound
        exact (StorageEntry.set_of_fits hstale hfits now idNotAssigned true).2

theorem pending_of_localChange (hs : s.Coherent) (h : LocalChange s entry op view) :
    (s.perform op).Pending entry view := by
  cases h with
  | @set now value hresult =>
      obtain ⟨data, hdata, hfits⟩ := setEntryInternal_eq_ok.mp hresult
      refine ⟨_, get?_perform hs _ hdata, ?_⟩
      rw [effect, if_pos rfl]
      exact StorageEntry.marked_set hfits now
  | @clear now hresult =>
      obtain ⟨data, hdata, hfits⟩ := setEntryInternal_eq_ok.mp hresult
      refine ⟨_, get?_perform hs _ hdata, ?_⟩
      rw [effect, if_pos rfl]
      exact StorageEntry.marked_set hfits now
  | @delete now data hdata hlive =>
      refine ⟨_, get?_perform hs _ hdata, ?_⟩
      rw [effect, if_pos rfl]
      exact StorageEntry.marked_delete hlive now
  | @deleteIn now path data hdata hlive hin =>
      refine ⟨_, get?_perform hs _ hdata, ?_⟩
      have hany : (s.entries.get? entry).any (·.isIn path) = true := by rwa [hdata]
      rw [effect, if_pos hany]
      exact StorageEntry.marked_delete hlive now

/-! ## What does not disturb an entry keeps its mark -/

theorem Pending.perform (hs : s.Coherent) (h : s.Pending entry view)
    (hquiet : Undisturbed entry s op) : (s.perform op).Pending entry view := by
  obtain ⟨data, hdata, hmarked⟩ := h
  have hsound := hs.sound hdata
  refine ⟨_, get?_perform hs op hdata, ?_⟩
  have hkeep : (data.after .keep).1.Marked view := hmarked
  cases op with
  | getOrCreateEntry path => exact hkeep
  | deleteEntry now target =>
      rw [effect]
      split_ifs with htarget
      · subst htarget
        have hdead : data.hasValue = false := Bool.eq_false_iff.mpr fun hlive =>
          hquiet.unchanged _ (.delete hdata hlive)
        exact hmarked.delete (Or.inr hdead) now true
      · exact hkeep
  | deleteEntries now path =>
      rw [effect, hdata]
      split_ifs with hin
      · have hdead : data.hasValue = false := Bool.eq_false_iff.mpr fun hlive =>
          hquiet.unchanged _ (.deleteIn hdata hlive hin)
        exact hmarked.delete (Or.inr hdead) now true
      · exact hkeep
  | setEntryValue now target value =>
      rw [effect]
      split_ifs with htarget
      · subst htarget
        have hfits : ¬ data.Fits value := fun hfits =>
          hquiet.unchanged _
            (@LocalChange.set _ _ now value
              (setEntryInternal_eq_ok.mpr ⟨data, hdata, fun _ => hfits⟩))
        exact hmarked.set hsound (Or.inr hfits) now idNotAssigned true
      · exact hkeep
  | clearEntry now target =>
      rw [effect]
      split_ifs with htarget
      · subst htarget
        refine absurd (@LocalChange.clear _ _ now ?_) (hquiet.unchanged _)
        exact setEntryInternal_eq_ok.mpr ⟨data, hdata, fun hclear => Bool.noConfusion hclear⟩
      · exact hkeep
  | clearDirty target =>
      rw [effect]
      split_ifs with htarget
      · exact absurd (congrArg Operation.clearDirty htarget) hquiet.untaken
      · exact hkeep
  | clearNetIds => exact hmarked.assign idNotAssigned
  | onEntryCreated now id path value timestamp =>
      rw [effect]
      split_ifs with hentry
      · refine hmarked.set hsound ?_ now id false
        by_contra haccepted
        rw [not_or, Bool.not_eq_true, not_not] at haccepted
        exact hquiet.refused ⟨data, hdata, hentry, haccepted⟩
      · exact hkeep
  | onEntryUpdated now id value timestamp =>
      rw [effect]
      split_ifs with hentry
      · refine hmarked.set hsound ?_ now id false
        by_contra haccepted
        rw [not_or, Bool.not_eq_true, not_not] at haccepted
        exact hquiet.refused ⟨data, hdata, hentry, haccepted⟩
      · exact hkeep
  | onEntryDeleted now id timestamp =>
      rw [effect]
      split_ifs with hentry
      · refine hmarked.delete (Or.inl ?_) now false
        by_contra haccepted
        exact hquiet.refused ⟨data, hdata, hentry, Bool.eq_false_iff.mpr haccepted⟩
      · exact hkeep
  | onEntryIdAssigned id path =>
      rw [effect]
      split_ifs
      · exact hmarked.assign id
      · exact hkeep

/-! ## A pass takes every marked entry once -/

/-- What a pass looks at. -/
def marks (s : Storage) (entry : Handle) : Option (Handle × Bool) :=
  (s.entries.get? entry).map fun data => (data.handle, data.dirty)

def isDirty (s : Storage) (entry : Handle) : Bool := (s.marks entry).any Prod.snd

theorem marks_clearDirty (s : Storage) (handle entry : Handle) :
    (s.clearDirty handle).marks entry =
      if entry = handle then (s.marks entry).map fun mark => (mark.1, false)
      else s.marks entry := by
  unfold marks clearDirty
  rw [HandleTable.get?_modify]
  split_ifs
  · simp only [Option.map_map]
    rfl
  · rfl

theorem isDirty_eq_true {s : Storage} {entry : Handle} :
    s.isDirty entry = true ↔ ∃ data, s.entries.get? entry = some data ∧ data.dirty = true := by
  unfold isDirty marks
  cases s.entries.get? entry <;> simp

theorem isDirty_clearDirty (s : Storage) (handle entry : Handle) :
    (s.clearDirty handle).isDirty entry = (s.isDirty entry && decide (entry ≠ handle)) := by
  unfold isDirty
  rw [marks_clearDirty]
  by_cases hentry : entry = handle
  · cases s.marks entry <;> simp [hentry]
  · simp [hentry]

section Pass

variable {σ : Type} (storage : σ → Storage) (setStorage : σ → Storage → σ)

/-- An action, with a record of the entries it is called on. -/
def recording (action : StorageEntry → σ → Bool × σ) (data : StorageEntry)
    (state : σ × List Handle) : Bool × σ × List Handle :=
  ((action data state.1).1, (action data state.1).2, state.2 ++ [data.handle])

/-- The pass with its record. -/
def recordedPass (action : StorageEntry → σ → Bool × σ) (state : σ) : σ × List Handle :=
  actOnDirtyEntries (fun state : σ × List Handle => storage state.1)
    (fun state s => (setStorage state.1 s, state.2)) (recording action) (state, [])

/-- The pass calls its action on every marked entry, on each of them once, and
leaves no entry marked. -/
structure TakesAll (action : StorageEntry → σ → Bool × σ) (state : σ) : Prop where
  once : (recordedPass storage setStorage action state).2.Nodup
  all : ∀ entry, entry ∈ (recordedPass storage setStorage action state).2 ↔
    (storage state).isDirty entry = true
  none : ∀ entry,
    (storage (recordedPass storage setStorage action state).1).isDirty entry = false

/-- An action that always goes on, and changes no mark itself when it is called on
an entry of the storage. -/
structure AlwaysResumes (action : StorageEntry → σ → Bool × σ) : Prop where
  resumes : ∀ data state, (action data state).1 = true
  coherent : ∀ {handle data state}, (storage state).Coherent →
    (storage state).entries.get? handle = some data →
      (storage (action data state).2).Coherent
  marks : ∀ {handle data state}, (storage state).Coherent →
    (storage state).entries.get? handle = some data → ∀ entry,
      (storage (action data state).2).marks entry = (storage state).marks entry

variable {storage setStorage} {action : StorageEntry → σ → Bool × σ}

variable (storage setStorage action) in
/-- A handle without a marked entry is passed over. -/
theorem actOnDirtyEntriesFrom_of_clean {handle : Handle} {state : σ}
    (h : (storage state).isDirty handle = false) (handles : List Handle) :
    actOnDirtyEntriesFrom storage setStorage action (handle :: handles) state =
      actOnDirtyEntriesFrom storage setStorage action handles state := by
  cases hdata : (storage state).entries.get? handle with
  | none => simp only [actOnDirtyEntriesFrom, hdata]
  | some data =>
      have hclean : data.dirty = false := by simpa [isDirty, Storage.marks, hdata] using h
      simp [actOnDirtyEntriesFrom, hdata, hclean]

variable (storage setStorage action) in
/-- The turn of a marked entry. -/
theorem actOnDirtyEntriesFrom_of_dirty {handle : Handle} {data : StorageEntry} {state : σ}
    (hdata : (storage state).entries.get? handle = some data) (hdirty : data.dirty = true)
    (hresumes : (action data state).1 = true) (handles : List Handle) :
    actOnDirtyEntriesFrom storage setStorage action (handle :: handles) state =
      actOnDirtyEntriesFrom storage setStorage action handles
        (setStorage (action data state).2
          ((storage (action data state).2).clearDirty handle)) := by
  rcases haction : action data state with ⟨resumes, next⟩
  rw [haction] at hresumes
  obtain rfl : resumes = true := hresumes
  simp [actOnDirtyEntriesFrom, hdata, hdirty, haction]

/-- After the turn of an entry its mark is gone, and the others are as they were. -/
theorem isDirty_turn (hset : ∀ state s, storage (setStorage state s) = s)
    (haction : AlwaysResumes storage action) {handle : Handle} {data : StorageEntry} {state : σ}
    (hs : (storage state).Coherent) (hdata : (storage state).entries.get? handle = some data)
    (entry : Handle) :
    (storage (setStorage (action data state).2
      ((storage (action data state).2).clearDirty handle))).isDirty entry =
        ((storage state).isDirty entry && decide (entry ≠ handle)) := by
  rw [hset, isDirty_clearDirty]
  unfold isDirty
  rw [haction.marks hs hdata]

theorem takesAllFrom (hset : ∀ state s, storage (setStorage state s) = s)
    (haction : AlwaysResumes storage action) {handles : List Handle} (hnodup : handles.Nodup)
    (state : σ × List Handle) (hs : (storage state.1).Coherent) :
    let result := actOnDirtyEntriesFrom (fun state : σ × List Handle => storage state.1)
      (fun state s => (setStorage state.1 s, state.2)) (recording action) handles state
    result.2 = state.2 ++ handles.filter (storage state.1).isDirty ∧
      ∀ entry, (storage result.1).isDirty entry =
        ((storage state.1).isDirty entry && decide (entry ∉ handles)) := by
  induction handles generalizing state with
  | nil => simp [actOnDirtyEntriesFrom]
  | cons handle handles ih =>
      obtain ⟨hhandle, hrest⟩ := List.nodup_cons.mp hnodup
      cases hmark : (storage state.1).isDirty handle with
      | false =>
          obtain ⟨hlog, hdirty⟩ := ih hrest state hs
          have hstep := actOnDirtyEntriesFrom_of_clean
            (fun state : σ × List Handle => storage state.1)
            (fun state s => (setStorage state.1 s, state.2)) (recording action) hmark handles
          simp only [hstep]
          rw [List.filter_cons_of_neg (by simp [hmark])]
          refine ⟨hlog, fun entry => (hdirty entry).trans ?_⟩
          by_cases hentry : entry = handle
          · subst hentry
            simp [hmark]
          · simp [hentry]
      | true =>
          obtain ⟨data, hdata, hdirtyData⟩ := isDirty_eq_true.mp hmark
          have hname : data.handle = handle := (hs.path_of_entry hdata).2
          -- the state after the turn of the handle
          let turned : σ × List Handle :=
            (setStorage (action data state.1).2
              ((storage (action data state.1).2).clearDirty handle),
              state.2 ++ [data.handle])
          have hturned : ∀ entry, (storage turned.1).isDirty entry =
              ((storage state.1).isDirty entry && decide (entry ≠ handle)) :=
            isDirty_turn hset haction hs hdata
          have hcoherent : (storage turned.1).Coherent := by
            show (storage (setStorage _ _)).Coherent
            rw [hset]
            exact (haction.coherent hs hdata).clearDirty handle
          have hstep : actOnDirtyEntriesFrom (fun state : σ × List Handle => storage state.1)
              (fun state s => (setStorage state.1 s, state.2)) (recording action)
              (handle :: handles) state =
            actOnDirtyEntriesFrom (fun state : σ × List Handle => storage state.1)
              (fun state s => (setStorage state.1 s, state.2)) (recording action)
              handles turned :=
            actOnDirtyEntriesFrom_of_dirty (fun state : σ × List Handle => storage state.1)
              (fun state s => (setStorage state.1 s, state.2)) (recording action) hdata
              hdirtyData (haction.resumes data state.1) handles
          obtain ⟨hlog, hdirty⟩ := ih hrest turned hcoherent
          rw [hstep]
          constructor
          · rw [hlog, List.filter_cons_of_pos hmark]
            have hsame : handles.filter (storage turned.1).isDirty =
                handles.filter (storage state.1).isDirty := by
              refine List.filter_congr fun entry hentry => ?_
              have hne : entry ≠ handle := fun heq => hhandle (heq ▸ hentry)
              rw [hturned, decide_eq_true hne, Bool.and_true]
            rw [hsame]
            show state.2 ++ [data.handle] ++ _ = _
            rw [hname, List.append_assoc]
            rfl
          · intro entry
            rw [hdirty, hturned, Bool.and_assoc]
            congr 1
            simp [List.mem_cons]

/-- A pass whose action always returns `true` takes every marked entry. -/
theorem takesAll (hset : ∀ state s, storage (setStorage state s) = s)
    (haction : AlwaysResumes storage action) {state : σ} (hs : (storage state).Coherent) :
    TakesAll storage setStorage action state := by
  obtain ⟨hlog, hdirty⟩ := takesAllFrom hset haction (List.nodup_range (n := 256)) (state, []) hs
  -- every entry has a handle the pass comes to
  have hrange : ∀ entry, (storage state).isDirty entry = true → entry ∈ List.range 256 := by
    intro entry hentry
    obtain ⟨data, hdata, -⟩ := isDirty_eq_true.mp hentry
    exact List.mem_range.mpr (HandleTable.lt_of_get? hdata)
  constructor <;> unfold recordedPass actOnDirtyEntries
  · rw [hlog, List.nil_append]
    exact List.nodup_range.filter _
  · intro entry
    rw [hlog, List.nil_append, List.mem_filter]
    exact and_iff_right_of_imp (hrange entry)
  · intro entry
    rw [hdirty]
    cases hentry : (storage state).isDirty entry with
    | false => rfl
    | true => simpa using hrange entry hentry

end Pass

/-! ## No change is forgotten -/

/-- The change of an entry is still there to be reported, and any pass that goes
through takes every marked entry. -/
structure Unforgotten (s : Storage) (entry : Handle) (view : Option Value) : Prop where
  pending : s.Pending entry view
  takesAll : ∀ {σ : Type} (storage : σ → Storage) (setStorage : σ → Storage → σ)
    (action : StorageEntry → σ → Bool × σ) (state : σ), storage state = s →
      (∀ state s, storage (setStorage state s) = s) → AlwaysResumes storage action →
        TakesAll storage setStorage action state

/-- A change that was followed by nothing that disturbs its entry is still
there. -/
theorem unforgotten_of_undisturbed (calls : List Call) {before since : List Operation}
    {op : Operation} {entry : Handle} {view : Option Value}
    (hcalls : new.operationsOf calls = before ++ op :: since)
    (hchange : LocalChange (run before) entry op view)
    (hquiet : StepsMeet perform (Undisturbed entry) ((run before).perform op) since) :
    Unforgotten (runCalls calls) entry view := by
  constructor
  · have hbefore := coherent_run before
    have hrun : HoldsThroughout perform (fun s => s.Coherent ∧ s.Pending entry view)
        ((run before).perform op) since :=
      holdsThroughout_of_invariant (fun s op hs hop => ⟨hs.1.perform op, hs.2.perform hs.1 hop⟩)
        ⟨hbefore.perform op, pending_of_localChange hbefore hchange⟩ hquiet
    have hlast : runCalls calls = since.foldl perform ((run before).perform op) := by
      rw [runCalls_eq, hcalls, run, List.foldl_append]
      rfl
    rw [hlast]
    exact hrun.last.2
  · intro σ storage setStorage action state hstate hset haction
    exact takesAll hset haction (hstate ▸ coherent_runCalls calls)

/-- A value that was set, an interrupted pass and an update of an unknown id. -/
theorem unforgotten_after_interrupted_pass :
    Unforgotten
      (runCalls [.operation (.getOrCreateEntry [97]),
        .operation (.setEntryValue 1 0 (Value.makeInt32 7)),
        .actOnDirtyEntries fun _ => ([], false),
        .operation (.onEntryUpdated 2 3 (Value.makeInt32 8) 2)])
      0 (some (Value.makeInt32 7)) := by
  have hchange : LocalChange (run [.getOrCreateEntry [97]]) 0
      (.setEntryValue 1 0 (Value.makeInt32 7)) (some (Value.makeInt32 7)) :=
    .set (by decide +kernel)
  have hquiet : StepsMeet perform (Undisturbed 0)
      ((run [.getOrCreateEntry [97]]).perform (.setEntryValue 1 0 (Value.makeInt32 7)))
      [.onEntryUpdated 2 3 (Value.makeInt32 8) 2] := by
    refine ⟨⟨fun view hlocal => (by cases hlocal), by decide, ?_⟩, trivial⟩
    rintro ⟨data, hdata, hid, -⟩
    revert hid
    decide +kernel
  exact unforgotten_of_undisturbed _ (by decide +kernel) hchange hquiet

end Storage

end Obsr
