/-
# Times from before the clock was set

Entries, listeners and pending events carry times that the clock read under different
offsets. When the clock takes another offset, `on_clock_resync` is to move every one of
them to what the clock would read now, had the time of the system not gone on.

Next to a storage stand the system times at which things in it were stamped. `adjust_time`
takes the whole new offset off a time that has the old one taken off already, so that
the move goes right from the first offset of a clock only, or if there is nothing to move.
-/

import Obsr.Lib.Run
import Obsr.Storage.Listeners

namespace Obsr

open Obsr.Lib

/-! ## The time an operation leaves in an entry -/

namespace StorageEntry

variable {e : StorageEntry}

theorem lastUpdateTimestamp_of_not_replacedBy {effect : Effect}
    (h : e.replacedBy effect = false) :
    (e.after effect).1.lastUpdateTimestamp = e.lastUpdateTimestamp := by
  cases effect with
  | keep => rfl
  | assign id => rfl
  | clean => rfl
  | set now value clear id markDirty timestamp =>
      show (e.set now value clear id markDirty timestamp).1.lastUpdateTimestamp = _
      cases hstale : e.isStale timestamp with
      | true => rw [set_of_stale hstale]
      | false =>
          rw [replacedBy, hstale] at h
          obtain ⟨rfl, hfits⟩ : clear = false ∧ ¬ e.Fits value := by simpa using h
          rw [(set_of_not_fits hstale hfits now id markDirty).1]
          rfl
  | delete now markDirty timestamp =>
      show (e.delete now markDirty timestamp).1.lastUpdateTimestamp = _
      cases hstale : e.isStale timestamp with
      | true => rw [delete_of_stale hstale]
      | false =>
          rw [replacedBy, hstale] at h
          rw [delete_of_not_hasValue (by simpa using h)]

theorem lastUpdateTimestamp_set_of_replacedBy {now : ℤ} {value : Value} {clear : Bool}
    {id : EntryId} {markDirty : Bool} {timestamp : ℤ}
    (h : e.replacedBy (.set now value clear id markDirty timestamp) = true) :
    (e.after (.set now value clear id markDirty timestamp)).1.lastUpdateTimestamp =
      stamp timestamp now := by
  rw [replacedBy, Bool.and_eq_true] at h
  have hstale : e.isStale timestamp = false := by simpa using h.1
  have hfits : clear = false → e.Fits value := by
    rintro rfl
    simpa using h.2
  show (e.set now value clear id markDirty timestamp).1.lastUpdateTimestamp = _
  rw [(set_of_fits hstale hfits now id markDirty).1]

theorem lastUpdateTimestamp_delete_of_replacedBy {now : ℤ} {markDirty : Bool} {timestamp : ℤ}
    (h : e.replacedBy (.delete now markDirty timestamp) = true) :
    (e.after (.delete now markDirty timestamp)).1.lastUpdateTimestamp =
      stamp timestamp now := by
  rw [replacedBy, Bool.and_eq_true] at h
  have hstale : e.isStale timestamp = false := by simpa using h.1
  show (e.delete now markDirty timestamp).1.lastUpdateTimestamp = _
  rw [delete_of_hasValue hstale h.2]

end StorageEntry

namespace Storage

/-- The operations by which the program itself changes an entry. -/
def Operation.isLocal : Operation → Bool
  | .deleteEntry .. | .deleteEntries .. | .setEntryValue .. | .clearEntry .. => true
  | _ => false

variable {s : Storage} {entry : Handle} {data : StorageEntry}

/-- What is changed locally has the time of the clock. -/
theorem lastUpdateTimestamp_of_isLocal {op : Operation} (hlocal : op.isLocal = true)
    (now : ℤ) (h : data.replacedBy (s.effect (op.withNow now) entry) = true) :
    (data.after (s.effect (op.withNow now) entry)).1.lastUpdateTimestamp = now := by
  cases op with
  | deleteEntry old target =>
      simp only [Operation.withNow, effect] at h ⊢
      split_ifs at h ⊢
      · exact StorageEntry.lastUpdateTimestamp_delete_of_replacedBy h
      · cases h
  | deleteEntries old path =>
      simp only [Operation.withNow, effect] at h ⊢
      split_ifs at h ⊢
      · exact StorageEntry.lastUpdateTimestamp_delete_of_replacedBy h
      · cases h
  | setEntryValue old target value =>
      simp only [Operation.withNow, effect] at h ⊢
      split_ifs at h ⊢
      · exact StorageEntry.lastUpdateTimestamp_set_of_replacedBy h
      · cases h
  | clearEntry old target =>
      simp only [Operation.withNow, effect] at h ⊢
      split_ifs at h ⊢
      · exact StorageEntry.lastUpdateTimestamp_set_of_replacedBy h
      · cases h
  | _ => cases hlocal

end Storage

/-! ## Times of the system -/

/-- The system times at which what is in a storage was stamped. -/
structure Stamps where
  /-- Of the entries that were last changed locally. -/
  entries : Handle → Option ℤ := fun _ => none
  /-- Of the pending events, in their order. -/
  events : List ℤ := []
  listeners : Handle → Option ℤ := fun _ => none

namespace Stamps

/-- Something was stamped at the time. -/
def Has (stamps : Stamps) (time : ℤ) : Prop :=
  (∃ entry, stamps.entries entry = some time) ∨
    (∃ listener, stamps.listeners listener = some time) ∨ time ∈ stamps.events

end Stamps

/-- A storage with the stamps of what is in it, and the largest offset its clock had. -/
structure Stamped where
  state : ListenedStorage := ListenedStorage.new
  stamps : Stamps := {}
  highest : ℤ := 0

/-- A call at some time of the system, or an answer of the server to a request for the
time. -/
inductive ClockedCall
  | call (timeNow : ℤ) (call : ListenedStorage.Call)
  | sync (timeNow localTime remoteTime : ℤ)
  deriving DecidableEq, Repr

namespace Stamped

/-- The stamps after a call. -/
def stampsAfter (s : Stamped) (timeNow : ℤ) (state : ListenedStorage)
    (created : Option Handle) : ListenedStorage.Call → Stamps
  | .operate op =>
      { s.stamps with
        entries := fun entry =>
          if s.state.storage.replaces (op.withNow (s.state.clock.now timeNow)) entry then
            if op.isLocal then some timeNow else none
          else s.stamps.entries entry
        events := s.stamps.events ++ List.replicate
          (state.storage.pendingEvents.length - s.state.storage.pendingEvents.length) timeNow }
  | .listen _ | .listenEntry _ =>
      { s.stamps with
        listeners := fun listener =>
          if created = some listener then some timeNow else s.stamps.listeners listener }
  | .removeListener removed =>
      { s.stamps with
        listeners := fun listener =>
          if listener = removed then none else s.stamps.listeners listener }
  | .dispatch => { s.stamps with events := s.stamps.events.tail }

def step (s : Stamped) : ClockedCall → Stamped
  | .call timeNow call =>
      let (state, created) := s.state.perform (s.state.clock.now timeNow) call
      { s with state, stamps := s.stampsAfter timeNow state created call }
  | .sync timeNow localTime remoteTime =>
      let state := s.state.sync timeNow localTime remoteTime
      { s with state, highest := max s.highest state.clock.offset }

/-- What was stamped at a time above every offset has the time the clock would read now if
it were that time. -/
structure Translated (s : Stamped) : Prop where
  entries : ∀ entry time, s.stamps.entries entry = some time → s.highest < time →
    ∃ data, s.state.storage.entries.get? entry = some data ∧
      data.lastUpdateTimestamp = s.state.clock.now time
  listeners : ∀ listener time, s.stamps.listeners listener = some time → s.highest < time →
    ∃ data, s.state.listeners.get? listener = some data ∧
      data.creationTimestamp = s.state.clock.now time
  events : List.Forall₂
    (fun time event => s.highest < time → event.timestamp = s.state.clock.now time)
    s.stamps.events s.state.storage.pendingEvents

/-- The clock still has no offset if it is set, or nothing is there that was stamped above
every offset. -/
def SetsInTime (s : Stamped) : ClockedCall → Prop
  | .call .. => True
  | .sync timeNow localTime remoteTime =>
      let (accepted, clock) := s.state.clock.sync timeNow localTime remoteTime
      accepted = true → s.state.clock.offset = 0 ∨
        ∀ time, s.stamps.Has time → time ≤ max s.highest clock.offset

/-- What holds as long as every time is translated. -/
structure Kept (s : Stamped) : Prop extends Translated s where
  coherent : s.state.storage.Coherent
  offset_le : s.state.clock.offset ≤ s.highest

variable {s : Stamped}

theorem kept_init : Kept {} where
  entries _ _ h := by cases h
  listeners _ _ h := by cases h
  events := .nil
  coherent := Storage.coherent_new
  offset_le := le_rfl

/-! ## Calls -/

theorem Kept.operate (h : s.Kept) (timeNow : ℤ) (op : Storage.Operation) :
    (s.step (.call timeNow (.operate op))).Kept where
  entries entry time htime hhigh := by
    set now := s.state.clock.now timeNow with hnow
    replace htime : (if s.state.storage.replaces (op.withNow now) entry then
        if op.isLocal then some timeNow else none
      else s.stamps.entries entry) = some time := htime
    show ∃ data, (s.state.storage.perform (op.withNow now)).entries.get? entry = some data ∧
      data.lastUpdateTimestamp = s.state.clock.now time
    by_cases hreplaces : s.state.storage.replaces (op.withNow now) entry = true
    · rw [if_pos hreplaces] at htime
      split_ifs at htime with hlocal
      obtain rfl := Option.some.inj htime
      rw [Storage.replaces, Option.any_eq_true] at hreplaces
      obtain ⟨data, hdata, hreplaced⟩ := hreplaces
      exact ⟨_, Storage.get?_perform h.coherent _ hdata,
        Storage.lastUpdateTimestamp_of_isLocal hlocal now hreplaced⟩
    · rw [if_neg hreplaces] at htime
      obtain ⟨data, hdata, hupdated⟩ := h.entries entry time htime hhigh
      rw [Storage.replaces, hdata, Option.any_some, Bool.not_eq_true] at hreplaces
      refine ⟨_, Storage.get?_perform h.coherent _ hdata, ?_⟩
      rw [StorageEntry.lastUpdateTimestamp_of_not_replacedBy hreplaces, hupdated]
  listeners := h.listeners
  events := by
    set now := s.state.clock.now timeNow with hnow
    obtain ⟨events, hevents, htimes⟩ := Storage.notifies_perform now s.state.storage op
    show List.Forall₂ _ (s.stamps.events ++ List.replicate
      ((s.state.storage.perform (op.withNow now)).pendingEvents.length -
        s.state.storage.pendingEvents.length) timeNow)
      (s.state.storage.perform (op.withNow now)).pendingEvents
    rw [hevents, List.length_append, Nat.add_sub_cancel_left]
    refine List.rel_append h.events ?_
    clear hevents
    induction events with
    | nil => exact .nil
    | cons event events ih =>
        obtain ⟨hevent, hrest⟩ := List.forall_mem_cons.mp htimes
        exact .cons (fun _ => hevent) (ih hrest)
  coherent := h.coherent.perform _
  offset_le := h.offset_le

theorem Kept.createListener (h : s.Kept) (timeNow : ℤ) (path : Text) {s' : Stamped}
    (hstate : s'.state = (s.state.createListener (s.state.clock.now timeNow) path).1)
    (hstamps : s'.stamps = { s.stamps with
      listeners := fun listener =>
        if (s.state.createListener (s.state.clock.now timeNow) path).2 = some listener then
          some timeNow
        else s.stamps.listeners listener })
    (hhighest : s'.highest = s.highest) : s'.Kept := by
  rcases s.state.createListener_cases (s.state.clock.now timeNow) path with
    hsame | ⟨listener, hcreated, hlistens⟩
  · obtain rfl : s' = s := by
      rcases s' with ⟨state, stamps, highest⟩
      rw [hsame] at hstate hstamps
      simp only [reduceCtorEq, if_false] at hstamps
      exact congr (congr (congrArg Stamped.mk hstate) hstamps) hhighest
    exact h
  · rw [hcreated] at hstamps
    rw [← hstate] at hlistens
    refine ⟨⟨?_, ?_, ?_⟩, ?_, ?_⟩
    · rw [hstamps, hhighest, hlistens.storage, hlistens.clock]
      exact h.entries
    · intro other time htime hhigh
      replace htime : (if some listener = some other then some timeNow
          else s.stamps.listeners other) = some time := by
        rw [hstamps] at htime
        exact htime
      rw [hhighest] at hhigh
      rw [hlistens.listeners, hlistens.clock]
      by_cases hother : other = listener
      · rw [if_pos (congrArg some hother.symm)] at htime
        obtain rfl := Option.some.inj htime
        exact ⟨_, if_pos hother, rfl⟩
      · rw [if_neg fun heq => hother (Option.some.inj heq).symm] at htime
        rw [if_neg hother]
        exact h.listeners other time htime hhigh
    · rw [hstamps, hhighest, hlistens.storage, hlistens.clock]
      exact h.events
    · rw [hlistens.storage]
      exact h.coherent
    · rw [hlistens.clock, hhighest]
      exact h.offset_le

theorem Kept.removeListener (h : s.Kept) (timeNow : ℤ) (removed : Handle) :
    (s.step (.call timeNow (.removeListener removed))).Kept where
  entries := h.entries
  listeners listener time htime hhigh := by
    replace htime : (if listener = removed then none else s.stamps.listeners listener) =
      some time := htime
    split_ifs at htime with hremoved
    obtain ⟨data, hdata, hcreation⟩ := h.listeners listener time htime hhigh
    refine ⟨data, ?_, hcreation⟩
    show (s.state.listeners.release removed).get? listener = some data
    rw [HandleTable.get?_release, if_neg hremoved, hdata]
  events := h.events
  coherent := h.coherent
  offset_le := h.offset_le

theorem Kept.dispatch (h : s.Kept) (timeNow : ℤ) :
    (s.step (.call timeNow .dispatch)).Kept where
  entries := h.entries
  listeners := h.listeners
  events := by
    have hevents := h.events
    show List.Forall₂ _ s.stamps.events.tail s.state.storage.pendingEvents.tail
    revert hevents
    generalize s.stamps.events = times
    generalize s.state.storage.pendingEvents = events
    intro hevents
    cases hevents with
    | nil => exact .nil
    | cons _ hrest => exact hrest
  coherent :=
    ⟨h.coherent.entry_of_path, h.coherent.path_of_entry, h.coherent.entry_of_id,
      h.coherent.sound⟩
  offset_le := h.offset_le

theorem Kept.call (h : s.Kept) (timeNow : ℤ) (call : ListenedStorage.Call) :
    (s.step (.call timeNow call)).Kept := by
  cases call with
  | operate op => exact h.operate timeNow op
  | listen path => exact h.createListener timeNow path rfl rfl rfl
  | listenEntry entry =>
      cases hdata : s.state.storage.entries.get? entry with
      | none =>
          have hsame : s.step (.call timeNow (.listenEntry entry)) = s := by
            simp [step, stampsAfter, ListenedStorage.perform, ListenedStorage.listenEntry, hdata]
          rw [hsame]
          exact h
      | some data =>
          have hcreates : s.state.listenEntry (s.state.clock.now timeNow) entry =
              s.state.createListener (s.state.clock.now timeNow) data.path := by
            rw [ListenedStorage.listenEntry, hdata]
          refine h.createListener timeNow data.path ?_ ?_ rfl
          · rw [← hcreates]
            rfl
          · rw [← hcreates]
            rfl
  | removeListener removed => exact h.removeListener timeNow removed
  | dispatch => exact h.dispatch timeNow

/-! ## Setting the clock -/

theorem step_sync_of_accepted {timeNow localTime remoteTime : ℤ} {clock : Clock}
    (hsync : s.state.clock.sync timeNow localTime remoteTime = (true, clock)) :
    s.step (.sync timeNow localTime remoteTime) =
      { s with
        state := { s.state with clock }.onClockResync
        highest := max s.highest clock.offset } := by
  simp only [step, ListenedStorage.sync, hsync]
  rfl

theorem step_sync_of_refused {timeNow localTime remoteTime : ℤ} {clock : Clock}
    (h : s.Kept)
    (hsync : s.state.clock.sync timeNow localTime remoteTime = (false, clock)) :
    s.step (.sync timeNow localTime remoteTime) = s := by
  simp only [step, ListenedStorage.sync, hsync, max_eq_left h.offset_le]

theorem get?_listeners_onClockResync (state : ListenedStorage) (listener : Handle) :
    state.onClockResync.listeners.get? listener =
      (state.listeners.get? listener).map (ListenerData.onClockResync state.clock) := by
  unfold HandleTable.get? ListenedStorage.onClockResync
  split_ifs <;> rfl

/-- The time of an entry loses the new offset, next to the old one. -/
theorem Kept.entry_onClockResync (h : s.Kept) (clock : Clock) {entry : Handle} {time : ℤ}
    (htime : s.stamps.entries entry = some time) (hhigh : s.highest < time) :
    ∃ data, (s.state.storage.onClockResync clock).entries.get? entry = some data ∧
      data.lastUpdateTimestamp = s.state.clock.now time - clock.offset := by
  obtain ⟨data, hdata, hupdated⟩ := h.entries entry time htime hhigh
  have hpositive : data.lastUpdateTimestamp ≠ 0 := by
    have hlow := h.offset_le
    rw [hupdated, Clock.now]
    omega
  refine ⟨data.onClockResync clock, ?_, ?_⟩
  · rw [Storage.get?_onClockResync, hdata]
    rfl
  · rw [StorageEntry.onClockResync, if_neg hpositive, ← hupdated]
    rfl

theorem Kept.listener_onClockResync (h : s.Kept) (clock : Clock) {listener : Handle} {time : ℤ}
    (htime : s.stamps.listeners listener = some time) (hhigh : s.highest < time) :
    ∃ data, ({ s.state with clock }.onClockResync : ListenedStorage).listeners.get? listener =
        some data ∧
      data.creationTimestamp = s.state.clock.now time - clock.offset := by
  obtain ⟨data, hdata, hcreation⟩ := h.listeners listener time htime hhigh
  refine ⟨data.onClockResync clock, ?_, ?_⟩
  · rw [get?_listeners_onClockResync]
    exact congrArg (Option.map (ListenerData.onClockResync clock)) hdata
  · rw [← hcreation]
    rfl

/-- A time from a clock without an offset is moved to where it belongs. -/
theorem Kept.resync (h : s.Kept) (clock : Clock)
    (hok : s.state.clock.offset = 0 ∨
      ∀ time, s.stamps.Has time → time ≤ max s.highest clock.offset) :
    Kept { s with
      state := { s.state with clock }.onClockResync
      highest := max s.highest clock.offset } where
  entries entry time htime hhigh := by
    obtain hzero : s.state.clock.offset = 0 := hok.resolve_right fun hnone =>
      absurd hhigh (hnone time (.inl ⟨entry, htime⟩)).not_gt
    obtain ⟨data, hdata, hupdated⟩ :=
      h.entry_onClockResync clock htime ((le_max_left ..).trans_lt hhigh)
    refine ⟨data, hdata, ?_⟩
    show data.lastUpdateTimestamp = time - clock.offset
    rw [hupdated, Clock.now, hzero, sub_zero]
  listeners listener time htime hhigh := by
    obtain hzero : s.state.clock.offset = 0 := hok.resolve_right fun hnone =>
      absurd hhigh (hnone time (.inr (.inl ⟨listener, htime⟩))).not_gt
    obtain ⟨data, hdata, hcreation⟩ :=
      h.listener_onClockResync clock htime ((le_max_left ..).trans_lt hhigh)
    refine ⟨data, hdata, ?_⟩
    show data.creationTimestamp = time - clock.offset
    rw [hcreation, Clock.now, hzero, sub_zero]
  events := by
    have hevents := h.events
    show List.Forall₂ _ s.stamps.events (s.state.storage.pendingEvents.map _)
    rw [List.forall₂_map_right_iff]
    have hzero : ∀ time ∈ s.stamps.events, max s.highest clock.offset < time →
        s.state.clock.offset = 0 := fun time htime hhigh =>
      hok.resolve_right fun hnone => absurd hhigh (hnone time (.inr (.inr htime))).not_gt
    revert hevents hzero
    generalize s.stamps.events = times
    generalize s.state.storage.pendingEvents = events
    intro hevents hzero
    induction hevents with
    | nil => exact .nil
    | cons hevent _ ih =>
        obtain ⟨hfirst, hrest⟩ := List.forall_mem_cons.mp hzero
        refine .cons (fun hhigh => ?_) (ih hrest)
        show _ - clock.offset = _ - clock.offset
        rw [hevent ((le_max_left ..).trans_lt hhigh), Clock.now, hfirst hhigh, sub_zero]
  coherent := h.coherent.onClockResync clock
  offset_le := le_max_right ..

/-- A time that has an offset taken off already loses the new one as well. -/
theorem Kept.not_translated_resync (h : s.Kept) (clock : Clock)
    (hoffset : s.state.clock.offset ≠ 0) {time : ℤ} (htime : s.stamps.Has time)
    (hhigh : max s.highest clock.offset < time) :
    ¬ Translated { s with
      state := { s.state with clock }.onClockResync
      highest := max s.highest clock.offset } := by
  intro hafter
  have hbefore : s.highest < time := (le_max_left ..).trans_lt hhigh
  rcases htime with ⟨entry, hentry⟩ | ⟨listener, hlistener⟩ | hevent
  · obtain ⟨data, hdata, hupdated⟩ := h.entry_onClockResync clock hentry hbefore
    obtain ⟨moved, hmoved, hnow⟩ := hafter.entries entry time hentry hhigh
    obtain rfl : data = moved := Option.some.inj (hdata.symm.trans hmoved)
    replace hnow : data.lastUpdateTimestamp = time - clock.offset := hnow
    rw [hupdated, Clock.now] at hnow
    omega
  · obtain ⟨data, hdata, hcreation⟩ := h.listener_onClockResync clock hlistener hbefore
    obtain ⟨moved, hmoved, hnow⟩ := hafter.listeners listener time hlistener hhigh
    obtain rfl : data = moved := Option.some.inj (hdata.symm.trans hmoved)
    replace hnow : data.creationTimestamp = time - clock.offset := hnow
    rw [hcreation, Clock.now] at hnow
    omega
  · have hevents := h.events
    have hmoved := hafter.events
    replace hmoved : List.Forall₂ _ s.stamps.events (s.state.storage.pendingEvents.map _) :=
      hmoved
    rw [List.forall₂_map_right_iff] at hmoved
    revert hevents hmoved hevent
    generalize s.stamps.events = times
    generalize s.state.storage.pendingEvents = events
    intro hevent hevents hmoved
    induction hevents with
    | nil => exact absurd hevent List.not_mem_nil
    | cons hfirst _ ih =>
        cases hmoved with
        | cons hfirstMoved hrestMoved =>
            rcases List.mem_cons.mp hevent with rfl | hrest
            · have hnow := hfirstMoved hhigh
              replace hnow : _ - clock.offset = time - clock.offset := hnow
              rw [hfirst hbefore, Clock.now] at hnow
              omega
            · exact ih hrest hrestMoved

theorem Kept.step (s : Stamped) (c : ClockedCall) (h : s.Kept) (hok : s.SetsInTime c) :
    (s.step c).Kept := by
  cases c with
  | call timeNow call => exact h.call timeNow call
  | sync timeNow localTime remoteTime =>
      rcases hsync : s.state.clock.sync timeNow localTime remoteTime with ⟨accepted, clock⟩
      rw [SetsInTime, hsync] at hok
      cases accepted with
      | false =>
          rw [step_sync_of_refused h hsync]
          exact h
      | true =>
          rw [step_sync_of_accepted hsync]
          exact h.resync clock (hok rfl)

theorem Kept.not_translated (s : Stamped) (c : ClockedCall) (h : s.Kept)
    (hbad : ¬ s.SetsInTime c) : ¬ (s.step c).Translated := by
  cases c with
  | call timeNow call => exact absurd trivial hbad
  | sync timeNow localTime remoteTime =>
      rcases hsync : s.state.clock.sync timeNow localTime remoteTime with ⟨accepted, clock⟩
      rw [SetsInTime, hsync] at hbad
      push Not at hbad
      obtain ⟨rfl, hoffset, time, htime, hhigh⟩ := hbad
      rw [step_sync_of_accepted hsync]
      exact h.not_translated_resync clock hoffset htime hhigh

/-- Every time is translated throughout a run exactly if its clock is set in time. -/
theorem translated_iff_setsInTime (calls : List ClockedCall) :
    HoldsThroughout step Translated {} calls ↔ StepsMeet step SetsInTime {} calls :=
  holdsThroughout_iff_stepsMeet Kept.step (fun _ h => h.toTranslated) Kept.not_translated
    kept_init calls

/-- A listener that was created after the clock was set, when it is set once more. -/
theorem not_translated_setTwice :
    ¬ HoldsThroughout step Translated {}
      [.sync 2000 1960 1990, .call 3000 (.listen []), .sync 4000 3980 3995] := by
  rintro ⟨-, -, -, hlast⟩
  obtain ⟨data, hdata, htime⟩ := hlast.listeners 0 3000 (by decide +kernel) (by decide +kernel)
  have hget := congrArg (Option.map (·.creationTimestamp)) hdata
  rw [Option.map_some, htime] at hget
  revert hget
  decide +kernel

end Stamped

end Obsr
