/-
# A client sends what its program has changed

Nothing that a client hears marks an entry. However many messages arrive, in whatever order
and with whatever in them, a storage pass finds only what the program has changed since the
last one, so that two nodes never send a change back and forth.
-/

import Obsr.Net.NetworkClient
import Obsr.Storage.Pending
import Obsr.Storage.Registers

namespace Obsr

namespace Effect

/-- A set or a deletion that is to be reported. -/
def marks : Effect → Bool
  | .set _ _ _ _ markDirty _ | .delete _ markDirty _ => markDirty
  | _ => false

end Effect

namespace StorageEntry

variable {e : StorageEntry}

/-- An entry is marked by what replaces it, and only if that is to be reported. -/
theorem dirty_after {effect : Effect} (h : (e.after effect).1.dirty = true) :
    e.dirty = true ∨ (effect.marks = true ∧ e.replacedBy effect = true) := by
  cases effect with
  | keep => exact .inl h
  | assign id => exact .inl h
  | clean => cases h
  | set now value clear id markDirty timestamp =>
      change (e.set now value clear id markDirty timestamp).1.dirty = true at h
      cases hstale : e.isStale timestamp with
      | true =>
          rw [set_of_stale hstale] at h
          exact .inl h
      | false =>
          by_cases hfits : clear = false → e.Fits value
          · rw [(set_of_fits hstale hfits now id markDirty).1] at h
            refine .inr ⟨h, ?_⟩
            cases clear with
            | true => simp [replacedBy, hstale]
            | false => simp [replacedBy, hstale, hfits rfl]
          · push Not at hfits
            obtain ⟨rfl, hfits⟩ := hfits
            rw [(set_of_not_fits hstale hfits now id markDirty).1] at h
            exact .inl h
  | delete now markDirty timestamp =>
      change (e.delete now markDirty timestamp).1.dirty = true at h
      cases hstale : e.isStale timestamp with
      | true =>
          rw [delete_of_stale hstale] at h
          exact .inl h
      | false =>
          cases hlive : e.hasValue with
          | false =>
              rw [delete_of_not_hasValue hlive] at h
              exact .inl h
          | true =>
              rw [delete_of_hasValue hstale hlive] at h
              exact .inr ⟨h, by simp [replacedBy, hstale, hlive]⟩

end StorageEntry

namespace Storage

variable {s : Storage} {op : Operation} {entry : Handle}

/-- An operation marks the entries it replaces, if it reports that. -/
theorem isDirty_perform (h : s.Coherent) (hdirty : (s.perform op).isDirty entry = true) :
    s.isDirty entry = true ∨ ((s.effect op entry).marks = true ∧ s.replaces op entry = true) := by
  obtain ⟨data, hdata, hmarked⟩ := isDirty_eq_true.mp hdirty
  rw [(reached_perform h op entry).1] at hdata
  obtain ⟨before, hbase, rfl⟩ := Option.map_eq_some_iff.mp hdata
  cases hentry : s.entries.get? entry with
  | some old =>
      rw [base, hentry, Option.some_or] at hbase
      obtain rfl := Option.some.inj hbase
      rcases StorageEntry.dirty_after hmarked with hold | ⟨hmarks, hreplaced⟩
      · exact .inl (isDirty_eq_true.mpr ⟨old, hentry, hold⟩)
      · refine .inr ⟨hmarks, ?_⟩
        rw [replaces, hentry]
        exact hreplaced
  | none =>
      -- an entry that is created has no mark, and what creates entries gives none
      rw [base, hentry, Option.none_or] at hbase
      obtain ⟨path, hcreates, hnew⟩ := Option.bind_eq_some_iff.mp hbase
      split_ifs at hnew
      obtain rfl := Option.some.inj hnew
      exfalso
      rcases StorageEntry.dirty_after hmarked with hold | ⟨hmarks, -⟩
      · cases hold
      · unfold effect at hmarks
        cases op with
        | getOrCreateEntry other => cases hmarks
        | onEntryCreated now id other value timestamp =>
            dsimp only at hmarks
            split_ifs at hmarks <;> cases hmarks
        | onEntryIdAssigned id other =>
            dsimp only at hmarks
            split_ifs at hmarks <;> cases hmarks
        | _ => cases hcreates

theorem isDirty_onClockResync (s : Storage) (clock : Clock) (entry : Handle) :
    (s.onClockResync clock).isDirty entry = s.isDirty entry := by
  unfold isDirty marks
  rw [get?_onClockResync]
  cases hentry : s.entries.get? entry with
  | none => rfl
  | some data =>
      obtain ⟨time, htime⟩ := StorageEntry.onClockResync_frame clock data
      rw [Option.map_some, htime]
      rfl

end Storage

namespace Net

open Obsr.Io Obsr.Lib

namespace NetworkClient

variable {s s' : NetworkClient} {entry : Handle}

/-- The messages that were built for an entry, and the one that is due. -/
def reported (entry : Handle) (s : NetworkClient) : ℕ :=
  s.record.built.countP (·.entry = entry) + (s.storage.isDirty entry).toNat

/-- The call of the program sets or deletes the entry, and is not refused. -/
def changes (entry : Handle) (s : NetworkClient) : Input → ℕ
  | .localOperation timeNow op =>
      (s.storage.replaces (op.operation (s.clock.now timeNow)) entry).toNat
  | _ => 0

/-- How often the program changes the entry in a run. -/
def changesIn (entry : Handle) : NetworkClient → List Input → ℕ
  | _, [] => 0
  | s, input :: inputs => s.changes entry input + changesIn entry (s.step input) inputs

/-- No more was reported of any entry, or is due, than before. -/
structure AddsNothing (s s' : NetworkClient) : Prop where
  coherent : s'.storage.Coherent
  reported : ∀ entry, s'.reported entry ≤ s.reported entry

theorem AddsNothing.trans {s'' : NetworkClient} (h : s.AddsNothing s')
    (h' : s'.AddsNothing s'') : s.AddsNothing s'' :=
  ⟨h'.coherent, fun entry => (h'.reported entry).trans (h.reported entry)⟩

/-- No message is built, and no entry is marked. -/
theorem addsNothing_of_marks (hcoherent : s'.storage.Coherent)
    (hbuilt : s'.record.built = s.record.built)
    (hdirty : ∀ entry, s'.storage.isDirty entry = true → s.storage.isDirty entry = true) :
    s.AddsNothing s' := by
  refine ⟨hcoherent, fun entry => ?_⟩
  unfold NetworkClient.reported
  rw [hbuilt]
  exact Nat.add_le_add_left (Bool.toNat_le_toNat (Bool.le_iff_imp.mpr (hdirty entry))) _

theorem addsNothing_of_eq (h : s.storage.Coherent) (hstorage : s'.storage = s.storage)
    (hbuilt : s'.record.built = s.record.built) : s.AddsNothing s' := by
  apply addsNothing_of_marks (hstorage ▸ h) hbuilt
  intro entry hdirty
  rwa [hstorage] at hdirty

/-- An operation that reports nothing. -/
theorem addsNothing_perform (h : s.storage.Coherent) {op : Storage.Operation}
    (hop : ∀ entry, (s.storage.effect op entry).marks = false) : s.AddsNothing (s.perform op) := by
  refine addsNothing_of_marks (h.perform op) rfl fun entry hdirty => ?_
  rcases Storage.isDirty_perform h hdirty with hold | ⟨hmarks, -⟩
  · exact hold
  · rw [hop entry] at hmarks
    cases hmarks

/-- A call of the program reports the entries it changes. -/
theorem reported_perform (h : s.storage.Coherent) (op : Storage.Operation) (entry : Handle) :
    (s.perform op).reported entry ≤
      s.reported entry + (s.storage.replaces op entry).toNat := by
  have hbuilt : (s.perform op).record.built = s.record.built := rfl
  unfold reported
  rw [hbuilt, Nat.add_assoc]
  apply Nat.add_le_add_left
  cases hdirty : (s.perform op).storage.isDirty entry with
  | false => exact Nat.zero_le _
  | true =>
      rcases Storage.isDirty_perform h hdirty with hold | ⟨-, hreplaces⟩
      · rw [hold]
        exact Nat.le_add_right ..
      · rw [hreplaces]
        exact Nat.le_add_left ..

/-- A storage pass builds the message that was due, and the mark is gone. -/
theorem addsNothing_handOverStorage (h : s.storage.Coherent) (now : ℤ) :
    s.AddsNothing (s.handOverStorage now) := by
  apply Storage.actOnDirtyEntries_of_step storage withStorage (fun _ _ => rfl) _
    (addsNothing_of_eq h rfl rfl)
  intro t handle data ht hdata hdirty
  have hhandle : data.handle = handle := (ht.coherent.path_of_entry hdata).2
  have hmarked : t.storage.isDirty handle = true :=
    Storage.isDirty_eq_true.mpr ⟨data, hdata, hdirty⟩
  refine ht.trans ⟨ht.coherent.clearDirty handle, fun entry => ?_⟩
  show (t.record.built ++ [_]).countP _ + ((t.storage.clearDirty handle).isDirty entry).toNat ≤ _
  unfold NetworkClient.reported
  rw [List.countP_append, Storage.isDirty_clearDirty, hhandle]
  by_cases hentry : entry = handle
  · subst hentry
    simp [hmarked]
  · have hother : handle ≠ entry := fun heq => hentry heq.symm
    simp [hentry, hother]

/-! ## Steps -/

theorem addsNothing_process (h : s.storage.Coherent) (behind : Behind) (answers : List Bool) :
    s.AddsNothing (s.process behind answers) := addsNothing_of_eq h rfl rfl

theorem addsNothing_update (h : s.storage.Coherent) (tick : Tick) :
    s.AddsNothing (s.update tick) := by
  unfold NetworkClient.update
  split_ifs
  · exact addsNothing_of_eq h rfl rfl
  · obtain ⟨queue, running, hframe, -⟩ := s.requestTimeSync_frame tick
    have hrequest : s.AddsNothing (s.requestTimeSync tick).1 :=
      addsNothing_of_eq h (by rw [hframe]) (by rw [hframe])
    apply hrequest.trans
    generalize (s.requestTimeSync tick).1 = t at hrequest
    have ht := hrequest.coherent
    unfold advance
    cases t.state with
    | inUse =>
        have hhanded := addsNothing_handOverStorage ht (t.clock.now tick.timeNow)
        exact hhanded.trans (addsNothing_process hhanded.coherent tick.behind _)
    | opening =>
        dsimp only
        unfold openAndConnect
        split_ifs <;> exact addsNothing_of_eq ht rfl rfl
    | _ => exact addsNothing_of_eq ht rfl rfl

theorem addsNothing_syncClock (h : s.storage.Coherent) (timeNow : ℤ) (data : ParseData) :
    s.AddsNothing (s.syncClock timeNow data) := by
  unfold syncClock
  split
  · refine addsNothing_of_marks (h.onClockResync _) rfl fun entry hdirty => ?_
    rwa [Storage.isDirty_onClockResync] at hdirty
  · exact addsNothing_of_eq h rfl rfl

/-- What arrives is not reported. -/
theorem addsNothing_handle (h : s.storage.Coherent) (timeNow : ℤ) (type : MessageType)
    (data : ParseData) : s.AddsNothing (s.handle timeNow type data) := by
  cases type with
  | entryUpdate =>
      apply addsNothing_perform h
      intro entry
      simp only [Storage.effect]
      split_ifs <;> rfl
  | entryDelete =>
      apply addsNothing_perform h
      intro entry
      simp only [Storage.effect]
      split_ifs <;> rfl
  | entryIdAssign =>
      have hassigned : s.AddsNothing (s.perform (.onEntryIdAssigned data.id data.name)) := by
        apply addsNothing_perform h
        intro entry
        simp only [Storage.effect]
        split_ifs <;> rfl
      exact hassigned.trans (addsNothing_of_eq hassigned.coherent rfl rfl)
  | timeSyncResponse =>
      have hsynced := addsNothing_syncClock h timeNow data
      unfold NetworkClient.handle
      dsimp only
      split_ifs <;> exact hsynced.trans (addsNothing_of_eq hsynced.coherent rfl rfl)
  | _ => exact addsNothing_of_eq h rfl rfl

theorem addsNothing_onMessage (h : s.storage.Coherent) (timeNow : ℤ) (type : UInt8)
    (payload : List UInt8) : s.AddsNothing (s.onMessage timeNow type payload) := by
  have hparsed : s.AddsNothing { s with parser := s.parser.parse (.ofByte type) payload } :=
    addsNothing_of_eq h rfl rfl
  unfold NetworkClient.onMessage
  dsimp only
  split_ifs
  · exact hparsed.trans (addsNothing_handle hparsed.coherent ..)
  · exact hparsed

/-- A step reports what the program changes in it. -/
theorem reported_step (h : s.storage.Coherent) (input : Input) :
    (s.step input).storage.Coherent ∧
      ∀ entry, (s.step input).reported entry ≤ s.reported entry + s.changes entry input := by
  have hquiet : s.AddsNothing (s.step input) → (s.step input).storage.Coherent ∧
      ∀ entry, (s.step input).reported entry ≤ s.reported entry + s.changes entry input :=
    fun hadds => ⟨hadds.coherent, fun entry => (hadds.reported entry).trans (Nat.le_add_right ..)⟩
  cases input with
  | localOperation timeNow op => exact ⟨h.perform _, reported_perform h _⟩
  | message timeNow type payload => exact hquiet (addsNothing_onMessage h timeNow type payload)
  | update tick => exact hquiet (addsNothing_update h tick)
  | start =>
      have hcleared : s.AddsNothing (s.perform .clearNetIds) :=
        addsNothing_perform h fun _ => rfl
      apply hquiet
      show s.AddsNothing s.start
      unfold NetworkClient.start
      split_ifs
      · exact hcleared.trans (addsNothing_of_eq hcleared.coherent rfl rfl)
      · exact addsNothing_of_eq h rfl rfl
  | stop => exact hquiet (addsNothing_of_eq h rfl rfl)
  | close => exact hquiet (addsNothing_of_eq h rfl rfl)
  | connect timeNow behind answers =>
      obtain ⟨queue, hframe, -⟩ := NetworkClient.enqueueImmediate_frame { s with queue := [] }
        behind (.timeSyncRequest (s.clock.now timeNow)) answers
      apply hquiet
      show s.AddsNothing (s.onConnect timeNow behind answers)
      unfold NetworkClient.onConnect
      rw [hframe]
      exact addsNothing_of_eq h rfl rfl

/-! ## Runs -/

theorem reported_run (h : s.storage.Coherent) (inputs : List Input) (entry : Handle) :
    (inputs.foldl step s).reported entry ≤ s.reported entry + s.changesIn entry inputs := by
  induction inputs generalizing s with
  | nil => exact Nat.le_add_right ..
  | cons input inputs ih =>
      obtain ⟨hcoherent, hreported⟩ := reported_step h input
      calc (inputs.foldl step (s.step input)).reported entry
          ≤ (s.step input).reported entry + (s.step input).changesIn entry inputs :=
            ih hcoherent
        _ ≤ s.reported entry + s.changes entry input + (s.step input).changesIn entry inputs :=
            Nat.add_le_add_right (hreported entry) _
        _ = s.reported entry + s.changesIn entry (input :: inputs) := Nat.add_assoc ..

/-- A client builds no more messages for an entry than its program has changed it, whatever
it hears. -/
theorem built_le_changesIn (memory : ParseData) (clock : Clock) (inputs : List Input)
    (entry : Handle) :
    let s := inputs.foldl step (new memory Storage.new clock)
    s.record.built.countP (·.entry = entry) + (s.storage.isDirty entry).toNat ≤
      (new memory Storage.new clock).changesIn entry inputs := by
  have hclean : Storage.new.isDirty entry = false := by
    unfold Storage.isDirty Storage.marks
    rw [show Storage.new.entries.get? entry = none from HandleTable.get?_empty entry]
    rfl
  have hstart : (new memory Storage.new clock).reported entry = 0 :=
    congrArg (0 + Bool.toNat ·) hclean
  have hrun := reported_run (s := new memory Storage.new clock) Storage.coherent_new inputs entry
  rw [hstart, Nat.zero_add] at hrun
  exact hrun

end NetworkClient

end Net

end Obsr
