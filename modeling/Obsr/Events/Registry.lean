/-
# The index by descriptor

`m_fd_map` is to know every registration by the descriptor it was added under, and no
other. `remove` takes the descriptor from the resource, but a socket whose connection was
reset has closed itself and does not know it any more.
-/

import Obsr.Lib.Run
import Obsr.Events.Looper

namespace Obsr.Events

open Obsr.Lib

/-- What happens to a looper: a call, a pass over its updates, or that a registered socket
closes itself. What the callbacks of a pass do are calls that follow it. -/
inductive LooperInput
  | call (call : Call)
  | processUpdates
  | reset (resource : Resource)
  deriving DecidableEq, Repr

namespace Looper

variable {π : Type} {P : Poller π} {s : Looper π}

/-- `handle_call_error` after `ECONNRESET`. -/
def reset (s : Looper π) (resource : Resource) : Looper π :=
  { s with descriptors := Function.update s.descriptors resource (-1) }

def step (P : Poller π) (s : Looper π) : LooperInput → Looper π
  | .call c => s.call P c
  | .processUpdates => (s.processUpdates P).1
  | .reset resource => s.reset resource

/-- A descriptor maps to the registrations that were added under it and are live; so a
resource with another descriptor can be added as long as there is room. -/
structure Indexed (s : Looper π) : Prop where
  maps : ∀ descriptor pointer, s.fdMap descriptor = some pointer ↔
    ∃ data, s.get pointer = some data ∧ data.addedUnder = descriptor
  accepts : ∀ resource events, s.handles.HasSpace →
    (∀ handle data, s.handles.get? handle = some data →
      data.addedUnder ≠ s.descriptors resource) →
    ∃ handle, (s.add resource events).2 = .ok handle

/-- A registration that is removed has a resource that still knows its descriptor. -/
def FindsDescriptor (s : Looper π) : LooperInput → Prop
  | .call (.remove handle) =>
      ∀ data, s.handles.get? handle = some data → s.descriptors data.resource = data.addedUnder
  | _ => True

/-- The registrations know their handles and are numbered, and the index is right. -/
structure Numbered (s : Looper π) : Prop where
  handle : ∀ handle data, s.handles.get? handle = some data → data.handle = handle
  serial_lt : ∀ handle data, s.handles.get? handle = some data → data.serial < s.nextSerial
  maps : ∀ descriptor pointer, s.fdMap descriptor = some pointer ↔
    ∃ data, s.get pointer = some data ∧ data.addedUnder = descriptor

theorem get_eq_some {pointer : Pointer} {data : Registration} :
    s.get pointer = some data ↔
      s.handles.get? pointer.handle = some data ∧ data.serial = pointer.serial := by
  rw [get, Option.filter_eq_some_iff, decide_eq_true_eq]

theorem numbered_new (descriptors : Resource → Descriptor) (poller : π) :
    Numbered { descriptors, poller } where
  handle _ _ h := by simp at h
  serial_lt _ _ h := by simp at h
  maps descriptor pointer := by
    simp only [get_eq_some, HandleTable.get?_empty]
    simp

/-- The index is right about a live registration. -/
theorem Numbered.fdMap_of_get? (h : s.Numbered) {handle : Handle} {data : Registration}
    (hdata : s.handles.get? handle = some data) :
    s.fdMap data.addedUnder = some ⟨handle, data.serial⟩ :=
  (h.maps _ _).mpr ⟨data, get_eq_some.mpr ⟨hdata, rfl⟩, rfl⟩

theorem Numbered.indexed (h : s.Numbered) : s.Indexed where
  maps := h.maps
  accepts resource events hspace hfree := by
    have hnone : s.fdMap (s.descriptors resource) = none := by
      cases hmap : s.fdMap (s.descriptors resource) with
      | none => rfl
      | some pointer =>
          obtain ⟨data, hdata, hadded⟩ := (h.maps _ _).mp hmap
          exact absurd hadded (hfree _ _ (get_eq_some.mp hdata).1)
    rw [add, hnone]
    dsimp only
    split
    · next thrown hfull =>
        exact absurd hspace (HandleTable.allocateNewWithHandle_eq_error.mp hfull).2
    · next handle handles _ => exact ⟨handle, rfl⟩

theorem Numbered.add (h : s.Numbered) (resource : Resource) (events : EventTypes) :
    (s.add resource events).1.Numbered := by
  rcases s.add_cases resource events with ⟨thrown, hsame⟩ | ⟨handle, s', hadd, hadds⟩
  · rw [hsame]
    exact h
  · rw [hadd]
    obtain ⟨handles, hframe⟩ := hadds.frame
    have hnext : s'.nextSerial = s.nextSerial + 1 := by rw [hframe]
    have hmap : s'.fdMap = Function.update s.fdMap (s.descriptors resource)
        (some ⟨handle, s.nextSerial⟩) := by rw [hframe]
    refine ⟨?_, ?_, ?_⟩
    · intro other data hdata
      rw [hadds.handles] at hdata
      split_ifs at hdata with hother
      · rw [← Option.some.inj hdata, hother]
      · exact h.handle other data hdata
    · intro other data hdata
      rw [hnext]
      rw [hadds.handles] at hdata
      split_ifs at hdata
      · rw [← Option.some.inj hdata]
        exact Nat.lt_succ_self _
      · exact (h.serial_lt other data hdata).trans (Nat.lt_succ_self _)
    · intro descriptor pointer
      rw [hmap]
      simp only [get_eq_some, hadds.handles]
      by_cases hdescriptor : descriptor = s.descriptors resource
      · subst hdescriptor
        rw [Function.update_self]
        constructor
        · intro hpointer
          obtain rfl := Option.some.inj hpointer
          exact ⟨_, ⟨if_pos rfl, rfl⟩, rfl⟩
        · rintro ⟨data, ⟨hdata, hserial⟩, hadded⟩
          split_ifs at hdata with hother
          · obtain rfl := Option.some.inj hdata
            obtain ⟨pointerHandle, serial⟩ := pointer
            obtain rfl : pointerHandle = handle := hother
            obtain rfl : s.nextSerial = serial := hserial
            rfl
          · have hold := h.fdMap_of_get? hdata
            rw [hadded, hadds.free] at hold
            cases hold
      · rw [Function.update_of_ne hdescriptor, h.maps]
        simp only [get_eq_some]
        constructor
        · rintro ⟨data, ⟨hdata, hserial⟩, hadded⟩
          have hother : pointer.handle ≠ handle := by
            intro heq
            rw [heq, hadds.fresh] at hdata
            cases hdata
          exact ⟨data, ⟨(if_neg hother).trans hdata, hserial⟩, hadded⟩
        · rintro ⟨data, ⟨hdata, hserial⟩, hadded⟩
          split_ifs at hdata
          · obtain rfl := Option.some.inj hdata
            exact absurd hadded.symm hdescriptor
          · exact ⟨data, ⟨hdata, hserial⟩, hadded⟩

theorem Numbered.remove (h : s.Numbered) {handle : Handle}
    (hok : ∀ data, s.handles.get? handle = some data →
      s.descriptors data.resource = data.addedUnder) :
    (s.remove P handle).1.Numbered := by
  rw [Looper.remove]
  cases hdata : s.handles.get? handle with
  | none => exact h
  | some data =>
      dsimp only
      rw [hok data hdata]
      refine ⟨?_, ?_, ?_⟩
      · intro other other_data hother
        rw [HandleTable.get?_release] at hother
        split_ifs at hother
        exact h.handle other other_data hother
      · intro other other_data hother
        rw [HandleTable.get?_release] at hother
        split_ifs at hother
        exact h.serial_lt other other_data hother
      · intro descriptor pointer
        simp only [get_eq_some, HandleTable.get?_release]
        by_cases hdescriptor : descriptor = data.addedUnder
        · subst hdescriptor
          rw [Function.update_self]
          constructor
          · intro hpointer
            cases hpointer
          · rintro ⟨other, ⟨hother, hserial⟩, hadded⟩
            split_ifs at hother with hremoved
            -- it would be in the index under the same descriptor
            have hfirst := h.fdMap_of_get? hdata
            have hsecond := h.fdMap_of_get? hother
            rw [hadded, hfirst] at hsecond
            exact absurd (congrArg Pointer.handle (Option.some.inj hsecond)).symm hremoved
        · rw [Function.update_of_ne hdescriptor, h.maps]
          simp only [get_eq_some]
          constructor
          · rintro ⟨other, ⟨hother, hserial⟩, hadded⟩
            have hkept : pointer.handle ≠ handle := by
              intro heq
              rw [heq, hdata] at hother
              obtain rfl := Option.some.inj hother
              exact hdescriptor hadded.symm
            exact ⟨other, ⟨(if_neg hkept).trans hother, hserial⟩, hadded⟩
          · rintro ⟨other, ⟨hother, hserial⟩, hadded⟩
            split_ifs at hother
            exact ⟨other, ⟨hother, hserial⟩, hadded⟩

theorem Numbered.of_keeps (h : s.Numbered) {s' : Looper π} (hkeeps : s.Keeps s') :
    s'.Numbered where
  handle handle data hdata := by
    obtain ⟨events, hold⟩ := hkeeps.of_get? hdata
    exact (h.handle handle _ hold :)
  serial_lt handle data hdata := by
    obtain ⟨events, hold⟩ := hkeeps.of_get? hdata
    rw [hkeeps.nextSerial]
    exact (h.serial_lt handle _ hold :)
  maps descriptor pointer := by
    rw [hkeeps.fdMap, h.maps]
    simp only [get_eq_some]
    constructor
    · rintro ⟨data, ⟨hdata, hserial⟩, hadded⟩
      obtain ⟨events, hnew⟩ := hkeeps.symm.of_get? hdata
      exact ⟨_, ⟨hnew, hserial⟩, hadded⟩
    · rintro ⟨data, ⟨hdata, hserial⟩, hadded⟩
      obtain ⟨events, hold⟩ := hkeeps.of_get? hdata
      exact ⟨_, ⟨hold, hserial⟩, hadded⟩

theorem Numbered.step (s : Looper π) (input : LooperInput) (h : s.Numbered)
    (hok : s.FindsDescriptor input) : (s.step P input).Numbered := by
  cases input with
  | call c =>
      cases c with
      | add resource events => exact h.add resource events
      | remove handle => exact h.remove hok
      | requestUpdates handle events type =>
          show (s.requestUpdates handle events type).1.Numbered
          rw [requestUpdates]
          split_ifs
          · exact ⟨h.handle, h.serial_lt, h.maps⟩
          · exact h
  | processUpdates => exact h.of_keeps (s.keeps_processUpdates P)
  | reset resource => exact ⟨h.handle, h.serial_lt, h.maps⟩

/-- A removal that does not find the descriptor leaves it mapped to what was removed. -/
theorem Numbered.not_indexed (s : Looper π) (input : LooperInput) (h : s.Numbered)
    (hbad : ¬ s.FindsDescriptor input) : ¬ (s.step P input).Indexed := by
  unfold FindsDescriptor at hbad
  split at hbad
  · next handle =>
      push Not at hbad
      obtain ⟨data, hdata, hlost⟩ := hbad
      intro hindexed
      have hmapped : (s.step P (.call (.remove handle))).fdMap data.addedUnder =
          some ⟨handle, data.serial⟩ := by
        show (s.remove P handle).1.fdMap _ = _
        rw [Looper.remove, hdata]
        exact (Function.update_of_ne (Ne.symm hlost) ..).trans (h.fdMap_of_get? hdata)
      obtain ⟨other, hother, -⟩ := (hindexed.maps _ _).mp hmapped
      have hreleased : (s.step P (.call (.remove handle))).handles.get? handle = none := by
        show (s.remove P handle).1.handles.get? handle = none
        rw [Looper.remove, hdata]
        exact (HandleTable.get?_release ..).trans (if_pos rfl)
      have hfound := (get_eq_some.mp hother).1
      rw [hreleased] at hfound
      cases hfound
  · exact absurd trivial hbad

/-- The index stays right throughout a run exactly if every registration that is removed
still finds its descriptor. -/
theorem indexed_iff_findsDescriptor (P : Poller π) (descriptors : Resource → Descriptor)
    (poller : π) (inputs : List LooperInput) :
    HoldsThroughout (step P) Indexed { descriptors, poller } inputs ↔
      StepsMeet (step P) FindsDescriptor { descriptors, poller } inputs :=
  holdsThroughout_iff_stepsMeet Numbered.step (fun _ h => h.indexed) Numbered.not_indexed
    (numbered_new descriptors poller) inputs

/-- Behind the signal of the looper a socket on descriptor 5 has the handle 1; it is reset by
its peer before it is removed. -/
theorem not_indexed_reset :
    ¬ HoldsThroughout (step resourcePoller) Indexed
      { descriptors := fun resource => resource, poller := fun _ => none }
      [.call (.add 3 1), .call (.add 5 1), .processUpdates, .reset 5, .call (.remove 1)] := by
  rintro ⟨-, -, -, -, -, hlast⟩
  obtain ⟨data, hdata, -⟩ := (hlast.maps 5 ⟨1, 1⟩).mp (by decide +kernel)
  have hsome := congrArg Option.isSome hdata
  rw [Option.isSome_some] at hsome
  revert hsome
  decide +kernel

/-! ## Descriptors that do not change -/

/-- Registered resources have the descriptors they were added under. -/
structure Steady (s : Looper π) : Prop extends Numbered s where
  stable : ∀ handle data, s.handles.get? handle = some data →
    s.descriptors data.resource = data.addedUnder

theorem steady_new (descriptors : Resource → Descriptor) (poller : π) :
    Steady { descriptors, poller } :=
  ⟨numbered_new descriptors poller, fun _ _ h => by simp at h⟩

theorem Steady.of_keeps (h : s.Steady) {s' : Looper π} (hkeeps : s.Keeps s') : s'.Steady where
  toNumbered := h.toNumbered.of_keeps hkeeps
  stable handle data hdata := by
    obtain ⟨events, hold⟩ := hkeeps.of_get? hdata
    rw [hkeeps.descriptors]
    exact (h.stable handle _ hold :)

/-- What a call leaves in the table was there before, or is a new registration. -/
theorem get?_call (s : Looper π) (c : Call) {handle : Handle} {data : Registration}
    (hdata : (s.call P c).handles.get? handle = some data) :
    s.handles.get? handle = some data ∨
      (data.events = 0 ∧ data.serial = s.nextSerial ∧
        s.descriptors data.resource = data.addedUnder ∧
        ∃ events, ⟨handle, .add, events⟩ ∈ (s.call P c).updates) := by
  cases c with
  | add resource events =>
      replace hdata : (s.add resource events).1.handles.get? handle = some data := hdata
      show _ ∨ (_ ∧ _ ∧ _ ∧ ∃ events', _ ∈ (s.add resource events).1.updates)
      rcases s.add_cases resource events with ⟨thrown, hsame⟩ | ⟨new, s', hadd, hadds⟩
      · rw [hsame] at hdata
        exact .inl hdata
      · rw [hadd] at hdata ⊢
        rw [hadds.handles] at hdata
        split_ifs at hdata with hnew
        · right
          rw [← Option.some.inj hdata, hnew]
          obtain ⟨handles, hframe⟩ := hadds.frame
          refine ⟨rfl, rfl, rfl, events, ?_⟩
          rw [hframe]
          exact List.mem_append_right _ (List.mem_singleton.mpr rfl)
        · exact .inl hdata
  | remove removed =>
      left
      replace hdata : (s.remove P removed).1.handles.get? handle = some data := hdata
      rw [remove] at hdata
      cases hold : s.handles.get? removed with
      | none =>
          rw [hold] at hdata
          exact hdata
      | some old =>
          rw [hold] at hdata
          replace hdata : (s.handles.release removed).get? handle = some data := hdata
          rw [HandleTable.get?_release] at hdata
          split_ifs at hdata
          exact hdata
  | requestUpdates other events type =>
      left
      replace hdata : (s.requestUpdates other events type).1.handles.get? handle = some data :=
        hdata
      rw [requestUpdates] at hdata
      split_ifs at hdata <;> exact hdata

theorem descriptors_call (s : Looper π) (c : Call) :
    (s.call P c).descriptors = s.descriptors := by
  cases c with
  | add resource events =>
      show (s.add resource events).1.descriptors = _
      rcases s.add_cases resource events with ⟨thrown, hsame⟩ | ⟨new, s', hadd, hadds⟩
      · rw [hsame]
      · obtain ⟨handles, hframe⟩ := hadds.frame
        rw [hadd, hframe]
  | remove removed =>
      show (s.remove P removed).1.descriptors = _
      rw [remove]
      split <;> rfl
  | requestUpdates other events type =>
      show (s.requestUpdates other events type).1.descriptors = _
      rw [requestUpdates]
      split_ifs <;> rfl

theorem Steady.call (h : s.Steady) (c : Call) : (s.call P c).Steady where
  toNumbered := by
    refine Numbered.step s (.call c) h.toNumbered ?_
    cases c with
    | remove handle => exact h.stable handle
    | _ => trivial
  stable handle data hdata := by
    rw [descriptors_call]
    rcases s.get?_call c hdata with hold | ⟨-, -, hstable, -⟩
    · exact h.stable handle data hold
    · exact hstable

end Looper

end Obsr.Events
