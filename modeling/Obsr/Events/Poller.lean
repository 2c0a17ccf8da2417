/-
# What a poller is relied on for

The poller of the looper is a kernel object. What `epoll_ctl` documents of it is stated in
terms of what it watches: which descriptors, and for which events. A looper over any such
poller takes the steps of a looper over the table of what is watched.
-/

import Obsr.Events.Looper

namespace Obsr.Events

/-! ## The documented results -/

/-- What `epoll_ctl` documents: an open descriptor that is not watched can be added, one
that is watched can be changed; any other such call throws and changes nothing. What was
removed is not watched. -/
structure Poller.Documented {π : Type} (P : Poller π) (watches : π → Interests) : Prop where
  adds : ∀ descriptor events poller, 0 ≤ descriptor → watches poller descriptor = none →
    (P.add descriptor events poller).2 = true ∧
      watches (P.add descriptor events poller).1 =
        Function.update (watches poller) descriptor (some events)
  refusesAdd : ∀ descriptor events poller,
    ¬ (0 ≤ descriptor ∧ watches poller descriptor = none) →
      (P.add descriptor events poller).2 = false ∧
        watches (P.add descriptor events poller).1 = watches poller
  sets : ∀ descriptor events poller, (watches poller descriptor).isSome = true →
    (P.set descriptor events poller).2 = true ∧
      watches (P.set descriptor events poller).1 =
        Function.update (watches poller) descriptor (some events)
  refusesSet : ∀ descriptor events poller, ¬ (watches poller descriptor).isSome = true →
    (P.set descriptor events poller).2 = false ∧
      watches (P.set descriptor events poller).1 = watches poller
  removes : ∀ descriptor poller,
    watches (P.remove descriptor poller).1 = Function.update (watches poller) descriptor none

section ResourcePoller

variable {descriptor other : Descriptor} {events : EventTypes} {interests : Interests}

theorem resourcePoller_add (hopen : 0 ≤ descriptor) (hnone : interests descriptor = none) :
    resourcePoller.add descriptor events interests =
      (Function.update interests descriptor (some events), true) := if_pos ⟨hopen, hnone⟩

theorem resourcePoller_set (hsome : (interests descriptor).isSome = true) :
    resourcePoller.set descriptor events interests =
      (Function.update interests descriptor (some events), true) := if_pos hsome

/-- The poller stops watching what it is told to remove, and nothing else. -/
theorem resourcePoller_remove (descriptor : Descriptor) (interests : Interests) :
    (resourcePoller.remove descriptor interests).1 =
      Function.update interests descriptor none := by
  show (if _ then _ else _ : Interests × Bool).1 = _
  by_cases hsome : (interests descriptor).isSome = true
  · rw [if_pos hsome]
  · rw [if_neg hsome]
    have hnone : interests descriptor = none := by simpa using hsome
    exact (Function.update_eq_self_iff.mpr hnone.symm).symm

/-- The table of an epoll instance is such a poller. -/
theorem resourcePoller_documented : resourcePoller.Documented id where
  adds descriptor events interests hopen hnone := by
    have hadd : resourcePoller.add descriptor events interests = _ :=
      resourcePoller_add hopen hnone
    exact ⟨congrArg Prod.snd hadd, congrArg Prod.fst hadd⟩
  refusesAdd descriptor events interests hrefused := by
    have hadd : resourcePoller.add descriptor events interests = (interests, false) :=
      if_neg hrefused
    exact ⟨congrArg Prod.snd hadd, congrArg Prod.fst hadd⟩
  sets descriptor events interests hsome := by
    have hset : resourcePoller.set descriptor events interests = _ := resourcePoller_set hsome
    exact ⟨congrArg Prod.snd hset, congrArg Prod.fst hset⟩
  refusesSet descriptor events interests hrefused := by
    have hset : resourcePoller.set descriptor events interests = (interests, false) :=
      if_neg hrefused
    exact ⟨congrArg Prod.snd hset, congrArg Prod.fst hset⟩
  removes := resourcePoller_remove

end ResourcePoller

/-! ## Loopers over such a poller -/

namespace Poller.Documented

variable {π : Type} {P : Poller π} {watches : π → Interests}

theorem add_eq (h : P.Documented watches) (descriptor : Descriptor) (events : EventTypes)
    (poller : π) :
    (P.add descriptor events poller).map watches id =
      resourcePoller.add descriptor events (watches poller) := by
  by_cases hfree : 0 ≤ descriptor ∧ watches poller descriptor = none
  · obtain ⟨hreturns, hwatches⟩ := h.adds descriptor events poller hfree.1 hfree.2
    rw [resourcePoller_add hfree.1 hfree.2]
    exact Prod.ext hwatches hreturns
  · obtain ⟨hthrows, hwatches⟩ := h.refusesAdd descriptor events poller hfree
    exact (Prod.ext hwatches hthrows).trans (if_neg hfree).symm

theorem set_eq (h : P.Documented watches) (descriptor : Descriptor) (events : EventTypes)
    (poller : π) :
    (P.set descriptor events poller).map watches id =
      resourcePoller.set descriptor events (watches poller) := by
  by_cases hsome : (watches poller descriptor).isSome = true
  · obtain ⟨hreturns, hwatches⟩ := h.sets descriptor events poller hsome
    rw [resourcePoller_set hsome]
    exact Prod.ext hwatches hreturns
  · obtain ⟨hthrows, hwatches⟩ := h.refusesSet descriptor events poller hsome
    exact (Prod.ext hwatches hthrows).trans (if_neg hsome).symm

end Poller.Documented

namespace Looper

variable {π : Type} {P : Poller π} {watches : π → Interests}

/-- The looper, with what its poller watches in place of the poller. -/
def through (watches : π → Interests) (s : Looper π) : Looper Interests where
  descriptors := s.descriptors
  poller := watches s.poller
  handles := s.handles
  fdMap := s.fdMap
  updates := s.updates
  nextSerial := s.nextSerial
  calls := s.calls
  added := s.added

theorem through_call (h : P.Documented watches) (s : Looper π) (c : Call) :
    (s.call P c).through watches = (s.through watches).call resourcePoller c := by
  cases c with
  | add resource events =>
      simp only [call, add, through]
      cases s.fdMap (s.descriptors resource) with
      | some pointer => rfl
      | none =>
          dsimp only
          split <;> rfl
  | remove handle =>
      simp only [call, remove, through]
      cases s.handles.get? handle with
      | none => rfl
      | some data => simp only [h.removes, resourcePoller_remove]
  | requestUpdates handle events type =>
      by_cases hhas : s.handles.has handle = true
      · simp [call, requestUpdates, through, hhas]
      · simp [call, requestUpdates, through, hhas]

/-- An update does the same, and returns or throws alike. -/
theorem through_processUpdate (h : P.Documented watches) (s : Looper π) (update : Update) :
    (s.processUpdate P update).map (through watches) id =
      (s.through watches).processUpdate resourcePoller update := by
  have hhandles : (s.through watches).handles = s.handles := rfl
  rw [processUpdate, processUpdate, hhandles]
  cases s.handles.get? update.handle with
  | none => rfl
  | some data =>
      have hasked : (if update.type = .add then
            P.add (s.descriptors data.resource)
              (update.type.apply data.events update.events) s.poller
          else P.set (s.descriptors data.resource)
              (update.type.apply data.events update.events) s.poller).map watches id =
          if update.type = .add then
            resourcePoller.add (s.descriptors data.resource)
              (update.type.apply data.events update.events) (watches s.poller)
          else resourcePoller.set (s.descriptors data.resource)
              (update.type.apply data.events update.events) (watches s.poller) := by
        split_ifs
        · exact h.add_eq ..
        · exact h.set_eq ..
      simp only [through, ← hasked]
      rfl

theorem through_processUpdatesFrom (h : P.Documented watches) (updates : List Update)
    (s : Looper π) :
    (processUpdatesFrom P updates s).map (through watches) id =
      processUpdatesFrom resourcePoller updates (s.through watches) := by
  induction updates generalizing s with
  | nil => rfl
  | cons update updates ih =>
      rw [processUpdatesFrom, processUpdatesFrom, ← through_processUpdate h]
      rcases s.processUpdate P update with ⟨t, returned⟩
      cases returned with
      | true => exact ih t
      | false => rfl

end Looper

end Obsr.Events
