/-
# Events reach the registration they are about

While a pass goes through the polled events, callbacks may remove registrations and add
others that have the same handles and descriptors. A registration that was added meanwhile
has no events before the next pass, so that whatever is polled for the former owner of its
descriptor does not reach it.

Resources keep their descriptors here; that a descriptor is used again is that another
resource has the same.
-/

import Obsr.Events.Registry

namespace Obsr.Events

open Obsr.Lib

namespace Looper

variable {π : Type} {P : Poller π} {s : Looper π}

/-! ## Loops -/

/-- `loop`; the exception of an update ends it before anything is polled. -/
def loop (P : Poller π) (s : Looper π) (polled : List (Descriptor × EventTypes))
    (reactions : List (List Call)) : Looper π × List (Visit π) :=
  match s.processUpdates P with
  | (after, true) => processEvents P polled reactions after
  | (after, false) => (after, [])

/-- A call outside of the callbacks for events, or a turn of the loop. -/
inductive Turn
  | call (c : Call)
  | loop (polled : List (Descriptor × EventTypes)) (reactions : List (List Call))
  deriving DecidableEq, Repr

def turn (P : Poller π) (s : Looper π) : Turn → Looper π
  | .call c => s.call P c
  | .loop polled reactions => (s.loop P polled reactions).1

/-- The poller was called to add the registration, and the call returned. -/
def Told (s : Looper π) (data : Registration) : Prop :=
  (∃ events, .add data.serial events ∈ s.calls) ∧ data.serial ∈ s.added

/-- A callback is that of a registration that was there after the updates of the turn, that
the poller had been told of, and that is there still; and its events were polled for it
and are among those it was interested in after the updates. -/
def Visit.Fresh (after : Looper π) (polled : List (Descriptor × EventTypes)) :
    Visit π → Prop
  | .dangling _ => False
  | .called s data revents events =>
      after.handles.get? data.handle = some data ∧ after.Told data ∧
        s.handles.get? data.handle = some data ∧
        (s.descriptors data.resource, revents) ∈ polled ∧
        events &&& revents = events ∧ events &&& data.events = events

/-! ## What the poller is told -/

/-- The poller was told of every registration, or will be in the next pass. -/
structure Announced (s : Looper π) : Prop extends s.Steady where
  told : ∀ handle data, s.handles.get? handle = some data →
    s.Told data ∨ ∃ update ∈ s.updates, update.handle = handle ∧ update.type = .add

theorem announced_new (descriptors : Resource → Descriptor) (poller : π) :
    Announced { descriptors, poller } :=
  ⟨steady_new descriptors poller, fun _ _ h => by simp at h⟩

/-- What is noted of the calls of the poller is not taken back. -/
def Notes (s s' : Looper π) : Prop := s.calls ⊆ s'.calls ∧ s.added ⊆ s'.added

theorem Notes.refl (s : Looper π) : s.Notes s := ⟨List.Subset.refl _, List.Subset.refl _⟩

theorem Notes.told {s' : Looper π} (h : s.Notes s') {data : Registration} (htold : s.Told data) :
    s'.Told data := by
  obtain ⟨⟨events, hcall⟩, hadded⟩ := htold
  exact ⟨⟨events, h.1 hcall⟩, h.2 hadded⟩

/-- A call takes back neither what is noted nor what is put off. -/
theorem call_grows (s : Looper π) (c : Call) :
    s.Notes (s.call P c) ∧ s.updates ⊆ (s.call P c).updates := by
  cases c with
  | add resource events =>
      show s.Notes (s.add resource events).1 ∧ s.updates ⊆ (s.add resource events).1.updates
      rcases s.add_cases resource events with ⟨thrown, hsame⟩ | ⟨new, s', hadd, hadds⟩
      · rw [hsame]
        exact ⟨.refl s, List.Subset.refl _⟩
      · obtain ⟨handles, hframe⟩ := hadds.frame
        rw [hadd, hframe]
        exact ⟨.refl s, List.subset_append_left ..⟩
  | remove removed =>
      show s.Notes (s.remove P removed).1 ∧ s.updates ⊆ (s.remove P removed).1.updates
      rw [remove]
      split
      · exact ⟨.refl s, List.Subset.refl _⟩
      · exact ⟨⟨List.subset_append_left .., List.Subset.refl _⟩, List.Subset.refl _⟩
  | requestUpdates other events type =>
      show s.Notes (s.requestUpdates other events type).1 ∧
        s.updates ⊆ (s.requestUpdates other events type).1.updates
      rw [requestUpdates]
      split_ifs
      · exact ⟨.refl s, List.subset_append_left ..⟩
      · exact ⟨.refl s, List.Subset.refl _⟩

theorem Announced.call (h : s.Announced) (c : Call) : (s.call P c).Announced where
  toSteady := h.toSteady.call c
  told handle data hdata := by
    obtain ⟨hnotes, hupdates⟩ := s.call_grows (P := P) c
    rcases s.get?_call c hdata with hold | ⟨-, -, -, events, hadded⟩
    · rcases h.told handle data hold with htold | ⟨update, hupdate, hadd⟩
      · exact .inl (hnotes.told htold)
      · exact .inr ⟨update, hupdates hupdate, hadd⟩
    · exact .inr ⟨_, hadded, rfl, rfl⟩

/-- The updates that are left would tell the poller of every registration. -/
def Tells (updates : List Update) (s : Looper π) : Prop :=
  ∀ handle data, s.handles.get? handle = some data →
    s.Told data ∨ ∃ update ∈ updates, update.handle = handle ∧ update.type = .add

theorem notes_processUpdate (s : Looper π) (update : Update) :
    s.Notes (s.processUpdate P update).1 := by
  rw [processUpdate]
  split
  · exact .refl s
  · refine ⟨List.subset_append_left .., fun serial hserial => ?_⟩
    dsimp only
    split_ifs <;> simp [hserial]

/-- An addition that returns has told the poller of the registration with its handle. -/
theorem told_processUpdate {update : Update} (hadd : update.type = .add) {data : Registration}
    (hdata : s.handles.get? update.handle = some data)
    (hreturned : (s.processUpdate P update).2 = true) :
    (s.processUpdate P update).1.Told data := by
  rw [processUpdate, hdata] at hreturned ⊢
  refine ⟨⟨update.type.apply data.events update.events, List.mem_append_right _ ?_⟩, ?_⟩
  · rw [if_pos hadd]
    exact List.mem_singleton.mpr rfl
  · show data.serial ∈ if _ then _ else _
    rw [if_pos ⟨hadd, hreturned⟩]
    exact List.mem_append_right _ (List.mem_singleton.mpr rfl)

theorem Tells.processUpdate {update : Update} {updates : List Update}
    (h : Tells (update :: updates) s) (hreturned : (s.processUpdate P update).2 = true) :
    Tells updates (s.processUpdate P update).1 := by
  intro handle data hdata
  obtain ⟨events, hold⟩ := (s.keeps_processUpdate P update).of_get? hdata
  rcases h handle _ hold with htold | ⟨other, hother, hhandle, hadd⟩
  · exact .inl ((notes_processUpdate s update).told htold :)
  · rcases List.mem_cons.mp hother with rfl | hlater
    · subst hhandle
      exact .inl (told_processUpdate (P := P) hadd hold hreturned :)
    · exact .inr ⟨other, hlater, hhandle, hadd⟩

/-- An addition that throws is put off once more. -/
theorem Tells.processUpdatesFrom {updates : List Update} (h : Tells updates s) :
    Tells (processUpdatesFrom P updates s).1.updates (processUpdatesFrom P updates s).1 := by
  induction updates generalizing s with
  | nil => exact h
  | cons update updates ih =>
      have hfirst := h.processUpdate (P := P)
      have hnotes := notes_processUpdate (P := P) s update
      have hkeeps := s.keeps_processUpdate P update
      rw [Looper.processUpdatesFrom]
      rcases hupdate : s.processUpdate P update with ⟨t, returned⟩
      rw [hupdate] at hfirst hnotes hkeeps
      cases returned with
      | true => exact ih (hfirst rfl)
      | false =>
          intro handle data hdata
          obtain ⟨events, hold⟩ := hkeeps.of_get? hdata
          rcases h handle _ hold with htold | hlater
          · exact .inl (hnotes.told htold :)
          · exact .inr hlater

theorem updates_processUpdatesFrom {updates : List Update} {after : Looper π}
    (h : processUpdatesFrom P updates s = (after, true)) : after.updates = [] := by
  induction updates generalizing s with
  | nil => rw [← (Prod.mk.inj h).1]
  | cons update updates ih =>
      rw [processUpdatesFrom] at h
      split at h
      · exact ih h
      · cases (Prod.mk.inj h).2

theorem Announced.processUpdates (h : s.Announced) : (s.processUpdates P).1.Announced :=
  ⟨h.toSteady.of_keeps (s.keeps_processUpdates P), Tells.processUpdatesFrom h.told⟩

/-! ## The callbacks of a turn -/

/-- Only registrations from after the updates have events. -/
def Old (after s : Looper π) : Prop :=
  ∀ handle data, s.handles.get? handle = some data → data.events ≠ 0 →
    after.handles.get? handle = some data

theorem Old.call {after : Looper π} (h : Old after s) (c : Call) : Old after (s.call P c) := by
  intro handle data hdata hevents
  rcases s.get?_call c hdata with hold | ⟨hzero, -⟩
  · exact h handle data hold hevents
  · exact absurd hzero hevents

/-- Every callback of a turn is for something that was there and still is. -/
theorem fresh_of_mem_processEvents {after : Looper π} (htold : Tells [] after)
    (polled : List (Descriptor × EventTypes)) (reactions : List (List Call))
    (hsteady : s.Steady) (hold : Old after s) :
    ∀ visit ∈ (processEvents P polled reactions s).2, visit.Fresh after polled := by
  induction polled generalizing s reactions with
  | nil => exact fun _ hvisit => absurd hvisit List.not_mem_nil
  | cons pair polled ih =>
      obtain ⟨fd, revents⟩ := pair
      have hweaken : ∀ visit : Visit π, visit.Fresh after polled →
          visit.Fresh after ((fd, revents) :: polled) := by
        intro visit hfresh
        cases visit with
        | dangling pointer => exact hfresh
        | called s data revents events =>
            obtain ⟨hthere, htold, hstill, hpolled, hevents⟩ := hfresh
            exact ⟨hthere, htold, hstill, List.mem_cons_of_mem _ hpolled, hevents⟩
      rw [processEvents]
      cases hmap : s.fdMap fd with
      | none => exact fun visit hvisit => hweaken visit (ih reactions hsteady hold visit hvisit)
      | some pointer =>
          obtain ⟨data, hget, hadded⟩ := (hsteady.maps fd pointer).mp hmap
          obtain ⟨hdata, hserial⟩ := get_eq_some.mp hget
          dsimp only
          rw [hget]
          dsimp only
          split_ifs with hzero
          · exact fun visit hvisit => hweaken visit (ih reactions hsteady hold visit hvisit)
          · intro visit hvisit
            rcases List.mem_cons.mp hvisit with rfl | hlater
            · have hhandle : data.handle = pointer.handle := hsteady.handle _ _ hdata
              have hevents : data.events ≠ 0 := by
                intro hnone
                rw [hnone, UInt32.zero_and] at hzero
                exact hzero rfl
              have hthere := hold _ _ hdata hevents
              refine ⟨hhandle ▸ hthere, ?_, hhandle ▸ hdata, ?_, ?_, ?_⟩
              · exact (htold _ _ hthere).resolve_right fun ⟨_, hmem, _⟩ =>
                  List.not_mem_nil hmem
              · rw [hsteady.stable _ _ hdata, hadded]
                exact List.mem_cons_self
              · rw [UInt32.and_assoc, UInt32.and_self]
              · rw [UInt32.and_comm, ← UInt32.and_assoc, UInt32.and_self]
            · have hreacted : ∀ calls : List Call,
                  (calls.foldl (call P) s).Steady ∧ Old after (calls.foldl (call P) s) :=
                fun calls => foldl_of_invariant (I := fun s => s.Steady ∧ Old after s)
                  (fun t c ht => ⟨ht.1.call c, ht.2.call c⟩) ⟨hsteady, hold⟩ calls
              obtain ⟨hsteady, hold⟩ := hreacted (reactions.headD [])
              exact hweaken visit (ih reactions.tail hsteady hold visit hlater)

theorem Announced.processEvents (h : s.Announced) (polled : List (Descriptor × EventTypes))
    (reactions : List (List Call)) : (processEvents P polled reactions s).1.Announced := by
  induction polled generalizing s reactions with
  | nil => exact h
  | cons pair polled ih =>
      obtain ⟨fd, revents⟩ := pair
      rw [Looper.processEvents]
      split
      · exact ih h reactions
      · split
        · exact h
        · dsimp only
          split_ifs
          · exact ih h reactions
          · exact ih (foldl_of_invariant (fun _ c ht => ht.call c) h _) reactions.tail

theorem Announced.turn (s : Looper π) (turn : Turn) (h : s.Announced) :
    (s.turn P turn).Announced := by
  cases turn with
  | call c => exact h.call c
  | loop polled reactions =>
      have hafter := h.processUpdates (P := P)
      show (s.loop P polled reactions).1.Announced
      rw [loop]
      rcases hupdates : s.processUpdates P with ⟨after, returned⟩
      rw [hupdates] at hafter
      cases returned with
      | true => exact hafter.processEvents polled reactions
      | false => exact hafter

/-- In no turn of any run does an event reach a registration it is not about. -/
theorem fresh_of_mem_loop (P : Poller π) (descriptors : Resource → Descriptor) (poller : π)
    (turns : List Turn) (polled : List (Descriptor × EventTypes))
    (reactions : List (List Call)) :
    let s := turns.foldl (turn P) { descriptors, poller }
    ∀ visit ∈ (s.loop P polled reactions).2, visit.Fresh (s.processUpdates P).1 polled := by
  intro s
  have hs : s.Announced :=
    foldl_of_invariant Announced.turn (announced_new descriptors poller) turns
  have hafter := hs.processUpdates (P := P)
  rw [loop]
  rcases hupdates : s.processUpdates P with ⟨after, returned⟩
  rw [hupdates] at hafter
  cases returned with
  | false => exact fun _ hvisit => absurd hvisit List.not_mem_nil
  | true =>
      have htold : Tells [] after := by
        have hempty : after.updates = [] := updates_processUpdatesFrom hupdates
        have htells := hafter.told
        rw [hempty] at htells
        exact htells
      exact fresh_of_mem_processEvents htold polled reactions hafter.toSteady
        (fun _ _ hdata _ => hdata)

end Looper

end Obsr.Events
