/-
# What the poller watches for

Updates of the interest in events are put off to the next pass and go by handle. A removal
takes effect at once, and the next addition may get the handle while updates of its
former owner are still waiting. The new registration is then changed, or added, before its
own addition is reached; the poller throws, and the pass never gets beyond that.

Next to the looper stands what the events of every registration should be: those of its own
addition, changed by what was requested with its handle since.
-/

import Obsr.Events.Poller
import Obsr.Events.Registry

namespace Obsr.Events

open Obsr.Lib

/-! ## Calls of the poller -/

namespace PollerCall

def serial : PollerCall → ℕ
  | add serial _ | set serial _ | remove serial => serial

/-- The interest last given to the poller for a registration. -/
def given (calls : List PollerCall) (serial : ℕ) : Option EventTypes :=
  calls.foldl (fun current call =>
    match call with
    | add other events | set other events => if other = serial then some events else current
    | remove _ => current) none

/-- Every registration is added before it is set. -/
def Ordered (calls : List PollerCall) : Prop :=
  ∀ before serial events after, calls = before ++ .set serial events :: after →
    ∃ added, .add serial added ∈ before

variable {calls : List PollerCall} {serial : ℕ} {events : EventTypes}

theorem ordered_nil : Ordered [] := by
  intro before serial events after h
  exact absurd h.symm (List.append_ne_nil_of_right_ne_nil before (List.cons_ne_nil _ _))

theorem Ordered.of_append {later : List PollerCall} (h : Ordered (calls ++ later)) :
    Ordered calls := by
  rintro before serial events after rfl
  exact h before serial events (after ++ later) (by simp)

theorem Ordered.append {call : PollerCall} (h : Ordered calls)
    (hcall : ∀ serial events, call = .set serial events → ∃ added, .add serial added ∈ calls) :
    Ordered (calls ++ [call]) := by
  intro before serial events after hcalls
  rcases concat_eq_append_cons hcalls with ⟨rfl, hlast⟩ | ⟨rest, -, hold⟩
  · exact hcall serial events hlast.symm
  · exact h before serial events rest hold

theorem not_ordered_set (h : ∀ call ∈ calls, call.serial ≠ serial) (events : EventTypes) :
    ¬ Ordered (calls ++ [.set serial events]) := by
  intro hordered
  obtain ⟨added, hadded⟩ := hordered calls serial events [] rfl
  exact h _ hadded rfl

@[simp]
theorem given_append_add (calls : List PollerCall) (serial : ℕ) (events : EventTypes) :
    given (calls ++ [.add serial events]) serial = some events := by
  rw [given, List.foldl_append]
  exact if_pos rfl

@[simp]
theorem given_append_set (calls : List PollerCall) (serial : ℕ) (events : EventTypes) :
    given (calls ++ [.set serial events]) serial = some events := by
  rw [given, List.foldl_append]
  exact if_pos rfl

theorem given_append_of_ne {call : PollerCall} (h : call.serial ≠ serial)
    (calls : List PollerCall) : given (calls ++ [call]) serial = given calls serial := by
  rw [given, List.foldl_append]
  cases call with
  | add other events => exact if_neg h
  | set other events => exact if_neg h
  | remove other => rfl

end PollerCall

namespace Looper

/-! ## What is wanted -/

/-- A looper, and what the events of each registration should be, by its number. -/
structure Tracked (π : Type) where
  looper : Looper π
  wanted : ℕ → EventTypes := fun _ => 0

namespace Tracked

variable {π : Type}

def call (P : Poller π) (s : Tracked π) (c : Call) : Tracked π where
  looper := s.looper.call P c
  wanted :=
    match c with
    | .add _ events => Function.update s.wanted s.looper.nextSerial events
    | .requestUpdates handle events type =>
        match s.looper.handles.get? handle with
        | none => s.wanted
        | some data =>
            Function.update s.wanted data.serial
              (type.updateType.apply (s.wanted data.serial) events)
    | .remove _ => s.wanted

/-- Some calls, and then a pass. -/
def round (P : Poller π) (s : Tracked π) (calls : List Call) : Tracked π :=
  let t := calls.foldl (call P) s
  { t with looper := (t.looper.processUpdates P).1 }

/-- The pass went through; every registration has the events it should have, and the poller
was given them last; and nothing was set before it was added. -/
structure Settled (s : Tracked π) : Prop where
  done : s.looper.updates = []
  events : ∀ handle data, s.looper.handles.get? handle = some data →
    data.events = s.wanted data.serial
  given : ∀ handle data, s.looper.handles.get? handle = some data →
    PollerCall.given s.looper.calls data.serial = some (s.wanted data.serial)
  ordered : PollerCall.Ordered s.looper.calls

end Tracked

/-- The addition of a registration that is there when the pass comes to it is that of an
open resource, and no update for its handle is waiting before it. -/
def AddsFirst {π : Type} (s : Looper π) (updates : List Update) : Prop :=
  ∀ before update after, updates = before ++ update :: after → update.type = .add →
    ∀ data, s.handles.get? update.handle = some data →
      0 ≤ s.descriptors data.resource ∧ ∀ earlier ∈ before, earlier.handle ≠ update.handle

/-- The updates that wait for a handle. -/
def updatesOf (updates : List Update) (handle : Handle) : List Update :=
  updates.filter (·.handle = handle)

/-- What the updates of a handle make of some events. -/
def applyAll (updates : List Update) (events : EventTypes) : EventTypes :=
  updates.foldl (fun events update => update.type.apply events update.events) events

variable {s : Looper Interests} {updates : List Update} {wanted : ℕ → EventTypes}

/-- The poller watches the registration; the updates that wait are its own. -/
structure Watched (s : Looper Interests) (updates : List Update) (wanted : ℕ → EventTypes)
    (handle : Handle) (data : Registration) : Prop where
  watched : s.poller data.addedUnder = some data.events
  given : PollerCall.given s.calls data.serial = some data.events
  added : ∃ events, .add data.serial events ∈ s.calls
  own : ∀ update ∈ updatesOf updates handle, update.type ≠ .add
  wanted : wanted data.serial = applyAll (updatesOf updates handle) data.events

/-- The poller was not told of the registration; its own updates wait, behind others
perhaps. -/
structure Awaited (s : Looper Interests) (updates : List Update) (wanted : ℕ → EventTypes)
    (handle : Handle) (data : Registration) : Prop where
  unwatched : s.poller data.addedUnder = none
  uncalled : ∀ call ∈ s.calls, call.serial ≠ data.serial
  own : ∃ stale events later,
    updatesOf updates handle = stale ++ ⟨handle, .add, events⟩ :: later ∧
      (∀ update ∈ later, update.type ≠ .add) ∧ wanted data.serial = applyAll later events

/-- No two registrations have one number. -/
def Distinct (s : Looper Interests) : Prop :=
  ∀ handle data handle' data', s.handles.get? handle = some data →
    s.handles.get? handle' = some data' → data.serial = data'.serial → handle = handle'

theorem Distinct.of_keeps {s' : Looper Interests} (h : s.Distinct) (hkeeps : s.Keeps s') :
    s'.Distinct := by
  intro handle first handle' second hfirst hsecond heq
  obtain ⟨_, hold⟩ := hkeeps.of_get? hfirst
  obtain ⟨_, hold'⟩ := hkeeps.of_get? hsecond
  exact h handle _ handle' _ hold hold' heq

/-- What holds between any two calls, with the updates that wait. -/
structure Queued (s : Looper Interests) (updates : List Update) (wanted : ℕ → EventTypes) :
    Prop where
  steady : s.Steady
  serial_inj : s.Distinct
  live : ∀ handle data, s.handles.get? handle = some data →
    Watched s updates wanted handle data ∨ Awaited s updates wanted handle data
  table : ∀ descriptor, (s.poller descriptor).isSome = true →
    ∃ handle data, s.handles.get? handle = some data ∧ data.addedUnder = descriptor
  calls_lt : ∀ call ∈ s.calls, call.serial < s.nextSerial
  ordered : PollerCall.Ordered s.calls

theorem queued_new (descriptors : Resource → Descriptor) :
    Queued { descriptors, poller := fun _ => none } [] (fun _ => 0) where
  steady := steady_new descriptors _
  serial_inj _ _ _ _ h := by simp at h
  live _ _ h := by simp at h
  table _ h := by cases h
  calls_lt _ h := absurd h List.not_mem_nil
  ordered := PollerCall.ordered_nil

/-- No two registrations were added under one descriptor. -/
theorem Numbered.handle_eq {π : Type} {s : Looper π} (h : s.Numbered) {handle handle' : Handle}
    {data data' : Registration} (hdata : s.handles.get? handle = some data)
    (hdata' : s.handles.get? handle' = some data')
    (hadded : data.addedUnder = data'.addedUnder) : handle = handle' := by
  have hfirst := h.fdMap_of_get? hdata
  rw [hadded, h.fdMap_of_get? hdata'] at hfirst
  exact (congrArg Pointer.handle (Option.some.inj hfirst)).symm

/-- What is done to another registration does not matter. -/
theorem known_of_same {s' : Looper Interests} {updates' : List Update}
    {wanted' : ℕ → EventTypes} {handle : Handle} {data : Registration}
    (h : Watched s updates wanted handle data ∨ Awaited s updates wanted handle data)
    (hpoller : s'.poller data.addedUnder = s.poller data.addedUnder)
    (hcalls : s'.calls = s.calls ∨ ∃ call, s'.calls = s.calls ++ [call] ∧
      call.serial ≠ data.serial)
    (hupdates : updatesOf updates' handle = updatesOf updates handle)
    (hwanted : wanted' data.serial = wanted data.serial) :
    Watched s' updates' wanted' handle data ∨ Awaited s' updates' wanted' handle data := by
  rcases h with h | h
  · left
    refine ⟨hpoller.trans h.watched, ?_, ?_, hupdates ▸ h.own, by rw [hwanted, hupdates, h.wanted]⟩
    · rcases hcalls with hcalls | ⟨call, hcalls, hserial⟩
      · rw [hcalls, h.given]
      · rw [hcalls, PollerCall.given_append_of_ne hserial, h.given]
    · obtain ⟨events, hadded⟩ := h.added
      rcases hcalls with hcalls | ⟨call, hcalls, -⟩
      · exact ⟨events, hcalls ▸ hadded⟩
      · exact ⟨events, hcalls ▸ List.mem_append_left _ hadded⟩
  · right
    refine ⟨hpoller.trans h.unwatched, ?_, by rw [hupdates, hwanted]; exact h.own⟩
    rcases hcalls with hcalls | ⟨call, hcalls, hserial⟩
    · rw [hcalls]
      exact h.uncalled
    · intro other hother
      rw [hcalls] at hother
      rcases List.mem_append.mp hother with hold | hnew
      · exact h.uncalled other hold
      · rw [List.mem_singleton.mp hnew]
        exact hserial

theorem updatesOf_append_of_ne {update : Update} {handle : Handle} (h : update.handle ≠ handle)
    (updates : List Update) :
    updatesOf (updates ++ [update]) handle = updatesOf updates handle := by
  rw [updatesOf, List.filter_append, List.filter_cons_of_neg (by simpa using h), List.filter_nil,
    List.append_nil]
  rfl

theorem updatesOf_append_self (updates : List Update) (update : Update) :
    updatesOf (updates ++ [update]) update.handle =
      updatesOf updates update.handle ++ [update] := by
  rw [updatesOf, List.filter_append, List.filter_cons_of_pos (by simp)]
  rfl

/-! ## Calls -/

theorem Queued.add (h : Queued s s.updates wanted) (resource : Resource) (events : EventTypes) :
    Queued (s.add resource events).1 (s.add resource events).1.updates
      (Function.update wanted s.nextSerial events) := by
  have hwanted : ∀ handle data, s.handles.get? handle = some data →
      Function.update wanted s.nextSerial events data.serial = wanted data.serial :=
    fun handle data hdata => Function.update_of_ne (h.steady.serial_lt handle data hdata).ne ..
  have hsteady := h.steady.call (P := resourcePoller) (.add resource events)
  replace hsteady : (s.add resource events).1.Steady := hsteady
  rcases s.add_cases resource events with ⟨thrown, hsame⟩ | ⟨new, s', hadd, hadds⟩
  · rw [hsame]
    refine { h with live := fun handle data hdata => ?_ }
    exact known_of_same (h.live handle data hdata) rfl (.inl rfl) rfl (hwanted handle data hdata)
  · rw [hadd] at hsteady ⊢
    obtain ⟨handles, hframe⟩ := hadds.frame
    have hpoller : s'.poller = s.poller := by rw [hframe]
    have hcalls : s'.calls = s.calls := by rw [hframe]
    have hupdates : s'.updates = s.updates ++ [⟨new, .add, events⟩] := by rw [hframe]
    have hnext : s'.nextSerial = s.nextSerial + 1 := by rw [hframe]
    refine ⟨hsteady, ?_, ?_, ?_, ?_, hcalls ▸ h.ordered⟩
    · intro handle data handle' data' hdata hdata' hserial
      rw [hadds.handles] at hdata hdata'
      split_ifs at hdata hdata' with hnew hnew'
      · rw [hnew, hnew']
      · rw [← Option.some.inj hdata] at hserial
        exact absurd hserial.symm (h.steady.serial_lt _ _ hdata').ne
      · rw [← Option.some.inj hdata'] at hserial
        exact absurd hserial (h.steady.serial_lt _ _ hdata).ne
      · exact h.serial_inj handle data handle' data' hdata hdata' hserial
    · intro handle data hdata
      rw [hadds.handles] at hdata
      split_ifs at hdata with hnew
      · right
        rw [← Option.some.inj hdata, hnew, hupdates]
        refine ⟨?_, ?_, _, events, [], updatesOf_append_self .., ?_, ?_⟩
        · rw [hpoller]
          -- what the poller watches is registered, and so in the index
          by_contra hwatched
          obtain ⟨other, data', hdata', hadded⟩ :=
            h.table (s.descriptors resource) (Option.isSome_iff_ne_none.mpr hwatched)
          have hmapped := h.steady.fdMap_of_get? hdata'
          rw [hadded, hadds.free] at hmapped
          cases hmapped
        · rw [hcalls]
          exact fun call hcall => (h.calls_lt call hcall).ne
        · exact fun _ hmem => absurd hmem List.not_mem_nil
        · exact Function.update_self ..
      · refine known_of_same (h.live handle data hdata) (by rw [hpoller]) (.inl hcalls) ?_
          (hwanted handle data hdata)
        rw [hupdates]
        exact updatesOf_append_of_ne (Ne.symm hnew) _
    · intro descriptor hwatched
      rw [hpoller] at hwatched
      obtain ⟨handle, data, hdata, hadded⟩ := h.table descriptor hwatched
      refine ⟨handle, data, ?_, hadded⟩
      rw [hadds.handles, if_neg, hdata]
      rintro rfl
      rw [hadds.fresh] at hdata
      cases hdata
    · intro call hcall
      rw [hnext]
      rw [hcalls] at hcall
      exact (h.calls_lt call hcall).trans (Nat.lt_succ_self _)

theorem Queued.remove (h : Queued s s.updates wanted) (handle : Handle) :
    Queued (s.remove resourcePoller handle).1 (s.remove resourcePoller handle).1.updates
      wanted := by
  have hsteady := h.steady.call (P := resourcePoller) (.remove handle)
  replace hsteady : (s.remove resourcePoller handle).1.Steady := hsteady
  rw [Looper.remove] at hsteady ⊢
  cases hremoved : s.handles.get? handle with
  | none => exact h
  | some removed =>
      rw [hremoved] at hsteady
      dsimp only at hsteady ⊢
      have hstable := h.steady.stable handle removed hremoved
      have hkept : ∀ other data, (s.handles.release handle).get? other = some data →
          other ≠ handle ∧ s.handles.get? other = some data := by
        intro other data hdata
        rw [HandleTable.get?_release] at hdata
        split_ifs at hdata with hother
        exact ⟨hother, hdata⟩
      have hpoller : ∀ descriptor, (resourcePoller.remove (s.descriptors removed.resource)
          s.poller).1 descriptor =
          if descriptor = removed.addedUnder then none else s.poller descriptor := by
        intro descriptor
        rw [resourcePoller_remove, hstable, Function.update_apply]
      refine ⟨hsteady, ?_, ?_, ?_, ?_, ?_⟩
      · intro other data other' data' hdata hdata' hserial
        exact h.serial_inj other data other' data' (hkept other data hdata).2
          (hkept other' data' hdata').2 hserial
      · intro other data hdata
        obtain ⟨hne, hold⟩ := hkept other data hdata
        refine known_of_same (h.live other data hold) ?_ (.inr ⟨_, rfl, ?_⟩) rfl rfl
        · exact (hpoller data.addedUnder).trans (if_neg fun hadded =>
            hne (h.steady.handle_eq hold hremoved hadded))
        · intro hserial
          exact hne (h.serial_inj other data handle removed hold hremoved hserial.symm)
      · intro descriptor hwatched
        replace hwatched : ((resourcePoller.remove (s.descriptors removed.resource)
          s.poller).1 descriptor).isSome = true := hwatched
        rw [hpoller] at hwatched
        split_ifs at hwatched with hdescriptor
        · cases hwatched
        · obtain ⟨other, data, hdata, hadded⟩ := h.table descriptor hwatched
          refine ⟨other, data, ?_, hadded⟩
          rw [HandleTable.get?_release, if_neg, hdata]
          rintro rfl
          rw [hremoved] at hdata
          obtain rfl := Option.some.inj hdata
          exact hdescriptor hadded.symm
      · intro call hcall
        rcases List.mem_append.mp hcall with hold | hnew
        · exact h.calls_lt call hold
        · rw [List.mem_singleton.mp hnew]
          exact h.steady.serial_lt handle removed hremoved
      · exact h.ordered.append fun _ _ hset => by cases hset

theorem applyAll_append (updates : List Update) (update : Update) (events : EventTypes) :
    applyAll (updates ++ [update]) events =
      update.type.apply (applyAll updates events) update.events := List.foldl_append ..

theorem updateType_ne_add (type : EventsUpdateType) : type.updateType ≠ .add := by
  cases type <;> exact UpdateType.noConfusion

theorem Queued.requestUpdates (h : Queued s s.updates wanted) {handle : Handle}
    {data : Registration} (hdata : s.handles.get? handle = some data) (events : EventTypes)
    (type : EventsUpdateType) :
    Queued { s with updates := s.updates ++ [⟨handle, type.updateType, events⟩] }
      (s.updates ++ [⟨handle, type.updateType, events⟩])
      (Function.update wanted data.serial
        (type.updateType.apply (wanted data.serial) events)) := by
  refine { h with
    steady := ⟨⟨h.steady.handle, h.steady.serial_lt, h.steady.maps⟩, h.steady.stable⟩
    live := fun other data' hdata' => ?_ }
  by_cases hother : other = handle
  · subst hother
    rw [hdata] at hdata'
    obtain rfl := Option.some.inj hdata'
    rcases h.live other data hdata with hwatched | hawaited
    · left
      refine ⟨hwatched.watched, hwatched.given, hwatched.added, ?_, ?_⟩
      · rw [updatesOf_append_self s.updates ⟨other, type.updateType, events⟩]
        intro update hupdate
        rcases List.mem_append.mp hupdate with hold | hnew
        · exact hwatched.own update hold
        · rw [List.mem_singleton.mp hnew]
          exact updateType_ne_add type
      · rw [updatesOf_append_self s.updates ⟨other, type.updateType, events⟩, applyAll_append,
          Function.update_self, hwatched.wanted]
    · right
      obtain ⟨stale, first, later, hown, hlater, hwanted⟩ := hawaited.own
      refine ⟨hawaited.unwatched, hawaited.uncalled, stale, first,
        later ++ [⟨other, type.updateType, events⟩], ?_, ?_, ?_⟩
      · rw [updatesOf_append_self s.updates ⟨other, type.updateType, events⟩, hown]
        simp
      · intro update hupdate
        rcases List.mem_append.mp hupdate with hold | hnew
        · exact hlater update hold
        · rw [List.mem_singleton.mp hnew]
          exact updateType_ne_add type
      · rw [applyAll_append, Function.update_self, hwanted]
  · refine known_of_same (h.live other data' hdata') rfl (.inl rfl)
      (updatesOf_append_of_ne (Ne.symm hother) _) ?_
    exact Function.update_of_ne (fun hserial =>
      hother (h.serial_inj other data' handle data hdata' hdata hserial)) ..

theorem Queued.call {s : Tracked Interests} (h : Queued s.looper s.looper.updates s.wanted) (c : Call) :
    Queued (s.call resourcePoller c).looper (s.call resourcePoller c).looper.updates
      (s.call resourcePoller c).wanted := by
  cases c with
  | add resource events => exact h.add resource events
  | remove handle => exact h.remove handle
  | requestUpdates handle events type =>
      cases hdata : s.looper.handles.get? handle with
      | none =>
          have hsame : s.call resourcePoller (.requestUpdates handle events type) = s := by
            simp [Tracked.call, Looper.call, Looper.requestUpdates, HandleTable.has, hdata]
          rw [hsame]
          exact h
      | some data =>
          have hcall : s.call resourcePoller (.requestUpdates handle events type) =
              { looper := { s.looper with
                  updates := s.looper.updates ++ [⟨handle, type.updateType, events⟩] }
                wanted := Function.update s.wanted data.serial
                  (type.updateType.apply (s.wanted data.serial) events) } := by
            simp [Tracked.call, Looper.call, Looper.requestUpdates, HandleTable.has, hdata]
          rw [hcall]
          exact h.requestUpdates hdata events type

/-! ## A pass in which everything is added first -/

theorem updatesOf_cons_of_ne {update : Update} {handle : Handle} (h : update.handle ≠ handle)
    (updates : List Update) : updatesOf (update :: updates) handle = updatesOf updates handle :=
  List.filter_cons_of_neg (by simpa using h)

theorem updatesOf_cons_self (update : Update) (updates : List Update) :
    updatesOf (update :: updates) update.handle = update :: updatesOf updates update.handle :=
  List.filter_cons_of_pos (by simp)

theorem AddsFirst.tail {update : Update} {s' : Looper Interests}
    (h : AddsFirst s (update :: updates)) (hkeeps : s.Keeps s') : AddsFirst s' updates := by
  intro before later after hupdates hadd data hdata
  obtain ⟨events, hold⟩ := hkeeps.of_get? hdata
  obtain ⟨hopen, hfirst⟩ := h (update :: before) later after (by rw [hupdates]; rfl) hadd _ hold
  rw [hkeeps.descriptors]
  exact ⟨hopen, fun earlier hearlier => hfirst earlier (List.mem_cons_of_mem _ hearlier)⟩

/-- An update of a registration goes through, and its next own updates wait. -/
theorem Queued.advance {update : Update} (h : Queued s (update :: updates) wanted)
    {data : Registration} (hdata : s.handles.get? update.handle = some data)
    {call : PollerCall} {events : EventTypes}
    (hcall : call = .add data.serial events ∨
      (call = .set data.serial events ∧ ∃ added, .add data.serial added ∈ s.calls))
    (hown : ∀ later ∈ updatesOf updates update.handle, later.type ≠ .add)
    (hwanted : wanted data.serial = applyAll (updatesOf updates update.handle) events)
    (added : List ℕ) :
    Queued { s with
        poller := Function.update s.poller data.addedUnder (some events)
        handles := s.handles.modify update.handle fun data => { data with events }
        calls := s.calls ++ [call]
        added } updates wanted := by
  have hkeeps := s.keeps_modify update.handle events
    (Function.update s.poller data.addedUnder (some events)) (s.calls ++ [call]) added
  have hserial : call.serial = data.serial := by
    rcases hcall with rfl | ⟨rfl, -⟩
    · rfl
    · rfl
  refine ⟨h.steady.of_keeps hkeeps, h.serial_inj.of_keeps hkeeps, ?_, ?_, ?_, ?_⟩
  · intro handle other hother
    replace hother : (s.handles.modify update.handle fun data => { data with events }).get?
      handle = some other := hother
    rw [HandleTable.get?_modify] at hother
    split_ifs at hother with hhandle
    · subst hhandle
      rw [hdata, Option.map_some] at hother
      obtain rfl := Option.some.inj hother
      left
      refine ⟨Function.update_self .., ?_, ?_, hown, hwanted⟩
      · rcases hcall with rfl | ⟨rfl, -⟩
        · exact PollerCall.given_append_add ..
        · exact PollerCall.given_append_set ..
      · rcases hcall with rfl | ⟨rfl, added, hadded⟩
        · exact ⟨events, List.mem_append_right _ (List.mem_singleton.mpr rfl)⟩
        · exact ⟨added, List.mem_append_left _ hadded⟩
    · refine known_of_same (h.live handle other hother) ?_ (.inr ⟨call, rfl, ?_⟩) ?_ rfl
      · exact Function.update_of_ne (fun hadded =>
          hhandle (h.steady.handle_eq hother hdata hadded)) ..
      · rw [hserial]
        exact fun heq => hhandle (h.serial_inj handle other update.handle data hother hdata
          heq.symm)
      · exact (updatesOf_cons_of_ne (Ne.symm hhandle) _).symm
  · intro descriptor hwatched
    by_cases hdescriptor : descriptor = data.addedUnder
    · obtain ⟨_, hnew⟩ := hkeeps.symm.of_get? hdata
      exact ⟨update.handle, _, hnew, hdescriptor.symm⟩
    · replace hwatched : (Function.update s.poller data.addedUnder (some events)
        descriptor).isSome = true := hwatched
      rw [Function.update_of_ne hdescriptor] at hwatched
      obtain ⟨handle, other, hother, hadded⟩ := h.table descriptor hwatched
      obtain ⟨_, hnew⟩ := hkeeps.symm.of_get? hother
      exact ⟨handle, _, hnew, hadded⟩
  · intro other hother
    rcases List.mem_append.mp hother with hold | hnew
    · exact h.calls_lt other hold
    · rw [List.mem_singleton.mp hnew, hserial]
      exact h.steady.serial_lt _ _ hdata
  · refine h.ordered.append fun serial set hset => ?_
    rcases hcall with rfl | ⟨rfl, added, hadded⟩
    · cases hset
    · obtain ⟨rfl, rfl⟩ := PollerCall.set.inj hset
      exact ⟨added, hadded⟩

theorem Queued.processUpdate {update : Update} (h : Queued s (update :: updates) wanted)
    (hfirst : AddsFirst s (update :: updates)) :
    ∃ s', s.processUpdate resourcePoller update = (s', true) ∧ Queued s' updates wanted := by
  cases hdata : s.handles.get? update.handle with
  | none =>
      refine ⟨s, by rw [Looper.processUpdate, hdata], { h with live := ?_ }⟩
      intro handle data hlive
      refine known_of_same (h.live handle data hlive) rfl (.inl rfl) ?_ rfl
      refine (updatesOf_cons_of_ne ?_ _).symm
      rintro rfl
      rw [hdata] at hlive
      cases hlive
  | some data =>
      have hstable := h.steady.stable _ _ hdata
      rcases h.live _ _ hdata with hwatched | hawaited
      · -- one more change of a registration the poller watches
        have hset : update.type ≠ .add := hwatched.own update (by
          rw [updatesOf_cons_self]
          exact List.mem_cons_self)
        have hown := hwatched.own
        have hwanted := hwatched.wanted
        rw [updatesOf_cons_self] at hown hwanted
        refine ⟨_, ?_, h.advance hdata (.inr ⟨rfl, hwatched.added⟩)
          (fun later hlater => hown later (List.mem_cons_of_mem _ hlater)) hwanted s.added⟩
        rw [Looper.processUpdate, hdata]
        dsimp only
        rw [if_neg hset, if_neg hset, if_neg fun hadd => hset hadd.1, hstable,
          resourcePoller_set (by rw [hwatched.watched]; rfl)]
      · -- the addition of a registration, before which nothing may wait
        obtain ⟨stale, events, later, hown, hlater, hwanted⟩ := hawaited.own
        obtain rfl : stale = [] := by
          cases stale with
          | nil => rfl
          | cons first stale =>
              rw [updatesOf_cons_self] at hown
              obtain ⟨-, hrest⟩ := List.cons.inj hown
              have hmem : ⟨update.handle, .add, events⟩ ∈ updatesOf updates update.handle := by
                rw [hrest]
                simp
              obtain ⟨before, after, hupdates⟩ := List.append_of_mem (List.mem_filter.mp hmem).1
              have hnone := (hfirst (update :: before) ⟨update.handle, .add, events⟩ after
                (by rw [hupdates]; rfl) rfl data hdata).2
              exact absurd rfl (hnone update List.mem_cons_self)
        rw [updatesOf_cons_self, List.nil_append] at hown
        obtain ⟨hupdate, hrest⟩ := List.cons.inj hown
        have hadd : update.type = .add := by rw [hupdate]
        have hevents : update.events = events := by rw [hupdate]
        have hopen := (hfirst [] update updates rfl hadd data hdata).1
        refine ⟨_, ?_, h.advance hdata (.inl rfl) (by rw [hrest]; exact hlater)
          (by rw [hrest]; exact hwanted) (s.added ++ [data.serial])⟩
        rw [hstable] at hopen
        rw [Looper.processUpdate, hdata]
        dsimp only
        rw [if_pos hadd, if_pos hadd, hstable, hadd, UpdateType.apply, hevents,
          resourcePoller_add hopen hawaited.unwatched]
        rfl

theorem Queued.processUpdatesFrom (h : Queued s updates wanted)
    (hfirst : AddsFirst s updates) :
    ∃ s', processUpdatesFrom resourcePoller updates s = (s', true) ∧ s'.updates = [] ∧
      Queued s' [] wanted := by
  induction updates generalizing s with
  | nil =>
      refine ⟨{ s with updates := [] }, rfl, rfl, { h with
        steady := ⟨⟨h.steady.handle, h.steady.serial_lt, h.steady.maps⟩, h.steady.stable⟩
        live := fun handle data hdata =>
          known_of_same (h.live handle data hdata) rfl (.inl rfl) rfl rfl }⟩
  | cons update updates ih =>
      obtain ⟨s', hupdate, hs'⟩ := h.processUpdate hfirst
      have hkeeps := s.keeps_processUpdate resourcePoller update
      rw [hupdate] at hkeeps
      rw [Looper.processUpdatesFrom, hupdate]
      exact ih hs' (hfirst.tail hkeeps)

/-! ## A pass in which something is not added first -/

section Watches

variable {descriptor other : Descriptor} {events : EventTypes} {interests : Interests}

theorem isSome_update (h : (interests other).isSome = true) :
    (Function.update interests descriptor (some events) other).isSome = true := by
  by_cases hother : other = descriptor
  · rw [hother, Function.update_self]
    rfl
  · rw [Function.update_of_ne hother]
    exact h

theorem watched_add (h : (interests other).isSome = true) :
    ((resourcePoller.add descriptor events interests).1 other).isSome = true := by
  show ((if _ then _ else _ : Interests × Bool).1 other).isSome = true
  split_ifs
  · exact isSome_update h
  · exact h

theorem watched_set (h : (interests other).isSome = true) :
    ((resourcePoller.set descriptor events interests).1 other).isSome = true := by
  show ((if _ then _ else _ : Interests × Bool).1 other).isSome = true
  split_ifs
  · exact isSome_update h
  · exact h

theorem of_added (h : (resourcePoller.add descriptor events interests).2 = true) :
    0 ≤ descriptor ∧ interests descriptor = none := by
  by_contra hnot
  have hfails : (resourcePoller.add descriptor events interests).2 = false := by
    show (if _ then _ else _ : Interests × Bool).2 = false
    rw [if_neg hnot]
  rw [hfails] at h
  cases h

theorem watched_of_added
    (h : (resourcePoller.add descriptor events interests).2 = true) :
    ((resourcePoller.add descriptor events interests).1 descriptor).isSome = true := by
  revert h
  show (if _ then _ else _ : Interests × Bool).2 = true →
    ((if _ then _ else _ : Interests × Bool).1 _).isSome = true
  split_ifs
  · intro _
    show (Function.update interests descriptor (some events) descriptor).isSome = true
    rw [Function.update_self]
    rfl
  · intro hfalse
    cases hfalse

end Watches

/-- The pass ends with an exception, or something was set that was not added: it was done
already, an addition waits that the poller refuses, or a registration the poller knows
nothing of has an update before its addition. -/
inductive Doomed (s : Looper Interests) (updates : List Update) : Prop
  | unordered (h : ¬ PollerCall.Ordered s.calls)
  | refused {data : Registration} {update : Update}
      (hdata : s.handles.get? update.handle = some data) (hupdate : update ∈ updates)
      (hadd : update.type = .add)
      (hrefused : s.descriptors data.resource < 0 ∨
        (s.poller (s.descriptors data.resource)).isSome = true)
  | preceded {data : Registration} {earlier update : Update}
      (hdata : s.handles.get? update.handle = some data)
      (hcalls : ∀ call ∈ s.calls, call.serial ≠ data.serial)
      (hupdates : List.Sublist [earlier, update] updates)
      (hearlier : earlier.handle = update.handle)
      (hadd : update.type = .add)

/-- What an update of a registration does when the poller takes it. -/
structure Applied (s : Looper Interests) (update : Update) (owner : Registration)
    (s' : Looper Interests) : Prop where
  keeps : s.Keeps s'
  calls : s'.calls = s.calls ++
    [if update.type = .add then .add owner.serial (update.type.apply owner.events update.events)
      else .set owner.serial (update.type.apply owner.events update.events)]
  watched : ∀ descriptor, (s.poller descriptor).isSome = true →
    (s'.poller descriptor).isSome = true
  added : update.type = .add → 0 ≤ s.descriptors owner.resource ∧
    s.poller (s.descriptors owner.resource) = none ∧
      (s'.poller (s.descriptors owner.resource)).isSome = true

variable {first : Update} {owner : Registration} {s' : Looper Interests}

theorem applied_processUpdate (hfirst : s.handles.get? first.handle = some owner)
    (hprocess : s.processUpdate resourcePoller first = (s', true)) :
    Applied s first owner s' := by
  have hkeeps := s.keeps_processUpdate resourcePoller first
  rw [hprocess] at hkeeps
  rw [Looper.processUpdate, hfirst] at hprocess
  dsimp only at hprocess
  obtain ⟨rfl, hreturned⟩ := Prod.mk.inj hprocess
  refine ⟨hkeeps, rfl, fun descriptor hsome => ?_, fun hadd => ?_⟩
  · show ((if first.type = .add then _ else _ : Interests × Bool).1 _).isSome = true
    split_ifs
    · exact watched_add hsome
    · exact watched_set hsome
  · rw [if_pos hadd] at hreturned
    obtain ⟨hopen, hnone⟩ := of_added hreturned
    refine ⟨hopen, hnone, ?_⟩
    show ((if first.type = .add then _ else _ : Interests × Bool).1 _).isSome = true
    rw [if_pos hadd]
    exact watched_of_added hreturned

theorem Applied.call_serial (h : Applied s first owner s') {call : PollerCall}
    (hcall : call ∈ s'.calls) : call ∈ s.calls ∨ call.serial = owner.serial := by
  rw [h.calls] at hcall
  refine (List.mem_append.mp hcall).imp_right fun hlast => ?_
  rw [List.mem_singleton.mp hlast]
  split_ifs <;> rfl

/-- An update of nobody changes nothing. -/
theorem Doomed.skip (h : Doomed s (first :: updates))
    (hfirst : s.handles.get? first.handle = none) : Doomed s updates := by
  cases h with
  | unordered hunordered => exact .unordered hunordered
  | @refused data update hdata hupdate hadd hrefused =>
      rcases List.mem_cons.mp hupdate with rfl | hlater
      · rw [hfirst] at hdata
        cases hdata
      · exact .refused hdata hlater hadd hrefused
  | @preceded data earlier update hdata hcalls hupdates hearlier hadd =>
      rcases List.sublist_cons_iff.mp hupdates with hlater | ⟨rest, heq, -⟩
      · exact .preceded hdata hcalls hlater hearlier hadd
      · rw [(List.cons.inj heq).1] at hearlier
        rw [← hearlier, hfirst] at hdata
        cases hdata

/-- An addition that the poller refuses is not the one that it took. -/
theorem Applied.refused (h : Applied s first owner s')
    (hfirst : s.handles.get? first.handle = some owner) {data : Registration} {update : Update}
    (hdata : s.handles.get? update.handle = some data) (hupdate : update ∈ first :: updates)
    (hadd : update.type = .add)
    (hrefused : s.descriptors data.resource < 0 ∨
      (s.poller (s.descriptors data.resource)).isSome = true) : Doomed s' updates := by
  rcases List.mem_cons.mp hupdate with rfl | hlater
  · rw [hfirst] at hdata
    obtain rfl := Option.some.inj hdata
    obtain ⟨hopen, hnone, -⟩ := h.added hadd
    rcases hrefused with hclosed | hsome
    · exact absurd hopen (not_le.mpr hclosed)
    · rw [hnone] at hsome
      cases hsome
  · obtain ⟨_, hnew⟩ := h.keeps.symm.of_get? hdata
    refine .refused hnew hlater hadd ?_
    rw [h.keeps.descriptors]
    exact hrefused.imp_right (h.watched _)

/-- The update that precedes an addition is set too early, or it is an addition itself,
after which the poller refuses another. -/
theorem Applied.preceded (h : Applied s first owner s')
    (hfirst : s.handles.get? first.handle = some owner) {update : Update}
    (hown : first.handle = update.handle) (hcalls : ∀ call ∈ s.calls, call.serial ≠ owner.serial)
    (hupdate : update ∈ updates) (hadd : update.type = .add) : Doomed s' updates := by
  by_cases hfirstAdd : first.type = .add
  · -- it is added with the interest of the former owner, and cannot be again
    obtain ⟨_, hnew⟩ := h.keeps.symm.of_get? (hown ▸ hfirst)
    refine .refused hnew hupdate hadd (.inr ?_)
    rw [h.keeps.descriptors]
    exact (h.added hfirstAdd).2.2
  · refine .unordered ?_
    rw [h.calls, if_neg hfirstAdd]
    exact PollerCall.not_ordered_set hcalls _

theorem Doomed.processUpdate (h : Doomed s (first :: updates)) (hdistinct : s.Distinct)
    (hprocess : s.processUpdate resourcePoller first = (s', true)) : Doomed s' updates := by
  cases hfirst : s.handles.get? first.handle with
  | none =>
      have hsame : s' = s := by
        rw [Looper.processUpdate, hfirst] at hprocess
        exact (Prod.mk.inj hprocess).1.symm
      subst hsame
      exact h.skip hfirst
  | some owner =>
      have happlied := applied_processUpdate hfirst hprocess
      cases h with
      | unordered hunordered =>
          refine .unordered fun hordered => hunordered ?_
          rw [happlied.calls] at hordered
          exact hordered.of_append
      | refused hdata hupdate hadd hrefused =>
          exact happlied.refused hfirst hdata hupdate hadd hrefused
      | @preceded data earlier update hdata hcalls hupdates hearlier hadd =>
          by_cases hown : first.handle = update.handle
          · rw [← hown, hfirst] at hdata
            obtain rfl := Option.some.inj hdata
            have hmem : update ∈ updates := by
              rcases List.sublist_cons_iff.mp hupdates with hlater | ⟨rest, heq, hlater⟩
              · exact hlater.subset (by simp)
              · rw [← (List.cons.inj heq).2] at hlater
                exact hlater.subset (by simp)
            exact happlied.preceded hfirst hown hcalls hmem hadd
          · obtain ⟨_, hnew⟩ := happlied.keeps.symm.of_get? hdata
            refine .preceded hnew ?_ ?_ hearlier hadd
            · intro call hcall
              rcases happlied.call_serial hcall with hold | hserial
              · exact hcalls call hold
              · rw [hserial]
                exact fun heq => hown (hdistinct _ owner _ data hfirst hdata heq)
            · rcases List.sublist_cons_iff.mp hupdates with hlater | ⟨rest, heq, -⟩
              · exact hlater
              · rw [(List.cons.inj heq).1] at hearlier
                exact absurd hearlier hown

theorem Doomed.processUpdatesFrom (h : Doomed s updates) (hdistinct : s.Distinct)
    (hprocess : processUpdatesFrom resourcePoller updates s = (s', true)) :
    ¬ PollerCall.Ordered s'.calls := by
  induction updates generalizing s with
  | nil =>
      obtain rfl := (Prod.mk.inj hprocess).1
      cases h with
      | unordered hunordered => exact hunordered
      | refused _ hupdate => exact absurd hupdate List.not_mem_nil
      | preceded _ _ hupdates => cases hupdates
  | cons update updates ih =>
      have hkeeps := s.keeps_processUpdate resourcePoller update
      rw [Looper.processUpdatesFrom] at hprocess
      rcases hupdate : s.processUpdate resourcePoller update with ⟨t, returned⟩
      rw [hupdate] at hprocess hkeeps
      cases returned with
      | false => cases (Prod.mk.inj hprocess).2
      | true => exact ih (h.processUpdate hdistinct hupdate) (hdistinct.of_keeps hkeeps) hprocess

/-- An update that throws stays in the queue. -/
theorem updates_of_thrown {s' : Looper Interests}
    (h : processUpdatesFrom resourcePoller updates s = (s', false)) : s'.updates ≠ [] := by
  induction updates generalizing s with
  | nil => cases (Prod.mk.inj h).2
  | cons update updates ih =>
      rw [processUpdatesFrom] at h
      split at h
      · exact ih h
      · rw [← (Prod.mk.inj h).1]
        exact List.cons_ne_nil _ _

theorem Queued.doomed (h : Queued s updates wanted) (hbad : ¬ AddsFirst s updates) :
    Doomed s updates := by
  unfold AddsFirst at hbad
  push Not at hbad
  obtain ⟨before, update, after, hupdates, hadd, data, hdata, hbad⟩ := hbad
  have hmem : update ∈ updates := by
    rw [hupdates]
    simp
  by_cases hopen : 0 ≤ s.descriptors data.resource
  · obtain ⟨earlier, hearlier, hhandle⟩ := hbad hopen
    rcases h.live _ _ hdata with hwatched | hawaited
    · exact absurd hadd (hwatched.own update (List.mem_filter.mpr ⟨hmem, by simp⟩))
    · refine .preceded hdata hawaited.uncalled ?_ hhandle hadd
      rw [hupdates]
      exact (List.singleton_sublist.mpr hearlier).append
        (List.singleton_sublist.mpr List.mem_cons_self)
  · exact .refused hdata hmem hadd (.inl (not_le.mp hopen))

/-! ## Rounds -/

namespace Tracked

/-- The updates that wait when the pass begins add registrations before they change them. -/
def RoundAddsFirst {π : Type} (P : Poller π) (s : Tracked π) (calls : List Call) : Prop :=
  let t := (calls.foldl (call P) s).looper
  t.AddsFirst t.updates

/-- What holds between two rounds. -/
structure Idle (s : Tracked Interests) : Prop where
  done : s.looper.updates = []
  queued : Queued s.looper [] s.wanted

theorem Idle.settled (s : Tracked Interests) (h : s.Idle) : s.Settled := by
  have hlive : ∀ handle data, s.looper.handles.get? handle = some data →
      Watched s.looper [] s.wanted handle data := by
    intro handle data hdata
    refine (h.queued.live handle data hdata).resolve_right fun hawaited => ?_
    obtain ⟨stale, events, later, hown, -⟩ := hawaited.own
    exact List.append_ne_nil_of_right_ne_nil stale (List.cons_ne_nil _ _) hown.symm
  refine ⟨h.done, ?_, ?_, h.queued.ordered⟩
  · intro handle data hdata
    exact (hlive handle data hdata).wanted.symm
  · intro handle data hdata
    rw [(hlive handle data hdata).given]
    exact congrArg some (hlive handle data hdata).wanted.symm

theorem Idle.queued_calls {s : Tracked Interests} (h : s.Idle) (calls : List Call) :
    Queued (calls.foldl (call resourcePoller) s).looper
      (calls.foldl (call resourcePoller) s).looper.updates
      (calls.foldl (call resourcePoller) s).wanted := by
  refine foldl_of_invariant
    (I := fun s : Tracked Interests => Queued s.looper s.looper.updates s.wanted)
    (fun _ c hs => hs.call c) ?_ calls
  rw [h.done]
  exact h.queued

theorem Idle.round (s : Tracked Interests) (calls : List Call) (h : s.Idle)
    (hok : s.RoundAddsFirst resourcePoller calls) : (s.round resourcePoller calls).Idle := by
  obtain ⟨s', hprocess, hdone, hqueued⟩ := (h.queued_calls calls).processUpdatesFrom hok
  have hlooper : (s.round resourcePoller calls).looper = s' := by
    show (processUpdatesFrom resourcePoller _ _).1 = s'
    rw [hprocess]
  exact ⟨hlooper ▸ hdone, hlooper ▸ hqueued⟩

theorem Idle.not_settled (s : Tracked Interests) (calls : List Call) (h : s.Idle)
    (hbad : ¬ s.RoundAddsFirst resourcePoller calls) :
    ¬ (s.round resourcePoller calls).Settled := by
  have hqueued := h.queued_calls calls
  intro hsettled
  rcases hprocess : processUpdatesFrom resourcePoller
    (calls.foldl (call resourcePoller) s).looper.updates
    (calls.foldl (call resourcePoller) s).looper with ⟨s', returned⟩
  have hlooper : (s.round resourcePoller calls).looper = s' := by
    show (processUpdatesFrom resourcePoller _ _).1 = s'
    rw [hprocess]
  cases returned with
  | true =>
      exact (hqueued.doomed hbad).processUpdatesFrom hqueued.serial_inj hprocess
        (hlooper ▸ hsettled.ordered)
  | false => exact updates_of_thrown hprocess (hlooper ▸ hsettled.done)

/-! ## Rounds over any such poller -/

variable {π : Type} {P : Poller π} {watches : π → Interests}

def through (watches : π → Interests) (s : Tracked π) : Tracked Interests where
  looper := s.looper.through watches
  wanted := s.wanted

theorem through_call (h : P.Documented watches) (s : Tracked π) (c : Call) :
    (s.call P c).through watches = (s.through watches).call resourcePoller c := by
  have hlooper := Looper.through_call h s.looper c
  cases c with
  | add resource events => exact congrArg (Tracked.mk · _) hlooper
  | remove handle => exact congrArg (Tracked.mk · _) hlooper
  | requestUpdates handle events type => exact congrArg (Tracked.mk · _) hlooper

theorem through_calls (h : P.Documented watches) (calls : List Call) (s : Tracked π) :
    (calls.foldl (call P) s).through watches =
      calls.foldl (call resourcePoller) (s.through watches) := by
  induction calls generalizing s with
  | nil => rfl
  | cons c calls ih => rw [List.foldl_cons, List.foldl_cons, ih, through_call h]

theorem through_round (h : P.Documented watches) (s : Tracked π) (calls : List Call) :
    (s.round P calls).through watches = (s.through watches).round resourcePoller calls := by
  have hcalls := through_calls h calls s
  have hpass := through_processUpdatesFrom h (calls.foldl (call P) s).looper.updates
    (calls.foldl (call P) s).looper
  unfold round
  rw [← hcalls]
  exact congrArg (Tracked.mk · _) (congrArg Prod.fst hpass)

theorem settled_through {s : Tracked π} : (s.through watches).Settled ↔ s.Settled :=
  ⟨fun h => ⟨h.done, h.events, h.given, h.ordered⟩,
    fun h => ⟨h.done, h.events, h.given, h.ordered⟩⟩

theorem roundAddsFirst_through (h : P.Documented watches) {s : Tracked π} {calls : List Call} :
    (s.through watches).RoundAddsFirst resourcePoller calls ↔ s.RoundAddsFirst P calls := by
  unfold RoundAddsFirst
  rw [← through_calls h]
  exact Iff.rfl

/-- For every poller that does what `epoll_ctl` documents, and that watches nothing in the
beginning: every round leaves the registrations with the events that were requested for them
exactly if in every round the registrations are added before they are changed. -/
theorem settled_iff_addsFirst (P : Poller π) (watches : π → Interests)
    (hdocumented : P.Documented watches) (poller : π) (hnew : watches poller = fun _ => none)
    (descriptors : Resource → Descriptor) (rounds : List (List Call)) :
    HoldsThroughout (round P) Settled { looper := { descriptors, poller } } rounds ↔
      StepsMeet (round P) (RoundAddsFirst P) { looper := { descriptors, poller } } rounds := by
  refine holdsThroughout_iff_stepsMeet (I := fun s => (s.through watches).Idle)
    (fun s calls hs hok => ?_) (fun s hs => settled_through.mp hs.settled)
    (fun s calls hs hbad hsettled => ?_) ⟨rfl, ?_⟩ rounds
  · rw [through_round hdocumented]
    exact Idle.round _ calls hs ((roundAddsFirst_through hdocumented).mpr hok)
  · refine Idle.not_settled _ calls hs (fun hok => hbad ?_) ?_
    · exact (roundAddsFirst_through hdocumented).mp hok
    · rw [← through_round hdocumented]
      exact settled_through.mpr hsettled
  · have hempty := queued_new descriptors
    rw [← hnew] at hempty
    exact hempty

/-- No update waits before an addition with its handle. -/
theorem addsFirst_of_pairwise {s : Looper π} {updates : List Update}
    (hopen : ∀ resource, 0 ≤ s.descriptors resource)
    (h : updates.Pairwise fun earlier later =>
      later.type = .add → earlier.handle ≠ later.handle) : s.AddsFirst updates := by
  rintro before update after rfl hadd data -
  refine ⟨hopen _, fun earlier hearlier => ?_⟩
  obtain ⟨-, -, hpairs⟩ := List.pairwise_append.mp h
  exact hpairs earlier hearlier update List.mem_cons_self hadd

/-- With the table of an epoll instance: the signal of the looper and a socket are added and
the socket asked for more, then it is removed and another one takes its handle. -/
theorem settled_acceptAfterPass :
    HoldsThroughout (round resourcePoller) Settled
      { looper := { descriptors := fun resource => resource, poller := fun _ => none } }
      [[.add 3 1, .add 5 1, .requestUpdates 1 2 .append], [.remove 1, .add 6 1]] := by
  apply (settled_iff_addsFirst resourcePoller id resourcePoller_documented _ rfl _ _).mpr
  refine ⟨addsFirst_of_pairwise (fun resource => Int.natCast_nonneg resource) ?_,
    addsFirst_of_pairwise (fun resource => Int.natCast_nonneg resource) ?_, trivial⟩
  · decide +kernel
  · decide +kernel

/-- The looper has added its signal, and a socket has the handle 1. It is closed with an
update waiting, and another one accepted in its place. -/
theorem not_settled_closeAndAccept :
    ¬ HoldsThroughout (round resourcePoller) Settled
      { looper := { descriptors := fun resource => resource, poller := fun _ => none } }
      [[.add 3 1, .add 5 1], [.requestUpdates 1 2 .append, .remove 1, .add 6 1]] := by
  rintro ⟨-, -, hlast⟩
  have hdone := hlast.done
  revert hdone
  decide +kernel

end Tracked

end Looper

end Obsr.Events
