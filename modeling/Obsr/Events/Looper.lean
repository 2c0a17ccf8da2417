/-
# The looper

`looper` keeps the registrations of resources in a handle table, with an index by the
descriptor of the resource, and puts off what its poller has to be told until the next
pass. Only a removal takes effect at once.

The poller is a parameter: a table with a state of its own, each of whose functions may
throw. The registrations are numbered, and the calls of the poller noted together with
the additions that returned, so that one registration can be told from the next that has
its handle or its descriptor.
-/

import Obsr.Util.HandleTable

namespace Obsr.Events

/-- `os::descriptor`; a closed resource has the descriptor -1. -/
abbrev Descriptor := ℤ

/-- The flags `event_in`, `event_out`, `event_error` and `event_hung`, from the lowest bit
on. -/
abbrev EventTypes := UInt32

/-- Which object of the class `resource` it is. -/
abbrev Resource := ℕ

/-- `poller`; the functions say whether they return or throw. -/
structure Poller (π : Type) where
  add : Descriptor → EventTypes → π → π × Bool
  set : Descriptor → EventTypes → π → π × Bool
  remove : Descriptor → π → π × Bool

/-- What an epoll instance watches, and for which events. -/
abbrev Interests := Descriptor → Option EventTypes

/-- `resource_poller`; `epoll_ctl` refuses to add what it watches already, to change or
remove what it does not watch, and a closed descriptor. -/
def resourcePoller : Poller Interests where
  add descriptor events interests :=
    if 0 ≤ descriptor ∧ interests descriptor = none then
      (Function.update interests descriptor (some events), true)
    else (interests, false)
  set descriptor events interests :=
    if (interests descriptor).isSome then
      (Function.update interests descriptor (some events), true)
    else (interests, false)
  remove descriptor interests :=
    if (interests descriptor).isSome then (Function.update interests descriptor none, true)
    else (interests, false)

/-- `resource_data`, with its number and the descriptor it was added under; its callback is
known by the number. -/
structure Registration where
  serial : ℕ
  handle : Handle
  resource : Resource
  events : EventTypes
  addedUnder : Descriptor
  deriving DecidableEq, Repr

/-- A `resource_data*`. -/
structure Pointer where
  handle : Handle
  serial : ℕ
  deriving DecidableEq, Repr

def Registration.pointer (data : Registration) : Pointer := ⟨data.handle, data.serial⟩

inductive UpdateType
  | add
  | newEvents
  | newEventsAdd
  | newEventsRemove
  deriving DecidableEq, Repr

/-- What an update makes of the events of a registration. -/
def UpdateType.apply (old new : EventTypes) : UpdateType → EventTypes
  | add | newEvents => new
  | newEventsAdd => old ||| new
  | newEventsRemove => old &&& ~~~new

structure Update where
  handle : Handle
  type : UpdateType
  events : EventTypes
  deriving DecidableEq, Repr

inductive EventsUpdateType
  | override
  | append
  | remove
  deriving DecidableEq, Repr

def EventsUpdateType.updateType : EventsUpdateType → UpdateType
  | override => .newEvents
  | append => .newEventsAdd
  | remove => .newEventsRemove

/-- A call of the poller for a registration. -/
inductive PollerCall
  | add (serial : ℕ) (events : EventTypes)
  | set (serial : ℕ) (events : EventTypes)
  | remove (serial : ℕ)
  deriving DecidableEq, Repr

inductive LooperException
  | noSuchHandle (handle : Handle)
  | noSpace
  | illegalArgument
  | poller
  deriving DecidableEq, Repr

/-- A looper in a world in which resources have descriptors. -/
structure Looper (π : Type) where
  descriptors : Resource → Descriptor
  poller : π
  handles : HandleTable Registration 256 := HandleTable.empty
  fdMap : Descriptor → Option Pointer := fun _ => none
  updates : List Update := []
  nextSerial : ℕ := 0
  /-- Ghost: every call of the poller, whether it returned or threw. -/
  calls : List PollerCall := []
  /-- Ghost: the registrations whose addition returned. -/
  added : List ℕ := []

/-- What is called on a looper, by its callbacks or by other code. -/
inductive Call
  | add (resource : Resource) (events : EventTypes)
  | remove (handle : Handle)
  | requestUpdates (handle : Handle) (events : EventTypes) (type : EventsUpdateType)
  deriving DecidableEq, Repr

namespace Looper

variable {π : Type}

/-! ## Calls -/

def add (s : Looper π) (resource : Resource) (events : EventTypes) :
    Looper π × Except LooperException Handle :=
  let descriptor := s.descriptors resource
  match s.fdMap descriptor with
  | some _ => (s, .error .illegalArgument)
  | none =>
      match s.handles.allocateNewWithHandle fun handle =>
        { serial := s.nextSerial, handle, resource, events := 0, addedUnder := descriptor } with
      | .error _ => (s, .error .noSpace)
      | .ok (handle, handles) =>
          ({ s with
              handles
              fdMap := Function.update s.fdMap descriptor (some ⟨handle, s.nextSerial⟩)
              updates := s.updates ++ [⟨handle, .add, events⟩]
              nextSerial := s.nextSerial + 1 }, .ok handle)

def remove (P : Poller π) (s : Looper π) (handle : Handle) :
    Looper π × Except LooperException Unit :=
  match s.handles.get? handle with
  | none => (s, .error (.noSuchHandle handle))
  | some data =>
      let descriptor := s.descriptors data.resource
      let (poller, returned) := P.remove descriptor s.poller
      ({ s with
          poller
          handles := s.handles.release handle
          fdMap := Function.update s.fdMap descriptor none
          calls := s.calls ++ [.remove data.serial] },
        if returned then .ok () else .error .poller)

def requestUpdates (s : Looper π) (handle : Handle) (events : EventTypes)
    (type : EventsUpdateType) : Looper π × Except LooperException Unit :=
  if s.handles.has handle then
    ({ s with updates := s.updates ++ [⟨handle, type.updateType, events⟩] }, .ok ())
  else (s, .error (.noSuchHandle handle))

def call (P : Poller π) (s : Looper π) : Call → Looper π
  | .add resource events => (s.add resource events).1
  | .remove handle => (s.remove P handle).1
  | .requestUpdates handle events type => (s.requestUpdates handle events type).1

/-! ## A pass -/

/-- `process_update`, and whether it returns. -/
def processUpdate (P : Poller π) (s : Looper π) (update : Update) : Looper π × Bool :=
  match s.handles.get? update.handle with
  | none => (s, true)
  | some data =>
      let events := update.type.apply data.events update.events
      let descriptor := s.descriptors data.resource
      let (poller, returned) :=
        if update.type = .add then P.add descriptor events s.poller
        else P.set descriptor events s.poller
      ({ s with
          poller
          handles := s.handles.modify update.handle fun data => { data with events }
          calls := s.calls ++
            [if update.type = .add then .add data.serial events else .set data.serial events]
          added :=
            if update.type = .add ∧ returned = true then s.added ++ [data.serial] else s.added },
        returned)

/-- The loop of `process_updates`; an update that throws stays at the front. -/
def processUpdatesFrom (P : Poller π) : List Update → Looper π → Looper π × Bool
  | [], s => ({ s with updates := [] }, true)
  | update :: updates, s =>
      match s.processUpdate P update with
      | (s, true) => processUpdatesFrom P updates s
      | (s, false) => ({ s with updates := update :: updates }, false)

def processUpdates (P : Poller π) (s : Looper π) : Looper π × Bool :=
  processUpdatesFrom P s.updates s

/-- The registration a pointer points to, unless that was released. -/
def get (s : Looper π) (pointer : Pointer) : Option Registration :=
  (s.handles.get? pointer.handle).filter fun data => data.serial = pointer.serial

/-- What `process_events` does for a polled pair: it looks at a registration that was
released, or it calls the callback of one. -/
inductive Visit (π : Type)
  | dangling (pointer : Pointer)
  | called (looper : Looper π) (data : Registration) (revents events : EventTypes)

/-- `process_events`, with what each callback calls in turn. -/
def processEvents (P : Poller π) :
    List (Descriptor × EventTypes) → List (List Call) → Looper π → Looper π × List (Visit π)
  | [], _, s => (s, [])
  | (fd, revents) :: polled, reactions, s =>
      match s.fdMap fd with
      | none => processEvents P polled reactions s
      | some pointer =>
          match s.get pointer with
          | none => (s, [.dangling pointer])
          | some data =>
              let events := data.events &&& revents
              if events = 0 then processEvents P polled reactions s
              else
                let (after, visits) := processEvents P polled reactions.tail
                  ((reactions.headD []).foldl (call P) s)
                (after, .called s data revents events :: visits)

/-! ## What a call does -/

variable {P : Poller π} {s : Looper π}

theorem capacity_le_emptyHandle : 256 ≤ emptyHandle := by decide

/-- A registration was added under a handle that was free. -/
structure Adds (s : Looper π) (resource : Resource) (events : EventTypes) (handle : Handle)
    (s' : Looper π) : Prop where
  free : s.fdMap (s.descriptors resource) = none
  fresh : s.handles.get? handle = none
  handles : ∀ other, s'.handles.get? other =
    if other = handle then
      some { serial := s.nextSerial, handle, resource, events := 0,
             addedUnder := s.descriptors resource }
    else s.handles.get? other
  frame : ∃ handles, s' =
    { s with
      handles
      fdMap := Function.update s.fdMap (s.descriptors resource) (some ⟨handle, s.nextSerial⟩)
      updates := s.updates ++ [⟨handle, .add, events⟩]
      nextSerial := s.nextSerial + 1 }

theorem add_cases (s : Looper π) (resource : Resource) (events : EventTypes) :
    (∃ thrown, s.add resource events = (s, .error thrown)) ∨
      ∃ handle s', s.add resource events = (s', .ok handle) ∧
        s.Adds resource events handle s' := by
  rw [add]
  cases hfree : s.fdMap (s.descriptors resource) with
  | some pointer => exact .inl ⟨_, rfl⟩
  | none =>
      dsimp only
      split
      · exact .inl ⟨_, rfl⟩
      · next handle handles hnew =>
          obtain ⟨hfresh, hhandles⟩ :=
            HandleTable.allocateNewWithHandle_eq_ok capacity_le_emptyHandle hnew
          exact .inr ⟨handle, _, rfl, hfree, hfresh, hhandles, handles, rfl⟩

/-! ## What a pass does -/

/-- The same registrations are there and found in the same way; only their events may be
others. -/
structure Keeps (s s' : Looper π) : Prop where
  descriptors : s'.descriptors = s.descriptors
  fdMap : s'.fdMap = s.fdMap
  nextSerial : s'.nextSerial = s.nextSerial
  handles : ∀ handle, (s'.handles.get? handle).map (fun data => { data with events := 0 }) =
    (s.handles.get? handle).map fun data => { data with events := 0 }

theorem Keeps.refl (s : Looper π) : s.Keeps s := ⟨rfl, rfl, rfl, fun _ => rfl⟩

theorem Keeps.trans {s' s'' : Looper π} (h : s.Keeps s') (h' : s'.Keeps s'') : s.Keeps s'' where
  descriptors := h'.descriptors.trans h.descriptors
  fdMap := h'.fdMap.trans h.fdMap
  nextSerial := h'.nextSerial.trans h.nextSerial
  handles handle := (h'.handles handle).trans (h.handles handle)

theorem Keeps.symm {s' : Looper π} (h : s.Keeps s') : s'.Keeps s where
  descriptors := h.descriptors.symm
  fdMap := h.fdMap.symm
  nextSerial := h.nextSerial.symm
  handles handle := (h.handles handle).symm

/-- A registration after a pass is one from before it. -/
theorem Keeps.of_get? {s' : Looper π} (h : s.Keeps s') {handle : Handle} {data : Registration}
    (hdata : s'.handles.get? handle = some data) :
    ∃ events, s.handles.get? handle = some { data with events } := by
  have hsame := h.handles handle
  rw [hdata, Option.map_some, eq_comm, Option.map_eq_some_iff] at hsame
  obtain ⟨old, hold, heq⟩ := hsame
  refine ⟨old.events, hold.trans (congrArg some ?_)⟩
  rcases old with ⟨serial, oldHandle, resource, events, addedUnder⟩
  rcases data with ⟨serial', handle', resource', events', addedUnder'⟩
  simp only [Registration.mk.injEq] at heq ⊢
  tauto

/-- Other events, with whatever the poller made of them. -/
theorem keeps_modify (s : Looper π) (handle : Handle) (events : EventTypes) (poller : π)
    (calls : List PollerCall) (added : List ℕ) :
    s.Keeps { s with
      poller
      handles := s.handles.modify handle fun data => { data with events }
      calls
      added } := by
  refine ⟨rfl, rfl, rfl, fun other => ?_⟩
  show (HandleTable.get? (s.handles.modify handle _) other).map _ = _
  rw [HandleTable.get?_modify]
  split_ifs with hother
  · rw [Option.map_map]
    rfl
  · rfl

theorem keeps_processUpdate (s : Looper π) (P : Poller π) (update : Update) :
    s.Keeps (s.processUpdate P update).1 := by
  rw [processUpdate]
  split
  · exact .refl s
  · exact s.keeps_modify ..

theorem keeps_processUpdatesFrom (P : Poller π) (updates : List Update) (s : Looper π) :
    s.Keeps (processUpdatesFrom P updates s).1 := by
  induction updates generalizing s with
  | nil => exact ⟨rfl, rfl, rfl, fun _ => rfl⟩
  | cons update updates ih =>
      have hfirst := s.keeps_processUpdate P update
      rw [processUpdatesFrom]
      rcases hupdate : s.processUpdate P update with ⟨t, returned⟩
      rw [hupdate] at hfirst
      cases returned with
      | true => exact hfirst.trans (ih t)
      | false => exact ⟨hfirst.descriptors, hfirst.fdMap, hfirst.nextSerial, hfirst.handles⟩

theorem keeps_processUpdates (s : Looper π) (P : Poller π) :
    s.Keeps (s.processUpdates P).1 := keeps_processUpdatesFrom P s.updates s

end Looper

end Obsr.Events
