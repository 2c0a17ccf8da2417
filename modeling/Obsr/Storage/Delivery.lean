/-
# What a listener hears of

A listener is to hear of every event that happened after it was created, that is handed
out before it is removed, and that is about an entry in its part of the tree. The thread
decides this late, by comparing times and searching the path of the listener in that
of the event.

The development keeps the history of all events and of all listeners. The decision is
right but for events of the millisecond in which a listener was created, and for paths
that contain that of the listener somewhere else.
-/

import Obsr.Lib.Run
import Obsr.Storage.Listeners

namespace Obsr

open Obsr.Lib

/-- The path is that of the object or of something below it. -/
def InTree (object path : Text) : Prop :=
  object = [] ∨ path = object ∨ object ++ [47] <+: path

instance (object path : Text) : Decidable (InTree object path) :=
  inferInstanceAs (Decidable (_ ∨ _ ∨ _))

theorem InTree.isInfix {object path : Text} (h : InTree object path) : object <:+: path := by
  rcases h with rfl | rfl | hbelow
  · exact List.nil_infix
  · exact List.infix_rfl
  · exact ((List.prefix_append object [47]).trans hbelow).isInfix

/-- A listener with what it heard of. -/
structure Subscription where
  listener : Handle
  path : Text
  creation : ℤ
  /-- How many events there had been when the listener was created. -/
  generated : ℕ
  /-- How many events had been handed out when the listener was removed. -/
  removed : Option ℕ := none
  received : List Event := []
  deriving DecidableEq

/-- A storage with the time, all events so far, how many of them were handed out, and all
listeners so far. -/
structure Delivery where
  state : ListenedStorage := ListenedStorage.new
  now : ℤ
  history : List Event := []
  dispatched : ℕ := 0
  subscriptions : List Subscription := []

/-- Time goes by, or a call is made. -/
inductive TimedCall
  | wait (milliseconds : ℕ)
  | call (call : ListenedStorage.Call)
  deriving DecidableEq, Repr

namespace Subscription

/-- The removal of a listener. -/
def remove (sub : Subscription) (listener : Handle) (dispatched : ℕ) : Subscription :=
  if sub.removed = none ∧ sub.listener = listener then { sub with removed := some dispatched }
  else sub

/-- A round of the thread. -/
def hear (sub : Subscription) (state : ListenedStorage) (event : Event) : Subscription :=
  if sub.removed = none ∧ state.called event sub.listener then
    { sub with received := sub.received ++ [event] }
  else sub

/-- A removal changes nothing else of a listener. -/
theorem remove_frame (sub : Subscription) (listener : Handle) (dispatched : ℕ) :
    ∃ removed, sub.remove listener dispatched = { sub with removed } := by
  rw [remove]
  split_ifs
  · exact ⟨_, rfl⟩
  · exact ⟨_, rfl⟩

/-- A listener is the same after it heard of an event. -/
theorem hear_frame (sub : Subscription) (state : ListenedStorage) (event : Event) :
    ∃ received, sub.hear state event = { sub with received } := by
  rw [hear]
  split_ifs
  · exact ⟨_, rfl⟩
  · exact ⟨_, rfl⟩

end Subscription

namespace Delivery

/-- After a listener was asked for at a path. -/
def subscribe (s : Delivery) (path : Text) : ListenedStorage × Option Handle → Delivery
  | (state, none) => { s with state }
  | (state, some listener) =>
      { s with
        state
        subscriptions := s.subscriptions ++
          [{ listener, path, creation := s.now, generated := s.history.length }] }

/-- After a round of the thread. -/
def handOut (s : Delivery) (event : Event) : Delivery :=
  { s with
    state := s.state.dispatch
    dispatched := s.dispatched + 1
    subscriptions := s.subscriptions.map (·.hear s.state event) }

def call (s : Delivery) (c : ListenedStorage.Call) : Delivery :=
  let after := s.state.perform s.now c
  match c with
  | .operate _ =>
      { s with
        state := after.1
        history := s.history ++
          after.1.storage.pendingEvents.drop s.state.storage.pendingEvents.length }
  | .listen path => s.subscribe path after
  | .listenEntry entry =>
      match s.state.storage.entries.get? entry with
      | none => s
      | some data => s.subscribe data.path after
  | .removeListener listener =>
      { s with
        state := after.1
        subscriptions := s.subscriptions.map (·.remove listener s.dispatched) }
  | .dispatch =>
      match s.state.storage.pendingEvents with
      | [] => s
      | event :: _ => s.handOut event

def step (s : Delivery) : TimedCall → Delivery
  | .wait milliseconds => { s with now := s.now + milliseconds }
  | .call c => s.call c

/-- What a listener is to have heard of. -/
def due (s : Delivery) (sub : Subscription) : List Event :=
  ((s.history.take (sub.removed.getD s.dispatched)).drop sub.generated).filter
    fun event => decide (InTree sub.path event.path)

/-- Every listener heard of exactly that, in that order. -/
def Exact (s : Delivery) : Prop := ∀ sub ∈ s.subscriptions, sub.received = s.due sub

instance (s : Delivery) : Decidable s.Exact :=
  inferInstanceAs (Decidable (∀ sub ∈ s.subscriptions, sub.received = s.due sub))

/-- A listener calls back for the next event although it happened before the listener was
created, in the same millisecond, or is about something outside its part of the tree. -/
def Misleads (s : Delivery) (event : Event) (sub : Subscription) : Prop :=
  sub.removed = none ∧ sub.path <:+: event.path ∧
    if s.dispatched < sub.generated then event.timestamp = sub.creation
    else ¬ InTree sub.path event.path

/-- The next event to be handed out misleads no listener. -/
def Routes (s : Delivery) : TimedCall → Prop
  | .call .dispatch =>
      ∀ event ∈ s.state.storage.pendingEvents.head?, ∀ sub ∈ s.subscriptions,
        ¬ s.Misleads event sub
  | _ => True

/-- What holds as long as every listener hears of what it should. -/
structure Orderly (s : Delivery) : Prop where
  exact : s.Exact
  dispatched_le : s.dispatched ≤ s.history.length
  pending : s.state.storage.pendingEvents = s.history.drop s.dispatched
  times : ∀ event ∈ s.history, event.timestamp ≤ s.now
  live : ∀ sub ∈ s.subscriptions, sub.removed = none →
    s.state.listeners.get? sub.listener = some ⟨sub.path, sub.creation⟩
  removed_le : ∀ sub ∈ s.subscriptions, ∀ count ∈ sub.removed, count ≤ s.dispatched
  known : ∀ sub ∈ s.subscriptions, sub.generated ≤ s.history.length ∧ sub.creation ≤ s.now
  before : ∀ sub ∈ s.subscriptions, ∀ event ∈ s.history.take sub.generated,
    event.timestamp ≤ sub.creation
  after : ∀ sub ∈ s.subscriptions, ∀ event ∈ s.history.drop sub.generated,
    sub.creation ≤ event.timestamp

variable {s : Delivery}

theorem orderly_init (now : ℤ) : Orderly { now } where
  exact _ h := absurd h List.not_mem_nil
  dispatched_le := le_rfl
  pending := rfl
  times _ h := absurd h List.not_mem_nil
  live _ h := absurd h List.not_mem_nil
  removed_le _ h := absurd h List.not_mem_nil
  known _ h := absurd h List.not_mem_nil
  before _ h := absurd h List.not_mem_nil
  after _ h := absurd h List.not_mem_nil

theorem Orderly.wait (h : s.Orderly) (milliseconds : ℕ) :
    (s.step (.wait milliseconds)).Orderly where
  exact := h.exact
  dispatched_le := h.dispatched_le
  pending := h.pending
  times event hevent := (h.times event hevent).trans (le_add_of_nonneg_right (by positivity))
  live := h.live
  removed_le := h.removed_le
  known sub hsub :=
    ⟨(h.known sub hsub).1,
      (h.known sub hsub).2.trans (le_add_of_nonneg_right (by positivity))⟩
  before := h.before
  after := h.after

/-- How many events a listener could have heard of. -/
theorem Orderly.getD_removed_le (h : s.Orderly) {sub : Subscription}
    (hsub : sub ∈ s.subscriptions) : sub.removed.getD s.dispatched ≤ s.dispatched := by
  cases hremoved : sub.removed with
  | none => exact le_rfl
  | some count => exact h.removed_le sub hsub count hremoved

theorem Orderly.operate (h : s.Orderly) (op : Storage.Operation) :
    (s.step (.call (.operate op))).Orderly := by
  obtain ⟨events, hevents, htimes⟩ := Storage.notifies_perform s.now s.state.storage op
  have hafter : s.step (.call (.operate op)) =
      { s with
        state := s.state.operate s.now op
        history := s.history ++ events } := by
    show { s with
      state := s.state.operate s.now op
      history := s.history ++ (s.state.storage.perform (op.withNow s.now)).pendingEvents.drop
        s.state.storage.pendingEvents.length } = _
    rw [hevents, List.drop_left]
  rw [hafter]
  refine ⟨?_, ?_, ?_, ?_, h.live, h.removed_le, ?_, ?_, ?_⟩
  · intro sub hsub
    have hcount := (h.getD_removed_le hsub).trans h.dispatched_le
    rw [h.exact sub hsub, due, due]
    show _ = (((s.history ++ events).take (sub.removed.getD s.dispatched)).drop _).filter _
    rw [List.take_append_of_le_length hcount]
  · show s.dispatched ≤ (s.history ++ events).length
    rw [List.length_append]
    exact h.dispatched_le.trans (Nat.le_add_right ..)
  · show (s.state.storage.perform (op.withNow s.now)).pendingEvents =
      (s.history ++ events).drop s.dispatched
    rw [hevents, h.pending, List.drop_append_of_le_length h.dispatched_le]
  · intro event hevent
    rcases List.mem_append.mp hevent with hold | hnew
    · exact h.times event hold
    · exact (htimes event hnew).le
  · intro sub hsub
    obtain ⟨hgenerated, hcreation⟩ := h.known sub hsub
    refine ⟨?_, hcreation⟩
    show sub.generated ≤ (s.history ++ events).length
    rw [List.length_append]
    exact hgenerated.trans (Nat.le_add_right ..)
  · intro sub hsub event hevent
    rw [List.take_append_of_le_length (h.known sub hsub).1] at hevent
    exact h.before sub hsub event hevent
  · intro sub hsub event hevent
    rw [List.drop_append_of_le_length (h.known sub hsub).1] at hevent
    rcases List.mem_append.mp hevent with hold | hnew
    · exact h.after sub hsub event hold
    · rw [htimes event hnew]
      exact (h.known sub hsub).2

theorem Orderly.subscribe (h : s.Orderly) (path : Text) :
    (s.subscribe path (s.state.createListener s.now path)).Orderly := by
  rcases s.state.createListener_cases s.now path with hsame | ⟨listener, hcreated, hlistens⟩
  · rw [hsame]
    exact h
  · rcases hcreate : s.state.createListener s.now path with ⟨state, created⟩
    rw [hcreate] at hcreated hlistens
    obtain rfl : created = some listener := hcreated
    have hnew : ∀ {P : Subscription → Prop}, (∀ sub ∈ s.subscriptions, P sub) →
        P { listener, path, creation := s.now, generated := s.history.length } →
        ∀ sub ∈ s.subscriptions ++
          [{ listener, path, creation := s.now, generated := s.history.length }], P sub := by
      intro P hold hlast sub hsub
      rcases List.mem_append.mp hsub with hmem | hmem
      · exact hold sub hmem
      · rw [List.mem_singleton.mp hmem]
        exact hlast
    refine ⟨hnew h.exact ?_, h.dispatched_le, ?_, h.times, hnew ?_ ?_, hnew h.removed_le ?_,
      hnew h.known ⟨le_rfl, le_rfl⟩, hnew h.before ?_, hnew h.after ?_⟩
    · -- nothing that was handed out so far happened after the creation
      show [] = ((s.history.take s.dispatched).drop s.history.length).filter _
      rw [List.drop_eq_nil_of_le ((List.length_take_le ..).trans h.dispatched_le),
        List.filter_nil]
    · show state.storage.pendingEvents = s.history.drop s.dispatched
      rw [hlistens.storage, h.pending]
    · intro sub hsub hlive
      have hne : sub.listener ≠ listener := by
        intro heq
        have hthere := h.live sub hsub hlive
        rw [heq, hlistens.fresh] at hthere
        cases hthere
      show state.listeners.get? sub.listener = _
      rw [hlistens.listeners, if_neg hne]
      exact h.live sub hsub hlive
    · intro _
      show state.listeners.get? listener = _
      rw [hlistens.listeners, if_pos rfl]
    · intro count hcount
      cases hcount
    · intro event hevent
      exact h.times event (List.mem_of_mem_take hevent)
    · intro event hevent
      replace hevent : event ∈ s.history.drop s.history.length := hevent
      rw [List.drop_length] at hevent
      exact absurd hevent List.not_mem_nil

theorem Orderly.removeListener (h : s.Orderly) (listener : Handle) :
    (s.step (.call (.removeListener listener))).Orderly := by
  have hmap : ∀ {P : Subscription → Prop}, (∀ sub ∈ s.subscriptions,
      P (sub.remove listener s.dispatched)) →
      ∀ sub ∈ s.subscriptions.map (·.remove listener s.dispatched), P sub := by
    intro P hold sub hsub
    obtain ⟨old, hmem, rfl⟩ := List.mem_map.mp hsub
    exact hold old hmem
  refine ⟨hmap ?_, h.dispatched_le, h.pending, h.times, hmap ?_, hmap ?_, hmap ?_, hmap ?_,
    hmap ?_⟩
  · intro sub hsub
    have hexact := h.exact sub hsub
    rw [Subscription.remove]
    split_ifs with hremoves
    · rw [due, hremoves.1] at hexact
      exact hexact
    · exact hexact
  · intro sub hsub
    rw [Subscription.remove]
    split_ifs with hremoves
    · intro hlive
      cases hlive
    · intro hlive
      have hne : sub.listener ≠ listener := fun heq => hremoves ⟨hlive, heq⟩
      show (s.state.listeners.release listener).get? sub.listener = _
      rw [HandleTable.get?_release, if_neg hne]
      exact h.live sub hsub hlive
  · intro sub hsub
    rw [Subscription.remove]
    split_ifs with hremoves
    · intro count hcount
      obtain rfl := Option.some.inj hcount
      exact le_rfl
    · exact h.removed_le sub hsub
  · intro sub hsub
    obtain ⟨removed, hremoved⟩ := sub.remove_frame listener s.dispatched
    rw [hremoved]
    exact h.known sub hsub
  · intro sub hsub
    obtain ⟨removed, hremoved⟩ := sub.remove_frame listener s.dispatched
    rw [hremoved]
    exact h.before sub hsub
  · intro sub hsub
    obtain ⟨removed, hremoved⟩ := sub.remove_frame listener s.dispatched
    rw [hremoved]
    exact h.after sub hsub

/-! ## A round of the thread -/

/-- What a listener is to have heard of once the next event is handed out. -/
theorem due_of_next {event : Event} (hnext : s.history[s.dispatched]? = some event)
    (sub : Subscription) (hlive : sub.removed = none) (s' : Delivery)
    (hhistory : s'.history = s.history) (hdispatched : s'.dispatched = s.dispatched + 1) :
    s'.due sub = s.due sub ++
      if sub.generated ≤ s.dispatched ∧ InTree sub.path event.path then [event] else [] := by
  obtain ⟨hlt, hget⟩ := List.getElem?_eq_some_iff.mp hnext
  have htake : s.history.take (s.dispatched + 1) = s.history.take s.dispatched ++ [event] := by
    rw [List.take_succ_eq_append_getElem hlt, hget]
  have hlength : (s.history.take s.dispatched).length = s.dispatched :=
    List.length_take_of_le hlt.le
  rw [due, due, hlive, hhistory, hdispatched, Option.getD_none, Option.getD_none, htake]
  by_cases hgenerated : sub.generated ≤ s.dispatched
  · rw [List.drop_append_of_le_length (hgenerated.trans hlength.ge), List.filter_append]
    congr 1
    by_cases hin : InTree sub.path event.path
    · rw [if_pos ⟨hgenerated, hin⟩]
      exact List.filter_cons_of_pos (decide_eq_true hin)
    · rw [if_neg fun h => hin h.2]
      exact List.filter_cons_of_neg (by simpa using hin)
  · rw [if_neg fun h => hgenerated h.1, List.append_nil,
      List.drop_eq_nil_of_le, List.drop_eq_nil_of_le]
    · rw [hlength]
      exact (not_le.mp hgenerated).le
    · rw [List.length_append, hlength]
      exact not_le.mp hgenerated

/-- A listener calls back for the next event if it should, unless it is misled. -/
theorem Orderly.called_iff (h : s.Orderly) {event : Event}
    (hnext : s.history[s.dispatched]? = some event) {sub : Subscription}
    (hsub : sub ∈ s.subscriptions) (hlive : sub.removed = none) :
    s.state.called event sub.listener = true ↔
      (sub.generated ≤ s.dispatched ∧ InTree sub.path event.path) ∨ s.Misleads event sub := by
  obtain ⟨hlt, hget⟩ := List.getElem?_eq_some_iff.mp hnext
  rw [ListenedStorage.called, h.live sub hsub hlive, Option.any_some, ListenerData.invokes,
    Misleads]
  by_cases hearly : s.dispatched < sub.generated
  · -- it happened before, at the latest in the same millisecond
    have hold : event ∈ s.history.take sub.generated := by
      rw [List.mem_take_iff_getElem]
      exact ⟨s.dispatched, lt_min hearly hlt, hget⟩
    have htime := h.before sub hsub event hold
    rw [if_pos hearly]
    have hnot : ¬ sub.generated ≤ s.dispatched := not_le.mpr hearly
    by_cases hsame : event.timestamp = sub.creation
    · rw [if_neg (by rw [hsame]; exact lt_irrefl _)]
      simp [hlive, hsame, hnot]
    · rw [if_pos (lt_of_le_of_ne htime hsame)]
      simp [hsame, hnot]
  · have hnew : event ∈ s.history.drop sub.generated := by
      rw [List.mem_drop_iff_getElem]
      refine ⟨s.dispatched - sub.generated, by omega, ?_⟩
      rw [← hget]
      congr 1
      omega
    rw [if_neg (h.after sub hsub event hnew).not_gt, if_neg hearly]
    have hgenerated : sub.generated ≤ s.dispatched := not_lt.mp hearly
    have hinfix : InTree sub.path event.path → sub.path <:+: event.path := InTree.isInfix
    simp only [decide_eq_true_eq, hgenerated, hlive, true_and]
    tauto

/-- What a listener heard of after the round. -/
theorem received_hear {event : Event} {sub : Subscription} (hlive : sub.removed = none)
    (state : ListenedStorage) :
    (sub.hear state event).received =
      sub.received ++ if state.called event sub.listener then [event] else [] := by
  rw [Subscription.hear]
  by_cases hcalled : state.called event sub.listener = true
  · rw [if_pos ⟨hlive, hcalled⟩, if_pos hcalled]
  · rw [if_neg fun h => hcalled h.2, if_neg hcalled, List.append_nil]

theorem due_hear (s : Delivery) (sub : Subscription) (state : ListenedStorage)
    (event : Event) : s.due (sub.hear state event) = s.due sub := by
  obtain ⟨received, hreceived⟩ := sub.hear_frame state event
  rw [hreceived]
  rfl

/-- The next event is the first pending one. -/
theorem Orderly.next (h : s.Orderly) {event : Event} {events : List Event}
    (hpending : s.state.storage.pendingEvents = event :: events) :
    s.history[s.dispatched]? = some event ∧ s.history.drop (s.dispatched + 1) = events := by
  have hdrop : s.history.drop s.dispatched = event :: events := by rw [← h.pending, hpending]
  constructor
  · rw [← List.head?_drop, hdrop]
    rfl
  · rw [← List.tail_drop, hdrop]
    rfl

theorem Orderly.handOut (h : s.Orderly) {event : Event} {events : List Event}
    (hpending : s.state.storage.pendingEvents = event :: events)
    (hok : ∀ sub ∈ s.subscriptions, ¬ s.Misleads event sub) : (s.handOut event).Orderly := by
  obtain ⟨hnext, hrest⟩ := h.next hpending
  obtain ⟨hlt, -⟩ := List.getElem?_eq_some_iff.mp hnext
  have hmap : ∀ {P : Subscription → Prop}, (∀ sub ∈ s.subscriptions,
      P (sub.hear s.state event)) →
      ∀ sub ∈ s.subscriptions.map (·.hear s.state event), P sub := by
    intro P hold sub hsub
    obtain ⟨old, hmem, rfl⟩ := List.mem_map.mp hsub
    exact hold old hmem
  refine ⟨hmap ?_, hlt, ?_, h.times, hmap ?_, hmap ?_, hmap ?_, hmap ?_, hmap ?_⟩
  · intro sub hsub
    rw [due_hear]
    by_cases hlive : sub.removed = none
    · rw [received_hear hlive, due_of_next hnext sub hlive (s.handOut event) rfl rfl,
        h.exact sub hsub]
      have hcalled := h.called_iff hnext hsub hlive
      rw [or_iff_left (hok sub hsub)] at hcalled
      simp only [hcalled]
    · obtain ⟨count, hcount⟩ := Option.ne_none_iff_exists'.mp hlive
      rw [Subscription.hear, if_neg fun hhears => hlive hhears.1, h.exact sub hsub, due, due,
        hcount]
      rfl
  · show s.state.storage.pendingEvents.tail = s.history.drop (s.dispatched + 1)
    rw [hpending, hrest, List.tail_cons]
  · intro sub hsub
    obtain ⟨received, hreceived⟩ := sub.hear_frame s.state event
    rw [hreceived]
    exact h.live sub hsub
  · intro sub hsub
    obtain ⟨received, hreceived⟩ := sub.hear_frame s.state event
    rw [hreceived]
    exact fun count hcount => (h.removed_le sub hsub count hcount).trans (Nat.le_succ _)
  · intro sub hsub
    obtain ⟨received, hreceived⟩ := sub.hear_frame s.state event
    rw [hreceived]
    exact h.known sub hsub
  · intro sub hsub
    obtain ⟨received, hreceived⟩ := sub.hear_frame s.state event
    rw [hreceived]
    exact h.before sub hsub
  · intro sub hsub
    obtain ⟨received, hreceived⟩ := sub.hear_frame s.state event
    rw [hreceived]
    exact h.after sub hsub

/-- A listener that is misled hears of an event too many. -/
theorem Orderly.not_exact_handOut (h : s.Orderly) {event : Event} {events : List Event}
    (hpending : s.state.storage.pendingEvents = event :: events) {sub : Subscription}
    (hsub : sub ∈ s.subscriptions) (hmisled : s.Misleads event sub) :
    ¬ (s.handOut event).Exact := by
  obtain ⟨hnext, -⟩ := h.next hpending
  have hlive := hmisled.1
  intro hexact
  have hheard := hexact (sub.hear s.state event) (List.mem_map_of_mem hsub)
  have hnot : ¬ (sub.generated ≤ s.dispatched ∧ InTree sub.path event.path) := by
    rintro ⟨hgenerated, hin⟩
    have hoff := hmisled.2.2
    rw [if_neg (not_lt.mpr hgenerated)] at hoff
    exact hoff hin
  rw [due_hear, received_hear hlive, if_pos ((h.called_iff hnext hsub hlive).mpr (.inr hmisled)),
    due_of_next hnext sub hlive (s.handOut event) rfl rfl, if_neg hnot, h.exact sub hsub,
    List.append_nil] at hheard
  exact List.cons_ne_nil _ _ (List.append_right_eq_self.mp hheard)

/-! ## Runs -/

theorem Orderly.step (s : Delivery) (c : TimedCall) (h : s.Orderly) (hok : s.Routes c) :
    (s.step c).Orderly := by
  cases c with
  | wait milliseconds => exact h.wait milliseconds
  | call c =>
      cases c with
      | operate op => exact h.operate op
      | listen path => exact h.subscribe path
      | listenEntry entry =>
          show (s.call (.listenEntry entry)).Orderly
          rw [call]
          cases hdata : s.state.storage.entries.get? entry with
          | none => exact h
          | some data =>
              have hcreates : s.state.perform s.now (.listenEntry entry) =
                  s.state.createListener s.now data.path := by
                rw [ListenedStorage.perform, ListenedStorage.listenEntry, hdata]
              rw [hcreates]
              exact h.subscribe data.path
      | removeListener listener => exact h.removeListener listener
      | dispatch =>
          show (s.call .dispatch).Orderly
          rw [call]
          cases hpending : s.state.storage.pendingEvents with
          | nil => exact h
          | cons event events =>
              exact h.handOut hpending (hok event (by rw [hpending]; rfl))

theorem Orderly.not_exact (s : Delivery) (c : TimedCall) (h : s.Orderly)
    (hbad : ¬ s.Routes c) : ¬ (s.step c).Exact := by
  unfold Routes at hbad
  split at hbad
  · push Not at hbad
    obtain ⟨event, hevent, sub, hsub, hmisled⟩ := hbad
    obtain ⟨events, hpending⟩ : ∃ events, s.state.storage.pendingEvents = event :: events := by
      cases hcases : s.state.storage.pendingEvents with
      | nil =>
          rw [hcases] at hevent
          cases hevent
      | cons first events =>
          rw [hcases] at hevent
          obtain rfl := Option.some.inj hevent
          exact ⟨events, rfl⟩
    show ¬ (s.call .dispatch).Exact
    rw [call, hpending]
    exact h.not_exact_handOut hpending hsub hmisled
  · exact absurd trivial hbad

/-- Every listener hears of exactly what it should throughout a run, if and only if no
event that is handed out misleads one. -/
theorem exact_iff_routes (now : ℤ) (calls : List TimedCall) :
    HoldsThroughout step Exact { now } calls ↔ StepsMeet step Routes { now } calls :=
  holdsThroughout_iff_stepsMeet Orderly.step (fun _ h => h.exact) Orderly.not_exact
    (orderly_init now) calls

/-- A listener of the object `a` hears of the entry `ab`. -/
theorem not_exact_similarName :
    ¬ HoldsThroughout step Exact { now := 1000 }
      [.call (.operate (.getOrCreateEntry [97, 98])), .call (.listen [97]), .wait 1,
        .call (.operate (.setEntryValue 0 0 (Value.makeInt32 7))), .call .dispatch] := by
  decide +kernel

end Delivery

end Obsr
