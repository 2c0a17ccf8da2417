/-
# The events of a storage

What the listeners of a storage are told tells the whole story of its values. An
entry goes through lifetimes, and in each of them one value follows the other;
a `Phase` is how far the events of an entry have told it.
-/

import Obsr.Storage.Calls
import Obsr.Storage.Effect

namespace Obsr

open Obsr.Lib

/-! ## The story of an entry -/

/-- Where the events of an entry have led to. -/
inductive Phase
  | absent
  | fresh
  | live (value : Value)
  deriving DecidableEq, Repr

namespace Phase

/-- A lifetime begins with `created` and ends with `deleted`; the changes between
them hand the value on, from the empty one. -/
def next : Phase → Event → Option Phase
  | .absent, event => if event.type = .created then some .fresh else none
  | .fresh, event =>
      if event.type = .valueChanged ∧ event.oldValue = Value.make then some (.live event.value)
      else none
  | .live value, event =>
      if event.type = .valueChanged ∧ event.oldValue = value then some (.live event.value)
      else if event.type = .deleted then some .absent
      else none

/-- The phase after some events, if they tell a story. -/
def follow (phase : Phase) (events : List Event) : Option Phase := events.foldlM next phase

theorem follow_append (phase : Phase) (first second : List Event) :
    phase.follow (first ++ second) =
      (phase.follow first).bind fun phase => phase.follow second :=
  List.foldlM_append ..

end Phase

namespace StorageEntry

variable {e : StorageEntry}

/-- The phase an entry is in. -/
def phase (e : StorageEntry) : Phase := if e.hasValue then .live e.value else .absent

theorem phase_of_live (h : e.hasValue = true) : e.phase = .live e.value := if_pos h

theorem phase_of_dead (h : e.hasValue = false) : e.phase = .absent := by
  rw [phase, h]
  rfl

/-- A set tells the story on, if a clear sets the empty value. -/
theorem follow_set (h : e.Sound) (now : ℤ) {value : Value} {clear : Bool}
    (hclear : clear = true → value = Value.make) (id : EntryId) (markDirty : Bool)
    (timestamp : ℤ) :
    e.phase.follow (e.after (.set now value clear id markDirty timestamp)).2 =
      some (e.after (.set now value clear id markDirty timestamp)).1.phase := by
  show e.phase.follow (e.set now value clear id markDirty timestamp).2.1 =
    some (e.set now value clear id markDirty timestamp).1.phase
  cases hstale : e.isStale timestamp with
  | true =>
      rw [set_of_stale hstale]
      rfl
  | false =>
      by_cases hfits : clear = false → e.Fits value
      · rw [events_set_of_fits hstale hfits, (set_of_fits hstale hfits now id markDirty).1]
        have hvalue : (if clear then Value.make else value) = value := by
          split_ifs with hcleared
          · exact (hclear hcleared).symm
          · rfl
        rw [hvalue, Phase.follow_append, revived]
        show _ = some (Phase.live value)
        cases hlive : e.hasValue with
        | true =>
            rw [phase_of_live hlive]
            simp [Phase.follow, Phase.next, event]
        | false =>
            rw [phase_of_dead hlive]
            simp [Phase.follow, Phase.next, event, h.empty hlive]
      · push Not at hfits
        obtain ⟨rfl, hfits⟩ := hfits
        rw [events_set_of_not_fits hstale hfits, (set_of_not_fits hstale hfits now id markDirty).1]
        -- only a live entry holds a value another one does not fit
        have hlive : e.hasValue = true := by
          by_contra hdead
          apply hfits
          rw [Fits, h.empty (Bool.eq_false_iff.mpr hdead)]
          exact Or.inl rfl
        rw [revived, hlive, phase_of_live hlive, phase_of_live (hasValue_revive id)]
        rfl

theorem follow_delete (now : ℤ) (markDirty : Bool) (timestamp : ℤ) :
    e.phase.follow (e.delete now markDirty timestamp).2 =
      some (e.delete now markDirty timestamp).1.phase := by
  cases hstale : e.isStale timestamp with
  | true =>
      rw [delete_of_stale hstale]
      rfl
  | false =>
      cases hlive : e.hasValue with
      | false =>
          rw [delete_of_not_hasValue hlive]
          rfl
      | true =>
          rw [delete_of_hasValue hstale hlive, events_delete_of_hasValue hstale hlive,
            phase_of_live hlive, phase_of_dead (by simp [hasValue])]
          simp [Phase.follow, Phase.next, event]

end StorageEntry

namespace Storage

variable {s : Storage} {entry : Handle}

/-- The phase of the entry of a handle, if there is one. -/
def phaseAt (s : Storage) (entry : Handle) : Phase :=
  ((s.entries.get? entry).map StorageEntry.phase).getD .absent

/-- The events of every entry tell its story up to its present state. -/
def Told (s : Storage) : Prop :=
  ∀ entry, Phase.absent.follow (s.eventsOf entry) = some (s.phaseAt entry)

theorem told_new : new.Told := by
  intro entry
  rw [phaseAt, show new.entries.get? entry = none from HandleTable.get?_empty entry]
  rfl

/-- What an operation does to an entry tells its story on. -/
theorem follow_effect {data : StorageEntry} (h : data.Sound) (op : Operation) :
    data.phase.follow (data.after (s.effect op entry)).2 =
      some (data.after (s.effect op entry)).1.phase := by
  have hkeep : data.phase.follow (data.after .keep).2 = some (data.after .keep).1.phase := rfl
  cases op with
  | getOrCreateEntry path => exact hkeep
  | clearNetIds => rfl
  | deleteEntry now target | deleteEntries now path | onEntryDeleted now id timestamp =>
      simp only [effect]
      split_ifs
      · exact StorageEntry.follow_delete ..
      · exact hkeep
  | setEntryValue now target value | onEntryUpdated now id value timestamp
  | onEntryCreated now id path value timestamp =>
      simp only [effect]
      split_ifs
      · exact StorageEntry.follow_set h _ (fun hclear => Bool.noConfusion hclear) ..
      · exact hkeep
  | clearEntry now target =>
      simp only [effect]
      split_ifs
      · exact StorageEntry.follow_set h _ (fun _ => rfl) ..
      · exact hkeep
  | clearDirty target | onEntryIdAssigned id path =>
      simp only [effect]
      split_ifs <;> rfl

theorem sound_base (h : s.Coherent) {op : Operation} {data : StorageEntry}
    (hbase : s.base op entry = some data) : data.Sound := by
  unfold base at hbase
  cases hdata : s.entries.get? entry with
  | some old =>
      rw [hdata] at hbase
      obtain rfl := Option.some.inj hbase
      exact h.sound hdata
  | none =>
      rw [hdata, Option.none_or, Option.bind_eq_some_iff] at hbase
      obtain ⟨path, -, hcreated⟩ := hbase
      split_ifs at hcreated
      rw [← Option.some.inj hcreated]
      exact ⟨fun _ => rfl, fun _ => rfl⟩

/-- An entry is in the phase of the one an operation reaches. -/
theorem phaseAt_eq_base (s : Storage) (op : Operation) (entry : Handle) :
    s.phaseAt entry = ((s.base op entry).map StorageEntry.phase).getD .absent := by
  unfold phaseAt base
  cases s.entries.get? entry with
  | some data => rfl
  | none =>
      rw [Option.none_or]
      cases createdPath op with
      | none => rfl
      | some path =>
          rw [Option.bind_some]
          split_ifs <;> rfl

theorem Told.perform (h : s.Told) (hs : s.Coherent) (op : Operation) : (s.perform op).Told := by
  intro entry
  obtain ⟨hentry, hevents⟩ := reached_perform hs op entry
  rw [hevents, Phase.follow_append, h entry, Option.bind_some, phaseAt_eq_base s op, phaseAt,
    hentry]
  cases hbase : s.base op entry with
  | none => rfl
  | some data => exact follow_effect (sound_base hs hbase) op

theorem told_runCalls (calls : List Call) : (runCalls calls).Told := by
  rw [runCalls_eq]
  have hstep : ∀ (s : Storage) (op : Operation), s.Coherent ∧ s.Told →
      (s.perform op).Coherent ∧ (s.perform op).Told :=
    fun _ op hs => ⟨hs.1.perform op, hs.2.perform hs.1 op⟩
  exact (foldl_of_invariant (I := fun s : Storage => s.Coherent ∧ s.Told) hstep
    ⟨coherent_new, told_new⟩ _).2

end Storage

/-! ## Lifetimes, old values and replay -/

/-- `created value_changed+ deleted`, with so many changes after the first. -/
def lifetime (changes : ℕ) : List EventType :=
  .created :: (List.replicate (changes + 1) .valueChanged ++ [.deleted])

/-- The events form a prefix of some lifetimes. -/
def InLifetimes (events : List Event) : Prop :=
  ∃ lifetimes : List ℕ, events.map Event.type <+: lifetimes.flatMap lifetime

/-- Every change knows the value before it: the new value of the previous change
of its lifetime, or the empty one. -/
def Chained (previous : Value) : List Event → Prop
  | [] => True
  | event :: events =>
      match event.type with
      | .valueChanged => event.oldValue = previous ∧ Chained event.value events
      | .created | .deleted => Chained Value.make events

/-- The value of an entry after an event of it. -/
def Event.outcome (event : Event) : Option Value :=
  match event.type with
  | .created => some Value.make
  | .valueChanged => some event.value
  | .deleted => none

/-- The values of all entries that a listener of all events has in the end. -/
def replay (events : List Event) : Handle → Option Value :=
  events.foldl (fun values event => Function.update values event.entry event.outcome)
    fun _ => none

namespace Phase

/-- The value an entry shows in a phase. -/
def value : Phase → Option Value
  | .absent => none
  | .fresh => some Value.make
  | .live value => some value

/-- What the types of the events look like that lead to a phase. -/
def Ends (phase : Phase) (types : List EventType) : Prop :=
  ∃ lifetimes : List ℕ,
    match phase with
    | .absent => types = lifetimes.flatMap lifetime
    | .fresh => types = lifetimes.flatMap lifetime ++ [.created]
    | .live _ => ∃ changes, types = lifetimes.flatMap lifetime ++
        .created :: List.replicate (changes + 1) .valueChanged

theorem ends_next {phase phase' : Phase} {types : List EventType} {event : Event}
    (h : phase.Ends types) (hnext : phase.next event = some phase') :
    phase'.Ends (types ++ [event.type]) := by
  obtain ⟨lifetimes, htypes⟩ := h
  cases phase with
  | absent =>
      simp only [next] at hnext
      split_ifs at hnext with htype
      obtain rfl := Option.some.inj hnext
      exact ⟨lifetimes, by rw [htypes, htype]⟩
  | fresh =>
      simp only [next] at hnext
      split_ifs at hnext with htype
      obtain rfl := Option.some.inj hnext
      refine ⟨lifetimes, 0, ?_⟩
      rw [htypes, htype.1, List.append_assoc]
      rfl
  | live value =>
      obtain ⟨changes, htypes⟩ := htypes
      simp only [next] at hnext
      split_ifs at hnext with htype hdeleted
      · obtain rfl := Option.some.inj hnext
        refine ⟨lifetimes, changes + 1, ?_⟩
        rw [htypes, htype.1, List.append_assoc, List.cons_append, ← List.replicate_succ']
      · obtain rfl := Option.some.inj hnext
        refine ⟨lifetimes ++ [changes], ?_⟩
        rw [htypes, hdeleted, List.flatMap_append, List.append_assoc]
        simp [lifetime]

theorem ends_of_follow {events : List Event} {phase : Phase}
    (h : absent.follow events = some phase) : phase.Ends (events.map Event.type) := by
  induction events using List.reverseRecOn generalizing phase with
  | nil =>
      obtain rfl := Option.some.inj h
      exact ⟨[], rfl⟩
  | append_singleton events event ih =>
      rw [follow_append, Option.bind_eq_some_iff] at h
      obtain ⟨before, hbefore, hevent⟩ := h
      rw [follow, List.foldlM_cons, Option.bind_eq_bind, Option.bind_eq_some_iff] at hevent
      obtain ⟨after, hnext, hafter⟩ := hevent
      obtain rfl := Option.some.inj hafter
      rw [List.map_append]
      exact ends_next (ih hbefore) hnext

/-- A story can always be brought to the end of a lifetime. -/
theorem inLifetimes_of_ends {phase : Phase} {events : List Event}
    (h : phase.Ends (events.map Event.type)) : InLifetimes events := by
  obtain ⟨lifetimes, htypes⟩ := h
  cases phase with
  | absent => exact ⟨lifetimes, [], by rw [List.append_nil]; exact htypes⟩
  | fresh =>
      refine ⟨lifetimes ++ [0], [.valueChanged, .deleted], ?_⟩
      rw [htypes, List.flatMap_append, List.append_assoc]
      rfl
  | live value =>
      obtain ⟨changes, htypes⟩ := htypes
      refine ⟨lifetimes ++ [changes], [.deleted], ?_⟩
      rw [htypes, List.flatMap_append, List.append_assoc]
      simp [lifetime]

/-- Along a story the old values are chained and the outcomes are the values of
the phases. -/
theorem chained_of_follow {events : List Event} {phase phase' : Phase}
    (h : phase.follow events = some phase') :
    Chained (phase.value.getD Value.make) events ∧
      events.foldl (fun _ event => event.outcome) phase.value = phase'.value := by
  induction events generalizing phase with
  | nil =>
      obtain rfl := Option.some.inj h
      exact ⟨trivial, rfl⟩
  | cons event events ih =>
      rw [follow, List.foldlM_cons, Option.bind_eq_bind, Option.bind_eq_some_iff] at h
      obtain ⟨after, hnext, hafter⟩ := h
      obtain ⟨hchained, hvalue⟩ := ih hafter
      cases phase with
      | absent =>
          simp only [next] at hnext
          split_ifs at hnext with htype
          obtain rfl := Option.some.inj hnext
          simp only [Chained, List.foldl_cons, Event.outcome, htype]
          exact ⟨hchained, hvalue⟩
      | fresh =>
          simp only [next] at hnext
          split_ifs at hnext with htype
          obtain rfl := Option.some.inj hnext
          simp only [Chained, List.foldl_cons, Event.outcome, htype.1]
          exact ⟨⟨htype.2, hchained⟩, hvalue⟩
      | live value =>
          simp only [next] at hnext
          split_ifs at hnext with htype hdeleted
          · obtain rfl := Option.some.inj hnext
            simp only [Chained, List.foldl_cons, Event.outcome, htype.1]
            exact ⟨⟨htype.2, hchained⟩, hvalue⟩
          · obtain rfl := Option.some.inj hnext
            simp only [Chained, List.foldl_cons, Event.outcome, hdeleted]
            exact ⟨hchained, hvalue⟩

end Phase

/-- A listener learns the value of an entry from the events of the entry. -/
theorem replay_eq (events : List Event) (entry : Handle) :
    replay events entry =
      (events.filter (·.entry = entry)).foldl (fun _ event => event.outcome) none := by
  induction events using List.reverseRecOn with
  | nil => rfl
  | append_singleton events event ih =>
      have hlast : replay (events ++ [event]) =
          Function.update (replay events) event.entry event.outcome := by
        rw [replay, List.foldl_append]
        rfl
      rw [hlast, List.filter_append, List.foldl_append]
      by_cases hentry : event.entry = entry
      · subst hentry
        rw [Function.update_self, List.filter_cons_of_pos (by simp)]
        rfl
      · rw [Function.update_of_ne (Ne.symm hentry), List.filter_cons_of_neg (by simpa using hentry)]
        exact ih

namespace Storage

/-- The events form lifetimes with chained values, and make up the values that
`get_entry_value` reports. -/
structure Determined (s : Storage) : Prop where
  lifetimes : ∀ entry, InLifetimes (s.eventsOf entry)
  chained : ∀ entry, Chained Value.make (s.eventsOf entry)
  replayed : replay s.pendingEvents = s.getEntryValue

theorem value_phaseAt (s : Storage) (entry : Handle) :
    (s.phaseAt entry).value = s.getEntryValue entry := by
  unfold phaseAt getEntryValue
  cases s.entries.get? entry with
  | none => rfl
  | some data =>
      show data.phase.value = data.view
      unfold StorageEntry.phase StorageEntry.view
      split_ifs <;> rfl

/-- In every run the events determine the storage. -/
theorem determined_runCalls (calls : List Call) : (runCalls calls).Determined where
  lifetimes entry := Phase.inLifetimes_of_ends (Phase.ends_of_follow (told_runCalls calls entry))
  chained entry := (Phase.chained_of_follow (told_runCalls calls entry)).1
  replayed := by
    funext entry
    rw [replay_eq, ← value_phaseAt]
    exact (Phase.chained_of_follow (told_runCalls calls entry)).2

end Storage

end Obsr
