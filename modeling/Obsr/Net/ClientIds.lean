/-
# Ids of a connection

A server assigns ids anew, and a client may meet another server, or the same one
restarted, on its next connection. This module says on which runs of a client the
ids mean what the current connection says they mean.
-/

import Obsr.Net.NetworkClient
import Obsr.Net.ServerIds

namespace Obsr.Net

open Obsr.Io Obsr.Lib

namespace Session

/-- The connection has assigned the id to the path, and neither of them since. -/
def InForce (session : Session) (id : EntryId) (path : Text) : Prop :=
  (session.assigned.filter fun pair => pair.1 = id || pair.2 = path).getLast? = some (id, path)

instance (session : Session) (id : EntryId) (path : Text) :
    Decidable (session.InForce id path) :=
  inferInstanceAs (Decidable (_ = _))

def assign (session : Session) (id : EntryId) (path : Text) : Session :=
  { session with assigned := session.assigned ++ [(id, path)] }

/-- A new assignment ends those of its id and of its path. -/
theorem inForce_assign (session : Session) (id id' : EntryId) (path path' : Text) :
    (session.assign id path).InForce id' path' ↔
      (id = id' ∧ path = path') ∨ (id ≠ id' ∧ path ≠ path' ∧ session.InForce id' path') := by
  unfold InForce assign
  rw [List.filter_append]
  by_cases hmeets : id = id' ∨ path = path'
  · have hlast : [(id, path)].filter (fun pair => pair.1 = id' || pair.2 = path') =
        [(id, path)] := by
      exact List.filter_cons_of_pos (by simpa using hmeets)
    rw [hlast, List.getLast?_concat, Option.some.injEq, Prod.mk.injEq]
    refine ⟨Or.inl, fun h => h.elim (fun hsame => hsame) fun hold => ?_⟩
    exact absurd hmeets (not_or.mpr ⟨hold.1, hold.2.1⟩)
  · have hnone : [(id, path)].filter (fun pair => pair.1 = id' || pair.2 = path') = [] := by
      exact List.filter_cons_of_neg (by simpa using hmeets)
    obtain ⟨hid, hpath⟩ := not_or.mp hmeets
    rw [hnone, List.append_nil]
    refine ⟨fun h => Or.inr ⟨hid, hpath, h⟩, fun h => ?_⟩
    exact h.elim (fun hsame => absurd hsame.1 hid) fun hold => hold.2.2

end Session

namespace NetworkClient

variable {s : NetworkClient}

/-! ## The statement -/

/-- An id that is in force stands for its path, and every id that was used on the
connection was assigned on it to the path it was used for. -/
structure ScopesIds (s : NetworkClient) : Prop where
  applies : ∀ id path, s.session.InForce id path → s.storage.AppliesAt id path
  assigned : ∀ pair ∈ s.session.used, pair ∈ s.session.assigned

/-- The assignment a message brings, if it is one. -/
def assignment (s : NetworkClient) (type : UInt8) (payload : List UInt8) :
    Option (EntryId × Text) :=
  let parser := s.parser.parse (MessageType.ofByte type) payload
  if MessageType.ofByte type = .entryIdAssign ∧ parser.isFinished then
    some (parser.data.id, parser.data.name)
  else none

/-- The storage takes the ids that are assigned, and a pass over the storage finds no
dirty entry whose id the connection has not assigned to its path. -/
def KeepsIds (s : NetworkClient) : Input → Prop
  | .message _ type payload =>
      ∀ id path, s.assignment type payload = some (id, path) → s.storage.TakesId id path
  | .update _ =>
      s.state = .inUse → ∀ entry ∈ s.storage.dirtyEntries,
        entry.netId = idNotAssigned ∨ (entry.netId, entry.path) ∈ s.session.assigned
  | _ => True

/-! ## Steps without an assignment or a pass -/

/-- The statement, in the terms of `m_ids`, with what it needs of the storage. -/
structure IdsInvariant (s : NetworkClient) : Prop where
  coherent : s.storage.Coherent
  named : ∀ id path, s.session.InForce id path → s.storage.pathOfId id = some path
  assigned : ∀ pair ∈ s.session.used, pair ∈ s.session.assigned

theorem IdsInvariant.scopesIds (h : s.IdsInvariant) : s.ScopesIds where
  applies id path hforce := (h.coherent.appliesAt_iff id path).mpr (h.named id path hforce)
  assigned := h.assigned

theorem IdsInvariant.of_storage (h : s.IdsInvariant) {s' : NetworkClient}
    (hcoherent : s'.storage.Coherent)
    (hids : ∀ id, s'.storage.pathOfId id = s.storage.pathOfId id)
    (hsession : s'.session = s.session) : s'.IdsInvariant where
  coherent := hcoherent
  named id path hforce := by
    rw [hsession] at hforce
    rw [hids]
    exact h.named id path hforce
  assigned := by
    rw [hsession]
    exact h.assigned

theorem IdsInvariant.of_eq (h : s.IdsInvariant) {s' : NetworkClient}
    (hstorage : s'.storage = s.storage) (hsession : s'.session = s.session) :
    s'.IdsInvariant :=
  h.of_storage (hstorage ▸ h.coherent) (fun id => by rw [hstorage]) hsession

/-- A connection starts without ids. -/
theorem idsInvariant_of_noSession {s : NetworkClient} (hcoherent : s.storage.Coherent)
    (hsession : s.session = {}) : s.IdsInvariant where
  coherent := hcoherent
  named id path hforce := by
    rw [hsession] at hforce
    exact absurd hforce (Option.some_ne_none (id, path)).symm
  assigned := by
    rw [hsession]
    exact fun pair hpair => absurd hpair List.not_mem_nil

theorem IdsInvariant.syncClock (h : s.IdsInvariant) (timeNow : ℤ) (data : ParseData) :
    (s.syncClock timeNow data).IdsInvariant := by
  unfold NetworkClient.syncClock
  split
  · exact h.of_storage (h.coherent.onClockResync _)
      (Storage.pathOfId_onClockResync s.storage _) rfl
  · exact h

/-! ## An assignment -/

theorem idsInvariant_assigned (h : s.IdsInvariant) {s' : NetworkClient} {id : EntryId}
    {path : Text} (hstorage : s'.storage = (s.storage.onEntryIdAssigned id path).1)
    (hsession : s'.session = s.session.assign id path) :
    (s.storage.TakesId id path → s'.IdsInvariant) ∧
      (¬ s.storage.TakesId id path → ¬ s'.ScopesIds) := by
  obtain ⟨hothers, htakes⟩ := Storage.pathOfId_onEntryIdAssigned h.coherent id path
  have hcoherent : s'.storage.Coherent := by
    rw [hstorage]
    exact h.coherent.onEntryIdAssigned id path
  constructor
  · intro htaken
    refine ⟨hcoherent, fun id' path' hforce => ?_, fun pair hpair => ?_⟩
    · rw [hstorage]
      rw [hsession, Session.inForce_assign] at hforce
      rcases hforce with ⟨rfl, rfl⟩ | ⟨hid, -, hold⟩
      · exact htakes.mpr htaken
      · rw [hothers id' (Ne.symm hid)]
        exact h.named id' path' hold
    · rw [hsession] at hpair ⊢
      exact List.mem_append_left _ (h.assigned pair hpair)
  · intro htaken hscopes
    refine htaken (htakes.mp ?_)
    rw [← hstorage, ← hcoherent.appliesAt_iff]
    refine hscopes.applies id path ?_
    rw [hsession, Session.inForce_assign]
    exact Or.inl ⟨rfl, rfl⟩

/-- The handler of a message leaves the ids as they are, unless it is an
assignment. -/
theorem IdsInvariant.handle (h : s.IdsInvariant) (timeNow : ℤ) {type : MessageType}
    (data : ParseData) (htype : type ≠ .entryIdAssign) :
    (s.handle timeNow type data).IdsInvariant := by
  cases type with
  | entryUpdate =>
      exact h.of_storage (h.coherent.onEntryUpdated ..)
        (Storage.pathOfId_onEntryUpdated s.storage _ _ _ _) rfl
  | entryDelete =>
      exact h.of_storage (h.coherent.onEntryDeleted ..)
        (Storage.sameIds_onEntryDeleted s.storage _ _ _).pathOfId rfl
  | entryIdAssign => exact absurd rfl htype
  | handshakeFinished => exact h.of_eq rfl rfl
  | timeSyncResponse =>
      have hsynced := h.syncClock timeNow data
      unfold NetworkClient.handle
      simp only
      split_ifs
      · exact hsynced.of_eq rfl rfl
      · exact hsynced.of_eq rfl rfl
  | _ => exact h

theorem idsInvariant_onMessage (h : s.IdsInvariant) (timeNow : ℤ) (type : UInt8)
    (payload : List UInt8) :
    (s.KeepsIds (.message timeNow type payload) →
        (s.onMessage timeNow type payload).IdsInvariant) ∧
      (¬ s.KeepsIds (.message timeNow type payload) →
        ¬ (s.onMessage timeNow type payload).ScopesIds) := by
  have hparsed : IdsInvariant
      { s with parser := s.parser.parse (MessageType.ofByte type) payload } := h.of_eq rfl rfl
  by_cases hassign : MessageType.ofByte type = .entryIdAssign ∧
      (s.parser.parse (MessageType.ofByte type) payload).isFinished = true
  · have hassignment : s.assignment type payload =
        some ((s.parser.parse (MessageType.ofByte type) payload).data.id,
          (s.parser.parse (MessageType.ofByte type) payload).data.name) := if_pos hassign
    have hhandled : s.onMessage timeNow type payload =
        { s with parser := s.parser.parse (MessageType.ofByte type) payload }.handle timeNow
          .entryIdAssign (s.parser.parse (MessageType.ofByte type) payload).data := by
      unfold onMessage
      simp only
      rw [if_pos hassign.2, hassign.1]
    have hstorage : (s.onMessage timeNow type payload).storage =
        (s.storage.onEntryIdAssigned
          (s.parser.parse (MessageType.ofByte type) payload).data.id
          (s.parser.parse (MessageType.ofByte type) payload).data.name).1 := by
      rw [hhandled]
      rfl
    have hsession : (s.onMessage timeNow type payload).session = s.session.assign
        (s.parser.parse (MessageType.ofByte type) payload).data.id
        (s.parser.parse (MessageType.ofByte type) payload).data.name := by
      rw [hhandled]
      rfl
    obtain ⟨hgood, hbad⟩ := idsInvariant_assigned h hstorage hsession
    constructor
    · intro hkeeps
      exact hgood (hkeeps _ _ hassignment)
    · intro hnot
      refine hbad fun htakes => hnot fun id path hsame => ?_
      obtain ⟨rfl, rfl⟩ := Prod.mk.inj (Option.some.inj (hassignment.symm.trans hsame))
      exact htakes
  · have hassignment : s.assignment type payload = none := if_neg hassign
    have hkeeps : s.KeepsIds (.message timeNow type payload) := fun id path hsame =>
      absurd (hassignment.symm.trans hsame) (Option.some_ne_none (id, path)).symm
    refine ⟨fun _ => ?_, fun hnot => absurd hkeeps hnot⟩
    unfold NetworkClient.onMessage
    simp only
    split_ifs with hfinished
    · exact hparsed.handle timeNow _ fun htype => hassign ⟨htype, hfinished⟩
    · exact hparsed

/-! ## A pass over the storage -/

/-- A pass uses the ids of the dirty entries that have one. -/
theorem used_handOverStorage (s : NetworkClient) (now : ℤ) :
    (s.handOverStorage now).session.used = s.session.used ++
      s.storage.dirtyEntries.flatMap fun entry =>
        if entry.netId = idNotAssigned then [] else [(entry.netId, entry.path)] := by
  refine Storage.log_actOnDirtyEntries storage withStorage (handOver now)
    (fun s => s.session.used) _ (fun _ _ => rfl) (fun _ _ => rfl) (fun _ _ => rfl)
    (fun _ _ => rfl) (fun entry s => ?_) s
  show (if _ then _ else _ : Session).used = _
  split_ifs
  · exact (List.append_nil _).symm
  · rfl

theorem handOverStorage_frame (hs : s.storage.Coherent) (now : ℤ) :
    (s.handOverStorage now).storage.Coherent ∧
      (∀ id, (s.handOverStorage now).storage.pathOfId id = s.storage.pathOfId id) ∧
      (s.handOverStorage now).session.assigned = s.session.assigned := by
  refine Storage.actOnDirtyEntries_of_invariant storage withStorage
    (I := fun t => t.storage.Coherent ∧ (∀ id, t.storage.pathOfId id = s.storage.pathOfId id) ∧
      t.session.assigned = s.session.assigned) (fun t handle entry ht _ => ?_)
    (fun t handle ht => ?_) ⟨hs, fun _ => rfl, rfl⟩
  · refine ⟨ht.1, ht.2.1, ?_⟩
    show (if _ then _ else _ : Session).assigned = _
    split_ifs <;> exact ht.2.2
  · refine ⟨ht.1.clearDirty handle, fun id => ?_, ht.2.2⟩
    exact ((Storage.sameIds_clearDirty t.storage handle).pathOfId id).trans (ht.2.1 id)

theorem idsInvariant_handOverStorage (h : s.IdsInvariant) (now : ℤ) :
    ((∀ entry ∈ s.storage.dirtyEntries,
        entry.netId = idNotAssigned ∨ (entry.netId, entry.path) ∈ s.session.assigned) →
      (s.handOverStorage now).IdsInvariant) ∧
    ((s.handOverStorage now).ScopesIds → ∀ entry ∈ s.storage.dirtyEntries,
        entry.netId = idNotAssigned ∨ (entry.netId, entry.path) ∈ s.session.assigned) := by
  obtain ⟨hcoherent, hids, hassigned⟩ := handOverStorage_frame h.coherent now
  have hused := s.used_handOverStorage now
  constructor
  · intro hknown
    refine ⟨hcoherent, fun id path hforce => ?_, fun pair hpair => ?_⟩
    · rw [Session.InForce, hassigned] at hforce
      rw [hids]
      exact h.named id path hforce
    · rw [hassigned]
      rw [hused] at hpair
      rcases List.mem_append.mp hpair with hold | hnew
      · exact h.assigned pair hold
      · obtain ⟨entry, hentry, hmem⟩ := List.mem_flatMap.mp hnew
        split_ifs at hmem with hid
        · exact absurd hmem List.not_mem_nil
        · rw [List.mem_singleton.mp hmem]
          exact (hknown entry hentry).resolve_left hid
  · intro hscopes entry hentry
    refine or_iff_not_imp_left.mpr fun hid => ?_
    rw [← hassigned]
    refine hscopes.assigned _ ?_
    rw [hused]
    refine List.mem_append_right _ (List.mem_flatMap.mpr ⟨entry, hentry, ?_⟩)
    rw [if_neg hid]
    exact List.mem_singleton.mpr rfl

/-- The switch in a tick makes a pass in one state, and in no other state does
anything to the ids. -/
theorem idsInvariant_advance (h : s.IdsInvariant) (tick : Tick) (answers : List Bool) :
    (s.KeepsIds (.update tick) → (s.advance tick answers).IdsInvariant) ∧
      (¬ s.KeepsIds (.update tick) → ¬ (s.advance tick answers).ScopesIds) := by
  have hquiet : s.state ≠ .inUse → (s.advance tick answers).IdsInvariant →
      (s.KeepsIds (.update tick) → (s.advance tick answers).IdsInvariant) ∧
        (¬ s.KeepsIds (.update tick) → ¬ (s.advance tick answers).ScopesIds) :=
    fun hstate hkept =>
      ⟨fun _ => hkept, fun hnot => absurd (fun hinUse => absurd hinUse hstate) hnot⟩
  unfold NetworkClient.advance at *
  cases hstate : s.state with
  | inUse =>
      obtain ⟨hgood, hbad⟩ := idsInvariant_handOverStorage h (s.clock.now tick.timeNow)
      constructor
      · intro hkeeps
        exact (hgood (hkeeps hstate)).of_eq rfl rfl
      · intro hnot hscopes
        exact hnot fun _ => hbad ⟨hscopes.applies, hscopes.assigned⟩
  | opening =>
      rw [hstate] at hquiet
      refine hquiet (by decide) ?_
      show (s.openAndConnect tick).IdsInvariant
      unfold openAndConnect
      split_ifs
      · exact h
      · exact h.of_eq rfl rfl
      · exact h.of_eq rfl rfl
  | _ =>
      rw [hstate] at hquiet
      exact hquiet (by decide) (h.of_eq rfl rfl)

theorem idsInvariant_update (h : s.IdsInvariant) (tick : Tick) :
    (s.KeepsIds (.update tick) → (s.update tick).IdsInvariant) ∧
      (¬ s.KeepsIds (.update tick) → ¬ (s.update tick).ScopesIds) := by
  unfold NetworkClient.update
  split_ifs with hidle
  · refine ⟨fun _ => h, fun hnot => absurd (fun hinUse => ?_) hnot⟩
    rw [hidle] at hinUse
    cases hinUse
  · obtain ⟨queue, running, hframe, -⟩ := s.requestTimeSync_frame tick
    rw [hframe]
    have hrequested : IdsInvariant { s with queue, clockSyncTimer := running } :=
      h.of_eq rfl rfl
    exact idsInvariant_advance hrequested tick _

/-! ## Runs -/

theorem idsInvariant_step (h : s.IdsInvariant) (input : Input) :
    (s.KeepsIds input → (s.step input).IdsInvariant) ∧
      (¬ s.KeepsIds input → ¬ (s.step input).ScopesIds) := by
  cases input with
  | start =>
      refine ⟨fun _ => ?_, fun hnot => absurd trivial hnot⟩
      show (s.start).IdsInvariant
      unfold start
      split_ifs
      · exact idsInvariant_of_noSession h.coherent.clearNetIds rfl
      · exact h
  | stop => exact ⟨fun _ => h.of_eq rfl rfl, fun hnot => absurd trivial hnot⟩
  | connect timeNow behind answers =>
      refine ⟨fun _ => idsInvariant_of_noSession ?_ rfl, fun hnot => absurd trivial hnot⟩
      obtain ⟨queue, hframe, -⟩ := NetworkClient.enqueueImmediate_frame { s with queue := [] }
        behind (.timeSyncRequest (s.clock.now timeNow)) answers
      show (NetworkClient.enqueueImmediate _ _ _ _).1.storage.Coherent
      rw [hframe]
      exact h.coherent
  | close => exact ⟨fun _ => h.of_eq rfl rfl, fun hnot => absurd trivial hnot⟩
  | message timeNow type payload => exact idsInvariant_onMessage h timeNow type payload
  | localOperation timeNow op =>
      refine ⟨fun _ => ?_, fun hnot => absurd trivial hnot⟩
      exact h.of_storage (h.coherent.perform _)
        (NetworkServer.sameIds_operation h.coherent _ op).pathOfId rfl
  | update tick => exact idsInvariant_update h tick

/-- The runs on which ids are those of the connection are the ones whose steps keep
them so. -/
theorem scopesIds_iff_keepsIds (memory : ParseData) (ops : List Storage.Operation)
    (clock : Clock) (inputs : List Input) :
    HoldsThroughout step ScopesIds (new memory (Storage.run ops) clock) inputs ↔
      StepsMeet step KeepsIds (new memory (Storage.run ops) clock) inputs :=
  holdsThroughout_iff_stepsMeet (I := IdsInvariant)
    (fun _ input hs => (idsInvariant_step hs input).1) (fun _ hs => hs.scopesIds)
    (fun _ input hs => (idsInvariant_step hs input).2)
    (idsInvariant_of_noSession (Storage.coherent_run ops) rfl) inputs

/-- Two connections, of which the first assigns the id 0 to `a` and the second to
`b`. -/
def reassignedAndReconnected : List Input :=
  let tick : Tick := ⟨9, false, true, true, fun _ => 0, []⟩
  [.start, .update tick, .connect 1 (fun _ => 0) [true], .message 2 8 (List.replicate 16 0),
    .message 3 4 [0, 0, 1, 97], .message 4 5 [], .close,
    .update tick, .connect 5 (fun _ => 0) [true], .message 6 4 [0, 0, 1, 98]]

/-- `m_ids` keeps what it knew the id for, so that an update of `b` is made at
`a`. -/
theorem not_scopesIds_reassignedAndReconnected :
    ¬ ∀ (memory : ParseData) (ops : List Storage.Operation) (clock : Clock)
      (inputs : List Input),
      HoldsThroughout step ScopesIds (new memory (Storage.run ops) clock) inputs := by
  intro h
  let last := reassignedAndReconnected.foldl step
    (new ⟨0, 0, [], 0, Value.make, 0⟩ (Storage.run []) {})
  have hlast : last.ScopesIds := (h _ [] {} reassignedAndReconnected).last
  have hforce : last.session.InForce 0 [98] := by decide +kernel
  obtain ⟨entry, hpath, hupdated, -⟩ := hlast.applies 0 [98] hforce
  have hentry : last.storage.paths.find? [98] = some 1 := by decide +kernel
  obtain rfl := Option.some.inj (hpath.symm.trans hentry)
  have hshows := congrArg (fun result => result.1.getEntryValue 1)
    (hupdated 7 (Value.makeInt32 7) 7)
  revert hshows
  decide +kernel

end NetworkClient

end Obsr.Net
