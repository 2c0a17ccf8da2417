/-
# A client that listens

A client whose program creates entries and reads them, but sets and deletes none. Its
storage is a copy of the table of the server: the messages that tell something change the
copy as they say, and nothing else changes it, but that a clock that is not set ahead may
move its times back.
-/

import Obsr.Net.Feed

namespace Obsr.Net

open Obsr.Lib Mirror

/-- A copy after a message: as the message tells, or no newer. -/
def Learned (copy copy' : Copy) (message : OutMessage) : Prop :=
  match message.notice with
  | some notice => copy' = receive copy notice
  | none => copy'.Older copy

namespace NetworkClient

/-- The storage as a copy: the paths of the ids and the registers. -/
def copy (s : NetworkClient) : Copy where
  names := s.storage.pathOfId
  registers := s.storage.registerAt

/-- Nothing is to be sent but requests for the time and for the handshake. -/
structure Listens (τ : Text → ValueType) (s : NetworkClient) : Prop where
  quiet : s.storage.Quiet τ
  queue : ∀ queued ∈ s.queue, Listening queued.message.type

variable {τ : Text → ValueType} {s : NetworkClient} {source : Source}

/-! ## What a message does -/

theorem copy_perform_update (h : s.storage.Quiet τ) {id : EntryId} {path : Text}
    (hname : s.storage.pathOfId id = some path) {value : Value} (hvalue : value.type = τ path)
    {timestamp : ℤ} (htime : timestamp ≠ 0) (now : ℤ) :
    (s.perform (.onEntryUpdated now id value timestamp)).copy =
      Mirror.receive s.copy (.edit id (.write timestamp value)) := by
  have hregisters := h.coherent.registerAt_onEntryUpdated hname
    (fun data hdata => (h.typed path data hdata).fits hvalue) htime now
  have hnames : (s.storage.onEntryUpdated now id value timestamp).1.pathOfId =
      s.storage.pathOfId := funext fun other => Storage.pathOfId_onEntryUpdated ..
  rw [receive_edit (show s.copy.names id = some path from hname)]
  exact (congrArg₂ (Mirror.Copy.mk) hnames hregisters :)

theorem copy_perform_delete (h : s.storage.Quiet τ) {id : EntryId} {path : Text}
    (hname : s.storage.pathOfId id = some path) {timestamp : ℤ} (htime : timestamp ≠ 0)
    (now : ℤ) :
    (s.perform (.onEntryDeleted now id timestamp)).copy =
      Mirror.receive s.copy (.edit id (.erase timestamp)) := by
  have hregisters := h.coherent.registerAt_onEntryDeleted hname htime now
  have hnames : (s.storage.onEntryDeleted now id timestamp).1.pathOfId = s.storage.pathOfId :=
    funext (Storage.sameIds_onEntryDeleted s.storage now id timestamp).pathOfId
  rw [receive_edit (show s.copy.names id = some path from hname)]
  exact (congrArg₂ (Mirror.Copy.mk) hnames hregisters :)

theorem copy_perform_assign (h : s.storage.Quiet τ) {id : EntryId} {path : Text}
    (hroom : s.storage.HasRoom path) :
    (s.perform (.onEntryIdAssigned id path)).copy = Mirror.receive s.copy (.name id path) := by
  obtain ⟨storage, hassign, hnamed⟩ := Storage.onEntryIdAssigned_named h.coherent hroom id
  have hsame := h.coherent.sameTable_onEntryIdAssigned id path
  have hregisters : (s.storage.onEntryIdAssigned id path).1.registerAt = s.storage.registerAt :=
    funext fun other => (hsame other).1
  have hnames : (s.storage.onEntryIdAssigned id path).1.pathOfId =
      (Mirror.receive s.copy (.name id path)).names := by
    funext other
    rw [hassign, hnamed.pathOfId, names_receive]
    rfl
  exact (congrArg₂ (Mirror.Copy.mk) hnames hregisters :)

theorem copy_resync (s : NetworkClient) {clock : Clock} (hclock : 0 ≤ clock.offset) :
    ({ s with clock, storage := s.storage.onClockResync clock } : NetworkClient).copy.Older
      s.copy where
  names := funext fun id => Storage.pathOfId_onClockResync s.storage clock id
  content path := (Storage.registerAt_onClockResync s.storage hclock path).1
  le path := (Storage.registerAt_onClockResync s.storage hclock path).2

theorem older_refl (copy : Copy) : copy.Older copy := ⟨rfl, fun _ => rfl, fun _ => le_rfl⟩

/-- An entry message of the server is applied as it is. -/
theorem learns_handle (h : s.storage.Quiet τ) {message : OutMessage} {data : ParseData}
    (hshown : message.ShownBy data) {notice : Notice} (hnotice : message.notice = some notice)
    (htakes : Takes (FitsType τ) source s.copy notice)
    (hroom : message.type = .entryIdAssign → s.storage.HasRoom message.name) (timeNow : ℤ) :
    (s.handle timeNow message.type data).copy = Mirror.receive s.copy notice ∧
      (s.handle timeNow message.type data).storage.Quiet τ ∧
        (s.handle timeNow message.type data).queue = s.queue := by
  unfold OutMessage.notice at hnotice
  unfold OutMessage.ShownBy at hshown
  unfold handle
  cases htype : message.type <;> rw [htype] at hnotice hshown <;> cases hnotice
  case entryUpdate =>
    obtain ⟨key, hname, ⟨htime, hvalue⟩, -⟩ := htakes
    obtain ⟨hsend, hid, -, hdata⟩ := hshown
    rw [hsend, hid, hdata]
    refine ⟨copy_perform_update h hname hvalue htime _, h.perform (.onEntryUpdated _ _ _ _ ?_), rfl⟩
    intro path hpath
    rwa [← Option.some.inj (hname.symm.trans hpath)]
  case entryDelete =>
    obtain ⟨key, hname, htime, -⟩ := htakes
    obtain ⟨hsend, hid⟩ := hshown
    rw [hsend, hid]
    exact ⟨copy_perform_delete h hname htime _, h.perform (.onEntryDeleted ..), rfl⟩
  case entryIdAssign =>
    obtain ⟨hid, hname⟩ := hshown
    dsimp only
    rw [hid, hname]
    exact ⟨copy_perform_assign h (hroom htype), h.perform (.onEntryIdAssigned ..), rfl⟩

/-- Any other message leaves the copy as it is, but for its times. -/
theorem older_handle (h : s.storage.Quiet τ) {type : MessageType} (hupdate : type ≠ .entryUpdate)
    (hdelete : type ≠ .entryDelete) (hassign : type ≠ .entryIdAssign) (timeNow : ℤ)
    (data : ParseData) (hclock : 0 ≤ (s.handle timeNow type data).clock.offset) :
    (s.handle timeNow type data).copy.Older s.copy ∧
      (s.handle timeNow type data).storage.Quiet τ ∧
        ∀ queued ∈ (s.handle timeNow type data).queue, queued ∈ s.queue ∨
          queued = .own .handshakeReady := by
  have hsame : s.copy.Older s.copy ∧ s.storage.Quiet τ ∧
      ∀ queued ∈ s.queue, queued ∈ s.queue ∨ queued = .own .handshakeReady :=
    ⟨older_refl _, h, fun _ hqueued => .inl hqueued⟩
  cases type with
  | entryUpdate => exact absurd rfl hupdate
  | entryDelete => exact absurd rfl hdelete
  | entryIdAssign => exact absurd rfl hassign
  | timeSyncResponse =>
      have hsync : (s.syncClock timeNow data).copy.Older s.copy ∧
          (s.syncClock timeNow data).storage.Quiet τ ∧
            (s.syncClock timeNow data).queue = s.queue := by
        have hoffset : 0 ≤ (s.syncClock timeNow data).clock.offset := by
          unfold handle at hclock
          dsimp only at hclock
          split_ifs at hclock <;> exact hclock
        revert hoffset
        unfold syncClock
        rcases s.clock.sync timeNow data.timeValue data.sendTime with ⟨accepted, clock⟩
        cases accepted with
        | true => exact fun hoffset => ⟨copy_resync s hoffset, h.onClockResync clock, rfl⟩
        | false => exact fun _ => ⟨older_refl _, h, rfl⟩
      obtain ⟨hcopy, hquiet, hqueue⟩ := hsync
      unfold handle
      dsimp only
      split_ifs
      · refine ⟨hcopy, hquiet, fun queued hqueued => ?_⟩
        rcases List.mem_append.mp hqueued with hold | hnew
        · exact .inl (hqueue ▸ hold)
        · exact .inr (List.mem_singleton.mp hnew)
      · exact ⟨hcopy, hquiet, fun queued hqueued => .inl (hqueue ▸ hqueued)⟩
  | handshakeFinished => exact hsame
  | _ => exact hsame

/-- A packet arrives at a client that listens. -/
theorem Listens.onMessage (h : s.Listens τ) {packet : Packet} (hmade : packet.Made)
    (hreadable : packet.message.notice ≠ none → packet.message.Readable)
    (htakes : ∀ notice, packet.message.notice = some notice →
      Takes (FitsType τ) source s.copy notice)
    (timeNow : ℤ)
    (hroom : packet.message.type = .entryIdAssign → s.storage.HasRoom packet.message.name)
    (hclock : 0 ≤ (s.onMessage timeNow packet.type packet.payload).clock.offset) :
    (s.onMessage timeNow packet.type packet.payload).Listens τ ∧
      Learned s.copy (s.onMessage timeNow packet.type packet.payload).copy packet.message := by
  obtain ⟨htype, -⟩ := hmade.type_eq
  unfold NetworkClient.onMessage at hclock ⊢
  dsimp only at hclock ⊢
  rw [htype] at hclock ⊢
  set parser := s.parser.parse packet.message.type packet.payload
  unfold Learned
  cases hnotice : packet.message.notice with
  | some notice =>
      have hread := hreadable (by rw [hnotice]; exact Option.some_ne_none _)
      have hback := hmade.readsBack hread s.parser
      rw [htype] at hback
      rw [if_pos hback.finishes]
      obtain ⟨hcopy, hquiet, hqueue⟩ := learns_handle (s := { s with parser }) h.quiet
        hback.shows hnotice (htakes notice hnotice) hroom timeNow
      refine ⟨⟨hquiet, ?_⟩, hcopy⟩
      rw [hqueue]
      exact h.queue
  | none =>
      split_ifs at hclock ⊢
      · have hentry : packet.message.type ≠ .entryUpdate ∧ packet.message.type ≠ .entryDelete ∧
            packet.message.type ≠ .entryIdAssign := by
          unfold OutMessage.notice at hnotice
          refine ⟨?_, ?_, ?_⟩ <;> intro htype <;> rw [htype] at hnotice <;> cases hnotice
        obtain ⟨holder, hquiet, hqueue⟩ := older_handle (s := { s with parser }) h.quiet
          hentry.1 hentry.2.1 hentry.2.2 timeNow parser.data hclock
        refine ⟨⟨hquiet, fun queued hqueued => ?_⟩, holder⟩
        rcases hqueue queued hqueued with hold | rfl
        · exact h.queue queued hold
        · exact .inr rfl
      · exact ⟨⟨h.quiet, h.queue⟩, older_refl _⟩

/-! ## What the client does on its own -/

variable {packets : List Packet} {s' : NetworkClient}

theorem clean_of_quiet (h : s.storage.Quiet τ) {handle : Handle} {entry : StorageEntry}
    (hentry : s.storage.entries.get? handle = some entry) : entry.dirty = false :=
  h.clean entry.path entry (h.coherent.entryAt_path hentry)

/-- There is no entry to hand over. -/
theorem dirtyEntries_of_quiet (h : s.storage.Quiet τ) : s.storage.dirtyEntries = [] := by
  refine List.eq_nil_iff_forall_not_mem.mpr fun entry hentry => ?_
  obtain ⟨handle, -, hfilter⟩ := List.mem_filterMap.mp hentry
  obtain ⟨hget, hdirty⟩ := Option.filter_eq_some_iff.mp hfilter
  rw [clean_of_quiet h hget] at hdirty
  cases hdirty

theorem handOverStorage_of_quiet (h : s.storage.Quiet τ) (now : ℤ) :
    s.handOverStorage now = s := by
  unfold handOverStorage
  refine Storage.actOnDirtyEntries_of_step storage withStorage (I := fun t => t = s)
    (fun _ _ => rfl) (fun t handle entry ht hentry hdirty => ?_) rfl
  subst ht
  rw [clean_of_quiet h hentry] at hdirty
  cases hdirty

theorem storage_update_of_quiet (h : s.storage.Quiet τ) (tick : Tick) :
    (s.update tick).storage = s.storage := by
  obtain ⟨-, hstorage, -⟩ := s.requestTimeSync_same tick
  unfold NetworkClient.update
  split_ifs
  · rfl
  · rw [← hstorage] at h ⊢
    generalize (s.requestTimeSync tick).1 = t at h
    unfold advance
    cases t.state with
    | inUse =>
        dsimp only
        rw [handOverStorage_of_quiet h]
        rfl
    | opening =>
        dsimp only
        unfold openAndConnect
        split_ifs <;> rfl
    | _ => rfl

/-- What the client writes asks for the time or for the handshake. -/
theorem Listens.of_moves (h : s.Listens τ) {new : OutMessage → Prop}
    (hmoves : s.Moves s' packets new) (hstorage : s'.storage = s.storage)
    (hnew : ∀ message, new message → Listening message.type) :
    s'.Listens τ ∧ s'.copy = s.copy ∧
      ∀ packet ∈ packets, packet.Made ∧ Listening packet.message.type := by
  have hlistening : ∀ message,
      message ∈ s'.messages ∨ message ∈ packets.map Packet.message → Listening message.type := by
    intro message hmessage
    rcases hmoves.origin hmessage with hold | hbuilt
    · obtain ⟨queued, hqueued, rfl⟩ := List.mem_map.mp hold
      exact h.queue queued hqueued
    · exact hnew message hbuilt
  refine ⟨⟨hstorage ▸ h.quiet, fun queued hqueued => ?_⟩, ?_, fun packet hpacket => ?_⟩
  · exact hlistening _ (.inl (List.mem_map_of_mem hqueued))
  · unfold copy
    rw [hstorage]
  · exact ⟨hmoves.made packet hpacket, hlistening _ (.inr (List.mem_map_of_mem hpacket))⟩

theorem Listens.update (h : s.Listens τ) (tick : Tick) :
    (s.update tick).Listens τ ∧ (s.update tick).copy = s.copy ∧
      ∀ packet ∈ s.written tick, packet.Made ∧ Listening packet.message.type := by
  apply h.of_moves (s.moves_update tick) (storage_update_of_quiet h.quiet tick)
  intro message hbuilt
  rcases hbuilt with rfl | ⟨-, entry, hentry, -⟩
  · exact .inl rfl
  · rw [dirtyEntries_of_quiet h.quiet] at hentry
    cases hentry

theorem Listens.onConnect (h : s.Listens τ) (timeNow : ℤ) (behind : Io.Behind)
    (answers : List Bool) :
    (s.onConnect timeNow behind answers).Listens τ ∧
      (s.onConnect timeNow behind answers).copy = s.copy ∧
        ∀ packet ∈ (MessageQueue.flush behind [.timeSyncRequest (s.clock.now timeNow)]
          answers).2, packet.Made ∧ Listening packet.message.type := by
  have hempty : ({ s with queue := [] } : NetworkClient).Listens τ :=
    ⟨h.quiet, fun _ hqueued => absurd hqueued List.not_mem_nil⟩
  have hmoves := ({ s with queue := [] } : NetworkClient).moves_enqueueImmediate behind
    (.timeSyncRequest (s.clock.now timeNow)) answers
  obtain ⟨queue, hframe, -⟩ := ({ s with queue := [] } : NetworkClient).enqueueImmediate_frame
    behind (.timeSyncRequest (s.clock.now timeNow)) answers
  have hlistening : ∀ message, message = OutMessage.timeSyncRequest (s.clock.now timeNow) →
      Listening message.type := by
    rintro message rfl
    exact .inl rfl
  obtain ⟨hlistens, hcopy, hpackets⟩ := hempty.of_moves hmoves (by rw [hframe]) hlistening
  exact ⟨⟨hlistens.quiet, hlistens.queue⟩, hcopy, hpackets⟩

/-- The program looks an entry up. -/
theorem Listens.getOrCreateEntry (h : s.Listens τ) (path : Text) :
    (s.perform (.getOrCreateEntry path)).Listens τ ∧
      (s.perform (.getOrCreateEntry path)).copy = s.copy := by
  have hsame := h.quiet.coherent.sameTable_getOrCreateEntry path
  refine ⟨⟨h.quiet.perform (.getOrCreateEntry path), h.queue⟩, ?_⟩
  exact congrArg₂ Mirror.Copy.mk
    (funext (Storage.sameIds_getOrCreateEntry h.quiet.coherent path).pathOfId)
    (funext fun other => (hsame other).1)

/-- A client that starts again has forgotten the ids. -/
theorem Listens.start (h : s.Listens τ) :
    s.start.Listens τ ∧
      (s.start.copy = s.copy ∨ s.start.copy = { s.copy with names := fun _ => none }) := by
  unfold NetworkClient.start
  split_ifs
  · refine ⟨⟨h.quiet.perform .clearNetIds, fun _ hqueued => absurd hqueued List.not_mem_nil⟩,
      .inr ?_⟩
    exact congrArg (Mirror.Copy.mk fun _ => none)
      (funext fun other => (Storage.sameTable_clearNetIds s.storage other).1)
  · exact ⟨h, .inl rfl⟩

end NetworkClient

end Obsr.Net
