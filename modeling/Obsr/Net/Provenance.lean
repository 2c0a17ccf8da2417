/-
# Where paths and values come from

No part of the system makes anything up. A path that is found in a storage, in a queue or
on a connection was named by a program somewhere, and a value was set by one: neither the
codec nor what a parser still holds of an older message, neither an id that stands for
another path at the other end nor a message that was late brings in anything else.
-/

import Obsr.Net.Contract
import Obsr.Net.HandshakeStep
import Obsr.Net.Replication
import Obsr.Storage.Provenance

namespace Obsr.Net

open Obsr.Io Obsr.Lib

variable {P : Text → Prop} {Q : Value → Prop}

/-! ## Messages and packets -/

namespace OutMessage

/-- The message with the times that its bytes hold. -/
def wrapped (message : OutMessage) : OutMessage :=
  { message with
    sendTime := (Int64.ofInt message.sendTime).toInt
    time := (Int64.ofInt message.time).toInt }

theorem serializer_wrapped (message : OutMessage) (behind : Behind) :
    message.wrapped.serializer behind = message.serializer behind := by
  have hcount : ∀ time, count (Int64.ofInt time).toInt = count time := fun time => by
    unfold count
    rw [Int64.ofInt_toInt]
  unfold serializer wrapped
  cases message.type <;>
    simp only [MessageSerializer.entryCreated, MessageSerializer.entryUpdated,
      MessageSerializer.entryDeleted, MessageSerializer.timeSyncRequest,
      MessageSerializer.timeSyncResponse, hcount]

theorem inTimeRange_toInt (time : Int64) : InTimeRange time.toInt :=
  ⟨time.le_toInt, time.toInt_lt⟩

/-- What a message carries is known. -/
structure Genuine (P : Text → Prop) (Q : Value → Prop) (message : OutMessage) : Prop where
  name : message.type = .entryCreate ∨ message.type = .entryIdAssign → P message.name
  value : Q message.value

/-- Only two kinds of messages name a path. -/
theorem Genuine.of_value {message : OutMessage}
    (htype : message.type ≠ .entryCreate ∧ message.type ≠ .entryIdAssign)
    (hvalue : Q message.value) : message.Genuine P Q :=
  ⟨fun hnames => (hnames.elim htype.1 htype.2).elim, hvalue⟩

end OutMessage

namespace Packet

/-- The packet was made of a message that carries nothing unknown. -/
def Genuine (P : Text → Prop) (Q : Value → Prop) (packet : Packet) : Prop :=
  packet.Made ∧ packet.message.Genuine P Q

variable {packet : Packet}

/-- The parser shows the name and the value of a packet, whatever the times in it. -/
theorem Made.shows (h : packet.Made) (hvalue : Portable packet.message.value)
    (parser : MessageParser) :
    packet.message.wrapped.ShownBy (parser.parse (.ofByte packet.type) packet.payload).data := by
  obtain ⟨behind, hhands⟩ := h
  have hmade : Made ⟨packet.message.wrapped, packet.type, packet.payload⟩ := by
    refine ⟨behind, ?_⟩
    rw [MessageQueue.hands_iff, OutMessage.serializer_wrapped]
    exact MessageQueue.hands_iff.mp hhands
  exact (hmade.parses hvalue parser).2.2 (OutMessage.inTimeRange_toInt _)
    (OutMessage.inTimeRange_toInt _)

end Packet

/-! ## The server -/

namespace ServerClient

/-- The queue of a client has nothing that is unknown. -/
def Genuine (P : Text → Prop) (Q : Value → Prop) (record : ServerClient) : Prop :=
  ∀ message ∈ record.queue, message.Genuine P Q

variable {record : ServerClient}

theorem Genuine.enqueue (h : record.Genuine P Q) (mapped : Option Text) {message : OutMessage}
    (hmessage : message.Genuine P Q) : (record.enqueue mapped message).Genuine P Q := by
  intro other hother
  rcases List.mem_append.mp hother with hold | hnew
  · exact h other hold
  · rw [List.mem_singleton.mp hnew]
    exact hmessage

theorem Genuine.enqueueImmediate (h : record.Genuine P Q) (mapped : Option Text)
    {message : OutMessage} (hmessage : message.Genuine P Q) (written : Bool) :
    (record.enqueueImmediate mapped message written).Genuine P Q := by
  cases written with
  | true => exact h
  | false =>
      intro other hother
      rcases List.mem_cons.mp hother with rfl | hold
      · exact hmessage
      · exact h other hold

theorem Genuine.publish (h : record.Genuine P Q) (hmake : Q Value.make) (mapped : Option Text)
    (id : EntryId) {name : Text} (hname : P name) : (record.publish mapped id name).Genuine P Q :=
  h.enqueue mapped ⟨fun _ => hname, hmake⟩

/-- Writing only takes messages away. -/
theorem Genuine.update (h : record.Genuine P Q) (takes : ℕ) :
    (record.update takes).Genuine P Q := by
  intro message hmessage
  have hleft : (record.update takes).queue = record.queue.drop takes :=
    MessageQueue.process_count record.queue takes
  rw [hleft] at hmessage
  exact h message (List.mem_of_mem_drop hmessage)

end ServerClient

/-- No client is sent anything that is unknown. -/
def GenuineQueues (P : Text → Prop) (Q : Value → Prop)
    (clients : OrderedMap ClientId ServerClient) : Prop :=
  ∀ id record, clients.find? id = some record → record.Genuine P Q

namespace GenuineQueues

variable {clients : OrderedMap ClientId ServerClient}

theorem mapValues (h : GenuineQueues P Q clients) {f : ClientId → ServerClient → ServerClient}
    (hf : ∀ id record, record.Genuine P Q → (f id record).Genuine P Q) :
    GenuineQueues P Q (clients.mapValues f) := by
  intro id record hrecord
  rw [OrderedMap.find?_mapValues] at hrecord
  obtain ⟨old, hold, rfl⟩ := Option.map_eq_some_iff.mp hrecord
  exact hf id old (h id old hold)

theorem modify (h : GenuineQueues P Q clients) (changed : ClientId)
    {f : ServerClient → ServerClient}
    (hf : ∀ record, record.Genuine P Q → (f record).Genuine P Q) :
    GenuineQueues P Q (clients.modify changed f) := by
  intro id record hrecord
  rw [OrderedMap.find?_modify] at hrecord
  split_ifs at hrecord
  · obtain ⟨old, hold, rfl⟩ := Option.map_eq_some_iff.mp hrecord
    exact hf old (h id old hold)
  · exact h id record hrecord

end GenuineQueues

namespace NetworkServer

/-- The server has nothing that is unknown. -/
structure Genuine (P : Text → Prop) (Q : Value → Prop) (s : NetworkServer) : Prop where
  storage : s.storage.Genuine P Q
  names : ∀ id name, s.idAssignments.find? id = some name → P name
  queues : GenuineQueues P Q s.clients

namespace Genuine

variable {s : NetworkServer}

theorem operation (h : s.Genuine P Q) (hmake : Q Value.make) {op : Storage.Operation}
    (hop : op.Genuine P Q) : (s.withStorage (s.storage.perform op)).Genuine P Q :=
  ⟨h.storage.perform hmake hop, h.names, h.queues⟩

theorem assignIdToEntry (h : s.Genuine P Q) (hmake : Q Value.make) {name : Text}
    (hname : P name) : (s.assignIdToEntry name).1.Genuine P Q where
  storage := by
    have hop : (Storage.Operation.onEntryIdAssigned s.nextEntryId name).Genuine P Q := hname
    exact h.storage.perform hmake hop
  names id other hother := by
    have hfind : (s.idAssignments.emplace s.nextEntryId name).find? id = some other := hother
    rw [OrderedMap.find?_emplace] at hfind
    split_ifs at hfind
    · rcases hold : s.idAssignments.find? s.nextEntryId with _ | old <;> rw [hold] at hfind
      · exact Option.some.inj hfind ▸ hname
      · exact Option.some.inj hfind ▸ h.names s.nextEntryId old hold
    · exact h.names id other hfind
  queues := h.queues

/-- The messages of a dirty entry. -/
theorem entryMessage {entry : StorageEntry} (hentry : entry.Genuine P Q) (hmake : Q Value.make)
    (now : ℤ) (id : EntryId) : (NetworkServer.entryMessage now entry id).Genuine P Q := by
  unfold NetworkServer.entryMessage
  split_ifs
  · exact .of_value ⟨nofun, nofun⟩ hmake
  · exact .of_value ⟨nofun, nofun⟩ hentry.2

theorem publishDirty (h : s.Genuine P Q) (hmake : Q Value.make) {entry : StorageEntry}
    (hentry : entry.Genuine P Q) (now : ℤ) :
    (NetworkServer.publishDirty now entry s).2.Genuine P Q := by
  have hassigned : (s.idForEntry entry).1.Genuine P Q := by
    unfold idForEntry
    split_ifs
    · exact h.assignIdToEntry hmake hentry.1
    · exact h
  refine ⟨hassigned.storage, hassigned.names, ?_⟩
  rw [clients_publishDirty]
  apply h.queues.mapValues
  intro id record hrecord
  have hmessage := entryMessage hentry hmake now (s.idForEntry entry).2
  dsimp only
  split_ifs
  · exact hrecord.enqueue _ hmessage
  · exact (hrecord.publish hmake _ _ hentry.1).enqueue _ hmessage

theorem publishUpdates (h : s.Genuine P Q) (hmake : Q Value.make) (now : ℤ) :
    (s.publishUpdates now).Genuine P Q :=
  Storage.actOnDirtyEntries_of_invariant NetworkServer.storage withStorage
    (fun _ handle entry ht hentry => ht.publishDirty hmake (ht.storage.entries handle entry hentry)
      now)
    (fun t handle ht => by
      have hop : (Storage.Operation.clearDirty handle).Genuine P Q := trivial
      exact ht.operation hmake hop) h

theorem updateWith (h : s.Genuine P Q) (hmake : Q Value.make) (now : ℤ) (opened : Bool)
    (behind : Behind) (answers : ClientId → List Bool) :
    (s.updateWith now opened behind answers).Genuine P Q ∧
      ∀ id, ∀ packet ∈ (s.written now behind answers id).2, packet.Genuine P Q := by
  have hpublished := h.publishUpdates hmake now
  constructor
  · unfold NetworkServer.updateWith NetworkServer.update
    cases s.state with
    | opening =>
        dsimp only
        split_ifs
        · exact ⟨h.storage, h.names, h.queues⟩
        · exact h
    | inUse =>
        dsimp only
        split_ifs
        · exact h
        · exact ⟨hpublished.storage, hpublished.names,
            hpublished.queues.mapValues fun _ _ hrecord => hrecord.update _⟩
  · intro id packet hpacket
    unfold written at hpacket
    cases hstate : s.state with
    | opening =>
        rw [hstate] at hpacket
        cases hpacket
    | inUse =>
        rw [hstate] at hpacket
        obtain ⟨hmade, hqueue⟩ := MessageQueue.made_flush hpacket
        refine ⟨hmade, ?_⟩
        unfold queueOf at hqueue
        cases hrecord : (s.publishUpdates now).clients.find? id with
        | none =>
            rw [hrecord] at hqueue
            cases hqueue
        | some record =>
            rw [hrecord] at hqueue
            exact hpublished.queues id record hrecord packet.message hqueue

theorem onConnect (h : s.Genuine P Q) (id : ClientId) : (s.onConnect id).Genuine P Q := by
  refine ⟨h.storage, h.names, ?_⟩
  refine GenuineQueues.modify (fun other record hrecord => ?_) id fun _ hrecord => hrecord
  rw [OrderedMap.find?_emplace] at hrecord
  split_ifs at hrecord
  · rcases hold : s.clients.find? id with _ | old <;> rw [hold] at hrecord
    · exact Option.some.inj hrecord ▸ fun _ hmessage => absurd hmessage List.not_mem_nil
    · exact Option.some.inj hrecord ▸ h.queues id old hold
  · exact h.queues other record hrecord

theorem onDisconnect (h : s.Genuine P Q) (id : ClientId) : (s.onDisconnect id).Genuine P Q := by
  refine ⟨h.storage, h.names, fun other record hrecord => ?_⟩
  have hfind : (s.clients.erase id).find? other = some record := hrecord
  rw [OrderedMap.find?_erase] at hfind
  split_ifs at hfind
  exact h.queues other record hfind

theorem onClose (h : s.Genuine P Q) : s.onClose.Genuine P Q :=
  ⟨h.storage, h.names, fun _ _ hrecord => by cases hrecord⟩

/-! ## A message arrives -/

theorem createEntry (h : s.Genuine P Q) (hmake : Q Value.make) (now : ℤ) (sender : ClientId)
    (id : EntryId) {data : ParseData} (hname : P data.name) (hvalue : Q data.value) :
    (s.createEntry now sender id data).Genuine P Q := by
  have hop : (Storage.Operation.onEntryCreated now id data.name data.value
      data.sendTime).Genuine P Q := ⟨hname, hvalue⟩
  refine ⟨h.storage.perform hmake hop, h.names, ?_⟩
  apply h.queues.mapValues
  intro other record hrecord
  split_ifs
  · exact hrecord
  · exact (hrecord.publish hmake _ _ hname).enqueue _
      (.of_value ⟨nofun, nofun⟩ hvalue)

theorem onEntryCreate (h : s.Genuine P Q) (hmake : Q Value.make) (now : ℤ) (sender : ClientId)
    {data : ParseData} (hname : P data.name) (hvalue : Q data.value) :
    (s.onEntryCreate now sender data).Genuine P Q := by
  unfold NetworkServer.onEntryCreate
  split_ifs
  · have hassigned := h.assignIdToEntry hmake hname
    rcases hresult : s.assignIdToEntry data.name with ⟨t, _ | id⟩ <;> rw [hresult] at hassigned
    · exact hassigned
    · exact hassigned.createEntry hmake now sender id hname hvalue
  · exact h.createEntry hmake now sender data.id hname hvalue

theorem relay (h : s.Genuine P Q) {message : OutMessage} (hmessage : message.Genuine P Q)
    (sender : ClientId) : (s.enqueueMessageForClients message sender).Genuine P Q := by
  refine ⟨h.storage, h.names, h.queues.mapValues fun id record hrecord => ?_⟩
  split_ifs
  · exact hrecord
  · exact hrecord.enqueue _ hmessage

/-- The handshake tells a client of the paths that have ids, and of their values. -/
theorem publishAssignments (h : s.Genuine P Q) (hmake : Q Value.make) (now : ℤ)
    (assignments : List (EntryId × Text)) (hnames : ∀ assignment ∈ assignments, P assignment.2)
    {record : ServerClient} (hrecord : record.Genuine P Q) :
    (assignments.foldl (publishAssignment s.storage now) record).Genuine P Q := by
  induction assignments generalizing record with
  | nil => exact hrecord
  | cons assignment assignments ih =>
      obtain ⟨hname, hothers⟩ := List.forall_mem_cons.mp hnames
      apply ih hothers
      unfold publishAssignment
      dsimp only
      split_ifs
      · exact hrecord
      · have hpublished :=
          hrecord.publish hmake (s.storage.pathOfId assignment.1) assignment.1 hname
        split
        case h_1 => exact hpublished
        case h_2 value hfound =>
          exact hpublished.enqueue _
            (.of_value ⟨nofun, nofun⟩ (h.storage.getEntryValueFromId hfound))

theorem onMessage (h : s.Genuine P Q) (hmake : Q Value.make) (hportable : ∀ value, Q value →
    Portable value) (now : ℤ) (sender : ClientId) {packet : Packet} (hpacket : packet.Genuine P Q)
    (written : Bool) :
    (s.onMessage now sender packet.type packet.payload written).Genuine P Q := by
  have hshows := hpacket.1.shows (hportable _ hpacket.2.value) s.parser
  have hname := hpacket.2.name
  have hvalue := hpacket.2.value
  unfold NetworkServer.onMessage
  dsimp only
  split_ifs
  case neg => exact ⟨h.storage, h.names, h.queues⟩
  unfold OutMessage.ShownBy OutMessage.wrapped at hshows
  dsimp only at hshows
  rw [hpacket.1.type_eq.1] at hshows ⊢
  set parser := s.parser.parse packet.message.type packet.payload
  have hparsed : ({ s with parser } : NetworkServer).Genuine P Q :=
    ⟨h.storage, h.names, h.queues⟩
  cases htype : packet.message.type with
  | entryCreate =>
      rw [htype] at hshows hname
      obtain ⟨-, hdata, -, hshown⟩ := hshows
      exact hparsed.onEntryCreate hmake now sender (hdata ▸ hname (.inl rfl)) (hshown ▸ hvalue)
  | entryUpdate =>
      rw [htype] at hshows
      obtain ⟨-, -, -, hshown⟩ := hshows
      have hset : Q parser.data.value := hshown ▸ hvalue
      have hop : (Storage.Operation.onEntryUpdated now parser.data.id parser.data.value
          parser.data.sendTime).Genuine P Q := hset
      have hmessage : (OutMessage.entryUpdate parser.data.sendTime parser.data.id
          parser.data.value).Genuine P Q := .of_value ⟨nofun, nofun⟩ hset
      exact (hparsed.operation hmake hop).relay hmessage sender
  | entryDelete =>
      have hop : (Storage.Operation.onEntryDeleted now parser.data.id
          parser.data.sendTime).Genuine P Q := trivial
      have hmessage : (OutMessage.entryDeleted parser.data.sendTime
          parser.data.id).Genuine P Q := .of_value ⟨nofun, nofun⟩ hmake
      exact (hparsed.operation hmake hop).relay hmessage sender
  | timeSyncRequest =>
      refine ⟨h.storage, h.names, h.queues.modify sender fun record hrecord => ?_⟩
      have hmessage : (OutMessage.timeSyncResponse now parser.data.sendTime).Genuine P Q :=
        .of_value ⟨nofun, nofun⟩ hmake
      exact hrecord.enqueueImmediate _ hmessage written
  | handshakeReady =>
      refine ⟨h.storage, h.names, h.queues.modify sender fun record hrecord => ?_⟩
      have hnames : ∀ assignment ∈ s.idAssignments.entries, P assignment.2 :=
        fun assignment hmem => h.names assignment.1 assignment.2
          ((s.idAssignments.mem_entries_iff ..).mp hmem)
      exact (h.publishAssignments hmake now _ hnames hrecord).enqueue (s.storage.pathOfId 0)
        (.of_value ⟨nofun, nofun⟩ hmake)
  | _ => exact hparsed

end Genuine

end NetworkServer

/-! ## A client -/

namespace NetworkClient

/-- The client has nothing that is unknown. -/
structure Genuine (P : Text → Prop) (Q : Value → Prop) (s : NetworkClient) : Prop where
  storage : s.storage.Genuine P Q
  queue : ∀ message ∈ s.messages, message.Genuine P Q

namespace Genuine

variable {s s' : NetworkClient}

/-- Messages that move bring in what is built. -/
theorem of_moves (h : s.Genuine P Q) {packets : List Packet} {new : OutMessage → Prop}
    (hmoves : s.Moves s' packets new) (hstorage : s'.storage.Genuine P Q)
    (hnew : ∀ message, new message → message.Genuine P Q) :
    s'.Genuine P Q ∧ ∀ packet ∈ packets, packet.Genuine P Q := by
  have hall : ∀ message, message ∈ s'.messages ∨ message ∈ packets.map Packet.message →
      message.Genuine P Q := fun message hmessage =>
    (hmoves.origin hmessage).elim (h.queue message) (hnew message)
  exact ⟨⟨hstorage, fun message hmessage => hall message (.inl hmessage)⟩, fun packet hpacket =>
    ⟨hmoves.made packet hpacket, hall _ (.inr (List.mem_map_of_mem hpacket))⟩⟩

theorem perform (h : s.Genuine P Q) (hmake : Q Value.make) {op : Storage.Operation}
    (hop : op.Genuine P Q) : (s.perform op).Genuine P Q :=
  ⟨h.storage.perform hmake hop, h.queue⟩

theorem start (h : s.Genuine P Q) (hmake : Q Value.make) : s.start.Genuine P Q := by
  have hop : Storage.Operation.clearNetIds.Genuine P Q := trivial
  unfold NetworkClient.start
  split_ifs
  · exact ⟨h.storage.perform hmake hop, fun _ hmessage => absurd hmessage List.not_mem_nil⟩
  · exact h

/-- The messages of a dirty entry. -/
theorem entryMessage {entry : StorageEntry} (hentry : entry.Genuine P Q) (hmake : Q Value.make)
    (now : ℤ) : (NetworkClient.entryMessage now entry).Genuine P Q := by
  unfold NetworkClient.entryMessage
  split_ifs
  · exact ⟨fun _ => hentry.1, hentry.2⟩
  · exact .of_value ⟨nofun, nofun⟩ hmake
  · exact .of_value ⟨nofun, nofun⟩ hentry.2

theorem onConnect (h : s.Genuine P Q) (hmake : Q Value.make) (timeNow : ℤ) (behind : Behind)
    (answers : List Bool) :
    (s.onConnect timeNow behind answers).Genuine P Q ∧
      ∀ packet ∈ (MessageQueue.flush behind [.timeSyncRequest (s.clock.now timeNow)] answers).2,
        packet.Genuine P Q := by
  have hempty : ({ s with queue := [] } : NetworkClient).Genuine P Q :=
    ⟨h.storage, fun _ hmessage => absurd hmessage List.not_mem_nil⟩
  have hmoves := ({ s with queue := [] } : NetworkClient).moves_enqueueImmediate behind
    (.timeSyncRequest (s.clock.now timeNow)) answers
  obtain ⟨queue, hframe, -⟩ := ({ s with queue := [] } : NetworkClient).enqueueImmediate_frame
    behind (.timeSyncRequest (s.clock.now timeNow)) answers
  have hrequest : ∀ message, message = OutMessage.timeSyncRequest (s.clock.now timeNow) →
      message.Genuine P Q := by
    rintro message rfl
    exact .of_value ⟨nofun, nofun⟩ hmake
  obtain ⟨hclient, hpackets⟩ := hempty.of_moves hmoves (by rw [hframe]; exact h.storage) hrequest
  exact ⟨⟨hclient.storage, hclient.queue⟩, hpackets⟩

theorem storage_update (h : s.storage.Genuine P Q) (hmake : Q Value.make) (tick : Tick) :
    (s.update tick).storage.Genuine P Q := by
  obtain ⟨-, hstorage, -⟩ := s.requestTimeSync_same tick
  unfold NetworkClient.update
  split_ifs
  · exact h
  · rw [← hstorage] at h
    generalize (s.requestTimeSync tick).1 = t at h
    unfold advance
    cases t.state with
    | inUse =>
        have hop : ∀ handle, (Storage.Operation.clearDirty handle).Genuine P Q :=
          fun _ => trivial
        exact Storage.actOnDirtyEntries_of_invariant NetworkClient.storage withStorage
          (I := fun t => t.storage.Genuine P Q) (fun _ _ _ ht _ => ht)
          (fun _ handle ht => ht.perform hmake (hop handle)) h
    | opening =>
        dsimp only
        unfold openAndConnect
        split_ifs <;> exact h
    | _ => exact h

theorem update (h : s.Genuine P Q) (hmake : Q Value.make) (tick : Tick) :
    (s.update tick).Genuine P Q ∧ ∀ packet ∈ s.written tick, packet.Genuine P Q := by
  apply h.of_moves (s.moves_update tick) (storage_update h.storage hmake tick)
  intro message hbuilt
  rcases hbuilt with rfl | ⟨-, entry, hentry, rfl⟩
  · exact .of_value ⟨nofun, nofun⟩ hmake
  · exact entryMessage (h.storage.dirtyEntries hentry) hmake _

theorem syncClock (h : s.Genuine P Q) (timeNow : ℤ) (data : ParseData) :
    (s.syncClock timeNow data).Genuine P Q := by
  unfold NetworkClient.syncClock
  split
  · exact ⟨h.storage.onClockResync _, h.queue⟩
  · exact h

theorem onMessage (h : s.Genuine P Q) (hmake : Q Value.make) (hportable : ∀ value, Q value →
    Portable value) (timeNow : ℤ) {packet : Packet} (hpacket : packet.Genuine P Q) :
    (s.onMessage timeNow packet.type packet.payload).Genuine P Q := by
  have hshows := hpacket.1.shows (hportable _ hpacket.2.value) s.parser
  have hname := hpacket.2.name
  have hvalue := hpacket.2.value
  unfold NetworkClient.onMessage
  dsimp only
  split_ifs
  case neg => exact ⟨h.storage, h.queue⟩
  unfold OutMessage.ShownBy OutMessage.wrapped at hshows
  dsimp only at hshows
  rw [hpacket.1.type_eq.1] at hshows ⊢
  set parser := s.parser.parse packet.message.type packet.payload
  have hparsed : ({ s with parser } : NetworkClient).Genuine P Q := ⟨h.storage, h.queue⟩
  cases htype : packet.message.type with
  | entryUpdate =>
      rw [htype] at hshows
      obtain ⟨-, -, -, hshown⟩ := hshows
      have hop : (Storage.Operation.onEntryUpdated (s.clock.now timeNow) parser.data.id
          parser.data.value parser.data.sendTime).Genuine P Q := by
        rw [hshown]
        exact hvalue
      exact hparsed.perform hmake hop
  | entryDelete =>
      have hop : (Storage.Operation.onEntryDeleted (s.clock.now timeNow) parser.data.id
          parser.data.sendTime).Genuine P Q := trivial
      exact hparsed.perform hmake hop
  | entryIdAssign =>
      rw [htype] at hshows hname
      have hop : (Storage.Operation.onEntryIdAssigned parser.data.id
          parser.data.name).Genuine P Q := by
        rw [hshows.2]
        exact hname (.inr rfl)
      have hassigned := hparsed.perform hmake hop
      exact ⟨hassigned.storage, hassigned.queue⟩
  | timeSyncResponse =>
      have hsynced := hparsed.syncClock timeNow parser.data
      unfold NetworkClient.handle
      dsimp only
      split_ifs
      · refine ⟨hsynced.storage, fun message hmessage => ?_⟩
        unfold messages enqueue at hmessage
        rw [List.map_append] at hmessage
        rcases List.mem_append.mp hmessage with hold | hnew
        · exact hsynced.queue message hold
        · rw [List.mem_singleton.mp hnew]
          exact .of_value ⟨nofun, nofun⟩ hmake
      · exact ⟨hsynced.storage, hsynced.queue⟩
  | handshakeFinished => exact ⟨h.storage, h.queue⟩
  | _ => exact hparsed

end Genuine

end NetworkClient

/-! ## The system -/

/-- Everybody has what is known, and sends nothing else. -/
theorem contract_genuine (hmake : Q Value.make) (hportable : ∀ value, Q value → Portable value) :
    Contract (fun op => ∀ now, (op.operation now).Genuine P Q) (NetworkServer.Genuine P Q)
      (NetworkClient.Genuine P Q) (Packet.Genuine P Q) (Packet.Genuine P Q) where
  arrives h := h
  serverOperation now _ h hop := h.operation hmake (hop now)
  serverUpdate now opened behind answers h := h.updateWith hmake now opened behind answers
  onClose h := h.onClose
  onConnect id h := h.onConnect id
  onDisconnect id h := h.onDisconnect id
  onMessage {s} now id packet behind written h hpacket := by
    refine ⟨h.onMessage hmake hportable now id hpacket written, fun reply hreply => ?_⟩
    obtain ⟨hmade, sendTime, hmessage⟩ := s.made_answer hreply
    refine ⟨hmade, ?_⟩
    rw [hmessage]
    exact .of_value ⟨nofun, nofun⟩ hmake
  start h := h.start hmake
  stop h := ⟨h.storage, h.queue⟩
  operation now _ h hop := h.perform hmake (hop now)
  connect timeNow behind answers h := h.onConnect hmake timeNow behind answers
  close h := ⟨h.storage, h.queue⟩
  update tick h := h.update hmake tick
  message timeNow _ h hpacket := h.onMessage hmake hportable timeNow hpacket

namespace System

variable {ι : Type} [DecidableEq ι]

/-- What a storage shows, of the server or of a client: a path that some program has looked
up, and a value that some program has set, or none. No packets come in place of others. -/
theorem called_of_viewAt (memories : Option ι → ParseData) (reading : ℤ) (clocks : ι → Clock)
    (inputs : List (Input ι))
    (hgarbled : inputs.flatMap Input.garbled = [])
    (hportable : ∀ entry value, .setEntryValue entry value ∈ inputs.filterMap Input.called →
      Portable value) (path : Text) (value : Value) :
    let s := (System.new (memories none) Storage.new reading fun n =>
      .new (memories (some n)) Storage.new (clocks n)).run inputs
    (s.server.storage.viewAt path = some value ∨
        ∃ n, (s.nodes n).client.storage.viewAt path = some value) →
      .getOrCreateEntry path ∈ inputs.filterMap Input.called ∧
        (value = Value.make ∨
          ∃ entry, .setEntryValue entry value ∈ inputs.filterMap Input.called) := by
  intro s hshown
  set P : Text → Prop := fun path => .getOrCreateEntry path ∈ inputs.filterMap Input.called
  set Q : Value → Prop := fun value => value = Value.make ∨
    ∃ entry, .setEntryValue entry value ∈ inputs.filterMap Input.called
  have hmake : Q Value.make := .inl rfl
  have hknown : ∀ value, Q value → Portable value := by
    rintro value (rfl | ⟨entry, hset⟩)
    · exact portable_make
    · exact hportable entry value hset
  have hcalls : ∀ op ∈ inputs.filterMap Input.called, ∀ now,
      (op.operation now).Genuine P Q := by
    intro op hop now
    cases op with
    | getOrCreateEntry path => exact hop
    | setEntryValue entry value => exact .inr ⟨entry, hop⟩
    | _ => trivial
  have hserver : (NetworkServer.start (memories none) Storage.new).Genuine P Q := by
    have hop : Storage.Operation.clearNetIds.Genuine P Q := trivial
    exact ⟨Storage.genuine_new.perform hmake hop, fun _ _ hname => (by cases hname),
      fun _ _ hrecord => (by cases hrecord)⟩
  have hclients : ∀ n, (NetworkClient.new (memories (some n)) Storage.new
      (clocks n)).Genuine P Q := fun n =>
    ⟨Storage.genuine_new, fun _ hmessage => absurd hmessage List.not_mem_nil⟩
  have hrun : s.Fulfilled (NetworkServer.Genuine P Q) (NetworkClient.Genuine P Q)
      (Packet.Genuine P Q) (Packet.Genuine P Q) :=
    (fulfilled_new hserver hclients).run (contract_genuine hmake hknown) hcalls fun _ hpacket =>
      absurd (hgarbled ▸ hpacket) List.not_mem_nil
  rcases hshown with hserver | ⟨n, hclient⟩
  · exact hrun.server.storage.viewAt hserver
  · exact (hrun.nodes n).client.storage.viewAt hclient

/-- The path and the value that the client shows were those of the server's program. -/
theorem called_delivered :
    .getOrCreateEntry [97] ∈ (served ++ delivered).filterMap Input.called ∧
      (Value.makeInt32 7 = Value.make ∨
        ∃ entry, .setEntryValue entry (Value.makeInt32 7) ∈
          (served ++ delivered).filterMap Input.called) := by
  have hcalled : (served ++ delivered).filterMap Input.called =
      [.getOrCreateEntry [97], .setEntryValue 0 (Value.makeInt32 7)] := rfl
  have hportable : ∀ entry value, .setEntryValue entry value ∈
      (served ++ delivered).filterMap Input.called → Portable value := by
    intro entry value hset
    rw [hcalled] at hset
    rcases List.mem_cons.mp hset with hfirst | hsecond
    · cases hfirst
    · cases List.mem_singleton.mp hsecond
      exact ⟨.makeInt32 7, rfl, trivial⟩
  exact called_of_viewAt (fun _ => ⟨0, 0, [], 0, Value.make, 0⟩) 0 (fun _ => {})
    (served ++ delivered) rfl hportable [97] (Value.makeInt32 7)
    (.inr ⟨(), by decide +kernel⟩)

end System

end Obsr.Net
