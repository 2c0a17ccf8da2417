/-
# The messages of a handshake

A client asks for the time, the server answers it, the client says that it is ready, and
the server finishes. No step of the server or of the client loses a message, and one that
arrives is followed by the next of the handshake: it is in a queue, or on its way.
-/

import Obsr.Net.MessageLimits
import Obsr.Net.Wiring

namespace Obsr.Net

open Obsr.Io Obsr.Lib

/-! ## The messages of the server -/

/-- A message that finishes a handshake comes when the record says so. -/
def ServerClient.Finishes (r : ServerClient) (message : OutMessage) : Prop :=
  message.type = .handshakeFinished → r.state = .inUse

/-- The server goes on with the queue of a record as a line does, and writes packets. The
handshake is not finished before the record says so. -/
structure ServerClient.Moves (r r' : ServerClient) (packets : List Packet) : Prop where
  works : Line.Works r'.Finishes r.queue r'.queue packets
  inUse : r.state = .inUse → r'.state = .inUse

namespace ServerClient.Moves

variable {r r' r'' : ServerClient} {packets others : List Packet}

theorem of_queue (hqueue : r'.queue = r.queue) (hstate : r'.state = r.state) :
    r.Moves r' [] := by
  refine ⟨?_, fun hinUse => hstate.trans hinUse⟩
  rw [hqueue]
  exact Line.Works.refl r'.Finishes r.queue

theorem refl (r : ServerClient) : r.Moves r [] := of_queue rfl rfl

theorem trans (h : r.Moves r' packets) (h' : r'.Moves r'' others) :
    r.Moves r'' (packets ++ others) := by
  have hfirst : Line.Works r''.Finishes r.queue r'.queue packets :=
    h.works.imp fun _ hfinishes htype => h'.inUse (hfinishes htype)
  exact ⟨hfirst.trans h'.works, fun hinUse => h'.inUse (h.inUse hinUse)⟩

theorem enqueue (r : ServerClient) (mapped : Option Text) {message : OutMessage}
    (hmessage : message.type ≠ .handshakeFinished) : r.Moves (r.enqueue mapped message) [] :=
  ⟨Line.Works.enqueue (fun htype => absurd htype hmessage) r.queue, fun hinUse => hinUse⟩

theorem publish (r : ServerClient) (mapped : Option Text) (id : EntryId) (name : Text) :
    r.Moves (r.publish mapped id name) [] :=
  (enqueue r mapped (by nofun : (OutMessage.entryIdAssign id name).type ≠ _)).trans
    (of_queue rfl rfl)

/-- The queue is written. -/
theorem update (r : ServerClient) (behind : Behind) (answers : List Bool) :
    r.Moves (r.update (r.queue.length - (r.queue.flush behind answers).1.length))
      (r.queue.flush behind answers).2 := by
  refine ⟨?_, fun hinUse => hinUse⟩
  rw [MessageQueue.queue_update r behind answers]
  exact Line.Works.process _ behind answers r.queue

theorem publishAssignment (storage : Storage) (now : ℤ) (r : ServerClient)
    (assignment : EntryId × Text) :
    r.Moves (NetworkServer.publishAssignment storage now r assignment) [] := by
  unfold NetworkServer.publishAssignment
  dsimp only
  split_ifs
  · exact refl r
  · split
    · exact publish r ..
    · exact (publish r ..).trans (enqueue _ _ nofun)

theorem publishAssignments (storage : Storage) (now : ℤ) (r : ServerClient)
    (assignments : List (EntryId × Text)) :
    r.Moves (assignments.foldl (NetworkServer.publishAssignment storage now) r) [] := by
  induction assignments generalizing r with
  | nil => exact refl r
  | cons assignment assignments ih =>
      exact (publishAssignment storage now r assignment).trans (ih _)

end ServerClient.Moves

namespace NetworkServer

/-- No record loses a message. -/
def Keeps (s t : NetworkServer) (packets : ClientId → List Packet) : Prop :=
  ∀ id record, s.clients.find? id = some record →
    ∃ record', t.clients.find? id = some record' ∧ record.Moves record' (packets id)

variable {s t : NetworkServer}

theorem Keeps.refl (s : NetworkServer) : s.Keeps s fun _ => [] :=
  fun _ record hrecord => ⟨record, hrecord, .refl record⟩

theorem Keeps.trans {u : NetworkServer} {packets : ClientId → List Packet}
    (h : s.Keeps t fun _ => []) (h' : t.Keeps u packets) : s.Keeps u packets := by
  intro id record hrecord
  obtain ⟨record', hrecord', hmoves⟩ := h id record hrecord
  obtain ⟨record'', hrecord'', hmoves'⟩ := h' id record' hrecord'
  exact ⟨record'', hrecord'', hmoves.trans hmoves'⟩

theorem keeps_mapValues {f : ClientId → ServerClient → ServerClient}
    {packets : ClientId → List Packet}
    (hclients : ∀ id, t.clients.find? id = (s.clients.find? id).map (f id))
    (hf : ∀ id record, s.clients.find? id = some record →
      record.Moves (f id record) (packets id)) : s.Keeps t packets := by
  intro id record hrecord
  refine ⟨f id record, ?_, hf id record hrecord⟩
  rw [hclients, hrecord]
  rfl

theorem keeps_publishUpdates (s : NetworkServer) (now : ℤ) :
    s.Keeps (s.publishUpdates now) fun _ => [] := by
  refine Storage.actOnDirtyEntries_of_invariant storage withStorage
    (I := fun t => s.Keeps t fun _ => []) (fun t handle entry ht _ => ?_) (fun _ _ ht => ht)
    (Keeps.refl s)
  refine ht.trans (keeps_mapValues (fun id => (congrArg (OrderedMap.find? · id)
    (clients_publishDirty now entry)).trans (OrderedMap.find?_mapValues ..)) fun id record _ => ?_)
  have hentry : (entryMessage now entry (t.idForEntry entry).2).type ≠ .handshakeFinished := by
    unfold entryMessage
    split_ifs <;> nofun
  dsimp only
  split_ifs
  · exact .enqueue record _ hentry
  · exact (ServerClient.Moves.publish record ..).trans (.enqueue _ _ hentry)

theorem keeps_updateWith (s : NetworkServer) (now : ℤ) (opened : Bool) (behind : Behind)
    (answers : ClientId → List Bool) :
    s.Keeps (s.updateWith now opened behind answers) fun id =>
      (s.written now behind answers id).2 := by
  unfold updateWith update written
  cases s.state with
  | opening =>
      dsimp only
      split_ifs
      · exact Keeps.refl s
      · exact Keeps.refl s
  | inUse =>
      dsimp only
      split_ifs with hempty
      · intro id record hrecord
        have hmem := (s.clients.mem_entries_iff id record).mpr hrecord
        rw [List.isEmpty_iff.mp hempty] at hmem
        cases hmem
      · refine (s.keeps_publishUpdates now).trans (keeps_mapValues
          (fun _ => OrderedMap.find?_mapValues ..) fun id record hrecord => ?_)
        have hqueue : (s.publishUpdates now).queueOf id = record.queue := by
          rw [queueOf, hrecord]
          rfl
        dsimp only
        rw [hqueue]
        exact .update record behind (answers id)

/-! ## A message arrives at the server -/

theorem keeps_relay (s : NetworkServer) {message : OutMessage}
    (hmessage : message.type ≠ .handshakeFinished) (sender : ClientId) :
    s.Keeps (s.enqueueMessageForClients message sender) fun _ => [] := by
  refine keeps_mapValues (fun _ => OrderedMap.find?_mapValues ..) fun id record _ => ?_
  split_ifs
  · exact .refl record
  · exact .enqueue record _ hmessage

theorem keeps_createEntry (s : NetworkServer) (now : ℤ) (sender : ClientId) (id : EntryId)
    (data : ParseData) : s.Keeps (s.createEntry now sender id data) fun _ => [] := by
  refine keeps_mapValues (fun _ => OrderedMap.find?_mapValues ..) fun other record _ => ?_
  dsimp only
  split_ifs
  · exact .refl record
  · exact (ServerClient.Moves.publish record ..).trans (.enqueue _ _ nofun)

/-- The packets for one client. -/
def only (sender : ClientId) (packets : List Packet) (id : ClientId) : List Packet :=
  if id = sender then packets else []

theorem only_self (sender : ClientId) (packets : List Packet) :
    only sender packets sender = packets :=
  if_pos rfl

theorem only_of_ne {id sender : ClientId} (h : id ≠ sender) (packets : List Packet) :
    only sender packets id = [] := if_neg h

/-- One record changes. -/
theorem keeps_modify {sender : ClientId} {f : ServerClient → ServerClient} {packets : List Packet}
    (hclients : ∀ id, t.clients.find? id =
      if id = sender then (s.clients.find? id).map f else s.clients.find? id)
    (hf : ∀ record, s.clients.find? sender = some record → record.Moves (f record) packets) :
    s.Keeps t (only sender packets) := by
  intro id record hrecord
  rw [hclients]
  by_cases hid : id = sender
  · subst hid
    rw [if_pos rfl, only_self, hrecord]
    exact ⟨f record, rfl, hf record hrecord⟩
  · rw [if_neg hid, only_of_ne hid]
    exact ⟨record, hrecord, .refl record⟩

theorem Keeps.only (h : s.Keeps t fun _ => []) (sender : ClientId) :
    s.Keeps t (only sender []) := by
  intro id record hrecord
  have hnone : NetworkServer.only sender [] id = [] := by
    unfold NetworkServer.only
    split_ifs <;> rfl
  rw [hnone]
  exact h id record hrecord

theorem moves_handshake (s : NetworkServer) (now : ℤ) (record : ServerClient) :
    record.Moves (((s.idAssignments.entries.foldl (publishAssignment s.storage now) record).enqueue
      (s.storage.pathOfId 0) .handshakeFinished).setState .inUse) [] := by
  have hpublished := ServerClient.Moves.publishAssignments s.storage now record
    s.idAssignments.entries
  set published := s.idAssignments.entries.foldl (publishAssignment s.storage now) record
  set finished := (published.enqueue (s.storage.pathOfId 0) .handshakeFinished).setState .inUse
  have hfirst : Line.Works finished.Finishes record.queue published.queue [] :=
    hpublished.works.imp fun _ _ _ => rfl
  have hlast : Line.Works finished.Finishes published.queue finished.queue [] :=
    Line.Works.enqueue (fun _ => rfl) published.queue
  exact ⟨hfirst.trans hlast, fun _ => rfl⟩

end NetworkServer

namespace MessageQueue

/-- A message within the limits is written whenever the destination takes it. -/
theorem flush_singleton {message : OutMessage} (htyped : message.isTyped = true)
    {c : Construction} (hbuild : c.build = .ok message.value) (hlimits : WithinLimits c message)
    (behind : Behind) (written : Bool) :
    (flush behind [message] [written]).1 = (if written then [] else [message]) ∧
      (flush behind [message] [written]).2.map Packet.message =
        if written then [message] else [] := by
  rcases writeMessage_cases behind message with ⟨hnone, -⟩ | ⟨-, hrefused⟩ | ⟨-, payload, -, hwrite⟩
  · rw [htyped] at hnone
    cases hnone
  · have hrecorded := hrefused recording []
    unfold writeMessage at hrecorded
    split at hrecorded
    case h_1 => cases hrecorded
    case h_2 serializer hserializer =>
      split at hrecorded
      case h_1 hwrite =>
        exact absurd hlimits ((serializer_eq_none_iff hbuild hserializer).mp hwrite)
      case h_2 => cases hrecorded
  · cases written <;> simp [flush, hwrite, recording, packetsOf]

end MessageQueue

namespace NetworkServer

variable {s : NetworkServer}

/-- The answer to a request is in the queue, or is written. -/
theorem flush_response (behind : Behind) (sendTime time : ℤ) (written : Bool) :
    (MessageQueue.flush behind [.timeSyncResponse sendTime time] [written]).1 =
        (if written then [] else [.timeSyncResponse sendTime time]) ∧
      (MessageQueue.flush behind [.timeSyncResponse sendTime time] [written]).2.map
        Packet.message = if written then [.timeSyncResponse sendTime time] else [] := by
  have hbuild : Construction.make.build = .ok (OutMessage.timeSyncResponse sendTime time).value :=
    rfl
  apply MessageQueue.flush_singleton rfl hbuild
  exact ⟨fun htype => htype.elim nofun nofun, (by decide : 8 + 8 ≤ 512)⟩

/-- A request is answered. -/
theorem moves_answer (record : ServerClient) (now time : ℤ) (behind : Behind)
    (written : Bool) (mapped : Option Text) :
    record.Moves (record.enqueueImmediate mapped (.timeSyncResponse now time) written)
      (MessageQueue.flush behind [.timeSyncResponse now time] [written]).2 := by
  refine ⟨?_, fun hinUse => hinUse⟩
  have hqueue : (record.enqueueImmediate mapped (.timeSyncResponse now time) written).queue =
      (MessageQueue.flush behind [.timeSyncResponse now time] [written]).1 ++ record.queue := by
    rw [(flush_response behind now time written).1]
    cases written with
    | true => rfl
    | false => rfl
  rw [hqueue]
  exact Line.Works.enqueueImmediate nofun behind [written] record.queue

theorem keeps_onEntryCreate (s : NetworkServer) (now : ℤ) (sender : ClientId) (data : ParseData) :
    s.Keeps (s.onEntryCreate now sender data) fun _ => [] := by
  unfold NetworkServer.onEntryCreate
  split_ifs
  · have hassign : s.Keeps (s.assignIdToEntry data.name).1 fun _ => [] := Keeps.refl s
    rcases hresult : s.assignIdToEntry data.name with ⟨t, _ | id⟩ <;> rw [hresult] at hassign
    · exact hassign
    · exact hassign.trans (t.keeps_createEntry now sender id data)
  · exact s.keeps_createEntry now sender data.id data

theorem keeps_onMessage (s : NetworkServer) (now : ℤ) (sender : ClientId) (packet : Packet)
    (behind : Behind) (written : Bool) :
    s.Keeps (s.onMessage now sender packet.type packet.payload written)
      (only sender (s.answer now sender packet behind written)) := by
  unfold NetworkServer.onMessage answer
  dsimp only
  set parser := s.parser.parse (.ofByte packet.type) packet.payload
  cases hfinished : parser.isFinished with
  | false => exact (Keeps.refl s).only sender
  | true =>
      rw [if_pos rfl, Bool.true_and]
      cases MessageType.ofByte packet.type with
      | timeSyncRequest =>
          refine keeps_modify (fun _ => OrderedMap.find?_modify ..) fun record hrecord => ?_
          rw [hrecord]
          exact moves_answer record now _ behind written _
      | entryCreate => exact (keeps_onEntryCreate { s with parser } now sender _).only sender
      | entryUpdate =>
          have htype : (OutMessage.entryUpdate parser.data.sendTime parser.data.id
            parser.data.value).type ≠ .handshakeFinished := nofun
          exact (keeps_relay { s with parser, storage := _ } htype sender).only sender
      | entryDelete =>
          have htype : (OutMessage.entryDeleted parser.data.sendTime parser.data.id).type ≠
            .handshakeFinished := nofun
          exact (keeps_relay { s with parser, storage := _ } htype sender).only sender
      | handshakeReady =>
          exact keeps_modify (fun _ => OrderedMap.find?_modify ..) fun record _ =>
            moves_handshake { s with parser } now record
      | _ => exact (Keeps.refl s).only sender

/-- A request that arrives is answered. -/
theorem find?_request {sender : ClientId} {record : ServerClient} {packet : Packet} {time : ℤ}
    (hrecord : s.clients.find? sender = some record) (hmade : packet.Made)
    (hmessage : packet.message = .timeSyncRequest time) (now : ℤ) (behind : Behind)
    (written : Bool) :
    ∃ record' response,
      (s.onMessage now sender packet.type packet.payload written).clients.find? sender =
        some record' ∧ response.type = .timeSyncResponse ∧ response.value = Value.make ∧
      (response ∈ record'.queue ∨
        response ∈ (s.answer now sender packet behind written).map Packet.message) := by
  have hportable : Portable packet.message.value := hmessage ▸ portable_make
  have hfinished := hmade.finishes hportable s.parser
  have htype : MessageType.ofByte packet.type = .timeSyncRequest := by
    rw [hmade.type_eq.1, hmessage]
    rfl
  unfold NetworkServer.onMessage answer
  dsimp only
  rw [if_pos hfinished, hfinished, hrecord, htype]
  set time' := (s.parser.parse .timeSyncRequest packet.payload).data.sendTime
  have hfind := (OrderedMap.find?_modify s.clients sender
    (·.enqueueImmediate (s.storage.pathOfId 0) (.timeSyncResponse now time') written) sender).trans
      ((if_pos rfl).trans (congrArg (Option.map _) hrecord))
  refine ⟨_, .timeSyncResponse now time', hfind, rfl, rfl, ?_⟩
  cases written with
  | true => exact .inr ((flush_response behind now time' true).2.symm ▸ List.mem_singleton.mpr rfl)
  | false => exact .inl List.mem_cons_self

/-- The server finishes the handshake of a client that is ready. -/
theorem find?_ready {sender : ClientId} {record : ServerClient} {packet : Packet}
    (hrecord : s.clients.find? sender = some record) (hmade : packet.Made)
    (hmessage : packet.message = .handshakeReady) (now : ℤ) (written : Bool) :
    ∃ record',
      (s.onMessage now sender packet.type packet.payload written).clients.find? sender =
        some record' ∧ record'.state = .inUse ∧ OutMessage.handshakeFinished ∈ record'.queue := by
  have hportable : Portable packet.message.value := hmessage ▸ portable_make
  have hfinished := hmade.finishes hportable s.parser
  have htype : MessageType.ofByte packet.type = .handshakeReady := by
    rw [hmade.type_eq.1, hmessage]
    rfl
  unfold NetworkServer.onMessage
  dsimp only
  rw [if_pos hfinished, htype]
  refine ⟨_, (OrderedMap.find?_modify ..).trans ((if_pos rfl).trans
    (congrArg (Option.map _) hrecord)), rfl, ?_⟩
  exact List.mem_append_right _ (List.mem_singleton.mpr rfl)

end NetworkServer

/-! ## What a client does with the answers -/

namespace NetworkClient

/-- The answer of the server gets a client ready. -/
theorem handle_response (s : NetworkClient) (timeNow : ℤ) (data : ParseData) :
    let s' := s.handle timeNow .timeSyncResponse data
    if s.state = .inHandshakeTimeSync then
      s'.state = .inHandshake ∧ OutMessage.handshakeReady ∈ s'.messages
    else s'.state = s.state ∧ s'.messages = s.messages := by
  obtain ⟨hstate, hqueue⟩ := s.syncClock_keeps timeNow data
  unfold handle
  dsimp only
  rw [hstate]
  split_ifs
  · refine ⟨rfl, ?_⟩
    unfold messages enqueue
    rw [List.map_append]
    exact List.mem_append_right _ (List.mem_singleton.mpr rfl)
  · exact ⟨rfl, congrArg (List.map Queued.message) hqueue⟩

/-- A message leaves a client where it is, or takes it on in the handshake. -/
theorem onMessage_cases (s : NetworkClient) (timeNow : ℤ) {packet : Packet} (hmade : packet.Made) :
    let s' := s.onMessage timeNow packet.type packet.payload
    (s'.state = s.state ∧ s'.messages = s.messages) ∨
      (s'.state = .inHandshake ∧ .handshakeReady ∈ s'.messages) ∨
      (packet.message.type = .handshakeFinished ∧ s'.state = .inUse) := by
  dsimp only
  unfold onMessage
  dsimp only
  rw [hmade.type_eq.1]
  split_ifs
  · cases htype : packet.message.type with
    | timeSyncResponse =>
        have hresponse := handle_response
          { s with parser := s.parser.parse .timeSyncResponse packet.payload } timeNow
          (s.parser.parse .timeSyncResponse packet.payload).data
        dsimp only at hresponse
        split_ifs at hresponse
        · exact .inr (.inl hresponse)
        · exact .inl hresponse
    | handshakeFinished => exact .inr (.inr ⟨rfl, rfl⟩)
    | _ => exact .inl ⟨rfl, rfl⟩
  · exact .inl ⟨rfl, rfl⟩

variable {s : NetworkClient} {packet : Packet}

theorem onMessage_response (hmade : packet.Made) (htype : packet.message.type = .timeSyncResponse)
    (hvalue : packet.message.value = Value.make) (hstate : s.state = .inHandshakeTimeSync)
    (timeNow : ℤ) : (s.onMessage timeNow packet.type packet.payload).state = .inHandshake := by
  have hfinished := hmade.finishes (hvalue ▸ portable_make) s.parser
  unfold onMessage
  dsimp only
  rw [if_pos hfinished, hmade.type_eq.1, htype]
  have hresponse := handle_response
    { s with parser := s.parser.parse .timeSyncResponse packet.payload } timeNow
    (s.parser.parse .timeSyncResponse packet.payload).data
  dsimp only at hresponse
  rw [if_pos hstate] at hresponse
  exact hresponse.1

theorem onMessage_finished (hmade : packet.Made) (hmessage : packet.message = .handshakeFinished)
    (timeNow : ℤ) : (s.onMessage timeNow packet.type packet.payload).state = .inUse := by
  have hportable : Portable packet.message.value := hmessage ▸ portable_make
  have htype : MessageType.ofByte packet.type = .handshakeFinished := by
    rw [hmade.type_eq.1, hmessage]
    rfl
  unfold onMessage
  dsimp only
  rw [if_pos (hmade.finishes hportable s.parser), htype]
  rfl

end NetworkClient

/-! ## What is still to come -/

/-- The message is in the queue of the client or on its way to the server. -/
def Said (client : NetworkClient) (up : List Packet) (message : OutMessage) : Prop :=
  message ∈ client.messages ∨ message ∈ up.map Packet.message

/-- The message is in the queue of the server or on its way to the client. -/
def Due (record : ServerClient) (down : List Packet) (message : OutMessage) : Prop :=
  message ∈ record.queue ∨ message ∈ down.map Packet.message

/-- The handshake of a client that the server has accepted goes on. -/
structure Proceeds (client : NetworkClient) (record : ServerClient) (up down : List Packet) :
    Prop where
  timeSync : client.state = .inHandshakeTimeSync →
    (∃ time, Said client up (.timeSyncRequest time)) ∨
      ∃ response, response.type = .timeSyncResponse ∧ response.value = Value.make ∧
        Due record down response
  ready : client.state = .inHandshake →
    Said client up .handshakeReady ∨ Due record down .handshakeFinished
  inUse : client.state = .inUse → record.state = .inUse
  finished : ∀ message, message.type = .handshakeFinished → Due record down message →
    record.state = .inUse

variable {client client' : NetworkClient} {record record' : ServerClient}
  {up down packets : List Packet} {message : OutMessage}

theorem Due.moves (h : Due record down message) (htyped : message.isTyped = true)
    (hmoves : record.Moves record' packets) : Due record' (down ++ packets) message := by
  unfold Due
  rw [List.map_append, List.mem_append]
  rcases h with hqueue | hdown
  · exact (hmoves.works.kept hqueue htyped).imp_right .inr
  · exact .inr (.inl hdown)

theorem Said.moves {new : OutMessage → Prop} (h : Said client up message)
    (htyped : message.isTyped = true) (hmoves : client.Moves client' packets new) :
    Said client' (up ++ packets) message := by
  unfold Said
  rw [List.map_append, List.mem_append]
  rcases h with hqueue | hup
  · exact (hmoves.kept hqueue htyped).imp_right .inr
  · exact .inr (.inl hup)

theorem isTyped_of_type {type : MessageType} (h : message.type = type)
    (htype : ({ type } : OutMessage).isTyped = true) : message.isTyped = true := by
  unfold OutMessage.isTyped at htype ⊢
  rw [h]
  exact htype

theorem Proceeds.serve (h : Proceeds client record up down)
    (hmoves : record.Moves record' packets) : Proceeds client record' up (down ++ packets) where
  timeSync hstate := (h.timeSync hstate).imp_right fun ⟨response, htype, hvalue, hdue⟩ =>
    ⟨response, htype, hvalue, hdue.moves (isTyped_of_type htype rfl) hmoves⟩
  ready hstate := (h.ready hstate).imp_right fun hdue => hdue.moves rfl hmoves
  inUse hstate := hmoves.inUse (h.inUse hstate)
  finished message htype hdue := by
    unfold Due at hdue
    rw [List.map_append, List.mem_append] at hdue
    have hbefore : Due record down message ∨ record'.state = .inUse := by
      rcases hdue with hqueue | hdown | hwritten
      · exact (hmoves.works.origin (.inl hqueue)).imp .inl fun hfinishes => hfinishes htype
      · exact .inl (.inr hdown)
      · exact (hmoves.works.origin (.inr hwritten)).imp .inl fun hfinishes => hfinishes htype
    exact hbefore.elim (fun hdue => hmoves.inUse (h.finished message htype hdue)) id

/-- The client goes on, and writes packets. -/
theorem Proceeds.move (h : Proceeds client record up down) (hstate : client'.state = client.state)
    {new : OutMessage → Prop} (hmoves : client.Moves client' packets new) :
    Proceeds client' record (up ++ packets) down := by
  refine ⟨fun hsync => ?_, fun hready => ?_, fun hinUse => h.inUse (hstate ▸ hinUse), h.finished⟩
  · exact (h.timeSync (hstate ▸ hsync)).imp_left fun ⟨time, hrequest⟩ =>
      ⟨time, hrequest.moves rfl hmoves⟩
  · exact (h.ready (hstate ▸ hready)).imp_left fun hsaid => hsaid.moves rfl hmoves

/-- A packet arrives at the client. -/
theorem Proceeds.receive {packet : Packet} (h : Proceeds client record up (packet :: down))
    (hmade : packet.Made) (timeNow : ℤ) :
    Proceeds (client.onMessage timeNow packet.type packet.payload) record up down := by
  have hdue : ∀ message, Due record (packet :: down) message →
      message = packet.message ∨ Due record down message := by
    intro message hdue
    rcases hdue with hqueue | hdown
    · exact .inr (.inl hqueue)
    · rw [List.map_cons, List.mem_cons] at hdown
      exact hdown.imp_right .inr
  have hfinished : ∀ message, message.type = .handshakeFinished → Due record down message →
      record.state = .inUse := by
    intro message htype hrest
    refine h.finished message htype (hrest.imp_right fun hdown => ?_)
    exact List.mem_cons_of_mem _ hdown
  rcases client.onMessage_cases timeNow hmade with
    ⟨hstate, hmessages⟩ | ⟨hstate, hready⟩ | ⟨htype, hstate⟩
  · have hsent : ∀ message, Said client up message →
        Said (client.onMessage timeNow packet.type packet.payload) up message :=
      fun message hsent => hsent.imp_left (hmessages ▸ ·)
    refine ⟨fun hsync => ?_, fun hready => ?_, fun hinUse => h.inUse (hstate ▸ hinUse), hfinished⟩
    · rcases h.timeSync (hstate ▸ hsync) with
        ⟨time, hrequest⟩ | ⟨response, htype, hvalue, hresponse⟩
      · exact .inl ⟨time, hsent _ hrequest⟩
      · rcases hdue response hresponse with rfl | hrest
        · have hnext := NetworkClient.onMessage_response hmade htype hvalue (hstate ▸ hsync) timeNow
          cases hsync.symm.trans hnext
        · exact .inr ⟨response, htype, hvalue, hrest⟩
    · rcases h.ready (hstate ▸ hready) with hsentReady | hdueFinished
      · exact .inl (hsent _ hsentReady)
      · rcases hdue _ hdueFinished with hmessage | hrest
        · have hnext := NetworkClient.onMessage_finished (s := client) hmade hmessage.symm timeNow
          cases hready.symm.trans hnext
        · exact .inr hrest
  · refine ⟨fun hsync => ?_, fun _ => .inl (.inl hready), fun hinUse => ?_, hfinished⟩
    · cases hstate.symm.trans hsync
    · cases hstate.symm.trans hinUse
  · refine ⟨fun hsync => ?_, fun hready => ?_, fun _ => ?_, hfinished⟩
    · cases hstate.symm.trans hsync
    · cases hstate.symm.trans hready
    · exact h.finished packet.message htype (.inr List.mem_cons_self)

/-- A request or a readiness arrives at the server. -/
theorem Proceeds.take {server : NetworkServer} {id : ClientId} {packet : Packet}
    (h : Proceeds client record (packet :: up) down)
    (hrecord : server.clients.find? id = some record) (hmade : packet.Made) (now : ℤ)
    (behind : Behind) (written : Bool) :
    ∃ record', (server.onMessage now id packet.type packet.payload
        written).clients.find? id =
        some record' ∧
      Proceeds client record' up (down ++ server.answer now id packet behind written) := by
  obtain ⟨record', hrecord', hmoves⟩ :=
    server.keeps_onMessage now id packet behind written id record hrecord
  rw [NetworkServer.only_self] at hmoves
  have hserved := h.serve hmoves
  refine ⟨record', hrecord', fun hsync => ?_, fun hready => ?_, hserved.inUse, hserved.finished⟩
  · rcases hserved.timeSync hsync with ⟨time, hqueue | hup⟩ | hdue
    · exact .inl ⟨time, .inl hqueue⟩
    · rw [List.map_cons, List.mem_cons] at hup
      rcases hup with hmessage | hup
      · obtain ⟨found, response, hfound, htype, hvalue, hanswer⟩ :=
          NetworkServer.find?_request hrecord hmade hmessage.symm now behind written
        obtain rfl : record' = found := Option.some.inj (hrecord'.symm.trans hfound)
        refine .inr ⟨response, htype, hvalue, hanswer.imp_right fun hwritten => ?_⟩
        rw [List.map_append]
        exact List.mem_append_right _ hwritten
      · exact .inl ⟨time, .inr hup⟩
    · exact .inr hdue
  · rcases hserved.ready hready with (hqueue | hup) | hdue
    · exact .inl (.inl hqueue)
    · rw [List.map_cons, List.mem_cons] at hup
      rcases hup with hmessage | hup
      · obtain ⟨found, hfound, -, hfinished⟩ :=
          NetworkServer.find?_ready hrecord hmade hmessage.symm now written
        obtain rfl : record' = found := Option.some.inj (hrecord'.symm.trans hfound)
        exact .inr (.inl hfinished)
      · exact .inl (.inr hup)
    · exact .inr hdue

end Obsr.Net
