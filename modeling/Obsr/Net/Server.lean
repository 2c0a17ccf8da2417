/-
# The server

`network_server` with its storage, its parser, its clients and the ids it has
assigned. One definition stands for each handler; a run is a sequence of
connections, messages, local operations and update ticks in any order.

A client keeps a ghost record of every message that was ever enqueued for it,
each with the path the storage mapped the id of the message to at that moment.
-/

import Obsr.Net.MessageParser
import Obsr.Storage.Ids

namespace Obsr.Net

open Obsr.Lib

abbrev ClientId := UInt16

/-- A message as it was enqueued. -/
structure Sent where
  message : OutMessage
  mapped : Option Text
  deriving DecidableEq, Repr

namespace ServerClient

inductive State
  | connected
  | inHandshake
  | inUse
  deriving DecidableEq, Repr

end ServerClient

structure ServerClient where
  state : ServerClient.State := .connected
  queue : MessageQueue := []
  published : Finset EntryId := ∅
  /-- Ghost: everything that was enqueued. -/
  sent : List Sent := []

namespace ServerClient

def setState (c : ServerClient) (state : State) : ServerClient := { c with state }

def isKnown (c : ServerClient) (id : EntryId) : Bool := id ∈ c.published

def enqueue (c : ServerClient) (mapped : Option Text) (message : OutMessage) : ServerClient :=
  { c with queue := c.queue.enqueue message, sent := c.sent ++ [⟨message, mapped⟩] }

def enqueueImmediate (c : ServerClient) (mapped : Option Text) (message : OutMessage)
    (written : Bool) : ServerClient :=
  { c with
    queue := c.queue.enqueueImmediate message written
    sent := c.sent ++ [⟨message, mapped⟩] }

def publish (c : ServerClient) (mapped : Option Text) (id : EntryId) (name : Text) :
    ServerClient :=
  { c.enqueue mapped (.entryIdAssign id name) with published := insert id c.published }

/-- Write the queue to a connection that takes so many messages. -/
def update (c : ServerClient) (takes : ℕ) : ServerClient :=
  { c with queue := (c.queue.process (fun _ takes => (0 < takes, takes - 1)) takes).1 }

end ServerClient

namespace NetworkServer

inductive State
  | opening
  | inUse
  deriving DecidableEq, Repr

end NetworkServer

/-- A server that was started. -/
structure NetworkServer where
  state : NetworkServer.State
  storage : Storage
  parser : MessageParser
  nextEntryId : EntryId
  clients : OrderedMap ClientId ServerClient
  idAssignments : OrderedMap EntryId Text

namespace NetworkServer

/-- A new server, started with a storage. -/
def start (memory : ParseData) (storage : Storage) : NetworkServer where
  state := .opening
  storage := storage.clearNetIds
  parser := MessageParser.new memory
  nextEntryId := 0
  clients := OrderedMap.empty
  idAssignments := OrderedMap.empty

/-! ## Connections -/

/-- `emplace` keeps a client that is there. -/
def onConnect (s : NetworkServer) (id : ClientId) : NetworkServer :=
  { s with clients := (s.clients.emplace id {}).modify id (·.setState .inHandshake) }

def onDisconnect (s : NetworkServer) (id : ClientId) : NetworkServer :=
  { s with clients := s.clients.erase id }

def onClose (s : NetworkServer) : NetworkServer :=
  { s with clients := OrderedMap.empty, state := .opening }

/-! ## Messages -/

/-- The counter moves on and the id is assigned before the storage can refuse. -/
def assignIdToEntry (s : NetworkServer) (name : Text) :
    NetworkServer × Except Exception EntryId :=
  let (storage, result) := s.storage.onEntryIdAssigned s.nextEntryId name
  ({ s with
      nextEntryId := s.nextEntryId + 1
      idAssignments := s.idAssignments.emplace s.nextEntryId name
      storage },
    result.map fun _ => s.nextEntryId)

def enqueueMessageForClients (s : NetworkServer) (message : OutMessage) (idToSkip : ClientId) :
    NetworkServer :=
  { s with
    clients := s.clients.mapValues fun id client =>
      if id = idToSkip then client
      else client.enqueue (s.storage.pathOfId message.id) message }

/-- Only used with the immediate flag; `written` says whether the connection
takes the message. -/
def enqueueMessageForClient (s : NetworkServer) (id : ClientId) (message : OutMessage)
    (written : Bool) : NetworkServer :=
  { s with
    clients := s.clients.modify id
      (·.enqueueImmediate (s.storage.pathOfId message.id) message written) }

/-- The loop calls the number of a client `id`, and it is this `id` that is published
with the path. The update has the id of the entry. -/
def publishAndUpdateEntryForClients (s : NetworkServer) (entryId : EntryId) (name : Text)
    (value : Value) (valueTime : ℤ) (idToSkip : ClientId) : NetworkServer :=
  { s with
    clients := s.clients.mapValues fun id client =>
      if id = idToSkip then client
      else
        (client.publish (s.storage.pathOfId id) id name).enqueue (s.storage.pathOfId entryId)
          (.entryUpdate valueTime entryId value) }

/-- One assigned id in the loop of the handshake. -/
def publishAssignment (storage : Storage) (now : ℤ) (client : ServerClient)
    (assignment : EntryId × Text) : ServerClient :=
  if client.isKnown assignment.1 then client
  else
    let mapped := storage.pathOfId assignment.1
    let client := client.publish mapped assignment.1 assignment.2
    match storage.getEntryValueFromId assignment.1 with
    | none => client
    | some value => client.enqueue mapped (.entryUpdate now assignment.1 value)

def handleDoHandshakeForClient (s : NetworkServer) (now : ℤ) (id : ClientId) : NetworkServer :=
  { s with
    clients := s.clients.modify id fun client =>
      let client := s.idAssignments.entries.foldl (publishAssignment s.storage now) client
      (client.enqueue (s.storage.pathOfId 0) .handshakeFinished).setState .inUse }

/-- What `entry_create` does once it has an id; the exceptions of the storage are
swallowed. -/
def createEntry (s : NetworkServer) (now : ℤ) (sender : ClientId) (id : EntryId)
    (data : ParseData) : NetworkServer :=
  { s with
      storage := (s.storage.onEntryCreated now id data.name data.value data.sendTime).1
    }.publishAndUpdateEntryForClients id data.name data.value data.sendTime sender

def onEntryCreate (s : NetworkServer) (now : ℤ) (sender : ClientId) (data : ParseData) :
    NetworkServer :=
  if data.id = idNotAssigned then
    match s.assignIdToEntry data.name with
    | (s, .error _) => s
    | (s, .ok id) => s.createEntry now sender id data
  else s.createEntry now sender data.id data

def onEntryUpdate (s : NetworkServer) (now : ℤ) (sender : ClientId) (data : ParseData) :
    NetworkServer :=
  { s with
      storage := (s.storage.onEntryUpdated now data.id data.value data.sendTime).1
    }.enqueueMessageForClients (.entryUpdate data.sendTime data.id data.value) sender

def onEntryDelete (s : NetworkServer) (now : ℤ) (sender : ClientId) (data : ParseData) :
    NetworkServer :=
  { s with
      storage := (s.storage.onEntryDeleted now data.id data.sendTime).1
    }.enqueueMessageForClients (.entryDeleted data.sendTime data.id) sender

/-- The handler of a message that was parsed. -/
def handle (s : NetworkServer) (now : ℤ) (sender : ClientId) (type : MessageType)
    (data : ParseData) (written : Bool) : NetworkServer :=
  match type with
  | .entryCreate => s.onEntryCreate now sender data
  | .entryUpdate => s.onEntryUpdate now sender data
  | .entryDelete => s.onEntryDelete now sender data
  | .timeSyncRequest =>
      s.enqueueMessageForClient sender (.timeSyncResponse now data.sendTime) written
  | .handshakeReady => s.handleDoHandshakeForClient now sender
  | _ => s

def onMessage (s : NetworkServer) (now : ℤ) (sender : ClientId) (type : UInt8)
    (payload : List UInt8) (written : Bool) : NetworkServer :=
  let parser := s.parser.parse (MessageType.ofByte type) payload
  let s := { s with parser }
  if parser.isFinished then s.handle now sender (MessageType.ofByte type) parser.data written
  else s

/-! ## Update ticks -/

/-- The id of a dirty entry, a new one if it has none. -/
def idForEntry (s : NetworkServer) (entry : StorageEntry) : NetworkServer × EntryId :=
  if entry.netId = idNotAssigned then
    ((s.assignIdToEntry entry.path).1, s.nextEntryId)
  else (s, entry.netId)

def entryMessage (now : ℤ) (entry : StorageEntry) (id : EntryId) : OutMessage :=
  if entry.deleted then .entryDeleted now id
  else .entryUpdate entry.lastUpdateTimestamp id entry.value

/-- The action of `process_updates` on a dirty entry. Its path is known, so that
the assignment of an id does not throw. -/
def publishDirty (now : ℤ) (entry : StorageEntry) (s : NetworkServer) : Bool × NetworkServer :=
  let (s, id) := s.idForEntry entry
  let mapped := s.storage.pathOfId id
  let clients := s.clients.mapValues fun _ client =>
    let client := if client.isKnown id then client else client.publish mapped id entry.path
    client.enqueue mapped (entryMessage now entry id)
  (true, { s with clients })

def withStorage (s : NetworkServer) (storage : Storage) : NetworkServer := { s with storage }

def processUpdates (s : NetworkServer) (now : ℤ) (takes : ClientId → ℕ) : NetworkServer :=
  let s := Storage.actOnDirtyEntries storage withStorage (publishDirty now) s
  { s with clients := s.clients.mapValues fun id client => client.update (takes id) }

/-- `update`; `opened` says whether opening the server succeeds. -/
def update (s : NetworkServer) (now : ℤ) (opened : Bool) (takes : ClientId → ℕ) :
    NetworkServer :=
  match s.state with
  | .opening => if opened then { s with state := .inUse } else s
  | .inUse => if s.clients.entries.isEmpty then s else s.processUpdates now takes

/-! ## Runs -/

/-- A local operation on the storage of the server. -/
inductive LocalOperation
  | getOrCreateEntry (path : Text)
  | setEntryValue (entry : Handle) (value : Value)
  | clearEntry (entry : Handle)
  | deleteEntry (entry : Handle)
  | deleteEntries (path : Text)
  deriving DecidableEq, Repr

def LocalOperation.operation (now : ℤ) : LocalOperation → Storage.Operation
  | .getOrCreateEntry path => .getOrCreateEntry path
  | .setEntryValue entry value => .setEntryValue now entry value
  | .clearEntry entry => .clearEntry now entry
  | .deleteEntry entry => .deleteEntry now entry
  | .deleteEntries path => .deleteEntries now path

/-- One step of a run. Messages and ticks come with what the connections do. -/
inductive Input
  | connect (id : ClientId)
  | disconnect (id : ClientId)
  | close
  | message (now : ℤ) (sender : ClientId) (type : UInt8) (payload : List UInt8) (written : Bool)
  | localOperation (now : ℤ) (op : LocalOperation)
  | update (now : ℤ) (opened : Bool) (takes : ClientId → ℕ)

def step (s : NetworkServer) : Input → NetworkServer
  | .connect id => s.onConnect id
  | .disconnect id => s.onDisconnect id
  | .close => s.onClose
  | .message now sender type payload written => s.onMessage now sender type payload written
  | .localOperation now op => s.withStorage (s.storage.perform (op.operation now))
  | .update now opened takes => s.update now opened takes

/-! ## Assigning an id -/

variable {s : NetworkServer}

theorem assignIdToEntry_of_hasRoom (hs : s.storage.Coherent) {name : Text}
    (hroom : s.storage.HasRoom name) :
    ∃ storage, s.assignIdToEntry name =
        ({ s with
            nextEntryId := s.nextEntryId + 1
            idAssignments := s.idAssignments.emplace s.nextEntryId name
            storage }, .ok s.nextEntryId) ∧
      storage.Coherent ∧ s.storage.Named s.nextEntryId name storage := by
  obtain ⟨storage, hassign, hnamed⟩ :=
    Storage.onEntryIdAssigned_named hs hroom s.nextEntryId
  have hcoherent := hs.onEntryIdAssigned s.nextEntryId name
  rw [hassign] at hcoherent
  exact ⟨storage, by simp only [NetworkServer.assignIdToEntry, hassign]; rfl, hcoherent, hnamed⟩

/-- Without room the id is assigned and the storage does not hear of it. -/
theorem assignIdToEntry_of_not_hasRoom {name : Text} (hroom : ¬ s.storage.HasRoom name) :
    s.assignIdToEntry name =
      ({ s with
          nextEntryId := s.nextEntryId + 1
          idAssignments := s.idAssignments.emplace s.nextEntryId name }, .error .noSpace) := by
  rw [NetworkServer.assignIdToEntry, Storage.onEntryIdAssigned_of_not_hasRoom hroom]
  rfl

/-! ## Dirty entries -/

theorem clients_idForEntry (entry : StorageEntry) :
    (s.idForEntry entry).1.clients = s.clients := by
  unfold idForEntry
  split_ifs <;> rfl

/-- A dirty entry goes to every client, after its id where that is new. -/
theorem clients_publishDirty (now : ℤ) (entry : StorageEntry) :
    (publishDirty now entry s).2.clients = s.clients.mapValues fun _ client =>
      let id := (s.idForEntry entry).2
      let mapped := (s.idForEntry entry).1.storage.pathOfId id
      (if client.isKnown id then client else client.publish mapped id entry.path).enqueue mapped
        (entryMessage now entry id) := by
  rw [← clients_idForEntry (s := s) entry]
  rfl

end NetworkServer

end Obsr.Net
