/-
# The client

`network_client` with its storage, its clock, its parser and its queue. One
definition stands for each callback of the socket and for the update tick; a run
is a sequence of these and of local operations in any order, over any number of
connections.

The client keeps ghost records: which messages storage passes have built and what
became of them, and which ids the current connection has assigned and used.
-/

import Obsr.Net.Client
import Obsr.Net.MessageParser
import Obsr.Net.MessageSerializer
import Obsr.Net.Server
import Obsr.Storage.Effect
import Obsr.Storage.Resync

namespace Obsr.Net

open Obsr.Io Obsr.Lib

/-! ## The queue and what it owes -/

/-- An entry message that a storage pass has built; the number tells it from every
other one. -/
structure Ticket where
  number : ℕ
  entry : Handle
  message : OutMessage
  deriving DecidableEq, Repr

/-- A message in the queue: of the client itself, or of a storage pass. -/
inductive Queued
  | own (message : OutMessage)
  | handed (ticket : Ticket)
  deriving DecidableEq, Repr

namespace Queued

def message : Queued → OutMessage
  | own message => message
  | handed ticket => ticket.message

/-- The ticket of a message, as a list of at most one. -/
def tickets : Queued → List Ticket
  | own _ => []
  | handed ticket => [ticket]

/-- The write of a message to a socket that answers as listed, and refuses what it
has no answer for. -/
def write (behind : Behind) (queued : Queued) (answers : List Bool) : Bool × List Bool :=
  MessageQueue.writeMessage behind (fun _ _ answers => (answers.headD false, answers.tail))
    queued.message answers

end Queued

/-- What became of the messages of storage passes: those built, those the socket
accepted, and those whose entry was set or deleted once more. -/
structure Record where
  built : List Ticket := []
  accepted : List Ticket := []
  excused : List Ticket := []
  deriving DecidableEq, Repr

/-- The ids that were assigned on a connection, and the ids that were enqueued on it
with an update or a deletion, each with the path of the entry it was for. -/
structure Session where
  assigned : List (EntryId × Text) := []
  used : List (EntryId × Text) := []
  deriving DecidableEq, Repr

namespace NetworkClient

inductive State
  | idle
  | opening
  | connecting
  | inHandshakeTimeSync
  | inHandshake
  | inUse
  deriving DecidableEq, Repr

end NetworkClient

/-- A client with a storage; of a timer it matters whether it is running. -/
structure NetworkClient where
  state : NetworkClient.State
  storage : Storage
  clock : Clock
  parser : MessageParser
  queue : List Queued
  connectRetryTimer : Bool
  clockSyncTimer : Bool
  record : Record
  session : Session

namespace NetworkClient

/-- A client that was never started. -/
def new (memory : ParseData) (storage : Storage) (clock : Clock) : NetworkClient where
  state := .idle
  storage := storage
  clock := clock
  parser := MessageParser.new memory
  queue := []
  connectRetryTimer := false
  clockSyncTimer := false
  record := {}
  session := {}

/-- `m_message_queue`. -/
def messages (s : NetworkClient) : MessageQueue := s.queue.map Queued.message

def enqueue (s : NetworkClient) (message : OutMessage) : NetworkClient :=
  { s with queue := s.queue ++ [.own message] }

/-- `enqueue` with `flag_immediate`, and the answers that are left. -/
def enqueueImmediate (s : NetworkClient) (behind : Behind) (message : OutMessage)
    (answers : List Bool) : NetworkClient × List Bool :=
  match (Queued.own message).write behind answers with
  | (true, answers) => (s, answers)
  | (false, answers) => ({ s with queue := .own message :: s.queue }, answers)

/-- `process` on a queue, with the tickets of the messages it writes. -/
def processQueue (behind : Behind) : List Queued → List Bool → List Queued × List Ticket
  | [], _ => ([], [])
  | queued :: queue, answers =>
      match queued.write behind answers with
      | (true, answers) =>
          ((processQueue behind queue answers).1,
            queued.tickets ++ (processQueue behind queue answers).2)
      | (false, _) => (queued :: queue, [])

def process (s : NetworkClient) (behind : Behind) (answers : List Bool) : NetworkClient :=
  let (queue, written) := processQueue behind s.queue answers
  { s with queue, record := { s.record with accepted := s.record.accepted ++ written } }

/-! ## The storage -/

/-- An operation of the storage, which may excuse messages. -/
def perform (s : NetworkClient) (op : Storage.Operation) : NetworkClient :=
  { s with
    storage := s.storage.perform op
    record :=
      { s.record with
        excused := s.record.excused ++
          s.record.built.filter fun ticket => s.storage.replaces op ticket.entry } }

def withStorage (s : NetworkClient) (storage : Storage) : NetworkClient := { s with storage }

/-- The action of `process_storage` on a dirty entry. -/
def handOver (now : ℤ) (entry : StorageEntry) (s : NetworkClient) : Bool × NetworkClient :=
  let ticket : Ticket :=
    { number := s.record.built.length, entry := entry.handle, message := entryMessage now entry }
  (true,
    { s with
      queue := s.queue ++ [.handed ticket]
      record := { s.record with built := s.record.built ++ [ticket] }
      session :=
        if entry.netId = idNotAssigned then s.session
        else { s.session with used := s.session.used ++ [(entry.netId, entry.path)] } })

/-- `process_storage`. -/
def handOverStorage (s : NetworkClient) (now : ℤ) : NetworkClient :=
  Storage.actOnDirtyEntries storage withStorage (handOver now) s

/-! ## Connections -/

/-- `on_connect`. -/
def onConnect (s : NetworkClient) (timeNow : ℤ) (behind : Behind) (answers : List Bool) :
    NetworkClient :=
  { ({ s with queue := [] }.enqueueImmediate behind (.timeSyncRequest (s.clock.now timeNow))
      answers).1 with
    state := .inHandshakeTimeSync
    session := {} }

/-- `on_close`. -/
def onClose (s : NetworkClient) : NetworkClient :=
  { s with clockSyncTimer := false, state := .opening, connectRetryTimer := true }

/-! ## Messages -/

/-- What `time_sync_response` does to the clock and the storage. -/
def syncClock (s : NetworkClient) (timeNow : ℤ) (data : ParseData) : NetworkClient :=
  match s.clock.sync timeNow data.timeValue data.sendTime with
  | (true, clock) => { s with clock, storage := s.storage.onClockResync clock }
  | (false, _) => s

/-- The handler of a message that was parsed; the exceptions of the storage are
swallowed. -/
def handle (s : NetworkClient) (timeNow : ℤ) (type : MessageType) (data : ParseData) :
    NetworkClient :=
  match type with
  | .entryUpdate =>
      s.perform (.onEntryUpdated (s.clock.now timeNow) data.id data.value data.sendTime)
  | .entryDelete => s.perform (.onEntryDeleted (s.clock.now timeNow) data.id data.sendTime)
  | .entryIdAssign =>
      { s.perform (.onEntryIdAssigned data.id data.name) with
        session :=
          { s.session with assigned := s.session.assigned ++ [(data.id, data.name)] } }
  | .handshakeFinished => { s with state := .inUse, clockSyncTimer := true }
  | .timeSyncResponse =>
      let s := s.syncClock timeNow data
      if s.state = .inHandshakeTimeSync then
        { s.enqueue .handshakeReady with state := .inHandshake }
      else { s with clockSyncTimer := true }
  | _ => s

def onMessage (s : NetworkClient) (timeNow : ℤ) (type : UInt8) (payload : List UInt8) :
    NetworkClient :=
  let parser := s.parser.parse (MessageType.ofByte type) payload
  let s := { s with parser }
  if parser.isFinished then s.handle timeNow (MessageType.ofByte type) parser.data else s

/-! ## Starting and stopping -/

/-- `start`, which throws unless the client is idle. -/
def start (s : NetworkClient) : NetworkClient :=
  if s.state = .idle then
    { s with
      storage := s.storage.clearNetIds
      connectRetryTimer := false
      clockSyncTimer := false
      queue := []
      state := .opening
      session := {} }
  else s

/-- `stop`, which throws if the client is idle. -/
def stop (s : NetworkClient) : NetworkClient := { s with state := .idle }

/-! ## Update ticks -/

/-- What the world does during a tick: the time, whether the two timers have
elapsed, whether opening and connecting the socket succeeds, and the answers to
writes. -/
structure Tick where
  timeNow : ℤ
  syncElapsed : Bool
  retryElapsed : Bool
  opened : Bool
  behind : Behind
  answers : List Bool

/-- The request for the time of the server, when it is due. -/
def requestTimeSync (s : NetworkClient) (tick : Tick) : NetworkClient × List Bool :=
  if s.clockSyncTimer && tick.syncElapsed then
    let (s, answers) := s.enqueueImmediate tick.behind
      (.timeSyncRequest (s.clock.now tick.timeNow)) tick.answers
    ({ s with clockSyncTimer := false }, answers)
  else (s, tick.answers)

/-- `do_open_and_connect`, unless the client waits before it tries again. -/
def openAndConnect (s : NetworkClient) (tick : Tick) : NetworkClient :=
  if s.connectRetryTimer && !tick.retryElapsed then s
  else if tick.opened then { s with state := .connecting, connectRetryTimer := false }
  else { s with connectRetryTimer := true }

/-- The switch over the state in `update`. -/
def advance (s : NetworkClient) (tick : Tick) (answers : List Bool) : NetworkClient :=
  match s.state with
  | .opening => s.openAndConnect tick
  | .inUse => (s.handOverStorage (s.clock.now tick.timeNow)).process tick.behind answers
  | .inHandshakeTimeSync | .inHandshake => s.process tick.behind answers
  | .connecting | .idle => s

def update (s : NetworkClient) (tick : Tick) : NetworkClient :=
  if s.state = .idle then s
  else (s.requestTimeSync tick).1.advance tick (s.requestTimeSync tick).2

/-! ## Runs -/

/-- One step of a run. -/
inductive Input
  | start
  | stop
  | connect (timeNow : ℤ) (behind : Behind) (answers : List Bool)
  | close
  | message (timeNow : ℤ) (type : UInt8) (payload : List UInt8)
  | localOperation (timeNow : ℤ) (op : NetworkServer.LocalOperation)
  | update (tick : Tick)

def step (s : NetworkClient) : Input → NetworkClient
  | .start => s.start
  | .stop => s.stop
  | .connect timeNow behind answers => s.onConnect timeNow behind answers
  | .close => s.onClose
  | .message timeNow type payload => s.onMessage timeNow type payload
  | .localOperation timeNow op => s.perform (op.operation (s.clock.now timeNow))
  | .update tick => s.update tick

/-! ## What a message of the client itself changes -/

/-- A message that goes first changes nothing but the queue, and that only by
itself. -/
theorem enqueueImmediate_frame (s : NetworkClient) (behind : Behind) (message : OutMessage)
    (answers : List Bool) :
    ∃ queue, (s.enqueueImmediate behind message answers).1 = { s with queue } ∧
      ∀ ticket, .handed ticket ∈ queue ↔ .handed ticket ∈ s.queue := by
  unfold enqueueImmediate
  rcases (Queued.own message).write behind answers with ⟨written, rest⟩
  cases written with
  | true => exact ⟨s.queue, rfl, fun _ => Iff.rfl⟩
  | false => exact ⟨.own message :: s.queue, rfl, fun ticket => by simp⟩

theorem requestTimeSync_frame (s : NetworkClient) (tick : Tick) :
    ∃ queue running,
      (s.requestTimeSync tick).1 = { s with queue, clockSyncTimer := running } ∧
        ∀ ticket, .handed ticket ∈ queue ↔ .handed ticket ∈ s.queue := by
  unfold requestTimeSync
  split_ifs
  · obtain ⟨queue, hframe, hqueue⟩ := s.enqueueImmediate_frame tick.behind
      (.timeSyncRequest (s.clock.now tick.timeNow)) tick.answers
    rcases hresult : s.enqueueImmediate tick.behind
      (.timeSyncRequest (s.clock.now tick.timeNow)) tick.answers with ⟨t, answers⟩
    rw [hresult] at hframe
    replace hframe : t = { s with queue } := hframe
    subst hframe
    exact ⟨queue, false, rfl, hqueue⟩
  · exact ⟨s.queue, s.clockSyncTimer, rfl, fun _ => Iff.rfl⟩

/-! ## The queue without its tickets -/

/-- Without the tickets, `process` is that of a message queue. -/
theorem messages_processQueue (behind : Behind) (queue : List Queued) (answers : List Bool) :
    (processQueue behind queue answers).1.map Queued.message =
      (MessageQueue.process (MessageQueue.writeMessage behind
        fun _ _ answers => (answers.headD false, answers.tail))
        (queue.map Queued.message) answers).1 := by
  induction queue generalizing answers with
  | nil => rfl
  | cons queued queue ih =>
      rw [List.map_cons, processQueue, MessageQueue.process, ← Queued.write]
      cases hwrite : queued.write behind answers with
      | mk written rest =>
          cases written with
          | true => exact ih rest
          | false => rfl

end NetworkClient

end Obsr.Net
