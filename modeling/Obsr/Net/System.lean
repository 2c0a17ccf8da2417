/-
# The system

A server and any number of clients, with the connections between them. A connection
keeps packets in order; it loses them only when an end of it closes, and what had been
written before may still arrive at the other end. Every step is one of the server or of
one client, at any time: an operation on a storage, a tick, a packet that arrives, or a
connection that is made, accepted or closed.

A client has one socket for all its connections, and its buffers and its reader are not
reset between them. The socket is soiled if it holds bytes of an earlier connection, and
from when bytes get lost: in a buffer that is filled to the brim, or with a write that is
cut short. While it is soiled any packets may come in place of those that were sent, in
either direction; nothing else is said of how the bytes are taken apart then.

The server writes what its sockets take during a tick; a socket gets the next id of
`server_io`, which no client in the table has.
-/

import Obsr.Net.Line

namespace Obsr.Net

open Obsr.Io Obsr.Lib

/-- What the other end of a connection is to its client. -/
inductive Peer
  | waiting
  | accepted (id : ClientId)
  | gone
  deriving DecidableEq, Repr

/-- A connection a client holds, with the packets in both directions. -/
structure Connection where
  peer : Peer := .waiting
  up : List Packet := []
  down : List Packet := []
  deriving DecidableEq, Repr

structure Node where
  client : NetworkClient
  connection : Option Connection := none
  /-- The socket holds bytes of an earlier connection, or bytes of this one were lost. -/
  soiled : Bool := false
  /-- Ghost: the storage of the client showed nothing when it was connected. -/
  blank : Bool := false

namespace Node

/-- The id of the connection at the server. -/
def accepted (node : Node) : Option ClientId :=
  match node.connection with
  | some ⟨.accepted id, _, _⟩ => some id
  | _ => none

/-- The packet that arrives next. -/
def next (node : Node) : Option Packet := node.connection.bind fun connection =>
  connection.down.head?

/-- What the server writes goes to the connection it has accepted. -/
def deliver (node : Node) (written : ClientId → List Packet) : Node :=
  match node.connection with
  | some ⟨.accepted id, up, down⟩ =>
      { node with connection := some ⟨.accepted id, up, down ++ written id⟩ }
  | _ => node

/-- The server closes the connection. -/
def cut (node : Node) : Node :=
  match node.connection with
  | some ⟨.accepted _, up, down⟩ => { node with connection := some ⟨.gone, up, down⟩ }
  | _ => node

end Node

/-- The clients are named by `ι`. Connections whose client has closed them are known to
the server by their id, if it has accepted them. -/
structure System (ι : Type) where
  server : NetworkServer
  nodes : ι → Node
  abandoned : List (List Packet) := []
  orphans : ClientId → Option (List Packet) := fun _ => none
  /-- Ghost: the last time the clock of the server was read. -/
  reading : ℤ

/-! ## What is written -/

namespace NetworkServer

/-- The tick of a server in use, before it writes. -/
def publishUpdates (s : NetworkServer) (now : ℤ) : NetworkServer :=
  Storage.actOnDirtyEntries storage withStorage (publishDirty now) s

def queueOf (s : NetworkServer) (id : ClientId) : MessageQueue :=
  ((s.clients.find? id).map ServerClient.queue).getD []

/-- What the tick writes to a client; there is nothing to write while the server opens. -/
def written (s : NetworkServer) (now : ℤ) (behind : Behind) (answers : ClientId → List Bool)
    (id : ClientId) : MessageQueue × List Packet :=
  match s.state with
  | .inUse => ((s.publishUpdates now).queueOf id).flush behind (answers id)
  | .opening => ([], [])

/-- The tick, with as many messages as it writes. -/
def updateWith (s : NetworkServer) (now : ℤ) (opened : Bool) (behind : Behind)
    (answers : ClientId → List Bool) : NetworkServer :=
  s.update now opened fun id =>
    ((s.publishUpdates now).queueOf id).length - (s.written now behind answers id).1.length

/-- The answer to a request for the time, if it is written at once. -/
def answer (s : NetworkServer) (now : ℤ) (sender : ClientId) (packet : Packet) (behind : Behind)
    (written : Bool) : List Packet :=
  let parser := s.parser.parse (.ofByte packet.type) packet.payload
  if parser.isFinished && decide (MessageType.ofByte packet.type = .timeSyncRequest) &&
      (s.clients.find? sender).isSome then
    (MessageQueue.flush behind [.timeSyncResponse now parser.data.sendTime] [written]).2
  else []

end NetworkServer

namespace NetworkClient

/-- The request for the time, if it is due and is written at once. -/
def requested (s : NetworkClient) (tick : Tick) : List Packet :=
  if s.clockSyncTimer && tick.syncElapsed then
    (MessageQueue.flush tick.behind [.timeSyncRequest (s.clock.now tick.timeNow)]
      tick.answers).2
  else []

/-- What the queue gives to the connection in a tick. -/
def advanced (s : NetworkClient) (tick : Tick) (answers : List Bool) : List Packet :=
  match s.state with
  | .inUse =>
      ((s.handOverStorage (s.clock.now tick.timeNow)).messages.flush tick.behind answers).2
  | .inHandshakeTimeSync | .inHandshake => (s.messages.flush tick.behind answers).2
  | .opening | .connecting | .idle => []

/-- What a tick writes. -/
def written (s : NetworkClient) (tick : Tick) : List Packet :=
  if s.state = .idle then []
  else
    s.requested tick ++
      (s.requestTimeSync tick).1.advanced tick (s.requestTimeSync tick).2

/-! ## Messages between the queue and the connection -/

/-- A client goes on with its queue as a line does, and writes packets; `new` are the messages
that came to the queue. -/
abbrev Moves (s s' : NetworkClient) (packets : List Packet) (new : OutMessage → Prop) : Prop :=
  Line.Works new s.messages s'.messages packets

variable {s : NetworkClient}

theorem moves_same (s : NetworkClient) {s' : NetworkClient} (hqueue : s'.queue = s.queue)
    (new : OutMessage → Prop) : s.Moves s' [] new := by
  have hmessages : s'.messages = s.messages := congrArg (List.map Queued.message) hqueue
  unfold Moves
  rw [hmessages]
  exact Line.Works.refl new s.messages

theorem moves_process (s : NetworkClient) (behind : Behind) (answers : List Bool)
    (new : OutMessage → Prop) :
    s.Moves (s.process behind answers) (s.messages.flush behind answers).2 new := by
  have hleft : (s.process behind answers).messages = (s.messages.flush behind answers).1 := by
    rw [MessageQueue.fst_flush]
    exact messages_processQueue behind s.queue answers
  unfold Moves
  rw [hleft]
  exact Line.Works.process new behind answers s.messages

/-- A message that goes first is before the others if it is not written. -/
theorem messages_enqueueImmediate (s : NetworkClient) (behind : Behind) (message : OutMessage)
    (answers : List Bool) :
    (s.enqueueImmediate behind message answers).1.messages =
      (MessageQueue.flush behind [message] answers).1 ++ s.messages := by
  have hleft := MessageQueue.fst_flush behind [message] answers
  rw [MessageQueue.process] at hleft
  unfold enqueueImmediate Queued.write Queued.message
  dsimp only
  rcases hwrite : MessageQueue.writeMessage behind
    (fun _ _ answers => (answers.headD false, answers.tail)) message answers with
    ⟨written, rest⟩
  rw [hwrite] at hleft
  cases written with
  | true =>
      replace hleft : (MessageQueue.flush behind [message] answers).1 = [] := hleft
      rw [hwrite, hleft]
      rfl
  | false =>
      replace hleft : (MessageQueue.flush behind [message] answers).1 = [message] := hleft
      rw [hwrite, hleft]
      rfl

theorem moves_enqueueImmediate (s : NetworkClient) (behind : Behind) (message : OutMessage)
    (answers : List Bool) :
    s.Moves (s.enqueueImmediate behind message answers).1
      (MessageQueue.flush behind [message] answers).2 (· = message) := by
  unfold Moves
  rw [s.messages_enqueueImmediate]
  have hworks := Line.Works.enqueueImmediate (rfl : message = message) behind answers s.messages
  exact hworks.imp fun _ hother => hother.symm

/-- The messages a tick may build: a request for the time, and those of dirty entries. -/
def BuiltIn (s : NetworkClient) (now : ℤ) (message : OutMessage) : Prop :=
  message = .timeSyncRequest now ∨
    s.state = .inUse ∧ ∃ entry ∈ s.storage.dirtyEntries, message = entryMessage now entry

theorem requestTimeSync_same (s : NetworkClient) (tick : Tick) :
    (s.requestTimeSync tick).1.state = s.state ∧ (s.requestTimeSync tick).1.storage = s.storage ∧
      (s.requestTimeSync tick).1.clock = s.clock := by
  obtain ⟨queue, running, hframe, -⟩ := s.requestTimeSync_frame tick
  rw [hframe]
  exact ⟨rfl, rfl, rfl⟩

theorem moves_requestTimeSync (s : NetworkClient) (tick : Tick) :
    s.Moves (s.requestTimeSync tick).1 (s.requested tick)
      (s.BuiltIn (s.clock.now tick.timeNow)) := by
  unfold requestTimeSync requested
  split_ifs
  · have hmoves := s.moves_enqueueImmediate tick.behind
      (.timeSyncRequest (s.clock.now tick.timeNow)) tick.answers
    rcases hresult : s.enqueueImmediate tick.behind (.timeSyncRequest (s.clock.now tick.timeNow))
      tick.answers with ⟨t, answers⟩
    rw [hresult] at hmoves
    exact hmoves.imp fun _ hrequest => .inl hrequest
  · exact s.moves_same rfl _

theorem moves_handOverStorage (s : NetworkClient) (now : ℤ) (hstate : s.state = .inUse) :
    s.Moves (s.handOverStorage now) [] (s.BuiltIn now) := by
  have hmessages : (s.handOverStorage now).messages =
      s.messages ++ s.storage.dirtyEntries.map (entryMessage now) := by
    have hlog := Storage.log_actOnDirtyEntries storage withStorage (handOver now) messages
      (fun entry => [entryMessage now entry]) (fun _ _ => rfl) (fun _ _ => rfl) (fun _ _ => rfl)
      (fun _ _ => rfl) (fun entry s => by simp [handOver, messages, Queued.message]) s
    rw [← List.map_eq_flatMap] at hlog
    exact hlog
  unfold Moves
  rw [hmessages]
  refine Line.Works.enqueueAll (fun message hbuilt => .inr ⟨hstate, ?_⟩) s.messages
  obtain ⟨entry, hentry, rfl⟩ := List.mem_map.mp hbuilt
  exact ⟨entry, hentry, rfl⟩

/-- A tick loses no message: it goes on as a line does. -/
theorem moves_update (s : NetworkClient) (tick : Tick) :
    s.Moves (s.update tick) (s.written tick) (s.BuiltIn (s.clock.now tick.timeNow)) := by
  unfold update written
  split_ifs with hidle
  · exact s.moves_same rfl _
  · obtain ⟨hstate, hstorage, hclock⟩ := s.requestTimeSync_same tick
    refine (s.moves_requestTimeSync tick).trans ?_
    have hbuilt : s.BuiltIn (s.clock.now tick.timeNow) =
        (s.requestTimeSync tick).1.BuiltIn
          ((s.requestTimeSync tick).1.clock.now tick.timeNow) := by
      unfold BuiltIn
      rw [hstate, hstorage, hclock]
    rw [hbuilt]
    generalize (s.requestTimeSync tick).1 = t
    generalize (s.requestTimeSync tick).2 = answers
    unfold advance advanced
    cases hstate' : t.state with
    | inUse =>
        have hhanded := t.moves_handOverStorage (t.clock.now tick.timeNow) hstate'
        exact hhanded.trans (moves_process _ tick.behind answers _)
    | inHandshakeTimeSync => exact moves_process t tick.behind answers _
    | inHandshake => exact moves_process t tick.behind answers _
    | opening =>
        refine t.moves_same ?_ _
        unfold openAndConnect
        split_ifs <;> rfl
    | connecting => exact t.moves_same rfl _
    | idle => exact t.moves_same rfl _

end NetworkClient

namespace System

variable {ι : Type} [DecidableEq ι]

/-- Everything is started, and there is no connection. -/
def new (memory : ParseData) (storage : Storage) (reading : ℤ)
    (clients : ι → NetworkClient) : System ι where
  server := NetworkServer.start memory storage
  nodes n := { client := clients n }
  reading := reading

def setNode (s : System ι) (n : ι) (node : Node) : System ι :=
  { s with nodes := Function.update s.nodes n node }

/-- A step of the server at a time of its clock. -/
def serve (s : System ι) (now : ℤ) (server : NetworkServer) : System ι :=
  { s with server, reading := now }

/-! ## Steps of the server -/

/-- A tick puts packets on the connections that were accepted. -/
def serverUpdate (s : System ι) (now : ℤ) (opened : Bool) (behind : Behind)
    (answers : ClientId → List Bool) : System ι :=
  { s.serve now (s.server.updateWith now opened behind answers) with
    nodes := fun n => (s.nodes n).deliver fun id => (s.server.written now behind answers id).2 }

/-- `on_close`: all sockets are gone. -/
def serverClose (s : System ι) : System ι :=
  { s with
    server := s.server.onClose
    nodes := fun n => (s.nodes n).cut
    orphans := fun _ => none }

/-- A connection is accepted under an id that is free. -/
def accept (s : System ι) (n : ι) (id : ClientId) : System ι :=
  match (s.nodes n).connection with
  | some ⟨.waiting, up, down⟩ =>
      if s.server.state = .inUse ∧ s.server.clients.find? id = none then
        { s.setNode n { s.nodes n with connection := some ⟨.accepted id, up, down⟩ } with
          server := s.server.onConnect id }
      else s
  | _ => s

/-- The same for one whose client has closed it. -/
def acceptAbandoned (s : System ι) (id : ClientId) : System ι :=
  match s.abandoned with
  | up :: abandoned =>
      if s.server.state = .inUse ∧ s.server.clients.find? id = none then
        { s with
          server := s.server.onConnect id
          abandoned
          orphans := Function.update s.orphans id (some up) }
      else s
  | [] => s

/-- A packet arrives at the server. -/
def serverReceive (s : System ι) (n : ι) (now : ℤ) (behind : Behind) (written : Bool) :
    System ι :=
  match (s.nodes n).connection with
  | some ⟨.accepted id, packet :: up, down⟩ =>
      (s.serve now (s.server.onMessage now id packet.type packet.payload written)).setNode n
        { s.nodes n with
          connection :=
            some ⟨.accepted id, up, down ++ s.server.answer now id packet behind written⟩ }
  | _ => s

def orphanReceive (s : System ι) (id : ClientId) (now : ℤ) (written : Bool) : System ι :=
  match s.orphans id with
  | some (packet :: up) =>
      { s.serve now (s.server.onMessage now id packet.type packet.payload written) with
        orphans := Function.update s.orphans id (some up) }
  | _ => s

/-- The server closes a connection. -/
def serverDrop (s : System ι) (n : ι) : System ι :=
  match (s.nodes n).connection with
  | some ⟨.accepted id, up, down⟩ =>
      { s.setNode n { s.nodes n with connection := some ⟨.gone, up, down⟩ } with
        server := s.server.onDisconnect id }
  | _ => s

/-- The server finds that a client has closed its connection. -/
def orphanGone (s : System ι) (id : ClientId) : System ι :=
  match s.orphans id with
  | some _ =>
      { s with
        server := s.server.onDisconnect id
        orphans := Function.update s.orphans id none }
  | none => s

/-! ## Steps of a client -/

/-- The client goes on with the connection it has. -/
def move (s : System ι) (n : ι) (client : NetworkClient) : System ι :=
  s.setNode n { s.nodes n with client }

/-- What a client has written stays with the server when it closes the connection. Bytes may
be left in its socket. -/
def leave (s : System ι) (n : ι) (client : NetworkClient) (left : Bool) : System ι :=
  let s' := s.setNode n
    { client, soiled := if (s.nodes n).connection.isSome then left else (s.nodes n).soiled }
  match (s.nodes n).connection with
  | some ⟨.waiting, up, _⟩ => { s' with abandoned := s.abandoned ++ [up] }
  | some ⟨.accepted id, up, _⟩ =>
      { s' with orphans := Function.update s.orphans id (some up) }
  | _ => s'

/-- The socket is connected. What is left in it stays there. -/
def connect (s : System ι) (n : ι) (timeNow : ℤ) (behind : Behind) (answers : List Bool) :
    System ι :=
  let client := (s.nodes n).client
  if client.state = .connecting ∧ (s.nodes n).connection.isNone then
    s.setNode n
      { s.nodes n with
        client := client.onConnect timeNow behind answers
        connection := some
          { up := (MessageQueue.flush behind [.timeSyncRequest (client.clock.now timeNow)]
              answers).2 }
        blank := client.storage.showsNothing }
  else s

/-- `on_close`: the socket is closed, or was not connected. -/
def close (s : System ι) (n : ι) (left : Bool) : System ι :=
  if (s.nodes n).connection.isSome ∨ (s.nodes n).client.state = .connecting then
    s.leave n (s.nodes n).client.onClose left
  else s

/-- A tick puts packets on the connection there is. -/
def update (s : System ι) (n : ι) (tick : NetworkClient.Tick) : System ι :=
  let client := (s.nodes n).client
  s.setNode n
    { s.nodes n with
      client := client.update tick
      connection := (s.nodes n).connection.map fun connection =>
        { connection with up := connection.up ++ client.written tick } }

/-- A packet arrives at a client. -/
def receive (s : System ι) (n : ι) (timeNow : ℤ) : System ι :=
  match (s.nodes n).connection with
  | some ⟨peer, up, packet :: down⟩ =>
      s.setNode n
        { s.nodes n with
          client := (s.nodes n).client.onMessage timeNow packet.type packet.payload
          connection := some ⟨peer, up, down⟩ }
  | _ => s

/-! ## Soiled sockets -/

/-- Bytes get lost. -/
def spoil (s : System ι) (n : ι) : System ι := s.setNode n { s.nodes n with soiled := true }

/-- The bytes on a connection are taken for other packets. -/
def garble (s : System ι) (n : ι) (up down : List Packet) : System ι :=
  match (s.nodes n).connection with
  | some ⟨peer, _, _⟩ =>
      if (s.nodes n).soiled = true then
        s.setNode n { s.nodes n with connection := some ⟨peer, up, down⟩ }
      else s
  | none => s

/-- A socket that is closed hands out what is left in it. -/
def stray (s : System ι) (n : ι) (timeNow : ℤ) (packet : Packet) : System ι :=
  if (s.nodes n).soiled = true ∧ (s.nodes n).connection.isNone then
    s.move n ((s.nodes n).client.onMessage timeNow packet.type packet.payload)
  else s

/-! ## Runs -/

inductive Input (ι : Type)
  | serverOperation (now : ℤ) (op : NetworkServer.LocalOperation)
  | serverUpdate (now : ℤ) (opened : Bool) (behind : Behind) (answers : ClientId → List Bool)
  | serverClose
  | accept (n : ι) (id : ClientId)
  | acceptAbandoned (id : ClientId)
  | serverReceive (n : ι) (now : ℤ) (behind : Behind) (written : Bool)
  | orphanReceive (id : ClientId) (now : ℤ) (written : Bool)
  | serverDrop (n : ι)
  | orphanGone (id : ClientId)
  | start (n : ι)
  | stop (n : ι) (left : Bool)
  | operation (n : ι) (timeNow : ℤ) (op : NetworkServer.LocalOperation)
  | connect (n : ι) (timeNow : ℤ) (behind : Behind) (answers : List Bool)
  | close (n : ι) (left : Bool)
  | update (n : ι) (tick : NetworkClient.Tick)
  | receive (n : ι) (timeNow : ℤ)
  | spoil (n : ι)
  | garble (n : ι) (up down : List Packet)
  | stray (n : ι) (timeNow : ℤ) (packet : Packet)

def step (s : System ι) : Input ι → System ι
  | .serverOperation now op =>
      s.serve now (s.server.withStorage (s.server.storage.perform (op.operation now)))
  | .serverUpdate now opened behind answers => s.serverUpdate now opened behind answers
  | .serverClose => s.serverClose
  | .accept n id => s.accept n id
  | .acceptAbandoned id => s.acceptAbandoned id
  | .serverReceive n now behind written => s.serverReceive n now behind written
  | .orphanReceive id now written => s.orphanReceive id now written
  | .serverDrop n => s.serverDrop n
  | .orphanGone id => s.orphanGone id
  | .start n => s.move n (s.nodes n).client.start
  | .stop n left => s.leave n (s.nodes n).client.stop left
  | .operation n timeNow op =>
      s.move n
        ((s.nodes n).client.perform (op.operation ((s.nodes n).client.clock.now timeNow)))
  | .connect n timeNow behind answers => s.connect n timeNow behind answers
  | .close n left => s.close n left
  | .update n tick => s.update n tick
  | .receive n timeNow => s.receive n timeNow
  | .spoil n => s.spoil n
  | .garble n up down => s.garble n up down
  | .stray n timeNow packet => s.stray n timeNow packet

def run (s : System ι) (inputs : List (Input ι)) : System ι := inputs.foldl step s

end System

end Obsr.Net
