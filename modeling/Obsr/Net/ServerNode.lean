/-
# The server behind its lock

`network_server` with the sockets of its clients, as `server_io` keeps them. The callbacks
take the lock of the server and the update tick does not. While the lock is held only
`on_message` calls into a socket, to answer a request for the time; a write that closes
the socket comes back through `on_disconnect`.
-/

import Obsr.Lib.Mutex
import Obsr.Lib.Run
import Obsr.Net.Sending
import Obsr.Net.Server
import Obsr.Net.SocketOwner

namespace Obsr.Net

open Obsr.Io Obsr.Lib

/-- Of `server_io`: whether it is open, the ids in its map of clients with their sockets,
and the next id. -/
structure ServerNode where
  server : NetworkServer
  running : Bool
  listening : Bool
  known : Finset ClientId
  sockets : ClientId → SocketIo
  nextClientId : ClientId

namespace ServerNode

/-- A server that was started; `blank` is what the sockets are before there are any. -/
def new (memory : ParseData) (storage : Storage) (blank : SocketIo.Memory) :
    Guarded ServerNode where
  state :=
    { server := NetworkServer.start memory storage
      running := true
      listening := false
      known := ∅
      sockets := fun _ => SocketIo.new blank
      nextClientId := 0 }

def withServer (work : NetworkServer → NetworkServer) (n : ServerNode) : ServerNode :=
  { n with server := work n.server }

def withSocket (id : ClientId) (io : SocketIo) (n : ServerNode) : ServerNode :=
  { n with sockets := Function.update n.sockets id io }

/-! ## The callbacks -/

def onConnect (id : ClientId) : Guarded ServerNode → Guarded ServerNode :=
  Guarded.lock (Guarded.map (withServer (·.onConnect id)))

def onDisconnect (id : ClientId) : Guarded ServerNode → Guarded ServerNode :=
  Guarded.lock (Guarded.map (withServer (·.onDisconnect id)))

def onClose : Guarded ServerNode → Guarded ServerNode :=
  Guarded.lock (Guarded.map (withServer (·.onClose)))

/-- `write_to`, which throws unless it is open and knows the client. -/
def destination (n : ServerNode) (id : ClientId) : MessageQueue.Destination Sending :=
  if n.listening = true ∧ id ∈ n.known then Sending.destination
  else fun _ _ sending => (false, { sending with thrown := true })

/-- What writes have done to the socket of a client. The last thing a write does is to
call `on_close`, and then it was the last write. -/
def absorb (id : ClientId) (sending : Sending) (s : Guarded ServerNode) : Guarded ServerNode :=
  let s := s.map (withSocket id sending.io)
  if sending.closed then onDisconnect id s else s

/-- The message that `on_message` writes before it returns. -/
def immediateReply (n : ServerNode) (now : ℤ) (sender : ClientId) (type : UInt8)
    (payload : List UInt8) : Option OutMessage :=
  let parser := n.server.parser.parse (MessageType.ofByte type) payload
  if parser.isFinished = true ∧ MessageType.ofByte type = .timeSyncRequest ∧
      (n.server.clients.find? sender).isSome = true then
    some (.timeSyncResponse now parser.data.sendTime)
  else none

/-- A reply that is refused goes into the queue, and one whose write throws does not. -/
def onMessage (now : ℤ) (behind : Behind) (id : ClientId) (header : MessageHeader)
    (message : List UInt8) : Guarded ServerNode → Guarded ServerNode :=
  Guarded.lock fun s =>
    match s.state.immediateReply now id header.type message with
    | none => s.map (withServer (·.onMessage now id header.type message false))
    | some reply =>
        let (written, sending) := MessageQueue.writeMessage behind (s.state.destination id) reply
          { io := s.state.sockets id }
        (absorb id sending s).map
          (withServer (·.onMessage now id header.type message (written || sending.thrown)))

def owner (now : ℤ) (behind : Behind) (id : ClientId) : SocketOwner (Guarded ServerNode) where
  io s := s.state.sockets id
  setIo s io := s.map (withSocket id io)
  onConnect := onConnect id
  onClose := onDisconnect id
  onMessage := onMessage now behind id

/-! ## The listening socket -/

/-- `server_io::stop_internal`: the clients are stopped without a call. -/
def stopListening (n : ServerNode) : ServerNode :=
  if n.listening then
    { n with listening := false, known := ∅, sockets := fun id => (n.sockets id).stop.1 }
  else n

/-- A connection was accepted. An id that is taken is not taken again, and a socket that
cannot be `configured` is dropped. -/
def accept (memory : SocketIo.Memory) (configured : Bool) (s : Guarded ServerNode) :
    Guarded ServerNode :=
  let id := s.state.nextClientId
  let s := s.map fun n => { n with nextClientId := n.nextClientId + 1 }
  if id ∈ s.state.known ∨ configured = false then s
  else
    onConnect id (s.map fun n =>
      { n.withSocket id ((SocketIo.new memory).start true) with known := insert id n.known })

def listenerHung (s : Guarded ServerNode) : Guarded ServerNode :=
  if s.state.listening then onClose (s.map stopListening) else s

/-! ## Update ticks -/

/-- What the world does during a tick: the time, whether the server waits before it tries
to open again, and whether that succeeds. -/
structure Tick where
  now : ℤ
  waits : Bool
  opened : Bool
  behind : Behind

/-- `do_open`. -/
def doOpen (opened : Bool) (n : ServerNode) : ServerNode :=
  if n.listening = false ∧ opened = true then
    { n with
      server := { n.server with state := .inUse }
      listening := true
      known := ∅
      nextClientId := 0 }
  else n.stopListening

/-- The update of a client, and whether a write has thrown. -/
def updateClient (behind : Behind) (id : ClientId) (s : Guarded ServerNode) :
    Bool × Guarded ServerNode :=
  match s.state.server.clients.find? id with
  | none => (false, s)
  | some client =>
      let (queue, sending) := client.queue.process
        (MessageQueue.writeMessage behind (s.state.destination id)) { io := s.state.sockets id }
      let takes := client.queue.length - queue.length
      (sending.thrown, (absorb id sending s).map (withServer fun server =>
        { server with clients := server.clients.modify id (·.update takes) }))

/-- The loop over the clients; an exception ends it. A write that closes a socket takes the
client out of the map below the loop, which is undefined in the source; here the loop goes
on. -/
def updateClients (behind : Behind) : List ClientId → Guarded ServerNode → Guarded ServerNode
  | [], s => s
  | id :: ids, s =>
      let (thrown, s) := updateClient behind id s
      if thrown then s else updateClients behind ids s

def publishStorage (now : ℤ) : ServerNode → ServerNode :=
  withServer fun server => Storage.actOnDirtyEntries NetworkServer.storage
    NetworkServer.withStorage (NetworkServer.publishDirty now) server

def processUpdates (tick : Tick) (s : Guarded ServerNode) : Guarded ServerNode :=
  let s := s.map (publishStorage tick.now)
  updateClients tick.behind (s.state.server.clients.entries.map Prod.fst) s

def update (tick : Tick) (s : Guarded ServerNode) : Guarded ServerNode :=
  if s.state.running = false then s
  else
    match s.state.server.state with
    | .opening => if tick.waits then s else s.map (doOpen tick.opened)
    | .inUse => if s.state.server.clients.entries.isEmpty then s else processUpdates tick s

/-! ## Runs -/

/-- `start`, which throws unless the server is idle. -/
def start (n : ServerNode) : ServerNode :=
  if n.running then n
  else
    { n with
      server :=
        { n.server with
          nextEntryId := 0
          clients := OrderedMap.empty
          storage := n.server.storage.clearNetIds
          state := .opening }
      running := true }

/-- `stop`, which throws if the server is idle. -/
def stop (n : ServerNode) : ServerNode :=
  if n.running then { n.stopListening with running := false } else n

inductive Input
  | start
  | stop
  | localOperation (now : ℤ) (op : NetworkServer.LocalOperation)
  | accept (memory : SocketIo.Memory) (configured : Bool)
  | listenerHung
  | socket (now : ℤ) (behind : Behind) (id : ClientId) (event : SocketIo.Event)
  | update (tick : Tick)

def step (s : Guarded ServerNode) : Input → Guarded ServerNode
  | .start => s.lock (Guarded.map start)
  | .stop => s.lock (Guarded.map stop)
  | .localOperation now op =>
      s.map (withServer fun server =>
        server.withStorage (server.storage.perform (op.operation now)))
  | .accept memory configured => if s.state.listening then accept memory configured s else s
  | .listenerHung => listenerHung s
  | .socket now behind id event =>
      if id ∈ s.state.known then (owner now behind id).step s event.input else s
  | .update tick => update tick s

/-! ## Calls that close a socket under the lock -/

/-- The message makes `on_message` write a reply that is cut short. -/
def ReplyCutsShort (now : ℤ) (behind : Behind) (id : ClientId)
    (message : MessageHeader × List UInt8) (n : ServerNode) : Prop :=
  n.listening = true ∧ id ∈ n.known ∧
    ∃ reply ∈ n.immediateReply now id message.1.type message.2,
      Sending.CutsShort behind (n.sockets id) reply

/-- None of the messages that are delivered one after the other does so. -/
def RepliesWhole (now : ℤ) (behind : Behind) (id : ClientId) :
    Guarded ServerNode → List (MessageHeader × List UInt8) → Prop
  | _, [] => True
  | s, message :: rest =>
      ¬ ReplyCutsShort now behind id message s.state ∧
        RepliesWhole now behind id (onMessage now behind id message.1 message.2 s) rest

/-- The complete messages a read finds are answered whole. -/
def Whole (s : Guarded ServerNode) : Input → Prop
  | .socket now behind id (.readReady first second) =>
      id ∈ s.state.known → (s.state.sockets id).state = .connected →
        let (reader, transfer) := (s.state.sockets id).reader.update first second
        let owner := owner now behind id
        RepliesWhole now behind id (owner.afterRead transfer (owner.setReader s reader))
          reader.wholeBacklog.messages
  | _ => True

/-! ## One message -/

variable {now : ℤ} {behind : Behind} {id : ClientId} {s : Guarded ServerNode} {n : ServerNode}

/-- What `on_message` writes to the socket of the sender. -/
def writeReply (behind : Behind) (id : ClientId) (reply : OutMessage) (n : ServerNode) :
    Bool × Sending :=
  MessageQueue.writeMessage behind (n.destination id) reply { io := n.sockets id }

theorem closed_writeReply (behind : Behind) (id : ClientId) (reply : OutMessage)
    (n : ServerNode) :
    (writeReply behind id reply n).2.closed = true ↔
      n.listening = true ∧ id ∈ n.known ∧ Sending.CutsShort behind (n.sockets id) reply := by
  unfold writeReply destination
  by_cases hreaches : n.listening = true ∧ id ∈ n.known
  · rw [if_pos hreaches, and_iff_right hreaches.1, and_iff_right hreaches.2]
    exact (Sending.closed_writeMessage behind reply _).trans (or_iff_right Bool.false_ne_true)
  · rw [if_neg hreaches]
    refine iff_of_false ?_ fun hcuts => hreaches ⟨hcuts.1, hcuts.2.1⟩
    unfold MessageQueue.writeMessage
    cases reply.serializer behind with
    | none => exact Bool.false_ne_true
    | some serializer =>
        cases hbuffer : serializer (BoundedBuffer.empty MessageSerializer.writerBufferSize) with
        | none => simp [hbuffer]
        | some buffer => simp [hbuffer]

theorem onDisconnect_of_held (h : s.held = true) : onDisconnect id s = { s with stuck := true } :=
  Guarded.lock_of_held h

theorem absorb_of_held (h : s.held = true) (sending : Sending) :
    absorb id sending s =
      { s with state := s.state.withSocket id sending.io, stuck := s.stuck || sending.closed } := by
  unfold absorb
  cases hclosed : sending.closed with
  | true =>
      rw [if_pos rfl, Bool.or_true]
      exact onDisconnect_of_held h
  | false =>
      rw [if_neg Bool.false_ne_true, Bool.or_false]
      rfl

theorem onMessage_of_held (h : s.held = true) (header : MessageHeader) (message : List UInt8) :
    onMessage now behind id header message s = { s with stuck := true } :=
  Guarded.lock_of_held h

/-- `on_message` with a lock that is free, as one change of the state. -/
theorem onMessage_of_free (h : s.held = false) (header : MessageHeader) (message : List UInt8) :
    onMessage now behind id header message s =
      match s.state.immediateReply now id header.type message with
      | none => s.map (withServer (·.onMessage now id header.type message false))
      | some reply =>
          let (written, sending) := writeReply behind id reply s.state
          { state := (s.state.withSocket id sending.io).withServer
              (·.onMessage now id header.type message (written || sending.thrown))
            held := false
            stuck := s.stuck || sending.closed } := by
  rw [onMessage, Guarded.lock_of_free h]
  simp only
  cases s.state.immediateReply now id header.type message with
  | none =>
      simp only [Guarded.map, ← h]
  | some reply =>
      simp only
      rw [absorb_of_held rfl]
      rfl

theorem held_onMessage (now : ℤ) (behind : Behind) (id : ClientId) (h : s.held = false)
    (header : MessageHeader) (message : List UInt8) :
    (onMessage now behind id header message s).held = false := by
  rw [onMessage, Guarded.held_lock h]

theorem stuck_onMessage (now : ℤ) (behind : Behind) (id : ClientId) (h : s.held = false)
    (header : MessageHeader) (message : List UInt8) :
    (onMessage now behind id header message s).stuck = true ↔
      s.stuck = true ∨ ReplyCutsShort now behind id (header, message) s.state := by
  rw [onMessage_of_free h]
  unfold ReplyCutsShort
  cases hreply : s.state.immediateReply now id header.type message with
  | none => simp
  | some reply =>
      have hclosed := closed_writeReply behind id reply s.state
      show (s.stuck || (writeReply behind id reply s.state).2.closed) = true ↔ _
      rw [Bool.or_eq_true_iff, hclosed]
      simp

/-! ## The reader of a socket -/

def withSockets (s : Guarded ServerNode) (sockets : ClientId → SocketIo) : Guarded ServerNode :=
  { s with state := { s.state with sockets } }

theorem lawful_owner (now : ℤ) (behind : Behind) (id : ClientId) :
    (owner now behind id).Lawful where
  io_setIo s io := by
    show Function.update s.state.sockets id io id = io
    exact Function.update_self ..
  setIo_setIo s io io' := by
    show withSockets s (Function.update (Function.update s.state.sockets id io) id io') =
      withSockets s (Function.update s.state.sockets id io')
    rw [Function.update_idem]
  setIo_io s := by
    show withSockets s (Function.update s.state.sockets id (s.state.sockets id)) = s
    rw [Function.update_eq_self]
    rfl

/-- Another reader in the socket of a client. -/
def withReader (id : ClientId) (reader : Reader) (n : ServerNode) : ServerNode :=
  n.withSocket id { n.sockets id with reader }

theorem withSocket_withReader (id : ClientId) (io : SocketIo) (reader : Reader)
    (n : ServerNode) :
    withSocket id { io with reader } (n.withReader id reader) =
      (n.withSocket id io).withReader id reader := by
  unfold withReader withSocket
  simp only [Function.update_self, Function.update_idem]

theorem writeReply_withReader (behind : Behind) (id : ClientId) (reply : OutMessage)
    (reader : Reader) (n : ServerNode) :
    writeReply behind id reply (n.withReader id reader) =
      ((writeReply behind id reply n).1,
        { (writeReply behind id reply n).2 with
          io := { (writeReply behind id reply n).2.io with reader } }) := by
  have hsocket : (n.withReader id reader).sockets id = { n.sockets id with reader } :=
    Function.update_self ..
  have hdestination : (n.withReader id reader).destination id = n.destination id := rfl
  unfold writeReply MessageQueue.writeMessage
  rw [hsocket, hdestination]
  cases reply.serializer behind with
  | none => rfl
  | some serializer =>
      cases hbuffer : serializer (BoundedBuffer.empty MessageSerializer.writerBufferSize) with
      | none => simp [hbuffer]
      | some buffer =>
          simp only [hbuffer, destination]
          split_ifs
          · exact Sending.destination_withReader _ _ { io := n.sockets id } reader
          · rfl

theorem blind_owner (now : ℤ) (behind : Behind) (id : ClientId) :
    (owner now behind id).Blind where
  toLawful := lawful_owner now behind id
  onMessage_setReader header message s reader := by
    show onMessage now behind id header message (s.map (withReader id reader)) =
      (onMessage now behind id header message s).map (withReader id reader)
    cases hheld : s.held with
    | true =>
        rw [onMessage_of_held hheld, onMessage_of_held (s := s.map _) hheld]
        rfl
    | false =>
        have hreply : (s.map (withReader id reader)).state.immediateReply now id header.type
            message = s.state.immediateReply now id header.type message := rfl
        rw [onMessage_of_free hheld, onMessage_of_free (s := s.map _) hheld, hreply]
        cases s.state.immediateReply now id header.type message with
        | none => rfl
        | some reply =>
            have hwrite := writeReply_withReader behind id reply reader s.state
            have hsocket := withSocket_withReader id (writeReply behind id reply s.state).2.io
              reader s.state
            simp only [Guarded.state_map, hwrite, hsocket]
            rfl

/-! ## One step -/

/-- Between two calls, with what has become of the thread so far. -/
def Stands (stuck : Bool) (s : Guarded ServerNode) : Prop := s.held = false ∧ s.stuck = stuck

theorem stands_setIo (now : ℤ) (behind : Behind) (id : ClientId) (stuck : Bool)
    (s : Guarded ServerNode) (io : SocketIo) (h : Stands stuck s) :
    Stands stuck ((owner now behind id).setIo s io) := h

theorem stands_onDisconnect (id : ClientId) (stuck : Bool) (s : Guarded ServerNode)
    (h : Stands stuck s) : Stands stuck (onDisconnect id s) :=
  ⟨Guarded.held_lock h.1, (Guarded.stuck_lock_map h.1 _).trans h.2⟩

theorem stands_settle (now : ℤ) (behind : Behind) (id : ClientId) (backlog : Reader.Backlog)
    {stuck : Bool} (h : Stands stuck s) :
    Stands stuck ((owner now behind id).settle backlog s) := by
  unfold SocketOwner.settle
  split_ifs
  · exact SocketOwner.stopInternal_invariant (stands_setIo now behind id stuck)
      (stands_onDisconnect id stuck) h
  · exact h

/-- The induction is on the messages. A thread that is stuck stays stuck. -/
theorem stuck_deliver (now : ℤ) (behind : Behind) (id : ClientId) (h : s.held = false)
    (messages : List (MessageHeader × List UInt8)) :
    ((owner now behind id).deliver s messages).held = false ∧
      (((owner now behind id).deliver s messages).stuck = true ↔
        s.stuck = true ∨ ¬ RepliesWhole now behind id s messages) := by
  induction messages generalizing s with
  | nil => exact ⟨h, by simp [SocketOwner.deliver, RepliesWhole]⟩
  | cons message rest ih =>
      have hnext := stuck_onMessage now behind id h message.1 message.2
      obtain ⟨hheld, hrest⟩ := ih (held_onMessage now behind id h message.1 message.2)
      refine ⟨hheld, hrest.trans ?_⟩
      rw [hnext, RepliesWhole, not_and_or, not_not, or_assoc]

theorem sockets_onDisconnect (id : ClientId) (s : Guarded ServerNode) :
    (onDisconnect id s).state.sockets = s.state.sockets := by
  unfold onDisconnect Guarded.lock
  split_ifs <;> rfl

theorem onReadReady_eq (now : ℤ) (behind : Behind) (id : ClientId)
    (hconnected : (s.state.sockets id).state = .connected) (first second : ReadCall) :
    (owner now behind id).onReadReady first second s =
      let (reader, transfer) := (s.state.sockets id).reader.update first second
      let owner := owner now behind id
      owner.settle reader.wholeBacklog
        (owner.deliver (owner.afterRead transfer (owner.setReader s reader))
          reader.wholeBacklog.messages) :=
  (blind_owner now behind id).onReadReady_eq
    (fun s => congrArg (fun sockets => (sockets id).reader) (sockets_onDisconnect id s))
    hconnected first second

theorem readReady_spec (h : s.Free) (now : ℤ) (behind : Behind) {id : ClientId}
    (hknown : id ∈ s.state.known) (first second : ReadCall) :
    ((owner now behind id).onReadReady first second s).held = false ∧
      (((owner now behind id).onReadReady first second s).stuck = false ↔
        Whole s (.socket now behind id (.readReady first second))) := by
  by_cases hconnected : (s.state.sockets id).state = .connected
  · rw [onReadReady_eq now behind id hconnected, Whole, imp_iff_right hknown,
      imp_iff_right hconnected]
    rcases (s.state.sockets id).reader.update first second with ⟨reader, transfer⟩
    simp only
    have hread := SocketOwner.afterRead_invariant (stands_setIo now behind id false)
      (stands_onDisconnect id false) transfer
      (s := (owner now behind id).setReader s reader) ⟨h.held, h.stuck⟩
    obtain ⟨hheld, hstuck⟩ := stuck_deliver now behind id hread.1 reader.wholeBacklog.messages
    obtain ⟨hheld', hstuck'⟩ := stands_settle now behind id reader.wholeBacklog ⟨hheld, rfl⟩
    refine ⟨hheld', ?_⟩
    rw [hstuck', ← Bool.not_eq_true, hstuck, hread.2]
    simp
  · rw [SocketOwner.onReadReady_of_not_connected hconnected]
    exact ⟨h.held, iff_of_true h.stuck fun _ hin => absurd hin hconnected⟩

/-! ## Steps that do not write under the lock -/

theorem free_setIo (now : ℤ) (behind : Behind) (id : ClientId) (s : Guarded ServerNode)
    (io : SocketIo) (h : s.Free) : ((owner now behind id).setIo s io).Free := h.map _

theorem free_onDisconnect (id : ClientId) (s : Guarded ServerNode) (h : s.Free) :
    (onDisconnect id s).Free := h.lock_map _

theorem free_writeReady (h : s.Free) (now : ℤ) (behind : Behind) (id : ClientId)
    (finalized : Bool) (first second : WriteCall) :
    ((owner now behind id).run (·.step (.writeReady finalized first second)) s).Free := by
  by_cases hconnects : (s.state.sockets id).state = .connecting ∧ finalized = true
  · obtain ⟨hstate, rfl⟩ := hconnects
    have hready := SocketIo.writeReady_of_connecting hstate first second
    rw [SocketOwner.run_of_singleton (congrArg (SocketIo.callsIn ·.2) hready)]
    exact (free_setIo now behind id s _ h).lock_map _
  · exact SocketOwner.run_invariant (free_setIo now behind id) (free_onDisconnect id)
      (SocketIo.closes_writeReady hconnects first second) h

theorem free_absorb (h : s.Free) (id : ClientId) (sending : Sending) :
    (absorb id sending s).Free := by
  unfold absorb
  split_ifs
  · exact free_onDisconnect id _ (h.map _)
  · exact h.map _

theorem free_updateClient (h : s.Free) (behind : Behind) (id : ClientId) :
    (updateClient behind id s).2.Free := by
  unfold updateClient
  cases s.state.server.clients.find? id with
  | none => exact h
  | some client => exact (free_absorb h id _).map _

/-- The tick writes without the lock, so that `on_disconnect` finds it free. -/
theorem free_updateClients (h : s.Free) (behind : Behind) (ids : List ClientId) :
    (updateClients behind ids s).Free := by
  induction ids generalizing s with
  | nil => exact h
  | cons id ids ih =>
      have hfirst := free_updateClient h behind id
      rw [updateClients]
      rcases hclient : updateClient behind id s with ⟨thrown, next⟩
      rw [hclient] at hfirst
      cases thrown with
      | true => exact hfirst
      | false => exact ih hfirst

theorem free_update (h : s.Free) (tick : Tick) : (update tick s).Free := by
  unfold update
  by_cases hidle : s.state.running = false
  · rw [if_pos hidle]
    exact h
  · rw [if_neg hidle]
    cases s.state.server.state with
    | opening =>
        cases tick.waits with
        | true => exact h
        | false => exact h.map _
    | inUse =>
        cases s.state.server.clients.entries.isEmpty with
        | true => exact h
        | false => exact free_updateClients (h.map _) _ _

theorem free_accept (h : s.Free) (memory : SocketIo.Memory) (configured : Bool) :
    (accept memory configured s).Free := by
  unfold accept
  simp only
  split_ifs
  · exact h.map _
  · exact ((h.map _).map _).lock_map _

theorem free_listenerHung (h : s.Free) : (listenerHung s).Free := by
  unfold listenerHung
  split_ifs
  · exact (h.map _).lock_map _
  · exact h

/-! ## Whole runs -/

/-- Outside of a step the lock is free, and a step gets stuck exactly in a reply that is
cut short. -/
theorem step_spec (h : s.Free) (input : Input) :
    (step s input).held = false ∧ ((step s input).stuck = false ↔ Whole s input) := by
  have hquiet : ∀ next : Guarded ServerNode, next.Free →
      next.held = false ∧ (next.stuck = false ↔ True) :=
    fun next hfree => ⟨hfree.held, iff_true_intro hfree.stuck⟩
  cases input with
  | start => exact hquiet _ (h.lock_map _)
  | stop => exact hquiet _ (h.lock_map _)
  | localOperation now op => exact hquiet _ (h.map _)
  | accept memory configured =>
      apply hquiet
      rw [step]
      split_ifs
      · exact free_accept h memory configured
      · exact h
  | listenerHung => exact hquiet _ (free_listenerHung h)
  | socket now behind id event =>
      by_cases hknown : id ∈ s.state.known
      · rw [step, if_pos hknown]
        cases event with
        | readReady first second => exact readReady_spec h now behind hknown first second
        | writeReady finalized first second =>
            exact hquiet _ (free_writeReady h now behind id finalized first second)
        | hungOrError =>
            exact hquiet _ (SocketOwner.stopInternal_invariant (free_setIo now behind id)
              (free_onDisconnect id) h)
      · rw [step, if_neg hknown]
        refine ⟨h.held, iff_of_true h.stuck ?_⟩
        cases event with
        | readReady first second => exact fun hin => absurd hin hknown
        | writeReady finalized first second => trivial
        | hungOrError => trivial
  | update tick => exact hquiet _ (free_update h tick)

theorem neverStuck_iff_whole (memory : ParseData) (storage : Storage) (blank : SocketIo.Memory)
    (inputs : List Input) :
    HoldsThroughout step (fun s => s.stuck = false) (new memory storage blank) inputs ↔
      StepsMeet step Whole (new memory storage blank) inputs := by
  refine holdsThroughout_iff_stepsMeet (I := Guarded.Free) ?_ ?_ ?_ (Guarded.free_new _) inputs
  · intro s input h hwhole
    obtain ⟨hheld, hstuck⟩ := step_spec h input
    exact ⟨hheld, hstuck.mpr hwhole⟩
  · exact fun s h => h.stuck
  · exact fun s input h hcuts hstuck => hcuts ((step_spec h input).2.mp hstuck)

end ServerNode

end Obsr.Net
