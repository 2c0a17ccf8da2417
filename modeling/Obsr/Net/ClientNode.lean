/-
# The client behind its lock

`network_client` with its socket. Every callback of the socket and every update tick takes
the lock of the client, and while it is held `on_connect` and the tick call into the
socket. A call that closes the socket comes back through `on_close`, which asks for the
lock again.
-/

import Obsr.Lib.Mutex
import Obsr.Lib.Run
import Obsr.Net.NetworkClient
import Obsr.Net.Sending
import Obsr.Net.SocketOwner

namespace Obsr.Net

open Obsr.Io Obsr.Lib

structure ClientNode where
  client : NetworkClient
  io : SocketIo

namespace ClientNode

def new (memory : ParseData) (storage : Storage) (clock : Clock) (ioMemory : SocketIo.Memory) :
    Guarded ClientNode where
  state := ⟨NetworkClient.new memory storage clock, SocketIo.new ioMemory⟩

def withClient (work : NetworkClient → NetworkClient) (n : ClientNode) : ClientNode :=
  { n with client := work n.client }

def withIo (io : SocketIo) (n : ClientNode) : ClientNode := { n with io }

/-! ## The callbacks of the socket -/

def onClose : Guarded ClientNode → Guarded ClientNode :=
  Guarded.lock (Guarded.map (withClient NetworkClient.onClose))

/-- Messages go into the socket. A write calls `on_close` at its end, and the write that
does so is the last one. -/
def send (write : Sending → Sending) (s : Guarded ClientNode) : Sending × Guarded ClientNode :=
  let sending := write { io := s.state.io }
  let s := s.map (withIo sending.io)
  (sending, if sending.closed then onClose s else s)

def sendMessage (behind : Behind) (message : OutMessage) :
    Guarded ClientNode → Sending × Guarded ClientNode :=
  send fun sending => (sending.writeMessage behind message).2

def sendQueue (behind : Behind) (queue : MessageQueue) :
    Guarded ClientNode → Sending × Guarded ClientNode :=
  send fun sending => (sending.writeQueue behind queue).2

/-- The socket has just been connected, so that the write does not throw. -/
def onConnect (timeNow : ℤ) (behind : Behind) : Guarded ClientNode → Guarded ClientNode :=
  Guarded.lock fun s =>
    let (sending, s) :=
      sendMessage behind (.timeSyncRequest (s.state.client.clock.now timeNow)) s
    s.map (withClient fun client => client.onConnect timeNow behind sending.answers)

def onMessage (timeNow : ℤ) (header : MessageHeader) (message : List UInt8) :
    Guarded ClientNode → Guarded ClientNode :=
  Guarded.lock (Guarded.map (withClient fun client =>
    client.onMessage timeNow header.type message))

def owner (timeNow : ℤ) (behind : Behind) : SocketOwner (Guarded ClientNode) where
  io s := s.state.io
  setIo s io := s.map (withIo io)
  onConnect := onConnect timeNow behind
  onClose := onClose
  onMessage := onMessage timeNow

/-! ## Update ticks -/

/-- What the world does during a tick: the time, which timers have elapsed, and whether a
socket can be created and starts to connect. -/
structure Tick where
  timeNow : ℤ
  syncElapsed : Bool
  retryElapsed : Bool
  created : Bool
  accepted : Bool
  behind : Behind

/-- The tick as the client sees it. -/
def Tick.seen (tick : Tick) (opened : Bool) (answers : List Bool) : NetworkClient.Tick where
  timeNow := tick.timeNow
  syncElapsed := tick.syncElapsed
  retryElapsed := tick.retryElapsed
  opened
  behind := tick.behind
  answers

/-- The time of the server is asked for. -/
def requestDue (tick : Tick) (n : ClientNode) : Bool :=
  n.client.clockSyncTimer && tick.syncElapsed

def request (tick : Tick) (n : ClientNode) : OutMessage :=
  .timeSyncRequest (n.client.clock.now tick.timeNow)

/-- A write that throws leaves the client as it is. -/
def requestTimeSync (tick : Tick) (s : Guarded ClientNode) : Sending × Guarded ClientNode :=
  if requestDue tick s.state then
    let (sending, s) := sendMessage tick.behind (request tick s.state) s
    if sending.thrown then (sending, s)
    else
      (sending, s.map (withClient fun client =>
        (client.requestTimeSync (tick.seen false sending.answers)).1))
  else ({ io := s.state.io }, s)

def stopIo (n : ClientNode) : ClientNode := n.withIo n.io.stop.1

/-- `do_open_and_connect`. What `start` or `connect` throws is caught. -/
def doOpenAndConnect (tick : Tick) (s : Guarded ClientNode) : Bool × Guarded ClientNode :=
  if s.state.io.state = .idle ∧ tick.created = true then
    let s := s.map fun n => n.withIo (n.io.start false)
    let s := (owner tick.timeNow tick.behind).run (·.connect tick.accepted) s
    if tick.accepted then (true, s) else (false, s.map stopIo)
  else (false, s.map stopIo)

def openAndConnect (tick : Tick) (s : Guarded ClientNode) : Guarded ClientNode :=
  if s.state.client.connectRetryTimer && !tick.retryElapsed then s
  else
    let (opened, s) := doOpenAndConnect tick s
    s.map (withClient fun client => client.openAndConnect (tick.seen opened []))

/-- `process` of the queue. -/
def process (behind : Behind) (s : Guarded ClientNode) : Guarded ClientNode :=
  let (sending, s) := sendQueue behind s.state.client.messages s
  s.map (withClient fun client => client.process behind sending.answers)

def handOverStorage (tick : Tick) : ClientNode → ClientNode :=
  withClient fun client => client.handOverStorage (client.clock.now tick.timeNow)

/-- The switch over the state in `update`. -/
def advance (tick : Tick) (s : Guarded ClientNode) : Guarded ClientNode :=
  match s.state.client.state with
  | .opening => openAndConnect tick s
  | .inUse => process tick.behind (s.map (handOverStorage tick))
  | .inHandshakeTimeSync | .inHandshake => process tick.behind s
  | .connecting | .idle => s

def update (tick : Tick) (s : Guarded ClientNode) : Guarded ClientNode :=
  if s.state.client.state = .idle then s
  else
    let (sending, s) := requestTimeSync tick s
    if sending.thrown then s else advance tick s

/-! ## Runs -/

inductive Input
  | start
  | stop
  | localOperation (timeNow : ℤ) (op : NetworkServer.LocalOperation)
  | socket (timeNow : ℤ) (behind : Behind) (event : SocketIo.Event)
  | update (tick : Tick)

/-- `stop`, which throws if the client is idle. -/
def stop (n : ClientNode) : ClientNode :=
  if n.client.state = .idle then n else n.stopIo.withClient NetworkClient.stop

def step (s : Guarded ClientNode) : Input → Guarded ClientNode
  | .start => s.lock (Guarded.map (withClient NetworkClient.start))
  | .stop => s.lock (Guarded.map stop)
  | .localOperation timeNow op =>
      s.map (withClient fun client => client.perform (op.operation (client.clock.now timeNow)))
  | .socket timeNow behind event => (owner timeNow behind).step s event.input
  | .update tick => s.lock (update tick)

/-! ## Calls that close the socket under the lock -/

/-- What `connect` in a tick may not do. -/
def ConnectsLater (tick : Tick) (n : ClientNode) : Prop :=
  (n.client.connectRetryTimer && !tick.retryElapsed) = false →
    n.io.state = .idle → tick.created = true → tick.accepted = true

/-- The switch over the state closes no socket. -/
def AdvancesWhole (tick : Tick) (n : ClientNode) : Prop :=
  match n.client.state with
  | .opening => ConnectsLater tick n
  | .inUse =>
      ¬ Sending.QueueCutsShort tick.behind { io := n.io } (handOverStorage tick n).client.messages
  | .inHandshakeTimeSync | .inHandshake =>
      ¬ Sending.QueueCutsShort tick.behind { io := n.io } n.client.messages
  | .connecting | .idle => True

/-- A tick cuts no message short and makes no connection that fails at once. -/
def TicksWhole (tick : Tick) (s : Guarded ClientNode) : Prop :=
  s.state.client.state ≠ .idle →
    ¬ (requestDue tick s.state = true ∧
        Sending.CutsShort tick.behind s.state.io (request tick s.state)) ∧
      let requested := requestTimeSync tick { s with held := true }
      requested.1.thrown = false → AdvancesWhole tick requested.2.state

/-- No call into the socket that is made under the lock closes the socket: none of
`on_connect` and none of a tick. -/
def Whole (s : Guarded ClientNode) : Input → Prop
  | .socket timeNow behind (.writeReady finalized _ _) =>
      s.state.io.state = .connecting → finalized = true →
        ¬ Sending.CutsShort behind { s.state.io with state := .connected }
          (.timeSyncRequest (s.state.client.clock.now timeNow))
  | .update tick => TicksWhole tick s
  | _ => True

/-! ## Calls under the lock -/

variable {s : Guarded ClientNode}

theorem onClose_of_held (h : s.held = true) : onClose s = { s with stuck := true } :=
  Guarded.lock_of_held h

/-- A write that closes the socket under the lock is the end of the thread. -/
theorem send_of_held (h : s.held = true) (write : Sending → Sending) :
    (send write s).2 =
      { s with
        state := s.state.withIo (write { io := s.state.io }).io
        stuck := s.stuck || (write { io := s.state.io }).closed } := by
  simp only [send]
  cases hclosed : (write { io := s.state.io }).closed with
  | true =>
      rw [if_pos rfl, Bool.or_true]
      exact onClose_of_held h
  | false =>
      rw [if_neg Bool.false_ne_true, Bool.or_false]
      rfl

theorem held_send (h : s.held = true) (write : Sending → Sending) :
    (send write s).2.held = true := by
  rw [send_of_held h]
  exact h

theorem stuck_sendMessage (h : s.held = true) (behind : Behind) (message : OutMessage) :
    (sendMessage behind message s).2.stuck = true ↔
      s.stuck = true ∨ Sending.CutsShort behind s.state.io message := by
  rw [sendMessage, send_of_held h]
  refine Bool.or_eq_true_iff.trans (or_congr Iff.rfl ?_)
  rw [Sending.closed_writeMessage]
  exact or_iff_right Bool.false_ne_true

theorem stuck_sendQueue (h : s.held = true) (behind : Behind) (queue : MessageQueue) :
    (sendQueue behind queue s).2.stuck = true ↔
      s.stuck = true ∨ Sending.QueueCutsShort behind { io := s.state.io } queue := by
  rw [sendQueue, send_of_held h]
  refine Bool.or_eq_true_iff.trans (or_congr Iff.rfl ?_)
  rw [Sending.closed_writeQueue]
  exact or_iff_right Bool.false_ne_true

theorem stuck_requestTimeSync (h : s.held = true) (tick : Tick) :
    (requestTimeSync tick s).2.held = true ∧ ((requestTimeSync tick s).2.stuck = true ↔
      s.stuck = true ∨ requestDue tick s.state = true ∧
        Sending.CutsShort tick.behind s.state.io (request tick s.state)) := by
  unfold requestTimeSync
  by_cases hdue : requestDue tick s.state = true
  · have hheld : (sendMessage tick.behind (request tick s.state) s).2.held = true := held_send h _
    have hstuck := stuck_sendMessage h tick.behind (request tick s.state)
    rw [if_pos hdue, and_iff_right hdue]
    rcases hsent : sendMessage tick.behind (request tick s.state) s with ⟨sending, next⟩
    rw [hsent] at hheld hstuck
    cases hthrown : sending.thrown with
    | true => exact ⟨by simpa [hthrown] using hheld, by simpa [hthrown] using hstuck⟩
    | false => exact ⟨by simpa [hthrown] using hheld, by simpa [hthrown] using hstuck⟩
  · rw [if_neg hdue]
    exact ⟨h, by simp [hdue]⟩

theorem stuck_process (h : s.held = true) (behind : Behind) :
    (process behind s).stuck = true ↔
      s.stuck = true ∨
        Sending.QueueCutsShort behind { io := s.state.io } s.state.client.messages :=
  stuck_sendQueue h behind s.state.client.messages

/-- A connection that fails at once closes the socket before `connect` throws. -/
theorem stuck_connect (h : s.held = true) (hbound : s.state.io.state = .bound) (tick : Tick) :
    ((owner tick.timeNow tick.behind).run (·.connect tick.accepted) s).stuck = true ↔
      s.stuck = true ∨ tick.accepted = false := by
  cases haccepted : tick.accepted with
  | true =>
      have hconnect : SocketIo.callsIn (s.state.io.connect true).2 = [] := by
        simp [SocketIo.connect, hbound]
      rw [SocketOwner.run_of_nil hconnect]
      exact (or_iff_left (Bool.true_eq_false_eq_False)).symm
  | false =>
      have hconnect : SocketIo.callsIn (s.state.io.connect false).2 = [.onClose] := by
        simp [SocketIo.connect, hbound, SocketIo.stopInternal, SocketIo.callsIn]
      rw [SocketOwner.run_of_singleton hconnect]
      refine iff_of_true ?_ (Or.inr rfl)
      exact congrArg Guarded.stuck
        (onClose_of_held (s := s.map (withIo (s.state.io.connect false).1)) h)

theorem stuck_doOpenAndConnect (h : s.held = true) (tick : Tick) :
    (doOpenAndConnect tick s).2.stuck = true ↔
      s.stuck = true ∨
        s.state.io.state = .idle ∧ tick.created = true ∧ tick.accepted = false := by
  unfold doOpenAndConnect
  by_cases hopens : s.state.io.state = .idle ∧ tick.created = true
  · rw [if_pos hopens]
    have hbound : (s.map fun n => n.withIo (n.io.start false)).state.io.state = .bound := by
      simp [withIo, SocketIo.start, hopens.1]
    have hconnect := stuck_connect (s := s.map fun n => n.withIo (n.io.start false)) h hbound tick
    rw [and_iff_right hopens.1, and_iff_right hopens.2]
    cases haccepted : tick.accepted with
    | true => simpa [haccepted] using hconnect
    | false => simpa [haccepted] using hconnect
  · rw [if_neg hopens]
    refine (or_iff_left ?_).symm
    exact fun hcase => hopens ⟨hcase.1, hcase.2.1⟩

theorem stuck_openAndConnect (h : s.held = true) (tick : Tick) :
    (openAndConnect tick s).stuck = true ↔ s.stuck = true ∨ ¬ ConnectsLater tick s.state := by
  unfold openAndConnect ConnectsLater
  cases hwaits : s.state.client.connectRetryTimer && !tick.retryElapsed with
  | true => simp
  | false =>
      have hopen := stuck_doOpenAndConnect h tick
      simpa using hopen

theorem stuck_advance (h : s.held = true) (tick : Tick) :
    (advance tick s).stuck = true ↔ s.stuck = true ∨ ¬ AdvancesWhole tick s.state := by
  unfold advance AdvancesWhole
  cases s.state.client.state with
  | opening => exact stuck_openAndConnect h tick
  | inUse =>
      rw [not_not]
      exact stuck_process (s := s.map (handOverStorage tick)) h tick.behind
  | inHandshakeTimeSync | inHandshake =>
      rw [not_not]
      exact stuck_process h tick.behind
  | connecting | idle => exact (or_iff_left (not_not_intro trivial)).symm

/-- A tick that starts with a free lock gets stuck exactly in a call that closes the
socket. -/
theorem stuck_update (h : s.Free) (tick : Tick) :
    (s.lock (update tick)).stuck = false ↔ TicksWhole tick s := by
  rw [Guarded.stuck_lock h.held]
  unfold update TicksWhole
  by_cases hidle : s.state.client.state = .idle
  · rw [if_pos hidle]
    exact iff_of_true h.stuck fun hrunning => absurd hidle hrunning
  · rw [if_neg hidle, imp_iff_right hidle]
    obtain ⟨hheld, hrequest⟩ := stuck_requestTimeSync (s := { s with held := true }) rfl tick
    rcases hrequested : requestTimeSync tick { s with held := true } with ⟨sending, next⟩
    rw [hrequested] at hheld hrequest
    rw [or_iff_right (by simp [h.stuck])] at hrequest
    rw [← Bool.not_eq_true, ← hrequest]
    cases hthrown : sending.thrown with
    | true => simp [hthrown]
    | false =>
        have hadvance := stuck_advance hheld tick
        simp only [hthrown, Bool.false_eq_true, if_false, hadvance, true_imp_iff]
        exact not_or.trans (and_congr Iff.rfl not_not)

/-! ## Events of the socket -/

theorem free_setIo (timeNow : ℤ) (behind : Behind) (s : Guarded ClientNode) (io : SocketIo)
    (h : s.Free) : ((owner timeNow behind).setIo s io).Free := h.map _

theorem free_onClose (s : Guarded ClientNode) (h : s.Free) : (onClose s).Free := h.lock_map _

theorem stuck_onConnect (h : s.Free) (timeNow : ℤ) (behind : Behind) :
    (onConnect timeNow behind s).stuck = false ↔
      ¬ Sending.CutsShort behind s.state.io
        (.timeSyncRequest (s.state.client.clock.now timeNow)) := by
  have hsend := stuck_sendMessage (s := { s with held := true }) rfl behind
    (.timeSyncRequest (s.state.client.clock.now timeNow))
  rw [or_iff_right (by simp [h.stuck])] at hsend
  rw [onConnect, Guarded.stuck_lock h.held, ← Bool.not_eq_true, ← hsend]
  rcases sendMessage behind (.timeSyncRequest (s.state.client.clock.now timeNow))
    { s with held := true } with ⟨sending, next⟩
  exact Iff.rfl

theorem held_onConnect (h : s.Free) (timeNow : ℤ) (behind : Behind) :
    (onConnect timeNow behind s).held = false := by
  rw [onConnect, Guarded.held_lock h.held]

theorem writeReady_spec (h : s.Free) (timeNow : ℤ) (behind : Behind) (finalized : Bool)
    (first second : WriteCall) :
    let next := (owner timeNow behind).run (·.step (.writeReady finalized first second)) s
    next.held = false ∧ (next.stuck = false ↔
      Whole s (.socket timeNow behind (.writeReady finalized first second))) := by
  by_cases hconnects : s.state.io.state = .connecting ∧ finalized = true
  · obtain ⟨hstate, rfl⟩ := hconnects
    have hready := SocketIo.writeReady_of_connecting hstate first second
    have hconnected : ((owner timeNow behind).run (·.step (.writeReady true first second)) s) =
        onConnect timeNow behind (s.map (withIo { s.state.io with state := .connected })) := by
      rw [SocketOwner.run_of_singleton (congrArg (SocketIo.callsIn ·.2) hready)]
      have hcall : ∀ t, (owner timeNow behind).call t .onConnect =
          onConnect timeNow behind t := fun _ => rfl
      have hset : ∀ io, (owner timeNow behind).setIo s io = s.map (withIo io) := fun _ => rfl
      have hio : (owner timeNow behind).io s = s.state.io := rfl
      rw [hcall, hset, hio, hready]
    have hfree := h.map (withIo { s.state.io with state := .connected })
    rw [hconnected]
    refine ⟨held_onConnect hfree timeNow behind, (stuck_onConnect hfree timeNow behind).trans ?_⟩
    rw [Whole, imp_iff_right hstate, imp_iff_right rfl]
    exact Iff.rfl
  · have hfree : ((owner timeNow behind).run
        (·.step (.writeReady finalized first second)) s).Free :=
      SocketOwner.run_invariant (free_setIo timeNow behind) free_onClose
        (SocketIo.closes_writeReady hconnects first second) h
    exact ⟨hfree.held, iff_of_true hfree.stuck fun hstate hfinal =>
      absurd ⟨hstate, hfinal⟩ hconnects⟩

/-! ## Whole runs -/

/-- Outside of a step the lock is free, and a step gets stuck exactly in a call that closes
the socket under the lock. -/
theorem step_spec (h : s.Free) (input : Input) :
    (step s input).held = false ∧ ((step s input).stuck = false ↔ Whole s input) := by
  have hquiet : ∀ next : Guarded ClientNode, next.Free →
      next.held = false ∧ (next.stuck = false ↔ True) :=
    fun next hfree => ⟨hfree.held, iff_true_intro hfree.stuck⟩
  cases input with
  | start => exact hquiet _ (h.lock_map _)
  | stop => exact hquiet _ (h.lock_map _)
  | localOperation timeNow op => exact hquiet _ (h.map _)
  | socket timeNow behind event =>
      cases event with
      | readReady first second =>
          exact hquiet _ (SocketOwner.onReadReady_invariant (free_setIo timeNow behind)
            free_onClose (fun _ _ _ hfree => hfree.lock_map _) first second h)
      | writeReady finalized first second =>
          exact writeReady_spec h timeNow behind finalized first second
      | hungOrError =>
          exact hquiet _ (SocketOwner.stopInternal_invariant (free_setIo timeNow behind)
            free_onClose h)
  | update tick => exact ⟨Guarded.held_lock h.held, stuck_update h tick⟩

theorem neverStuck_iff_whole (memory : ParseData) (storage : Storage) (clock : Clock)
    (ioMemory : SocketIo.Memory) (inputs : List Input) :
    HoldsThroughout step (fun s => s.stuck = false) (new memory storage clock ioMemory) inputs ↔
      StepsMeet step Whole (new memory storage clock ioMemory) inputs := by
  refine holdsThroughout_iff_stepsMeet (I := Guarded.Free) ?_ ?_ ?_ (Guarded.free_new _) inputs
  · intro s input h hwhole
    obtain ⟨hheld, hstuck⟩ := step_spec h input
    exact ⟨hheld, hstuck.mpr hwhole⟩
  · exact fun s h => h.stuck
  · exact fun s input h hcuts hstuck => hcuts ((step_spec h input).2.mp hstuck)

end ClientNode

end Obsr.Net
