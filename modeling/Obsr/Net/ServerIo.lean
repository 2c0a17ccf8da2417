/-
# The server socket

`server_io` takes connections from its listening socket, keeps a client with a framed
socket for each under an id of sixteen bits, and passes on what the sockets of the clients
call. The server is open here from its start on.

The connections are numbered in the order they are accepted, and the callbacks are noted
with the numbers, so that one connection can be told from the next that has its id. Of the
callbacks only `on_message` writes before it returns; what the others write comes as well
right after them.
-/

import Obsr.Lib.Run
import Obsr.Net.Server
import Obsr.Net.SocketOwner

namespace Obsr.Net

open Obsr.Io Obsr.Lib

/-- The write half of an object that is not about to connect. -/
theorem SocketIo.state_writeReady {io : SocketIo} (h : io.state ≠ .connecting)
    (finalized : Bool) (first second : WriteCall) :
    (io.step (.writeReady finalized first second)).1.state =
      if io.state = .connected ∧
        (io.writeBuffer.writeInto first second).value.outcome = none then .idle
      else io.state := by
  obtain ⟨state, reader, writeBuffer, index⟩ := io
  cases state with
  | idle | bound => rfl
  | connecting => exact absurd rfl h
  | connected =>
      simp only [SocketIo.step, SocketIo.onWriteReady]
      cases (writeBuffer.writeInto first second).value.outcome with
      | some more => rfl
      | none => rfl

namespace ServerIo

def invalidClientId : ClientId := 65535

/-- `server_io::client`. -/
structure Client where
  id : ClientId
  io : SocketIo
  deriving DecidableEq, Repr

/-- The callbacks that tell of a connection. -/
inductive Report
  | onConnect (id : ClientId)
  | onDisconnect (id : ClientId)
  deriving DecidableEq, Repr

/-- A connection that was closed without a record, and the ids that were in use then. -/
structure Refusal where
  connection : ℕ
  inUse : List ClientId
  deriving DecidableEq, Repr

end ServerIo

/-- `server_io`: the map holds pointers, which are the numbers of the connections. -/
structure ServerIo where
  clients : OrderedMap ClientId ℕ
  nextClientId : ClientId
  objects : ℕ → ServerIo.Client
  accepted : ℕ
  reports : List (ℕ × ServerIo.Report)
  refused : List ServerIo.Refusal

namespace ServerIo

/-- The server after `start`; `blank` is what the clients are before there are any. -/
def started (blank : SocketIo.Memory) : ServerIo where
  clients := OrderedMap.empty
  nextClientId := 0
  objects := fun _ => { id := invalidClientId, io := SocketIo.new blank }
  accepted := 0
  reports := []
  refused := []

/-- The connection is there and its socket is not closed. -/
def Open (s : ServerIo) (n : ℕ) : Prop := (s.objects n).io.state ≠ .idle

instance (s : ServerIo) (n : ℕ) : Decidable (s.Open n) := inferInstanceAs (Decidable (_ ≠ _))

/-- The ids of the open connections. -/
def openIds (s : ServerIo) : List ClientId :=
  ((List.range s.accepted).filter fun n => s.Open n).map fun n => (s.objects n).id

def withIo (n : ℕ) (io : SocketIo) (s : ServerIo) : ServerIo :=
  { s with objects := Function.update s.objects n { s.objects n with io } }

def report (n : ℕ) (call : Report) (s : ServerIo) : ServerIo :=
  { s with reports := s.reports ++ [(n, call)] }

/-! ## Writing -/

/-- What the constructor of a client attaches to its socket, but for `on_message`. A client
that is closed stays in the map. -/
def listener (n : ℕ) : SocketOwner ServerIo where
  io s := (s.objects n).io
  setIo s io := s.withIo n io
  onConnect s := s.report n (.onConnect (s.objects n).id)
  onClose s := s.report n (.onDisconnect (s.objects n).id)
  onMessage _ _ s := s

/-- A call of `write_to`. -/
structure Write where
  client : ClientId
  type : UInt8
  message : List UInt8
  deriving DecidableEq, Repr

/-- `write_to`; it throws when there is no such client. -/
def writeTo (s : ServerIo) (call : Write) : ServerIo :=
  match s.clients.find? call.client with
  | none => s
  | some n => (listener n).run (·.step (.write call.type call.message)) s

/-! ## The events of the looper -/

/-- A client, while the owner of the server answers the next messages with these writes. -/
def client (n : ℕ) : SocketOwner (ServerIo × List (List Write)) where
  io s := (listener n).io s.1
  setIo s io := ((listener n).setIo s.1 io, s.2)
  onConnect s := ((listener n).onConnect s.1, s.2)
  onClose s := ((listener n).onClose s.1, s.2)
  onMessage _ _ s := ((s.2.headD []).foldl writeTo s.1, s.2.tail)

def onEvent (s : ServerIo) (n : ℕ) (event : SocketIo.Event) (answers : List (List Write)) :
    ServerIo :=
  ((client n).step (s, answers) event.input).1

/-- What becomes of the socket of a new client: its `start` succeeds, cannot configure the
socket, or finds no room in the looper. Only the second is an `io_exception`. -/
inductive Start
  | succeeds
  | socketFails
  | looperFails
  deriving DecidableEq, Repr

/-- The record of a new client, whose socket is not started yet. -/
def store (s : ServerIo) (n : ℕ) (id : ClientId) (memory : SocketIo.Memory) : ServerIo :=
  { s with
    clients := s.clients.emplace id n
    objects := Function.update s.objects n { id, io := SocketIo.new memory } }

/-- What follows when the record is there. -/
def startClient (s : ServerIo) (n : ℕ) (id : ClientId) (refusal : Refusal) : Start → ServerIo
  | .succeeds => (s.withIo n ((s.objects n).io.start true)).report n (.onConnect id)
  | .looperFails => s.withIo n ((s.objects n).io.start true)
  | .socketFails =>
      if id ≠ invalidClientId then
        { s with clients := s.clients.erase id, refused := s.refused ++ [refusal] }
      else s

/-- `on_read_ready`, with a connection that was accepted. -/
def accept (s : ServerIo) (memory : SocketIo.Memory) (start : Start) : ServerIo :=
  let n := s.accepted
  let id := s.nextClientId
  let refusal : Refusal := ⟨n, s.openIds⟩
  let counted := { s with nextClientId := id + 1, accepted := n + 1 }
  if (s.clients.find? id).isSome then { counted with refused := s.refused ++ [refusal] }
  else (counted.store n id memory).startClient n id refusal start

/-- What the looper and the owner of the server do. A call of `accept` on the listening
socket may throw, before an id is taken. -/
inductive Input
  | acceptFails
  | accept (memory : SocketIo.Memory) (start : Start)
  | event (connection : ℕ) (event : SocketIo.Event) (answers : List (List Write))
  | writeTo (call : Write)

def step (s : ServerIo) : Input → ServerIo
  | .acceptFails => s
  | .accept memory start => s.accept memory start
  | .event n event answers => s.onEvent n event answers
  | .writeTo call => s.writeTo call

/-! ## The objects -/

variable {s t u : ServerIo} {n : ℕ}

@[simp]
theorem objects_withIo_self (io : SocketIo) :
    (s.withIo n io).objects n = { s.objects n with io } := Function.update_self ..

theorem objects_withIo_of_ne {m : ℕ} (h : m ≠ n) (io : SocketIo) :
    (s.withIo n io).objects m = s.objects m := Function.update_of_ne h ..

@[simp]
theorem withIo_withIo (io io' : SocketIo) : (s.withIo n io).withIo n io' = s.withIo n io' := by
  simp only [withIo, Function.update_self, Function.update_idem]

@[simp]
theorem withIo_io : s.withIo n (s.objects n).io = s := by
  simp only [withIo, Function.update_eq_self]

theorem withIo_comm {m : ℕ} (h : m ≠ n) (io io' : SocketIo) :
    (s.withIo n io).withIo m io' = (s.withIo m io').withIo n io := by
  simp only [withIo, Function.update_of_ne h, Function.update_of_ne h.symm,
    Function.update_comm h]

theorem lawful_listener (n : ℕ) : (listener n).Lawful where
  io_setIo _ _ := congrArg Client.io (objects_withIo_self _)
  setIo_setIo _ _ _ := withIo_withIo _ _
  setIo_io _ := withIo_io

theorem lawful_client (n : ℕ) : (client n).Lawful where
  io_setIo s _ := (lawful_listener n).io_setIo s.1 _
  setIo_setIo s _ _ := congrArg (·, s.2) ((lawful_listener n).setIo_setIo s.1 _ _)
  setIo_io s := congrArg (·, s.2) ((lawful_listener n).setIo_io s.1)

/-! ## What a step may change of the connections -/

/-- The map is the same, and what is closed stays closed. -/
structure Later (s t : ServerIo) : Prop where
  clients : t.clients = s.clients
  closed : ∀ n, ¬ s.Open n → ¬ t.Open n

theorem Later.refl (s : ServerIo) : Later s s := ⟨rfl, fun _ h => h⟩

theorem Later.trans (h : Later s t) (h' : Later t u) : Later s u :=
  ⟨h'.clients.trans h.clients, fun n hclosed => h'.closed n (h.closed n hclosed)⟩

/-- Nothing has happened to any connection but that bytes moved. -/
structure SameConnections (s t : ServerIo) : Prop where
  clients : t.clients = s.clients
  nextClientId : t.nextClientId = s.nextClientId
  accepted : t.accepted = s.accepted
  reports : t.reports = s.reports
  refused : t.refused = s.refused
  id : ∀ n, (t.objects n).id = (s.objects n).id
  state : ∀ n, (t.objects n).io.state = (s.objects n).io.state

theorem SameConnections.refl (s : ServerIo) : SameConnections s s :=
  ⟨rfl, rfl, rfl, rfl, rfl, fun _ => rfl, fun _ => rfl⟩

theorem SameConnections.trans (h : SameConnections s t) (h' : SameConnections t u) :
    SameConnections s u where
  clients := h'.clients.trans h.clients
  nextClientId := h'.nextClientId.trans h.nextClientId
  accepted := h'.accepted.trans h.accepted
  reports := h'.reports.trans h.reports
  refused := h'.refused.trans h.refused
  id n := (h'.id n).trans (h.id n)
  state n := (h'.state n).trans (h.state n)

theorem SameConnections.open_iff (h : SameConnections s t) (n : ℕ) : t.Open n ↔ s.Open n := by
  rw [Open, Open, h.state]

theorem SameConnections.later (h : SameConnections s t) : Later s t :=
  ⟨h.clients, fun n => (not_congr (h.open_iff n)).mpr⟩

theorem sameConnections_withIo {io : SocketIo} (h : io.state = (s.objects n).io.state) :
    SameConnections s (s.withIo n io) := by
  refine ⟨rfl, rfl, rfl, rfl, rfl, fun m => ?_, fun m => ?_⟩
  · by_cases hm : m = n
    · rw [hm, objects_withIo_self]
    · rw [objects_withIo_of_ne hm]
  · by_cases hm : m = n
    · rw [hm, objects_withIo_self]
      exact h
    · rw [objects_withIo_of_ne hm]

theorem later_report (call : Report) : Later s (s.report n call) := ⟨rfl, fun _ h => h⟩

theorem not_open_withIo {io : SocketIo} (h : io.state = .idle) : ¬ (s.withIo n io).Open n := by
  rw [Open, objects_withIo_self, not_not]
  exact h

theorem later_withIo {io : SocketIo} (h : io.state = .idle) : Later s (s.withIo n io) := by
  refine ⟨rfl, fun m hclosed => ?_⟩
  by_cases hm : m = n
  · rw [hm]
    exact not_open_withIo h
  · rw [Open, objects_withIo_of_ne hm]
    exact hclosed

/-! ## What the methods of a socket do to its server -/

/-- A method that does no more than to close the socket. -/
theorem run_listener {method : SocketIo → SocketIo × List SocketIo.Output}
    (h : SocketIo.Closes (s.objects n).io (method (s.objects n).io)) :
    SameConnections s ((listener n).run method s) ∨
      (s.Open n ∧ ¬ ((listener n).run method s).Open n ∧ Later s ((listener n).run method s)) := by
  rcases h with ⟨hquiet, hstate⟩ | ⟨hcloses, hopen, hidle⟩
  · left
    rw [(listener n).run_of_nil hquiet]
    exact sameConnections_withIo hstate
  · right
    rw [(listener n).run_of_singleton hcloses]
    refine ⟨hopen, ?_, (later_withIo hidle).trans (later_report _)⟩
    exact (later_report _).closed n (not_open_withIo hidle)

theorem later_run_listener {method : SocketIo → SocketIo × List SocketIo.Output}
    (h : SocketIo.Closes (s.objects n).io (method (s.objects n).io)) :
    Later s ((listener n).run method s) :=
  (run_listener h).elim SameConnections.later fun h => h.2.2

/-- Such a method does not ask what the owner answers. -/
theorem run_client {method : SocketIo → SocketIo × List SocketIo.Output}
    (h : SocketIo.Closes (s.objects n).io (method (s.objects n).io))
    (answers : List (List Write)) :
    (client n).run method (s, answers) = ((listener n).run method s, answers) := by
  rcases h with ⟨hquiet, -⟩ | ⟨hcloses, -, -⟩
  · rw [(client n).run_of_nil hquiet, (listener n).run_of_nil hquiet]
    rfl
  · rw [(client n).run_of_singleton hcloses, (listener n).run_of_singleton hcloses]
    rfl

theorem run_listener_stopInternal_closed :
    ¬ ((listener n).run (·.stopInternal true) s).Open n := by
  by_cases hidle : (s.objects n).io.state = .idle
  · exact (later_run_listener (SocketIo.closes_stopInternal _)).closed n (not_not.mpr hidle)
  · have hstop := SocketIo.stopInternal_of_ne_idle hidle true
    have hcalls : SocketIo.callsIn ((s.objects n).io.stopInternal true).2 = [.onClose] := by
      rw [hstop]
      rfl
    rw [(listener n).run_of_singleton hcalls]
    refine (later_report _).closed n (not_open_withIo ?_)
    exact congrArg (·.1.state) hstop

/-! ## What a write does -/

/-- The write closes the socket of the client. -/
def CutsShort (s : ServerIo) (call : Write) : Prop :=
  match s.clients.find? call.client with
  | none => False
  | some n => (s.objects n).io.CutsShort call.type call.message

theorem writeTo_of_none {call : Write} (h : s.clients.find? call.client = none) :
    s.writeTo call = s := by
  simp only [writeTo, h]

theorem writeTo_of_some {call : Write} (h : s.clients.find? call.client = some n) :
    s.writeTo call = (listener n).run (·.step (.write call.type call.message)) s := by
  simp only [writeTo, h]

theorem cutsShort_of_some {call : Write} (h : s.clients.find? call.client = some n) :
    s.CutsShort call ↔ (s.objects n).io.CutsShort call.type call.message := by
  simp only [CutsShort, h]

theorem later_writeTo (s : ServerIo) (call : Write) : Later s (s.writeTo call) := by
  cases hfind : s.clients.find? call.client with
  | none =>
      rw [writeTo_of_none hfind]
      exact Later.refl s
  | some n =>
      rw [writeTo_of_some hfind]
      exact later_run_listener (SocketIo.closes_write ..)

theorem sameConnections_writeTo {call : Write} (h : ¬ s.CutsShort call) :
    SameConnections s (s.writeTo call) := by
  cases hfind : s.clients.find? call.client with
  | none =>
      rw [writeTo_of_none hfind]
      exact SameConnections.refl s
  | some n =>
      rw [cutsShort_of_some hfind] at h
      obtain ⟨hstate, houtputs⟩ := SocketIo.write_of_not_cutsShort h
      rw [writeTo_of_some hfind, (listener n).run_of_nil (congrArg SocketIo.callsIn houtputs)]
      exact sameConnections_withIo hstate

theorem closes_writeTo {call : Write} (h : s.CutsShort call) :
    ∃ n, s.Open n ∧ ¬ (s.writeTo call).Open n := by
  cases hfind : s.clients.find? call.client with
  | none =>
      rw [CutsShort, hfind] at h
      exact h.elim
  | some n =>
      rw [cutsShort_of_some hfind] at h
      have hwrite := SocketIo.write_of_cutsShort h
      have hcalls : SocketIo.callsIn
          ((s.objects n).io.step (.write call.type call.message)).2 = [.onClose] :=
        congrArg (SocketIo.callsIn ·.2.2) hwrite
      refine ⟨n, h.1, ?_⟩
      rw [writeTo_of_some hfind, (listener n).run_of_singleton hcalls]
      refine (later_report _).closed n (not_open_withIo ?_)
      exact congrArg (·.1.state) hwrite

/-- None of the writes closes a socket. -/
def KeepOpen (s : ServerIo) (calls : List Write) : Prop :=
  StepsMeet writeTo (fun s call => ¬ s.CutsShort call) s calls

theorem later_writes (s : ServerIo) (calls : List Write) : Later s (calls.foldl writeTo s) :=
  foldl_of_invariant (I := Later s) (fun t call h => h.trans (later_writeTo t call))
    (Later.refl s) calls

theorem sameConnections_writes {calls : List Write} (h : s.KeepOpen calls) :
    SameConnections s (calls.foldl writeTo s) := by
  have hkeep : ∀ (t : ServerIo) (call : Write), SameConnections s t → ¬ t.CutsShort call →
      SameConnections s (t.writeTo call) := fun t call hsame hfits =>
    hsame.trans (sameConnections_writeTo hfits)
  exact (holdsThroughout_of_invariant hkeep (SameConnections.refl s) h).last

theorem closes_writes {calls : List Write} (h : ¬ s.KeepOpen calls) :
    ∃ n, s.Open n ∧ ¬ (calls.foldl writeTo s).Open n := by
  induction calls generalizing s with
  | nil => exact absurd trivial h
  | cons call calls ih =>
      rw [List.foldl_cons]
      by_cases hcuts : s.CutsShort call
      · obtain ⟨n, hopen, hclosed⟩ := closes_writeTo hcuts
        exact ⟨n, hopen, (later_writes _ calls).closed n hclosed⟩
      · have hrest : ¬ (s.writeTo call).KeepOpen calls := fun hrest => h ⟨hcuts, hrest⟩
        obtain ⟨n, hopen, hclosed⟩ := ih hrest
        exact ⟨n, ((sameConnections_writeTo hcuts).open_iff n).mp hopen, hclosed⟩

/-! ## Writes while a client is read -/

theorem setReader_listener (s : ServerIo) (n : ℕ) (reader : Reader) :
    (listener n).setReader s reader = s.withIo n { (s.objects n).io with reader } := rfl

theorem sameConnections_setReader (s : ServerIo) (n : ℕ) (reader : Reader) :
    SameConnections s ((listener n).setReader s reader) := sameConnections_withIo rfl

/-- What a write makes of the socket of the client. -/
theorem writeTo_cases {call : Write} (h : s.clients.find? call.client = some n) :
    ¬ s.CutsShort call ∧
        s.writeTo call =
          s.withIo n ((s.objects n).io.write call.type call.message).1 ∨
      s.CutsShort call ∧
        s.writeTo call =
          (s.withIo n ((s.objects n).io.write call.type call.message).1).report n
            (.onDisconnect (s.objects n).id) := by
  rw [writeTo_of_some h, cutsShort_of_some h]
  by_cases hcuts : (s.objects n).io.CutsShort call.type call.message
  · right
    have hcalls : SocketIo.callsIn
        ((s.objects n).io.step (.write call.type call.message)).2 = [.onClose] :=
      congrArg (SocketIo.callsIn ·.2.2) (SocketIo.write_of_cutsShort hcuts)
    have hid : ((s.withIo n ((s.objects n).io.write call.type call.message).1).objects n).id =
        (s.objects n).id := by rw [objects_withIo_self]
    refine ⟨hcuts, ?_⟩
    rw [(listener n).run_of_singleton hcalls, ← hid]
    rfl
  · left
    have hcalls := congrArg SocketIo.callsIn (SocketIo.write_of_not_cutsShort hcuts).2
    exact ⟨hcuts, (listener n).run_of_nil hcalls⟩

theorem cutsShort_setReader (s : ServerIo) (n : ℕ) (reader : Reader) (call : Write) :
    ((listener n).setReader s reader).CutsShort call ↔ s.CutsShort call := by
  cases hfind : s.clients.find? call.client with
  | none =>
      have hfind' : ((listener n).setReader s reader).clients.find? call.client = none := hfind
      rw [CutsShort, CutsShort, hfind, hfind']
  | some m =>
      have hfind' : ((listener n).setReader s reader).clients.find? call.client = some m := hfind
      rw [cutsShort_of_some hfind, cutsShort_of_some hfind', setReader_listener]
      by_cases hm : m = n
      · rw [hm, objects_withIo_self]
        rfl
      · rw [objects_withIo_of_ne hm]

/-- A write does not look at the reader of any client. -/
theorem writeTo_setReader (s : ServerIo) (n : ℕ) (reader : Reader) (call : Write) :
    ((listener n).setReader s reader).writeTo call =
      (listener n).setReader (s.writeTo call) reader := by
  cases hfind : s.clients.find? call.client with
  | none =>
      have hfind' : ((listener n).setReader s reader).clients.find? call.client = none := hfind
      rw [writeTo_of_none hfind, writeTo_of_none hfind']
  | some m =>
      have hfind' : ((listener n).setReader s reader).clients.find? call.client = some m := hfind
      have hcuts := cutsShort_setReader s n reader call
      have hid := (sameConnections_setReader s n reader).id m
      -- the socket that is written to with the reader in its place
      have hwritten : ((listener n).setReader s reader).withIo m
          ((((listener n).setReader s reader).objects m).io.write call.type call.message).1 =
          (listener n).setReader
            (s.withIo m ((s.objects m).io.write call.type call.message).1) reader := by
        simp only [setReader_listener]
        by_cases hm : m = n
        · subst hm
          rw [objects_withIo_self, objects_withIo_self, withIo_withIo, withIo_withIo,
            SocketIo.write_withReader]
        · rw [objects_withIo_of_ne hm, objects_withIo_of_ne (Ne.symm hm), withIo_comm hm]
      rcases writeTo_cases hfind with ⟨hfits, hwrite⟩ | ⟨hshort, hwrite⟩ <;>
        rcases writeTo_cases hfind' with ⟨hfits', hwrite'⟩ | ⟨hshort', hwrite'⟩
      · rw [hwrite, hwrite', hwritten]
      · exact absurd (hcuts.mp hshort') hfits
      · exact absurd (hcuts.mpr hshort) hfits'
      · rw [hwrite, hwrite', hid, hwritten]
        rfl

theorem writes_setReader (s : ServerIo) (n : ℕ) (reader : Reader) (calls : List Write) :
    calls.foldl writeTo ((listener n).setReader s reader) =
      (listener n).setReader (calls.foldl writeTo s) reader := by
  induction calls generalizing s with
  | nil => rfl
  | cons call calls ih => rw [List.foldl_cons, List.foldl_cons, writeTo_setReader, ih]

theorem keepOpen_setReader (s : ServerIo) (n : ℕ) (reader : Reader) (calls : List Write) :
    ((listener n).setReader s reader).KeepOpen calls ↔ s.KeepOpen calls := by
  induction calls generalizing s with
  | nil => exact Iff.rfl
  | cons call calls ih =>
      refine and_congr (not_congr (cutsShort_setReader s n reader call)) ?_
      rw [writeTo_setReader]
      exact ih (s.writeTo call)

theorem blind_client (n : ℕ) : (client n).Blind where
  toLawful := lawful_client n
  onMessage_setReader _ _ s reader :=
    congrArg (·, s.2.tail) (writes_setReader s.1 n reader (s.2.headD []))

/-- The answers to the messages are written one after the other. -/
theorem deliver_client (s : ServerIo) (answers : List (List Write))
    (messages : List (MessageHeader × List UInt8)) :
    (client n).deliver (s, answers) messages =
      ((answers.take messages.length).flatten.foldl writeTo s,
        answers.drop messages.length) := by
  induction messages generalizing s answers with
  | nil => rfl
  | cons message messages ih =>
      have hfirst : (client n).deliver (s, answers) (message :: messages) =
          (client n).deliver ((answers.headD []).foldl writeTo s, answers.tail) messages := rfl
      rw [hfirst, ih]
      cases answers with
      | nil => simp
      | cons first rest => simp [List.foldl_append]

/-! ## What an event does -/

/-- The writes that answer the messages in a reader. -/
def answersTo (reader : Reader) (answers : List (List Write)) : List Write :=
  (answers.take reader.wholeBacklog.messages.length).flatten

/-- The event ends a connection. A read does when the socket fails, when the bytes are not
messages, and when an answer to a message closes a socket. -/
def Ends (s : ServerIo) (n : ℕ) (event : SocketIo.Event) (answers : List (List Write)) : Prop :=
  let io := (s.objects n).io
  match event with
  | .hungOrError => s.Open n
  | .writeReady _ first second =>
      io.state = .connected ∧ (io.writeBuffer.writeInto first second).value.outcome = none
  | .readReady first second =>
      let (reader, transfer) := io.reader.update first second
      io.state = .connected ∧
        (transfer.outcome = none ∨ reader.wholeBacklog.failed = true ∨
          ¬ s.KeepOpen (answersTo reader answers))

theorem open_run_listener {method : SocketIo → SocketIo × List SocketIo.Output}
    (h : SocketIo.Closes (s.objects n).io (method (s.objects n).io)) :
    ((listener n).run method s).Open n ↔ (method (s.objects n).io).1.state ≠ .idle := by
  have hset : (s.withIo n (method (s.objects n).io).1).Open n ↔
      (method (s.objects n).io).1.state ≠ .idle := by rw [Open, objects_withIo_self]
  rcases h with ⟨hquiet, -⟩ | ⟨hcloses, -, -⟩
  · rw [(listener n).run_of_nil hquiet]
    exact hset
  · rw [(listener n).run_of_singleton hcloses]
    exact hset

theorem onEvent_of_closes {event : SocketIo.Event}
    (hstep : ∀ t : ServerIo × List (List Write), (client n).step t event.input =
      (client n).run (·.step event.input) t)
    (h : SocketIo.Closes (s.objects n).io ((s.objects n).io.step event.input))
    (answers : List (List Write)) :
    s.onEvent n event answers = (listener n).run (·.step event.input) s := by
  rw [onEvent, hstep]
  exact congrArg Prod.fst (run_client h answers)

theorem onEvent_hungOrError (answers : List (List Write)) :
    s.onEvent n .hungOrError answers = (listener n).run (·.stopInternal true) s :=
  onEvent_of_closes (fun _ => rfl) (SocketIo.closes_stopInternal _) answers

theorem closes_writeReady (hstate : (s.objects n).io.state ≠ .connecting) (finalized : Bool)
    (first second : WriteCall) :
    SocketIo.Closes (s.objects n).io
      ((s.objects n).io.step (.writeReady finalized first second)) :=
  SocketIo.closes_writeReady (fun hconnecting => hstate hconnecting.1) first second

theorem onEvent_writeReady (hstate : (s.objects n).io.state ≠ .connecting) (finalized : Bool)
    (first second : WriteCall) (answers : List (List Write)) :
    s.onEvent n (.writeReady finalized first second) answers =
      (listener n).run (·.step (.writeReady finalized first second)) s :=
  onEvent_of_closes (fun _ => rfl) (closes_writeReady hstate finalized first second) answers

theorem onEvent_readReady_of_not_connected (h : (s.objects n).io.state ≠ .connected)
    (first second : ReadCall) (answers : List (List Write)) :
    s.onEvent n (.readReady first second) answers = s :=
  congrArg Prod.fst
    (SocketOwner.onReadReady_of_not_connected (O := client n) (s := (s, answers)) h)

theorem afterRead_client (transfer : Transfer) (s : ServerIo) (answers : List (List Write)) :
    (client n).afterRead transfer (s, answers) =
      ((listener n).afterRead transfer s, answers) := by
  by_cases hfails : transfer.outcome = none
  · rw [(client n).afterRead_of_none hfails, (listener n).afterRead_of_none hfails,
      run_client (SocketIo.closes_stopInternal _)]
  · rw [(client n).afterRead_of_ne_none hfails, (listener n).afterRead_of_ne_none hfails]

theorem settle_client (backlog : Reader.Backlog) (s : ServerIo) (answers : List (List Write)) :
    (client n).settle backlog (s, answers) = ((listener n).settle backlog s, answers) := by
  simp only [SocketOwner.settle]
  split_ifs
  · exact run_client (SocketIo.closes_stopInternal _) answers
  · rfl

/-- A read: the bytes, the end of the connection if the socket fails, the answers to the
messages, and the end of the connection if something else came behind them. -/
theorem onEvent_readReady (h : (s.objects n).io.state = .connected) (first second : ReadCall)
    (answers : List (List Write)) :
    s.onEvent n (.readReady first second) answers =
      let (reader, transfer) := (s.objects n).io.reader.update first second
      (listener n).settle reader.wholeBacklog
        ((answersTo reader answers).foldl writeTo
          ((listener n).afterRead transfer ((listener n).setReader s reader))) := by
  have hread := (blind_client n).onReadReady_eq (s := (s, answers)) (fun _ => rfl) h first second
  have hset : ∀ reader, (client n).setReader (s, answers) reader =
      ((listener n).setReader s reader, answers) := fun _ => rfl
  have hio : (client n).io (s, answers) = (s.objects n).io := rfl
  simp only [hio, hset, afterRead_client, deliver_client, settle_client] at hread
  exact congrArg Prod.fst hread

theorem later_afterRead (transfer : Transfer) (s : ServerIo) :
    Later s ((listener n).afterRead transfer s) := by
  by_cases hfails : transfer.outcome = none
  · rw [(listener n).afterRead_of_none hfails]
    exact later_run_listener (SocketIo.closes_stopInternal _)
  · rw [(listener n).afterRead_of_ne_none hfails]
    exact Later.refl s

theorem later_settle (backlog : Reader.Backlog) (s : ServerIo) :
    Later s ((listener n).settle backlog s) := by
  have hset := (sameConnections_setReader s n backlog.reader).later
  simp only [SocketOwner.settle]
  split_ifs
  · exact hset.trans (later_run_listener (SocketIo.closes_stopInternal _))
  · exact hset

theorem later_onEvent (hstate : (s.objects n).io.state ≠ .connecting) (event : SocketIo.Event)
    (answers : List (List Write)) : Later s (s.onEvent n event answers) := by
  cases event with
  | hungOrError =>
      rw [onEvent_hungOrError]
      exact later_run_listener (SocketIo.closes_stopInternal _)
  | writeReady finalized first second =>
      rw [onEvent_writeReady hstate]
      exact later_run_listener (closes_writeReady hstate finalized first second)
  | readReady first second =>
      by_cases hconnected : (s.objects n).io.state = .connected
      · rw [onEvent_readReady hconnected]
        exact (sameConnections_setReader ..).later.trans
          ((later_afterRead ..).trans ((later_writes ..).trans (later_settle ..)))
      · rw [onEvent_readReady_of_not_connected hconnected]
        exact Later.refl s

/-- An event that ends no connection leaves all of them as they are. -/
theorem sameConnections_onEvent (hstate : (s.objects n).io.state ≠ .connecting)
    {event : SocketIo.Event} {answers : List (List Write)} (h : ¬ s.Ends n event answers) :
    SameConnections s (s.onEvent n event answers) := by
  cases event with
  | hungOrError =>
      rw [onEvent_hungOrError]
      exact (run_listener (SocketIo.closes_stopInternal _)).resolve_right fun hclosed =>
        h hclosed.1
  | writeReady finalized first second =>
      have hcloses := closes_writeReady hstate finalized first second
      rw [onEvent_writeReady hstate]
      refine (run_listener hcloses).resolve_right fun ⟨hopen, hclosed, _⟩ => hclosed ?_
      have hkept := (SocketIo.state_writeReady hstate finalized first second).trans (if_neg h)
      rw [open_run_listener hcloses, hkept]
      exact hopen
  | readReady first second =>
      by_cases hconnected : (s.objects n).io.state = .connected
      · simp only [Ends, hconnected, true_and, not_or, not_not] at h
        obtain ⟨houtcome, hfailed, hkeep⟩ := h
        rw [onEvent_readReady hconnected]
        dsimp only
        rw [(listener n).afterRead_of_ne_none houtcome, SocketOwner.settle, if_neg hfailed]
        rw [← keepOpen_setReader s n] at hkeep
        exact (sameConnections_setReader ..).trans
          ((sameConnections_writes hkeep).trans (sameConnections_setReader ..))
      · rw [onEvent_readReady_of_not_connected hconnected]
        exact SameConnections.refl s

/-- Any other event closes an open connection. -/
theorem closes_onEvent (hstate : (s.objects n).io.state ≠ .connecting)
    {event : SocketIo.Event} {answers : List (List Write)} (h : s.Ends n event answers) :
    ∃ m, s.Open m ∧ ¬ (s.onEvent n event answers).Open m := by
  cases event with
  | hungOrError =>
      rw [onEvent_hungOrError]
      exact ⟨n, h, run_listener_stopInternal_closed⟩
  | writeReady finalized first second =>
      have hopen : s.Open n := by
        rw [Open, h.1]
        decide
      have hidle := (SocketIo.state_writeReady hstate finalized first second).trans (if_pos h)
      refine ⟨n, hopen, ?_⟩
      rw [onEvent_writeReady hstate, open_run_listener (closes_writeReady hstate ..), not_not]
      exact hidle
  | readReady first second =>
      obtain ⟨hconnected, hends⟩ := h
      have hopen : s.Open n := by
        rw [Open, hconnected]
        decide
      rw [onEvent_readReady hconnected]
      dsimp only
      set reader := ((s.objects n).io.reader.update first second).1
      set transfer := ((s.objects n).io.reader.update first second).2
      set read := (listener n).setReader s reader
      by_cases hfails : transfer.outcome = none
      · refine ⟨n, hopen, (later_settle ..).closed n ((later_writes ..).closed n ?_)⟩
        rw [(listener n).afterRead_of_none hfails]
        exact run_listener_stopInternal_closed
      rw [(listener n).afterRead_of_ne_none hfails]
      rcases hends.resolve_left hfails with hfailed | hkeep
      · have hfailed : reader.wholeBacklog.failed = true := hfailed
        refine ⟨n, hopen, ?_⟩
        rw [SocketOwner.settle, if_pos hfailed]
        exact run_listener_stopInternal_closed
      · rw [← keepOpen_setReader s n reader] at hkeep
        obtain ⟨m, hbefore, hafter⟩ := closes_writes hkeep
        exact ⟨m, ((sameConnections_setReader s n reader).open_iff m).mp hbefore,
          (later_settle ..).closed m hafter⟩

end ServerIo

end Obsr.Net
