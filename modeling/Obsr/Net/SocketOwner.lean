/-
# The owner of a socket

`socket_io` calls its owner in the middle of its work, and the owner may call back into
the object before the call returns. The object is then a part of the state of its owner:
every call finds it as the code has left it at that point, and what the code does next
starts from what the call has left.

Only the loop over the messages and the read before it go on after a call. Every other
method calls last.
-/

import Obsr.Net.Kept

namespace Obsr.Net

open Obsr.Io Obsr.Lib

/-! ## The messages a reader holds -/

namespace Reader

/-- What the loop of `process_new_data` makes of a reader: the complete messages in its
buffer, whether the machine has failed behind them, and what is left. -/
structure Backlog where
  messages : List (MessageHeader × List UInt8)
  failed : Bool
  reader : Reader
  deriving DecidableEq, Repr

def backlog : ℕ → Reader → Backlog
  | 0, r => ⟨[], false, r⟩
  | bound + 1, r =>
      let r := r.process
      if r.machine.isErrored then ⟨[], true, r⟩
      else if r.machine.isFinished then
        let rest := backlog bound r.reset
        { rest with
          messages := (r.machine.data.header, r.machine.data.messageBuffer) :: rest.messages }
      else ⟨[], false, r⟩

/-- The bound of `process_new_data`. -/
def wholeBacklog (r : Reader) : Backlog := backlog (r.readBuffer.readAvailable + 2) r

end Reader

namespace SocketIo

/-- The calls of the callbacks among the outputs. -/
def callsIn (outputs : List Output) : List Output :=
  outputs.filter fun
    | .sent _ => false
    | _ => true

@[simp]
theorem callsIn_nil : callsIn [] = [] := rfl

theorem callsIn_append (outputs outputs' : List Output) :
    callsIn (outputs ++ outputs') = callsIn outputs ++ callsIn outputs' :=
  List.filter_append _ _

/-- A method has closed the object or left its state as it was. -/
def Closes (io : SocketIo) (result : SocketIo × List Output) : Prop :=
  callsIn result.2 = [] ∧ result.1.state = io.state ∨
    callsIn result.2 = [.onClose] ∧ io.state ≠ .idle ∧ result.1.state = .idle

theorem closes_self (io : SocketIo) : Closes io (io, []) := Or.inl ⟨rfl, rfl⟩

theorem closes_stopInternal (io : SocketIo) : Closes io (io.stopInternal true) := by
  by_cases hidle : io.state = .idle
  · rw [stopInternal_of_idle hidle]
    exact closes_self io
  · rw [stopInternal_of_ne_idle hidle]
    exact Or.inr ⟨rfl, hidle, rfl⟩

theorem closes_write (type : UInt8) (message : List UInt8) (io : SocketIo) :
    Closes io (io.step (.write type message)) := by
  by_cases hcuts : io.CutsShort type message
  · have hwrite := write_of_cutsShort hcuts
    exact Or.inr ⟨congrArg (callsIn ·.2.2) hwrite, hcuts.1, congrArg (·.1.state) hwrite⟩
  · obtain ⟨hstate, houtputs⟩ := write_of_not_cutsShort hcuts
    exact Or.inl ⟨congrArg callsIn houtputs, hstate⟩

theorem writeReady_of_connecting {io : SocketIo} (hstate : io.state = .connecting)
    (first second : WriteCall) :
    io.step (.writeReady true first second) =
      ({ io with state := .connected }, [.onConnect]) := by
  simp [SocketIo.step, SocketIo.onWriteReady, hstate]

/-- Unless it makes the connection, the write half closes the object or calls nobody. -/
theorem closes_writeReady {io : SocketIo} {finalized : Bool}
    (h : ¬ (io.state = .connecting ∧ finalized = true)) (first second : WriteCall) :
    Closes io (io.step (.writeReady finalized first second)) := by
  obtain ⟨state, reader, writeBuffer, index⟩ := io
  cases state with
  | idle | bound => exact closes_self _
  | connecting =>
      cases finalized with
      | true => exact absurd ⟨rfl, rfl⟩ h
      | false => exact closes_stopInternal _
  | connected =>
      simp only [SocketIo.step, SocketIo.onWriteReady]
      cases (writeBuffer.writeInto first second).value.outcome with
      | some more => exact Or.inl ⟨rfl, rfl⟩
      | none =>
          -- the bytes that went into the socket are no call
          exact closes_stopInternal
            ⟨.connected, reader, (writeBuffer.writeInto first second).buffer, index⟩

end SocketIo

/-- What the looper tells an object about its socket. -/
inductive SocketIo.Event
  | readReady (first second : ReadCall)
  | writeReady (finalized : Bool) (first second : WriteCall)
  | hungOrError
  deriving DecidableEq, Repr

def SocketIo.Event.input : Event → Input
  | readReady first second => .readReady first second
  | writeReady finalized first second => .writeReady finalized first second
  | hungOrError => .hungOrError

/-- The callbacks of a `socket_io`, and its place in the state of the owner. -/
structure SocketOwner (σ : Type) where
  io : σ → SocketIo
  setIo : σ → SocketIo → σ
  onConnect : σ → σ
  onClose : σ → σ
  onMessage : MessageHeader → List UInt8 → σ → σ

namespace SocketOwner

variable {σ : Type} (O : SocketOwner σ)

def setReader (s : σ) (reader : Reader) : σ := O.setIo s { O.io s with reader }

/-- Bytes that go into the socket are no call. -/
def call (s : σ) : SocketIo.Output → σ
  | .onConnect => O.onConnect s
  | .onClose => O.onClose s
  | .onMessage header message => O.onMessage header message s
  | .sent _ => s

/-- A method of the object that calls last. -/
def run (method : SocketIo → SocketIo × List SocketIo.Output) (s : σ) : σ :=
  let (io, outputs) := method (O.io s)
  outputs.foldl O.call (O.setIo s io)

/-- The loop of `process_new_data`. -/
def processMessages : ℕ → σ → σ
  | 0, s => s
  | bound + 1, s =>
      let reader := (O.io s).reader.process
      let s := O.setReader s reader
      if reader.machine.isErrored then O.run (·.stopInternal true) s
      else if reader.machine.isFinished then
        let data := reader.machine.data
        let s := O.onMessage data.header data.messageBuffer s
        processMessages bound (O.setReader s (O.io s).reader.reset)
      else s

def processNewData (s : σ) : σ :=
  O.processMessages ((O.io s).reader.readBuffer.readAvailable + 2) s

/-- What a read that failed does before the loop. -/
def afterRead (transfer : Transfer) (s : σ) : σ :=
  match transfer.outcome with
  | none => O.run (·.stopInternal true) s
  | some _ => s

def onReadReady (first second : ReadCall) (s : σ) : σ :=
  if (O.io s).state = .connected then
    let (reader, transfer) := (O.io s).reader.update first second
    O.processNewData (O.afterRead transfer (O.setReader s reader))
  else s

def step (s : σ) : SocketIo.Input → σ
  | .readReady first second => O.onReadReady first second s
  | input => O.run (·.step input) s

/-- The calls for messages, one after the other. -/
def deliver (s : σ) (messages : List (MessageHeader × List UInt8)) : σ :=
  messages.foldl (fun s message => O.onMessage message.1 message.2 s) s

/-- The end of the loop. -/
def settle (backlog : Reader.Backlog) (s : σ) : σ :=
  let s := O.setReader s backlog.reader
  if backlog.failed then O.run (·.stopInternal true) s else s

/-! ## Owners that leave the reader alone -/

/-- The object has a place of its own in the state. -/
structure Lawful : Prop where
  io_setIo : ∀ s io, O.io (O.setIo s io) = io
  setIo_setIo : ∀ s io io', O.setIo (O.setIo s io) io' = O.setIo s io'
  setIo_io : ∀ s, O.setIo s (O.io s) = s

/-- No call for a message looks at the reader or changes it. -/
structure Blind : Prop extends O.Lawful where
  onMessage_setReader : ∀ header message s reader,
    O.onMessage header message (O.setReader s reader) =
      O.setReader (O.onMessage header message s) reader

variable {O} {s : σ}

/-- Of what a method shows only the calls reach the owner. -/
theorem run_eq (method : SocketIo → SocketIo × List SocketIo.Output) (s : σ) :
    O.run method s =
      (SocketIo.callsIn (method (O.io s)).2).foldl O.call (O.setIo s (method (O.io s)).1) := by
  have hcalls : ∀ (outputs : List SocketIo.Output) (t : σ),
      outputs.foldl O.call t = (SocketIo.callsIn outputs).foldl O.call t := by
    intro outputs
    induction outputs with
    | nil => exact fun t => rfl
    | cons output outputs ih => cases output <;> exact fun t => ih _
  exact hcalls _ _

theorem run_of_nil {method : SocketIo → SocketIo × List SocketIo.Output}
    (h : SocketIo.callsIn (method (O.io s)).2 = []) :
    O.run method s = O.setIo s (method (O.io s)).1 := by
  rw [run_eq, h, List.foldl_nil]

theorem run_of_singleton {method : SocketIo → SocketIo × List SocketIo.Output}
    {output : SocketIo.Output} (h : SocketIo.callsIn (method (O.io s)).2 = [output]) :
    O.run method s = O.call (O.setIo s (method (O.io s)).1) output := by
  rw [run_eq, h, List.foldl_cons, List.foldl_nil]

/-- A method that does no more than to close the object keeps what `on_close` keeps. -/
theorem run_invariant {I : σ → Prop} (hset : ∀ s io, I s → I (O.setIo s io))
    (hclose : ∀ s, I s → I (O.onClose s))
    {method : SocketIo → SocketIo × List SocketIo.Output}
    (hcloses : SocketIo.Closes (O.io s) (method (O.io s))) (h : I s) : I (O.run method s) := by
  rcases hcloses with ⟨hquiet, -⟩ | ⟨hcloses, -, -⟩
  · rw [run_of_nil hquiet]
    exact hset _ _ h
  · rw [run_of_singleton hcloses]
    exact hclose _ (hset _ _ h)

theorem afterRead_of_none {transfer : Transfer} (h : transfer.outcome = none) :
    O.afterRead transfer s = O.run (·.stopInternal true) s := by
  simp only [afterRead, h]

theorem afterRead_of_ne_none {transfer : Transfer} (h : transfer.outcome ≠ none) :
    O.afterRead transfer s = s := by
  obtain ⟨more, hmore⟩ := Option.ne_none_iff_exists'.mp h
  simp only [afterRead, hmore]

theorem onReadReady_of_connected {first second : ReadCall}
    (hconnected : (O.io s).state = .connected) :
    O.onReadReady first second s =
      O.processNewData (O.afterRead ((O.io s).reader.update first second).2
        (O.setReader s ((O.io s).reader.update first second).1)) := if_pos hconnected

theorem onReadReady_of_not_connected {first second : ReadCall}
    (hconnected : (O.io s).state ≠ .connected) :
    O.onReadReady first second s = s := if_neg hconnected

theorem stopInternal_invariant {I : σ → Prop} (hset : ∀ s io, I s → I (O.setIo s io))
    (hclose : ∀ s, I s → I (O.onClose s)) (h : I s) : I (O.run (·.stopInternal true) s) := by
  refine run_invariant hset hclose ?_ h
  exact SocketIo.closes_stopInternal (O.io s)

theorem afterRead_invariant {I : σ → Prop} (hset : ∀ s io, I s → I (O.setIo s io))
    (hclose : ∀ s, I s → I (O.onClose s)) (transfer : Transfer) (h : I s) :
    I (O.afterRead transfer s) := by
  by_cases hfails : transfer.outcome = none
  · rw [afterRead_of_none hfails]
    exact stopInternal_invariant hset hclose h
  · rw [afterRead_of_ne_none hfails]
    exact h

theorem processMessages_invariant {I : σ → Prop} (hset : ∀ s io, I s → I (O.setIo s io))
    (hclose : ∀ s, I s → I (O.onClose s))
    (hmessage : ∀ header message s, I s → I (O.onMessage header message s)) (bound : ℕ)
    (h : I s) : I (O.processMessages bound s) := by
  induction bound generalizing s with
  | zero => exact h
  | succ bound ih =>
      rw [processMessages]
      split_ifs
      · exact stopInternal_invariant hset hclose (hset _ _ h)
      · exact ih (hset _ _ (hmessage _ _ _ (hset _ _ h)))
      · exact hset _ _ h

/-- A read keeps what the callbacks of messages and of the end keep. -/
theorem onReadReady_invariant {I : σ → Prop} (hset : ∀ s io, I s → I (O.setIo s io))
    (hclose : ∀ s, I s → I (O.onClose s))
    (hmessage : ∀ header message s, I s → I (O.onMessage header message s))
    (first second : ReadCall) (h : I s) : I (O.onReadReady first second s) := by
  by_cases hconnected : (O.io s).state = .connected
  · rw [onReadReady_of_connected hconnected]
    exact processMessages_invariant hset hclose hmessage _
      (afterRead_invariant hset hclose _ (hset _ _ h))
  · rw [onReadReady_of_not_connected hconnected]
    exact h

theorem Lawful.io_setReader (h : O.Lawful) (s : σ) (reader : Reader) :
    O.io (O.setReader s reader) = { O.io s with reader } := h.io_setIo _ _

theorem Lawful.setReader_setReader (h : O.Lawful) (s : σ) (reader reader' : Reader) :
    O.setReader (O.setReader s reader) reader' = O.setReader s reader' := by
  rw [setReader, h.io_setReader]
  exact h.setIo_setIo _ _ _

theorem Lawful.setReader_reader (h : O.Lawful) (s : σ) :
    O.setReader s (O.io s).reader = s := h.setIo_io s

theorem Lawful.settle_setReader (h : O.Lawful) (backlog : Reader.Backlog) (s : σ)
    (reader : Reader) : O.settle backlog (O.setReader s reader) = O.settle backlog s := by
  simp only [settle, h.setReader_setReader]

theorem Blind.deliver_setReader (h : O.Blind) (s : σ) (reader : Reader)
    (messages : List (MessageHeader × List UInt8)) :
    O.deliver (O.setReader s reader) messages = O.setReader (O.deliver s messages) reader := by
  induction messages generalizing s with
  | nil => rfl
  | cons message messages ih =>
      have hfirst := h.onMessage_setReader message.1 message.2 s reader
      calc O.deliver (O.setReader s reader) (message :: messages)
          = O.deliver (O.onMessage message.1 message.2 (O.setReader s reader)) messages := rfl
        _ = O.deliver (O.setReader (O.onMessage message.1 message.2 s) reader) messages := by
            rw [hfirst]
        _ = O.setReader (O.deliver s (message :: messages)) reader := ih _

/-- The loop delivers the complete messages of the reader, whatever the calls do. -/
theorem Blind.processMessages_eq (h : O.Blind) (bound : ℕ) (s : σ) :
    O.processMessages bound s =
      O.settle ((O.io s).reader.backlog bound)
        (O.deliver s ((O.io s).reader.backlog bound).messages) := by
  induction bound generalizing s with
  | zero => exact (h.setReader_reader s).symm
  | succ bound ih =>
      simp only [processMessages, Reader.backlog]
      split_ifs
      · rfl
      · -- the call leaves the reader as the machine has left it
        set reader := (O.io s).reader.process
        set next := O.onMessage reader.machine.data.header reader.machine.data.messageBuffer s
        rw [h.onMessage_setReader, h.io_setReader, h.setReader_setReader, ih, h.io_setReader,
          h.deliver_setReader, h.settle_setReader]
        rfl
      · rfl

theorem Blind.processNewData_eq (h : O.Blind) (s : σ) :
    O.processNewData s =
      O.settle (O.io s).reader.wholeBacklog
        (O.deliver s (O.io s).reader.wholeBacklog.messages) := h.processMessages_eq _ s

theorem Lawful.reader_stopInternal (h : O.Lawful)
    (hclose : ∀ s, (O.io (O.onClose s)).reader = (O.io s).reader) (s : σ) :
    (O.io (O.run (·.stopInternal true) s)).reader = (O.io s).reader := by
  rcases SocketIo.closes_stopInternal (O.io s) with ⟨hquiet, -⟩ | ⟨hcloses, -⟩
  · rw [run_of_nil hquiet, h.io_setIo, SocketIo.stopInternal_fst]
  · rw [run_of_singleton hcloses]
    show (O.io (O.onClose _)).reader = _
    rw [hclose, h.io_setIo, SocketIo.stopInternal_fst]

theorem Lawful.reader_afterRead (h : O.Lawful)
    (hclose : ∀ s, (O.io (O.onClose s)).reader = (O.io s).reader) (transfer : Transfer) (s : σ) :
    (O.io (O.afterRead transfer s)).reader = (O.io s).reader := by
  by_cases hfails : transfer.outcome = none
  · rw [afterRead_of_none hfails]
    exact h.reader_stopInternal hclose s
  · rw [afterRead_of_ne_none hfails]

/-- The read half: the bytes, the end of the session if the read fails, and then the
complete messages. -/
theorem Blind.onReadReady_eq (h : O.Blind)
    (hclose : ∀ s, (O.io (O.onClose s)).reader = (O.io s).reader)
    (hconnected : (O.io s).state = .connected) (first second : ReadCall) :
    O.onReadReady first second s =
      let (reader, transfer) := (O.io s).reader.update first second
      O.settle reader.wholeBacklog
        (O.deliver (O.afterRead transfer (O.setReader s reader))
          reader.wholeBacklog.messages) := by
  rw [onReadReady_of_connected hconnected, h.processNewData_eq,
    h.toLawful.reader_afterRead hclose, h.toLawful.io_setReader]

/-! ## Owners that only listen -/

/-- An owner that keeps a log of the calls. With it the object takes the steps of
`SocketIo.step` (`step_listening`). -/
def listening : SocketOwner (SocketIo × List SocketIo.Output) where
  io s := s.1
  setIo s io := (io, s.2)
  onConnect s := (s.1, s.2 ++ [.onConnect])
  onClose s := (s.1, s.2 ++ [.onClose])
  onMessage header message s := (s.1, s.2 ++ [.onMessage header message])

@[simp]
theorem io_listening (s : SocketIo × List SocketIo.Output) : listening.io s = s.1 := rfl

@[simp]
theorem setReader_listening (s : SocketIo × List SocketIo.Output) (reader : Reader) :
    listening.setReader s reader = ({ s.1 with reader }, s.2) := rfl

theorem call_listening (s : SocketIo × List SocketIo.Output) (output : SocketIo.Output) :
    listening.call s output = (s.1, s.2 ++ SocketIo.callsIn [output]) := by
  cases output with
  | onConnect => rfl
  | onClose => rfl
  | onMessage header message => rfl
  | sent bytes => exact (congrArg (Prod.mk s.1) (List.append_nil s.2)).symm

theorem foldl_listening (outputs : List SocketIo.Output)
    (s : SocketIo × List SocketIo.Output) :
    outputs.foldl listening.call s = (s.1, s.2 ++ SocketIo.callsIn outputs) := by
  induction outputs generalizing s with
  | nil => simp
  | cons output outputs ih =>
      rw [List.foldl_cons, ih, call_listening, List.append_assoc, ← SocketIo.callsIn_append,
        List.singleton_append]

@[simp]
theorem run_listening (method : SocketIo → SocketIo × List SocketIo.Output)
    (s : SocketIo × List SocketIo.Output) :
    listening.run method s = ((method s.1).1, s.2 ++ SocketIo.callsIn (method s.1).2) :=
  foldl_listening _ _

theorem processMessages_listening (bound : ℕ) (s : SocketIo × List SocketIo.Output) :
    listening.processMessages bound s =
      ((s.1.processMessages bound).1, s.2 ++ SocketIo.callsIn (s.1.processMessages bound).2) := by
  induction bound generalizing s with
  | zero => simp [processMessages, SocketIo.processMessages]
  | succ bound ih =>
      simp only [processMessages, SocketIo.processMessages, run_listening, ih, io_listening,
        setReader_listening]
      cases s.1.reader.process.machine.isErrored with
      | true => rfl
      | false =>
          cases s.1.reader.process.machine.isFinished with
          | true => exact Prod.ext rfl (List.append_assoc _ _ _)
          | false => exact Prod.ext rfl (List.append_nil _).symm

/-- For an owner that does not call back, the object takes the steps it takes on its
own. -/
theorem step_listening (input : SocketIo.Input) (s : SocketIo × List SocketIo.Output) :
    listening.step s input = ((s.1.step input).1, s.2 ++ SocketIo.callsIn (s.1.step input).2) := by
  cases input with
  | readReady first second =>
      by_cases hconnected : s.1.state = .connected
      · rw [step, onReadReady_of_connected hconnected]
        simp only [SocketIo.step, SocketIo.onReadReady, if_pos hconnected, io_listening,
          setReader_listening]
        rcases s.1.reader.update first second with ⟨reader, outcome, bytes⟩
        cases outcome with
        | none =>
            simp only [processNewData, processMessages_listening, SocketIo.processNewData,
              afterRead, run_listening, io_listening, SocketIo.callsIn_append, List.append_assoc]
        | some more => exact processMessages_listening _ _
      · rw [step, onReadReady_of_not_connected hconnected, SocketIo.step,
          SocketIo.onReadReady, if_neg hconnected, SocketIo.callsIn_nil, List.append_nil]
  | start connected => exact run_listening (·.step (.start connected)) s
  | stop => exact run_listening (·.step .stop) s
  | connect accepted => exact run_listening (·.step (.connect accepted)) s
  | write type message => exact run_listening (·.step (.write type message)) s
  | writeReady finalized first second =>
      exact run_listening (·.step (.writeReady finalized first second)) s
  | hungOrError => exact run_listening (·.step .hungOrError) s

end SocketOwner

end Obsr.Net
