/-
# The loops of the reader end

`process_new_data` is three loops inside one another, none of which counts. The search for
a header repeats on headers it does not accept, the machine on moves to a state, and the
loop over the messages on messages. The measures are what can be read, the rank of the
state, and what can be read together with whether a header has been taken already.

The model gives each of its loops a bound. The theorems below are about the loops of the
source, and say that the bounds are never reached.
-/

import Obsr.Lib.Loop
import Obsr.Net.SocketOwner

namespace Obsr

open Lib

namespace StateMachine

variable {σ δ γ : Type} (behaviour : Behaviour σ δ γ)

/-- `while (process_once());`, one call. -/
def round (s : StateMachine σ δ × γ) :
    (StateMachine σ δ × γ) ⊕ (Verdict × StateMachine σ δ × γ) :=
  match processOnce behaviour s.1 s.2 with
  | (.again, next) => .inl next
  | done => .inr done

theorem processLoop_eq_bounded (bound : ℕ) (m : StateMachine σ δ) (fields : γ) :
    processLoop behaviour bound m fields =
      bounded (round behaviour) (fun s => (.stop, s)) bound (m, fields) := by
  induction bound generalizing m fields with
  | zero => rfl
  | succ bound ih =>
      rw [processLoop, bounded, round]
      rcases processOnce behaviour m fields with ⟨verdict, m', fields'⟩
      cases verdict with
      | again => exact ih m' fields'
      | stop => rfl
      | threw => rfl

variable {behaviour}

/-- A move to another state is one of `process_state`. -/
theorem processState_of_round {s next : StateMachine σ δ × γ}
    (h : round behaviour s = .inl next) :
    behaviour.processState s.1.userState s.1 s.2 = (.again, next) := by
  rw [round, processOnce] at h
  cases hstate : s.1.state with
  | inState =>
      rw [hstate] at h
      rcases hstep : behaviour.processState s.1.userState s.1 s.2 with ⟨verdict, next'⟩
      simp only [hstep] at h
      cases verdict with
      | again => rw [Sum.inl.inj h]
      | stop => cases h
      | threw => cases h
  | start => simp [hstate] at h
  | ended => simp [hstate] at h
  | error => simp [hstate] at h

/-- A class whose states have ranks ends its loop. -/
theorem ends_processLoop {rank : σ → ℕ}
    (hrank : ∀ s m fields m' fields',
      behaviour.processState s m fields = (.again, m', fields') → rank m'.userState < rank s)
    (m : StateMachine σ δ) (fields : γ) {bound : ℕ} (hbound : rank m.userState < bound) :
    ∃ n ≤ rank m.userState,
      Ends (round behaviour) (m, fields) n (processLoop behaviour bound m fields) := by
  rw [processLoop_eq_bounded]
  refine ends_bounded (s := (m, fields)) (I := fun _ => True)
    (m := fun s => rank s.1.userState) ?_ trivial _ hbound
  intro s next _ hround
  exact ⟨trivial, hrank _ _ _ _ _ (processState_of_round hround)⟩

end StateMachine

namespace Net

open Io

namespace Reader

/-! ## The search for a header -/

/-- One round of the loop of the header state. -/
def headerRound (s : MessageHeader × CircularBuffer) :
    (MessageHeader × CircularBuffer) ⊕ (Bool × MessageHeader × CircularBuffer) :=
  let sought := s.2.findAndSeekRead MessageHeader.messageMagic
  if sought.value then
    let result := sought.buffer.read MessageHeader.sizeOf
    match result.value with
    | none => .inr (false, s.1, result.buffer)
    | some bytes =>
        let header := MessageHeader.ofBytes bytes
        if header.magic ≠ MessageHeader.messageMagic ∨
            header.version ≠ MessageHeader.currentVersion then
          .inl (header, result.buffer)
        else .inr (true, header, result.buffer)
  else .inr (false, s.1, sought.buffer)

theorem findHeader_eq_bounded (bound : ℕ) (header : MessageHeader) (buffer : CircularBuffer) :
    findHeader bound header buffer =
      bounded headerRound (fun s => (false, s)) bound (header, buffer) := by
  induction bound generalizing header buffer with
  | zero => rfl
  | succ bound ih =>
      simp only [findHeader, bounded, headerRound]
      split_ifs
      · cases ((buffer.findAndSeekRead MessageHeader.messageMagic).buffer.read
            MessageHeader.sizeOf).value with
        | none => rfl
        | some bytes =>
            dsimp only
            split_ifs
            · exact ih _ _
            · rfl
      · rfl

theorem readAvailable_headerRound {s next : MessageHeader × CircularBuffer}
    (hbounds : s.2.InBounds) (h : headerRound s = .inl next) :
    next.2.InBounds ∧ next.2.readAvailable + MessageHeader.sizeOf ≤ s.2.readAvailable := by
  simp only [headerRound] at h
  split_ifs at h
  cases hread : ((s.2.findAndSeekRead MessageHeader.messageMagic).buffer.read
      MessageHeader.sizeOf).value with
  | none =>
      rw [hread] at h
      cases h
  | some bytes =>
      simp only [hread] at h
      split_ifs at h
      rw [← Sum.inl.inj h]
      exact readAvailable_round_add hbounds hread

/-- Every round takes a header out of the buffer. -/
theorem ends_findHeader {buffer : CircularBuffer} (hbounds : buffer.InBounds)
    (header : MessageHeader) :
    ∃ n ≤ buffer.readAvailable / MessageHeader.sizeOf,
      Ends headerRound (header, buffer) n
        (findHeader (buffer.readAvailable + 1) header buffer) := by
  rw [findHeader_eq_bounded]
  refine ends_bounded (s := (header, buffer)) (I := fun s => s.2.InBounds)
    (m := fun s => s.2.readAvailable / MessageHeader.sizeOf) ?_ hbounds _
    (Nat.lt_succ_of_le (Nat.div_le_self _ _))
  intro s next hin hround
  obtain ⟨hnext, hfewer⟩ := readAvailable_headerRound hin hround
  refine ⟨hnext, ?_⟩
  rw [MessageHeader.sizeOf] at hfewer ⊢
  omega

/-- A header that was found has been taken out of the buffer. -/
theorem readAvailable_findHeader {buffer : CircularBuffer} (hbounds : buffer.InBounds)
    (header : MessageHeader) (bound : ℕ) (hfound : (findHeader bound header buffer).1 = true) :
    (findHeader bound header buffer).2.2.readAvailable + MessageHeader.sizeOf ≤
      buffer.readAvailable := by
  induction bound generalizing header buffer with
  | zero => cases hfound
  | succ bound ih =>
      simp only [findHeader] at hfound ⊢
      split_ifs at hfound ⊢ with hvalue
      cases hread : ((buffer.findAndSeekRead MessageHeader.messageMagic).buffer.read
          MessageHeader.sizeOf).value with
      | none =>
          rw [hread] at hfound
          cases hfound
      | some bytes =>
          obtain ⟨hnext, hfewer⟩ := readAvailable_round_add hbounds hread
          simp only [hread] at hfound ⊢
          split_ifs at hfound ⊢
          · have hrest := ih hnext _ hfound
            omega
          · exact hfewer

/-! ## One run of the machine -/

/-- Whatever the machine is in, its run only moves the read position. -/
theorem processState_advances {buffer : CircularBuffer} (hbounds : buffer.InBounds)
    (current : ReadState) (m : StateMachine ReadState ReadData) :
    ∃ k ≤ buffer.readAvailable, (processState current m buffer).2.2 = buffer.advanceRead k := by
  have hstays : ∃ k ≤ buffer.readAvailable, buffer = buffer.advanceRead k :=
    ⟨0, Nat.zero_le _, (CircularBuffer.advanceRead_zero hbounds).symm⟩
  cases current with
  | header =>
      obtain ⟨k, hk, hbuffer, -⟩ := findHeader_advances hbounds m.data.header
        (buffer.readAvailable + 1)
      refine ⟨k, hk, ?_⟩
      rw [← hbuffer]
      simp only [processState]
      split_ifs <;> rfl
  | message =>
      obtain ⟨k, hk, hbuffer, -⟩ := CircularBuffer.read_buffer hbounds
        m.data.header.messageSize.toNat
      simp only [processState]
      split_ifs
      · exact ⟨_, (CircularBuffer.seekOffset_eq hbounds).trans_le (Nat.min_le_right _ _), rfl⟩
      · cases (buffer.read m.data.header.messageSize.toNat).value with
        | none => exact ⟨k, hk, hbuffer⟩
        | some bytes => exact ⟨k, hk, hbuffer⟩
      · exact hstays

theorem processLoop_advances {buffer : CircularBuffer} (hbounds : buffer.InBounds)
    (bound : ℕ) (m : StateMachine ReadState ReadData) :
    ∃ k ≤ buffer.readAvailable,
      (StateMachine.processLoop behaviour bound m buffer).2.2 = buffer.advanceRead k := by
  have hstays : ∃ k ≤ buffer.readAvailable, buffer = buffer.advanceRead k :=
    ⟨0, Nat.zero_le _, (CircularBuffer.advanceRead_zero hbounds).symm⟩
  induction bound generalizing m buffer with
  | zero => exact hstays
  | succ bound ih =>
      have honce : ∃ k ≤ buffer.readAvailable,
          (StateMachine.processOnce behaviour m buffer).2.2 = buffer.advanceRead k := by
        rw [StateMachine.processOnce]
        cases m.state with
        | inState => exact processState_advances hbounds m.userState m
        | start => exact hstays
        | ended => exact hstays
        | error => exact hstays
      obtain ⟨k, hk, hbuffer⟩ := honce
      rw [StateMachine.processLoop]
      rcases honce : StateMachine.processOnce behaviour m buffer with ⟨verdict, m', buffer'⟩
      rw [honce] at hbuffer
      obtain rfl : buffer' = buffer.advanceRead k := hbuffer
      cases verdict with
      | again =>
          have hnext := hbounds.advanceRead k
          obtain ⟨n, hn, hafter⟩ := ih hnext m'
            ⟨0, Nat.zero_le _, (CircularBuffer.advanceRead_zero hnext).symm⟩
          rw [CircularBuffer.readAvailable_advanceRead hbounds hk] at hn
          refine ⟨k + n, by omega, hafter.trans ?_⟩
          exact CircularBuffer.advanceRead_advanceRead k n
      | stop => exact ⟨k, hk, rfl⟩
      | threw => exact ⟨k, hk, rfl⟩

variable {r : Reader}

theorem process_advances (hbounds : r.readBuffer.InBounds) :
    ∃ k ≤ r.readBuffer.readAvailable, r.process.readBuffer = r.readBuffer.advanceRead k := by
  have hstays : ∃ k ≤ r.readBuffer.readAvailable, r.readBuffer = r.readBuffer.advanceRead k :=
    ⟨0, Nat.zero_le _, (CircularBuffer.advanceRead_zero hbounds).symm⟩
  simp only [process, StateMachine.process]
  cases r.machine.state with
  | start => exact processLoop_advances hbounds 2 _
  | inState => exact processLoop_advances hbounds 2 _
  | ended => exact hstays
  | error => exact hstays

/-- A machine at its start forgets its error. -/
theorem process_of_start (hstart : r.machine.state = .start) :
    r.process = r.takeFrame := by
  let forgotten : Reader := { r with machine := { r.machine with errorCode := 0 } }
  have hprocess : r.process = forgotten.process := by
    simp only [forgotten, process, StateMachine.process, hstart]
  have hframe : r.takeFrame = forgotten.takeFrame := rfl
  rw [hprocess, hframe]
  exact process_of_header ⟨rfl, Or.inl hstart⟩

/-- From its start the machine takes a header out of the buffer before it delivers. -/
theorem readAvailable_of_start (hbounds : r.readBuffer.InBounds)
    (hstart : r.machine.state = .start) (hfinished : r.process.machine.isFinished = true) :
    r.process.readBuffer.readAvailable + MessageHeader.sizeOf ≤ r.readBuffer.readAvailable := by
  rw [process_of_start hstart] at hfinished ⊢
  have hfound := readAvailable_findHeader hbounds r.machine.data.header
    (r.readBuffer.readAvailable + 1)
  obtain ⟨k, hk, hbuffer, -⟩ := findHeader_advances hbounds r.machine.data.header
    (r.readBuffer.readAvailable + 1)
  rw [takeFrame] at hfinished ⊢
  rcases hfind : findHeader (r.readBuffer.readAvailable + 1) r.machine.data.header
    r.readBuffer with ⟨found, header, buffer⟩
  rw [hfind] at hfound hbuffer
  simp only [hfind] at hfinished ⊢
  cases found with
  | false =>
      simp [within, StateMachine.isFinished] at hfinished
  | true =>
      obtain rfl : buffer = r.readBuffer.advanceRead k := hbuffer
      have hnext := hbounds.advanceRead k
      obtain ⟨n, hn, hafter⟩ := processState_advances hnext .message
        (r.within .message header (r.readBuffer.advanceRead k)).machine
      have hfewer := hfound rfl
      have havail := CircularBuffer.readAvailable_advanceRead hnext hn
      have hmessage :
          (r.within .message header (r.readBuffer.advanceRead k)).takeMessage.readBuffer =
            (r.readBuffer.advanceRead k).advanceRead n := hafter
      rw [if_pos rfl, hmessage, havail]
      simp only at hfewer
      omega

/-- The messages a reader may still deliver: one for each header it can find, and the one
it is in the middle of. -/
def mayDeliver (r : Reader) : ℕ :=
  r.readBuffer.readAvailable / MessageHeader.sizeOf + if r.machine.state = .start then 0 else 1

/-- A message that is delivered is one less to come. -/
theorem mayDeliver_reset (hbounds : r.readBuffer.InBounds)
    (hfinished : r.process.machine.isFinished = true) :
    r.process.reset.readBuffer.InBounds ∧ r.process.reset.mayDeliver < r.mayDeliver := by
  obtain ⟨k, hk, hbuffer⟩ := process_advances hbounds
  have havail := CircularBuffer.readAvailable_advanceRead hbounds hk
  rw [← hbuffer] at havail
  have hreset : r.process.reset.mayDeliver =
      r.process.readBuffer.readAvailable / MessageHeader.sizeOf := by
    rw [mayDeliver]
    exact congrArg _ (if_pos rfl)
  refine ⟨(hbuffer ▸ hbounds.advanceRead k : r.process.readBuffer.InBounds), ?_⟩
  rw [hreset, mayDeliver]
  by_cases hstart : r.machine.state = .start
  · have hheader := readAvailable_of_start hbounds hstart hfinished
    rw [if_pos hstart]
    rw [MessageHeader.sizeOf] at hheader ⊢
    omega
  · rw [if_neg hstart]
    exact Nat.lt_succ_of_le (Nat.div_le_div_right (by omega))

end Reader

/-! ## The loop over the messages -/

namespace SocketOwner

variable {σ : Type} {O : SocketOwner σ} {s : σ}

variable (O) in
/-- One round of the loop of `process_new_data`. It repeats when it has called
`on_message`. -/
def messageRound (s : σ) : σ ⊕ σ :=
  let reader := (O.io s).reader.process
  let s := O.setReader s reader
  if reader.machine.isErrored then .inr (O.run (·.stopInternal true) s)
  else if reader.machine.isFinished then
    let data := reader.machine.data
    let s := O.onMessage data.header data.messageBuffer s
    .inl (O.setReader s (O.io s).reader.reset)
  else .inr s

theorem processMessages_eq_bounded (bound : ℕ) (s : σ) :
    O.processMessages bound s = bounded O.messageRound id bound s := by
  induction bound generalizing s with
  | zero => rfl
  | succ bound ih =>
      simp only [processMessages, bounded, messageRound]
      split_ifs
      · rfl
      · exact ih _
      · rfl

/-- The callback of a message does not touch the reader. -/
def DoesNotFeed (O : SocketOwner σ) : Prop :=
  ∀ header message s, (O.io (O.onMessage header message s)).reader = (O.io s).reader

theorem mayDeliver_messageRound (hlawful : O.Lawful) (hfeed : O.DoesNotFeed)
    {s next : σ} (hbounds : (O.io s).reader.readBuffer.InBounds)
    (h : O.messageRound s = .inl next) :
    (O.io next).reader.readBuffer.InBounds ∧
      (O.io next).reader.mayDeliver < (O.io s).reader.mayDeliver := by
  simp only [messageRound] at h
  split_ifs at h with _ hfinished
  rw [← Sum.inl.inj h, hlawful.io_setReader, hfeed, hlawful.io_setReader]
  exact Reader.mayDeliver_reset hbounds hfinished

/-- The loop ends after as many messages as there are headers in the buffer, and one
more if the reader was past its start. -/
theorem ends_processNewData (hlawful : O.Lawful) (hfeed : O.DoesNotFeed)
    (hbounds : (O.io s).reader.readBuffer.InBounds) :
    ∃ n ≤ (O.io s).reader.readBuffer.readAvailable / MessageHeader.sizeOf + 1,
      Ends O.messageRound s n (O.processNewData s) := by
  have hle : (O.io s).reader.mayDeliver ≤
      (O.io s).reader.readBuffer.readAvailable / MessageHeader.sizeOf + 1 := by
    rw [Reader.mayDeliver]
    split_ifs <;> omega
  have hdiv := Nat.div_le_self (O.io s).reader.readBuffer.readAvailable MessageHeader.sizeOf
  rw [processNewData, processMessages_eq_bounded]
  obtain ⟨n, hn, hends⟩ := ends_bounded (I := fun s => (O.io s).reader.readBuffer.InBounds)
    (m := fun s => (O.io s).reader.mayDeliver)
    (fun s next hin hround => mayDeliver_messageRound hlawful hfeed hin hround) hbounds id
    (show _ < (O.io s).reader.readBuffer.readAvailable + 2 by omega)
  exact ⟨n, hn.trans hle, hends⟩

/-! ## Counting the messages -/

/-- The owner with a count of the calls of `on_message`. -/
def counting (O : SocketOwner σ) : SocketOwner (σ × ℕ) where
  io s := O.io s.1
  setIo s io := (O.setIo s.1 io, s.2)
  onConnect s := (O.onConnect s.1, s.2)
  onClose s := (O.onClose s.1, s.2)
  onMessage header message s := (O.onMessage header message s.1, s.2 + 1)

theorem run_counting (method : SocketIo → SocketIo × List SocketIo.Output)
    (hclosing : ∀ io, ∀ output ∈ (method io).2, output = .onClose) (s : σ) (count : ℕ) :
    O.counting.run method (s, count) = (O.run method s, count) := by
  have hcalls : ∀ (outputs : List SocketIo.Output) (t : σ),
      (∀ output ∈ outputs, output = .onClose) →
        outputs.foldl O.counting.call (t, count) = (outputs.foldl O.call t, count) := by
    intro outputs
    induction outputs with
    | nil => exact fun t _ => rfl
    | cons output outputs ih =>
        intro t hclose
        obtain rfl : output = .onClose := hclose output (List.mem_cons_self ..)
        exact ih (O.onClose t) fun output hmem => hclose output (List.mem_cons_of_mem _ hmem)
  exact hcalls _ _ (hclosing (O.io s))

theorem stopInternal_onClose (io : SocketIo) :
    ∀ output ∈ (io.stopInternal true).2, output = .onClose := by
  intro output hmem
  by_cases hidle : io.state = .idle
  · rw [SocketIo.stopInternal_of_idle hidle] at hmem
    cases hmem
  · rw [SocketIo.stopInternal_of_ne_idle hidle] at hmem
    exact List.mem_singleton.mp hmem

/-- Only a round that repeats calls `on_message`, and it does so once. -/
theorem messageRound_counting (s : σ) (count : ℕ) :
    O.counting.messageRound (s, count) =
      (O.messageRound s).map (fun next => (next, count + 1)) fun done => (done, count) := by
  have hstop : O.counting.run (·.stopInternal true)
      (O.setReader s (O.io s).reader.process, count) =
        (O.run (·.stopInternal true) (O.setReader s (O.io s).reader.process), count) :=
    run_counting _ stopInternal_onClose _ _
  have hio : O.counting.io (s, count) = O.io s := rfl
  simp only [messageRound, hio]
  cases (O.io s).reader.process.machine.isErrored with
  | true => exact congrArg Sum.inr hstop
  | false =>
      cases (O.io s).reader.process.machine.isFinished with
      | true => rfl
      | false => rfl

theorem ends_counting {n : ℕ} {result : σ} (h : Ends O.messageRound s n result) (count : ℕ) :
    Ends O.counting.messageRound (s, count) n (result, count + n) := by
  induction h generalizing count with
  | done stops =>
      refine .done ?_
      rw [messageRound_counting, stops]
      rfl
  | @again s next n result repeats rest ih =>
      have hnext := ih (count + 1)
      rw [Nat.add_assoc, Nat.add_comm 1 n] at hnext
      refine .again ?_ hnext
      rw [messageRound_counting, repeats]
      rfl

/-- All three loops end, and there are no more calls of `on_message` than headers fit into
the bytes at the start, and one. -/
structure ProcessingEnds (O : SocketOwner σ) (s : σ) : Prop where
  search : ∀ (header : MessageHeader) (buffer : CircularBuffer), buffer.InBounds →
    ∃ n, Ends Reader.headerRound (header, buffer) n
      (Reader.findHeader (buffer.readAvailable + 1) header buffer)
  machine : ∀ (m : StateMachine ReadState ReadData) (buffer : CircularBuffer),
    ∃ n, Ends (StateMachine.round Reader.behaviour) (m, buffer) n
      (m.processLoop Reader.behaviour 2 buffer)
  messages : ∃ n ≤ (O.io s).reader.readBuffer.readAvailable / MessageHeader.sizeOf + 1,
    Ends O.messageRound s n (O.processNewData s) ∧
      Ends O.counting.messageRound (s, 0) n (O.processNewData s, n)

/-- Whatever the reader holds, and whatever the callbacks do that leave it alone, every loop
of the reader end comes to its end. -/
theorem processingEnds (hlawful : O.Lawful) (hfeed : O.DoesNotFeed)
    (hbounds : (O.io s).reader.readBuffer.InBounds) : O.ProcessingEnds s := by
  refine ⟨?_, ?_, ?_⟩
  · intro header buffer hin
    obtain ⟨n, -, hends⟩ := Reader.ends_findHeader hin header
    exact ⟨n, hends⟩
  · intro m buffer
    have hbound : Reader.rank m.userState < 2 := by
      cases m.userState <;> decide
    obtain ⟨n, -, hends⟩ := StateMachine.ends_processLoop
      (fun _ _ _ _ _ => Reader.rank_lt_of_again) m buffer hbound
    exact ⟨n, hends⟩
  · obtain ⟨n, hn, hends⟩ := ends_processNewData hlawful hfeed hbounds
    have hcount := ends_counting hends 0
    rw [Nat.zero_add] at hcount
    exact ⟨n, hn, hends, hcount⟩

/-- A connected object whose reader holds two bytes that start no header and a complete
message behind them. -/
def holding : SocketIo :=
  { SocketIo.new .blank with
    state := .connected
    reader := ((SocketIo.new .blank).reader.update
      (.delivers [7, 8, 41, 1, 0, 0, 0, 0, 5, 0, 0, 0, 2, 8, 9]) (.delivers [])).1 }

/-- The loops turn: the search passes the two bytes, and the message is delivered. -/
theorem processingEnds_holding :
    listening.ProcessingEnds (holding, []) ∧
      (listening.processNewData (holding, [])).2 = [.onMessage ⟨41, 1, 0, 5, 2⟩ [8, 9]] := by
  have hbounds : holding.reader.readBuffer.InBounds := by
    refine ⟨?_, ?_, ?_⟩ <;> decide +kernel
  refine ⟨processingEnds ⟨fun _ _ => rfl, fun _ _ _ => rfl, fun _ => rfl⟩ (fun _ _ _ => rfl)
    hbounds, ?_⟩
  decide +kernel

end SocketOwner

end Net

end Obsr
