/-
# A transport is a line

The system has a connection as a list of packets: a queue is flushed onto its end, and
packets are received from its front. For as long as a transport of bytes is not spoiled, a
line runs in step with it: what a socket makes of the writes is some list of answers, a
write that empties a buffer is no step of the line, and the packets that a read completes
are received one after the other.
-/

import Obsr.Lib.Simulation
import Obsr.Net.Line
import Obsr.Net.Transport

namespace Obsr.Net

open Obsr.Io Obsr.Lib

namespace Transport

variable {t : Transport} {line : Line}

/-- The line has the queue of the transport and the packets that are on the link, and has
received those the parser has seen. -/
structure Agrees (t : Transport) (line : Line) : Prop where
  queue : t.queue = line.queue
  written : t.link.written = (line.received ++ line.underway).map frameOf
  parsed : List.Forall₂ Parses (line.received.map frameOf) t.parsed
  drained : t.link.Drained → line.underway = []

/-- The steps of the line that match one of the transport. -/
def Matches : Input → List Line.Input → Prop
  | .enqueue message, block => block = [.enqueue message]
  | .enqueueImmediate behind message, block =>
      ∃ answers, block = [.enqueueImmediate behind message answers]
  | .process behind, block => ∃ answers, block = [.process behind answers]
  | .writeReady _ _, block => block = []
  | .readReady _ _, block => ∃ count, block = List.replicate count .receive

/-- A step that does not spoil the transport. -/
def Spares (t : Transport) (input : Input) : Prop := (t.step input).spoiled = false

instance (t : Transport) (input : Input) : Decidable (t.Spares input) :=
  inferInstanceAs (Decidable (_ = _))

/-- What the steps keep: the packets of the line are those of the link. -/
structure Follows (t : Transport) (line : Line) : Prop where
  sound : t.Sound
  clean : t.spoiled = false
  queue : t.queue = line.queue
  written : t.link.written = (line.received ++ line.underway).map frameOf
  delivered : t.link.delivered = line.received.map frameOf

theorem Follows.agrees (h : t.Follows line) : t.Agrees line := by
  obtain ⟨⟨frames, hcarrying⟩, -, hparsed⟩ := h.sound h.clean
  refine ⟨h.queue, h.written, h.delivered ▸ hparsed, fun hquiet => ?_⟩
  have hall := hcarrying.delivers.2 hquiet
  rw [h.delivered, h.written, List.map_append] at hall
  exact List.map_eq_nil_iff.mp (List.self_eq_append_right.mp hall)

/-! ## Writes -/

/-- What the socket does with a message is an answer to a queue that is flushed. -/
theorem send_flush (t : Transport) (behind : Behind) (message : OutMessage) :
    ∃ answers packets,
      (t.send behind message).2.link.written = t.link.written ++ packets.map frameOf ∧
      (t.send behind message).2.link.delivered = t.link.delivered ∧
      ∀ (queue : MessageQueue) (more : List Bool),
        MessageQueue.flush behind (message :: queue) (answers ++ more) =
          if (t.send behind message).1 then
            ((queue.flush behind more).1, packets ++ (queue.flush behind more).2)
          else (message :: queue, packets) := by
  unfold send
  dsimp only
  rcases MessageQueue.writeMessage_cases behind message with
    ⟨-, hwrite⟩ | ⟨-, hwrite⟩ | ⟨-, payload, -, hwrite⟩
  · refine ⟨[], [], ?_⟩
    rw [hwrite, List.map_nil, List.append_nil]
    refine ⟨rfl, rfl, fun queue more => ?_⟩
    rw [MessageQueue.flush, hwrite]
    rfl
  · refine ⟨[], [], ?_⟩
    rw [hwrite, List.map_nil, List.append_nil]
    refine ⟨rfl, rfl, fun queue more => ?_⟩
    rw [MessageQueue.flush, hwrite]
    rfl
  · rw [hwrite]
    set result := (t.link.writer.write message.type.toByte payload).2.1
    have hanswer : (destination message.type.toByte payload t).1 = result.getD false := rfl
    have hwritten : (destination message.type.toByte payload t).2.link.written =
        if result = some true then t.link.written ++ [(message.type.toByte, payload)]
        else t.link.written := rfl
    by_cases haccepted : result = some true
    · rw [haccepted] at hanswer
      rw [if_pos haccepted] at hwritten
      refine ⟨[true], [⟨message, message.type.toByte, payload⟩], ?_, ?_, fun queue more => ?_⟩
      · rw [hanswer]
        exact hwritten
      · rw [hanswer]
        rfl
      · rw [hanswer, MessageQueue.flush, hwrite]
        rfl
    · have hfalse : result.getD false = false := by
        rcases hcase : result with _ | (_ | _)
        · rfl
        · rfl
        · exact absurd hcase haccepted
      rw [hfalse] at hanswer
      rw [if_neg haccepted] at hwritten
      refine ⟨[false], [], ?_, ?_, fun queue more => ?_⟩
      · rw [hanswer, List.map_nil, List.append_nil]
        exact hwritten
      · rw [hanswer]
        rfl
      · rw [hanswer, MessageQueue.flush, hwrite]
        rfl

/-- The same of `process`. -/
theorem process_flush (t : Transport) (behind : Behind) (queue : MessageQueue) :
    ∃ answers packets,
      let after := queue.process (send behind) t
      MessageQueue.flush behind queue answers = (after.1, packets) ∧
        after.2.link.written = t.link.written ++ packets.map frameOf ∧
        after.2.link.delivered = t.link.delivered := by
  dsimp only
  induction queue generalizing t with
  | nil => exact ⟨[], [], rfl, (List.append_nil _).symm, rfl⟩
  | cons message queue ih =>
      obtain ⟨answers, packets, hwritten, hdelivered, hflush⟩ := t.send_flush behind message
      rw [MessageQueue.process]
      rcases hsend : send behind message t with ⟨written, after⟩
      rw [hsend] at hwritten hdelivered
      cases written with
      | true =>
          obtain ⟨more, others, hrest, hwritten', hdelivered'⟩ := ih after
          refine ⟨answers ++ more, packets ++ others, ?_, ?_, hdelivered'.trans hdelivered⟩
          · rw [hflush, hsend, hrest]
            rfl
          · rw [hwritten', hwritten, List.map_append, List.append_assoc]
      | false =>
          refine ⟨answers, packets, ?_, hwritten, hdelivered⟩
          have hstays := hflush queue []
          rw [List.append_nil, hsend] at hstays
          exact hstays

/-! ## The steps -/

theorem Follows.enqueueImmediate (h : t.Follows line) (behind : Behind) {message : OutMessage}
    (hsound : (t.enqueueImmediate behind message).Sound)
    (hclean : (t.enqueueImmediate behind message).spoiled = false) :
    ∃ answers, (t.enqueueImmediate behind message).Follows
      (line.step (.enqueueImmediate behind message answers)) := by
  obtain ⟨answers, packets, hwritten, hdelivered, hflush⟩ := t.send_flush behind message
  have hqueue := (t.send_same behind message).1
  have hone := hflush [] []
  rw [List.append_nil] at hone
  rcases hsend : t.send behind message with ⟨written, after⟩
  rw [hsend] at hwritten hdelivered hqueue hone
  have hstep : t.enqueueImmediate behind message =
      { after with queue := after.queue.enqueueImmediate message written } := by
    unfold Transport.enqueueImmediate
    rw [hsend]
  have hline : line.step (.enqueueImmediate behind message answers) =
      { line with
        queue := line.queue.enqueueImmediate message written
        underway := line.underway ++ packets } := by
    unfold Line.step
    dsimp only
    rw [hone]
    cases written with
    | true => simp [MessageQueue.flush, MessageQueue.enqueueImmediate]
    | false => rfl
  refine ⟨answers, hsound, hclean, ?_, ?_, ?_⟩
  · rw [hstep, hline, ← h.queue, ← hqueue]
  · rw [hstep, hline]
    refine hwritten.trans ?_
    rw [h.written, ← List.map_append, List.append_assoc]
  · rw [hstep, hline]
    exact hdelivered.trans h.delivered

theorem Follows.process (h : t.Follows line) (behind : Behind)
    (hsound : (t.process behind).Sound) (hclean : (t.process behind).spoiled = false) :
    ∃ answers, (t.process behind).Follows (line.step (.process behind answers)) := by
  obtain ⟨answers, packets, hflush, hwritten, hdelivered⟩ := t.process_flush behind t.queue
  have hline : line.step (.process behind answers) =
      { line with queue := (t.process behind).queue, underway := line.underway ++ packets } := by
    unfold Line.step
    dsimp only
    rw [← h.queue, hflush]
    rfl
  refine ⟨answers, hsound, hclean, ?_, ?_, ?_⟩
  · rw [hline]
  · rw [hline]
    refine hwritten.trans ?_
    rw [h.written, ← List.map_append, List.append_assoc]
  · rw [hline]
    exact hdelivered.trans h.delivered

/-- What a read hands out are packets that were on their way. -/
theorem Follows.readReady (h : t.Follows line) {first second : ℕ}
    (hsound : (t.readReady first second).Sound)
    (hclean : (t.readReady first second).spoiled = false) :
    ∃ count, (t.readReady first second).Follows (line.run (List.replicate count .receive)) := by
  obtain ⟨hwritten, new, hnew⟩ := t.link.step_readReady first second
  obtain ⟨frames, hcarrying⟩ := (hsound hclean).carrying
  obtain ⟨rest, hrest⟩ := hcarrying.delivers.1
  rw [t.link_readReady, hnew, hwritten, h.written, h.delivered, List.map_append,
    List.append_assoc] at hrest
  obtain ⟨arriving, others, hunderway, harriving, -⟩ :=
    List.map_eq_append_iff.mp (List.append_cancel_left hrest).symm
  refine ⟨arriving.length, hsound, hclean, ?_, ?_, ?_⟩
  · rw [Line.run_receive line hunderway, ← h.queue]
    exact (foldl_handle ..).1
  · rw [Line.run_receive line hunderway, t.link_readReady, hwritten, h.written, hunderway,
      List.append_assoc]
  · rw [Line.run_receive line hunderway, t.link_readReady, hnew, h.delivered, ← harriving,
      List.map_append]

/-! ## Every run -/

/-- Every step is one of the line, or none, or several packets that arrive. -/
theorem simulation_line : Simulation step Spares Line.step Matches Follows where
  matched t line input h hclean := by
    have hsound := (h.sound.step input).1
    cases input with
    | enqueue message =>
        exact ⟨[.enqueue message], rfl, hsound, hclean, congrArg (· ++ [message]) h.queue,
          h.written, h.delivered⟩
    | enqueueImmediate behind message =>
        obtain ⟨answers, hfollows⟩ := h.enqueueImmediate behind hsound hclean
        exact ⟨[.enqueueImmediate behind message answers], ⟨answers, rfl⟩, hfollows⟩
    | process behind =>
        obtain ⟨answers, hfollows⟩ := h.process behind hsound hclean
        exact ⟨[.process behind answers], ⟨answers, rfl⟩, hfollows⟩
    | writeReady first second =>
        exact ⟨[], rfl, hsound, hclean, h.queue, h.written, h.delivered⟩
    | readReady first second =>
        obtain ⟨count, hfollows⟩ := h.readReady hsound hclean
        exact ⟨List.replicate count .receive, ⟨count, rfl⟩, hfollows⟩

/-- Whatever its sockets do, a line runs in step with a transport for as long as it is not
spoiled: after every step, the parser has seen the packets the line has received, in their
order, and the line has what is still to be sent. -/
theorem follows_line {writer reader : SocketIo} (hwriter : writer.Flushed)
    (hreader : reader.Awaiting) (parser : MessageParser) (inputs : List Input)
    (hspares : StepsMeet step Spares (start writer reader parser) inputs) :
    ∃ blocks, InStep step Line.step Matches Agrees (start writer reader parser) {} inputs
      blocks := by
  have hstart : (start writer reader parser).Follows {} :=
    ⟨sound_start hwriter hreader parser, rfl, rfl, rfl, rfl⟩
  obtain ⟨blocks, hfollows⟩ := simulation_line.run hstart hspares
  exact ⟨blocks, hfollows.imp fun _ _ h => h.agrees⟩

/-- All three messages are received on the line. -/
theorem follows_pieces :
    ∃ blocks, InStep step Line.step Matches Agrees
        (start used used (.new ⟨0, 0, [], 0, Value.make, 0⟩)) {} pieces blocks ∧
      (Line.run {} blocks.flatten).underway = [] ∧
        (Line.run {} blocks.flatten).received.length = 3 := by
  have hidle : (SocketIo.after .blank earlier).state = .idle := by decide +kernel
  obtain ⟨blocks, hfollows⟩ := follows_line (kept_earlier.flushed hidle (by decide +kernel))
    (kept_earlier.awaiting hidle ⟨by decide +kernel, .inr (by decide +kernel)⟩
      (by decide +kernel)) (.new ⟨0, 0, [], 0, Value.make, 0⟩) pieces (by decide +kernel)
  obtain ⟨-, -, hparsed, hquiet⟩ := hfollows.last
  refine ⟨blocks, hfollows, hquiet (by decide +kernel), ?_⟩
  have hlength := hparsed.length_eq
  rw [List.length_map] at hlength
  exact hlength.trans (by decide +kernel)

end Transport

end Obsr.Net
