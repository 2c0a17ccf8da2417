/-
# Connections that keep packets in order

A line is one direction of a connection as the system has it: a queue, which is flushed onto
the end of a list of packets, and packets that are received from its front. Nothing is lost
on a line: a message that came to its queue is there still, or in a packet that was written,
and the packets are received in the order in which they were written.
-/

import Obsr.Net.Packet

namespace Obsr.Net

open Obsr.Io

/-- A queue, the packets on their way, and those that were received. -/
structure Line where
  queue : MessageQueue := []
  underway : List Packet := []
  received : List Packet := []
  deriving DecidableEq, Repr

namespace Line

inductive Input
  | enqueue (message : OutMessage)
  | enqueueImmediate (behind : Behind) (message : OutMessage) (answers : List Bool)
  | process (behind : Behind) (answers : List Bool)
  | receive

def step (line : Line) : Input → Line
  | .enqueue message => { line with queue := line.queue.enqueue message }
  | .enqueueImmediate behind message answers =>
      let (left, packets) := MessageQueue.flush behind [message] answers
      { line with queue := left ++ line.queue, underway := line.underway ++ packets }
  | .process behind answers =>
      let (queue, packets) := line.queue.flush behind answers
      { line with queue, underway := line.underway ++ packets }
  | .receive =>
      match line.underway with
      | packet :: underway => { line with underway, received := line.received ++ [packet] }
      | [] => line

def run (line : Line) (inputs : List Input) : Line := inputs.foldl step line

/-- The messages that come to the queue. -/
def enqueued (inputs : List Input) : List OutMessage := inputs.filterMap fun
  | .enqueue message | .enqueueImmediate _ message _ => some message
  | .process _ _ | .receive => none

theorem run_append (line : Line) (inputs others : List Input) :
    line.run (inputs ++ others) = (line.run inputs).run others := List.foldl_append ..

theorem enqueued_append (inputs others : List Input) :
    enqueued (inputs ++ others) = enqueued inputs ++ enqueued others := List.filterMap_append ..

/-- Packets arrive in their order. -/
theorem run_receive (line : Line) {arriving others : List Packet}
    (hunderway : line.underway = arriving ++ others) :
    line.run (List.replicate arriving.length .receive) =
      { line with underway := others, received := line.received ++ arriving } := by
  induction arriving generalizing line with
  | nil =>
      rw [List.nil_append] at hunderway
      rw [List.append_nil, ← hunderway]
      rfl
  | cons packet arriving ih =>
      have hnext : line.step .receive =
          { line with underway := arriving ++ others, received := line.received ++ [packet] } := by
        unfold step
        rw [hunderway]
        rfl
      refine (ih (line.step .receive) (by rw [hnext])).trans ?_
      rw [hnext, List.append_assoc]
      rfl

/-! ## Nothing is lost -/

variable {line line' line'' : Line} {packets others : List Packet}
  {new new' : OutMessage → Prop}

/-- Packets come to a line, behind the others, and each message is in the queue or in one of
them. Where a message comes from is known: `new` are those that came to the queue. -/
structure Keeps (line line' : Line) (packets : List Packet) (new : OutMessage → Prop) :
    Prop where
  order : line'.received ++ line'.underway = line.received ++ line.underway ++ packets
  made : ∀ packet ∈ packets, packet.Made
  kept : ∀ message ∈ line.queue, message.isTyped = true →
    message ∈ line'.queue ∨ message ∈ packets.map Packet.message
  origin : ∀ message, message ∈ line'.queue ∨ message ∈ packets.map Packet.message →
    message ∈ line.queue ∨ new message

theorem keeps_same (hqueue : line'.queue = line.queue)
    (horder : line'.received ++ line'.underway = line.received ++ line.underway) :
    line.Keeps line' [] new := by
  refine ⟨?_, fun _ hpacket => absurd hpacket List.not_mem_nil, ?_, ?_⟩
  · rw [List.append_nil]
    exact horder
  · intro message hmessage _
    exact .inl (hqueue ▸ hmessage)
  · rintro message (hmessage | hmessage)
    · exact .inl (hqueue ▸ hmessage)
    · exact absurd hmessage List.not_mem_nil

theorem Keeps.trans (h : line.Keeps line' packets new) (h' : line'.Keeps line'' others new) :
    line.Keeps line'' (packets ++ others) new := by
  refine ⟨?_, fun packet hpacket => ?_, fun message hmessage htyped => ?_,
    fun message hmessage => ?_⟩
  · rw [h'.order, h.order, List.append_assoc]
  · exact (List.mem_append.mp hpacket).elim (h.made packet) (h'.made packet)
  · rw [List.map_append, List.mem_append]
    rcases h.kept message hmessage htyped with hthere | hwritten
    · exact (h'.kept message hthere htyped).imp_right .inr
    · exact .inr (.inl hwritten)
  · rw [List.map_append, List.mem_append] at hmessage
    have hfirst : message ∈ line'.queue ∨ message ∈ packets.map Packet.message ∨ new message := by
      rcases hmessage with hleft | hwritten | hwritten
      · exact (h'.origin message (.inl hleft)).imp_right .inr
      · exact .inr (.inl hwritten)
      · exact (h'.origin message (.inr hwritten)).imp_right .inr
    rcases hfirst with hthere | hwritten | hnew
    · exact h.origin message (.inl hthere)
    · exact h.origin message (.inr hwritten)
    · exact .inr hnew

/-- What is flushed out of a queue is written, and the rest stays. -/
theorem keeps_process (line : Line) (behind : Behind) (answers : List Bool) :
    line.Keeps (line.step (.process behind answers)) (line.queue.flush behind answers).2 new := by
  obtain ⟨sent, hqueue, hpackets, hmade⟩ := MessageQueue.flush_spec behind line.queue answers
  have hleft : (line.step (.process behind answers)).queue =
      (line.queue.flush behind answers).1 := rfl
  refine ⟨(List.append_assoc ..).symm, hmade, fun message hmessage htyped => ?_,
    fun message hmessage => .inl ?_⟩
  · rw [hqueue] at hmessage
    rw [hpackets, hleft]
    exact (List.mem_append.mp hmessage).symm.imp_right fun hsent =>
      List.mem_filter.mpr ⟨hsent, htyped⟩
  · rw [hqueue]
    rw [hpackets, hleft] at hmessage
    rcases hmessage with hthere | hwritten
    · exact List.mem_append_right _ hthere
    · exact List.mem_append_left _ (List.mem_filter.mp hwritten).1

/-- A message that goes first is written, or is in the queue. -/
theorem keeps_enqueueImmediate (line : Line) (behind : Behind) {message : OutMessage}
    (hnew : new message) (answers : List Bool) :
    line.Keeps (line.step (.enqueueImmediate behind message answers))
      (MessageQueue.flush behind [message] answers).2 new := by
  obtain ⟨sent, hqueue, hpackets, hmade⟩ := MessageQueue.flush_spec behind [message] answers
  have hleft : (line.step (.enqueueImmediate behind message answers)).queue =
      (MessageQueue.flush behind [message] answers).1 ++ line.queue := rfl
  have hone : ∀ other, other ∈ sent ++ (MessageQueue.flush behind [message] answers).1 →
      new other := by
    intro other hother
    rw [← hqueue, List.mem_singleton] at hother
    rw [hother]
    exact hnew
  refine ⟨(List.append_assoc ..).symm, hmade, fun other hother _ => .inl ?_,
    fun other hother => ?_⟩
  · rw [hleft]
    exact List.mem_append_right _ hother
  · rw [hleft, hpackets, List.mem_append] at hother
    rcases hother with (hflushed | hthere) | hwritten
    · exact .inr (hone other (List.mem_append_right _ hflushed))
    · exact .inl hthere
    · exact .inr (hone other (List.mem_append_left _ (List.mem_filter.mp hwritten).1))

theorem keeps_step (line : Line) {input : Input}
    (hnew : ∀ message ∈ enqueued [input], new message) :
    ∃ packets, line.Keeps (line.step input) packets new := by
  cases input with
  | enqueue message =>
      refine ⟨[], (List.append_nil _).symm, fun _ hpacket => absurd hpacket List.not_mem_nil,
        fun other hother _ => .inl (List.mem_append_left _ hother), fun other hother => ?_⟩
      rcases hother with hother | hother
      · refine (List.mem_append.mp hother).imp_right fun hlast => ?_
        exact hnew other hlast
      · exact absurd hother List.not_mem_nil
  | enqueueImmediate behind message answers =>
      exact ⟨_, line.keeps_enqueueImmediate behind (hnew message (List.mem_singleton_self _))
        answers⟩
  | process behind answers => exact ⟨_, line.keeps_process behind answers⟩
  | receive =>
      refine ⟨[], ?_⟩
      unfold step
      dsimp only
      split
      case h_1 packet underway hunderway =>
        refine keeps_same rfl ?_
        rw [hunderway, List.append_assoc]
        rfl
      case h_2 => exact keeps_same rfl rfl

/-- Whatever happens on a line, it keeps its messages and its packets. -/
theorem keeps_run (line : Line) {inputs : List Input}
    (hnew : ∀ message ∈ enqueued inputs, new message) :
    ∃ packets, line.Keeps (line.run inputs) packets new := by
  induction inputs generalizing line with
  | nil => exact ⟨[], keeps_same rfl rfl⟩
  | cons input inputs ih =>
      rw [show enqueued (input :: inputs) = enqueued [input] ++ enqueued inputs from
        enqueued_append [input] inputs, List.forall_mem_append] at hnew
      obtain ⟨packets, hfirst⟩ := line.keeps_step hnew.1
      obtain ⟨others, hrest⟩ := ih (line.step input) hnew.2
      exact ⟨packets ++ others, hfirst.trans hrest⟩

/-! ## What is done to a queue -/

/-- A party goes on with a queue as a line does on which nothing is received: messages that
are `new` come to it, and packets are written. -/
def Works (new : OutMessage → Prop) (queue queue' : MessageQueue) (packets : List Packet) : Prop :=
  ∃ inputs : List Input, (∀ message ∈ enqueued inputs, new message) ∧ .receive ∉ inputs ∧
    ∀ underway received, Line.run ⟨queue, underway, received⟩ inputs =
      ⟨queue', underway ++ packets, received⟩

namespace Works

variable {queue queue' queue'' : MessageQueue} {message : OutMessage}

theorem refl (new : OutMessage → Prop) (queue : MessageQueue) : Works new queue queue [] := by
  refine ⟨[], fun _ hmessage => absurd hmessage List.not_mem_nil, List.not_mem_nil,
    fun underway _ => ?_⟩
  rw [List.append_nil]
  rfl

theorem trans (h : Works new queue queue' packets) (h' : Works new queue' queue'' others) :
    Works new queue queue'' (packets ++ others) := by
  obtain ⟨inputs, hnew, hsends, hrun⟩ := h
  obtain ⟨inputs', hnew', hsends', hrun'⟩ := h'
  refine ⟨inputs ++ inputs', ?_, ?_, fun underway received => ?_⟩
  · rw [enqueued_append, List.forall_mem_append]
    exact ⟨hnew, hnew'⟩
  · exact fun hreceives => (List.mem_append.mp hreceives).elim hsends hsends'
  · rw [run_append, hrun, hrun', List.append_assoc]

theorem imp (h : Works new queue queue' packets) (himp : ∀ message, new message → new' message) :
    Works new' queue queue' packets := by
  obtain ⟨inputs, hnew, hsends, hrun⟩ := h
  exact ⟨inputs, fun message hmessage => himp message (hnew message hmessage), hsends, hrun⟩

theorem enqueue (hnew : new message) (queue : MessageQueue) :
    Works new queue (queue.enqueue message) [] := by
  refine ⟨[.enqueue message], List.forall_mem_singleton.mpr hnew, by simp, fun underway _ => ?_⟩
  rw [List.append_nil]
  rfl

theorem enqueueAll {messages : List OutMessage} (hnew : ∀ message ∈ messages, new message)
    (queue : MessageQueue) : Works new queue (queue ++ messages) [] := by
  induction messages generalizing queue with
  | nil =>
      rw [List.append_nil]
      exact refl new queue
  | cons message messages ih =>
      obtain ⟨hfirst, hothers⟩ := List.forall_mem_cons.mp hnew
      have hall := (enqueue hfirst queue).trans (ih hothers (queue.enqueue message))
      rw [MessageQueue.enqueue, List.append_assoc] at hall
      exact hall

theorem enqueueImmediate (hnew : new message) (behind : Behind) (answers : List Bool)
    (queue : MessageQueue) :
    Works new queue ((MessageQueue.flush behind [message] answers).1 ++ queue)
      (MessageQueue.flush behind [message] answers).2 :=
  ⟨[.enqueueImmediate behind message answers], List.forall_mem_singleton.mpr hnew, by simp,
    fun _ _ => rfl⟩

theorem process (new : OutMessage → Prop) (behind : Behind) (answers : List Bool)
    (queue : MessageQueue) :
    Works new queue (queue.flush behind answers).1 (queue.flush behind answers).2 :=
  ⟨[.process behind answers], fun _ hmessage => absurd hmessage List.not_mem_nil, by simp,
    fun _ _ => rfl⟩

/-- So a line with the queue keeps its messages. -/
theorem keeps (h : Works new queue queue' packets) :
    Line.Keeps { queue } { queue := queue', underway := packets } packets new := by
  obtain ⟨inputs, hnew, -, hrun⟩ := h
  obtain ⟨written, hkeeps⟩ := keeps_run { queue } hnew
  have hlast := hrun [] []
  rw [List.nil_append] at hlast
  rw [hlast] at hkeeps
  have hall : packets = written := by simpa using hkeeps.order
  rwa [← hall] at hkeeps

theorem made (h : Works new queue queue' packets) : ∀ packet ∈ packets, packet.Made :=
  h.keeps.made

theorem kept (h : Works new queue queue' packets) (hmessage : message ∈ queue)
    (htyped : message.isTyped = true) :
    message ∈ queue' ∨ message ∈ packets.map Packet.message :=
  h.keeps.kept message hmessage htyped

theorem origin (h : Works new queue queue' packets)
    (hmessage : message ∈ queue' ∨ message ∈ packets.map Packet.message) :
    message ∈ queue ∨ new message :=
  h.keeps.origin message hmessage

end Works

end Line

end Obsr.Net
