/-
# Every message once, and in order

A ticket for every `enqueue` tells the messages of a queue apart, also those with the same
contents. What the destination has accepted and what is still in the queue are together
what was enqueued, and without the messages that were sent at once they are so in the same
order: a message that jumps the queue passes the others, and no two others ever change
places.
-/

import Obsr.Net.OutgoingQueue

namespace Obsr.Net

open Obsr.Io Obsr.Lib

namespace QueueCall

variable {τ υ : Type}

def map (f : τ → υ) : QueueCall τ → QueueCall υ
  | .enqueue element flags => .enqueue (f element) flags
  | .process => .process

/-- What was enqueued, in the order of the calls. -/
def enqueued : List (QueueCall τ) → List τ
  | [] => []
  | .enqueue element _ :: calls => element :: enqueued calls
  | .process :: calls => enqueued calls

theorem enqueued_append (first second : List (QueueCall τ)) :
    enqueued (first ++ second) = enqueued first ++ enqueued second := by
  induction first with
  | nil => rfl
  | cons call first ih =>
      cases call with
      | enqueue element flags => exact congrArg (element :: ·) ih
      | process => exact ih

end QueueCall

namespace OutgoingQueue

open QueueCall

variable {τ υ : Type} {behind : Behind} {answers : ℕ → Bool} {message : τ → OutMessage}

/-! ## The queue does not look at its elements -/

def map (f : τ → υ) (q : OutgoingQueue τ) : OutgoingQueue υ where
  serializer := q.serializer
  outgoing := q.outgoing.map f
  offers := q.offers.map fun offer => { offer with element := f offer.element }

theorem offer_map (f : τ → υ) (element : τ) (type : MessageType) (payload : List UInt8)
    (q : OutgoingQueue τ) :
    offer answers (f element) type payload (q.map f) =
      ((offer answers element type payload q).1,
        (offer answers element type payload q).2.map f) := by
  simp [offer, map]

theorem writeWith_map (f : τ → υ) (element : τ) (type : MessageType) (method : BufferSerialize)
    (q : OutgoingQueue τ) :
    writeWith answers (f element) type method (q.map f) =
      ((writeWith answers element type method q).1,
        (writeWith answers element type method q).2.map f) := by
  dsimp only [writeWith]
  rw [show (q.map f).serializer = q.serializer from rfl]
  rcases method.run (MessageBuffer.reset q.serializer) with ⟨written, serializer⟩
  cases written with
  | true => exact offer_map f element type serializer.written { q with serializer }
  | false => rfl

theorem writeMessage_map {message : υ → OutMessage} (f : τ → υ) (element : τ)
    (q : OutgoingQueue τ) :
    writeMessage behind answers message (f element) (q.map f) =
      ((writeMessage behind answers (message ∘ f) element q).1,
        (writeMessage behind answers (message ∘ f) element q).2.map f) := by
  simp only [writeMessage, Function.comp_apply]
  cases (message (f element)).type with
  | entryCreate => exact writeWith_map f element _ _ q
  | entryUpdate => exact writeWith_map f element _ _ q
  | entryDelete => exact writeWith_map f element _ _ q
  | entryIdAssign => exact writeWith_map f element _ _ q
  | timeSyncRequest => exact writeWith_map f element _ _ q
  | timeSyncResponse => exact writeWith_map f element _ _ q
  | handshakeReady => exact offer_map f element _ _ q
  | handshakeFinished => exact offer_map f element _ _ q
  | noType => rfl
  | unknown byte => rfl

theorem processFrom_map {message : υ → OutMessage} (f : τ → υ) (elements : List τ)
    (q : OutgoingQueue τ) :
    processFrom behind answers message (elements.map f) (q.map f) =
      (processFrom behind answers (message ∘ f) elements q).map f := by
  induction elements generalizing q with
  | nil => rfl
  | cons element elements ih =>
      have hwrite := @writeMessage_map _ _ behind answers message f element
        { q with outgoing := element :: elements }
      rw [List.map_cons, processFrom, processFrom]
      rw [show ({ q.map f with outgoing := f element :: elements.map f } : OutgoingQueue υ) =
        map f { q with outgoing := element :: elements } from rfl, hwrite]
      rcases writeMessage behind answers (message ∘ f) element
        { q with outgoing := element :: elements } with ⟨written, q'⟩
      cases written with
      | true => exact ih q'
      | false => rfl

theorem call_map {message : υ → OutMessage} (f : τ → υ) (call : QueueCall τ)
    (q : OutgoingQueue τ) :
    (q.map f).call behind answers message (call.map f) =
      (q.call behind answers (message ∘ f) call).map f := by
  cases call with
  | enqueue element flags =>
      dsimp only [QueueCall.map, OutgoingQueue.call, enqueue]
      split_ifs
      · rw [writeMessage_map]
        rcases writeMessage behind answers (message ∘ f) element q with ⟨written, q'⟩
        cases written <;> rfl
      · simp [map]
  | process => exact processFrom_map f q.outgoing q

/-- A run with names for the messages is the run with the messages. -/
theorem run_map {message : υ → OutMessage} (f : τ → υ) (calls : List (QueueCall τ)) :
    run behind answers message (calls.map (QueueCall.map f)) =
      (run behind answers (message ∘ f) calls).map f := by
  have hfrom : ∀ q : OutgoingQueue τ,
      (calls.map (QueueCall.map f)).foldl (call behind answers message) (q.map f) =
        (calls.foldl (call behind answers (message ∘ f)) q).map f := by
    induction calls with
    | nil => exact fun q => rfl
    | cons first calls ih =>
        intro q
        rw [List.map_cons, List.foldl_cons, List.foldl_cons, call_map]
        exact ih _
  exact hfrom new

/-! ## What was enqueued -/

/-- What the destination has accepted, in this order. -/
def accepted (q : OutgoingQueue τ) : List τ :=
  (q.offers.filter (·.accepted)).map (·.element)

/-- The elements of a queue, accepted or waiting, are those that were posted, and the ones
that wait for their turn are so in the same order. -/
structure Accounts (behind : Behind) (message : τ → OutMessage) (waits : τ → Bool)
    (posted : List τ) (q : OutgoingQueue τ) : Prop where
  size : q.serializer.size = MessageSerializer.writerBufferSize
  once : (q.accepted ++ q.outgoing).Perm posted
  inOrder : (q.accepted ++ q.outgoing).filter waits = posted.filter waits
  alone : ∀ offer ∈ q.offers, offer.element ∈ posted ∧
    Sending.handedOver behind (message offer.element) = some (offer.type, offer.payload)

variable {waits : τ → Bool} {posted : List τ} {q : OutgoingQueue τ} {element : τ}

theorem accounts_new : Accounts behind message waits [] (new : OutgoingQueue τ) :=
  ⟨rfl, .nil, rfl, fun _ hmem => by cases hmem⟩

/-- An offer that was accepted takes its element from the front of what waits. -/
theorem accepted_offer (q : OutgoingQueue τ) (offer : Offer τ) :
    accepted { q with offers := q.offers ++ [offer] } =
      q.accepted ++ if offer.accepted then [offer.element] else [] := by
  simp only [accepted, List.filter_append, List.map_append]
  cases hanswer : offer.accepted <;> simp [hanswer]

theorem Written.outgoing_eq {result : Bool × OutgoingQueue τ}
    (h : Written behind answers message element q result) :
    result.2.outgoing = q.outgoing := by
  cases h <;> rfl

/-- A write of the element in front. It goes where it is accepted, and stays where it is
refused or was never offered. -/
theorem Accounts.written {elements : List τ} {q' : OutgoingQueue τ} {written : Bool}
    (h : Accounts behind message waits posted { q with outgoing := element :: elements })
    {outgoing : List τ}
    (hwritten : Written behind answers message element { q with outgoing } (written, q')) :
    Accounts behind message waits posted
      { q' with outgoing := if written then elements else element :: elements } := by
  have hposted : element ∈ posted :=
    h.once.subset (List.mem_append_right _ List.mem_cons_self)
  cases hwritten with
  | @offered type payload serializer hsize encodes =>
      have haccepted := accepted_offer q ⟨element, type, payload, answers q.offers.length⟩
      have hoffers : ∀ offer ∈ q.offers ++ [⟨element, type, payload, answers q.offers.length⟩],
          offer.element ∈ posted ∧
            Sending.handedOver behind (message offer.element) =
              some (offer.type, offer.payload) := by
        intro offer hmem
        rcases List.mem_append.mp hmem with hbefore | hlast
        · exact h.alone offer hbefore
        · obtain rfl := List.mem_singleton.mp hlast
          exact ⟨hposted, encodes⟩
      have hsame : (accepted { q with
          offers := q.offers ++ [⟨element, type, payload, answers q.offers.length⟩] } ++
            if answers q.offers.length then elements else element :: elements) =
          q.accepted ++ element :: elements := by
        rw [haccepted]
        cases answers q.offers.length <;> simp
      refine ⟨hsize.trans h.size, ?_, ?_, hoffers⟩
      · exact (List.Perm.of_eq hsame).trans h.once
      · exact (congrArg (List.filter waits) hsame).trans h.inOrder
  | unserialized hsize fails => exact ⟨hsize.trans h.size, h.once, h.inOrder, h.alone⟩

/-- A new element at the end, waiting for its turn. -/
theorem Accounts.push (h : Accounts behind message waits posted q) (element : τ) :
    Accounts behind message waits (posted ++ [element])
      { q with outgoing := q.outgoing ++ [element] } := by
  refine ⟨h.size, ?_, ?_, ?_⟩
  · show (q.accepted ++ (q.outgoing ++ [element])).Perm _
    rw [← List.append_assoc]
    exact h.once.append_right [element]
  · show (q.accepted ++ (q.outgoing ++ [element])).filter waits = _
    rw [← List.append_assoc, List.filter_append, h.inOrder, List.filter_append]
  · intro offer hmem
    obtain ⟨hposted, hhands⟩ := h.alone offer hmem
    exact ⟨List.mem_append_left _ hposted, hhands⟩

/-- A new element in front, in nobody's order. -/
theorem Accounts.jump (h : Accounts behind message waits posted q)
    (hwaits : waits element = false) :
    Accounts behind message waits (posted ++ [element])
      { q with outgoing := element :: q.outgoing } := by
  refine ⟨h.size, ?_, ?_, ?_⟩
  · have hmiddle : (q.accepted ++ element :: q.outgoing).Perm
        (element :: (q.accepted ++ q.outgoing)) := List.perm_middle
    have hlast : (posted ++ [element]).Perm (element :: posted) :=
      List.perm_append_singleton element posted
    exact hmiddle.trans ((h.once.cons element).trans hlast.symm)
  · have hordered := h.inOrder
    rw [List.filter_append] at hordered
    show (q.accepted ++ element :: q.outgoing).filter waits = _
    rw [List.filter_append, List.filter_cons_of_neg (by simp [hwaits]), hordered,
      List.filter_append, List.filter_cons_of_neg (by simp [hwaits]), List.filter_nil,
      List.append_nil]
  · intro offer hmem
    obtain ⟨hposted, hhands⟩ := h.alone offer hmem
    exact ⟨List.mem_append_left _ hposted, hhands⟩

theorem Accounts.processFrom {elements : List τ}
    (h : Accounts behind message waits posted { q with outgoing := elements })
    (htyped : ∀ element ∈ posted, Typed (message element)) :
    Accounts behind message waits posted
      (OutgoingQueue.processFrom behind answers message elements q) := by
  induction elements generalizing q with
  | nil => exact h
  | cons element elements ih =>
      have hposted : element ∈ posted :=
        h.once.subset (List.mem_append_right _ List.mem_cons_self)
      have hwritten : Written behind answers message element
          { q with outgoing := element :: elements } _ :=
        written_writeMessage (htyped element hposted) h.size
      rw [OutgoingQueue.processFrom]
      rcases hrun : writeMessage behind answers message element
        { q with outgoing := element :: elements } with ⟨written, q'⟩
      rw [hrun] at hwritten
      have hnext := h.written hwritten
      cases written with
      | true => exact ih hnext
      | false =>
          have hsame : q'.outgoing = element :: elements := hwritten.outgoing_eq
          have hq : { q' with outgoing := element :: elements } = q' := by rw [← hsame]
          exact hq ▸ hnext

theorem Accounts.enqueue (h : Accounts behind message waits posted q) {flags : UInt8}
    (htyped : Typed (message element))
    (hwaits : waits element = decide (flags &&& flagImmediate = 0)) :
    Accounts behind message waits (posted ++ [element])
      (OutgoingQueue.enqueue behind answers message element flags q) := by
  dsimp only [OutgoingQueue.enqueue]
  split_ifs with himmediate
  · have hjumped := h.jump (hwaits.trans (decide_eq_false himmediate))
    have hwritten : Written behind answers message element q _ :=
      written_writeMessage htyped h.size
    rcases hrun : writeMessage behind answers message element q with ⟨written, q'⟩
    rw [hrun] at hwritten
    have hnext := hjumped.written hwritten
    have hsame : q'.outgoing = q.outgoing := hwritten.outgoing_eq
    cases written with
    | true =>
        have hq : { q' with outgoing := q.outgoing } = q' := by rw [← hsame]
        exact hq ▸ hnext
    | false =>
        dsimp only
        rw [hsame]
        exact hnext
  · exact h.push element

/-- The flags of a call say whether its element waits. -/
def Follows (waits : τ → Bool) : QueueCall τ → Prop
  | .enqueue element flags => waits element = decide (flags &&& flagImmediate = 0)
  | .process => True

/-- One call. -/
theorem Accounts.call (h : Accounts behind message waits posted q) {call : QueueCall τ}
    (htyped : ∀ element ∈ posted ++ enqueued [call], Typed (message element))
    (hfollows : Follows waits call) :
    Accounts behind message waits (posted ++ enqueued [call])
      (q.call behind answers message call) := by
  cases call with
  | enqueue element flags =>
      exact h.enqueue (htyped element (List.mem_append_right _ List.mem_cons_self)) hfollows
  | process =>
      simp only [enqueued, List.append_nil] at htyped ⊢
      exact h.processFrom htyped

/-- All calls. -/
theorem accounts_run {calls : List (QueueCall τ)}
    (htyped : ∀ element ∈ enqueued calls, Typed (message element))
    (hfollows : ∀ call ∈ calls, Follows waits call) :
    Accounts behind message waits (enqueued calls) (run behind answers message calls) := by
  induction calls using List.reverseRecOn with
  | nil => exact accounts_new
  | append_singleton calls call ih =>
      rw [enqueued_append] at htyped ⊢
      have hbefore := ih (fun element hmem => htyped element (List.mem_append_left _ hmem))
        fun call hmem => hfollows call (List.mem_append_left _ hmem)
      rw [run, List.foldl_append]
      exact hbefore.call htyped (hfollows call (List.mem_append_right _ List.mem_cons_self))

/-! ## Tickets -/

/-- A call of `enqueue`: its number among them, and what it was given. -/
structure Ticket where
  number : ℕ
  flags : UInt8
  message : OutMessage
  deriving DecidableEq, Repr

/-- The message is not for the front of the queue. -/
def Ticket.inTurn (ticket : Ticket) : Bool := decide (ticket.flags &&& flagImmediate = 0)

/-- The calls with tickets, numbered from here on. -/
def ticketed : ℕ → List (QueueCall OutMessage) → List (QueueCall Ticket)
  | _, [] => []
  | number, .enqueue message flags :: calls =>
      .enqueue ⟨number, flags, message⟩ flags :: ticketed (number + 1) calls
  | number, .process :: calls => .process :: ticketed number calls

variable {calls : List (QueueCall OutMessage)}

theorem map_ticketed (number : ℕ) (calls : List (QueueCall OutMessage)) :
    (ticketed number calls).map (QueueCall.map Ticket.message) = calls := by
  induction calls generalizing number with
  | nil => rfl
  | cons call calls ih =>
      cases call with
      | enqueue message flags => exact congrArg (.enqueue message flags :: ·) (ih (number + 1))
      | process => exact congrArg (.process :: ·) (ih number)

theorem follows_ticketed (number : ℕ) (calls : List (QueueCall OutMessage)) :
    ∀ call ∈ ticketed number calls, Follows Ticket.inTurn call := by
  induction calls generalizing number with
  | nil => exact fun call hmem => by cases hmem
  | cons call calls ih =>
      intro ticketedCall hmem
      cases call with
      | enqueue message flags =>
          rcases List.mem_cons.mp hmem with rfl | hlater
          · rfl
          · exact ih (number + 1) ticketedCall hlater
      | process =>
          rcases List.mem_cons.mp hmem with rfl | hlater
          · trivial
          · exact ih number ticketedCall hlater

theorem map_enqueued_ticketed (number : ℕ) (calls : List (QueueCall OutMessage)) :
    (enqueued (ticketed number calls)).map Ticket.message = enqueued calls := by
  induction calls generalizing number with
  | nil => rfl
  | cons call calls ih =>
      cases call with
      | enqueue message flags => exact congrArg (message :: ·) (ih (number + 1))
      | process => exact ih number

theorem le_number_of_mem {number : ℕ} {ticket : Ticket}
    (h : ticket ∈ enqueued (ticketed number calls)) : number ≤ ticket.number := by
  induction calls generalizing number with
  | nil => cases h
  | cons call calls ih =>
      cases call with
      | enqueue message flags =>
          rcases List.mem_cons.mp h with rfl | hlater
          · exact le_rfl
          · exact (Nat.le_succ number).trans (ih hlater)
      | process => exact ih h

/-- No two tickets are the same. -/
theorem nodup_ticketed (number : ℕ) (calls : List (QueueCall OutMessage)) :
    (enqueued (ticketed number calls)).Nodup := by
  induction calls generalizing number with
  | nil => exact List.nodup_nil
  | cons call calls ih =>
      cases call with
      | enqueue message flags =>
          refine List.nodup_cons.mpr ⟨fun hmem => ?_, ih (number + 1)⟩
          have hle : number + 1 ≤ number := le_number_of_mem hmem
          exact absurd hle (Nat.not_succ_le_self number)
      | process => exact ih number

/-! ## Exactly once -/

/-- What holds of a queue for the tickets it was given. -/
structure ExactlyOnce (behind : Behind) (posted : List Ticket) (q : OutgoingQueue Ticket) :
    Prop where
  /-- Accepted once and gone, or not accepted and waiting once. -/
  once : ∀ ticket ∈ posted,
    q.accepted.count ticket = 1 ∧ ticket ∉ q.outgoing ∨
      ticket ∉ q.accepted ∧ q.outgoing.count ticket = 1
  /-- Nothing but what was enqueued. -/
  known : ∀ ticket, ticket ∈ q.accepted ∨ ticket ∈ q.outgoing → ticket ∈ posted
  /-- What waits for its turn is accepted in turn. -/
  inOrder : q.accepted.filter Ticket.inTurn <+: posted.filter Ticket.inTurn
  /-- Every offer is the encoding of its message alone. -/
  alone : ∀ offer ∈ q.offers, offer.element ∈ posted ∧
    Sending.handedOver behind offer.element.message = some (offer.type, offer.payload)

theorem exactlyOnce_of_accounts {posted : List Ticket} {q : OutgoingQueue Ticket}
    (h : Accounts behind Ticket.message Ticket.inTurn posted q) (hnodup : posted.Nodup) :
    ExactlyOnce behind posted q := by
  have hcount : ∀ ticket ∈ posted, q.accepted.count ticket + q.outgoing.count ticket = 1 := by
    intro ticket hmem
    rw [← List.count_append, h.once.count_eq, List.count_eq_one_of_mem hnodup hmem]
  refine ⟨?_, ?_, ?_, h.alone⟩
  · intro ticket hmem
    have hone := hcount ticket hmem
    by_cases haccepted : ticket ∈ q.accepted
    · have hpos := List.count_pos_iff.mpr haccepted
      exact .inl ⟨by omega, List.count_eq_zero.mp (by omega)⟩
    · rw [List.count_eq_zero.mpr haccepted, Nat.zero_add] at hone
      exact .inr ⟨haccepted, hone⟩
  · intro ticket hmem
    exact h.once.subset (List.mem_append.mpr hmem)
  · have hordered := h.inOrder
    rw [List.filter_append] at hordered
    exact ⟨_, hordered⟩

/-- Whatever is called and whatever the destination answers. The queue with tickets is the
queue of the source, told apart. -/
theorem exactlyOnce_run (behind : Behind) (answers : ℕ → Bool)
    (htyped : ∀ message ∈ enqueued calls, Typed message) :
    (run behind answers Ticket.message (ticketed 0 calls)).map Ticket.message =
        run behind answers id calls ∧
      ExactlyOnce behind (enqueued (ticketed 0 calls))
        (run behind answers Ticket.message (ticketed 0 calls)) := by
  constructor
  · have hmap := @run_map _ _ behind answers id Ticket.message (ticketed 0 calls)
    rw [map_ticketed] at hmap
    exact hmap.symm
  · have hticket : ∀ ticket ∈ enqueued (ticketed 0 calls), Typed ticket.message := by
      intro ticket hmem
      refine htyped ticket.message ?_
      rw [← map_enqueued_ticketed 0 calls]
      exact List.mem_map_of_mem hmem
    exact exactlyOnce_of_accounts (accounts_run hticket (follows_ticketed 0 calls))
      (nodup_ticketed 0 calls)

/-- A request that jumps the queue of a delete, both refused at first. -/
theorem exactlyOnce_run_jump :
    let calls : List (QueueCall OutMessage) :=
      [.enqueue (.entryDeleted 1 2) 0, .process, .enqueue (.timeSyncRequest 3) 1, .process]
    let answers : ℕ → Bool := fun k => 2 ≤ k
    let q := run (fun _ => 0) answers Ticket.message (ticketed 0 calls)
    q.map Ticket.message = run (fun _ => 0) answers id calls ∧
      ExactlyOnce (fun _ => 0) (enqueued (ticketed 0 calls)) q :=
  exactlyOnce_run _ _ (by simp [enqueued, Typed, OutMessage.entryDeleted,
    OutMessage.timeSyncRequest])

end OutgoingQueue

end Obsr.Net
