/-
# Contracts

A property of the server, one of a client and one of a packet, such that each keeps its own
as long as the packets that arrive have theirs, and sends only packets that have it. Then
all three hold everywhere in every run of the system: no step of one party needs to be
looked at together with the state of another. Where a socket is soiled other packets may
arrive than were sent; of those a weaker property is asked.
-/

import Obsr.Net.Wiring

namespace Obsr.Net

open Obsr.Io Obsr.Lib

/-- What the server, a client and the packets promise each other, where programs only call
operations of `ok`: packets are sent as `R` says, and arrive as `A` says. -/
structure Contract (ok : NetworkServer.LocalOperation → Prop) (S : NetworkServer → Prop)
    (C : NetworkClient → Prop) (R A : Packet → Prop) : Prop where
  arrives : ∀ {packet : Packet}, R packet → A packet
  serverOperation : ∀ {s : NetworkServer} (now : ℤ) {op : NetworkServer.LocalOperation}, S s →
    ok op → S (s.withStorage (s.storage.perform (op.operation now)))
  serverUpdate : ∀ {s : NetworkServer} (now : ℤ) (opened : Bool) (behind : Behind)
    (answers : ClientId → List Bool), S s → S (s.updateWith now opened behind answers) ∧
      ∀ id, ∀ packet ∈ (s.written now behind answers id).2, R packet
  onClose : ∀ {s : NetworkServer}, S s → S s.onClose
  onConnect : ∀ {s : NetworkServer} (id : ClientId), S s → S (s.onConnect id)
  onDisconnect : ∀ {s : NetworkServer} (id : ClientId), S s → S (s.onDisconnect id)
  onMessage : ∀ {s : NetworkServer} (now : ℤ) (id : ClientId) {packet : Packet} (behind : Behind)
    (written : Bool), S s → A packet →
      S (s.onMessage now id packet.type packet.payload written) ∧
        ∀ reply ∈ s.answer now id packet behind written, R reply
  start : ∀ {c : NetworkClient}, C c → C c.start
  stop : ∀ {c : NetworkClient}, C c → C c.stop
  operation : ∀ {c : NetworkClient} (now : ℤ) {op : NetworkServer.LocalOperation}, C c → ok op →
    C (c.perform (op.operation now))
  connect : ∀ {c : NetworkClient} (timeNow : ℤ) (behind : Behind) (answers : List Bool), C c →
    C (c.onConnect timeNow behind answers) ∧
      ∀ packet ∈ (MessageQueue.flush behind [.timeSyncRequest (c.clock.now timeNow)] answers).2,
        R packet
  close : ∀ {c : NetworkClient}, C c → C c.onClose
  update : ∀ {c : NetworkClient} (tick : NetworkClient.Tick), C c → C (c.update tick) ∧
    ∀ packet ∈ c.written tick, R packet
  message : ∀ {c : NetworkClient} (timeNow : ℤ) {packet : Packet}, C c → A packet →
    C (c.onMessage timeNow packet.type packet.payload)

namespace System

/-- The operation that a program calls. -/
def Input.called {ι : Type} : Input ι → Option NetworkServer.LocalOperation
  | .serverOperation _ op | .operation _ _ op => some op
  | _ => none

/-- The packets that come in place of others. -/
def Input.garbled {ι : Type} : Input ι → List Packet
  | .garble _ up down => up ++ down
  | .stray _ _ packet => [packet]
  | _ => []

/-- A packet on a connection: only on one that is soiled it may not have been sent. -/
def Passes (R A : Packet → Prop) (soiled : Bool) (packet : Packet) : Prop :=
  A packet ∧ (soiled = false → R packet)

/-- A node whose client and whose packets are as promised. -/
structure Fulfils (C : NetworkClient → Prop) (R A : Packet → Prop) (node : Node) : Prop where
  client : C node.client
  packets : ∀ connection, node.connection = some connection →
    ∀ packet, packet ∈ connection.up ∨ packet ∈ connection.down → Passes R A node.soiled packet

/-- Everything is as promised. -/
structure Fulfilled {ι : Type} (S : NetworkServer → Prop) (C : NetworkClient → Prop)
    (R A : Packet → Prop) (s : System ι) : Prop where
  server : S s.server
  nodes : ∀ n, Fulfils C R A (s.nodes n)
  abandoned : ∀ up ∈ s.abandoned, ∀ packet ∈ up, A packet
  orphans : ∀ id up, s.orphans id = some up → ∀ packet ∈ up, A packet

variable {ι : Type} {ok : NetworkServer.LocalOperation → Prop} {S : NetworkServer → Prop}
  {C : NetworkClient → Prop} {R A : Packet → Prop} {s : System ι} {node : Node}

theorem passes_of_sent (hcontract : Contract ok S C R A) {packet : Packet} (h : R packet)
    (soiled : Bool) : Passes R A soiled packet := ⟨hcontract.arrives h, fun _ => h⟩

theorem Fulfils.deliver (h : Fulfils C R A node) {written : ClientId → List Packet}
    (hwritten : ∀ id, ∀ packet ∈ written id, Passes R A node.soiled packet) :
    Fulfils C R A (node.deliver written) := by
  rcases node with ⟨client, _ | ⟨peer, up, down⟩, soiled, blank⟩
  · exact h
  · cases peer with
    | waiting => exact h
    | gone => exact h
    | accepted id =>
        refine ⟨h.client, fun connection hconnection packet hpacket => ?_⟩
        cases hconnection
        rcases hpacket with hup | hdown
        · exact h.packets ⟨.accepted id, up, down⟩ rfl packet (.inl hup)
        · exact (List.mem_append.mp hdown).elim
            (fun hold => h.packets ⟨.accepted id, up, down⟩ rfl packet (.inr hold))
            (hwritten id packet)

/-- It does not matter whom a connection is with. -/
theorem Fulfils.repeer (h : Fulfils C R A node) {peer : Peer} {up down : List Packet}
    (hconnection : node.connection = some ⟨peer, up, down⟩) (peer' : Peer) :
    Fulfils C R A { node with connection := some ⟨peer', up, down⟩ } := by
  refine ⟨h.client, fun connection hnew => ?_⟩
  cases hnew
  exact h.packets ⟨peer, up, down⟩ hconnection

theorem Fulfils.cut (h : Fulfils C R A node) : Fulfils C R A node.cut := by
  rcases node with ⟨client, _ | ⟨peer, up, down⟩, soiled, blank⟩
  · exact h
  · cases peer with
    | waiting => exact h
    | gone => exact h
    | accepted id => exact h.repeer rfl .gone

theorem Fulfilled.orphan (h : s.Fulfilled S C R A) {id : ClientId} {left : Option (List Packet)}
    (hleft : ∀ up, left = some up → ∀ packet ∈ up, A packet) :
    ∀ other up, Function.update s.orphans id left other = some up → ∀ packet ∈ up, A packet := by
  intro other up hup
  by_cases hother : other = id
  · rw [hother, Function.update_self] at hup
    exact hleft up hup
  · rw [Function.update_of_ne hother] at hup
    exact h.orphans other up hup

theorem fulfilled_new {memory : ParseData} {storage : Storage} {reading : ℤ}
    {clients : ι → NetworkClient} (hserver : S (.start memory storage))
    (hclients : ∀ n, C (clients n)) :
    (System.new memory storage reading clients).Fulfilled S C R A :=
  ⟨hserver, fun n => ⟨hclients n, fun _ hnew => (by cases hnew)⟩,
    fun _ hup => (by cases hup), fun _ _ hup => (by cases hup)⟩

/-! ## Steps of the server -/

theorem Fulfilled.serverUpdate (hcontract : Contract ok S C R A) (h : s.Fulfilled S C R A)
    (now : ℤ) (opened : Bool) (behind : Behind) (answers : ClientId → List Bool) :
    (s.serverUpdate now opened behind answers).Fulfilled S C R A := by
  obtain ⟨hserver, hwritten⟩ := hcontract.serverUpdate now opened behind answers h.server
  refine ⟨hserver, fun n => (h.nodes n).deliver fun id packet hpacket => ?_, h.abandoned,
    h.orphans⟩
  exact passes_of_sent hcontract (hwritten id packet hpacket) _

theorem Fulfilled.acceptAbandoned (hcontract : Contract ok S C R A) (h : s.Fulfilled S C R A)
    (id : ClientId) : (s.acceptAbandoned id).Fulfilled S C R A := by
  unfold System.acceptAbandoned
  split
  case h_2 => exact h
  case h_1 up abandoned hqueue =>
    split_ifs
    case neg => exact h
    have habandoned := h.abandoned
    rw [hqueue] at habandoned
    obtain ⟨hfirst, hothers⟩ := List.forall_mem_cons.mp habandoned
    refine ⟨hcontract.onConnect id h.server, h.nodes, hothers, h.orphan fun other hother => ?_⟩
    cases hother
    exact hfirst

theorem Fulfilled.orphanReceive (hcontract : Contract ok S C R A) (h : s.Fulfilled S C R A)
    (id : ClientId) (now : ℤ) (written : Bool) :
    (s.orphanReceive id now written).Fulfilled S C R A := by
  unfold System.orphanReceive
  split
  case h_2 => exact h
  case h_1 packet up horphan =>
    obtain ⟨hfirst, hothers⟩ := List.forall_mem_cons.mp (h.orphans id _ horphan)
    obtain ⟨hserver, -⟩ := hcontract.onMessage now id (fun _ => 0) written h.server hfirst
    refine ⟨hserver, h.nodes, h.abandoned, h.orphan fun other hother => ?_⟩
    cases hother
    exact hothers

theorem Fulfilled.orphanGone (hcontract : Contract ok S C R A) (h : s.Fulfilled S C R A)
    (id : ClientId) : (s.orphanGone id).Fulfilled S C R A := by
  unfold System.orphanGone
  split
  case h_2 => exact h
  case h_1 up horphan =>
    refine ⟨hcontract.onDisconnect id h.server, h.nodes, h.abandoned,
      h.orphan fun other hother => ?_⟩
    cases hother

variable [DecidableEq ι]

theorem Fulfilled.setNode (h : s.Fulfilled S C R A) (n : ι) (hnode : Fulfils C R A node) :
    (s.setNode n node).Fulfilled S C R A :=
  ⟨h.server, forall_setNode h.nodes hnode, h.abandoned, h.orphans⟩

theorem Fulfilled.accept (hcontract : Contract ok S C R A) (h : s.Fulfilled S C R A) (n : ι)
    (id : ClientId) : (s.accept n id).Fulfilled S C R A := by
  unfold System.accept
  split
  case h_2 => exact h
  case h_1 up down hconnection =>
    split_ifs
    case neg => exact h
    have hnode := h.setNode n ((h.nodes n).repeer hconnection (.accepted id))
    exact ⟨hcontract.onConnect id h.server, hnode.nodes, h.abandoned, h.orphans⟩

theorem Fulfilled.serverReceive (hcontract : Contract ok S C R A) (h : s.Fulfilled S C R A)
    (n : ι) (now : ℤ) (behind : Behind) (written : Bool) :
    (s.serverReceive n now behind written).Fulfilled S C R A := by
  unfold System.serverReceive
  split
  case h_2 => exact h
  case h_1 id packet up down hconnection =>
    have hpackets := (h.nodes n).packets _ hconnection
    obtain ⟨hserver, hanswer⟩ := hcontract.onMessage now id behind written h.server
      (hpackets packet (.inl List.mem_cons_self)).1
    have hserved : (s.serve now _).Fulfilled S C R A :=
      ⟨hserver, h.nodes, h.abandoned, h.orphans⟩
    refine hserved.setNode n ⟨(h.nodes n).client, fun _ hnew other hother => ?_⟩
    cases hnew
    rcases hother with hup | hdown
    · exact hpackets other (.inl (List.mem_cons_of_mem _ hup))
    · exact (List.mem_append.mp hdown).elim (hpackets other ∘ .inr) fun hreply =>
        passes_of_sent hcontract (hanswer other hreply) _

theorem Fulfilled.serverDrop (hcontract : Contract ok S C R A) (h : s.Fulfilled S C R A)
    (n : ι) : (s.serverDrop n).Fulfilled S C R A := by
  unfold System.serverDrop
  split
  case h_2 => exact h
  case h_1 id up down hconnection =>
    have hnode := h.setNode n ((h.nodes n).repeer hconnection .gone)
    exact ⟨hcontract.onDisconnect id h.server, hnode.nodes, h.abandoned, h.orphans⟩

/-! ## Steps of a client -/

theorem Fulfilled.leave (h : s.Fulfilled S C R A) (n : ι) {client : NetworkClient}
    (hclient : C client) (left : Bool) : (s.leave n client left).Fulfilled S C R A := by
  unfold System.leave
  dsimp only
  set soiled := if (s.nodes n).connection.isSome then left else (s.nodes n).soiled
  have hleft : (s.setNode n { client, soiled }).Fulfilled S C R A :=
    h.setNode n ⟨hclient, fun _ hconnection => by cases hconnection⟩
  split
  case h_1 up down hconnection =>
    refine ⟨hleft.server, hleft.nodes, fun other hother => ?_, hleft.orphans⟩
    rcases List.mem_append.mp hother with hold | hnew
    · exact h.abandoned other hold
    · rw [List.mem_singleton.mp hnew]
      exact fun packet hpacket => ((h.nodes n).packets _ hconnection packet (.inl hpacket)).1
  case h_2 id up down hconnection =>
    refine ⟨hleft.server, hleft.nodes, hleft.abandoned, h.orphan fun other hother => ?_⟩
    cases hother
    exact fun packet hpacket => ((h.nodes n).packets _ hconnection packet (.inl hpacket)).1
  case h_3 => exact hleft

theorem Fulfilled.connect (hcontract : Contract ok S C R A) (h : s.Fulfilled S C R A) (n : ι)
    (timeNow : ℤ) (behind : Behind) (answers : List Bool) :
    (s.connect n timeNow behind answers).Fulfilled S C R A := by
  unfold System.connect
  dsimp only
  split_ifs
  case neg => exact h
  obtain ⟨hclient, hrequest⟩ := hcontract.connect timeNow behind answers (h.nodes n).client
  refine h.setNode n ⟨hclient, fun _ hnew packet hpacket => ?_⟩
  cases hnew
  rcases hpacket with hup | hdown
  · exact passes_of_sent hcontract (hrequest packet hup) _
  · cases hdown

theorem Fulfilled.update (hcontract : Contract ok S C R A) (h : s.Fulfilled S C R A) (n : ι)
    (tick : NetworkClient.Tick) : (s.update n tick).Fulfilled S C R A := by
  obtain ⟨hclient, hwritten⟩ := hcontract.update tick (h.nodes n).client
  refine h.setNode n ⟨hclient, fun _ hnew packet hpacket => ?_⟩
  obtain ⟨old, hconnection, rfl⟩ := Option.map_eq_some_iff.mp hnew
  rcases hpacket with hup | hdown
  · exact (List.mem_append.mp hup).elim
      (fun hold => (h.nodes n).packets old hconnection packet (.inl hold)) fun hnew =>
        passes_of_sent hcontract (hwritten packet hnew) _
  · exact (h.nodes n).packets old hconnection packet (.inr hdown)

theorem Fulfilled.receive (hcontract : Contract ok S C R A) (h : s.Fulfilled S C R A) (n : ι)
    (timeNow : ℤ) : (s.receive n timeNow).Fulfilled S C R A := by
  unfold System.receive
  split
  case h_2 => exact h
  case h_1 peer up packet down hconnection =>
    have hpackets := (h.nodes n).packets _ hconnection
    have hclient := hcontract.message timeNow (h.nodes n).client
      (hpackets packet (.inr List.mem_cons_self)).1
    refine h.setNode n ⟨hclient, fun _ hnew other hother => ?_⟩
    cases hnew
    exact hpackets other (hother.imp_right (List.mem_cons_of_mem _))

/-- Bytes that are lost change no packet, but from then on others may come. -/
theorem Fulfilled.spoil (h : s.Fulfilled S C R A) (n : ι) :
    (s.spoil n).Fulfilled S C R A := by
  refine h.setNode n ⟨(h.nodes n).client, fun _ hconnection packet hpacket => ?_⟩
  exact ⟨((h.nodes n).packets _ hconnection packet hpacket).1, nofun⟩

theorem Fulfilled.garble (h : s.Fulfilled S C R A) (n : ι) {up down : List Packet}
    (hgarbled : ∀ packet ∈ up ++ down, A packet) : (s.garble n up down).Fulfilled S C R A := by
  unfold System.garble
  split
  case h_2 => exact h
  case h_1 peer up' down' hconnection =>
    split_ifs with hsoiled
    case neg => exact h
    refine h.setNode n ⟨(h.nodes n).client, fun _ hnew packet hpacket => ?_⟩
    cases hnew
    refine ⟨hgarbled packet (List.mem_append.mpr hpacket), fun hclean => ?_⟩
    cases hsoiled.symm.trans hclean

theorem Fulfilled.stray (hcontract : Contract ok S C R A) (h : s.Fulfilled S C R A) (n : ι)
    (timeNow : ℤ) {packet : Packet} (hpacket : A packet) :
    (s.stray n timeNow packet).Fulfilled S C R A := by
  unfold System.stray
  split_ifs
  case neg => exact h
  have hclient := hcontract.message timeNow (h.nodes n).client hpacket
  exact h.setNode n ⟨hclient, (h.nodes n).packets⟩

/-! ## Every run -/

/-- Each step is one party's own business. -/
theorem Fulfilled.step (hcontract : Contract ok S C R A) (h : s.Fulfilled S C R A)
    {input : Input ι} (hcalls : ∀ op ∈ input.called, ok op)
    (hgarbled : ∀ packet ∈ input.garbled, A packet) : (s.step input).Fulfilled S C R A := by
  cases input with
  | serverOperation now op =>
      have hserver := hcontract.serverOperation now h.server (hcalls op rfl)
      exact ⟨hserver, h.nodes, h.abandoned, h.orphans⟩
  | serverUpdate now opened behind answers =>
      exact h.serverUpdate hcontract now opened behind answers
  | serverClose =>
      exact ⟨hcontract.onClose h.server, fun n => (h.nodes n).cut, h.abandoned,
        fun _ _ hup => by cases hup⟩
  | accept n id => exact h.accept hcontract n id
  | acceptAbandoned id => exact h.acceptAbandoned hcontract id
  | serverReceive n now behind written => exact h.serverReceive hcontract n now behind written
  | orphanReceive id now written => exact h.orphanReceive hcontract id now written
  | serverDrop n => exact h.serverDrop hcontract n
  | orphanGone id => exact h.orphanGone hcontract id
  | start n => exact h.setNode n ⟨hcontract.start (h.nodes n).client, (h.nodes n).packets⟩
  | stop n left => exact h.leave n (hcontract.stop (h.nodes n).client) left
  | operation n timeNow op =>
      have hclient := hcontract.operation ((s.nodes n).client.clock.now timeNow)
        (h.nodes n).client (hcalls op rfl)
      exact h.setNode n ⟨hclient, (h.nodes n).packets⟩
  | connect n timeNow behind answers => exact h.connect hcontract n timeNow behind answers
  | close n left =>
      unfold System.step System.close
      dsimp only
      split_ifs
      · exact h.leave n (hcontract.close (h.nodes n).client) left
      · exact h
  | update n tick => exact h.update hcontract n tick
  | receive n timeNow => exact h.receive hcontract n timeNow
  | spoil n => exact h.spoil n
  | garble n up down => exact h.garble n hgarbled
  | stray n timeNow packet =>
      exact h.stray hcontract n timeNow (hgarbled packet (List.mem_singleton_self packet))

/-- A contract is kept in every run. -/
theorem Fulfilled.run (hcontract : Contract ok S C R A) (h : s.Fulfilled S C R A)
    {inputs : List (Input ι)} (hcalls : ∀ op ∈ inputs.filterMap Input.called, ok op)
    (hgarbled : ∀ packet ∈ inputs.flatMap Input.garbled, A packet) :
    (s.run inputs).Fulfilled S C R A := by
  induction inputs generalizing s with
  | nil => exact h
  | cons input inputs ih =>
      have hfirst : ∀ op ∈ input.called, ok op := fun op hop =>
        hcalls op (List.mem_filterMap.mpr ⟨input, List.mem_cons_self, hop⟩)
      rw [List.flatMap_cons, List.forall_mem_append] at hgarbled
      refine ih (h.step hcontract hfirst hgarbled.1) (fun op hop => ?_) hgarbled.2
      obtain ⟨other, hother, hcalled⟩ := List.mem_filterMap.mp hop
      exact hcalls op (List.mem_filterMap.mpr ⟨other, List.mem_cons_of_mem _ hother, hcalled⟩)

end System

/-! ## What is on a connection -/

/-- Whatever the parties do and whatever arrives, the packets they write are made of
messages. -/
theorem contract_made (ok : NetworkServer.LocalOperation → Prop) :
    Contract ok (fun _ => True) (fun _ => True) Packet.Made (fun _ => True) where
  arrives _ := trivial
  serverOperation _ _ _ _ := trivial
  serverUpdate {s} now _ behind answers _ := ⟨trivial, s.made_written now behind answers⟩
  onClose _ := trivial
  onConnect _ _ := trivial
  onDisconnect _ _ := trivial
  onMessage {s} _ _ _ _ _ _ _ := ⟨trivial, fun _ hreply => (s.made_answer hreply).1⟩
  start _ := trivial
  stop _ := trivial
  operation _ _ _ _ := trivial
  connect _ _ _ _ := ⟨trivial, fun _ hpacket => (MessageQueue.made_flush hpacket).1⟩
  close _ := trivial
  update {c} tick _ := ⟨trivial, (c.moves_update tick).made⟩
  message _ _ _ _ := trivial

end Obsr.Net
