/-
# The handshake comes to its end

Whatever else a server and its clients do, the next message of every handshake over a
socket that is not soiled is in a queue or on its way at any time; so when nothing is on the
way any more between such a client and the server, both are in use. Other connections may be
garbled meanwhile.
-/

import Obsr.Net.Contract
import Obsr.Net.HandshakeStep
import Obsr.Net.Replication

namespace Obsr.Net

open Obsr.Io Obsr.Lib

namespace System

/-- The next message of a handshake is somewhere. -/
def Shakes (server : NetworkServer) (node : Node) : Prop :=
  match node.connection with
  | some ⟨.waiting, up, down⟩ =>
      node.client.state = .inHandshakeTimeSync ∧
        (∃ time, Said node.client up (.timeSyncRequest time)) ∧ down = []
  | some ⟨.accepted id, up, down⟩ =>
      ∃ record, server.clients.find? id = some record ∧ Proceeds node.client record up down
  | _ => True

variable {ι : Type} {s t : System ι} {node : Node} {server server' : NetworkServer}

/-- The handshakes of all clients whose sockets are not soiled go on. -/
def Shaking (s : System ι) : Prop :=
  ∀ n, (s.nodes n).soiled = false → Shakes s.server (s.nodes n)

/-- The packets on the connections that are not soiled are made of messages. -/
abbrev Packed (s : System ι) : Prop :=
  s.Fulfilled (fun _ => True) (fun _ => True) Packet.Made fun _ => True

/-! ## Steps of the server -/

theorem Shakes.deliver (h : Shakes server node) {written : ClientId → List Packet}
    (hkeeps : server.Keeps server' written) : Shakes server' (node.deliver written) := by
  rcases node with ⟨client, _ | ⟨peer, up, down⟩⟩
  · trivial
  · cases peer with
    | waiting => exact h
    | accepted id =>
        obtain ⟨record, hrecord, hproceeds⟩ := h
        obtain ⟨record', hrecord', hmoves⟩ := hkeeps id record hrecord
        exact ⟨record', hrecord', hproceeds.serve hmoves⟩
    | gone => trivial

/-- Only the record of the client matters. -/
theorem Shakes.of_find? (h : Shakes server node)
    (hsame : ∀ id, node.accepted = some id →
      server'.clients.find? id = server.clients.find? id) : Shakes server' node := by
  rcases node with ⟨client, _ | ⟨peer, up, down⟩⟩
  · trivial
  · cases peer with
    | waiting => exact h
    | accepted id =>
        obtain ⟨record, hrecord, hproceeds⟩ := h
        exact ⟨record, (hsame id rfl).trans hrecord, hproceeds⟩
    | gone => trivial

theorem shakes_cut (h : Shakes server node) (server' : NetworkServer) :
    Shakes server' node.cut := by
  rcases node with ⟨client, _ | ⟨peer, up, down⟩⟩
  · trivial
  · cases peer with
    | waiting => exact h
    | accepted id => trivial
    | gone => trivial

/-- The server goes on, and nothing is written. -/
theorem Shaking.serve (h : s.Shaking) (now : ℤ)
    (hsame : ∀ n id, (s.nodes n).accepted = some id →
      server.clients.find? id = s.server.clients.find? id) : (s.serve now server).Shaking :=
  fun n hclean => (h n hclean).of_find? (hsame n)

theorem Shaking.acceptAbandoned (h : s.Shaking) (hwired : s.Wired) (id : ClientId) :
    (s.acceptAbandoned id).Shaking := by
  unfold System.acceptAbandoned
  split
  case h_2 => exact h
  case h_1 up abandoned hqueue =>
    split_ifs with haccepts
    case neg => exact h
    refine fun n hclean => (h n hclean).of_find? fun other hother => ?_
    apply s.server.find?_onConnect
    rintro rfl
    exact (hwired.unused haccepts.2).1 n hother

theorem Shaking.orphanGone (h : s.Shaking) (hwired : s.Wired) (id : ClientId) :
    (s.orphanGone id).Shaking := by
  unfold System.orphanGone
  split
  case h_2 => exact h
  case h_1 up horphan =>
    refine fun n hclean => (h n hclean).of_find? fun other hother => ?_
    apply s.server.find?_onDisconnect
    rintro rfl
    cases horphan.symm.trans (hwired.alone n other hother)

/-- A message of another client leaves the handshake of a client where it is. -/
theorem Shakes.onMessage (h : Shakes server node) {sender : ClientId}
    (hother : ∀ id, node.accepted = some id → id ≠ sender) (now : ℤ) (packet : Packet)
    (written : Bool) :
    Shakes (server.onMessage now sender packet.type packet.payload written) node := by
  rcases node with ⟨client, _ | ⟨peer, up, down⟩⟩
  · trivial
  · cases peer with
    | waiting => exact h
    | accepted id =>
        obtain ⟨record, hrecord, hproceeds⟩ := h
        obtain ⟨record', hrecord', hmoves⟩ :=
          server.keeps_onMessage now sender packet (fun _ => 0) written id record hrecord
        rw [NetworkServer.only_of_ne (hother id rfl)] at hmoves
        have hserved := hproceeds.serve hmoves
        rw [List.append_nil] at hserved
        exact ⟨record', hrecord', hserved⟩
    | gone => trivial

theorem Shaking.orphanReceive (h : s.Shaking) (hwired : s.Wired) (id : ClientId) (now : ℤ)
    (written : Bool) : (s.orphanReceive id now written).Shaking := by
  unfold System.orphanReceive
  split
  case h_2 => exact h
  case h_1 packet up horphan =>
    refine fun n hclean => (h n hclean).onMessage (fun other hother => ?_) now packet written
    rintro rfl
    cases horphan.symm.trans (hwired.alone n other hother)

variable [DecidableEq ι]

/-- One node changes, and what the others are to the server does not. -/
theorem Shaking.nodeChanged (n : ι) (hnode : node.soiled = false → Shakes server node)
    (hothers : ∀ m, m ≠ n → (s.nodes m).soiled = false → Shakes server (s.nodes m)) :
    ∀ m, ((s.setNode n node).nodes m).soiled = false →
      Shakes server ((s.setNode n node).nodes m) := by
  intro m
  by_cases hm : m = n
  · rw [hm, nodes_setNode_self]
    exact hnode
  · rw [nodes_setNode_of_ne _ hm]
    exact hothers m hm

theorem Shaking.setNode (h : s.Shaking) (n : ι)
    (hshakes : node.soiled = false → Shakes s.server node) : (s.setNode n node).Shaking :=
  forall_setNode (P := fun node => node.soiled = false → Shakes s.server node) h hshakes

theorem Shaking.serverReceive (h : s.Shaking) (hpacked : s.Packed) (hwired : s.Wired) (n : ι)
    (now : ℤ) (behind : Behind) (written : Bool) :
    (s.serverReceive n now behind written).Shaking := by
  unfold System.serverReceive
  split
  case h_2 => exact h
  case h_1 id packet up down hconnection =>
    have haccepted := Node.accepted_eq_some_iff.mpr ⟨packet :: up, down, hconnection⟩
    have hpasses := (hpacked.nodes n).packets _ hconnection packet (.inl List.mem_cons_self)
    apply Shaking.nodeChanged n
    · intro hclean
      have hshakes := h n hclean
      unfold Shakes at hshakes
      rw [hconnection] at hshakes
      obtain ⟨record, hrecord, hproceeds⟩ := hshakes
      exact hproceeds.take hrecord (hpasses.2 hclean) now behind written
    · intro m hm hclean
      refine (h m hclean).onMessage (fun other hother => ?_) now packet written
      rintro rfl
      exact hm (hwired.apart m n other hother haccepted)

theorem Shaking.accept (h : s.Shaking) (hwired : s.Wired) (n : ι) (id : ClientId) :
    (s.accept n id).Shaking := by
  unfold System.accept
  split
  case h_2 => exact h
  case h_1 up down hconnection =>
    split_ifs with haccepts
    case neg => exact h
    apply Shaking.nodeChanged n
    · intro hclean
      have hshakes := h n hclean
      unfold Shakes at hshakes
      rw [hconnection] at hshakes
      obtain ⟨hstate, hrequest, rfl⟩ := hshakes
      refine ⟨_, NetworkServer.find?_onConnect_self haccepts.2, fun _ => .inl hrequest,
        fun hready => ?_, fun hinUse => ?_, fun message _ hdue => ?_⟩
      · cases hstate.symm.trans hready
      · cases hstate.symm.trans hinUse
      · exact hdue.elim (fun hqueue => by cases hqueue) fun hdown => by cases hdown
    · intro m hm hclean
      refine (h m hclean).of_find? fun other hother => s.server.find?_onConnect ?_
      rintro rfl
      exact (hwired.unused haccepts.2).1 m hother

theorem Shaking.serverDrop (h : s.Shaking) (hwired : s.Wired) (n : ι) :
    (s.serverDrop n).Shaking := by
  unfold System.serverDrop
  split
  case h_2 => exact h
  case h_1 id up down hconnection =>
    have haccepted := Node.accepted_eq_some_iff.mpr ⟨up, down, hconnection⟩
    apply Shaking.nodeChanged n
    · exact fun _ => trivial
    · intro m hm hclean
      refine (h m hclean).of_find? fun other hother => s.server.find?_onDisconnect ?_
      rintro rfl
      exact hm (hwired.apart m n other hother haccepted)

/-! ## Steps of a client -/

theorem Shaking.leave (h : s.Shaking) (n : ι) (client : NetworkClient) (left : Bool) :
    (s.leave n client left).Shaking := by
  unfold System.leave
  dsimp only
  set soiled := if (s.nodes n).connection.isSome then left else (s.nodes n).soiled
  have hleft : (s.setNode n { client, soiled }).Shaking := h.setNode n fun _ => trivial
  split <;> exact hleft

/-- A client goes on, and may write. -/
theorem Shaking.move (h : s.Shaking) (n : ι) {client : NetworkClient} {packets : List Packet}
    {new : OutMessage → Prop}
    (hstate : (s.nodes n).connection.isSome = true → client.state = (s.nodes n).client.state)
    (hmoves : (s.nodes n).client.Moves client packets new) :
    (s.setNode n
      { s.nodes n with
        client
        connection := (s.nodes n).connection.map fun connection =>
          { connection with up := connection.up ++ packets } }).Shaking := by
  apply h.setNode n
  intro hclean
  have hshakes := h n hclean
  unfold Shakes at hshakes ⊢
  rcases hconnection : (s.nodes n).connection with _ | ⟨peer, up, down⟩ <;>
    rw [hconnection] at hshakes hstate
  · trivial
  · cases peer with
    | waiting =>
        obtain ⟨hsync, ⟨time, hrequest⟩, hdown⟩ := hshakes
        exact ⟨(hstate rfl).trans hsync, ⟨time, hrequest.moves rfl hmoves⟩, hdown⟩
    | accepted id =>
        obtain ⟨record, hrecord, hproceeds⟩ := hshakes
        exact ⟨record, hrecord, hproceeds.move (hstate rfl) hmoves⟩
    | gone => trivial

/-- A client goes on, and writes nothing. -/
theorem Shaking.stay (h : s.Shaking) (n : ι) {client : NetworkClient}
    (hstate : (s.nodes n).connection.isSome = true → client.state = (s.nodes n).client.state)
    (hqueue : client.queue = (s.nodes n).client.queue) : (s.move n client).Shaking := by
  have hmoved := h.move n hstate ((s.nodes n).client.moves_same hqueue fun _ => True)
  have hsame : ((s.nodes n).connection.map fun connection =>
      { connection with up := connection.up ++ ([] : List Packet) }) = (s.nodes n).connection := by
    simp only [List.append_nil, Option.map_id']
  rw [hsame] at hmoved
  exact hmoved

theorem Shaking.start (h : s.Shaking) (n : ι) (htold : Told (s.nodes n)) :
    (s.move n (s.nodes n).client.start).Shaking := by
  cases hconnection : (s.nodes n).connection with
  | none =>
      apply h.setNode n
      intro _
      unfold Shakes
      rw [hconnection]
      trivial
  | some connection =>
      rw [NetworkClient.start_of_isConnected (htold (hconnection ▸ rfl))]
      exact h.stay n (fun _ => rfl) rfl

/-- The client that is told of its connection asks for the time. -/
theorem Shaking.connect (h : s.Shaking) (n : ι) (timeNow : ℤ) (behind : Behind)
    (answers : List Bool) : (s.connect n timeNow behind answers).Shaking := by
  unfold System.connect
  dsimp only
  split_ifs
  case neg => exact h
  set client := (s.nodes n).client
  set request := OutMessage.timeSyncRequest (client.clock.now timeNow)
  obtain ⟨hstate, hqueue⟩ := client.onConnect_keeps timeNow behind answers
  have hmessages : (client.onConnect timeNow behind answers).messages =
      (MessageQueue.flush behind [request] answers).1 := by
    have hleft := { client with queue := [] }.messages_enqueueImmediate behind request answers
    have hempty : ({ client with queue := [] } : NetworkClient).messages = [] := rfl
    rw [hempty, List.append_nil] at hleft
    exact (congrArg (List.map Queued.message) hqueue).trans hleft
  have htyped : request.isTyped = true := rfl
  have hworks := Line.Works.process (fun _ => True) behind answers [request]
  apply h.setNode n
  refine fun _ => ⟨hstate, ⟨client.clock.now timeNow, ?_⟩, rfl⟩
  exact (hworks.kept (List.mem_singleton_self request) htyped).imp_left (hmessages ▸ ·)

theorem Shaking.receive (h : s.Shaking) (hpacked : s.Packed) (n : ι) (timeNow : ℤ) :
    (s.receive n timeNow).Shaking := by
  unfold System.receive
  split
  case h_2 => exact h
  case h_1 peer up packet down hconnection =>
    have hpasses := (hpacked.nodes n).packets _ hconnection packet (.inr List.mem_cons_self)
    apply h.setNode n
    intro hclean
    have hshakes := h n hclean
    unfold Shakes at hshakes
    rw [hconnection] at hshakes
    cases peer with
    | waiting => cases hshakes.2.2
    | accepted id =>
        obtain ⟨record, hrecord, hproceeds⟩ := hshakes
        exact ⟨record, hrecord, hproceeds.receive (hpasses.2 hclean) timeNow⟩
    | gone => trivial

/-! ## Every run -/

theorem Shaking.step (h : s.Shaking) (hpacked : s.Packed) (hwired : s.Wired)
    (htold : ∀ n, Told (s.nodes n)) (input : Input ι) : (s.step input).Shaking := by
  cases input with
  | serverOperation now op => exact h.serve now fun _ _ _ => rfl
  | serverUpdate now opened behind answers =>
      intro n hclean
      have hnode : (s.nodes n).soiled = false := (Node.soiled_deliver ..).symm.trans hclean
      exact (h n hnode).deliver (s.server.keeps_updateWith now opened behind answers)
  | serverClose =>
      intro n hclean
      have hnode : (s.nodes n).soiled = false := (Node.soiled_cut _).symm.trans hclean
      exact shakes_cut (h n hnode) _
  | accept n id => exact h.accept hwired n id
  | acceptAbandoned id => exact h.acceptAbandoned hwired id
  | serverReceive n now behind written =>
      exact h.serverReceive hpacked hwired n now behind written
  | orphanReceive id now written => exact h.orphanReceive hwired id now written
  | serverDrop n => exact h.serverDrop hwired n
  | orphanGone id => exact h.orphanGone hwired id
  | start n => exact h.start n (htold n)
  | stop n left => exact h.leave n _ left
  | operation n timeNow op => exact h.stay n (fun _ => rfl) rfl
  | connect n timeNow behind answers => exact h.connect n timeNow behind answers
  | close n left =>
      unfold System.step System.close
      dsimp only
      split_ifs
      · exact h.leave n _ left
      · exact h
  | update n tick =>
      refine h.move n (fun hsome => ?_) ((s.nodes n).client.moves_update tick)
      exact NetworkClient.state_update (htold n hsome) tick
  | receive n timeNow => exact h.receive hpacked n timeNow
  | spoil n => exact h.setNode n nofun
  | garble n up down =>
      unfold System.step System.garble
      dsimp only
      split
      case h_2 => exact h
      case h_1 peer up' down' hconnection =>
        split_ifs with hsoiled
        case neg => exact h
        refine h.setNode n fun hclean => ?_
        cases hsoiled.symm.trans hclean
  | stray n timeNow packet =>
      unfold System.step System.stray
      dsimp only
      split_ifs with hleft
      case neg => exact h
      refine h.setNode n fun hclean => ?_
      cases hleft.1.symm.trans hclean

theorem shaking_run (memory : ParseData) (storage : Storage) (reading : ℤ)
    (clients : ι → NetworkClient) (inputs : List (Input ι)) :
    let s := (System.new memory storage reading clients).run inputs
    s.Shaking ∧ ∀ n, Told (s.nodes n) := by
  have hall : ∀ t : System ι, t.Shaking → t.Packed → t.Wired → (∀ n, Told (t.nodes n)) →
      (t.run inputs).Shaking ∧ ∀ n, Told ((t.run inputs).nodes n) := by
    induction inputs with
    | nil => exact fun _ h _ _ htold => ⟨h, htold⟩
    | cons input inputs ih =>
        intro t h hpacked hwired htold
        exact ih (t.step input) (h.step hpacked hwired htold input)
          (hpacked.step (contract_made fun _ => True) (fun _ _ => trivial) fun _ _ => trivial)
          (hwired.step input) (told_step htold input)
  refine hall _ (fun _ _ => trivial) ?_ (wired_new memory storage reading clients) fun n hsome => ?_
  · exact fulfilled_new trivial fun _ => trivial
  · cases hsome

/-- Once nothing is on the way any more between a client and the server, both are in use, if
nothing was left in the socket of the client when it connected and no bytes were lost since. -/
theorem inUse_of_delivered (memory : ParseData) (storage : Storage) (reading : ℤ)
    (clients : ι → NetworkClient) (inputs : List (Input ι)) (n : ι) (id : ClientId) :
    let s := (System.new memory storage reading clients).run inputs
    (s.nodes n).connection = some ⟨.accepted id, [], []⟩ → (s.nodes n).soiled = false →
      (s.nodes n).client.queue = [] → s.server.queueOf id = [] →
        (s.nodes n).client.state = .inUse ∧
          ∃ record, s.server.clients.find? id = some record ∧ record.state = .inUse := by
  intro s hconnection hclean hqueue hempty
  obtain ⟨hshaking, htold⟩ := shaking_run memory storage reading clients inputs
  have hshakes := hshaking n hclean
  have hconnected := htold n (hconnection ▸ rfl)
  unfold Shakes at hshakes
  rw [hconnection] at hshakes
  obtain ⟨record, hrecord, hproceeds⟩ := hshakes
  replace hempty : record.queue = [] := by
    unfold NetworkServer.queueOf at hempty
    rw [hrecord] at hempty
    exact hempty
  have hsaid : ∀ message, ¬Said (s.nodes n).client [] message := by
    intro message hsaid
    unfold Said NetworkClient.messages at hsaid
    rw [hqueue] at hsaid
    exact hsaid.elim List.not_mem_nil List.not_mem_nil
  have hdue : ∀ message, ¬Due record [] message := by
    intro message hdue
    unfold Due at hdue
    rw [hempty] at hdue
    exact hdue.elim List.not_mem_nil List.not_mem_nil
  have hinUse : (s.nodes n).client.state = .inUse := by
    cases hstate : (s.nodes n).client.state with
    | inUse => rfl
    | inHandshakeTimeSync =>
        rcases hproceeds.timeSync hstate with ⟨time, hrequest⟩ | ⟨response, -, -, hresponse⟩
        · exact absurd hrequest (hsaid _)
        · exact absurd hresponse (hdue response)
    | inHandshake =>
        exact (hproceeds.ready hstate).elim (absurd · (hsaid _)) (absurd · (hdue _))
    | _ =>
        rw [hstate] at hconnected
        cases hconnected
  exact ⟨hinUse, record, hrecord, hproceeds.inUse hinUse⟩

/-- A client that has received what the server had for it. -/
theorem inUse_delivered :
    ((pair.run (served ++ delivered)).nodes ()).client.state = .inUse ∧
      ∃ record, (pair.run (served ++ delivered)).server.clients.find? 0 = some record ∧
        record.state = .inUse :=
  inUse_of_delivered _ _ _ _ (served ++ delivered) () 0 (by decide +kernel) (by decide +kernel)
    (by decide +kernel) (by decide +kernel)

end System

end Obsr.Net
