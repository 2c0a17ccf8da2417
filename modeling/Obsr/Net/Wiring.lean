/-
# Who is connected to whom

Every connection that the server has accepted has an id of its own, and a client in the
table of the server under it: so it is in every state of every run, whatever the server
and its clients do.
-/

import Obsr.Net.ClientHandshake
import Obsr.Net.System

namespace Obsr.Net

open Obsr.Lib

namespace Node

variable {node : Node} {id : ClientId}

theorem accepted_eq_some_iff :
    node.accepted = some id ↔ ∃ up down, node.connection = some ⟨.accepted id, up, down⟩ := by
  unfold accepted
  rcases node with ⟨client, _ | ⟨peer, up, down⟩⟩
  · simp
  · cases peer <;> simp

@[simp]
theorem accepted_deliver (node : Node) (written : ClientId → List Packet) :
    (node.deliver written).accepted = node.accepted := by
  rcases node with ⟨client, _ | ⟨peer, up, down⟩⟩
  · rfl
  · cases peer <;> rfl

@[simp]
theorem client_deliver (node : Node) (written : ClientId → List Packet) :
    (node.deliver written).client = node.client := by
  rcases node with ⟨client, _ | ⟨peer, up, down⟩⟩
  · rfl
  · cases peer <;> rfl

@[simp]
theorem blank_deliver (node : Node) (written : ClientId → List Packet) :
    (node.deliver written).blank = node.blank := by
  rcases node with ⟨client, _ | ⟨peer, up, down⟩, soiled, blank⟩
  · rfl
  · cases peer <;> rfl

@[simp]
theorem soiled_deliver (node : Node) (written : ClientId → List Packet) :
    (node.deliver written).soiled = node.soiled := by
  rcases node with ⟨client, _ | ⟨peer, up, down⟩, soiled, blank⟩
  · rfl
  · cases peer <;> rfl

theorem connection_deliver {written : ClientId → List Packet} {up down' : List Packet}
    (h : (node.deliver written).connection = some ⟨.accepted id, up, down'⟩) :
    ∃ down, node.connection = some ⟨.accepted id, up, down⟩ ∧ down' = down ++ written id := by
  rcases node with ⟨client, _ | ⟨peer, up, down⟩⟩
  · cases h
  · cases peer with
    | accepted other =>
        cases h
        exact ⟨down, rfl, rfl⟩
    | waiting => cases h
    | gone => cases h

@[simp]
theorem accepted_cut (node : Node) : node.cut.accepted = none := by
  rcases node with ⟨client, _ | ⟨peer, up, down⟩⟩
  · rfl
  · cases peer <;> rfl

@[simp]
theorem soiled_cut (node : Node) : node.cut.soiled = node.soiled := by
  rcases node with ⟨client, _ | ⟨peer, up, down⟩, soiled, blank⟩
  · rfl
  · cases peer <;> rfl

end Node

/-! ## The table of the server -/

namespace NetworkServer

/-- The table has the same ids. -/
def SameClients (s t : NetworkServer) : Prop :=
  ∀ id, (t.clients.find? id).isSome = (s.clients.find? id).isSome

variable {s t : NetworkServer}

theorem SameClients.refl (s : NetworkServer) : s.SameClients s := fun _ => rfl

theorem SameClients.trans {u : NetworkServer} (h : s.SameClients t) (h' : t.SameClients u) :
    s.SameClients u := fun id => (h' id).trans (h id)

theorem isSome_mapValues (clients : OrderedMap ClientId ServerClient)
    (f : ClientId → ServerClient → ServerClient) (id : ClientId) :
    ((clients.mapValues f).find? id).isSome = (clients.find? id).isSome := by
  rw [OrderedMap.find?_mapValues, Option.isSome_map]

theorem isSome_modify (clients : OrderedMap ClientId ServerClient) (changed : ClientId)
    (f : ServerClient → ServerClient) (id : ClientId) :
    ((clients.modify changed f).find? id).isSome = (clients.find? id).isSome := by
  rw [OrderedMap.find?_modify]
  split_ifs
  · exact Option.isSome_map
  · rfl

theorem sameClients_publishUpdates (s : NetworkServer) (now : ℤ) :
    s.SameClients (s.publishUpdates now) := by
  refine Storage.actOnDirtyEntries_of_invariant storage withStorage (I := s.SameClients)
    (fun t handle entry ht _ => ?_) (fun _ _ ht => ht) (SameClients.refl s)
  apply ht.trans
  intro id
  rw [clients_publishDirty, isSome_mapValues]

theorem sameClients_updateWith (s : NetworkServer) (now : ℤ) (opened : Bool)
    (behind : Io.Behind) (answers : ClientId → List Bool) :
    s.SameClients (s.updateWith now opened behind answers) := by
  unfold updateWith update
  cases s.state with
  | opening =>
      dsimp only
      split_ifs <;> exact SameClients.refl s
  | inUse =>
      dsimp only
      split_ifs
      · exact SameClients.refl s
      · exact (s.sameClients_publishUpdates now).trans fun _ => isSome_mapValues ..

theorem sameClients_createEntry (s : NetworkServer) (now : ℤ) (sender : ClientId) (id : EntryId)
    (data : ParseData) : s.SameClients (s.createEntry now sender id data) :=
  fun _ => isSome_mapValues ..

theorem sameClients_handle (s : NetworkServer) (now : ℤ) (sender : ClientId) (type : MessageType)
    (data : ParseData) (written : Bool) :
    s.SameClients (s.handle now sender type data written) := by
  cases type with
  | entryCreate =>
      unfold NetworkServer.handle NetworkServer.onEntryCreate
      dsimp only
      split_ifs
      · have hassign : s.SameClients (s.assignIdToEntry data.name).1 := SameClients.refl s
        rcases hresult : s.assignIdToEntry data.name with ⟨t, _ | id⟩ <;> rw [hresult] at hassign
        · exact hassign
        · exact hassign.trans (t.sameClients_createEntry now sender id data)
      · exact s.sameClients_createEntry now sender data.id data
  | entryUpdate => exact fun _ => isSome_mapValues ..
  | entryDelete => exact fun _ => isSome_mapValues ..
  | timeSyncRequest => exact fun _ => isSome_modify ..
  | handshakeReady => exact fun _ => isSome_modify ..
  | _ => exact SameClients.refl s

theorem sameClients_onMessage (s : NetworkServer) (now : ℤ) (sender : ClientId) (type : UInt8)
    (payload : List UInt8) (written : Bool) :
    s.SameClients (s.onMessage now sender type payload written) := by
  unfold NetworkServer.onMessage
  dsimp only
  split_ifs
  · exact sameClients_handle { s with parser := _ } now sender _ _ written
  · exact SameClients.refl s

theorem find?_onConnect (s : NetworkServer) {id other : ClientId} (h : other ≠ id) :
    (s.onConnect id).clients.find? other = s.clients.find? other := by
  unfold onConnect
  rw [OrderedMap.find?_modify, if_neg h, OrderedMap.find?_emplace, if_neg h]

/-- A client that is new begins the handshake. -/
theorem find?_onConnect_self {s : NetworkServer} {id : ClientId}
    (h : s.clients.find? id = none) :
    (s.onConnect id).clients.find? id = some (({} : ServerClient).setState .inHandshake) := by
  unfold onConnect
  rw [OrderedMap.find?_modify, if_pos rfl, OrderedMap.find?_emplace, if_pos rfl, h]
  rfl

theorem find?_onDisconnect (s : NetworkServer) {id other : ClientId} (h : other ≠ id) :
    (s.onDisconnect id).clients.find? other = s.clients.find? other := by
  unfold onDisconnect
  rw [OrderedMap.find?_erase, if_neg h]

theorem isSome_onConnect (s : NetworkServer) (id other : ClientId) :
    ((s.onConnect id).clients.find? other).isSome = true ↔
      other = id ∨ (s.clients.find? other).isSome = true := by
  unfold NetworkServer.onConnect
  rw [isSome_modify, OrderedMap.find?_emplace]
  by_cases hother : other = id
  · simp [hother]
  · simp [hother]

theorem isSome_onDisconnect (s : NetworkServer) {id other : ClientId} (hother : other ≠ id)
    (h : (s.clients.find? other).isSome = true) :
    ((s.onDisconnect id).clients.find? other).isSome = true := by
  rwa [find?_onDisconnect s hother]

/-! ## The packets of the server -/

theorem made_written (s : NetworkServer) (now : ℤ) (behind : Io.Behind)
    (answers : ClientId → List Bool) (id : ClientId) :
    ∀ packet ∈ (s.written now behind answers id).2, packet.Made := by
  unfold written
  cases s.state with
  | opening => exact fun _ hpacket => absurd hpacket List.not_mem_nil
  | inUse => exact fun packet hpacket => (MessageQueue.made_flush hpacket).1

theorem made_answer (s : NetworkServer) {now : ℤ} {sender : ClientId} {packet reply : Packet}
    {behind : Io.Behind} {written : Bool} (h : reply ∈ s.answer now sender packet behind written) :
    reply.Made ∧ ∃ sendTime, reply.message = .timeSyncResponse now sendTime := by
  unfold answer at h
  dsimp only at h
  split_ifs at h
  · obtain ⟨hmade, hmem⟩ := MessageQueue.made_flush h
    exact ⟨hmade, _, List.mem_singleton.mp hmem⟩
  · cases h

end NetworkServer

namespace System

variable {ι : Type} {s t : System ι}

/-! ## The wires -/

structure Wired (s : System ι) : Prop where
  listed : ∀ n id, (s.nodes n).accepted = some id → (s.server.clients.find? id).isSome = true
  orphaned : ∀ id, (s.orphans id).isSome = true → (s.server.clients.find? id).isSome = true
  apart : ∀ n m id, (s.nodes n).accepted = some id → (s.nodes m).accepted = some id → n = m
  alone : ∀ n id, (s.nodes n).accepted = some id → s.orphans id = none

/-- No connection is accepted; a client may leave one to the server. -/
theorem Wired.loses (h : s.Wired)
    (hnodes : ∀ n id, (t.nodes n).accepted = some id → (s.nodes n).accepted = some id)
    (horphans : ∀ id, (t.orphans id).isSome = true →
      (s.orphans id).isSome = true ∨
        ∃ n, (s.nodes n).accepted = some id ∧ (t.nodes n).accepted = none)
    (hclients : ∀ id, (s.server.clients.find? id).isSome = true →
      (∃ n, (t.nodes n).accepted = some id) ∨ (t.orphans id).isSome = true →
        (t.server.clients.find? id).isSome = true) :
    t.Wired where
  listed n id hid := hclients id (h.listed n id (hnodes n id hid)) (.inl ⟨n, hid⟩)
  orphaned id hid := by
    refine hclients id ?_ (.inr hid)
    rcases horphans id hid with hold | ⟨n, haccepted, -⟩
    · exact h.orphaned id hold
    · exact h.listed n id haccepted
  apart n m id hn hm := h.apart n m id (hnodes n id hn) (hnodes m id hm)
  alone n id hid := by
    by_contra horphan
    rcases horphans id (Option.isSome_iff_ne_none.mpr horphan) with hold | ⟨m, haccepted, hleft⟩
    · rw [h.alone n id (hnodes n id hid)] at hold
      cases hold
    · obtain rfl := h.apart n m id (hnodes n id hid) haccepted
      rw [hid] at hleft
      cases hleft

theorem Wired.same (h : s.Wired) (hnodes : ∀ n, (t.nodes n).accepted = (s.nodes n).accepted)
    (horphans : ∀ id, (t.orphans id).isSome = (s.orphans id).isSome)
    (hclients : s.server.SameClients t.server) : t.Wired := by
  apply h.loses
  · intro n id hid
    rwa [hnodes] at hid
  · intro id hid
    rw [horphans] at hid
    exact .inl hid
  · intro id hlisted _
    rwa [hclients]

theorem Wired.serve (h : s.Wired) (now : ℤ) {server : NetworkServer}
    (hclients : s.server.SameClients server) : (s.serve now server).Wired :=
  h.same (fun _ => rfl) (fun _ => rfl) hclients


theorem wired_new (memory : ParseData) (storage : Storage) (reading : ℤ)
    (clients : ι → NetworkClient) : (System.new memory storage reading clients).Wired where
  listed _ _ hid := nomatch hid
  orphaned _ hid := nomatch hid
  apart _ _ _ hid := nomatch hid
  alone _ _ hid := nomatch hid

/-- An id that is free is that of no connection. -/
theorem Wired.unused (h : s.Wired) {id : ClientId} (hfree : s.server.clients.find? id = none) :
    (∀ n, (s.nodes n).accepted ≠ some id) ∧ s.orphans id = none := by
  constructor
  · intro n hid
    have hlisted := h.listed n id hid
    rw [hfree] at hlisted
    cases hlisted
  · by_contra horphan
    have hlisted := h.orphaned id (Option.isSome_iff_ne_none.mpr horphan)
    rw [hfree] at hlisted
    cases hlisted

theorem Wired.acceptAbandoned (h : s.Wired) (id : ClientId) : (s.acceptAbandoned id).Wired := by
  unfold System.acceptAbandoned
  split
  case h_2 => exact h
  case h_1 up abandoned hqueue =>
    split_ifs with haccepts
    case neg => exact h
    obtain ⟨hnodes, horphan⟩ := h.unused haccepts.2
    refine ⟨fun m other hother => ?_, fun other hother => ?_, h.apart, fun m other hother => ?_⟩
    · exact (NetworkServer.isSome_onConnect ..).mpr (.inr (h.listed m other hother))
    · rw [NetworkServer.isSome_onConnect]
      by_cases hid : other = id
      · exact .inl hid
      · refine .inr (h.orphaned other ?_)
        exact (congrArg Option.isSome (Function.update_of_ne hid ..)).symm.trans hother
    · have hid : other ≠ id := by
        rintro rfl
        exact hnodes m hother
      exact (Function.update_of_ne hid ..).trans (h.alone m other hother)

theorem Wired.serverClose (h : s.Wired) : s.serverClose.Wired := by
  have hcut : ∀ n id, (s.serverClose.nodes n).accepted ≠ some id := by
    intro n id hid
    cases (Node.accepted_cut (s.nodes n)).symm.trans hid
  apply h.loses
  · intro n id hid
    exact absurd hid (hcut n id)
  · intro id hid
    cases hid
  · rintro id - (⟨n, hid⟩ | hid)
    · exact absurd hid (hcut n id)
    · cases hid

theorem Wired.orphanGone (h : s.Wired) (id : ClientId) : (s.orphanGone id).Wired := by
  unfold System.orphanGone
  split
  case h_2 => exact h
  case h_1 up horphan =>
    have horphans : ∀ other, (Function.update s.orphans id none other).isSome = true →
        other ≠ id ∧ (s.orphans other).isSome = true := by
      intro other hother
      by_cases hid : other = id
      · rw [hid, Function.update_self] at hother
        cases hother
      · rw [Function.update_of_ne hid] at hother
        exact ⟨hid, hother⟩
    apply h.loses
    · exact fun _ _ hid => hid
    · exact fun other hother => .inl (horphans other hother).2
    · intro other hlisted hused
      refine NetworkServer.isSome_onDisconnect s.server ?_ hlisted
      rintro rfl
      rcases hused with ⟨m, hm⟩ | hother
      · rw [h.alone m other hm] at horphan
        cases horphan
      · exact (horphans other hother).1 rfl

variable [DecidableEq ι]

@[simp]
theorem nodes_setNode_self (s : System ι) (n : ι) (node : Node) :
    (s.setNode n node).nodes n = node :=
  Function.update_self ..

theorem nodes_setNode_of_ne (s : System ι) {n m : ι} (h : m ≠ n) (node : Node) :
    (s.setNode n node).nodes m = s.nodes m :=
  Function.update_of_ne h ..

theorem Wired.setNode (h : s.Wired) {n : ι} {node : Node}
    (hnode : node.accepted = (s.nodes n).accepted) : (s.setNode n node).Wired := by
  refine h.same (fun m => ?_) (fun _ => rfl) (.refl _)
  by_cases hm : m = n
  · rw [hm, nodes_setNode_self, hnode]
  · rw [nodes_setNode_of_ne s hm]

/-! ## Connections begin -/

theorem Wired.accept (h : s.Wired) (n : ι) (id : ClientId) : (s.accept n id).Wired := by
  unfold System.accept
  split
  case h_2 => exact h
  case h_1 up down hconnection =>
    split_ifs with haccepts
    case neg => exact h
    obtain ⟨hnodes, horphan⟩ := h.unused haccepts.2
    have haccepted : ∀ m other, ((s.setNode n { s.nodes n with
        connection := some ⟨.accepted id, up, down⟩ }).nodes m).accepted = some other →
          m = n ∧ other = id ∨ m ≠ n ∧ (s.nodes m).accepted = some other := by
      intro m other hother
      by_cases hm : m = n
      · rw [hm, nodes_setNode_self] at hother
        exact .inl ⟨hm, (Option.some.inj hother).symm⟩
      · rw [nodes_setNode_of_ne s hm] at hother
        exact .inr ⟨hm, hother⟩
    refine ⟨fun m other hother => ?_, fun other hother => ?_, fun m k other hm hk => ?_,
      fun m other hother => ?_⟩
    · rcases haccepted m other hother with ⟨-, rfl⟩ | ⟨-, hold⟩
      · exact (NetworkServer.isSome_onConnect ..).mpr (.inl rfl)
      · exact (NetworkServer.isSome_onConnect ..).mpr (.inr (h.listed m other hold))
    · exact (NetworkServer.isSome_onConnect ..).mpr (.inr (h.orphaned other hother))
    · rcases haccepted m other hm with ⟨rfl, rfl⟩ | ⟨-, hold⟩ <;>
        rcases haccepted k other hk with ⟨hkn, hid⟩ | ⟨-, hold'⟩
      · exact hkn.symm
      · exact absurd hold' (hnodes k)
      · exact absurd (hid ▸ hold) (hnodes m)
      · exact h.apart m k other hold hold'
    · rcases haccepted m other hother with ⟨-, rfl⟩ | ⟨-, hold⟩
      · exact horphan
      · exact h.alone m other hold

/-! ## Connections end -/

theorem Wired.serverDrop (h : s.Wired) (n : ι) : (s.serverDrop n).Wired := by
  unfold System.serverDrop
  split
  case h_2 => exact h
  case h_1 id up down hconnection =>
    have haccepted : (s.nodes n).accepted = some id :=
      Node.accepted_eq_some_iff.mpr ⟨up, down, hconnection⟩
    have hnodes : ∀ m other, ((s.setNode n { s.nodes n with
        connection := some ⟨.gone, up, down⟩ }).nodes m).accepted = some other →
          m ≠ n ∧ (s.nodes m).accepted = some other := by
      intro m other hother
      by_cases hm : m = n
      · rw [hm, nodes_setNode_self] at hother
        cases hother
      · rw [nodes_setNode_of_ne s hm] at hother
        exact ⟨hm, hother⟩
    apply h.loses
    · exact fun m other hother => (hnodes m other hother).2
    · exact fun other hother => .inl hother
    · intro other hlisted hused
      refine NetworkServer.isSome_onDisconnect s.server ?_ hlisted
      rintro rfl
      rcases hused with ⟨m, hm⟩ | horphan
      · obtain ⟨hne, hold⟩ := hnodes m other hm
        exact hne (h.apart m n other hold haccepted)
      · have hnone : s.orphans other = none := h.alone n other haccepted
        cases (congrArg Option.isSome hnone).symm.trans horphan

theorem Wired.leave (h : s.Wired) (n : ι) (client : NetworkClient) (left : Bool) :
    (s.leave n client left).Wired := by
  unfold System.leave
  dsimp only
  set soiled := if (s.nodes n).connection.isSome then left else (s.nodes n).soiled
  have hnodes : ∀ m other, ((s.setNode n { client, soiled }).nodes m).accepted = some other →
      m ≠ n ∧ (s.nodes m).accepted = some other := by
    intro m other hother
    by_cases hm : m = n
    · rw [hm, nodes_setNode_self] at hother
      cases hother
    · rw [nodes_setNode_of_ne s hm] at hother
      exact ⟨hm, hother⟩
  have hleft : (s.setNode n { client, soiled }).Wired :=
    h.loses (fun m other hother => (hnodes m other hother).2) (fun _ hother => .inl hother)
      fun _ hlisted _ => hlisted
  split
  case h_1 => exact hleft.same (fun _ => rfl) (fun _ => rfl) (.refl _)
  case h_2 id up down hconnection =>
    apply h.loses
    · exact fun m other hother => (hnodes m other hother).2
    · intro other hother
      by_cases hid : other = id
      · refine .inr ⟨n, ?_, ?_⟩
        · rw [hid]
          exact Node.accepted_eq_some_iff.mpr ⟨up, down, hconnection⟩
        · exact congrArg Node.accepted (nodes_setNode_self ..)
      · exact .inl ((congrArg Option.isSome (Function.update_of_ne hid ..)).symm.trans hother)
    · exact fun _ hlisted _ => hlisted
  case h_3 => exact hleft

/-! ## Every step -/

theorem Wired.receives (h : s.Wired) (n : ι) {node : Node} {id : ClientId} {up down : List Packet}
    (hconnection : (s.nodes n).connection = some ⟨.accepted id, up, down⟩)
    (hnode : ∃ up down, node.connection = some ⟨.accepted id, up, down⟩) :
    (s.setNode n node).Wired :=
  h.setNode ((Node.accepted_eq_some_iff.mpr hnode).trans
    (Node.accepted_eq_some_iff.mpr ⟨up, down, hconnection⟩).symm)

theorem Wired.step (h : s.Wired) (input : Input ι) : (s.step input).Wired := by
  cases input with
  | serverOperation now op => exact h.serve now (.refl _)
  | serverUpdate now opened behind answers =>
      exact h.same (fun n => Node.accepted_deliver ..) (fun _ => rfl)
        (s.server.sameClients_updateWith now opened behind answers)
  | serverClose => exact h.serverClose
  | accept n id => exact h.accept n id
  | acceptAbandoned id => exact h.acceptAbandoned id
  | serverReceive n now behind written =>
      unfold System.step System.serverReceive
      dsimp only
      split
      case h_2 => exact h
      case h_1 id packet up down hconnection =>
        have hclients := s.server.sameClients_onMessage now id packet.type packet.payload written
        exact (h.serve now hclients).receives n hconnection ⟨_, _, rfl⟩
  | orphanReceive id now written =>
      unfold System.step System.orphanReceive
      dsimp only
      split
      case h_2 => exact h
      case h_1 packet up horphan =>
        have hclients := s.server.sameClients_onMessage now id packet.type packet.payload written
        refine h.same (fun _ => rfl) (fun other => ?_) hclients
        by_cases hid : other = id
        · rw [hid]
          exact (congrArg Option.isSome (Function.update_self id (some up) s.orphans)).trans
            (congrArg Option.isSome horphan).symm
        · exact congrArg Option.isSome (Function.update_of_ne hid ..)
  | serverDrop n => exact h.serverDrop n
  | orphanGone id => exact h.orphanGone id
  | start n => exact h.setNode rfl
  | stop n left => exact h.leave n _ left
  | operation n timeNow op => exact h.setNode rfl
  | connect n timeNow behind answers =>
      unfold System.step System.connect
      dsimp only
      split_ifs with hconnects
      · refine h.setNode ?_
        unfold Node.accepted
        rw [Option.isNone_iff_eq_none.mp hconnects.2]
      · exact h
  | close n left =>
      unfold System.step System.close
      dsimp only
      split_ifs
      · exact h.leave n _ left
      · exact h
  | update n tick =>
      refine h.setNode ?_
      unfold Node.accepted
      rcases (s.nodes n).connection with _ | ⟨peer, up, down⟩
      · rfl
      · cases peer <;> rfl
  | receive n timeNow =>
      unfold System.step System.receive
      dsimp only
      split
      case h_2 => exact h
      case h_1 peer up packet down hconnection =>
        refine h.setNode ?_
        unfold Node.accepted
        rw [hconnection]
        cases peer <;> rfl
  | spoil n => exact h.setNode rfl
  | garble n up down =>
      unfold System.step System.garble
      dsimp only
      split
      case h_2 => exact h
      case h_1 peer up' down' hconnection =>
        split_ifs
        · refine h.setNode ?_
          unfold Node.accepted
          rw [hconnection]
          cases peer <;> rfl
        · exact h
  | stray n timeNow packet =>
      unfold System.step System.stray
      dsimp only
      split_ifs
      · exact h.setNode rfl
      · exact h

end System

/-! ## Clients with a connection -/

namespace NetworkClient

/-- The client has been told that its socket is connected. -/
def State.isConnected : State → Bool
  | .inHandshakeTimeSync | .inHandshake | .inUse => true
  | .idle | .opening | .connecting => false

variable {s : NetworkClient}

/-- A client with a connection has been started. -/
theorem start_of_isConnected (h : s.state.isConnected = true) : s.start = s := by
  unfold start
  apply if_neg
  intro hidle
  rw [hidle] at h
  cases h

theorem state_handOverStorage (s : NetworkClient) (now : ℤ) :
    (s.handOverStorage now).state = s.state :=
  Storage.actOnDirtyEntries_of_invariant storage withStorage (I := fun t => t.state = s.state)
    (fun _ _ _ ht _ => ht) (fun _ _ ht => ht) rfl

theorem state_update (h : s.state.isConnected = true) (tick : Tick) :
    (s.update tick).state = s.state := by
  obtain ⟨hstate, -, -⟩ := s.requestTimeSync_same tick
  unfold NetworkClient.update
  split_ifs
  · rfl
  · rw [← hstate] at h ⊢
    generalize (s.requestTimeSync tick).1 = t at h
    unfold advance
    cases hcase : t.state with
    | inUse => exact (t.state_handOverStorage _).trans hcase
    | inHandshakeTimeSync => exact hcase
    | inHandshake => exact hcase
    | _ =>
        rw [hcase] at h
        cases h

theorem isConnected_handle (h : s.state.isConnected = true) (timeNow : ℤ) (type : MessageType)
    (data : ParseData) : (s.handle timeNow type data).state.isConnected = true := by
  cases type with
  | timeSyncResponse =>
      unfold handle
      dsimp only
      split_ifs
      · rfl
      · show (s.syncClock timeNow data).state.isConnected = true
        rwa [(s.syncClock_keeps timeNow data).1]
  | handshakeFinished => rfl
  | _ => exact h

theorem isConnected_onMessage (h : s.state.isConnected = true) (timeNow : ℤ) (type : UInt8)
    (payload : List UInt8) : (s.onMessage timeNow type payload).state.isConnected = true := by
  unfold NetworkClient.onMessage
  dsimp only
  split_ifs
  · exact isConnected_handle (s := { s with parser := s.parser.parse (.ofByte type) payload }) h ..
  · exact h

end NetworkClient

namespace System

variable {ι : Type} [DecidableEq ι] {s t : System ι}

/-- A client with a connection has been told of it. -/
def Told (node : Node) : Prop :=
  node.connection.isSome = true → node.client.state.isConnected = true

theorem told_deliver {node : Node} (h : Told node) (written : ClientId → List Packet) :
    Told (node.deliver written) := by
  rcases node with ⟨client, _ | ⟨peer, up, down⟩⟩
  · exact h
  · cases peer <;> exact h

theorem told_cut {node : Node} (h : Told node) : Told node.cut := by
  rcases node with ⟨client, _ | ⟨peer, up, down⟩⟩
  · exact h
  · cases peer <;> exact h

/-- What holds of every node holds when one of them changes. -/
theorem forall_setNode {P : Node → Prop} (h : ∀ n, P (s.nodes n)) {n : ι} {node : Node}
    (hnode : P node) : ∀ m, P ((s.setNode n node).nodes m) := by
  intro m
  by_cases hm : m = n
  · rw [hm, nodes_setNode_self]
    exact hnode
  · rw [nodes_setNode_of_ne s hm]
    exact h m

theorem told_leave (h : ∀ n, Told (s.nodes n)) (n : ι) (client : NetworkClient) (left : Bool) :
    ∀ m, Told ((s.leave n client left).nodes m) := by
  unfold leave
  dsimp only
  set soiled := if (s.nodes n).connection.isSome then left else (s.nodes n).soiled
  have hnode : Told { client, soiled } := fun hsome => by cases hsome
  have hleft : ∀ m, Told ((s.setNode n { client, soiled }).nodes m) := forall_setNode h hnode
  split <;> exact hleft

theorem told_step (h : ∀ n, Told (s.nodes n)) (input : Input ι) :
    ∀ n, Told ((s.step input).nodes n) := by
  cases input with
  | serverOperation now op => exact h
  | serverUpdate now opened behind answers => exact fun n => told_deliver (h n) _
  | serverClose => exact fun n => told_cut (h n)
  | accept n id =>
      unfold step accept
      dsimp only
      split
      case h_2 => exact h
      case h_1 up down hconnection =>
        split_ifs
        · refine forall_setNode h fun _ => h n ?_
          rw [hconnection]
          rfl
        · exact h
  | acceptAbandoned id =>
      unfold step acceptAbandoned
      dsimp only
      split
      · split_ifs <;> exact h
      · exact h
  | serverReceive n now behind written =>
      unfold step serverReceive
      dsimp only
      split
      case h_2 => exact h
      case h_1 id packet up down hconnection =>
        refine forall_setNode (s := s.serve now _) h fun _ => h n ?_
        rw [hconnection]
        rfl
  | orphanReceive id now written =>
      unfold step orphanReceive
      dsimp only
      split <;> exact h
  | serverDrop n =>
      unfold step serverDrop
      dsimp only
      split
      case h_2 => exact h
      case h_1 id up down hconnection =>
        refine forall_setNode h fun _ => h n ?_
        rw [hconnection]
        rfl
  | orphanGone id =>
      unfold step orphanGone
      dsimp only
      split <;> exact h
  | start n =>
      refine forall_setNode h fun hsome => ?_
      have hconnected := h n hsome
      rwa [NetworkClient.start_of_isConnected hconnected]
  | stop n left => exact told_leave h n _ left
  | operation n timeNow op => exact forall_setNode h fun hsome => h n hsome
  | connect n timeNow behind answers =>
      unfold step connect
      dsimp only
      split_ifs
      · exact forall_setNode h fun _ => rfl
      · exact h
  | close n left =>
      unfold step close
      dsimp only
      split_ifs
      · exact told_leave h n _ left
      · exact h
  | update n tick =>
      refine forall_setNode h fun hsome => ?_
      rw [Option.isSome_map] at hsome
      have hconnected := h n hsome
      rwa [NetworkClient.state_update hconnected]
  | receive n timeNow =>
      unfold step receive
      dsimp only
      split
      case h_2 => exact h
      case h_1 peer up packet down hconnection =>
        refine forall_setNode h fun _ => NetworkClient.isConnected_onMessage (h n ?_) ..
        rw [hconnection]
        rfl
  | spoil n => exact forall_setNode h (h n)
  | garble n up down =>
      unfold step garble
      dsimp only
      split
      case h_2 => exact h
      case h_1 peer up' down' hconnection =>
        split_ifs
        · refine forall_setNode h fun _ => h n ?_
          rw [hconnection]
          rfl
        · exact h
  | stray n timeNow packet =>
      unfold step stray
      dsimp only
      split_ifs with hleft
      · refine forall_setNode h fun hsome => ?_
        rw [Option.isNone_iff_eq_none.mp hleft.2] at hsome
        cases hsome
      · exact h

theorem told_run (h : ∀ n, Told (s.nodes n)) (inputs : List (Input ι)) :
    ∀ n, Told ((s.run inputs).nodes n) :=
  foldl_of_invariant (I := fun s : System ι => ∀ n, Told (s.nodes n))
    (fun _ input htold => told_step htold input) h inputs

end System

end Obsr.Net
