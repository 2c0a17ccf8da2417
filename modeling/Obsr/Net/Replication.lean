/-
# Replication

Clients that listen follow the server through every run of the system: connections may
break and come back, and messages may take any time. Whenever nothing is on the way to a
client that the server has served, the client shows the values of the server that are not
dirty. What the server lacks a client lacks too if it shows nothing when it connects: the
server does not tell of what was deleted while a client was away.
-/

import Obsr.Net.Listener

namespace Obsr.Net

open Obsr.Lib Mirror

variable {τ : Text → ValueType} {fresh : Prop}

/-! ## What is on the way -/

/-- What is on the way to a client, whether it is told more or not. -/
structure Conveys (τ : Text → ValueType) (source : Source) (copy : Copy)
    (messages : List OutMessage) : Prop where
  carries : Mirror.Carries (FitsType τ) source copy (notices messages)
  readable : ∀ message ∈ messages, message.notice ≠ none → message.Readable

variable {source source' : Source} {copy copy' : Copy} {message : OutMessage}
  {messages lost : List OutMessage} {known : Set EntryId}

theorem Feeding.conveys (h : Feeding τ fresh source copy (messages ++ lost) known) :
    Conveys τ source copy messages where
  carries := by
    have hcarries := h.informs.toCarries
    rw [notices_append] at hcarries
    exact hcarries.of_append
  readable message hmessage := h.readable message (List.mem_append_left _ hmessage)

theorem Conveys.trails (h : Conveys τ source copy messages) : Trails source copy :=
  h.carries.trails.first

theorem Conveys.follow (h : Conveys τ source copy messages) (hfollows : source.Follows source') :
    Conveys τ source' copy messages :=
  ⟨h.carries.follow hfollows, h.readable⟩

theorem Conveys.takes (h : Conveys τ source copy (message :: messages)) {notice : Notice}
    (hnotice : message.notice = some notice) : Takes (FitsType τ) source copy notice := by
  have htakes := h.carries.takes
  rw [notices, List.filterMap_cons_some hnotice] at htakes
  exact htakes.1

theorem Conveys.learn (h : Conveys τ source copy (message :: messages))
    (hlearned : Learned copy copy' message) : Conveys τ source copy' messages := by
  refine ⟨?_, fun other hother => h.readable other (List.mem_cons_of_mem _ hother)⟩
  have hcarries := h.carries
  unfold Learned at hlearned
  cases hnotice : message.notice with
  | some notice =>
      rw [hnotice] at hlearned
      rw [notices, List.filterMap_cons_some hnotice] at hcarries
      exact hlearned ▸ hcarries.tail
  | none =>
      rw [hnotice] at hlearned
      rw [notices, List.filterMap_cons_none hnotice] at hcarries
      exact (hcarries.older hlearned).1

theorem Feeding.learn (h : Feeding τ fresh source copy (message :: messages) known)
    (hlearned : Learned copy copy' message) : Feeding τ fresh source copy' messages known := by
  refine ⟨?_, fun other hother => h.readable other (List.mem_cons_of_mem _ hother)⟩
  have hinforms := h.informs
  unfold Learned at hlearned
  cases hnotice : message.notice with
  | some notice =>
      rw [hnotice] at hlearned
      rw [notices, List.filterMap_cons_some hnotice] at hinforms
      exact hlearned ▸ hinforms.tail
  | none =>
      rw [hnotice] at hlearned
      rw [notices, List.filterMap_cons_none hnotice] at hinforms
      exact hinforms.older hlearned

/-! ## The nodes -/

/-- Packets of a client that listens. -/
def Asking (packets : List Packet) : Prop :=
  ∀ packet ∈ packets, packet.Made ∧ Listening packet.message.type

/-- A client without a connection that is served, and what it still hears. -/
def Apart (τ : Text → ValueType) (source : Source) (node : Node) : Prop :=
  match node.connection with
  | none => Trails source node.client.copy
  | some ⟨.waiting, _, down⟩ =>
      Trails source node.client.copy ∧
        (node.blank = true → ∀ path, (node.client.copy.registers path).content = none) ∧ down = []
  | some ⟨.accepted _, _, _⟩ => True
  | some ⟨.gone, _, down⟩ =>
      Conveys τ source node.client.copy (down.map Packet.message)

theorem asking_update {orphans : ClientId → Option (List Packet)} {up : List Packet}
    (h : ∀ id up, orphans id = some up → Asking up) (hup : Asking up) (id : ClientId) :
    ∀ other up', Function.update orphans id (some up) other = some up' → Asking up' := by
  intro other up' hother
  by_cases hid : other = id
  · rw [hid, Function.update_self] at hother
    cases hother
    exact hup
  · rw [Function.update_of_ne hid] at hother
    exact h other up' hother

/-- A node in itself. -/
structure Hears (τ : Text → ValueType) (source : Source) (node : Node) :
    Prop where
  listens : node.client.Listens τ
  apart : Apart τ source node
  up : ∀ connection, node.connection = some connection → Asking connection.up
  down : ∀ connection, node.connection = some connection →
    ∀ packet ∈ connection.down, packet.Made

theorem Hears.follow {node : Node} (h : Hears τ source node)
    (hfollows : source.Follows source') : Hears τ source' node where
  listens := h.listens
  apart := by
    have hapart := h.apart
    unfold Apart at hapart ⊢
    split at hapart
    · exact hapart.follow hfollows
    · exact ⟨hapart.1.follow hfollows, hapart.2⟩
    · trivial
    · exact hapart.follow hfollows
  up := h.up
  down := h.down

/-! ## The system -/

namespace System

variable {ι : Type} {s t : System ι}

/-- The connections the server has accepted. -/
def links (s : System ι) : NetworkServer.Links := fun id fresh copy down =>
  ∃ n up packets, (s.nodes n).connection = some ⟨.accepted id, up, packets⟩ ∧
    fresh = ((s.nodes n).blank = true) ∧ copy = (s.nodes n).client.copy ∧
      down = packets.map Packet.message

def table (s : System ι) : Source := s.server.asSource s.reading

/-- The clients are informed of the server. -/
structure Informed (τ : Text → ValueType) (s : System ι) : Prop where
  feeds : s.server.Feeds τ s.links s.reading
  hears : ∀ n, Hears τ s.table (s.nodes n)
  abandoned : ∀ up ∈ s.abandoned, Asking up
  orphans : ∀ id up, s.orphans id = some up → Asking up

structure Replicates (τ : Text → ValueType) (s : System ι) : Prop
    extends Informed τ s where
  wired : s.Wired
  told : ∀ n, Told (s.nodes n)

/-- Programs of clients only look entries up, and that of the server clears none. The values
that it sets have the type `τ` has for their path, and come out of a packet as they went in.
The clock of the server does not go back; that of a client is not set ahead. There is room in
the storage of a client. Connections are not garbled. -/
def Permitted (τ : Text → ValueType) (s : System ι) : Input ι → Prop
  | .serverOperation now op =>
      (s.reading ≤ now ∧ NetworkServer.Sendable now) ∧ op.IsEdit τ s.server.storage
  | .serverUpdate now _ _ _ | .serverReceive _ now _ _ | .orphanReceive _ now _ =>
      s.reading ≤ now ∧ NetworkServer.Sendable now
  | .operation _ _ op => ∃ path, op = .getOrCreateEntry path
  | .receive n timeNow =>
      ∀ packet ∈ (s.nodes n).next,
        (packet.message.type = .entryIdAssign →
          (s.nodes n).client.storage.HasRoom packet.message.name) ∧
        0 ≤ ((s.nodes n).client.onMessage timeNow packet.type packet.payload).clock.offset
  | .garble _ _ _ | .stray _ _ _ => False
  | _ => True

/-- A connection that was accepted is served. -/
theorem Replicates.conveys (h : s.Replicates τ) {n : ι} {connection : Connection}
    (hconnection : (s.nodes n).connection = some connection) :
    Conveys τ s.table (s.nodes n).client.copy (connection.down.map Packet.message) := by
  have hapart := (h.hears n).apart
  unfold Apart at hapart
  rw [hconnection] at hapart
  obtain ⟨peer, up, down⟩ := connection
  cases peer with
  | waiting =>
      obtain ⟨htrails, -, hdown⟩ := hapart
      rw [show down = [] from hdown]
      exact ⟨⟨trivial, htrails⟩, fun _ hmessage => absurd hmessage List.not_mem_nil⟩
  | accepted id =>
      obtain ⟨record, -, hserves⟩ := h.feeds.serves id _ _ _ ⟨n, up, down, hconnection, rfl, rfl, rfl⟩
      exact hserves.feeding.conveys
  | gone => exact hapart

theorem Replicates.trails (h : s.Replicates τ) (n : ι) :
    Trails s.table (s.nodes n).client.copy := by
  cases hconnection : (s.nodes n).connection with
  | some connection => exact (h.conveys hconnection).trails
  | none =>
      have hapart := (h.hears n).apart
      unfold Apart at hapart
      rwa [hconnection] at hapart

/-- Nothing is on the way to a client in use: it shows what is not dirty. -/
theorem Replicates.viewAt_eq (h : s.Replicates τ) {n : ι} {id : ClientId} {up : List Packet}
    {record : ServerClient} (hconnection : (s.nodes n).connection = some ⟨.accepted id, up, []⟩)
    (hrecord : s.server.clients.find? id = some record) (hstate : record.state = .inUse)
    (hqueue : record.queue = []) {path : Text} (hclean : s.server.storage.dirtyAt path = false)
    (hshown : (s.nodes n).blank = true ∨ s.server.storage.viewAt path ≠ none) :
    (s.nodes n).client.storage.viewAt path = s.server.storage.viewAt path := by
  obtain ⟨record', hrecord', hserves⟩ :=
    h.feeds.serves id _ _ _ ⟨n, up, [], hconnection, rfl, rfl, rfl⟩
  obtain rfl : record = record' := Option.some.inj (hrecord.symm.trans hrecord')
  have hinforms := hserves.feeding.informs
  rw [ServerClient.pending, hqueue] at hinforms
  have hknown : ∀ key, s.table.dirty key = false →
      (s.table.registers key).content.isSome = true →
        ∃ other ∈ record.published, s.table.names other = some key := by
    intro key hkeyClean hkeyShown
    rw [show (s.table.registers key).content = s.server.storage.viewAt key from
      Storage.content_registerAt .., Option.isSome_iff_ne_none] at hkeyShown
    obtain ⟨other, hname⟩ := h.feeds.named key hkeyShown hkeyClean
    exact ⟨other, hserves.finished hstate other key hname, hname⟩
  have hcontent : (s.table.registers path).content = s.server.storage.viewAt path :=
    Storage.content_registerAt ..
  rw [← hcontent, ← Option.isSome_iff_ne_none] at hshown
  calc (s.nodes n).client.storage.viewAt path
      = ((s.nodes n).client.copy.registers path).content := (Storage.content_registerAt ..).symm
    _ = (s.table.registers path).content := hinforms.content_eq hknown hclean hshown
    _ = s.server.storage.viewAt path := hcontent

/-! ## The beginning -/

/-- A client that was never started, with an empty storage. -/
def Blank (client : NetworkClient) : Prop :=
  ∃ memory clock, client = .new memory Storage.new clock

theorem supplying_start (memory : ParseData) {now : ℤ} (hnow : 0 ≤ now) :
    (NetworkServer.start memory Storage.new).Supplying τ now where
  ids := NetworkServer.idsInvariant_start memory []
  supplies := by
    refine Storage.Supplies.of_registers (s := Storage.new) ⟨Storage.coherent_new, ?_, ?_, ?_⟩
      (fun path => (Storage.sameTable_clearNetIds Storage.new path).1)
      Storage.coherent_new.clearNetIds
    · intro path value hview
      cases hview
    · intro path hview
      exact absurd rfl hview
    · exact fun _ => hnow
  named path hview := absurd rfl hview

theorem Blank.trails {client : NetworkClient} (h : Blank client) (server : NetworkServer)
    {now : ℤ} (hnow : 0 ≤ now) (hserver : ∀ path, 0 ≤ (server.storage.registerAt path).stamp) :
    Trails (server.asSource now) client.copy := by
  obtain ⟨memory, clock, rfl⟩ := h
  refine ⟨fun id path hname => ?_, fun _ => hnow, fun path => .inl (hserver path)⟩
  cases hname

theorem Blank.listens {client : NetworkClient} (h : Blank client) : client.Listens τ := by
  obtain ⟨memory, clock, rfl⟩ := h
  refine ⟨⟨Storage.coherent_new, ?_, ?_⟩, fun _ hqueued => absurd hqueued List.not_mem_nil⟩
  · intro path data hdata
    cases hdata
  · intro path data hdata
    cases hdata

theorem replicates_new (memory : ParseData) {reading : ℤ} (hreading : 0 ≤ reading)
    {clients : ι → NetworkClient} (hclients : ∀ n, Blank (clients n)) :
    (System.new memory Storage.new reading clients).Replicates τ where
  wired := wired_new memory Storage.new reading clients
  told _ hsome := by cases hsome
  feeds := by
    refine ⟨supplying_start memory hreading, ?_⟩
    rintro id fresh copy down ⟨n, up, packets, hconnection, -⟩
    cases hconnection
  hears n := by
    refine ⟨(hclients n).listens, ?_, nofun, nofun⟩
    exact (hclients n).trails _ hreading fun _ => le_rfl
  abandoned _ hup := absurd hup List.not_mem_nil
  orphans _ _ horphan := by cases horphan

/-! ## Steps of the server -/

/-- The server goes on by itself. -/
theorem Replicates.serve (h : s.Replicates τ) {now : ℤ} {server : NetworkServer}
    (hfeeds : server.Feeds τ s.links now)
    (hfollows : s.table.Follows (server.asSource now)) :
    (s.serve now server).Informed τ where
  feeds := hfeeds
  hears n := (h.hears n).follow hfollows
  abandoned := h.abandoned
  orphans := h.orphans

theorem Replicates.serverOperation (h : s.Replicates τ) {now : ℤ}
    (hlater : s.reading ≤ now) (hnow : NetworkServer.Sendable now)
    {op : NetworkServer.LocalOperation} (hop : op.IsEdit τ s.server.storage) :
    (s.serve now (s.server.withStorage (s.server.storage.perform (op.operation now)))).Informed
      τ :=
  h.serve (h.feeds.edit hlater hnow.positive hop)
    (h.feeds.toSupplying.edit hlater hnow.positive hop).2.follows

theorem follows_wait (server : NetworkServer) {now later : ℤ} (hlater : now ≤ later) :
    (server.asSource now).Follows (server.asSource later) :=
  ⟨fun _ _ hname => hname, hlater, fun _ => .inl rfl⟩

/-- The server writes to a client. -/
theorem Hears.deliver {node : Node} {source : Source} (h : Hears τ source node)
    {written : ClientId → List Packet} (hmade : ∀ id, ∀ packet ∈ written id, packet.Made) :
    Hears τ source (node.deliver written) := by
  obtain ⟨hlistens, hapart, hup, hdown⟩ := h
  rcases node with ⟨client, _ | ⟨peer, up, down⟩⟩
  · exact ⟨hlistens, hapart, hup, hdown⟩
  · cases peer with
    | accepted id =>
        refine ⟨hlistens, trivial, fun connection hconnection => ?_,
          fun connection hconnection => ?_⟩
        · cases hconnection
          exact hup ⟨.accepted id, up, down⟩ rfl
        · cases hconnection
          intro packet hpacket
          exact (List.mem_append.mp hpacket).elim (hdown ⟨.accepted id, up, down⟩ rfl packet)
            (hmade id packet)
    | waiting => exact ⟨hlistens, hapart, hup, hdown⟩
    | gone => exact ⟨hlistens, hapart, hup, hdown⟩

theorem Replicates.serverUpdate (h : s.Replicates τ) {now : ℤ} (hlater : s.reading ≤ now)
    (hnow : NetworkServer.Sendable now) (opened : Bool) (behind : Io.Behind)
    (answers : ClientId → List Bool) :
    (s.serverUpdate now opened behind answers).Informed τ where
  feeds := by
    refine ((h.feeds.wait hlater).updateWith hnow opened behind answers).relink ?_
    rintro id fresh copy' down' ⟨n, up, packets, hconnection, rfl, rfl, rfl⟩
    obtain ⟨down, hbefore, rfl⟩ := Node.connection_deliver hconnection
    have hblank := congrArg (· = true) (Node.blank_deliver (s.nodes n) fun id =>
      (s.server.written now behind answers id).2)
    refine ⟨_, _, ⟨down.map Packet.message, ⟨n, up, down, hbefore, hblank, rfl, rfl⟩, rfl⟩, ?_⟩
    intro queue known hfeeding
    rw [List.map_append]
    exact (Node.client_deliver (s.nodes n) _).symm ▸ hfeeding
  hears n := by
    refine Hears.deliver ?_ (s.server.made_written now behind answers)
    exact ((h.hears n).follow (follows_wait s.server hlater)).follow
      (h.feeds.ids.follows_updateWith now opened behind answers)
  abandoned := h.abandoned
  orphans := h.orphans

theorem Replicates.hears_gone (h : s.Replicates τ) {n : ι} {peer : Peer}
    {up down : List Packet} (hconnection : (s.nodes n).connection = some ⟨peer, up, down⟩) :
    Hears τ s.table { s.nodes n with connection := some ⟨.gone, up, down⟩ } where
  listens := (h.hears n).listens
  apart := h.conveys hconnection
  up connection hgone := by
    cases hgone
    exact (h.hears n).up ⟨peer, up, down⟩ hconnection
  down connection hgone := by
    cases hgone
    exact (h.hears n).down ⟨peer, up, down⟩ hconnection

theorem Replicates.serverClose (h : s.Replicates τ) : s.serverClose.Informed τ where
  feeds := by
    have hlinks : ∀ id fresh copy down, ¬ s.serverClose.links id fresh copy down := by
      rintro id fresh copy down ⟨n, up, packets, hconnection, -⟩
      have haccepted := Node.accepted_eq_some_iff.mpr ⟨up, packets, hconnection⟩
      cases (Node.accepted_cut (s.nodes n)).symm.trans haccepted
    exact h.feeds.of_clients (t := s.server.onClose) rfl rfl rfl
      (fun id fresh copy down hlink => absurd hlink (hlinks id fresh copy down))
      fun id fresh copy down hlink => absurd hlink (hlinks id fresh copy down)
  hears n := by
    show Hears τ s.table (s.nodes n).cut
    unfold Node.cut
    split
    case h_1 id up down hconnection => exact h.hears_gone hconnection
    case h_2 => exact h.hears n
  abandoned := h.abandoned
  orphans _ _ horphan := by cases horphan

theorem Replicates.orphanGone (h : s.Replicates τ) (id : ClientId) :
    (s.orphanGone id).Informed τ := by
  unfold System.orphanGone
  split
  case h_2 => exact h.toInformed
  case h_1 up horphan =>
    refine ⟨?_, h.hears, h.abandoned, fun other up' hother => ?_⟩
    · apply h.feeds.of_clients (t := s.server.onDisconnect id) rfl rfl rfl fun _ _ _ _ hlink => hlink
      rintro other fresh copy down ⟨n, up', packets, hconnection, -⟩
      refine s.server.find?_onDisconnect ?_
      rintro rfl
      have halone :=
        h.wired.alone n other (Node.accepted_eq_some_iff.mpr ⟨up', packets, hconnection⟩)
      cases horphan.symm.trans halone
    · refine h.orphans other up' ?_
      by_cases hid : other = id
      · cases ((Function.update_self id none s.orphans).symm.trans (hid ▸ hother) : none = _)
      · exact (Function.update_of_ne hid none s.orphans).symm.trans hother

/-- A client that nobody waits for connects. -/
theorem Replicates.acceptAbandoned (h : s.Replicates τ) (id : ClientId) :
    (s.acceptAbandoned id).Informed τ := by
  unfold System.acceptAbandoned
  split
  case h_2 => exact h.toInformed
  case h_1 up abandoned hqueue =>
    split_ifs with haccepts
    case neg => exact h.toInformed
    have habandoned := h.abandoned
    rw [hqueue] at habandoned
    obtain ⟨hfirst, hothers⟩ := List.forall_mem_cons.mp habandoned
    refine ⟨?_, h.hears, hothers, asking_update h.orphans hfirst id⟩
    · apply h.feeds.of_clients (t := s.server.onConnect id) rfl rfl rfl fun _ _ _ _ hlink => hlink
      rintro other fresh copy down ⟨n, up', packets, hconnection, -⟩
      have hother : other ≠ id := by
        rintro rfl
        exact (h.wired.unused haccepts.2).1 n
          (Node.accepted_eq_some_iff.mpr ⟨up', packets, hconnection⟩)
      exact s.server.find?_onConnect hother

/-- A request arrives at the server. -/
theorem Replicates.onMessage (h : s.Replicates τ) {now : ℤ} (hlater : s.reading ≤ now)
    (hnow : NetworkServer.Sendable now) (sender : ClientId) {packet : Packet}
    (hmade : packet.Made) (hlistening : Listening packet.message.type) (written : Bool) :
    (s.serve now (s.server.onMessage now sender packet.type packet.payload written)).Informed
      τ := by
  obtain ⟨htype, -⟩ := hmade.type_eq
  have hparsed : Listening (.ofByte packet.type) := htype ▸ hlistening
  apply h.serve ((h.feeds.wait hlater).onMessage hnow sender hparsed packet.payload written)
  rw [NetworkServer.asSource_onMessage s.server now sender hparsed]
  exact follows_wait s.server hlater

theorem Replicates.orphanReceive (h : s.Replicates τ) (id : ClientId) {now : ℤ}
    (hlater : s.reading ≤ now) (hnow : NetworkServer.Sendable now) (written : Bool) :
    (s.orphanReceive id now written).Informed τ := by
  unfold System.orphanReceive
  split
  case h_2 => exact h.toInformed
  case h_1 packet up horphan =>
    obtain ⟨⟨hmade, hlistening⟩, hothers⟩ := List.forall_mem_cons.mp (h.orphans id _ horphan)
    have hserved := h.onMessage hlater hnow id hmade hlistening written
    exact ⟨hserved.feeds, hserved.hears, hserved.abandoned, asking_update h.orphans hothers id⟩

/-! ## One node changes -/

variable [DecidableEq ι]

theorem Informed.setNode (h : s.Informed τ) (n : ι) {node : Node}
    (hnode : Hears τ s.table node)
    (hlink : ∀ id up packets, node.connection = some ⟨.accepted id, up, packets⟩ →
      node.blank = (s.nodes n).blank ∧
        ∃ up' packets', (s.nodes n).connection = some ⟨.accepted id, up', packets'⟩ ∧
          ∀ fresh queue known,
            Feeding τ fresh s.table (s.nodes n).client.copy (packets'.map Packet.message ++ queue)
                known →
              Feeding τ fresh s.table node.client.copy (packets.map Packet.message ++ queue)
                known) :
    (s.setNode n node).Informed τ where
  feeds := by
    refine h.feeds.relink ?_
    rintro id fresh copy' down' ⟨m, up, packets, hconnection, rfl, rfl, rfl⟩
    by_cases hm : m = n
    · rw [hm, nodes_setNode_self] at hconnection ⊢
      obtain ⟨hblank, up', packets', hbefore, hfeeding⟩ := hlink id up packets hconnection
      exact ⟨_, _, ⟨n, up', packets', hbefore, congrArg (· = true) hblank, rfl, rfl⟩,
        hfeeding _⟩
    · rw [nodes_setNode_of_ne s hm] at hconnection ⊢
      exact ⟨_, _, ⟨m, up, packets, hconnection, rfl, rfl, rfl⟩, fun _ _ hfeeding => hfeeding⟩
  hears := forall_setNode h.hears hnode
  abandoned := h.abandoned
  orphans := h.orphans

/-- The connection is not served after the step. -/
theorem Informed.setNode_apart (h : s.Informed τ) (n : ι) {node : Node}
    (hnode : Hears τ s.table node) (hapart : node.accepted = none) :
    (s.setNode n node).Informed τ := by
  refine h.setNode n hnode fun id up packets hconnection => ?_
  cases hapart.symm.trans (Node.accepted_eq_some_iff.mpr ⟨up, packets, hconnection⟩)

theorem Replicates.serverDrop (h : s.Replicates τ) (n : ι) :
    (s.serverDrop n).Informed τ := by
  unfold System.serverDrop
  split
  case h_2 => exact h.toInformed
  case h_1 id up down hconnection =>
    have hgone := h.toInformed.setNode_apart n (h.hears_gone hconnection) rfl
    refine ⟨?_, hgone.hears, hgone.abandoned, hgone.orphans⟩
    apply hgone.feeds.of_clients (t := s.server.onDisconnect id) rfl rfl rfl
      fun _ _ _ _ hlink => hlink
    rintro other fresh copy packets ⟨m, up', packets', hother, -⟩
    refine s.server.find?_onDisconnect ?_
    rintro rfl
    have hm : m ≠ n := by
      rintro rfl
      rw [nodes_setNode_self] at hother
      cases hother
    rw [nodes_setNode_of_ne s hm] at hother
    exact hm (h.wired.apart m n other (Node.accepted_eq_some_iff.mpr ⟨up', packets', hother⟩)
      (Node.accepted_eq_some_iff.mpr ⟨up, down, hconnection⟩))

theorem Replicates.serverReceive (h : s.Replicates τ) (n : ι) {now : ℤ}
    (hlater : s.reading ≤ now) (hnow : NetworkServer.Sendable now) (behind : Io.Behind)
    (written : Bool) : (s.serverReceive n now behind written).Informed τ := by
  unfold System.serverReceive
  split
  case h_2 => exact h.toInformed
  case h_1 id packet up down hconnection =>
    have hasks := (h.hears n).up _ hconnection
    obtain ⟨⟨hmade, hlistening⟩, hothers⟩ := List.forall_mem_cons.mp hasks
    have hserved := h.onMessage hlater hnow id hmade hlistening written
    have hanswer := s.server.answer_mute now id packet behind written
    have hnode := hserved.hears n
    refine hserved.setNode n ⟨hnode.listens, trivial, ?_, ?_⟩ ?_
    · intro connection hnew
      cases hnew
      exact hothers
    · intro connection hnew
      cases hnew
      intro reply hreply
      exact (List.mem_append.mp hreply).elim ((h.hears n).down _ hconnection reply)
        fun hnew => (hanswer reply hnew).1
    · intro id' up' packets hnew
      cases hnew
      refine ⟨rfl, _, _, hconnection, fun fresh queue known hfeeding => ?_⟩
      rw [List.map_append]
      apply hfeeding.insert_mutes
      intro message hmessage
      obtain ⟨reply, hreply, rfl⟩ := List.mem_map.mp hmessage
      exact (hanswer reply hreply).2

theorem Replicates.accept (h : s.Replicates τ) (n : ι) (id : ClientId) :
    (s.accept n id).Informed τ := by
  unfold System.accept
  split
  case h_2 => exact h.toInformed
  case h_1 up down hconnection =>
    split_ifs with haccepts
    case neg => exact h.toInformed
    have hapart := (h.hears n).apart
    unfold Apart at hapart
    rw [hconnection] at hapart
    obtain ⟨htrails, hblank, rfl⟩ := hapart
    have hfeeds := h.feeds.onConnect haccepts.2 htrails hblank
    refine ⟨hfeeds.relink ?_, forall_setNode h.hears ?_, h.abandoned, h.orphans⟩
    · rintro other fresh copy down ⟨m, up', packets, hother, rfl, rfl, rfl⟩
      refine ⟨_, _, ?_, fun _ _ hfeeding => hfeeding⟩
      by_cases hm : m = n
      · rw [hm, nodes_setNode_self] at hother ⊢
        cases hother
        exact .inr ⟨rfl, rfl, rfl, rfl⟩
      · rw [nodes_setNode_of_ne s hm] at hother ⊢
        exact .inl ⟨m, up', packets, hother, rfl, rfl, rfl⟩
    · refine ⟨(h.hears n).listens, trivial, fun connection hnew => ?_, fun connection hnew => ?_⟩
      · cases hnew
        exact (h.hears n).up ⟨.waiting, up, []⟩ hconnection
      · cases hnew
        exact (h.hears n).down ⟨.waiting, up, []⟩ hconnection

/-! ## Steps of a client -/

/-- A client goes on, and shows what it showed. -/
theorem Replicates.move (h : s.Replicates τ) (n : ι) {client : NetworkClient}
    (hlistens : client.Listens τ) (hcopy : client.copy = (s.nodes n).client.copy) :
    (s.move n client).Informed τ := by
  have hnode := h.hears n
  refine h.toInformed.setNode n ⟨hlistens, ?_, hnode.up, hnode.down⟩
    fun id up packets hconnection => ?_
  · have hapart := hnode.apart
    unfold Apart at hapart ⊢
    rwa [hcopy]
  · exact ⟨rfl, up, packets, hconnection, fun _ _ _ hfeeding => hcopy.symm ▸ hfeeding⟩

theorem Replicates.leave (h : s.Replicates τ) (n : ι) {client : NetworkClient}
    (hlistens : client.Listens τ) (hcopy : client.copy = (s.nodes n).client.copy)
    (left : Bool) : (s.leave n client left).Informed τ := by
  unfold System.leave
  dsimp only
  set soiled := if (s.nodes n).connection.isSome then left else (s.nodes n).soiled
  have hleft : (s.setNode n { client, soiled }).Informed τ := by
    refine h.toInformed.setNode_apart n ⟨hlistens, ?_, nofun, nofun⟩ rfl
    show Trails s.table client.copy
    rw [hcopy]
    exact h.trails n
  split
  case h_1 up down hconnection =>
    refine ⟨hleft.feeds, hleft.hears, fun other hother => ?_, hleft.orphans⟩
    rcases List.mem_append.mp hother with hold | hnew
    · exact h.abandoned other hold
    · rw [List.mem_singleton.mp hnew]
      exact (h.hears n).up _ hconnection
  case h_2 id up down hconnection =>
    exact ⟨hleft.feeds, hleft.hears, hleft.abandoned,
      asking_update h.orphans ((h.hears n).up _ hconnection) id⟩
  case h_3 => exact hleft

theorem forgotten_trails {source : Source} {copy : Copy} (h : Trails source copy) :
    Trails source { copy with names := fun _ => none } :=
  ⟨nofun, h.le_now, h.behind⟩

theorem Replicates.start (h : s.Replicates τ) (n : ι) :
    (s.move n (s.nodes n).client.start).Informed τ := by
  obtain ⟨hlistens, hcopy⟩ := (h.hears n).listens.start
  cases hconnection : (s.nodes n).connection with
  | some connection =>
      have hconnected := h.told n (hconnection ▸ rfl)
      have hrunning : (s.nodes n).client.start = (s.nodes n).client := by
        unfold NetworkClient.start
        rw [if_neg]
        intro hidle
        rw [hidle] at hconnected
        cases hconnected
      rw [hrunning]
      exact h.move n (h.hears n).listens rfl
  | none =>
      refine h.toInformed.setNode_apart n ⟨hlistens, ?_, ?_, ?_⟩ ?_
      · unfold Apart
        rw [hconnection]
        rcases hcopy with hcopy | hcopy
        · exact hcopy ▸ h.trails n
        · exact hcopy ▸ forgotten_trails (h.trails n)
      · rw [hconnection]
        exact nofun
      · rw [hconnection]
        exact nofun
      · unfold Node.accepted
        rw [hconnection]

theorem Replicates.connect (h : s.Replicates τ) (n : ι) (timeNow : ℤ) (behind : Io.Behind)
    (answers : List Bool) : (s.connect n timeNow behind answers).Informed τ := by
  unfold System.connect
  dsimp only
  split_ifs
  case neg => exact h.toInformed
  obtain ⟨hlistens, hcopy, hpackets⟩ := (h.hears n).listens.onConnect timeNow behind answers
  refine h.toInformed.setNode_apart n ⟨hlistens, ⟨?_, ?_, rfl⟩, ?_, ?_⟩ rfl
  · exact hcopy ▸ h.trails n
  · intro hblank path
    rw [hcopy]
    exact (Storage.content_registerAt ..).trans (Storage.showsNothing_iff.mp hblank path)
  · intro connection hnew
    cases hnew
    exact hpackets
  · intro connection hnew
    cases hnew
    exact fun _ hpacket => absurd hpacket List.not_mem_nil

theorem Replicates.update (h : s.Replicates τ) (n : ι) (tick : NetworkClient.Tick) :
    (s.update n tick).Informed τ := by
  obtain ⟨hlistens, hcopy, hpackets⟩ := (h.hears n).listens.update tick
  refine h.toInformed.setNode n ⟨hlistens, ?_, fun connection hnew => ?_, fun connection hnew => ?_⟩
    fun id up packets hnew => ?_
  · have hapart := (h.hears n).apart
    unfold Apart at hapart ⊢
    rw [hcopy]
    rcases hconnection : (s.nodes n).connection with _ | ⟨peer, up, down⟩ <;>
      rw [hconnection] at hapart
    · exact hapart
    · cases peer <;> exact hapart
  · obtain ⟨old, hconnection, rfl⟩ := Option.map_eq_some_iff.mp hnew
    intro packet hpacket
    exact (List.mem_append.mp hpacket).elim ((h.hears n).up old hconnection packet)
      (hpackets packet)
  · obtain ⟨old, hconnection, rfl⟩ := Option.map_eq_some_iff.mp hnew
    exact (h.hears n).down old hconnection
  · obtain ⟨⟨peer, up', down⟩, hconnection, hold⟩ := Option.map_eq_some_iff.mp hnew
    cases hold
    exact ⟨rfl, _, _, hconnection, fun _ _ _ hfeeding => hcopy.symm ▸ hfeeding⟩

theorem Replicates.receive (h : s.Replicates τ) (n : ι) (timeNow : ℤ)
    (hpermitted : s.Permitted τ (.receive n timeNow)) :
    (s.receive n timeNow).Informed τ := by
  unfold System.receive
  split
  case h_2 => exact h.toInformed
  case h_1 peer up packet down hconnection =>
    have hnext : packet ∈ (s.nodes n).next := by
      unfold Node.next
      rw [hconnection]
      rfl
    obtain ⟨hroom, hclock⟩ := hpermitted packet hnext
    have hconveys := h.conveys hconnection
    have hmade := (h.hears n).down _ hconnection packet List.mem_cons_self
    obtain ⟨hlistens, hlearned⟩ := (h.hears n).listens.onMessage hmade
      (hconveys.readable packet.message List.mem_cons_self) (fun notice => hconveys.takes) timeNow
      hroom hclock
    refine h.toInformed.setNode n ⟨hlistens, ?_, ?_, ?_⟩ ?_
    · have hapart := (h.hears n).apart
      unfold Apart at hapart ⊢
      rw [hconnection] at hapart
      cases peer with
      | waiting => cases hapart.2.2
      | accepted id => trivial
      | gone => exact hapart.learn hlearned
    · intro connection hnew
      cases hnew
      exact (h.hears n).up ⟨peer, up, packet :: down⟩ hconnection
    · intro connection hnew
      cases hnew
      exact fun other hother => (h.hears n).down _ hconnection other (List.mem_cons_of_mem _ hother)
    · intro id up' packets hnew
      cases hnew
      exact ⟨rfl, _, _, hconnection, fun _ _ _ hfeeding => hfeeding.learn hlearned⟩

/-! ## Every run -/

theorem Replicates.step (h : s.Replicates τ) {input : Input ι}
    (hpermitted : s.Permitted τ input) : (s.step input).Replicates τ := by
  refine ⟨?_, h.wired.step input, told_step h.told input⟩
  cases input with
  | serverOperation now op =>
      obtain ⟨⟨hlater, hnow⟩, hop⟩ := hpermitted
      exact h.serverOperation hlater hnow hop
  | serverUpdate now opened behind answers =>
      exact h.serverUpdate hpermitted.1 hpermitted.2 opened behind answers
  | serverClose => exact h.serverClose
  | accept n id => exact h.accept n id
  | acceptAbandoned id => exact h.acceptAbandoned id
  | serverReceive n now behind written =>
      exact h.serverReceive n hpermitted.1 hpermitted.2 behind written
  | orphanReceive id now written => exact h.orphanReceive id hpermitted.1 hpermitted.2 written
  | serverDrop n => exact h.serverDrop n
  | orphanGone id => exact h.orphanGone id
  | start n => exact h.start n
  | stop n left =>
      have hlistens : (s.nodes n).client.stop.Listens τ :=
        ⟨(h.hears n).listens.quiet, (h.hears n).listens.queue⟩
      exact h.leave n hlistens rfl left
  | operation n timeNow op =>
      obtain ⟨path, rfl⟩ := hpermitted
      obtain ⟨hlistens, hcopy⟩ := (h.hears n).listens.getOrCreateEntry path
      exact h.move n hlistens hcopy
  | connect n timeNow behind answers => exact h.connect n timeNow behind answers
  | close n left =>
      unfold System.step System.close
      dsimp only
      have hlistens : (s.nodes n).client.onClose.Listens τ :=
        ⟨(h.hears n).listens.quiet, (h.hears n).listens.queue⟩
      split_ifs
      · exact h.leave n hlistens rfl left
      · exact h.toInformed
  | update n tick => exact h.update n tick
  | receive n timeNow => exact h.receive n timeNow hpermitted
  | spoil n =>
      have hnode := h.hears n
      refine h.toInformed.setNode n ⟨hnode.listens, hnode.apart, hnode.up, hnode.down⟩
        fun id up packets hconnection => ?_
      exact ⟨rfl, up, packets, hconnection, fun _ _ _ hfeeding => hfeeding⟩
  | garble n up down => exact hpermitted.elim
  | stray n timeNow packet => exact hpermitted.elim

theorem replicates_run (memory : ParseData) {reading : ℤ} (hreading : 0 ≤ reading)
    {clients : ι → NetworkClient} (hclients : ∀ n, Blank (clients n)) {inputs : List (Input ι)}
    (hpermitted : StepsMeet System.step (Permitted τ)
      (System.new memory Storage.new reading clients) inputs) :
    ((System.new memory Storage.new reading clients).run inputs).Replicates τ :=
  (holdsThroughout_of_invariant (fun _ _ h hok => h.step hok)
    (replicates_new memory hreading hclients) hpermitted).last

/-- What the server has sent its clients show, once it has arrived. -/
theorem viewAt_eq_of_delivered (τ : Text → ValueType) (memory : ParseData)
    (reading : ℤ) (hreading : 0 ≤ reading) (clients : ι → NetworkClient)
    (hclients : ∀ n, Blank (clients n)) (inputs : List (Input ι))
    (hpermitted : StepsMeet System.step (Permitted τ)
      (System.new memory Storage.new reading clients) inputs)
    (n : ι) (id : ClientId) (up : List Packet) (record : ServerClient) (path : Text) :
    let s := (System.new memory Storage.new reading clients).run inputs
    (s.nodes n).connection = some ⟨.accepted id, up, []⟩ →
      s.server.clients.find? id = some record → record.state = .inUse → record.queue = [] →
        s.server.storage.dirtyAt path = false →
          (s.nodes n).blank = true ∨ s.server.storage.viewAt path ≠ none →
            (s.nodes n).client.storage.viewAt path = s.server.storage.viewAt path := by
  intro s hconnection hrecord hstate hqueue hclean hshown
  exact (replicates_run memory hreading hclients hpermitted).viewAt_eq hconnection hrecord hstate
    hqueue hclean hshown

instance Permitted.decidableReceive (τ : Text → ValueType) (s : System ι) (n : ι)
    (timeNow : ℤ) : Decidable (s.Permitted τ (.receive n timeNow)) :=
  inferInstanceAs (Decidable (∀ packet ∈ (s.nodes n).next, _))

/-- A server and one client. -/
def pair : System Unit :=
  System.new ⟨0, 0, [], 0, Value.make, 0⟩ Storage.new 0 fun _ =>
    .new ⟨0, 0, [], 0, Value.make, 0⟩ Storage.new {}

def openedTick (timeNow : ℤ) : NetworkClient.Tick :=
  ⟨timeNow, false, false, true, fun _ => 0, [true]⟩

/-- The server sets a value, and the client connects and gets ready. -/
def served : List (Input Unit) :=
  [.serverUpdate 1 true (fun _ => 0) fun _ => [],
    .serverOperation 2 (.getOrCreateEntry [97]),
    .serverOperation 3 (.setEntryValue 0 (Value.makeInt32 7)),
    .start (), .update () (openedTick 1), .connect () 2 (fun _ => 0) [true], .accept () 0,
    .serverReceive () 4 (fun _ => 0) true, .receive () 3, .update () (openedTick 4),
    .serverReceive () 5 (fun _ => 0) true]

/-- A tick of the server, and the packets it writes. -/
def delivered : List (Input Unit) :=
  [.serverUpdate 6 true (fun _ => 0) fun _ => [true, true, true],
    .receive () 6, .receive () 6, .receive () 6]

theorem permitted_delivered :
    StepsMeet System.step (Permitted fun _ => .integer32) pair (served ++ delivered) :=
  have hset : (NetworkServer.LocalOperation.setEntryValue 0 (Value.makeInt32 7)).IsEdit
      (fun _ => .integer32) (pair.run (served.take 2)).server.storage :=
    fun _ _ => ⟨rfl, .makeInt32 7, rfl, trivial⟩
  ⟨⟨by decide +kernel, by decide, by decide⟩, ⟨⟨by decide +kernel, by decide, by decide⟩, trivial⟩,
    ⟨⟨by decide +kernel, by decide, by decide⟩, hset⟩, trivial, trivial, trivial, trivial,
    ⟨by decide +kernel, by decide, by decide⟩, by decide +kernel, trivial,
    ⟨by decide +kernel, by decide, by decide⟩, ⟨by decide +kernel, by decide, by decide⟩,
    by decide +kernel, by decide +kernel, by decide +kernel, trivial⟩

/-- The client shows the value that the server has set, once the three packets of the tick
have arrived. -/
theorem viewAt_delivered :
    ((pair.run (served ++ delivered)).nodes ()).client.storage.viewAt [97] =
      some (Value.makeInt32 7) :=
  (viewAt_eq_of_delivered (fun _ => .integer32) _ 0 le_rfl _ (fun _ => ⟨_, _, rfl⟩)
    (served ++ delivered) permitted_delivered () 0 []
    (((pair.run (served ++ delivered)).server.clients.find? 0).get (by decide +kernel)) [97]
    (by decide +kernel) (Option.some_get _).symm (by decide +kernel) (by decide +kernel)
    (by decide +kernel) (.inr (by decide +kernel))).trans (by decide +kernel)

/-! ## A tick and what it sends -/

/-- Packets arrive at a client one by one. -/
theorem run_receive (s : System ι) (n : ι) {peer : Peer} {up down : List Packet}
    (hconnection : (s.nodes n).connection = some ⟨peer, up, down⟩) (times : List ℤ) :
    (s.run (times.map (.receive n))).server = s.server ∧
      ((s.run (times.map (.receive n))).nodes n).blank = (s.nodes n).blank ∧
        ((s.run (times.map (.receive n))).nodes n).connection =
          some ⟨peer, up, down.drop times.length⟩ := by
  induction times generalizing s down with
  | nil => exact ⟨rfl, rfl, hconnection⟩
  | cons time times ih =>
      have hnext : (s.receive n time).server = s.server ∧
          ((s.receive n time).nodes n).blank = (s.nodes n).blank ∧
            ((s.receive n time).nodes n).connection = some ⟨peer, up, down.drop 1⟩ := by
        unfold receive
        rw [hconnection]
        cases down with
        | nil => exact ⟨rfl, rfl, hconnection⟩
        | cons packet down =>
            refine ⟨rfl, ?_⟩
            dsimp only
            rw [nodes_setNode_self]
            exact ⟨rfl, rfl⟩
      obtain ⟨hserver, hblank, hlast⟩ := ih (s.receive n time) hnext.2.2
      refine ⟨hserver.trans hnext.1, hblank.trans hnext.2.1, hlast.trans ?_⟩
      rw [List.drop_drop, Nat.add_comm]
      rfl

/-- After a tick that writes all there is for a client in use, and the delivery of it, the
client shows the table of the server. -/
theorem viewAt_eq_of_tick (τ : Text → ValueType) (memory : ParseData)
    (reading : ℤ) (hreading : 0 ≤ reading) (clients : ι → NetworkClient)
    (hclients : ∀ n, Blank (clients n)) (inputs : List (Input ι)) (now : ℤ) (opened : Bool)
    (behind : Io.Behind) (answers : ClientId → List Bool) (n : ι) (times : List ℤ)
    (hpermitted : StepsMeet System.step (Permitted τ)
      (System.new memory Storage.new reading clients)
      (inputs ++ .serverUpdate now opened behind answers :: times.map (.receive n)))
    (id : ClientId) (up down : List Packet) (record : ServerClient) (path : Text) :
    let s := (System.new memory Storage.new reading clients).run inputs
    s.server.state = .inUse → (s.nodes n).connection = some ⟨.accepted id, up, down⟩ →
      s.server.clients.find? id = some record → record.state = .inUse →
        (s.server.written now behind answers id).1 = [] →
          times.length = down.length + (s.server.written now behind answers id).2.length →
            (s.nodes n).blank = true ∨ s.server.storage.viewAt path ≠ none →
              ((s.run (.serverUpdate now opened behind answers ::
                times.map (.receive n))).nodes n).client.storage.viewAt path =
                  s.server.storage.viewAt path := by
  intro s hserver hconnection hrecord hstate hwritten htimes hshown
  have hreplicates := replicates_run memory hreading hclients hpermitted
  rw [System.run, List.foldl_append] at hreplicates
  replace hreplicates : (s.run (.serverUpdate now opened behind answers ::
    times.map (.receive n))).Replicates τ := hreplicates
  have hstart : s.Replicates τ :=
    replicates_run memory hreading hclients (Channel.stepsMeet_of_append hpermitted)
  obtain ⟨hstorage, record', hrecord', hstate', hqueue⟩ :=
    NetworkServer.find?_updateWith hserver hrecord now opened behind answers
  have hticked : ((s.serverUpdate now opened behind answers).nodes n).connection =
      some ⟨.accepted id, up, down ++ (s.server.written now behind answers id).2⟩ := by
    show ((s.nodes n).deliver _).connection = _
    unfold Node.deliver
    rw [hconnection]
  obtain ⟨hserver', hblank, hlast⟩ := run_receive _ n hticked times
  rw [htimes, ← List.length_append, List.drop_length] at hlast
  have hviews : (s.server.updateWith now opened behind answers).storage.viewAt path =
      s.server.storage.viewAt path := by
    rw [hstorage, ← Storage.content_registerAt, ← Storage.content_registerAt,
      (hstart.feeds.ids.publishUpdates now).1]
  have hclean : (s.server.updateWith now opened behind answers).storage.dirtyAt path = false := by
    rw [hstorage]
    exact NetworkServer.dirtyAt_publishUpdates hstart.feeds.ids.coherent now path
  have hfinal : (s.run (.serverUpdate now opened behind answers ::
      times.map (.receive n))).server = s.server.updateWith now opened behind answers := hserver'
  have hsame : ((s.run (.serverUpdate now opened behind answers ::
      times.map (.receive n))).nodes n).blank = (s.nodes n).blank :=
    hblank.trans (Node.blank_deliver ..)
  rw [← hviews, ← hsame] at hshown
  rw [← hviews]
  rw [← hfinal] at hrecord' hclean hshown ⊢
  exact hreplicates.viewAt_eq hlast hrecord' (hstate'.trans hstate) (hqueue.trans hwritten) hclean
    hshown

/-- The tick writes all there is for the client, which then shows the value of the server. -/
theorem viewAt_ticked :
    ((pair.run (served ++ delivered)).nodes ()).client.storage.viewAt [97] =
      some (Value.makeInt32 7) :=
  (viewAt_eq_of_tick (fun _ => .integer32) _ 0 le_rfl _ (fun _ => ⟨_, _, rfl⟩) served 6
    true (fun _ => 0) (fun _ => [true, true, true]) () [6, 6, 6] permitted_delivered 0 [] []
    (((pair.run served).server.clients.find? 0).get (by decide +kernel)) [97] (by decide +kernel)
    (by decide +kernel) (Option.some_get _).symm (by decide +kernel) (by decide +kernel)
    (by decide +kernel) (.inr (by decide +kernel))).trans (by decide +kernel)

end System

end Obsr.Net
