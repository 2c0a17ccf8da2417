/-
# The connections of the system are lines

Either direction of a connection runs in step with a line for as long as the client keeps
the connection and no bytes are lost on it, whatever else happens: up, it is the queue of
the client with what it has written, and down, the queue the server has for the client. So
the system asks no more of a connection than what a transport of bytes does.
-/

import Obsr.Lib.Simulation
import Obsr.Net.HandshakeStep

namespace Obsr.Net

open Obsr.Io Obsr.Lib

/-! ## The queues -/

namespace NetworkClient

/-- A message that arrives may get a client ready. -/
theorem moves_onMessage (s : NetworkClient) (timeNow : ℤ) (type : UInt8) (payload : List UInt8) :
    s.Moves (s.onMessage timeNow type payload) [] (· = .handshakeReady) := by
  unfold onMessage
  dsimp only
  split_ifs
  · set parser := s.parser.parse (.ofByte type) payload
    cases MessageType.ofByte type with
    | timeSyncResponse =>
        obtain ⟨-, hqueue⟩ := { s with parser }.syncClock_keeps timeNow parser.data
        have hsync := s.moves_same hqueue (· = .handshakeReady)
        unfold handle
        dsimp only
        split_ifs
        · refine hsync.trans ?_
          unfold NetworkClient.enqueue messages
          rw [List.map_append]
          have hready := Line.Works.enqueue (rfl : OutMessage.handshakeReady = .handshakeReady)
            ({ s with parser }.syncClock timeNow parser.data).messages
          exact hready.imp fun _ hmessage => hmessage.symm
        · exact hsync
    | _ => exact s.moves_same rfl _
  · exact s.moves_same rfl _

end NetworkClient

namespace NetworkServer

variable {s t : NetworkServer} {packets : ClientId → List Packet} {id : ClientId}

/-- The queue of a client in the table goes on as a line does. -/
theorem Keeps.works (h : s.Keeps t packets) (hlisted : (s.clients.find? id).isSome = true) :
    Line.Works (fun _ => True) (s.queueOf id) (t.queueOf id) (packets id) := by
  obtain ⟨record, hrecord⟩ := Option.isSome_iff_exists.mp hlisted
  obtain ⟨record', hrecord', hmoves⟩ := h id record hrecord
  unfold queueOf
  rw [hrecord, hrecord']
  exact hmoves.works.imp fun _ _ => trivial

theorem queueOf_congr (h : t.clients.find? id = s.clients.find? id) :
    t.queueOf id = s.queueOf id := by
  unfold queueOf
  rw [h]

end NetworkServer

namespace System

variable {ι : Type}

/-! ## One client -/

/-- The client keeps its connection, and no bytes are lost on it. -/
def Input.Sustains (n : ι) : Input ι → Prop
  | .stop m _ | .close m _ | .spoil m => m ≠ n
  | _ => True

/-- The step changes what a client has or holds. -/
def Input.Touches (n : ι) : Input ι → Prop
  | .serverUpdate _ _ _ _ | .serverClose => True
  | .accept m _ | .serverReceive m _ _ _ | .serverDrop m | .start m | .stop m _ |
    .operation m _ _ | .connect m _ _ _ | .close m _ | .update m _ | .receive m _ | .spoil m |
    .garble m _ _ | .stray m _ _ => m = n
  | .serverOperation _ _ | .acceptAbandoned _ | .orphanReceive _ _ _ | .orphanGone _ => False

/-- The steps of a line that match one of the system, upwards. -/
def Raises (n : ι) : Input ι → List Line.Input → Prop
  | .update m _, block | .receive m _, block => .receive ∉ block ∧ (m = n ∨ block = [])
  | .serverReceive m _ _ _, block => block = [] ∨ m = n ∧ block = [.receive]
  | _, block => block = []

/-- The same downwards. -/
def Lowers (n : ι) : Input ι → List Line.Input → Prop
  | .serverUpdate _ _ _ _, block | .serverReceive _ _ _ _, block | .orphanReceive _ _ _, block =>
      .receive ∉ block
  | .receive m _, block => block = [] ∨ m = n ∧ block = [.receive]
  | _, block => block = []

theorem raises_nil (n : ι) (input : Input ι) : Raises n input [] := by
  cases input <;> simp [Raises]

theorem lowers_nil (n : ι) (input : Input ι) : Lowers n input [] := by
  cases input <;> simp [Lowers]

/-- The line has the queue of the client and the packets on their way to the server. -/
def Above (n : ι) (s : System ι) (line : Line) : Prop :=
  (s.nodes n).client.messages = line.queue ∧
    ∃ peer down, (s.nodes n).connection = some ⟨peer, line.underway, down⟩

/-- The line has the queue of the server for the client, and the packets on their way to it;
a connection that was not accepted has no queue, and that of one the server has closed is
gone. -/
def Below (n : ι) (s : System ι) (line : Line) : Prop :=
  ∃ peer up, (s.nodes n).connection = some ⟨peer, up, line.underway⟩ ∧
    match peer with
    | .waiting => line.queue = []
    | .accepted id => s.server.queueOf id = line.queue
    | .gone => True

/-- What the steps keep of the rest. -/
structure Sustained (n : ι) (s : System ι) : Prop where
  wired : s.Wired
  told : ∀ m, Told (s.nodes m)
  clean : (s.nodes n).soiled = false

/-! ## A line goes on -/

variable {s t : System ι} {n : ι} {line : Line} {node : Node}

theorem same_soiled (hnode : t.nodes n = node)
    (hsoiled : node.soiled = (s.nodes n).soiled) : (t.nodes n).soiled = (s.nodes n).soiled :=
  (congrArg Node.soiled hnode).trans hsoiled

/-- Upwards the connection stays as it is, and so does the queue. -/
theorem Above.same (h : Above n s line) (hnode : t.nodes n = node)
    (hmessages : node.client.messages = (s.nodes n).client.messages)
    (hconnection : ∀ peer up down, (s.nodes n).connection = some ⟨peer, up, down⟩ →
      ∃ peer' down', node.connection = some ⟨peer', up, down'⟩) : Above n t line := by
  obtain ⟨hqueue, peer, down, hsome⟩ := h
  unfold Above
  rw [hnode]
  exact ⟨hmessages.trans hqueue, hconnection _ _ _ hsome⟩

/-- The client goes on, and writes packets. -/
theorem Above.move (h : Above n s line) (hnode : t.nodes n = node)
    {packets : List Packet} {new : OutMessage → Prop}
    (hmoves : (s.nodes n).client.Moves node.client packets new)
    (hconnection : ∀ peer up down, (s.nodes n).connection = some ⟨peer, up, down⟩ →
      ∃ down', node.connection = some ⟨peer, up ++ packets, down'⟩) :
    ∃ block : List Line.Input, .receive ∉ block ∧ Above n t (block.foldl Line.step line) := by
  obtain ⟨hqueue, peer, down, hsome⟩ := h
  obtain ⟨block, -, hsends, hrun⟩ := hmoves
  rcases line with ⟨queue, underway, received⟩
  obtain rfl : (s.nodes n).client.messages = queue := hqueue
  obtain ⟨down', hsome'⟩ := hconnection _ _ _ hsome
  have hline := hrun underway received
  unfold Line.run at hline
  refine ⟨block, hsends, ?_⟩
  rw [hline]
  unfold Above
  rw [hnode]
  exact ⟨rfl, peer, down', hsome'⟩

theorem Above.serverUpdate (h : Above n s line) (now : ℤ) (opened : Bool) (behind : Behind)
    (answers : ClientId → List Bool) : Above n (s.serverUpdate now opened behind answers) line := by
  have hnode : (s.serverUpdate now opened behind answers).nodes n =
      (s.nodes n).deliver fun id => (s.server.written now behind answers id).2 := rfl
  apply h.same hnode
  · exact congrArg NetworkClient.messages (Node.client_deliver ..)
  · intro peer up down hsome
    unfold Node.deliver
    rw [hsome]
    cases peer with
    | accepted id => exact ⟨.accepted id, _, rfl⟩
    | waiting => exact ⟨.waiting, down, hsome⟩
    | gone => exact ⟨.gone, down, hsome⟩

theorem Above.serverClose (h : Above n s line) : Above n s.serverClose line := by
  have hnode : s.serverClose.nodes n = (s.nodes n).cut := rfl
  apply h.same hnode
  · unfold Node.cut
    split <;> rfl
  · intro peer up down hsome
    unfold Node.cut
    rw [hsome]
    cases peer with
    | accepted id => exact ⟨.gone, down, rfl⟩
    | waiting => exact ⟨.waiting, down, hsome⟩
    | gone => exact ⟨.gone, down, hsome⟩

/-- The server has the same in the queue of the client, and the connection stays as it is
downwards. -/
theorem Below.same (h : Below n s line) (hnode : t.nodes n = node)
    (hconnection : ∀ peer up down, (s.nodes n).connection = some ⟨peer, up, down⟩ →
      ∃ up', node.connection = some ⟨peer, up', down⟩)
    (hqueue : ∀ id, (s.nodes n).accepted = some id → t.server.queueOf id = s.server.queueOf id) :
    Below n t line := by
  obtain ⟨peer, up, hsome, hline⟩ := h
  obtain ⟨up', hsome'⟩ := hconnection _ _ _ hsome
  refine ⟨peer, up', (congrArg Node.connection hnode).trans hsome', ?_⟩
  cases peer with
  | waiting => exact hline
  | gone => exact hline
  | accepted id =>
      have haccepted := Node.accepted_eq_some_iff.mpr ⟨up, line.underway, hsome⟩
      exact (hqueue id haccepted).trans hline

/-- The server goes on, and writes packets to the clients. -/
theorem Below.serve (h : Below n s line) (hwired : s.Wired) (hnode : t.nodes n = node)
    {packets : ClientId → List Packet} (hkeeps : s.server.Keeps t.server packets)
    (haccepts : ∀ id up down, (s.nodes n).connection = some ⟨.accepted id, up, down⟩ →
      ∃ up', node.connection = some ⟨.accepted id, up', down ++ packets id⟩)
    (hothers : (s.nodes n).accepted = none → node.connection = (s.nodes n).connection) :
    ∃ block : List Line.Input, .receive ∉ block ∧ Below n t (block.foldl Line.step line) := by
  obtain ⟨peer, up, hsome, hline⟩ := h
  rcases line with ⟨queue, underway, received⟩
  have hnone : (s.nodes n).accepted = none → t.nodes n = node →
      (t.nodes n).connection = some ⟨peer, up, underway⟩ := by
    intro haccepted hnode
    rw [hnode, hothers haccepted, hsome]
  cases peer with
  | accepted id =>
      have haccepted := Node.accepted_eq_some_iff.mpr ⟨up, underway, hsome⟩
      obtain ⟨block, -, hsends, hrun⟩ := hkeeps.works (hwired.listed n id haccepted)
      obtain rfl : s.server.queueOf id = queue := hline
      obtain ⟨up', hsome'⟩ := haccepts _ _ _ hsome
      have hafter := hrun underway received
      unfold Line.run at hafter
      refine ⟨block, hsends, ?_⟩
      rw [hafter]
      exact ⟨.accepted id, up', (congrArg Node.connection hnode).trans hsome', rfl⟩
  | waiting =>
      have haccepted : (s.nodes n).accepted = none := by
        unfold Node.accepted
        rw [hsome]
      exact ⟨[], List.not_mem_nil, .waiting, up, hnone haccepted hnode, hline⟩
  | gone =>
      have haccepted : (s.nodes n).accepted = none := by
        unfold Node.accepted
        rw [hsome]
      exact ⟨[], List.not_mem_nil, .gone, up, hnone haccepted hnode, trivial⟩

theorem Below.serverClose (h : Below n s line) : Below n s.serverClose line := by
  obtain ⟨peer, up, hsome, hline⟩ := h
  have hnode : s.serverClose.nodes n = (s.nodes n).cut := rfl
  unfold Below
  rw [hnode]
  unfold Node.cut
  rw [hsome]
  cases peer with
  | accepted id => exact ⟨.gone, up, rfl, trivial⟩
  | waiting => exact ⟨.waiting, up, hsome, hline⟩
  | gone => exact ⟨.gone, up, hsome, trivial⟩

/-- An id that is free is that of no connection. -/
theorem queueOf_onConnect (hwired : s.Wired) {id other : ClientId}
    (hother : (s.nodes n).accepted = some other) (hfree : s.server.clients.find? id = none) :
    (s.server.onConnect id).queueOf other = s.server.queueOf other := by
  apply NetworkServer.queueOf_congr
  refine s.server.find?_onConnect ?_
  rintro rfl
  exact (hwired.unused hfree).1 n hother

theorem queueOf_acceptAbandoned (hwired : s.Wired) {other : ClientId}
    (hother : (s.nodes n).accepted = some other) (id : ClientId) :
    (s.acceptAbandoned id).server.queueOf other = s.server.queueOf other := by
  unfold acceptAbandoned
  split
  case h_2 => rfl
  case h_1 up abandoned hqueue =>
    split_ifs with haccepts
    case neg => rfl
    exact queueOf_onConnect hwired hother haccepts.2

theorem queueOf_orphanGone (hwired : s.Wired) {other : ClientId}
    (hother : (s.nodes n).accepted = some other) (id : ClientId) :
    (s.orphanGone id).server.queueOf other = s.server.queueOf other := by
  unfold orphanGone
  split
  case h_2 => rfl
  case h_1 up horphan =>
    apply NetworkServer.queueOf_congr
    refine s.server.find?_onDisconnect ?_
    rintro rfl
    cases horphan.symm.trans (hwired.alone n other hother)

/-! ## Steps of others -/

variable [DecidableEq ι] {input : Input ι}

/-- The line can go on with the system, upwards. -/
def Raised (n : ι) (input : Input ι) (s : System ι) (line : Line) : Prop :=
  ∃ block, Raises n input block ∧ Above n (s.step input) (block.foldl Line.step line)

/-- The same downwards. -/
def Lowered (n : ι) (input : Input ι) (s : System ι) (line : Line) : Prop :=
  ∃ block, Lowers n input block ∧ Below n (s.step input) (block.foldl Line.step line)

theorem nodes_leave {m : ι} (hne : m ≠ n) (client : NetworkClient) (left : Bool) :
    (s.leave m client left).nodes n = s.nodes n := by
  unfold leave
  dsimp only
  have hother := nodes_setNode_of_ne s hne.symm
  split
  · exact hother _
  · exact hother _
  · exact hother _

theorem server_leave (s : System ι) (m : ι) (client : NetworkClient) (left : Bool) :
    (s.leave m client left).server = s.server := by
  unfold leave
  dsimp only
  split <;> rfl

/-- A step of others leaves a client alone. -/
theorem nodes_step (h : ¬ input.Touches n) : (s.step input).nodes n = s.nodes n := by
  have hother : ∀ {m : ι}, ¬ m = n → ∀ (t : System ι) (node : Node),
      (t.setNode m node).nodes n = t.nodes n :=
    fun hne t node => nodes_setNode_of_ne t (fun heq => hne heq.symm) node
  cases input with
  | serverOperation now op => rfl
  | serverUpdate now opened behind answers => exact absurd trivial h
  | serverClose => exact absurd trivial h
  | accept m id =>
      unfold step accept
      dsimp only
      split
      · split_ifs
        · exact hother h s _
        · rfl
      · rfl
  | acceptAbandoned id =>
      unfold step acceptAbandoned
      dsimp only
      split
      · split_ifs <;> rfl
      · rfl
  | serverReceive m now behind written =>
      unfold step serverReceive
      dsimp only
      split
      · exact hother h _ _
      · rfl
  | orphanReceive id now written =>
      unfold step orphanReceive
      dsimp only
      split <;> rfl
  | serverDrop m =>
      unfold step serverDrop
      dsimp only
      split
      · exact hother h s _
      · rfl
  | orphanGone id =>
      unfold step orphanGone
      dsimp only
      split <;> rfl
  | start m => exact hother h s _
  | stop m left => exact nodes_leave h _ left
  | operation m timeNow op => exact hother h s _
  | connect m timeNow behind answers =>
      unfold step connect
      dsimp only
      split_ifs
      · exact hother h s _
      · rfl
  | close m left =>
      unfold step close
      dsimp only
      split_ifs
      · exact nodes_leave h _ left
      · rfl
  | update m tick => exact hother h s _
  | receive m timeNow =>
      unfold step receive
      dsimp only
      split
      · exact hother h s _
      · rfl
  | spoil m => exact hother h s _
  | garble m up down =>
      unfold step garble
      dsimp only
      split
      · split_ifs
        · exact hother h s _
        · rfl
      · rfl
  | stray m timeNow packet =>
      unfold step stray
      dsimp only
      split_ifs
      · exact hother h s _
      · rfl

theorem soiled_step (hinput : input.Sustains n) :
    ((s.step input).nodes n).soiled = (s.nodes n).soiled := by
  by_cases htouches : input.Touches n
  case neg => rw [nodes_step htouches]
  cases input with
  | serverOperation now op => rfl
  | serverUpdate now opened behind answers => exact Node.soiled_deliver ..
  | serverClose => exact Node.soiled_cut _
  | accept m id =>
      obtain rfl : m = n := htouches
      unfold step accept
      dsimp only
      split
      · split_ifs
        · exact same_soiled (nodes_setNode_self ..) rfl
        · rfl
      · rfl
  | acceptAbandoned id => cases htouches
  | serverReceive m now behind written =>
      obtain rfl : m = n := htouches
      unfold step serverReceive
      dsimp only
      split
      · exact same_soiled (nodes_setNode_self ..) rfl
      · rfl
  | orphanReceive id now written => cases htouches
  | serverDrop m =>
      obtain rfl : m = n := htouches
      unfold step serverDrop
      dsimp only
      split
      · exact same_soiled (nodes_setNode_self ..) rfl
      · rfl
  | orphanGone id => cases htouches
  | stop m left => exact absurd htouches hinput
  | connect m timeNow behind answers =>
      obtain rfl : m = n := htouches
      unfold step connect
      dsimp only
      split_ifs
      · exact same_soiled (nodes_setNode_self ..) rfl
      · rfl
  | close m left => exact absurd htouches hinput
  | receive m timeNow =>
      obtain rfl : m = n := htouches
      unfold step receive
      dsimp only
      split
      · exact same_soiled (nodes_setNode_self ..) rfl
      · rfl
  | spoil m => exact absurd htouches hinput
  | garble m up down =>
      obtain rfl : m = n := htouches
      unfold step garble
      dsimp only
      split
      · split_ifs
        · exact same_soiled (nodes_setNode_self ..) rfl
        · rfl
      · rfl
  | stray m timeNow packet =>
      obtain rfl : m = n := htouches
      unfold step stray
      dsimp only
      split_ifs
      · exact same_soiled (nodes_setNode_self ..) rfl
      · rfl
  | start m | operation m timeNow op | update m tick =>
      obtain rfl : m = n := htouches
      exact same_soiled (nodes_setNode_self ..) rfl

theorem Sustained.step (h : Sustained n s) (hinput : input.Sustains n) :
    Sustained n (s.step input) :=
  ⟨h.wired.step input, told_step h.told input, (soiled_step hinput).trans h.clean⟩

/-! ## Upwards -/

/-- What arrives at the server is received on the line. -/
theorem Above.serverReceive (h : Above n s line) (now : ℤ) (behind : Behind) (written : Bool) :
    Raised n (.serverReceive n now behind written) s line := by
  unfold Raised step System.serverReceive
  dsimp only
  split
  case h_2 => exact ⟨[], .inl rfl, h⟩
  case h_1 id packet up down hconnection =>
    refine ⟨[.receive], .inr ⟨rfl, rfl⟩, ?_⟩
    obtain ⟨hqueue, peer, down', hsome⟩ := h
    rcases line with ⟨queue, underway, received⟩
    cases hconnection.symm.trans hsome
    unfold Above
    rw [nodes_setNode_self]
    exact ⟨hqueue, _, _, rfl⟩

/-- A client with a connection has been started. -/
theorem Above.start (h : Above n s line) (htold : Told (s.nodes n)) :
    Above n (s.move n (s.nodes n).client.start) line := by
  obtain ⟨-, peer, down, hsome⟩ := id h
  apply h.same (nodes_setNode_self ..)
  · rw [NetworkClient.start_of_isConnected (htold (hsome ▸ rfl))]
  · exact fun peer up down hsome => ⟨peer, down, hsome⟩

/-- What a tick writes is on its way. -/
theorem Above.update (h : Above n s line) (tick : NetworkClient.Tick) :
    Raised n (.update n tick) s line := by
  have hnode : ((s.update n tick).nodes n).client = (s.nodes n).client.update tick ∧
      ((s.update n tick).nodes n).connection = (s.nodes n).connection.map fun connection =>
        { connection with up := connection.up ++ (s.nodes n).client.written tick } := by
    unfold System.update
    rw [nodes_setNode_self]
    exact ⟨rfl, rfl⟩
  have hmoves := (s.nodes n).client.moves_update tick
  rw [← hnode.1] at hmoves
  obtain ⟨block, hsends, habove⟩ := h.move rfl hmoves fun peer up down hsome =>
    ⟨down, hnode.2.trans (congrArg (Option.map _) hsome)⟩
  exact ⟨block, ⟨hsends, .inl rfl⟩, habove⟩

/-- A message of the server may be answered. -/
theorem Above.receive (h : Above n s line) (timeNow : ℤ) : Raised n (.receive n timeNow) s line := by
  unfold Raised step System.receive
  dsimp only
  split
  case h_2 => exact ⟨[], ⟨List.not_mem_nil, .inr rfl⟩, h⟩
  case h_1 peer up packet down hconnection =>
    set node : Node :=
      { s.nodes n with
        client := (s.nodes n).client.onMessage timeNow packet.type packet.payload
        connection := some ⟨peer, up, down⟩ }
    have hmoves := (s.nodes n).client.moves_onMessage timeNow packet.type packet.payload
    have hkept : ∀ peer' up' down', (s.nodes n).connection = some ⟨peer', up', down'⟩ →
        ∃ down', node.connection = some ⟨peer', up' ++ [], down'⟩ := by
      intro peer' up' down' hsome
      cases hconnection.symm.trans hsome
      exact ⟨down, by rw [List.append_nil]⟩
    obtain ⟨block, hsends, habove⟩ := h.move (nodes_setNode_self s n node) hmoves hkept
    exact ⟨block, ⟨hsends, .inl rfl⟩, habove⟩

theorem above_step (hs : Sustained n s) (h : Above n s line) (hinput : input.Sustains n) :
    Raised n input s line := by
  by_cases htouches : input.Touches n
  case neg =>
    exact ⟨[], raises_nil n input, h.same (nodes_step htouches) rfl fun peer up down hsome =>
      ⟨peer, down, hsome⟩⟩
  have hsame : ∃ block, Raises n input block ∧ Above n s (block.foldl Line.step line) :=
    ⟨[], raises_nil n input, h⟩
  cases input with
  | serverOperation now op => cases htouches
  | serverUpdate now opened behind answers =>
      exact ⟨[], rfl, h.serverUpdate now opened behind answers⟩
  | serverClose => exact ⟨[], rfl, h.serverClose⟩
  | accept m id =>
      obtain rfl : m = n := htouches
      unfold Raised step accept
      dsimp only
      split
      case h_2 => exact hsame
      case h_1 up down hconnection =>
        split_ifs
        case neg => exact hsame
        refine ⟨[], rfl, h.same (nodes_setNode_self ..) rfl fun peer up' down' hsome => ?_⟩
        cases hconnection.symm.trans hsome
        exact ⟨_, _, rfl⟩
  | acceptAbandoned id => cases htouches
  | serverReceive m now behind written =>
      obtain rfl : m = n := htouches
      exact h.serverReceive now behind written
  | orphanReceive id now written => cases htouches
  | serverDrop m =>
      obtain rfl : m = n := htouches
      unfold Raised step serverDrop
      dsimp only
      split
      case h_2 => exact hsame
      case h_1 id up down hconnection =>
        refine ⟨[], rfl, h.same (nodes_setNode_self ..) rfl fun peer up' down' hsome => ?_⟩
        cases hconnection.symm.trans hsome
        exact ⟨_, _, rfl⟩
  | orphanGone id => cases htouches
  | start m =>
      obtain rfl : m = n := htouches
      exact ⟨[], rfl, h.start (hs.told m)⟩
  | stop m left => exact absurd htouches hinput
  | operation m timeNow op =>
      obtain rfl : m = n := htouches
      exact ⟨[], rfl, h.same (nodes_setNode_self ..) rfl fun peer up down hsome =>
        ⟨peer, down, hsome⟩⟩
  | connect m timeNow behind answers =>
      obtain rfl : m = n := htouches
      obtain ⟨-, peer, down, hsome⟩ := id h
      unfold Raised step connect
      dsimp only
      split_ifs with hconnects
      case neg => exact hsame
      rw [hsome] at hconnects
      cases hconnects.2
  | close m left => exact absurd htouches hinput
  | update m tick =>
      obtain rfl : m = n := htouches
      exact h.update tick
  | receive m timeNow =>
      obtain rfl : m = n := htouches
      exact h.receive timeNow
  | spoil m => exact absurd htouches hinput
  | garble m up down =>
      obtain rfl : m = n := htouches
      unfold Raised step garble
      dsimp only
      split
      case h_2 => exact hsame
      case h_1 peer up' down' hconnection =>
        rw [if_neg (by rw [hs.clean]; exact Bool.false_ne_true)]
        exact hsame
  | stray m timeNow packet =>
      obtain rfl : m = n := htouches
      unfold Raised step stray
      dsimp only
      rw [if_neg (fun hstray => Bool.false_ne_true (hs.clean.symm.trans hstray.1))]
      exact hsame

/-! ## Downwards -/

/-- What a tick of the server writes is on its way. -/
theorem Below.serverUpdate (h : Below n s line) (hwired : s.Wired) (now : ℤ) (opened : Bool)
    (behind : Behind) (answers : ClientId → List Bool) :
    Lowered n (.serverUpdate now opened behind answers) s line := by
  have hnode : (s.step (.serverUpdate now opened behind answers)).nodes n =
      (s.nodes n).deliver fun id => (s.server.written now behind answers id).2 := rfl
  apply h.serve hwired hnode (s.server.keeps_updateWith now opened behind answers)
  · intro id up down hsome
    unfold Node.deliver
    rw [hsome]
    exact ⟨up, rfl⟩
  · intro hnone
    unfold Node.deliver
    split
    case h_1 id up down hsome =>
      cases (Node.accepted_eq_some_iff.mpr ⟨up, down, hsome⟩).symm.trans hnone
    case h_2 => rfl

/-- A client that is accepted has an empty queue. -/
theorem Below.accept (h : Below n s line) (id : ClientId) : Below n (s.accept n id) line := by
  unfold System.accept
  split
  case h_2 => exact h
  case h_1 up down hconnection =>
    split_ifs with haccepts
    case neg => exact h
    obtain ⟨peer, up', hsome, hline⟩ := h
    rcases line with ⟨queue, underway, received⟩
    cases hconnection.symm.trans hsome
    refine ⟨.accepted id, up, congrArg Node.connection (nodes_setNode_self ..), ?_⟩
    have hempty : (s.server.onConnect id).queueOf id = [] := by
      unfold NetworkServer.queueOf
      rw [NetworkServer.find?_onConnect_self haccepts.2]
      rfl
    exact hempty.trans hline.symm

theorem queueOf_accept (hwired : s.Wired) {other : ClientId}
    (hother : (s.nodes n).accepted = some other) (m : ι) (id : ClientId) :
    (s.accept m id).server.queueOf other = s.server.queueOf other := by
  unfold accept
  split
  case h_2 => rfl
  case h_1 up down hconnection =>
    split_ifs with haccepts
    case neg => rfl
    exact queueOf_onConnect hwired hother haccepts.2

/-- What arrives at the server may be answered, and may be told to the others. -/
theorem Below.serverReceive (h : Below n s line) (hwired : s.Wired) (m : ι) (now : ℤ)
    (behind : Behind) (written : Bool) :
    Lowered n (.serverReceive m now behind written) s line := by
  unfold Lowered step System.serverReceive
  dsimp only
  split
  case h_2 => exact ⟨[], List.not_mem_nil, h⟩
  case h_1 sender packet up down hconnection =>
    have hsender := Node.accepted_eq_some_iff.mpr ⟨packet :: up, down, hconnection⟩
    have hkeeps := s.server.keeps_onMessage now sender packet behind written
    by_cases hm : m = n
    · subst hm
      refine h.serve hwired (nodes_setNode_self ..) hkeeps (fun id up' down' hsome => ?_) ?_
      · cases hconnection.symm.trans hsome
        rw [NetworkServer.only_self]
        exact ⟨up, rfl⟩
      · intro hnone
        cases hsender.symm.trans hnone
    · refine h.serve hwired (nodes_setNode_of_ne _ (Ne.symm hm) _) hkeeps
        (fun id up' down' hsome => ⟨up', ?_⟩) fun _ => rfl
      have hid : id ≠ sender := by
        rintro rfl
        have haccepted := Node.accepted_eq_some_iff.mpr ⟨up', down', hsome⟩
        exact hm (hwired.apart m n id hsender haccepted)
      rw [NetworkServer.only_of_ne hid, List.append_nil]
      exact hsome

theorem Below.orphanReceive (h : Below n s line) (hwired : s.Wired) (sender : ClientId) (now : ℤ)
    (written : Bool) : Lowered n (.orphanReceive sender now written) s line := by
  unfold Lowered step System.orphanReceive
  dsimp only
  split
  case h_2 => exact ⟨[], List.not_mem_nil, h⟩
  case h_1 packet up horphan =>
    refine h.serve hwired rfl (s.server.keeps_onMessage now sender packet (fun _ => 0) written)
      (fun id up' down' hsome => ⟨up', ?_⟩) fun _ => rfl
    have hid : id ≠ sender := by
      rintro rfl
      have haccepted := Node.accepted_eq_some_iff.mpr ⟨up', down', hsome⟩
      cases horphan.symm.trans (hwired.alone n id haccepted)
    rw [NetworkServer.only_of_ne hid, List.append_nil]
    exact hsome

theorem Below.serverDrop (h : Below n s line) : Below n (s.serverDrop n) line := by
  unfold System.serverDrop
  split
  case h_2 => exact h
  case h_1 id up down hconnection =>
    obtain ⟨peer, up', hsome, -⟩ := h
    rcases line with ⟨queue, underway, received⟩
    cases hconnection.symm.trans hsome
    exact ⟨.gone, up, congrArg Node.connection (nodes_setNode_self ..), trivial⟩

theorem queueOf_serverDrop (hwired : s.Wired) {other : ClientId}
    (hother : (s.nodes n).accepted = some other) {m : ι} (hne : m ≠ n) :
    (s.serverDrop m).server.queueOf other = s.server.queueOf other := by
  unfold serverDrop
  split
  case h_2 => rfl
  case h_1 id up down hconnection =>
    apply NetworkServer.queueOf_congr
    refine s.server.find?_onDisconnect ?_
    rintro rfl
    have haccepted := Node.accepted_eq_some_iff.mpr ⟨up, down, hconnection⟩
    exact hne (hwired.apart m n other haccepted hother)

/-- What arrives at the client is received on the line. -/
theorem Below.receive (h : Below n s line) (timeNow : ℤ) :
    Lowered n (.receive n timeNow) s line := by
  unfold Lowered step System.receive
  dsimp only
  split
  case h_2 => exact ⟨[], .inl rfl, h⟩
  case h_1 peer up packet down hconnection =>
    refine ⟨[.receive], .inr ⟨rfl, rfl⟩, ?_⟩
    obtain ⟨peer', up', hsome, hline⟩ := h
    rcases line with ⟨queue, underway, received⟩
    cases hconnection.symm.trans hsome
    exact ⟨peer, up, congrArg Node.connection (nodes_setNode_self ..), hline⟩

/-- A step of others that leaves the queue alone. -/
theorem Below.others (h : Below n s line) (htouches : ¬ input.Touches n)
    (hqueue : ∀ id, (s.nodes n).accepted = some id →
      (s.step input).server.queueOf id = s.server.queueOf id) : Lowered n input s line :=
  ⟨[], lowers_nil n input,
    h.same (nodes_step htouches) (fun _ up _ hsome => ⟨up, hsome⟩) hqueue⟩

theorem below_step (hs : Sustained n s) (h : Below n s line) (hinput : input.Sustains n) :
    Lowered n input s line := by
  have hsame : ∃ block, Lowers n input block ∧ Below n s (block.foldl Line.step line) :=
    ⟨[], lowers_nil n input, h⟩
  cases input with
  | serverOperation now op => exact h.others id fun _ _ => rfl
  | serverUpdate now opened behind answers =>
      exact h.serverUpdate hs.wired now opened behind answers
  | serverClose => exact ⟨[], rfl, h.serverClose⟩
  | accept m id =>
      by_cases hm : m = n
      · subst hm
        exact ⟨[], rfl, h.accept id⟩
      · exact h.others hm fun other hother => queueOf_accept hs.wired hother m id
  | acceptAbandoned orphan =>
      exact h.others id fun other hother => queueOf_acceptAbandoned hs.wired hother orphan
  | serverReceive m now behind written => exact h.serverReceive hs.wired m now behind written
  | orphanReceive sender now written => exact h.orphanReceive hs.wired sender now written
  | serverDrop m =>
      by_cases hm : m = n
      · subst hm
        exact ⟨[], rfl, h.serverDrop⟩
      · exact h.others hm fun other hother => queueOf_serverDrop hs.wired hother hm
  | orphanGone orphan =>
      exact h.others id fun other hother => queueOf_orphanGone hs.wired hother orphan
  | start m =>
      by_cases hm : m = n
      · subst hm
        exact ⟨[], rfl, h.same (nodes_setNode_self ..) (fun _ up _ hsome => ⟨up, hsome⟩)
          fun _ _ => rfl⟩
      · exact h.others hm fun _ _ => rfl
  | stop m left =>
      refine h.others hinput fun id _ => ?_
      exact congrArg (NetworkServer.queueOf · id) (s.server_leave m _ left)
  | operation m timeNow op =>
      by_cases hm : m = n
      · subst hm
        exact ⟨[], rfl, h.same (nodes_setNode_self ..) (fun _ up _ hsome => ⟨up, hsome⟩)
          fun _ _ => rfl⟩
      · exact h.others hm fun _ _ => rfl
  | connect m timeNow behind answers =>
      unfold Lowered step connect
      dsimp only
      split_ifs with hconnects
      case neg => exact hsame
      by_cases hm : m = n
      · subst hm
        obtain ⟨peer, up, hsome, -⟩ := h
        rw [hsome] at hconnects
        cases hconnects.2
      · exact ⟨[], rfl, h.same (nodes_setNode_of_ne s (Ne.symm hm) _)
          (fun _ up _ hsome => ⟨up, hsome⟩) fun _ _ => rfl⟩
  | close m left =>
      unfold Lowered step close
      dsimp only
      split_ifs
      · refine ⟨[], rfl, h.same (nodes_leave hinput _ left) (fun _ up _ hsome => ⟨up, hsome⟩) ?_⟩
        intro id _
        exact congrArg (NetworkServer.queueOf · id) (s.server_leave m _ left)
      · exact hsame
  | update m tick =>
      by_cases hm : m = n
      · subst hm
        refine ⟨[], rfl, h.same (nodes_setNode_self ..) (fun _ up _ hsome => ?_) fun _ _ => rfl⟩
        exact ⟨_, congrArg (Option.map _) hsome⟩
      · exact h.others hm fun _ _ => rfl
  | receive m timeNow =>
      by_cases hm : m = n
      · subst hm
        exact h.receive timeNow
      · refine h.others hm fun id _ => congrArg (NetworkServer.queueOf · id) ?_
        unfold step receive
        dsimp only
        split <;> rfl
  | spoil m => exact h.others hinput fun _ _ => rfl
  | garble m up down =>
      unfold Lowered step garble
      dsimp only
      split
      case h_2 => exact hsame
      case h_1 peer up' down' hconnection =>
        split_ifs with hsoiled
        case neg => exact hsame
        have hm : n ≠ m := by
          rintro rfl
          cases hs.clean.symm.trans hsoiled
        exact ⟨[], rfl, h.same (nodes_setNode_of_ne s hm _) (fun _ up _ hsome => ⟨up, hsome⟩)
          fun _ _ => rfl⟩
  | stray m timeNow packet =>
      unfold Lowered step stray
      dsimp only
      split_ifs with hstray
      case neg => exact hsame
      have hm : n ≠ m := by
        rintro rfl
        cases hs.clean.symm.trans hstray.1
      exact ⟨[], rfl, h.same (nodes_setNode_of_ne s hm _) (fun _ up _ hsome => ⟨up, hsome⟩)
        fun _ _ => rfl⟩

/-! ## Every run -/

theorem simulation_above (n : ι) :
    Simulation step (fun (_ : System ι) input => input.Sustains n) Line.step (Raises n)
      fun s line => Sustained n s ∧ Above n s line where
  matched s line input h hinput := by
    obtain ⟨block, hmatches, habove⟩ := above_step h.1 h.2 hinput
    exact ⟨block, hmatches, h.1.step hinput, habove⟩

theorem simulation_below (n : ι) :
    Simulation step (fun (_ : System ι) input => input.Sustains n) Line.step (Lowers n)
      fun s line => Sustained n s ∧ Below n s line where
  matched s line input h hinput := by
    obtain ⟨block, hmatches, hbelow⟩ := below_step h.1 h.2 hinput
    exact ⟨block, hmatches, h.1.step hinput, hbelow⟩

/-- A client whose connection was made over a clean socket, in any run: as long as it keeps
the connection and no bytes are lost, a line runs in step with either direction of it. -/
theorem inStep_lines (memory : ParseData) (storage : Storage) (reading : ℤ)
    (clients : ι → NetworkClient) (before inputs : List (Input ι)) (n : ι) :
    let s := (System.new memory storage reading clients).run before
    ∀ peer up down, (s.nodes n).connection = some ⟨peer, up, down⟩ →
      (s.nodes n).soiled = false → (∀ input ∈ inputs, input.Sustains n) →
        (∃ line blocks, InStep step Line.step (Raises n) (Above n) s line inputs blocks) ∧
          ∃ line blocks, InStep step Line.step (Lowers n) (Below n) s line inputs blocks := by
  intro s peer up down hsome hclean hinputs
  have hwired : s.Wired :=
    foldl_of_invariant (fun _ input h => h.step input) (wired_new memory storage reading clients)
      before
  have htold : ∀ m, Told (s.nodes m) := told_run (fun _ hsome => (by cases hsome)) before
  have hs : Sustained n s := ⟨hwired, htold, hclean⟩
  have hmeet : StepsMeet step (fun _ input => input.Sustains n) s inputs :=
    stepsMeet_of_forall hinputs
  constructor
  · have habove : Above n s ⟨(s.nodes n).client.messages, up, []⟩ := ⟨rfl, peer, down, hsome⟩
    obtain ⟨blocks, hrun⟩ := (simulation_above n).run ⟨hs, habove⟩ hmeet
    exact ⟨_, blocks, hrun.imp fun _ _ h => h.2⟩
  · have hbelow : ∃ queue, Below n s ⟨queue, down, []⟩ := by
      cases peer with
      | waiting => exact ⟨[], .waiting, up, hsome, rfl⟩
      | accepted id => exact ⟨s.server.queueOf id, .accepted id, up, hsome, rfl⟩
      | gone => exact ⟨[], .gone, up, hsome, trivial⟩
    obtain ⟨queue, hbelow⟩ := hbelow
    obtain ⟨blocks, hrun⟩ := (simulation_below n).run ⟨hs, hbelow⟩ hmeet
    exact ⟨_, blocks, hrun.imp fun _ _ h => h.2⟩

end System

end Obsr.Net
