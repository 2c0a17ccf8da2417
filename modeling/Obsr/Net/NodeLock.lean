/-
# Nodes and their locks

A thread of the looper that runs a client or a server never waits for the lock of the node
while it holds it itself, as long as no call into a socket under that lock closes the
socket.
-/

import Obsr.Net.ClientNode
import Obsr.Net.ServerNode

namespace Obsr.Net

open Obsr.Io Obsr.Lib

/-- The exact condition, for every run of a client and every run of a server. -/
theorem nodes_neverStuck_iff (memory : ParseData) (storage : Storage) (clock : Clock)
    (ioMemory : SocketIo.Memory) (clientInputs : List ClientNode.Input)
    (serverInputs : List ServerNode.Input) :
    (HoldsThroughout ClientNode.step (fun s => s.stuck = false)
        (ClientNode.new memory storage clock ioMemory) clientInputs ↔
      StepsMeet ClientNode.step ClientNode.Whole
        (ClientNode.new memory storage clock ioMemory) clientInputs) ∧
    (HoldsThroughout ServerNode.step (fun s => s.stuck = false)
        (ServerNode.new memory storage ioMemory) serverInputs ↔
      StepsMeet ServerNode.step ServerNode.Whole
        (ServerNode.new memory storage ioMemory) serverInputs) := by
  constructor
  · exact ClientNode.neverStuck_iff_whole memory storage clock ioMemory clientInputs
  · exact ServerNode.neverStuck_iff_whole memory storage ioMemory serverInputs

/-- A client is started, and the connection its first tick makes fails at once. -/
def refusedAtOnce : List ClientNode.Input :=
  [.start,
    .update
      { timeNow := 0
        syncElapsed := false
        retryElapsed := false
        created := true
        accepted := false
        behind := fun _ => 0 }]

/-- The tick waits for the lock that it holds. -/
theorem stuck_refusedAtOnce :
    ¬ HoldsThroughout ClientNode.step (fun s => s.stuck = false)
      (ClientNode.new ⟨0, 0, [], 0, Value.make, 0⟩ Storage.new {} .blank)
      refusedAtOnce := by
  intro h
  exact absurd h.last (by decide +kernel)

end Obsr.Net
