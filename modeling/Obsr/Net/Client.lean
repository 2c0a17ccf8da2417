/-
# The storage pass of the client

`network_client::process_storage` turns every dirty entry into one message: a
create for an entry the server has given no id, a delete, or an update.
-/

import Obsr.Net.Message
import Obsr.Storage.Coherence

namespace Obsr.Net

namespace NetworkClient

/-- The message for a dirty entry. -/
def entryMessage (now : ℤ) (entry : StorageEntry) : OutMessage :=
  if entry.netId = idNotAssigned then
    .entryCreate now entry.path entry.value
  else if entry.deleted then
    .entryDeleted entry.lastUpdateTimestamp entry.netId
  else
    .entryUpdate entry.lastUpdateTimestamp entry.netId entry.value

def processStorage (now : ℤ) (s : Storage) (queue : List OutMessage) :
    Storage × List OutMessage :=
  Storage.actOnDirtyEntries Prod.fst (fun s storage => (storage, s.2))
    (fun entry s => (true, s.1, s.2 ++ [entryMessage now entry])) (s, queue)

/-- The message a storage pass builds for the entry of a handle. -/
def messageFor (now : ℤ) (s : Storage) (entry : Handle) : Option OutMessage :=
  ((s.entries.get? entry).filter StorageEntry.dirty).map (entryMessage now)

/-- A storage pass enqueues the messages of the dirty entries, by handle. -/
theorem processStorage_queue (now : ℤ) (s : Storage) (queue : List OutMessage) :
    (processStorage now s queue).2 =
      queue ++ (List.range 256).filterMap (messageFor now s) := by
  have hpass := Storage.log_actOnDirtyEntries Prod.fst
    (fun (s : Storage × List OutMessage) storage => (storage, s.2))
    (fun entry s => (true, s.1, s.2 ++ [entryMessage now entry])) Prod.snd
    (fun entry => [entryMessage now entry]) (fun _ _ => rfl) (fun _ _ => rfl)
    (fun _ _ => rfl) (fun _ _ => rfl) (fun _ _ => rfl) (s, queue)
  refine hpass.trans (congrArg (queue ++ ·) ?_)
  rw [← List.map_eq_flatMap, Storage.dirtyEntries, List.map_filterMap]
  rfl

end NetworkClient

end Obsr.Net
