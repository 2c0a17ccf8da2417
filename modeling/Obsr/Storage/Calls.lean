/-
# Calls of the storage

A program calls the operations of the storage and lets it act on its dirty
entries. The mutex of the storage is recursive, so that an action may call
operations while the pass it belongs to is running; such a pass amounts to a
sequence of operations as well.
-/

import Obsr.Storage.Coherence

namespace Obsr

open Obsr.Lib

namespace Storage

/-- An action sees the entry; it may call operations, and says whether the pass
goes on. -/
abbrev EntryAction := StorageEntry → List Operation × Bool

inductive Call
  | operation (op : Operation)
  | actOnDirtyEntries (action : EntryAction)

/-- `act_on_dirty_entries` with such an action. -/
def act (s : Storage) (action : EntryAction) : Storage :=
  actOnDirtyEntries (fun s => s) (fun _ s => s)
    (fun data s => ((action data).2, (action data).1.foldl perform s)) s

def call (s : Storage) : Call → Storage
  | .operation op => s.perform op
  | .actOnDirtyEntries action => s.act action

/-- A new storage after some calls. -/
def runCalls (calls : List Call) : Storage := calls.foldl call new

/-! ## A pass is a sequence of operations -/

/-- The operations of a pass, from the first of the handles on. -/
def passOperations (action : EntryAction) : List Handle → Storage → List Operation
  | [], _ => []
  | handle :: handles, s =>
      match s.entries.get? handle with
      | none => passOperations action handles s
      | some data =>
          if data.dirty then
            match action data with
            | (ops, true) =>
                ops ++ .clearDirty handle ::
                  passOperations action handles ((ops.foldl perform s).clearDirty handle)
            | (ops, false) => ops
          else passOperations action handles s

/-- The operations a call amounts to. -/
def operations (s : Storage) : Call → List Operation
  | .operation op => [op]
  | .actOnDirtyEntries action => passOperations action (List.range 256) s

theorem actOnDirtyEntriesFrom_eq (action : EntryAction) (handles : List Handle) (s : Storage) :
    actOnDirtyEntriesFrom (fun s => s) (fun _ s => s)
        (fun data s => ((action data).2, (action data).1.foldl perform s)) handles s =
      (passOperations action handles s).foldl perform s := by
  induction handles generalizing s with
  | nil => rfl
  | cons handle handles ih =>
      rw [actOnDirtyEntriesFrom, passOperations]
      cases s.entries.get? handle with
      | none => exact ih s
      | some data =>
          simp only
          split_ifs
          · rcases action data with ⟨ops, resume⟩
            cases resume with
            | false => rfl
            | true =>
                simp only [List.foldl_append, List.foldl_cons]
                exact ih _
          · exact ih s

theorem call_eq (s : Storage) (c : Call) : s.call c = (s.operations c).foldl perform s := by
  cases c with
  | operation op => rfl
  | actOnDirtyEntries action => exact actOnDirtyEntriesFrom_eq action _ s

/-- The operations some calls amount to. -/
def operationsOf (s : Storage) : List Call → List Operation
  | [] => []
  | c :: calls => s.operations c ++ operationsOf (s.call c) calls

theorem foldl_call_eq (s : Storage) (calls : List Call) :
    calls.foldl call s = (s.operationsOf calls).foldl perform s := by
  induction calls generalizing s with
  | nil => rfl
  | cons c calls ih =>
      rw [List.foldl_cons, ih, operationsOf, List.foldl_append, ← call_eq]

/-- A run of calls is a run of operations. -/
theorem runCalls_eq (calls : List Call) : runCalls calls = run (new.operationsOf calls) :=
  foldl_call_eq new calls

theorem coherent_runCalls (calls : List Call) : (runCalls calls).Coherent := by
  rw [runCalls_eq]
  exact coherent_run _

end Storage

end Obsr
