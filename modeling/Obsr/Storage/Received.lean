/-
# What a storage receives

A storage that only hears from the network keeps, for every entry that is live,
the newest write it has received for it. Deletions and stale writes come and go
without the log of the received writes ever disagreeing with the entry.
-/

import Obsr.Storage.Effect
import Obsr.Storage.Remote

namespace Obsr

open Obsr.Lib

namespace Storage

namespace Operation

/-- A call of `on_entry_created`, `on_entry_updated`, `on_entry_deleted` or
`on_entry_id_assigned`. -/
def FromNetwork : Operation → Prop
  | .onEntryCreated .. | .onEntryUpdated .. | .onEntryDeleted .. | .onEntryIdAssigned .. => True
  | _ => False

instance (op : Operation) : Decidable op.FromNetwork := by
  cases op <;> unfold FromNetwork <;> infer_instance

/-- The timestamp an operation carries, if it does, is positive. -/
def Positive : Operation → Prop
  | .onEntryCreated _ _ _ _ timestamp | .onEntryUpdated _ _ _ timestamp
  | .onEntryDeleted _ _ timestamp => 0 < timestamp
  | _ => True

instance (op : Operation) : Decidable op.Positive := by
  cases op <;> unfold Positive <;> infer_instance

end Operation

/-! ## The log of an entry -/

/-- The write an operation brings for an entry, the one its id or its path
resolves to. -/
def received (s : Storage) (op : Operation) (entry : Handle) : List (ℤ × Value) :=
  match op with
  | .onEntryCreated _ _ path value timestamp =>
      if s.entryOf path = some entry then [(timestamp, value)] else []
  | .onEntryUpdated _ id value timestamp =>
      if s.ids.find? id = some entry then [(timestamp, value)] else []
  | _ => []

/-- The writes received for an entry, from a storage on. -/
def logFrom (s : Storage) (entry : Handle) : List Operation → List (ℤ × Value)
  | [] => []
  | op :: ops => s.received op entry ++ logFrom (s.perform op) entry ops

/-- The writes a new storage receives for an entry. -/
def log (ops : List Operation) (entry : Handle) : List (ℤ × Value) := new.logFrom entry ops

theorem logFrom_snoc (s : Storage) (entry : Handle) (ops : List Operation) (op : Operation) :
    s.logFrom entry (ops ++ [op]) =
      s.logFrom entry ops ++ (ops.foldl perform s).received op entry := by
  induction ops generalizing s with
  | nil => exact List.append_nil _
  | cons first ops ih =>
      show s.received first entry ++ (s.perform first).logFrom entry (ops ++ [op]) = _
      rw [ih, ← List.append_assoc]
      rfl

theorem log_snoc (ops : List Operation) (op : Operation) (entry : Handle) :
    log (ops ++ [op]) entry = log ops entry ++ (run ops).received op entry :=
  logFrom_snoc new entry ops op

theorem run_snoc (ops : List Operation) (op : Operation) :
    run (ops ++ [op]) = (run ops).perform op := List.foldl_append

/-- The value an operation of the network brings. -/
def Operation.written : Operation → Option Value
  | .onEntryCreated _ _ _ value _ | .onEntryUpdated _ _ value _ => some value
  | _ => none

theorem written_of_mem_received {s : Storage} {op : Operation} {entry : Handle}
    {write : ℤ × Value} (h : write ∈ s.received op entry) : op.written = some write.2 := by
  cases op <;> simp only [received] at h <;>
    first
    | exact absurd h List.not_mem_nil
    | split_ifs at h
      · rw [List.mem_singleton.mp h]
        rfl
      · exact absurd h List.not_mem_nil

/-- Every write of a log came with one of the operations. -/
theorem written_of_mem_log {ops : List Operation} {entry : Handle} {write : ℤ × Value}
    (h : write ∈ log ops entry) : ∃ op ∈ ops, op.written = some write.2 := by
  induction ops using List.reverseRecOn with
  | nil => exact absurd h List.not_mem_nil
  | append_singleton ops op ih =>
      rw [log_snoc] at h
      rcases List.mem_append.mp h with hold | hnew
      · obtain ⟨first, hfirst, hwritten⟩ := ih hold
        exact ⟨first, List.mem_append_left _ hfirst, hwritten⟩
      · exact ⟨op, List.mem_append_right _ List.mem_cons_self, written_of_mem_received hnew⟩

/-! ## The register of an entry and its log -/

/-- An entry agrees with the writes received for it. -/
structure Keeps (data : StorageEntry) (type : ValueType) (writes : List (ℤ × Value)) :
    Prop where
  remembers : data.register.Remembers writes
  typed : data.Typed type

variable {s : Storage} {entry : Handle} {data : StorageEntry} {type : ValueType}
  {writes : List (ℤ × Value)}

theorem keeps_created (entry : Handle) (path : Text) (type : ValueType) :
    Keeps { handle := entry, path, created := true } type [] :=
  ⟨Register.remembers_nil 0, Or.inl rfl⟩

theorem Keeps.set (h : Keeps data type writes) {value : Value} (hvalue : value.type = type)
    {timestamp : ℤ} (hpositive : 0 < timestamp) (now : ℤ) (id : EntryId) :
    Keeps (data.after (.set now value false id false timestamp)).1 type
      (writes ++ [(timestamp, value)]) := by
  constructor
  · show Register.Remembers (data.set now value false id false timestamp).1.register _
    rw [StorageEntry.register_set hpositive.ne' (h.typed.fits hvalue)]
    exact h.remembers.write timestamp value
  · exact h.typed.set hvalue now id false timestamp

theorem Keeps.delete (h : Keeps data type writes) {timestamp : ℤ} (hpositive : 0 < timestamp)
    (now : ℤ) : Keeps (data.after (.delete now false timestamp)).1 type writes := by
  constructor
  · show Register.Remembers (data.delete now false timestamp).1.register _
    rw [StorageEntry.register_delete hpositive.ne']
    exact h.remembers.erase timestamp
  · exact h.typed.delete now false timestamp

theorem Keeps.assign (h : Keeps data type writes) (id : EntryId) :
    Keeps (data.after (.assign id)).1 type writes := ⟨h.remembers, h.typed⟩

/-- One operation of the network, at an entry it reaches. -/
theorem Keeps.perform (h : Keeps data type writes) {op : Operation} (hnetwork : op.FromNetwork)
    (hpositive : op.Positive)
    (htyped : ∀ write ∈ s.received op entry, write.2.type = type) :
    Keeps (data.after (s.effect op entry)).1 type (writes ++ s.received op entry) := by
  have hkeep : Keeps (data.after .keep).1 type (writes ++ []) := by rwa [List.append_nil]
  cases op with
  | onEntryCreated now id path value timestamp =>
      simp only [effect, received] at htyped ⊢
      by_cases hentry : s.entryOf path = some entry
      · simp only [if_pos hentry] at htyped ⊢
        exact h.set (htyped _ List.mem_cons_self) hpositive now id
      · simp only [if_neg hentry]
        exact hkeep
  | onEntryUpdated now id value timestamp =>
      simp only [effect, received] at htyped ⊢
      by_cases hentry : s.ids.find? id = some entry
      · simp only [if_pos hentry] at htyped ⊢
        exact h.set (htyped _ List.mem_cons_self) hpositive now id
      · simp only [if_neg hentry]
        exact hkeep
  | onEntryDeleted now id timestamp =>
      simp only [effect, received, List.append_nil]
      split_ifs
      · exact h.delete hpositive now
      · exact h
  | onEntryIdAssigned id path =>
      simp only [effect, received, List.append_nil]
      split_ifs
      · exact h.assign id
      · exact h
  | _ => exact absurd hnetwork id

/-- An entry an operation does not reach receives nothing. -/
theorem received_of_base_none (h : s.Coherent) {op : Operation}
    (hbase : s.base op entry = none) : s.received op entry = [] := by
  cases op with
  | onEntryCreated now id path value timestamp =>
      refine if_neg fun hentry => ?_
      rw [base, createdPath, Option.bind_some, if_pos hentry] at hbase
      simp at hbase
  | onEntryUpdated now id value timestamp =>
      refine if_neg fun hentry => ?_
      obtain ⟨data, hdata⟩ := h.entry_of_id hentry
      rw [base_of_not_creating rfl, hdata] at hbase
      exact absurd hbase (Option.some_ne_none data)
  | _ => rfl

/-- In a run of the network every entry keeps its log, and an entry that is not
there has an empty one. -/
theorem keeps_log {ops : List Operation} (hnetwork : ∀ op ∈ ops, op.FromNetwork)
    (hpositive : ∀ op ∈ ops, op.Positive) {type : ValueType} {entry : Handle}
    (htyped : ∀ write ∈ log ops entry, write.2.type = type) :
    match (run ops).entries.get? entry with
    | none => log ops entry = []
    | some data => Keeps data type (log ops entry) := by
  induction ops using List.reverseRecOn with
  | nil =>
      rw [show (run []).entries.get? entry = none from HandleTable.get?_empty entry]
      exact rfl
  | append_singleton ops op ih =>
      rw [log_snoc] at htyped ⊢
      have hbefore := ih (fun op hop => hnetwork op (List.mem_append_left _ hop))
        (fun op hop => hpositive op (List.mem_append_left _ hop))
        (fun write hwrite => htyped write (List.mem_append_left _ hwrite))
      have hop : op ∈ ops ++ [op] := List.mem_append_right _ List.mem_cons_self
      have hreached := (reached_perform (coherent_run ops) op entry).1
      rw [run_snoc, hreached]
      cases hbase : (run ops).base op entry with
      | none =>
          have hnone := (Option.or_eq_none_iff.mp hbase).1
          rw [hnone] at hbefore
          show log ops entry ++ (run ops).received op entry = []
          rw [hbefore, received_of_base_none (coherent_run ops) hbase]
          rfl
      | some data =>
          have hkeeps : Keeps data type (log ops entry) := by
            unfold base at hbase
            cases hdata : (run ops).entries.get? entry with
            | some old =>
                rw [hdata] at hbase hbefore
                obtain rfl := Option.some.inj hbase
                exact hbefore
            | none =>
                rw [hdata, Option.none_or, Option.bind_eq_some_iff] at hbase
                obtain ⟨path, -, hcreated⟩ := hbase
                rw [hdata] at hbefore
                split_ifs at hcreated
                rw [show log ops entry = [] from hbefore, ← Option.some.inj hcreated]
                exact keeps_created entry path type
          exact hkeeps.perform (hnetwork op hop) (hpositive op hop)
            (fun write hwrite => htyped write (List.mem_append_right _ hwrite))

/-- A live entry has the value and the time of the most recent of the newest
writes received for it. -/
theorem isLatest_of_live {ops : List Operation} (hnetwork : ∀ op ∈ ops, op.FromNetwork)
    (hpositive : ∀ op ∈ ops, op.Positive)
    (htyped : ∀ entry, ∃ type, ∀ write ∈ log ops entry, write.2.type = type) {entry : Handle}
    {data : StorageEntry} (hentry : (run ops).entries.get? entry = some data)
    (hlive : data.hasValue = true) :
    Register.IsLatest (log ops entry) (data.lastUpdateTimestamp, data.value) := by
  obtain ⟨type, htype⟩ := htyped entry
  have hkeeps := keeps_log hnetwork hpositive htype
  rw [hentry] at hkeeps
  exact hkeeps.remembers.latest data.value (StorageEntry.view_of_live hlive)

/-- A stale update between two others, and a deletion. -/
theorem isLatest_after_stale_update :
    let ops : List Operation :=
      [.onEntryCreated 9 0 [97] (Value.makeInt32 1) 3, .onEntryDeleted 9 0 4,
        .onEntryUpdated 9 0 (Value.makeInt32 2) 6, .onEntryUpdated 9 0 (Value.makeInt32 3) 5]
    Register.IsLatest (log ops 0) (6, Value.makeInt32 2) := by
  intro ops
  have hentry : (run ops).entries.get? 0 =
      some ⟨0, [97], Value.makeInt32 2, 6, 0, false, false, false⟩ := by decide +kernel
  have htyped : ∀ op ∈ ops, ∀ value, op.written = some value → value.type = .integer32 := by
    simp [ops, Operation.written, Value.makeInt32]
  refine isLatest_of_live (by decide) (by decide) (fun entry => ?_)
    hentry rfl
  refine ⟨.integer32, fun write hwrite => ?_⟩
  obtain ⟨op, hop, hwritten⟩ := written_of_mem_log hwrite
  exact htyped op hop _ hwritten

end Storage

end Obsr
