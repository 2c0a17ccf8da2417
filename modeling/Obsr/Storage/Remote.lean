/-
# Operations of the network on one entry

To the operations of the network an entry is a register of the last writer: the
updates write to it and the deletions erase it. What the register says about the
order of its edits is therefore what an entry makes of messages that overtake one
another.
-/

import Obsr.Lib.LastWriter
import Obsr.Storage.Coherence

namespace Obsr

open Obsr.Lib

namespace StorageEntry

variable {e : StorageEntry}

def register (e : StorageEntry) : Register ℤ Value := ⟨e.lastUpdateTimestamp, e.view⟩

theorem isStale_iff {timestamp : ℤ} (h : timestamp ≠ 0) :
    e.isStale timestamp = true ↔ timestamp < e.register.stamp := by
  simp [isStale, h, register]

theorem view_of_live (h : e.hasValue = true) : e.view = some e.value := if_pos h

theorem view_of_dead (h : e.hasValue = false) : e.view = none := by
  rw [view, h]
  rfl

/-- A set of the network with a value that fits is a write. -/
theorem register_set {timestamp : ℤ} (h : timestamp ≠ 0) {value : Value}
    (hfits : e.Fits value) (now : ℤ) (id : EntryId) (markDirty : Bool) :
    (e.set now value false id markDirty timestamp).1.register =
      e.register.apply (.write timestamp value) := by
  cases hstale : e.isStale timestamp with
  | true =>
      rw [set_of_stale hstale, Register.apply_write_eq, if_pos ((isStale_iff h).mp hstale)]
  | false =>
      have hfresh : ¬ timestamp < e.register.stamp := by
        rw [← isStale_iff h, hstale]
        exact Bool.false_ne_true
      rw [(set_of_fits hstale (fun _ => hfits) now id markDirty).1, Register.apply_write_eq,
        if_neg hfresh]
      have hstamp : stamp timestamp now = timestamp := if_neg h
      simp [register, view, hasValue, revive, hstamp]

/-- A deletion of the network is an erasure. -/
theorem register_delete {timestamp : ℤ} (h : timestamp ≠ 0) (now : ℤ) (markDirty : Bool) :
    (e.delete now markDirty timestamp).1.register = e.register.apply (.erase timestamp) := by
  cases hstale : e.isStale timestamp with
  | true =>
      rw [delete_of_stale hstale, Register.apply_erase_eq, if_pos ((isStale_iff h).mp hstale)]
  | false =>
      have hfresh : ¬ timestamp < e.register.stamp := by
        rw [← isStale_iff h, hstale]
        exact Bool.false_ne_true
      cases hlive : e.hasValue with
      | false =>
          rw [delete_of_not_hasValue hlive]
          exact (Register.apply_erase_of_none (view_of_dead hlive) timestamp).symm
      | true =>
          have hview : e.register.content = some e.value := view_of_live hlive
          rw [delete_of_hasValue hstale hlive, Register.apply_erase_eq, if_neg hfresh, hview]
          have hstamp : stamp timestamp now = timestamp := if_neg h
          simp [register, view, hasValue, hstamp]

/-- The entry holds nothing, or a value of the type. -/
def Typed (e : StorageEntry) (type : ValueType) : Prop :=
  e.value.type = .empty ∨ e.value.type = type

theorem Typed.fits {type : ValueType} (h : e.Typed type) {value : Value}
    (hvalue : value.type = type) : e.Fits value := by
  subst hvalue
  exact h

theorem Typed.set {type : ValueType} (h : e.Typed type) {value : Value}
    (hvalue : value.type = type) (now : ℤ) (id : EntryId) (markDirty : Bool) (timestamp : ℤ) :
    (e.set now value false id markDirty timestamp).1.Typed type := by
  cases hstale : e.isStale timestamp with
  | true => rwa [set_of_stale hstale]
  | false =>
      rw [(set_of_fits hstale (fun _ => h.fits hvalue) now id markDirty).1]
      exact Or.inr hvalue

theorem Typed.delete {type : ValueType} (h : e.Typed type) (now : ℤ) (markDirty : Bool)
    (timestamp : ℤ) : (e.delete now markDirty timestamp).1.Typed type := by
  unfold StorageEntry.delete
  split_ifs
  · exact h
  · exact h
  · exact Or.inl rfl

end StorageEntry

/-- An operation of the network on an entry that is known by its id. -/
inductive RemoteOperation
  | updated (value : Value) (timestamp : ℤ)
  | deleted (timestamp : ℤ)
  deriving DecidableEq, Repr

namespace RemoteOperation

def timestamp : RemoteOperation → ℤ
  | updated _ timestamp => timestamp
  | deleted timestamp => timestamp

/-- What the operation does to the register. -/
def edit : RemoteOperation → Edit ℤ Value
  | updated value timestamp => .write timestamp value
  | deleted timestamp => .erase timestamp

def ofEdit : Edit ℤ Value → RemoteOperation
  | .write timestamp value => updated value timestamp
  | .erase timestamp => deleted timestamp

@[simp]
theorem edit_ofEdit (e : Edit ℤ Value) : (ofEdit e).edit = e := by
  cases e <;> rfl

@[simp]
theorem ofEdit_edit (op : RemoteOperation) : ofEdit op.edit = op := by
  cases op <;> rfl

@[simp]
theorem stamp_edit (op : RemoteOperation) : op.edit.stamp = op.timestamp := by
  cases op <;> rfl

/-- The newest operation is an update, or no update is newer than a deletion. -/
def Settled (ops : List RemoteOperation) : Prop :=
  (∃ value timestamp, updated value timestamp ∈ ops ∧ ∀ op ∈ ops, op.timestamp ≤ timestamp) ∨
    ∀ value timestamp timestamp', updated value timestamp ∈ ops → deleted timestamp' ∈ ops →
      timestamp < timestamp'

theorem mem_map_edit {ops : List RemoteOperation} {e : Edit ℤ Value} :
    e ∈ ops.map edit ↔ ofEdit e ∈ ops := by
  constructor
  · intro h
    obtain ⟨op, hop, rfl⟩ := List.mem_map.mp h
    rwa [ofEdit_edit]
  · intro h
    exact List.mem_map.mpr ⟨ofEdit e, h, edit_ofEdit e⟩

theorem settled_edits_iff (ops : List RemoteOperation) :
    Register.Settled (ops.map edit) ↔ Settled ops := by
  have hnewest : ∀ bound, (∀ e ∈ ops.map edit, e.stamp ≤ bound) ↔
      ∀ op ∈ ops, op.timestamp ≤ bound := by
    intro bound
    rw [List.forall_mem_map]
    simp only [stamp_edit]
  unfold Register.Settled Settled
  simp only [hnewest]
  simp only [mem_map_edit, ofEdit]
  constructor
  · rintro (⟨timestamp, value, hupdate⟩ | holder)
    · exact Or.inl ⟨value, timestamp, hupdate⟩
    · exact Or.inr fun value timestamp => holder timestamp value
  · rintro (⟨value, timestamp, hupdate⟩ | holder)
    · exact Or.inl ⟨timestamp, value, hupdate⟩
    · exact Or.inr fun timestamp value => holder value timestamp

end RemoteOperation

namespace Storage

open RemoteOperation

/-- The handler of the storage, at a reading of the clock. -/
def onRemote (id : EntryId) (s : Storage) (call : ℤ × RemoteOperation) : Storage :=
  match call.2 with
  | .updated value timestamp => (s.onEntryUpdated call.1 id value timestamp).1
  | .deleted timestamp => (s.onEntryDeleted call.1 id timestamp).1

def onRemotes (s : Storage) (id : EntryId) (calls : List (ℤ × RemoteOperation)) : Storage :=
  calls.foldl (onRemote id) s

/-- Whether an entry is live, and its value. -/
def outcome (s : Storage) (entry : Handle) : Option (Bool × Value) :=
  (s.entries.get? entry).map fun data => (data.hasValue, data.value)

/-- The operations end in one outcome, whatever their order and the clock. -/
def OrderIndependent (s : Storage) (id : EntryId) (entry : Handle)
    (ops : List RemoteOperation) : Prop :=
  ∀ first second : List (ℤ × RemoteOperation), (first.map Prod.snd).Perm ops →
    (second.map Prod.snd).Perm ops →
      (s.onRemotes id first).outcome entry = (s.onRemotes id second).outcome entry

/-- Operations that are newer than the entry and of its type, at times that are
all different. -/
structure Concurrent (data : StorageEntry) (ops : List RemoteOperation) : Prop where
  distinct : (ops.map timestamp).Nodup
  positive : ∀ op ∈ ops, 0 < op.timestamp
  newer : ∀ op ∈ ops, data.lastUpdateTimestamp < op.timestamp
  typed : ∀ value timestamp, .updated value timestamp ∈ ops →
    value.type ≠ .empty ∧ value.type = data.value.type

/-- What is known of the entry of an id while operations arrive for it. -/
structure Tracks (s : Storage) (id : EntryId) (entry : Handle) (type : ValueType)
    (data : StorageEntry) : Prop where
  known : s.ids.find? id = some entry
  entry : s.entries.get? entry = some data
  sound : data.Sound
  typed : data.Typed type

variable {s : Storage} {id : EntryId} {entry : Handle} {type : ValueType} {data : StorageEntry}

theorem Tracks.onRemote (h : s.Tracks id entry type data) (now : ℤ) {op : RemoteOperation}
    (hpositive : 0 < op.timestamp)
    (htyped : ∀ value timestamp, op = .updated value timestamp → value.type = type) :
    ∃ data', (s.onRemote id (now, op)).Tracks id entry type data' ∧
      data'.register = data.register.apply op.edit := by
  cases op with
  | updated value timestamp =>
      have hvalue := htyped value timestamp rfl
      have hrun : s.onRemote id (now, .updated value timestamp) =
          (s.setEntryInternal now entry value false id false timestamp).1 := by
        show (s.onEntryUpdated now id value timestamp).1 = _
        rw [onEntryUpdated, h.known]
      rw [hrun, setEntryInternal_of_some h.entry]
      refine ⟨_, ⟨h.known, get?_store_self s h.entry _ _, h.sound.set .., ?_⟩, ?_⟩
      · exact h.typed.set hvalue now id false timestamp
      · exact StorageEntry.register_set hpositive.ne' (h.typed.fits hvalue) now id false
  | deleted timestamp =>
      have hrun : s.onRemote id (now, .deleted timestamp) =
          (s.deleteEntryInternal now entry false timestamp).1 := by
        show (s.onEntryDeleted now id timestamp).1 = _
        rw [onEntryDeleted, h.known]
      rw [hrun, deleteEntryInternal_of_some h.entry]
      refine ⟨_, ⟨h.known, get?_store_self s h.entry _ _, h.sound.delete .., ?_⟩, ?_⟩
      · exact h.typed.delete now false timestamp
      · exact StorageEntry.register_delete hpositive.ne' now false

/-- The register of the entry goes through the edits of the operations. -/
theorem Tracks.onRemotes (h : s.Tracks id entry type data) {calls : List (ℤ × RemoteOperation)}
    (hpositive : ∀ call ∈ calls, 0 < call.2.timestamp)
    (htyped : ∀ call ∈ calls, ∀ value timestamp, call.2 = .updated value timestamp →
      value.type = type) :
    ∃ data', (s.onRemotes id calls).Tracks id entry type data' ∧
      data'.register = data.register.applyAll (calls.map fun call => call.2.edit) := by
  induction calls generalizing s data with
  | nil => exact ⟨data, h, rfl⟩
  | cons call calls ih =>
      obtain ⟨hfirst, hothers⟩ := List.forall_mem_cons.mp hpositive
      obtain ⟨htypedFirst, htypedOthers⟩ := List.forall_mem_cons.mp htyped
      obtain ⟨next, hnext, hregister⟩ := h.onRemote call.1 hfirst htypedFirst
      obtain ⟨last, hlast, hregisters⟩ := ih hnext hothers htypedOthers
      exact ⟨last, hlast, by rw [hregisters, hregister]; rfl⟩

/-- The outcome of an entry is the content of its register. -/
theorem Tracks.outcome_eq (h : s.Tracks id entry type data) :
    s.outcome entry =
      some (data.register.content.isSome, data.register.content.getD Value.make) := by
  show (s.entries.get? entry).map _ = some (data.view.isSome, data.view.getD Value.make)
  rw [h.entry]
  cases hlive : data.hasValue with
  | true => simp [StorageEntry.view_of_live hlive, hlive]
  | false => simp [StorageEntry.view_of_dead hlive, hlive, h.sound.empty hlive]

/-- The outcome of calls is that of their edits. -/
theorem Tracks.outcome_onRemotes (h : s.Tracks id entry data.value.type data)
    {ops : List RemoteOperation} (hops : Concurrent data ops)
    {calls : List (ℤ × RemoteOperation)} (hcalls : (calls.map Prod.snd).Perm ops) :
    (s.onRemotes id calls).outcome entry =
      let content := (data.register.applyAll ((calls.map Prod.snd).map edit)).content
      some (content.isSome, content.getD Value.make) := by
  have hmem : ∀ call ∈ calls, call.2 ∈ ops := fun call hcall =>
    hcalls.mem_iff.mp (List.mem_map_of_mem hcall)
  obtain ⟨last, hlast, hregister⟩ := h.onRemotes
    (fun call hcall => hops.positive _ (hmem call hcall))
    (fun call hcall value timestamp hop =>
      (hops.typed value timestamp (hop ▸ hmem call hcall)).2)
  rw [hlast.outcome_eq, hregister, List.map_map]
  rfl

/-- Exactly the settled operations end in one outcome in every order. -/
theorem orderIndependent_iff_settled (history : List Operation) {id : EntryId} {entry : Handle}
    {data : StorageEntry} (hid : (run history).ids.find? id = some entry)
    (hentry : (run history).entries.get? entry = some data) (hlive : data.hasValue = true)
    {ops : List RemoteOperation} (hops : Concurrent data ops) :
    (run history).OrderIndependent id entry ops ↔ Settled ops := by
  have htracks : (run history).Tracks id entry data.value.type data :=
    ⟨hid, hentry, (coherent_run history).sound hentry, Or.inr rfl⟩
  have hcontent : data.register.content.isSome = true := by
    show data.view.isSome = true
    rw [StorageEntry.view_of_live hlive]
    rfl
  have hnodup : ((ops.map edit).map Edit.stamp).Nodup := by
    rw [List.map_map, show Edit.stamp ∘ edit = timestamp from funext stamp_edit]
    exact hops.distinct
  have hlater : ∀ e ∈ ops.map edit, data.register.stamp < e.stamp := by
    intro e he
    obtain ⟨op, hop, rfl⟩ := List.mem_map.mp he
    rw [stamp_edit]
    exact hops.newer op hop
  rw [← settled_edits_iff]
  constructor
  · intro hindependent
    by_contra hsettled
    obtain ⟨first, second, hfirst, hsecond, hnone, hsome⟩ :=
      Register.exists_orders_of_not_settled hnodup hlater hcontent hsettled
    -- the orders of the edits as orders of the operations
    have horder : ∀ {edits : List (Edit ℤ Value)}, edits.Perm (ops.map edit) →
        let calls := edits.map fun e => ((0 : ℤ), ofEdit e)
        (calls.map Prod.snd).Perm ops ∧ (calls.map Prod.snd).map edit = edits := by
      intro edits hedits
      have hback := hedits.map ofEdit
      rw [List.map_map, show ofEdit ∘ edit = fun op => op from funext ofEdit_edit,
        List.map_id'] at hback
      refine ⟨by rwa [List.map_map], ?_⟩
      rw [List.map_map, List.map_map]
      exact (List.map_congr_left fun e _ => edit_ofEdit e).trans (List.map_id _)
    have hsame := hindependent _ _ (horder hfirst).1 (horder hsecond).1
    rw [htracks.outcome_onRemotes hops (horder hfirst).1,
      htracks.outcome_onRemotes hops (horder hsecond).1, (horder hfirst).2,
      (horder hsecond).2, hnone] at hsame
    have hlives := (Prod.mk.inj (Option.some.inj hsame)).1
    rw [hsome] at hlives
    exact Bool.noConfusion hlives
  · intro hsettled first second hfirst hsecond
    rw [htracks.outcome_onRemotes hops hfirst, htracks.outcome_onRemotes hops hsecond]
    have hsame := Register.content_eq_of_settled (hfirst.map edit) (hsecond.map edit) hnodup
      hlater hcontent hsettled
    simp only [hsame]

/-- An update and a deletion of an entry that was created by the network. -/
theorem orderIndependent_two :
    (run [.onEntryCreated 1 0 [97] (Value.makeInt32 7) 1]).OrderIndependent 0 0
        [.updated (Value.makeInt32 8) 2, .deleted 3] ↔
      Settled [.updated (Value.makeInt32 8) 2, .deleted 3] :=
  have hentry : (run [.onEntryCreated 1 0 [97] (Value.makeInt32 7) 1]).entries.get? 0 =
      some ⟨0, [97], Value.makeInt32 7, 1, 0, false, false, false⟩ := by
    decide +kernel
  orderIndependent_iff_settled [.onEntryCreated 1 0 [97] (Value.makeInt32 7) 1]
    (by decide +kernel) hentry rfl ⟨by decide, by decide, by decide, by simp [Value.makeInt32]⟩

/-- Two deletions and an update between them: the newer deletion is dropped if it
finds the entry deleted, and the update goes through after it. -/
theorem not_orderIndependent_two_deletions :
    ¬ ∀ (history : List Operation) (id : EntryId) (entry : Handle) (data : StorageEntry)
        (ops : List RemoteOperation), (run history).ids.find? id = some entry →
      (run history).entries.get? entry = some data → data.hasValue = true →
        Concurrent data ops → (run history).OrderIndependent id entry ops := by
  intro hall
  have hindependent := hall [.onEntryCreated 1 0 [97] (Value.makeInt32 7) 1] 0 0
    ⟨0, [97], Value.makeInt32 7, 1, 0, false, false, false⟩
    [.deleted 2, .updated (Value.makeInt32 8) 3, .deleted 4]
    (by decide +kernel) (by decide +kernel) rfl
    ⟨by decide, by decide, by decide, by simp [Value.makeInt32]⟩
  have hsame := hindependent
    [(5, .deleted 2), (5, .updated (Value.makeInt32 8) 3), (5, .deleted 4)]
    [(5, .deleted 2), (5, .deleted 4), (5, .updated (Value.makeInt32 8) 3)]
    (by decide) (by decide)
  revert hsame
  decide +kernel

end Storage

end Obsr
