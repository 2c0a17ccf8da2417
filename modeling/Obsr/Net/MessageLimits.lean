/-
# Sizes of messages

What the value constructors and the storage accept, against what the serializer
writes into its buffer and the reader into its own. A message that does not fit
stays at the head of its queue for ever.
-/

import Obsr.Net.Client
import Obsr.Net.MessageRoundTrip
import Obsr.Net.Reader
import Obsr.Net.Server

namespace Obsr.Io.Construction

open Obsr.Lib

/-! ## Sizes -/

/-- The bytes of a value on the wire: a length where there is one, and the
elements. -/
def size : Construction → ℕ
  | make => 0
  | makeRaw bytes => 1 + bytes.length
  | makeString text => 1 + text.length
  | makeBoolean _ => 1
  | makeInt32 _ => 4
  | makeInt64 _ => 8
  | makeFloat _ => 4
  | makeDouble _ => 8
  | makeInt32Array numbers => 1 + 4 * numbers.length
  | makeInt64Array numbers => 1 + 8 * numbers.length
  | makeFloatArray bits => 1 + 8 * bits.length
  | makeDoubleArray bits => 1 + 8 * bits.length

theorem length_arrayBytes {α : Type} {encode : α → List UInt8} {width : ℕ}
    (hwidth : ∀ a, (encode a).length = width) (array : List α) :
    (arrayBytes encode array).length = 1 + width * array.length := by
  induction array with
  | nil => simp [arrayBytes]
  | cons a array ih =>
      simp only [arrayBytes, List.flatMap_cons, List.length_cons, List.length_append,
        hwidth] at ih ⊢
      rw [Nat.mul_succ]
      omega

@[simp]
theorem length_bytes (behind : Behind) (c : Construction) :
    (c.bytes behind).length = c.size := by
  cases c with
  | makeInt32Array numbers => exact length_arrayBytes (fun n => BigEndian.length_toBytes 4 _) _
  | makeInt64Array numbers => exact length_arrayBytes (fun n => BigEndian.length_toBytes 8 _) _
  | makeFloatArray bits =>
      have hlength := length_arrayBytes
        (fun n : Int64 => BigEndian.length_toBytes 8 n.toUInt64.toNat)
        (Value.int64sOfFloats behind bits)
      rwa [length_int64sOfFloats] at hlength
  | makeDoubleArray bits =>
      have hlength := length_arrayBytes
        (fun n : Int64 => BigEndian.length_toBytes 8 n.toUInt64.toNat)
        (bits.map UInt64.toInt64)
      rwa [List.length_map] at hlength
  | _ => simp [bytes, size, Nat.add_comm]

end Obsr.Io.Construction

namespace Obsr.Net

open Obsr.Io Obsr.Lib SymbolWriter

namespace OutMessage

/-- The bytes of the payload of a message with a value built by `c`. -/
def size (c : Construction) (message : OutMessage) : ℕ :=
  match message.type with
  | .entryCreate => 8 + (1 + message.name.length) + (1 + c.size)
  | .entryUpdate => 8 + 2 + (1 + c.size)
  | .entryDelete => 8 + 2
  | .entryIdAssign => 2 + (1 + message.name.length)
  | .timeSyncRequest => 8
  | .timeSyncResponse => 8 + 8
  | .handshakeReady | .handshakeFinished | .noType | .unknown _ => 0

theorem length_bytes (behind : Behind) (c : Construction) (message : OutMessage) :
    (message.bytes behind c).length = message.size c := by
  unfold bytes size
  cases message.type <;> simp <;> omega

end OutMessage

/-! ## Messages that can be sent -/

namespace OutMessage

open Serializer in
/-- No method of the serializer leaves its buffer. -/
theorem keepsSize_serializer {message : OutMessage} {behind : Behind} {serializer : Serialize}
    (h : message.serializer behind = some serializer) : SymbolWriter.KeepsSize serializer := by
  have htyped : SymbolWriter.KeepsSize (MessageSerializer.typedValue behind message.value) :=
    (keepsSize_writeBytes _).andThen (keepsSize_writeValue behind message.value)
  unfold OutMessage.serializer at h
  cases htype : message.type <;> rw [htype] at h <;> cases h
  case entryCreate =>
      exact (keepsSize_writeBytes _).andThen ((keepsSize_writeRaw _).andThen htyped)
  case entryUpdate =>
      exact (keepsSize_writeBytes _).andThen ((keepsSize_writeBytes _).andThen htyped)
  case entryDelete => exact (keepsSize_writeBytes _).andThen (keepsSize_writeBytes _)
  case entryIdAssign => exact (keepsSize_writeBytes _).andThen (keepsSize_writeRaw _)
  case timeSyncRequest => exact keepsSize_writeBytes _
  case timeSyncResponse => exact (keepsSize_writeBytes _).andThen (keepsSize_writeBytes _)
  case handshakeReady | handshakeFinished => exact SymbolWriter.writes_done.keepsSize

end OutMessage

namespace MessageQueue

/-- Whatever is handed over fits the reader. -/
theorem length_le_of_hands {behind : Behind} {message : OutMessage} {type : UInt8}
    {payload : List UInt8} (h : Hands behind message type payload) :
    payload.length ≤ ReadData.messageBufferSize := by
  obtain ⟨-, serializer, buffer, hserializer, hwrite, rfl⟩ := hands_iff.mp h
  have hlength := (OutMessage.keepsSize_serializer hserializer).length_le hwrite
  exact hlength.trans (by decide : 512 ≤ 1024)

/-- The destination takes whatever it is given. -/
def Accepts {δ : Type} (destination : Destination δ) : Prop :=
  ∀ type payload d, (destination type payload d).1 = true

/-- `write_message` succeeds with a destination that accepts, and what it hands
over fits the reader. -/
structure Sendable (message : OutMessage) : Prop where
  written : ∀ (behind : Behind) {δ : Type} (destination : Destination δ) (d : δ),
    Accepts destination → (writeMessage behind destination message d).1 = true
  fits : ∀ (behind : Behind) (type : UInt8) (payload : List UInt8),
    Hands behind message type payload → payload.length ≤ ReadData.messageBufferSize

theorem accepts_recording : Accepts recording := fun _ _ _ => rfl

/-- The name and the payload of a message keep to the limits of the serializer. -/
def WithinLimits (c : Construction) (message : OutMessage) : Prop :=
  message.NameFits ∧ message.size c ≤ MessageSerializer.writerBufferSize

theorem serializer_eq_none_iff {message : OutMessage} {c : Construction}
    (hbuild : c.build = .ok message.value) {behind : Behind} {serializer : Serialize}
    (hserializer : message.serializer behind = some serializer) :
    serializer (BoundedBuffer.empty MessageSerializer.writerBufferSize) = none ↔
      ¬ WithinLimits c message := by
  by_cases hname : message.NameFits
  · have hwrites := OutMessage.writes_serializer hserializer hname hbuild
    rw [hwrites.eq_none_iff, OutMessage.length_bytes, WithinLimits, and_iff_right hname,
      Nat.not_le]
  · have hrefuses := OutMessage.refuses_serializer hserializer hname
    exact iff_of_true (hrefuses _) fun hlimits => hname hlimits.1

theorem withinLimits_of_serializer_eq_none {message : OutMessage} {behind : Behind}
    (h : message.serializer behind = none) (c : Construction) : WithinLimits c message := by
  unfold OutMessage.serializer at h
  unfold WithinLimits OutMessage.NameFits OutMessage.size
  cases htype : message.type <;> rw [htype] at h <;> simp at h ⊢

theorem sendable_iff {message : OutMessage} {c : Construction}
    (hbuild : c.build = .ok message.value) : Sendable message ↔ WithinLimits c message := by
  constructor
  · intro hsendable
    cases hserializer : message.serializer (fun _ => 0) with
    | none => exact withinLimits_of_serializer_eq_none hserializer c
    | some serializer =>
        by_contra hlimits
        have hfails := (serializer_eq_none_iff hbuild hserializer).mpr hlimits
        have hwritten := hsendable.written (fun _ => 0) recording [] accepts_recording
        simp [writeMessage, hserializer, hfails] at hwritten
  · intro hlimits
    constructor
    · intro behind δ destination d haccepts
      unfold writeMessage
      cases hserializer : message.serializer behind with
      | none => rfl
      | some serializer =>
          cases hwrite : serializer (BoundedBuffer.empty MessageSerializer.writerBufferSize) with
          | none => exact absurd hlimits ((serializer_eq_none_iff hbuild hserializer).mp hwrite)
          | some buffer =>
              simp only [hwrite]
              exact haccepts _ _ _
    · exact fun behind type payload hhands => length_le_of_hands hhands

/-- An accepting destination empties a queue of messages that can be sent. -/
theorem process_of_sendable {δ : Type} {behind : Behind} {destination : Destination δ}
    (haccepts : Accepts destination) {queue : MessageQueue}
    (hqueue : ∀ message ∈ queue, Sendable message) (d : δ) :
    (queue.process (writeMessage behind destination) d).1 = [] := by
  induction queue generalizing d with
  | nil => rfl
  | cons message queue ih =>
      have hwritten := (hqueue message List.mem_cons_self).written behind destination d haccepts
      rcases hresult : writeMessage behind destination message d with ⟨written, after⟩
      rw [hresult] at hwritten
      obtain rfl : written = true := hwritten
      simp only [process, hresult]
      exact ih (fun other hother => hqueue other (List.mem_cons_of_mem _ hother)) after

end MessageQueue

/-! ## The messages of an entry -/

/-- The messages the two passes over the dirty entries enqueue for an entry. -/
inductive EnqueuedFor (entry : StorageEntry) : OutMessage → Prop
  | client (now : ℤ) : EnqueuedFor entry (NetworkClient.entryMessage now entry)
  | server (now : ℤ) (s : NetworkServer) (id : ClientId) {client client' : ServerClient}
      {added : List OutMessage} {message : OutMessage}
      (hbefore : s.clients.find? id = some client)
      (hafter : (NetworkServer.publishDirty now entry s).2.clients.find? id = some client')
      (hadded : client'.queue = client.queue ++ added) (hmessage : message ∈ added) :
      EnqueuedFor entry message

/-- A storage can hold a dirty entry with this path and value, for which the
message is enqueued. -/
def HeldFor (path : Text) (value : Value) (message : OutMessage) : Prop :=
  ∃ (ops : List Storage.Operation) (handle : Handle) (entry : StorageEntry),
    (Storage.run ops).entries.get? handle = some entry ∧ entry.dirty = true ∧
      entry.path = path ∧ entry.value = value ∧ EnqueuedFor entry message

/-- Every message for a path and a value can be sent, and no queue of them gets
stuck. -/
structure SizesAgree (path : Text) (value : Value) : Prop where
  sendable : ∀ message, HeldFor path value message → MessageQueue.Sendable message
  drains : ∀ (queue : MessageQueue), (∀ message ∈ queue, HeldFor path value message) →
    ∀ (behind : Behind) {δ : Type} (destination : MessageQueue.Destination δ) (d : δ),
      MessageQueue.Accepts destination →
        (queue.process (MessageQueue.writeMessage behind destination) d).1 = []

/-- The path and the value fit a create, and the value fits an update. -/
structure SizesFit (path : Text) (c : Construction) : Prop where
  name : path.length < 255
  create : 8 + (1 + path.length) + (1 + c.size) ≤ MessageSerializer.writerBufferSize
  update : 8 + 2 + (1 + c.size) ≤ MessageSerializer.writerBufferSize

theorem enqueuedFor_cases {entry : StorageEntry} {message : OutMessage}
    (h : EnqueuedFor entry message) :
    (∃ now, message = .entryCreate now entry.path entry.value) ∨
      (∃ now id, message = .entryUpdate now id entry.value) ∨
      (∃ now id, message = .entryDeleted now id) ∨
      (∃ id, message = .entryIdAssign id entry.path) := by
  cases h with
  | client now =>
      unfold NetworkClient.entryMessage
      split_ifs
      · exact Or.inl ⟨_, rfl⟩
      · exact Or.inr (Or.inr (Or.inl ⟨_, _, rfl⟩))
      · exact Or.inr (Or.inl ⟨_, _, rfl⟩)
  | @server now s id client client' added message hbefore hafter hadded hmessage =>
      have hcases : ∀ id, message = NetworkServer.entryMessage now entry id →
          (∃ now id, message = .entryUpdate now id entry.value) ∨
            (∃ now id, message = .entryDeleted now id) := by
        intro id hentry
        unfold NetworkServer.entryMessage at hentry
        split_ifs at hentry
        · exact Or.inr ⟨_, _, hentry⟩
        · exact Or.inl ⟨_, _, hentry⟩
      have hclients : (s.idForEntry entry).1.clients = s.clients := by
        unfold NetworkServer.idForEntry NetworkServer.assignIdToEntry
        split_ifs <;> rfl
      simp only [NetworkServer.publishDirty, OrderedMap.find?_mapValues, hclients, hbefore,
        Option.map_some, Option.some.injEq] at hafter
      subst hafter
      split_ifs at hadded with hknown
      · obtain rfl : [NetworkServer.entryMessage now entry (s.idForEntry entry).2] = added :=
          List.append_cancel_left hadded
        rcases hcases _ (List.mem_singleton.mp hmessage) with hupdate | hdelete
        · exact Or.inr (Or.inl hupdate)
        · exact Or.inr (Or.inr (Or.inl hdelete))
      · have hqueue : client.queue ++
            [.entryIdAssign (s.idForEntry entry).2 entry.path,
              NetworkServer.entryMessage now entry (s.idForEntry entry).2] =
            client.queue ++ added := by
          rw [← hadded]
          simp [ServerClient.enqueue, ServerClient.publish, MessageQueue.enqueue]
        obtain rfl := List.append_cancel_left hqueue
        rcases List.mem_cons.mp hmessage with hassign | hentry
        · exact Or.inr (Or.inr (Or.inr ⟨_, hassign⟩))
        · rcases hcases _ (List.mem_singleton.mp hentry) with hupdate | hdelete
          · exact Or.inr (Or.inl hupdate)
          · exact Or.inr (Or.inr (Or.inl hdelete))

theorem sendable_of_sizesFit {path : Text} {c : Construction} {value : Value}
    (hbuild : c.build = .ok value) (hfit : SizesFit path c) {message : OutMessage}
    (h : HeldFor path value message) : MessageQueue.Sendable message := by
  obtain ⟨-, -, entry, -, -, rfl, rfl, henqueued⟩ := h
  have hmake : Construction.make.build = .ok Value.make := rfl
  rcases enqueuedFor_cases henqueued with
    ⟨now, rfl⟩ | ⟨now, id, rfl⟩ | ⟨now, id, rfl⟩ | ⟨id, rfl⟩
  · exact (MessageQueue.sendable_iff (c := c) hbuild).mpr ⟨fun _ => hfit.name, hfit.create⟩
  · exact (MessageQueue.sendable_iff (c := c) hbuild).mpr
      ⟨fun htype => by simp [OutMessage.entryUpdate] at htype, hfit.update⟩
  · exact (MessageQueue.sendable_iff (c := .make) hmake).mpr
      ⟨fun htype => by simp [OutMessage.entryDeleted] at htype, by
        show 8 + 2 ≤ 512
        decide⟩
  · refine (MessageQueue.sendable_iff (c := .make) hmake).mpr ⟨fun _ => hfit.name, ?_⟩
    have hname := hfit.name
    show 2 + (1 + entry.path.length) ≤ 512
    omega

/-! ## Every path and value can be held -/

open Storage in
/-- A run that ends with a dirty entry of any path and value, without an id. -/
theorem exists_held (path : Text) (value : Value) :
    ∃ (handle : Handle) (entry : StorageEntry),
      (Storage.run [.getOrCreateEntry path, .setEntryValue 1 handle value]).entries.get?
          handle = some entry ∧
        (Storage.run [.getOrCreateEntry path, .setEntryValue 1 handle value]).paths.find?
          path = some handle ∧
        entry.dirty = true ∧ entry.hasValue = true ∧ entry.path = path ∧
        entry.value = value ∧ entry.netId = idNotAssigned := by
  obtain ⟨handle, s, hcreate⟩ :=
    createNewEntry_of_hasSpace (s := new) ⟨0, rfl⟩ path
  have hcreates := createNewEntry_eq_ok hcreate
  have hget : new.perform (.getOrCreateEntry path) = s := by
    show (new.getOrCreateEntry path).1 = s
    unfold getOrCreateEntry
    rw [show new.paths.find? path = none from rfl]
    simp only [hcreate]
  have hghost : s.entries.get? handle = some { handle, path, created := true } := by
    rw [hcreates.entries, if_pos rfl]
  have hstale : StorageEntry.isStale { handle, path, created := true } 0 = false := by
    simp [StorageEntry.isStale]
  have hfits : false = false → StorageEntry.Fits { handle, path, created := true } value :=
    fun _ => Or.inl rfl
  have hset := (StorageEntry.set_of_fits hstale hfits 1 idNotAssigned true).1
  have hrun : Storage.run [.getOrCreateEntry path, .setEntryValue 1 handle value] =
      (s.setEntryInternal 1 handle value false idNotAssigned true 0).1 := by
    show (new.perform (.getOrCreateEntry path)).perform (.setEntryValue 1 handle value) = _
    rw [hget]
    rfl
  refine ⟨handle, ?_⟩
  rw [hrun, setEntryInternal_of_some hghost]
  refine ⟨_, get?_store_self s hghost _ _, ?_, ?_⟩
  · rw [paths_store, hcreates.paths, OrderedMap.find?_emplace_self]
    rfl
  · rw [hset]
    exact ⟨rfl, rfl, rfl, rfl, rfl⟩

theorem heldFor_entryCreate (path : Text) (value : Value) :
    HeldFor path value (.entryCreate 2 path value) := by
  obtain ⟨handle, entry, hentry, -, hdirty, -, hpath, hvalue, hid⟩ := exists_held path value
  refine ⟨_, handle, entry, hentry, hdirty, hpath, hvalue, ?_⟩
  have hmessage : NetworkClient.entryMessage 2 entry = .entryCreate 2 path value := by
    rw [NetworkClient.entryMessage, if_pos hid, hpath, hvalue]
  exact hmessage ▸ EnqueuedFor.client 2

open Storage in
theorem heldFor_entryUpdate (path : Text) (value : Value) :
    ∃ time, HeldFor path value (.entryUpdate time 0 value) := by
  obtain ⟨handle, entry, hentry, hfind, hdirty, hlive, hpath, hvalue, -⟩ :=
    exists_held path value
  have hassigned : (Storage.run ([.getOrCreateEntry path, .setEntryValue 1 handle value] ++
      [.onEntryIdAssigned 0 path])).entries.get? handle = some { entry with netId := 0 } := by
    rw [Storage.run, List.foldl_append]
    show ((Storage.run _).onEntryIdAssigned 0 path).1.entries.get? handle = _
    unfold onEntryIdAssigned findOrCreate
    simp only [hfind, hentry]
    exact HandleTable.get?_modify_self _ _ hentry
  refine ⟨entry.lastUpdateTimestamp, _, handle, _, hassigned, hdirty, hpath, hvalue, ?_⟩
  have hdeleted : entry.deleted = false := by
    revert hlive
    unfold StorageEntry.hasValue
    cases entry.deleted <;> simp
  have hmessage : NetworkClient.entryMessage 2 { entry with netId := 0 } =
      .entryUpdate entry.lastUpdateTimestamp 0 value := by
    unfold NetworkClient.entryMessage
    have hid : ¬ (0 : EntryId) = idNotAssigned := by decide
    rw [if_neg hid, if_neg (by simp [hdeleted]), hvalue]
  exact hmessage ▸ EnqueuedFor.client 2

/-! ## The limits agree exactly for what fits -/

/-- Everything the program accepts of an entry goes through its serializer and its queue
exactly if the path and the value fit the buffer of the serializer. -/
theorem sizesAgree_iff_sizesFit (path : Text) {c : Construction} {value : Value}
    (hbuild : c.build = .ok value) : SizesAgree path value ↔ SizesFit path c := by
  constructor
  · intro hagree
    have hcreate := (MessageQueue.sendable_iff (c := c) hbuild).mp
      (hagree.sendable _ (heldFor_entryCreate path value))
    obtain ⟨time, hheld⟩ := heldFor_entryUpdate path value
    have hupdate := (MessageQueue.sendable_iff (c := c) hbuild).mp (hagree.sendable _ hheld)
    exact ⟨hcreate.1 (Or.inl rfl), hcreate.2, hupdate.2⟩
  · intro hfit
    refine ⟨fun message hheld => sendable_of_sizesFit hbuild hfit hheld, ?_⟩
    intro queue hqueue behind δ destination d haccepts
    exact MessageQueue.process_of_sendable haccepts
      (fun message hmessage => sendable_of_sizesFit hbuild hfit (hqueue message hmessage)) d

/-- A path of two letters with a string of one letter. -/
theorem sizesAgree_shortString :
    SizesAgree [47, 120] ⟨.string, .string [97]⟩ ↔ SizesFit [47, 120] (.makeString [97]) :=
  sizesAgree_iff_sizesFit [47, 120] rfl

/-- An array of a hundred 64-bit numbers, which its constructor accepts. -/
theorem not_sizesAgree_hundred :
    ¬ ∀ (path : Text) (c : Construction) (value : Value), c.build = .ok value →
      SizesAgree path value := by
  intro hall
  have hlength : (List.replicate 100 (0 : Int64)).length < 255 := by decide
  have hbuild : (Construction.makeInt64Array (List.replicate 100 0)).build =
      .ok ⟨.integer64Array, .integer64Array (List.replicate 100 0)⟩ :=
    Construction.ofArray_of_lt _ _ hlength
  have hagree := hall [47, 120] _ _ hbuild
  have hlimits := (MessageQueue.sendable_iff hbuild).mp
    (hagree.sendable _ (heldFor_entryCreate [47, 120] _))
  exact absurd hlimits.2 (by decide)

end Obsr.Net
