/-
# What the server tells every client

A client that has completed its handshake should have been told every id the
server has assigned. The handshake tells it the ids assigned before, the creates
and the dirty entries those assigned after. What is left out is the client whose
own `entry_create` made the server assign the id.
-/

import Obsr.Net.ServerAnnounce

namespace Obsr.Net

open Obsr.Lib

namespace ServerClient

/-! ## The record of one client -/

def Told (sent : List Sent) (id : EntryId) (path : Text) : Prop :=
  ∃ m ∈ sent, m.message = .entryIdAssign id path

/-- A client in use was told every assigned id. -/
def Informed (assignments : OrderedMap EntryId Text) (c : ServerClient) : Prop :=
  c.state = .inUse → ∀ id path, assignments.find? id = some path → Told c.sent id path

theorem told_concat (sent : List Sent) (m : Sent) (id : EntryId) (path : Text) :
    Told (sent ++ [m]) id path ↔ Told sent id path ∨ m.message = .entryIdAssign id path := by
  simp [Told, or_and_right, exists_or]

variable {c : ServerClient} {mapped : Option Text} {message : OutMessage}
variable {assignments : OrderedMap EntryId Text} {id : EntryId} {path : Text}

theorem entryIdAssign_inj {id other : EntryId} {path name : Text} :
    OutMessage.entryIdAssign id path = OutMessage.entryIdAssign other name ↔
      id = other ∧ path = name := by
  simp [OutMessage.entryIdAssign]

theorem told_enqueue (hmessage : message.type ≠ .entryIdAssign) :
    Told (c.enqueue mapped message).sent id path ↔ Told c.sent id path := by
  show Told (c.sent ++ [_]) id path ↔ _
  rw [told_concat, or_iff_left]
  rintro rfl
  exact hmessage rfl

theorem told_publish (other : EntryId) (name : Text) :
    Told (c.publish mapped other name).sent id path ↔
      Told c.sent id path ∨ (other = id ∧ name = path) := by
  show Told (c.sent ++ [_]) id path ↔ _
  rw [told_concat, entryIdAssign_inj]

/-- Telling a client more keeps it informed. -/
theorem Informed.of_sent (h : c.Informed assignments) {c' : ServerClient}
    (hstate : c'.state = c.state) (hsent : c.sent <+: c'.sent) : c'.Informed assignments := by
  intro huse id path hassigned
  obtain ⟨m, hm, hmessage⟩ := h (hstate.symm.trans huse) id path hassigned
  exact ⟨m, hsent.subset hm, hmessage⟩

theorem Informed.enqueue (h : c.Informed assignments) :
    (c.enqueue mapped message).Informed assignments :=
  h.of_sent rfl (List.prefix_append ..)

theorem Informed.publish (h : c.Informed assignments) (id : EntryId) (name : Text) :
    (c.publish mapped id name).Informed assignments :=
  h.of_sent rfl (List.prefix_append ..)

/-- With one more id assigned, the client has to be told that one too. -/
theorem informed_emplace_iff (id : EntryId) (name : Text) :
    c.Informed (assignments.emplace id name) ↔
      c.Informed assignments ∧
        (c.state = .inUse → assignments.find? id = none → Told c.sent id name) := by
  constructor
  · intro h
    refine ⟨fun huse other path hassigned => ?_, fun huse hnew => h huse id name ?_⟩
    · exact h huse other path (OrderedMap.find?_emplace_of_some hassigned)
    · rw [OrderedMap.find?_emplace_self, hnew]
      rfl
  · rintro ⟨h, hnew⟩ huse other path hassigned
    rw [OrderedMap.find?_emplace] at hassigned
    split_ifs at hassigned with hother
    · subst hother
      cases hold : assignments.find? other with
      | none =>
          rw [hold] at hassigned
          obtain rfl := Option.some.inj hassigned
          exact hnew huse hold
      | some present =>
          rw [hold] at hassigned
          obtain rfl := Option.some.inj hassigned
          exact h huse other _ hold
    · exact h huse other path hassigned

/-- A client that is told a number for the path of a new id, and a value. -/
theorem informed_publish_enqueue_emplace_iff (h : c.Informed assignments) (number : EntryId)
    {other : Option Text} (name : Text) (hmessage : message.type ≠ .entryIdAssign) :
    ((c.publish mapped number name).enqueue other message).Informed
        (assignments.emplace id name) ↔
      (c.state = .inUse → assignments.find? id = none → number = id ∨ Told c.sent id name) := by
  rw [informed_emplace_iff, and_iff_right (h.publish number name).enqueue, told_enqueue hmessage,
    told_publish, or_comm, and_iff_left rfl]
  exact Iff.rfl

/-! ## The handshake -/

theorem told_publishAssignment (storage : Storage) (now : ℤ) (assignment : EntryId × Text) :
    Told (NetworkServer.publishAssignment storage now c assignment).sent id path ↔
      Told c.sent id path ∨ (assignment = (id, path) ∧ c.isKnown id = false) := by
  unfold NetworkServer.publishAssignment
  cases hknown : c.isKnown assignment.1 with
  | true =>
      rw [if_pos rfl, or_iff_left]
      rintro ⟨rfl, hunknown⟩
      rw [hknown] at hunknown
      cases hunknown
  | false =>
      have hpublish : Told (c.publish (storage.pathOfId assignment.1) assignment.1
          assignment.2).sent id path ↔
            Told c.sent id path ∨ (assignment = (id, path) ∧ c.isKnown id = false) := by
        rw [told_publish, Prod.ext_iff]
        refine or_congr_right (and_iff_left_of_imp ?_).symm
        rintro ⟨rfl, -⟩
        exact hknown
      rw [if_neg (by simp)]
      cases storage.getEntryValueFromId assignment.1 with
      | none => exact hpublish
      | some value => exact (told_enqueue (by simp [OutMessage.entryUpdate])).trans hpublish

/-- The loop of the handshake tells the client the ids it does not know. -/
theorem told_handshake (storage : Storage) (now : ℤ) {assignments : List (EntryId × Text)}
    (hkeys : assignments.Pairwise fun first second => first.1 < second.1) :
    Told (assignments.foldl (NetworkServer.publishAssignment storage now) c).sent id path ↔
      Told c.sent id path ∨ ((id, path) ∈ assignments ∧ c.isKnown id = false) := by
  induction assignments generalizing c with
  | nil => simp
  | cons first rest ih =>
      obtain ⟨hfirst, hrest⟩ := List.pairwise_cons.mp hkeys
      rw [List.foldl_cons, ih hrest, told_publishAssignment, or_assoc, List.mem_cons,
        or_and_right, eq_comm]
      refine or_congr_right (or_congr_right (and_congr_right fun hmem => ?_))
      rw [isKnown_publishAssignment storage now first (hfirst _ hmem).ne']

end ServerClient

namespace NetworkServer

variable {s : NetworkServer}

/-! ## The steps that tell -/

/-- Every client in use was told every assigned id, under its path. -/
def Informs (s : NetworkServer) : Prop :=
  ∀ id client, s.clients.find? id = some client → client.Informed s.idAssignments

/-- An id that a create has assigned is told to another client in use if it is the
number of this client and the storage takes the path, and not to the sender. -/
def CreateInforms (s : NetworkServer) (sender : ClientId) (data : ParseData) : Prop :=
  data.id = idNotAssigned → s.idAssignments.find? s.nextEntryId = none →
    ∀ id client, s.clients.find? id = some client → client.state = .inUse →
      (id ≠ sender ∧ id = s.nextEntryId ∧ s.storage.HasRoom data.name) ∨
        ServerClient.Told client.sent s.nextEntryId data.name

def MessageInforms (s : NetworkServer) (sender : ClientId) (type : MessageType)
    (data : ParseData) : Prop :=
  match type with
  | .entryCreate => s.CreateInforms sender data
  | .handshakeReady =>
      ∀ client, s.clients.find? sender = some client →
        ∀ assignment ∈ s.idAssignments.entries, client.isKnown assignment.1 = true →
          ServerClient.Told client.sent assignment.1 assignment.2
  | _ => True

/-- An id that a dirty entry gets is not yet known to the clients in use, or they
were told it for the entry. -/
def DirtyInforms (entry : StorageEntry) (s : NetworkServer) : Prop :=
  entry.netId = idNotAssigned → s.idAssignments.find? s.nextEntryId = none →
    ∀ id client, s.clients.find? id = some client → client.state = .inUse →
      client.isKnown s.nextEntryId = true →
        ServerClient.Told client.sent s.nextEntryId entry.path

/-- The step tells the clients in use what it assigns. -/
def InformsStep (s : NetworkServer) : Input → Prop
  | .message _ sender type payload _ =>
      let parser := s.parser.parse (MessageType.ofByte type) payload
      parser.isFinished = true →
        s.MessageInforms sender (MessageType.ofByte type) parser.data
  | .update now _ _ =>
      s.state = .inUse → s.clients.entries.isEmpty = false →
        Storage.ActsMeet storage withStorage (publishDirty now) DirtyInforms s
  | _ => True

/-! ## Messages -/

theorem Informs.withStorage (hs : s.Informs) (storage : Storage) :
    (s.withStorage storage).Informs := hs

theorem Informs.createEntry (hs : s.Informs) (now : ℤ) (sender : ClientId) (id : EntryId)
    (data : ParseData) : (s.createEntry now sender id data).Informs := by
  apply (OrderedMap.forall_mapValues_iff _ _ (ServerClient.Informed s.idAssignments)).mpr
  intro other client hclient
  have hinformed := hs other client hclient
  split_ifs
  · exact hinformed
  · exact (hinformed.publish other data.name).enqueue

theorem Informs.enqueueMessageForClients (hs : s.Informs) (message : OutMessage)
    (sender : ClientId) : (s.enqueueMessageForClients message sender).Informs := by
  apply (OrderedMap.forall_mapValues_iff _ _ (ServerClient.Informed s.idAssignments)).mpr
  intro other client hclient
  have hinformed := hs other client hclient
  split_ifs
  · exact hinformed
  · exact hinformed.enqueue

theorem Informs.enqueueMessageForClient (hs : s.Informs) (id : ClientId)
    (message : OutMessage) (written : Bool) :
    (s.enqueueMessageForClient id message written).Informs := by
  apply (OrderedMap.forall_modify_iff _ _ _ (ServerClient.Informed s.idAssignments)).mpr
  intro other client hclient
  have hinformed := hs other client hclient
  split_ifs
  · exact hinformed.of_sent rfl (List.prefix_append ..)
  · exact hinformed

/-- A create that assigns the next id informs the clients exactly if this is the number
of every other client, and the sender was told before. -/
theorem informs_onEntryCreate_iff (h : s.storage.Coherent) (hs : s.Informs) (now : ℤ)
    (sender : ClientId) (data : ParseData) :
    (s.onEntryCreate now sender data).Informs ↔ s.CreateInforms sender data := by
  unfold NetworkServer.onEntryCreate CreateInforms
  split_ifs with hid
  · rw [forall_prop_of_true hid]
    by_cases hroom : s.storage.HasRoom data.name
    · obtain ⟨storage, hassign, -⟩ := assignIdToEntry_of_hasRoom h hroom
      simp only [hassign]
      refine (OrderedMap.forall_mapValues_iff s.clients _ (ServerClient.Informed
        (s.idAssignments.emplace s.nextEntryId data.name))).trans ?_
      constructor
      · intro hall hnew id client hclient huse
        have hinformed := hall id client hclient
        by_cases hsender : id = sender
        · rw [if_pos hsender] at hinformed
          exact Or.inr (((ServerClient.informed_emplace_iff _ _).mp hinformed).2 huse hnew)
        · rw [if_neg hsender] at hinformed
          have htold := (ServerClient.informed_publish_enqueue_emplace_iff (hs id client hclient)
            id data.name (by simp [OutMessage.entryUpdate])).mp hinformed huse hnew
          exact htold.imp_left fun hnumber => ⟨hsender, hnumber, hroom⟩
      · intro hcond id client hclient
        have hinformed := hs id client hclient
        split_ifs with hsender
        · apply (ServerClient.informed_emplace_iff _ _).mpr
          refine ⟨hinformed, fun huse hnew => ?_⟩
          exact (hcond hnew id client hclient huse).resolve_left fun hother => hother.1 hsender
        · apply (ServerClient.informed_publish_enqueue_emplace_iff hinformed id data.name
            (by simp [OutMessage.entryUpdate])).mpr
          intro huse hnew
          exact (hcond hnew id client hclient huse).imp_left fun hother => hother.2.1
    · simp only [assignIdToEntry_of_not_hasRoom hroom]
      constructor
      · intro hall hnew id client hclient huse
        have hinformed := (ServerClient.informed_emplace_iff _ _).mp (hall id client hclient)
        exact Or.inr (hinformed.2 huse hnew)
      · intro hcond id client hclient
        apply (ServerClient.informed_emplace_iff _ _).mpr
        refine ⟨hs id client hclient, fun huse hnew => ?_⟩
        exact (hcond hnew id client hclient huse).resolve_left fun hother => hroom hother.2.2
  · exact iff_of_true (hs.createEntry now sender data.id data) (fun heq => absurd heq hid)

/-- A handshake tells a client everything but the ids it is believed to know. -/
theorem informs_handleDoHandshakeForClient_iff (hs : s.Informs) (now : ℤ)
    (sender : ClientId) :
    (s.handleDoHandshakeForClient now sender).Informs ↔
      ∀ client, s.clients.find? sender = some client →
        ∀ assignment ∈ s.idAssignments.entries, client.isKnown assignment.1 = true →
          ServerClient.Told client.sent assignment.1 assignment.2 := by
  refine (OrderedMap.forall_modify_iff s.clients _ _
    (ServerClient.Informed s.idAssignments)).trans ?_
  have hloop : ∀ (client : ServerClient) (id : EntryId) (path : Text),
      ServerClient.Told (((s.idAssignments.entries.foldl (publishAssignment s.storage now)
          client).enqueue (s.storage.pathOfId 0) .handshakeFinished).setState .inUse).sent id
          path ↔
        ServerClient.Told client.sent id path ∨
          (s.idAssignments.find? id = some path ∧ client.isKnown id = false) := by
    intro client id path
    refine (ServerClient.told_enqueue (by simp [OutMessage.handshakeFinished])).trans ?_
    rw [ServerClient.told_handshake s.storage now s.idAssignments.sorted,
      s.idAssignments.mem_entries_iff]
  constructor
  · rintro hall client hclient ⟨id, path⟩ hassigned hknown
    have hinformed := hall sender client hclient
    rw [if_pos rfl] at hinformed
    have hfind := (s.idAssignments.mem_entries_iff id path).mp hassigned
    apply ((hloop client id path).mp (hinformed rfl id path hfind)).resolve_right
    rintro ⟨-, hunknown⟩
    rw [hknown] at hunknown
    cases hunknown
  · intro hcond id client hclient
    split_ifs with hid
    · subst hid
      intro _ other path hfind
      apply (hloop client other path).mpr
      cases hknown : client.isKnown other with
      | false => exact Or.inr ⟨hfind, rfl⟩
      | true =>
          have hassigned := (s.idAssignments.mem_entries_iff other path).mpr hfind
          exact Or.inl (hcond client hclient (other, path) hassigned hknown)
    · exact hs id client hclient

theorem informs_handle_iff (h : s.storage.Coherent) (hs : s.Informs) (now : ℤ)
    (sender : ClientId) (type : MessageType) (data : ParseData) (written : Bool) :
    (s.handle now sender type data written).Informs ↔ s.MessageInforms sender type data := by
  cases type with
  | entryCreate => exact informs_onEntryCreate_iff h hs now sender data
  | handshakeReady => exact informs_handleDoHandshakeForClient_iff hs now sender
  | entryUpdate =>
      refine iff_of_true ?_ trivial
      exact (hs.withStorage _).enqueueMessageForClients _ sender
  | entryDelete =>
      refine iff_of_true ?_ trivial
      exact (hs.withStorage _).enqueueMessageForClients _ sender
  | timeSyncRequest => exact iff_of_true (hs.enqueueMessageForClient sender _ written) trivial
  | _ => exact iff_of_true hs trivial

theorem informs_onMessage_iff (h : s.storage.Coherent) (hs : s.Informs) (now : ℤ)
    (sender : ClientId) (type : UInt8) (payload : List UInt8) (written : Bool) :
    (s.onMessage now sender type payload written).Informs ↔
      s.InformsStep (.message now sender type payload written) := by
  unfold NetworkServer.onMessage InformsStep
  simp only
  split_ifs with hfinished
  · rw [informs_handle_iff
      (s := { s with parser := s.parser.parse (MessageType.ofByte type) payload }) h hs]
    exact ⟨fun hall _ => hall, fun hall => hall hfinished⟩
  · exact iff_of_true hs (fun hyes => absurd hyes hfinished)

/-! ## Update ticks -/

/-- A client in use that is believed to know an assigned id and was not told it.
Nothing will tell it. -/
def MissesOut (s : NetworkServer) : Prop :=
  ∃ id client other path, s.clients.find? id = some client ∧ client.state = .inUse ∧
    s.idAssignments.find? other = some path ∧ client.isKnown other = true ∧
      ¬ ServerClient.Told client.sent other path

theorem MissesOut.not_informs (h : s.MissesOut) : ¬ s.Informs := by
  obtain ⟨id, client, other, path, hclient, huse, hassigned, -, htold⟩ := h
  exact fun hs => htold (hs id client hclient huse other path hassigned)

theorem idAssignments_publishDirty (now : ℤ) (entry : StorageEntry) :
    (publishDirty now entry s).2.idAssignments =
      if entry.netId = idNotAssigned then s.idAssignments.emplace s.nextEntryId entry.path
      else s.idAssignments := by
  show (s.idForEntry entry).1.idAssignments = _
  unfold idForEntry
  split_ifs <;> rfl

/-- What a dirty entry does to one client. -/
theorem told_publishDirty_client (mapped : Option Text) (now : ℤ) (entry : StorageEntry)
    (client : ServerClient) (id other : EntryId) (path : Text) :
    ServerClient.Told ((if client.isKnown id then client
        else client.publish mapped id entry.path).enqueue mapped
          (entryMessage now entry id)).sent other path ↔
      ServerClient.Told client.sent other path ∨
        (client.isKnown id = false ∧ id = other ∧ entry.path = path) := by
  have hmessage : (entryMessage now entry id).type ≠ .entryIdAssign := by
    unfold entryMessage
    split_ifs <;> simp [OutMessage.entryDeleted, OutMessage.entryUpdate]
  rw [ServerClient.told_enqueue hmessage]
  cases client.isKnown id with
  | true => simp
  | false => simp [ServerClient.told_publish]

theorem publishDirty_client (mapped : Option Text) (id : EntryId) (path : Text)
    (message : OutMessage) (client : ServerClient) :
    let told := (if client.isKnown id then client else client.publish mapped id path).enqueue
      mapped message
    told.state = client.state ∧ client.sent <+: told.sent ∧
      ∀ other, client.isKnown other = true → told.isKnown other = true := by
  simp only
  split_ifs
  · exact ⟨rfl, List.prefix_append .., fun _ hknown => hknown⟩
  · refine ⟨rfl, (List.prefix_append _ _).trans (List.prefix_append _ _), fun other hknown => ?_⟩
    simp only [ServerClient.isKnown, decide_eq_true_iff] at hknown ⊢
    exact Finset.mem_insert_of_mem hknown

theorem informs_publishDirty_iff (hs : s.Informs) (now : ℤ) (entry : StorageEntry) :
    (publishDirty now entry s).2.Informs ↔ DirtyInforms entry s := by
  unfold Informs
  rw [clients_publishDirty, idAssignments_publishDirty]
  refine (OrderedMap.forall_mapValues_iff _ _ (ServerClient.Informed _)).trans ?_
  unfold DirtyInforms idForEntry
  split_ifs with hid
  · simp only [forall_prop_of_true hid]
    have hclient : ∀ id client, s.clients.find? id = some client → _ :=
      fun id client hclient => publishDirty_client
        ((s.assignIdToEntry entry.path).1.storage.pathOfId s.nextEntryId) s.nextEntryId
        entry.path (entryMessage now entry s.nextEntryId) client
    constructor
    · intro hall hnew id client hfind huse hknown
      obtain ⟨hstate, -, -⟩ := hclient id client hfind
      have hinformed := ((ServerClient.informed_emplace_iff _ _).mp (hall id client hfind)).2
        (hstate.trans huse) hnew
      apply ((told_publishDirty_client ..).mp hinformed).resolve_right
      rintro ⟨hunknown, -⟩
      rw [hknown] at hunknown
      cases hunknown
    · intro hcond id client hfind
      obtain ⟨hstate, hsent, -⟩ := hclient id client hfind
      apply (ServerClient.informed_emplace_iff _ _).mpr
      refine ⟨(hs id client hfind).of_sent hstate hsent, fun huse hnew => ?_⟩
      apply (told_publishDirty_client ..).mpr
      cases hknown : client.isKnown s.nextEntryId with
      | true => exact Or.inl (hcond hnew id client hfind (hstate.symm.trans huse) hknown)
      | false => exact Or.inr ⟨rfl, rfl, rfl⟩
  · refine iff_of_true (fun id client hfind => ?_) (fun heq => absurd heq hid)
    obtain ⟨hstate, hsent, -⟩ := publishDirty_client (s.storage.pathOfId entry.netId)
      entry.netId entry.path (entryMessage now entry entry.netId) client
    exact (hs id client hfind).of_sent hstate hsent

theorem MissesOut.publishDirty (h : s.MissesOut) (now : ℤ) (entry : StorageEntry) :
    (publishDirty now entry s).2.MissesOut := by
  obtain ⟨id, client, other, path, hclient, huse, hassigned, hknown, htold⟩ := h
  obtain ⟨hstate, -, hkeeps⟩ := publishDirty_client
    ((s.idForEntry entry).1.storage.pathOfId (s.idForEntry entry).2) (s.idForEntry entry).2
    entry.path (entryMessage now entry (s.idForEntry entry).2) client
  refine ⟨id, _, other, path, ?_, hstate.trans huse, ?_, hkeeps other hknown, fun hnow => ?_⟩
  · rw [clients_publishDirty, OrderedMap.find?_mapValues, hclient]
    rfl
  · rw [idAssignments_publishDirty]
    split_ifs
    · exact OrderedMap.find?_emplace_of_some hassigned
    · exact hassigned
  · rcases (told_publishDirty_client ..).mp hnow with hbefore | ⟨hunknown, rfl, -⟩
    · exact htold hbefore
    · rw [hknown] at hunknown
      cases hunknown

/-- A dirty entry whose id leaves a client uninformed leaves it so for good. -/
theorem missesOut_publishDirty (now : ℤ) (entry : StorageEntry)
    (hbad : ¬ DirtyInforms entry s) : (NetworkServer.publishDirty now entry s).2.MissesOut := by
  unfold DirtyInforms at hbad
  push Not at hbad
  obtain ⟨hid, hnew, id, client, hclient, huse, hknown, htold⟩ := hbad
  have hfor : s.idForEntry entry = ((s.assignIdToEntry entry.path).1, s.nextEntryId) := by
    rw [idForEntry, if_pos hid]
  obtain ⟨hstate, -, hkeeps⟩ := publishDirty_client
    ((s.idForEntry entry).1.storage.pathOfId (s.idForEntry entry).2) (s.idForEntry entry).2
    entry.path (entryMessage now entry (s.idForEntry entry).2) client
  refine ⟨id, _, s.nextEntryId, entry.path, ?_, hstate.trans huse, ?_,
    hkeeps s.nextEntryId hknown, fun hnow => ?_⟩
  · rw [clients_publishDirty, OrderedMap.find?_mapValues, hclient]
    rfl
  · rw [idAssignments_publishDirty, if_pos hid, OrderedMap.find?_emplace_self, hnew]
    rfl
  · rcases (told_publishDirty_client ..).mp hnow with hbefore | ⟨hunknown, -⟩
    · exact htold hbefore
    · rw [hfor, hknown] at hunknown
      cases hunknown

theorem informs_publishDirtyEntries_iff (hs : s.Informs) (now : ℤ) :
    (Storage.actOnDirtyEntries storage NetworkServer.withStorage
        (NetworkServer.publishDirty now) s).Informs ↔
      Storage.ActsMeet storage NetworkServer.withStorage (NetworkServer.publishDirty now)
        DirtyInforms s := by
  obtain ⟨hgood, hbad⟩ := Storage.actOnDirtyEntries_exact storage NetworkServer.withStorage
    (NetworkServer.publishDirty now) DirtyInforms
    (I := Informs) (B := MissesOut)
    (fun s handle entry hs _ hok => (informs_publishDirty_iff hs now entry).mpr hok)
    (fun s handle hs => hs.withStorage _)
    (fun s handle entry _ _ hnot => missesOut_publishDirty now entry hnot)
    (fun s entry hs => hs.publishDirty now entry)
    (fun s handle hs => hs) hs
  by_cases hmeet : Storage.ActsMeet storage NetworkServer.withStorage
      (NetworkServer.publishDirty now) DirtyInforms s
  · exact iff_of_true (hgood hmeet) hmeet
  · exact iff_of_false (hbad hmeet).not_informs hmeet

/-! ## Runs -/

/-- A connection takes the client out of use. -/
theorem Informs.onConnect (hs : s.Informs) (id : ClientId) : (s.onConnect id).Informs := by
  apply (OrderedMap.forall_modify_iff _ _ _ (ServerClient.Informed s.idAssignments)).mpr
  intro other client hclient
  split_ifs with hother
  · intro huse
    cases huse
  · rw [OrderedMap.find?_emplace_of_ne _ _ hother] at hclient
    exact hs other client hclient

/-- A step keeps the clients informed exactly if it tells those in use what it
assigns. -/
theorem informs_step_iff (h : s.storage.Coherent) (hs : s.Informs) (input : Input) :
    (s.step input).Informs ↔ s.InformsStep input := by
  cases input with
  | connect id => exact iff_of_true (hs.onConnect id) trivial
  | disconnect id =>
      exact iff_of_true
        (OrderedMap.forall_erase (ServerClient.Informed s.idAssignments) hs id) trivial
  | close => exact iff_of_true (fun id client hclient => by cases hclient) trivial
  | message now sender type payload written => exact informs_onMessage_iff h hs ..
  | localOperation now op => exact iff_of_true hs trivial
  | update now opened takes =>
      show (s.update now opened takes).Informs ↔ _
      unfold NetworkServer.update InformsStep
      cases s.state with
      | opening =>
          refine iff_of_true ?_ (fun hstate => by cases hstate)
          cases opened <;> exact hs
      | inUse =>
          simp only
          split_ifs with hempty
          · exact iff_of_true hs (fun _ hsome => by simp [hempty] at hsome)
          · refine (forall_update_iff _ takes (ServerClient.Informed _)
              (fun _ _ => Iff.rfl)).trans ((informs_publishDirtyEntries_iff hs now).trans ?_)
            exact ⟨fun hmeet _ _ => hmeet, fun hall => hall trivial (by simpa using hempty)⟩

/-- In every run, the clients in use were told every assigned id at every moment
exactly if every step tells them the ids it assigns. -/
theorem informs_iff_informsStep (memory : ParseData) (ops : List Storage.Operation)
    (inputs : List Input) :
    HoldsThroughout step Informs (start memory (Storage.run ops)) inputs ↔
      StepsMeet step InformsStep (start memory (Storage.run ops)) inputs :=
  holdsThroughout_iff_stepsMeet
    (fun (s : NetworkServer) input (hs : s.Tracked ∧ s.Informs) hok =>
      ⟨hs.1.step input, (informs_step_iff hs.1.coherent hs.2 input).mpr hok⟩)
    (fun _ hs => hs.2)
    (fun _ input hs hbad hafter =>
      hbad ((informs_step_iff hs.1.coherent hs.2 input).mp hafter))
    ⟨tracked_start memory ops, fun id client hclient => by cases hclient⟩ inputs

/-- A client completes its handshake, shows the server the id `0xFFFF` in a delete
and creates an entry. -/
def createdAfterHandshake : List Input :=
  [.connect 0, .message 0 0 6 [] true,
    .message 0 0 3 [0, 0, 0, 0, 0, 0, 0, 1, 255, 255] true,
    .message 0 0 1 [0, 0, 0, 0, 0, 0, 0, 2, 1, 97, 3, 1] true]

/-- The id 0 is assigned to the entry, and the client is not told. -/
theorem not_informs_creator :
    ¬ HoldsThroughout step Informs (start ⟨0, 0, [], 0, Value.make, 0⟩ (Storage.run []))
      createdAfterHandshake := by
  intro hall
  have hrecord : ((createdAfterHandshake.foldl step (start ⟨0, 0, [], 0, Value.make, 0⟩
      (Storage.run []))).clients.find? 0).map (fun client => (client.state, client.sent)) =
        some (.inUse, [⟨.handshakeFinished, none⟩]) := by decide +kernel
  obtain ⟨client, hclient, hrecord⟩ := Option.map_eq_some_iff.mp hrecord
  obtain ⟨huse, hsent⟩ := Prod.mk.inj hrecord
  obtain ⟨m, hm, hmessage⟩ := hall.last 0 client hclient huse 0 [97] (by decide +kernel)
  rw [hsent, List.mem_singleton] at hm
  rw [hm] at hmessage
  cases hmessage

end NetworkServer

end Obsr.Net
