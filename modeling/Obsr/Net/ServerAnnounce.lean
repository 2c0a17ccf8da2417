/-
# What the server announces

A client can use an id only after an `entry_id_assign` has told it the path. This
module asks, for the record of every client, whether each update and delete comes
after the assignment of its id, and whether each assignment names the path the
storage has under the id. Both hold for exactly the runs whose steps relay known
ids only and assign ids that stand for nothing else.
-/

import Obsr.Lib.Run
import Obsr.Net.Server

namespace Obsr.Net

open Obsr.Lib

namespace ServerClient

/-! ## The record of one client -/

def Announced (sent : List Sent) (id : EntryId) : Prop :=
  ∃ m ∈ sent, m.message.type = .entryIdAssign ∧ m.message.id = id

/-- The messages that carry an id the client has to know. -/
def NeedsId (message : OutMessage) : Prop :=
  message.type = .entryUpdate ∨ message.type = .entryDelete

/-- Every id is announced before it is used, under the path the storage had for
it. -/
structure Announces (sent : List Sent) : Prop where
  before : ∀ earlier m later, sent = earlier ++ m :: later → NeedsId m.message →
    Announced earlier m.message.id
  named : ∀ m ∈ sent, m.message.type = .entryIdAssign → m.mapped = some m.message.name

/-- The ids a client is believed to know are those it was told. -/
def Tracks (c : ServerClient) : Prop := ∀ id, id ∈ c.published ↔ Announced c.sent id

theorem announces_nil : Announces [] where
  before earlier m later h := by simp at h
  named m hm := by simp at hm

theorem announces_concat (sent : List Sent) (m : Sent) :
    Announces (sent ++ [m]) ↔
      Announces sent ∧ (NeedsId m.message → Announced sent m.message.id) ∧
        (m.message.type = .entryIdAssign → m.mapped = some m.message.name) := by
  constructor
  · intro h
    refine ⟨⟨?_, ?_⟩, ?_, ?_⟩
    · intro earlier first later hsent
      apply h.before earlier first (later ++ [m])
      rw [hsent, List.append_assoc, List.cons_append]
    · intro first hfirst
      exact h.named first (List.mem_append_left _ hfirst)
    · exact h.before sent m [] rfl
    · exact h.named m (List.mem_append_right _ (List.mem_singleton_self m))
  · rintro ⟨hsent, hneeds, hnamed⟩
    refine ⟨?_, ?_⟩
    · intro earlier first later hsplit
      rcases List.eq_nil_or_concat later with rfl | ⟨rest, last, rfl⟩
      · obtain ⟨rfl, hm⟩ := List.append_inj' hsplit rfl
        obtain rfl := List.singleton_inj.mp hm
        exact hneeds
      · rw [List.concat_eq_append, ← List.cons_append, ← List.append_assoc] at hsplit
        obtain ⟨rfl, -⟩ := List.append_inj' hsplit rfl
        exact hsent.before earlier first rest rfl
    · intro first hfirst
      rcases List.mem_append.mp hfirst with hold | hnew
      · exact hsent.named first hold
      · obtain rfl := List.mem_singleton.mp hnew
        exact hnamed

theorem announced_concat (sent : List Sent) (m : Sent) (id : EntryId) :
    Announced (sent ++ [m]) id ↔
      Announced sent id ∨ (m.message.type = .entryIdAssign ∧ m.message.id = id) := by
  simp [Announced, or_and_right, exists_or]

variable {c : ServerClient} {mapped : Option Text} {message : OutMessage}

theorem Tracks.enqueue (h : c.Tracks) (hmessage : message.type ≠ .entryIdAssign) :
    (c.enqueue mapped message).Tracks := by
  intro id
  show id ∈ c.published ↔ Announced (c.sent ++ [_]) id
  rw [announced_concat, h id]
  simp [hmessage]

/-- The answer to a time request is enqueued like any other message. -/
theorem Tracks.enqueueImmediate (h : c.Tracks) (hmessage : message.type ≠ .entryIdAssign)
    (written : Bool) : (c.enqueueImmediate mapped message written).Tracks :=
  h.enqueue hmessage

theorem Tracks.publish (h : c.Tracks) (id : EntryId) (name : Text) :
    (c.publish mapped id name).Tracks := by
  intro other
  show other ∈ insert id c.published ↔ Announced (c.sent ++ [_]) other
  rw [announced_concat, Finset.mem_insert, h other, or_comm]
  simp [OutMessage.entryIdAssign, eq_comm]

/-- A message that carries no id to know and assigns none. -/
theorem announces_enqueue_plain (hneeds : ¬ NeedsId message)
    (hassign : message.type ≠ .entryIdAssign) :
    Announces (c.enqueue mapped message).sent ↔ Announces c.sent := by
  show Announces (c.sent ++ [_]) ↔ _
  rw [announces_concat]
  simp [hneeds, hassign]

theorem announces_enqueue (h : c.Tracks) (hneeds : NeedsId message) :
    Announces (c.enqueue mapped message).sent ↔
      Announces c.sent ∧ message.id ∈ c.published := by
  have hassign : message.type ≠ .entryIdAssign := by
    rcases hneeds with htype | htype <;> simp [htype]
  show Announces (c.sent ++ [_]) ↔ _
  rw [announces_concat, h]
  simp [hneeds, hassign]

theorem announces_publish (id : EntryId) (name : Text) :
    Announces (c.publish mapped id name).sent ↔
      Announces c.sent ∧ mapped = some name := by
  show Announces (c.sent ++ [_]) ↔ _
  rw [announces_concat]
  simp [OutMessage.entryIdAssign, NeedsId]

/-- An id with its path, then an update that may have another id. -/
theorem announces_publish_enqueue (h : c.Tracks) (id : EntryId) (name : Text)
    {other : Option Text} (hneeds : NeedsId message) :
    Announces ((c.publish mapped id name).enqueue other message).sent ↔
      Announces c.sent ∧ mapped = some name ∧ (message.id = id ∨ c.isKnown message.id) := by
  rw [announces_enqueue (h.publish id name) hneeds, announces_publish, and_assoc]
  simp [publish, isKnown]

theorem announces_publish_unknown (h : c.Tracks) {id : EntryId} (name : Text)
    (hneeds : NeedsId message) (hid : message.id = id) :
    Announces ((if c.isKnown id then c else c.publish mapped id name).enqueue mapped
        message).sent ↔
      Announces c.sent ∧ (c.isKnown id = false → mapped = some name) := by
  cases hknown : c.isKnown id with
  | true =>
      have hmem : message.id ∈ c.published := by
        rw [hid]
        simpa [isKnown] using hknown
      rw [if_pos rfl, announces_enqueue h hneeds]
      simp [hmem]
  | false =>
      rw [if_neg (by simp), announces_publish_enqueue h id name hneeds]
      simp [hid]

theorem needsId_entryUpdate (time : ℤ) (id : EntryId) (value : Value) :
    NeedsId (.entryUpdate time id value) := Or.inl rfl

theorem needsId_entryDeleted (time : ℤ) (id : EntryId) : NeedsId (.entryDeleted time id) :=
  Or.inr rfl

/-! ## The handshake -/

theorem Tracks.publishAssignment (h : c.Tracks) (storage : Storage) (now : ℤ)
    (assignment : EntryId × Text) :
    (NetworkServer.publishAssignment storage now c assignment).Tracks := by
  unfold NetworkServer.publishAssignment
  cases hknown : c.isKnown assignment.1 with
  | true => exact h
  | false =>
      have hpublish : (c.publish (storage.pathOfId assignment.1) assignment.1
          assignment.2).Tracks := h.publish assignment.1 assignment.2
      rw [if_neg (by simp)]
      cases storage.getEntryValueFromId assignment.1 with
      | none => exact hpublish
      | some value => exact hpublish.enqueue (by simp [OutMessage.entryUpdate])

theorem isKnown_publishAssignment (storage : Storage) (now : ℤ)
    (assignment : EntryId × Text) {id : EntryId} (hid : id ≠ assignment.1) :
    (NetworkServer.publishAssignment storage now c assignment).isKnown id = c.isKnown id := by
  unfold NetworkServer.publishAssignment
  cases hknown : c.isKnown assignment.1 with
  | true => rfl
  | false =>
      rw [if_neg (by simp)]
      cases storage.getEntryValueFromId assignment.1 with
      | none => simp [isKnown, publish, enqueue, hid]
      | some value => simp [isKnown, publish, enqueue, hid]

theorem announces_publishAssignment (h : c.Tracks) (storage : Storage) (now : ℤ)
    (assignment : EntryId × Text) :
    Announces (NetworkServer.publishAssignment storage now c assignment).sent ↔
      Announces c.sent ∧ (c.isKnown assignment.1 = false →
        storage.pathOfId assignment.1 = some assignment.2) := by
  unfold NetworkServer.publishAssignment
  cases hknown : c.isKnown assignment.1 with
  | true => simp
  | false =>
      rw [if_neg (by simp)]
      cases storage.getEntryValueFromId assignment.1 with
      | none => simp [announces_publish]
      | some value =>
          refine (announces_publish_enqueue h assignment.1 assignment.2
            (needsId_entryUpdate now assignment.1 value)).trans ?_
          simp [OutMessage.entryUpdate]

/-- The loop of the handshake announces what the client does not know. -/
theorem announces_handshake (storage : Storage) (now : ℤ)
    {assignments : List (EntryId × Text)}
    (hkeys : assignments.Pairwise fun first second => first.1 < second.1)
    (h : c.Tracks) :
    (assignments.foldl (NetworkServer.publishAssignment storage now) c).Tracks ∧
      (Announces (assignments.foldl (NetworkServer.publishAssignment storage now) c).sent ↔
        Announces c.sent ∧ ∀ assignment ∈ assignments, c.isKnown assignment.1 = false →
          storage.pathOfId assignment.1 = some assignment.2) := by
  induction assignments generalizing c with
  | nil =>
      refine ⟨h, ?_⟩
      simp
  | cons first rest ih =>
      obtain ⟨hfirst, hrest⟩ := List.pairwise_cons.mp hkeys
      obtain ⟨htracks, hiff⟩ := ih hrest (h.publishAssignment storage now first)
      refine ⟨htracks, ?_⟩
      rw [List.foldl_cons, hiff, announces_publishAssignment h, List.forall_mem_cons, and_assoc]
      refine and_congr_right fun _ => and_congr_right fun _ => ?_
      refine forall₂_congr fun assignment hmem => ?_
      rw [isKnown_publishAssignment storage now first (hfirst assignment hmem).ne']

end ServerClient

namespace NetworkServer

variable {s : NetworkServer}

/-! ## The steps that announce -/

/-- Every client is told the ids it gets to see, under the right paths. -/
def Announces (s : NetworkServer) : Prop :=
  ∀ id client, s.clients.find? id = some client → ServerClient.Announces client.sent

/-- An id brought for the path stands for the path afterwards. -/
def FreeFor (storage : Storage) (id : EntryId) (path : Text) : Prop :=
  storage.pathOfId id = none ∨ storage.pathOfId id = some path

/-- The number of a client, which it is told for the path, is the id and the id stands
for the path; or it is another id of the path, and the client knows the id. -/
def NumberAnnounces (storage : Storage) (id : EntryId) (name : Text) (number : ClientId)
    (client : ServerClient) : Prop :=
  if number = id then FreeFor storage id name
  else storage.pathOfId number = some name ∧ client.isKnown id = true

/-- A create tells every other client a number that stands for its path. -/
def CreateAnnounces (s : NetworkServer) (sender : ClientId) (data : ParseData) : Prop :=
  ∀ number client, s.clients.find? number = some client → number ≠ sender →
    if data.id = idNotAssigned then
      s.storage.HasRoom data.name →
        NumberAnnounces s.storage s.nextEntryId data.name number client
    else
      s.storage.HasRoom data.name ∧
        NumberAnnounces s.storage data.id data.name number client

def MessageAnnounces (s : NetworkServer) (sender : ClientId) (type : MessageType)
    (data : ParseData) : Prop :=
  match type with
  | .entryCreate => s.CreateAnnounces sender data
  | .entryUpdate | .entryDelete =>
      ∀ id client, s.clients.find? id = some client → id ≠ sender →
        client.isKnown data.id = true
  | .handshakeReady =>
      ∀ client, s.clients.find? sender = some client →
        ∀ assignment ∈ s.idAssignments.entries, client.isKnown assignment.1 = false →
          s.storage.pathOfId assignment.1 = some assignment.2
  | _ => True

/-- The id of a dirty entry, or the one it gets, is known to all clients or stands
for the entry. -/
def DirtyAnnounces (entry : StorageEntry) (s : NetworkServer) : Prop :=
  ∀ id client, s.clients.find? id = some client →
    if entry.netId = idNotAssigned then
      client.isKnown s.nextEntryId = false → FreeFor s.storage s.nextEntryId entry.path
    else
      client.isKnown entry.netId = false →
        s.storage.pathOfId entry.netId = some entry.path

/-- The step uses known ids only and announces ids under their paths. -/
def AnnouncesStep (s : NetworkServer) : Input → Prop
  | .message _ sender type payload _ =>
      let parser := s.parser.parse (MessageType.ofByte type) payload
      parser.isFinished = true →
        s.MessageAnnounces sender (MessageType.ofByte type) parser.data
  | .update now _ _ =>
      s.state = .inUse → s.clients.entries.isEmpty = false →
        Storage.ActsMeet storage withStorage (publishDirty now) DirtyAnnounces s
  | _ => True

/-! ## What every step keeps -/

/-- The storage is coherent, and what clients are believed to know they were
told. -/
structure Tracked (s : NetworkServer) : Prop where
  coherent : s.storage.Coherent
  tracks : ∀ id client, s.clients.find? id = some client → client.Tracks

theorem some_getD_eq_some_iff {α : Type} (found : Option α) (value : α) :
    some (found.getD value) = some value ↔ found = none ∨ found = some value := by
  cases found <;> simp

theorem Tracked.withStorage (h : s.Tracked) {storage : Storage} (hstorage : storage.Coherent) :
    (s.withStorage storage).Tracked :=
  ⟨hstorage, h.tracks⟩

/-! ## Creates -/

theorem tracks_createEntry (h : s.Tracked) (now : ℤ) (sender : ClientId) (id : EntryId)
    (data : ParseData) : (s.createEntry now sender id data).Tracked := by
  refine ⟨h.coherent.onEntryCreated .., ?_⟩
  apply (OrderedMap.forall_mapValues_iff _ _ ServerClient.Tracks).mpr
  intro other client hclient
  have htracks := h.tracks other client hclient
  split_ifs
  · exact htracks
  · exact (htracks.publish other data.name).enqueue (by simp [OutMessage.entryUpdate])

/-- A create keeps the records in order if the number of every other client stands for
the path afterwards, and the client knows the id of the update. -/
theorem announces_createEntry_iff (h : s.Tracked) (hs : s.Announces) (now : ℤ)
    (sender : ClientId) (id : EntryId) (data : ParseData) :
    (s.createEntry now sender id data).Announces ↔
      ∀ number client, s.clients.find? number = some client → number ≠ sender →
        (s.storage.onEntryCreated now id data.name data.value data.sendTime).1.pathOfId number =
            some data.name ∧
          (id = number ∨ client.isKnown id = true) := by
  refine (OrderedMap.forall_mapValues_iff _ _
    (fun (client : ServerClient) => ServerClient.Announces client.sent)).trans ?_
  refine forall₃_congr fun number client hclient => ?_
  split_ifs with hnumber
  · exact iff_of_true (hs number client hclient) (fun hne => absurd hnumber hne)
  · rw [forall_prop_of_true hnumber]
    refine (ServerClient.announces_publish_enqueue (h.tracks number client hclient) number
      data.name (ServerClient.needsId_entryUpdate data.sendTime id data.value)).trans ?_
    exact and_iff_right (hs number client hclient)

/-- What a number stands for once a create has brought an id to a path. -/
theorem pathOfId_onEntryCreated_iff {storage : Storage} (h : storage.Coherent)
    (now : ℤ) (id : EntryId) (name : Text) (value : Value) (timestamp : ℤ) (number : ClientId) :
    (storage.onEntryCreated now id name value timestamp).1.pathOfId number = some name ↔
      storage.HasRoom name ∧
        if number = id then FreeFor storage id name else storage.pathOfId number = some name := by
  by_cases hroom : storage.HasRoom name
  · rw [Storage.pathOfId_onEntryCreated h hroom, and_iff_right hroom]
    split_ifs with hnumber
    · rw [some_getD_eq_some_iff]
      exact Iff.rfl
    · exact Iff.rfl
  · rw [Storage.onEntryCreated_of_not_hasRoom hroom]
    refine iff_of_false (fun hpath => ?_) (fun hall => hroom hall.1)
    obtain ⟨entry, -, hfind⟩ := (h.pathOfId_eq_some_iff number name).mp hpath
    exact hroom (Or.inl (by rw [hfind]; exact Option.some_ne_none entry))

/-- The records of a client after a create, from the state before it. -/
theorem numberAnnounces_iff {storage : Storage} (h : storage.Coherent) (now : ℤ) (id : EntryId)
    (name : Text) (value : Value) (timestamp : ℤ) (number : ClientId) (client : ServerClient) :
    ((storage.onEntryCreated now id name value timestamp).1.pathOfId number = some name ∧
        (id = number ∨ client.isKnown id = true)) ↔
      storage.HasRoom name ∧ NumberAnnounces storage id name number client := by
  rw [pathOfId_onEntryCreated_iff h, NumberAnnounces, and_assoc]
  split_ifs with hnumber
  · simp [hnumber]
  · simp [Ne.symm hnumber]

theorem pathOfId_of_named {storage next : Storage} {id : EntryId} {name : Text}
    (hnamed : storage.Named id name next) :
    next.pathOfId id = some name ↔ FreeFor storage id name := by
  rw [hnamed.pathOfId, if_pos rfl, some_getD_eq_some_iff]
  exact Iff.rfl

/-- An assigned id stands for its path exactly if nothing else has it. -/
theorem freeFor_of_named {storage next : Storage} {id : EntryId} {name : Text}
    (hnamed : storage.Named id name next) : FreeFor next id name ↔ FreeFor storage id name := by
  rw [FreeFor, pathOfId_of_named hnamed, or_iff_right]
  rw [hnamed.pathOfId, if_pos rfl]
  exact Option.some_ne_none _

theorem Tracked.assignIdToEntry (h : s.Tracked) (name : Text) :
    (s.assignIdToEntry name).1.Tracked :=
  ⟨h.coherent.onEntryIdAssigned s.nextEntryId name, h.tracks⟩

theorem Tracked.onEntryCreate (h : s.Tracked) (now : ℤ) (sender : ClientId)
    (data : ParseData) : (s.onEntryCreate now sender data).Tracked := by
  unfold NetworkServer.onEntryCreate
  split_ifs
  · have hassigned := h.assignIdToEntry data.name
    split
    · next hassign =>
        rw [hassign] at hassigned
        exact hassigned
    · next hassign =>
        rw [hassign] at hassigned
        exact tracks_createEntry hassigned now sender _ data
  · exact tracks_createEntry h now sender data.id data

/-- The id that was just assigned is announced as it would have been before. -/
theorem numberAnnounces_of_named {storage next : Storage} {id : EntryId} {name : Text}
    (hnamed : storage.Named id name next) (number : ClientId) (client : ServerClient) :
    NumberAnnounces next id name number client ↔
      NumberAnnounces storage id name number client := by
  unfold NumberAnnounces
  split_ifs with hnumber
  · exact freeFor_of_named hnamed
  · rw [hnamed.pathOfId, if_neg hnumber]

theorem announces_onEntryCreate_iff (h : s.Tracked) (hs : s.Announces) (now : ℤ)
    (sender : ClientId) (data : ParseData) :
    (s.onEntryCreate now sender data).Announces ↔ s.CreateAnnounces sender data := by
  unfold NetworkServer.onEntryCreate CreateAnnounces
  split_ifs with hid
  · by_cases hroom : s.storage.HasRoom data.name
    · obtain ⟨storage, hassign, hcoherent, hnamed⟩ := assignIdToEntry_of_hasRoom h.coherent hroom
      have htracked := h.assignIdToEntry data.name
      rw [hassign] at htracked
      simp only [hassign]
      rw [announces_createEntry_iff htracked hs]
      refine forall₄_congr fun number client _ _ => ?_
      rw [numberAnnounces_iff hcoherent, numberAnnounces_of_named hnamed]
      simp [hroom, hnamed.hasRoom]
    · simp only [assignIdToEntry_of_not_hasRoom hroom]
      exact iff_of_true hs (fun _ _ _ _ hno => absurd hno hroom)
  · rw [announces_createEntry_iff h hs]
    exact forall₄_congr fun number client _ _ => numberAnnounces_iff h.coherent ..

/-! ## Updates and deletes -/

theorem tracks_enqueueMessageForClients (h : s.Tracked) (message : OutMessage)
    (hmessage : message.type ≠ .entryIdAssign) (sender : ClientId) :
    (s.enqueueMessageForClients message sender).Tracked := by
  refine ⟨h.coherent, ?_⟩
  apply (OrderedMap.forall_mapValues_iff _ _ ServerClient.Tracks).mpr
  intro id client hclient
  split_ifs
  · exact h.tracks id client hclient
  · exact (h.tracks id client hclient).enqueue hmessage

/-- What is relayed keeps the records in order if everybody knows its id. -/
theorem announces_enqueueMessageForClients_iff (h : s.Tracked) (hs : s.Announces)
    {message : OutMessage} (hneeds : ServerClient.NeedsId message) (sender : ClientId) :
    (s.enqueueMessageForClients message sender).Announces ↔
      ∀ id client, s.clients.find? id = some client → id ≠ sender →
        client.isKnown message.id = true := by
  refine (OrderedMap.forall_mapValues_iff _ _
    (fun (client : ServerClient) => ServerClient.Announces client.sent)).trans ?_
  refine forall₃_congr fun id client hclient => ?_
  split_ifs with hid
  · exact iff_of_true (hs id client hclient) (fun hne => absurd hid hne)
  · rw [ServerClient.announces_enqueue (h.tracks id client hclient) hneeds]
    simp [hs id client hclient, hid, ServerClient.isKnown]

/-! ## The handshake and the clock -/

theorem tracks_handleDoHandshakeForClient (h : s.Tracked) (now : ℤ) (sender : ClientId) :
    (s.handleDoHandshakeForClient now sender).Tracked := by
  refine ⟨h.coherent, ?_⟩
  apply (OrderedMap.forall_modify_iff _ _ _ ServerClient.Tracks).mpr
  intro id client hclient
  split_ifs
  · have hloop := (ServerClient.announces_handshake s.storage now
      s.idAssignments.sorted (h.tracks id client hclient)).1
    exact hloop.enqueue (by simp [OutMessage.handshakeFinished])
  · exact h.tracks id client hclient

theorem announces_handleDoHandshakeForClient_iff (h : s.Tracked) (hs : s.Announces) (now : ℤ)
    (sender : ClientId) :
    (s.handleDoHandshakeForClient now sender).Announces ↔
      ∀ client, s.clients.find? sender = some client →
        ∀ assignment ∈ s.idAssignments.entries, client.isKnown assignment.1 = false →
          s.storage.pathOfId assignment.1 = some assignment.2 := by
  refine (OrderedMap.forall_modify_iff _ _ _
    (fun (client : ServerClient) => ServerClient.Announces client.sent)).trans ?_
  have hloop : ∀ client : ServerClient, s.clients.find? sender = some client →
      (ServerClient.Announces (((s.idAssignments.entries.foldl
          (publishAssignment s.storage now) client).enqueue (s.storage.pathOfId 0)
            .handshakeFinished).setState .inUse).sent ↔
        ∀ assignment ∈ s.idAssignments.entries, client.isKnown assignment.1 = false →
          s.storage.pathOfId assignment.1 = some assignment.2) := by
    intro client hclient
    have hfold := (ServerClient.announces_handshake s.storage now
      s.idAssignments.sorted (h.tracks sender client hclient)).2
    refine (ServerClient.announces_enqueue_plain ?_ ?_).trans
      (hfold.trans (and_iff_right (hs sender client hclient)))
    · simp [ServerClient.NeedsId, OutMessage.handshakeFinished]
    · simp [OutMessage.handshakeFinished]
  constructor
  · intro hall client hclient
    apply (hloop client hclient).mp
    have hsender := hall sender client hclient
    rwa [if_pos rfl] at hsender
  · intro hall id client hclient
    split_ifs with hid
    · subst hid
      exact (hloop client hclient).mpr (hall client hclient)
    · exact hs id client hclient

theorem tracks_enqueueMessageForClient (h : s.Tracked) (id : ClientId) {message : OutMessage}
    (hmessage : message.type ≠ .entryIdAssign) (written : Bool) :
    (s.enqueueMessageForClient id message written).Tracked := by
  refine ⟨h.coherent, ?_⟩
  apply (OrderedMap.forall_modify_iff _ _ _ ServerClient.Tracks).mpr
  intro other client hclient
  split_ifs
  · exact (h.tracks other client hclient).enqueueImmediate hmessage written
  · exact h.tracks other client hclient

theorem announces_enqueueMessageForClient (hs : s.Announces) (id : ClientId)
    {message : OutMessage} (hneeds : ¬ ServerClient.NeedsId message)
    (hassign : message.type ≠ .entryIdAssign) (written : Bool) :
    (s.enqueueMessageForClient id message written).Announces := by
  apply (OrderedMap.forall_modify_iff _ _ _
    (fun (client : ServerClient) => ServerClient.Announces client.sent)).mpr
  intro other client hclient
  split_ifs
  · exact (ServerClient.announces_enqueue_plain hneeds hassign).mpr (hs other client hclient)
  · exact hs other client hclient

/-! ## Messages -/

theorem Tracked.handle (h : s.Tracked) (now : ℤ) (sender : ClientId) (type : MessageType)
    (data : ParseData) (written : Bool) : (s.handle now sender type data written).Tracked := by
  cases type with
  | entryCreate => exact h.onEntryCreate now sender data
  | entryUpdate =>
      have hupdated := h.coherent.onEntryUpdated now data.id data.value data.sendTime
      exact tracks_enqueueMessageForClients (h.withStorage hupdated)
        (.entryUpdate data.sendTime data.id data.value)
        (by simp [OutMessage.entryUpdate]) sender
  | entryDelete =>
      have hdeleted := h.coherent.onEntryDeleted now data.id data.sendTime
      exact tracks_enqueueMessageForClients (h.withStorage hdeleted)
        (.entryDeleted data.sendTime data.id)
        (by simp [OutMessage.entryDeleted]) sender
  | timeSyncRequest =>
      exact tracks_enqueueMessageForClient h sender (by simp [OutMessage.timeSyncResponse]) written
  | handshakeReady => exact tracks_handleDoHandshakeForClient h now sender
  | _ => exact h

theorem announces_handle_iff (h : s.Tracked) (hs : s.Announces) (now : ℤ) (sender : ClientId)
    (type : MessageType) (data : ParseData) (written : Bool) :
    (s.handle now sender type data written).Announces ↔ s.MessageAnnounces sender type data := by
  cases type with
  | entryCreate => exact announces_onEntryCreate_iff h hs now sender data
  | entryUpdate =>
      have hupdated := h.coherent.onEntryUpdated now data.id data.value data.sendTime
      exact announces_enqueueMessageForClients_iff (h.withStorage hupdated) hs
        (ServerClient.needsId_entryUpdate data.sendTime data.id data.value) sender
  | entryDelete =>
      have hdeleted := h.coherent.onEntryDeleted now data.id data.sendTime
      exact announces_enqueueMessageForClients_iff (h.withStorage hdeleted) hs
        (ServerClient.needsId_entryDeleted data.sendTime data.id) sender
  | timeSyncRequest =>
      refine iff_of_true (announces_enqueueMessageForClient hs sender ?_ ?_ written) trivial
      · simp [ServerClient.NeedsId, OutMessage.timeSyncResponse]
      · simp [OutMessage.timeSyncResponse]
  | handshakeReady => exact announces_handleDoHandshakeForClient_iff h hs now sender
  | _ => exact iff_of_true hs trivial

theorem Tracked.onMessage (h : s.Tracked) (now : ℤ) (sender : ClientId) (type : UInt8)
    (payload : List UInt8) (written : Bool) :
    (s.onMessage now sender type payload written).Tracked := by
  have hparsed : Tracked
      { s with parser := s.parser.parse (MessageType.ofByte type) payload } :=
    ⟨h.coherent, h.tracks⟩
  unfold NetworkServer.onMessage
  simp only
  split_ifs
  · exact hparsed.handle ..
  · exact hparsed

theorem announces_onMessage_iff (h : s.Tracked) (hs : s.Announces) (now : ℤ)
    (sender : ClientId) (type : UInt8) (payload : List UInt8) (written : Bool) :
    (s.onMessage now sender type payload written).Announces ↔
      s.AnnouncesStep (.message now sender type payload written) := by
  have hparsed : Tracked
      { s with parser := s.parser.parse (MessageType.ofByte type) payload } :=
    ⟨h.coherent, h.tracks⟩
  unfold NetworkServer.onMessage AnnouncesStep
  simp only
  split_ifs with hfinished
  · rw [announces_handle_iff hparsed hs]
    exact ⟨fun hall _ => hall, fun hall => hall hfinished⟩
  · exact iff_of_true hs (fun hyes => absurd hyes hfinished)

/-! ## Update ticks -/

theorem Tracked.idForEntry (h : s.Tracked) (entry : StorageEntry) :
    (s.idForEntry entry).1.Tracked := by
  unfold NetworkServer.idForEntry
  split_ifs
  · exact h.assignIdToEntry entry.path
  · exact h

theorem needsId_entryMessage (now : ℤ) (entry : StorageEntry) (id : EntryId) :
    ServerClient.NeedsId (entryMessage now entry id) ∧ (entryMessage now entry id).id = id := by
  unfold entryMessage
  split_ifs
  · exact ⟨ServerClient.needsId_entryDeleted now id, rfl⟩
  · exact ⟨ServerClient.needsId_entryUpdate _ id _, rfl⟩

theorem Tracked.publishDirty (h : s.Tracked) (now : ℤ) (entry : StorageEntry) :
    (NetworkServer.publishDirty now entry s).2.Tracked := by
  refine ⟨(h.idForEntry entry).coherent, ?_⟩
  rw [clients_publishDirty]
  apply (OrderedMap.forall_mapValues_iff _ _ ServerClient.Tracks).mpr
  intro id client hclient
  have htracks := h.tracks id client hclient
  have hmessage : (entryMessage now entry (s.idForEntry entry).2).type ≠ .entryIdAssign := by
    rcases (needsId_entryMessage now entry (s.idForEntry entry).2).1 with htype | htype <;>
      simp [htype]
  simp only
  split_ifs
  · exact htracks.enqueue hmessage
  · exact (htracks.publish _ _).enqueue hmessage

/-- A dirty entry is announced where its id is new, under what the id stands
for. -/
theorem announces_publishDirty_iff (h : s.Tracked) (now : ℤ) (entry : StorageEntry) :
    (NetworkServer.publishDirty now entry s).2.Announces ↔
      ∀ id client, s.clients.find? id = some client →
        ServerClient.Announces client.sent ∧
          (client.isKnown (s.idForEntry entry).2 = false →
            (s.idForEntry entry).1.storage.pathOfId (s.idForEntry entry).2 =
              some entry.path) := by
  unfold Announces
  rw [clients_publishDirty]
  refine (OrderedMap.forall_mapValues_iff _ _
    (fun (client : ServerClient) => ServerClient.Announces client.sent)).trans ?_
  refine forall₃_congr fun id client hclient => ?_
  obtain ⟨hneeds, hid⟩ := needsId_entryMessage now entry (s.idForEntry entry).2
  exact ServerClient.announces_publish_unknown (h.tracks id client hclient) entry.path hneeds hid

/-- The condition on a dirty entry is about the id it has or gets. -/
theorem dirtyAnnounces_iff (h : s.Tracked) {handle : Handle} {entry : StorageEntry}
    (hentry : s.storage.entries.get? handle = some entry) :
    DirtyAnnounces entry s ↔ ∀ id client, s.clients.find? id = some client →
      client.isKnown (s.idForEntry entry).2 = false →
        (s.idForEntry entry).1.storage.pathOfId (s.idForEntry entry).2 = some entry.path := by
  have hroom : s.storage.HasRoom entry.path := Or.inl (by
    rw [(h.coherent.path_of_entry hentry).1]
    exact Option.some_ne_none handle)
  unfold DirtyAnnounces NetworkServer.idForEntry
  refine forall₃_congr fun id client _ => ?_
  split_ifs
  · obtain ⟨storage, hassign, -, hnamed⟩ := assignIdToEntry_of_hasRoom h.coherent hroom
    rw [hassign, pathOfId_of_named hnamed]
  · exact Iff.rfl

/-- The connections take from the queues, not from the records. -/
theorem forall_update_iff (clients : OrderedMap ClientId ServerClient) (takes : ClientId → ℕ)
    (P : ServerClient → Prop) (hP : ∀ client takes, P (client.update takes) ↔ P client) :
    (∀ id client, (clients.mapValues fun id client => client.update (takes id)).find? id =
        some client → P client) ↔
      ∀ id client, clients.find? id = some client → P client := by
  refine (OrderedMap.forall_mapValues_iff _ _ P).trans ?_
  exact forall₃_congr fun id client _ => hP client (takes id)

/-- The pass over the dirty entries keeps the records in order exactly if every
entry it publishes does. -/
theorem announces_publishDirtyEntries (h : s.Tracked) (hs : s.Announces) (now : ℤ) :
    (Storage.actOnDirtyEntries storage NetworkServer.withStorage
        (NetworkServer.publishDirty now) s).Tracked ∧
      ((Storage.actOnDirtyEntries storage NetworkServer.withStorage
          (NetworkServer.publishDirty now) s).Announces ↔
        Storage.ActsMeet storage NetworkServer.withStorage (NetworkServer.publishDirty now)
          DirtyAnnounces s) := by
  have hclear : ∀ (s : NetworkServer) handle, s.Tracked →
      (s.withStorage (s.storage.clearDirty handle)).Tracked := fun s handle htracked =>
    htracked.withStorage (htracked.coherent.clearDirty handle)
  obtain ⟨hgood, hbad⟩ := Storage.actOnDirtyEntries_exact storage NetworkServer.withStorage
    (NetworkServer.publishDirty now) DirtyAnnounces
    (I := fun s => s.Tracked ∧ s.Announces) (B := fun s => s.Tracked ∧ ¬ s.Announces)
    (by
      rintro s handle entry ⟨htracked, hannounces⟩ hentry hok
      refine ⟨htracked.publishDirty now entry, (announces_publishDirty_iff htracked ..).mpr ?_⟩
      intro id client hclient
      exact ⟨hannounces id client hclient,
        (dirtyAnnounces_iff htracked hentry).mp hok id client hclient⟩)
    (fun s handle hs => ⟨hclear s handle hs.1, hs.2⟩)
    (by
      rintro s handle entry ⟨htracked, -⟩ hentry hnot
      refine ⟨htracked.publishDirty now entry, fun hall => hnot ?_⟩
      apply (dirtyAnnounces_iff htracked hentry).mpr
      intro id client hclient
      exact ((announces_publishDirty_iff htracked now entry).mp hall id client hclient).2)
    (by
      rintro s entry ⟨htracked, hnot⟩
      refine ⟨htracked.publishDirty now entry, fun hall => hnot ?_⟩
      intro id client hclient
      exact ((announces_publishDirty_iff htracked now entry).mp hall id client hclient).1)
    (fun s handle hs => ⟨hclear s handle hs.1, hs.2⟩) ⟨h, hs⟩
  by_cases hmeet : Storage.ActsMeet storage NetworkServer.withStorage
      (NetworkServer.publishDirty now) DirtyAnnounces s
  · exact ⟨(hgood hmeet).1, iff_of_true (hgood hmeet).2 hmeet⟩
  · exact ⟨(hbad hmeet).1, iff_of_false (hbad hmeet).2 hmeet⟩

theorem Tracked.processUpdates (h : s.Tracked) (now : ℤ) (takes : ClientId → ℕ) :
    (s.processUpdates now takes).Tracked := by
  have hpass : (Storage.actOnDirtyEntries storage NetworkServer.withStorage
      (NetworkServer.publishDirty now) s).Tracked :=
    Storage.actOnDirtyEntries_of_invariant storage NetworkServer.withStorage
      (fun s handle entry hs _ => hs.publishDirty now entry)
      (fun s handle hs => hs.withStorage (hs.coherent.clearDirty handle)) h
  refine ⟨hpass.coherent, ?_⟩
  exact (forall_update_iff _ takes ServerClient.Tracks (fun _ _ => Iff.rfl)).mpr hpass.tracks

/-! ## Runs -/

theorem Tracked.onConnect (h : s.Tracked) (id : ClientId) : (s.onConnect id).Tracked := by
  refine ⟨h.coherent, ?_⟩
  apply (OrderedMap.forall_modify_iff _ _ _ ServerClient.Tracks).mpr
  intro other client hclient
  have hnew : ServerClient.Tracks {} := fun id => by simp [ServerClient.Announced]
  have htracks := OrderedMap.forall_emplace ServerClient.Tracks h.tracks id hnew other client
    hclient
  split_ifs <;> exact htracks

theorem Announces.onConnect (hs : s.Announces) (id : ClientId) :
    (s.onConnect id).Announces := by
  apply (OrderedMap.forall_modify_iff _ _ _
    (fun (client : ServerClient) => ServerClient.Announces client.sent)).mpr
  intro other client hclient
  have hannounces := OrderedMap.forall_emplace
    (fun (client : ServerClient) => ServerClient.Announces client.sent)
    hs id ServerClient.announces_nil other client hclient
  split_ifs <;> exact hannounces

theorem Tracked.step (h : s.Tracked) (input : Input) : (s.step input).Tracked := by
  cases input with
  | connect id => exact h.onConnect id
  | disconnect id =>
      exact ⟨h.coherent, OrderedMap.forall_erase ServerClient.Tracks h.tracks id⟩
  | close => exact ⟨h.coherent, fun id client hclient => by cases hclient⟩
  | message now sender type payload written => exact h.onMessage ..
  | localOperation now op => exact h.withStorage (h.coherent.perform _)
  | update now opened takes =>
      show (s.update now opened takes).Tracked
      unfold NetworkServer.update
      split
      · split_ifs
        · exact ⟨h.coherent, h.tracks⟩
        · exact h
      · split_ifs
        · exact h
        · exact h.processUpdates now takes

/-- A step keeps the records in order exactly if it uses known ids and announces
ids under their paths. -/
theorem announces_step_iff (h : s.Tracked) (hs : s.Announces) (input : Input) :
    (s.step input).Announces ↔ s.AnnouncesStep input := by
  cases input with
  | connect id => exact iff_of_true (hs.onConnect id) trivial
  | disconnect id =>
      exact iff_of_true
        (OrderedMap.forall_erase
          (fun (client : ServerClient) => ServerClient.Announces client.sent) hs id)
        trivial
  | close => exact iff_of_true (fun id client hclient => by cases hclient) trivial
  | message now sender type payload written => exact announces_onMessage_iff h hs ..
  | localOperation now op => exact iff_of_true hs trivial
  | update now opened takes =>
      show (s.update now opened takes).Announces ↔ _
      unfold NetworkServer.update AnnouncesStep
      cases s.state with
      | opening =>
          refine iff_of_true ?_ (fun hstate => by cases hstate)
          cases opened <;> exact hs
      | inUse =>
          simp only
          split_ifs with hempty
          · exact iff_of_true hs (fun _ hsome => by simp [hempty] at hsome)
          · have hpass := (announces_publishDirtyEntries h hs now).2
            refine (forall_update_iff _ takes
              (fun (client : ServerClient) => ServerClient.Announces client.sent)
              (fun _ _ => Iff.rfl)).trans (hpass.trans ?_)
            exact ⟨fun hmeet _ _ => hmeet, fun hall => hall trivial (by simpa using hempty)⟩

theorem tracked_start (memory : ParseData) (ops : List Storage.Operation) :
    (start memory (Storage.run ops)).Tracked :=
  ⟨(Storage.coherent_run ops).clearNetIds, fun id client hclient => by cases hclient⟩

/-- In every run, the records of all clients are in order at every moment exactly
if every step relays ids the clients know and announces ids under their paths. -/
theorem announces_iff_announcesStep (memory : ParseData) (ops : List Storage.Operation)
    (inputs : List Input) :
    HoldsThroughout step Announces (start memory (Storage.run ops)) inputs ↔
      StepsMeet step AnnouncesStep (start memory (Storage.run ops)) inputs :=
  holdsThroughout_iff_stepsMeet
    (fun (s : NetworkServer) input (hs : s.Tracked ∧ s.Announces) hok =>
      ⟨hs.1.step input, (announces_step_iff hs.1 hs.2 input).mpr hok⟩)
    (fun _ hs => hs.2)
    (fun _ input hs hbad hafter => hbad ((announces_step_iff hs.1 hs.2 input).mp hafter))
    ⟨tracked_start memory ops, fun id client hclient => by cases hclient⟩ inputs

/-- Two clients connect, and the first one creates an entry. -/
def createdByFirst : List Input :=
  [.connect 0, .connect 1, .message 0 0 1 [0, 0, 0, 0, 0, 0, 0, 1, 1, 97, 3, 1] true]

/-- The other client is told its own number 1 for the path, and a value for the id 0. -/
theorem not_announces_number :
    ¬ HoldsThroughout step Announces
      (start ⟨0, idNotAssigned, [], 0, Value.make, 0⟩ (Storage.run [])) createdByFirst := by
  intro hall
  have hsent : ((createdByFirst.foldl step (start ⟨0, idNotAssigned, [], 0, Value.make, 0⟩
      (Storage.run []))).clients.find? 1).map ServerClient.sent =
        some [⟨.entryIdAssign 1 [97], none⟩,
          ⟨.entryUpdate 1 0 ⟨.boolean, .boolean true⟩, some [97]⟩] := by decide +kernel
  obtain ⟨client, hclient, hsent⟩ := Option.map_eq_some_iff.mp hsent
  have hnamed := (hall.last 1 client hclient).named ⟨.entryIdAssign 1 [97], none⟩
    (by rw [hsent]; exact List.mem_cons_self) rfl
  cases hnamed

end NetworkServer

end Obsr.Net
