/-
# What the server feeds its clients

To its clients the server is a source of registers: the ids it has assigned name the
paths, and the storage holds the registers. `Feeds` says that each client with a record,
behind the connection it has, is informed of the source as its record has it. It is kept
by everything a server does on its own; `links` tells which clients there are and what is
on the way to them.
-/

import Obsr.Lib.Mirror
import Obsr.Net.Packet
import Obsr.Net.ServerIds
import Obsr.Net.Wiring
import Obsr.Storage.Pending
import Obsr.Storage.Registers

namespace Obsr.Net

open Obsr.Lib

abbrev Notice := Mirror.Message EntryId Text ℤ Value

abbrev Copy := Mirror.Copy EntryId Text ℤ Value

abbrev Source := Mirror.Source EntryId Text ℤ Value

/-! ## What a message tells -/

namespace OutMessage

/-- What a message tells of the table of the server. -/
def notice (message : OutMessage) : Option Notice :=
  match message.type with
  | .entryIdAssign => some (.name message.id message.name)
  | .entryUpdate => some (.edit message.id (.write message.sendTime message.value))
  | .entryDelete => some (.edit message.id (.erase message.sendTime))
  | _ => none

theorem notice_of_not_isTyped {message : OutMessage} (h : message.isTyped = false) :
    message.notice = none := by
  unfold isTyped at h
  unfold notice
  cases htype : message.type <;> rw [htype] at h <;> first | rfl | cases h

end OutMessage

def notices (messages : List OutMessage) : List Notice := messages.filterMap OutMessage.notice

@[simp]
theorem notices_append (messages others : List OutMessage) :
    notices (messages ++ others) = notices messages ++ notices others :=
  List.filterMap_append ..

theorem notices_filter (messages : List OutMessage) :
    notices (messages.filter OutMessage.isTyped) = notices messages := by
  induction messages with
  | nil => rfl
  | cons message messages ih =>
      cases htyped : message.isTyped with
      | true =>
          rw [List.filter_cons_of_pos htyped, notices, notices, List.filterMap_cons,
            List.filterMap_cons]
          cases message.notice with
          | none => exact ih
          | some notice => exact congrArg (notice :: ·) ih
      | false =>
          rw [List.filter_cons_of_neg (by simp [htyped]), ih, notices, notices,
            List.filterMap_cons_none (OutMessage.notice_of_not_isTyped htyped)]

/-- Values have the type of their path, and times are not the one that means now. -/
def FitsType (τ : Text → ValueType) (path : Text) : Lib.Edit ℤ Value → Prop
  | .write stamp value => stamp ≠ 0 ∧ value.type = τ path
  | .erase stamp => stamp ≠ 0

/-- A value of the type of its path that comes out of a packet. -/
def Carried (τ : Text → ValueType) (path : Text) (value : Value) : Prop :=
  value.type = τ path ∧ Portable value

theorem carried_uniform {τ : Text → ValueType} (path : Text) (value other : Value)
    (h : Carried τ path value) (h' : Carried τ path other) : value.type = other.type :=
  h.1.trans h'.1.symm

/-! ## One client -/

/-- A client that only listens asks for the time and for the handshake. -/
def Listening (type : MessageType) : Prop := type = .timeSyncRequest ∨ type = .handshakeReady

open Mirror

variable {τ : Text → ValueType} {fresh : Prop} {source source' : Source} {copy : Copy}
  {down : List OutMessage} {record : ServerClient} {mapped : Option Text} {id : EntryId}
  {path : Text} {message : OutMessage}

theorem notices_of_some {notice : Notice} (h : message.notice = some notice) :
    notices [message] = [notice] := List.filterMap_cons_some h

theorem readable_entryIdAssign (id : EntryId) (name : Text) :
    (OutMessage.entryIdAssign id name).Readable :=
  ⟨portable_make, (by decide : InTimeRange 0), (by decide : InTimeRange 0)⟩

/-- The messages on the way to a client, the ones in its queue last. -/
def ServerClient.pending (record : ServerClient) (down : List OutMessage) : List OutMessage :=
  down ++ record.queue

theorem pending_enqueue (record : ServerClient) (mapped : Option Text) (message : OutMessage)
    (down : List OutMessage) :
    (record.enqueue mapped message).pending down = record.pending down ++ [message] :=
  (List.append_assoc ..).symm

/-- The ids, where they are known, and the messages agree with the source. -/
structure Feeding (τ : Text → ValueType) (fresh : Prop) (source : Source) (copy : Copy)
    (messages : List OutMessage) (known : Set EntryId) : Prop where
  informs : Informs (FitsType τ) source known fresh copy (notices messages)
  readable : ∀ message ∈ messages, message.notice ≠ none → message.Readable

variable {messages : List OutMessage} {known : Set EntryId}

/-- The name the copy will have for an id. -/
def nameOf (copy : Copy) (messages : List OutMessage) (id : EntryId) : Option Text :=
  (Channel.drained receive copy (notices messages)).names id

namespace Feeding

theorem nameOf_known (h : Feeding τ fresh source copy messages known) (hid : id ∈ known)
    (hname : source.names id = some path) : nameOf copy messages id = some path := by
  obtain ⟨named, hnamed, hcopy⟩ := h.informs.learned id hid
  rwa [Option.some.inj (hname.symm.trans hnamed)]

theorem concat_readable (h : Feeding τ fresh source copy messages known)
    (hmessage : message.notice ≠ none → message.Readable) :
    ∀ other ∈ messages ++ [message], other.notice ≠ none → other.Readable := by
  intro other hother
  rcases List.mem_append.mp hother with hold | hnew
  · exact h.readable other hold
  · rwa [List.mem_singleton.mp hnew]

/-- A message that tells nothing. -/
theorem concat_mute (h : Feeding τ fresh source copy messages known)
    (hmessage : message.notice = none) :
    Feeding τ fresh source copy (messages ++ [message]) known where
  informs := by
    have hnotices : notices [message] = [] := List.filterMap_cons_none hmessage
    rw [notices_append, hnotices, List.append_nil]
    exact h.informs
  readable := h.concat_readable fun hne => absurd hmessage hne

theorem concat_assign (h : Feeding τ fresh source copy messages known)
    (hname : source.names id = some path) :
    Feeding τ fresh source copy (messages ++ [.entryIdAssign id path]) known ∧
      nameOf copy (messages ++ [.entryIdAssign id path]) id = some path := by
  have hnotices : notices [.entryIdAssign id path] = [.name id path] := rfl
  obtain ⟨hinforms, hcopy⟩ := h.informs.name hname
  rw [← hnotices, ← notices_append] at hinforms hcopy
  exact ⟨⟨hinforms, h.concat_readable fun _ => readable_entryIdAssign id path⟩, hcopy⟩

theorem concat_empty (h : Feeding τ fresh source copy messages known)
    (hname : source.names id = some path) (hcontent : (source.registers path).content = none) :
    Feeding τ fresh source copy (messages ++ [.entryIdAssign id path]) (insert id known) := by
  have hnotices : notices [.entryIdAssign id path] = [.name id path] := rfl
  have hinforms := h.informs.name_empty hname hcontent
  rw [← hnotices, ← notices_append] at hinforms
  exact ⟨hinforms, h.concat_readable fun _ => readable_entryIdAssign id path⟩

/-- A message that shows a register. -/
theorem concat_show (h : Feeding τ fresh source copy messages known)
    (hsource : source.names id = some path) (hname : nameOf copy messages id = some path)
    {edit : Lib.Edit ℤ Value} (hmessage : message.notice = some (.edit id edit))
    (hreadable : message.Readable) (hshows : Shows (source.registers path) source.now edit)
    (hfits : FitsType τ path edit) {dirty : Text → Bool}
    (hdirty : ∀ other, other ≠ path → dirty other = false → source.dirty other = false) :
    Feeding τ fresh { source with dirty } copy (messages ++ [message]) (insert id known) where
  informs := by
    rw [notices_append, notices_of_some hmessage]
    exact h.informs.send hsource hname hshows hfits hdirty
  readable := h.concat_readable fun _ => hreadable

theorem advance (h : Feeding τ fresh source copy messages known)
    (hadvances : source.Advances source') : Feeding τ fresh source' copy messages known :=
  ⟨h.informs.advance hadvances, h.readable⟩

/-- A message that tells nothing may be sent ahead of others. -/
theorem insert_mute {others : List OutMessage}
    (h : Feeding τ fresh source copy (messages ++ others) known)
    (hmessage : message.notice = none) :
    Feeding τ fresh source copy (messages ++ message :: others) known where
  informs := by
    have hnotices : notices (message :: others) = notices others :=
      List.filterMap_cons_none hmessage
    rw [notices_append, hnotices, ← notices_append]
    exact h.informs
  readable other hother := by
    rcases List.mem_append.mp hother with hold | hnew
    · exact h.readable other (List.mem_append_left _ hold)
    · rcases List.mem_cons.mp hnew with rfl | hnew
      · exact fun hne => absurd hmessage hne
      · exact h.readable other (List.mem_append_right _ hnew)

theorem insert_mutes {mutes others : List OutMessage}
    (h : Feeding τ fresh source copy (messages ++ others) known)
    (hmutes : ∀ message ∈ mutes, message.notice = none) :
    Feeding τ fresh source copy (messages ++ mutes ++ others) known := by
  induction mutes generalizing messages with
  | nil => rwa [List.append_nil]
  | cons message mutes ih =>
      obtain ⟨hmessage, hmutes⟩ := List.forall_mem_cons.mp hmutes
      have hinserted := h.insert_mute hmessage
      rw [List.append_cons] at hinserted
      rw [List.append_cons messages message mutes]
      exact ih hinserted hmutes

/-- Messages of no type do not become packets, and tell nothing. -/
theorem filter_typed {sent others : List OutMessage}
    (h : Feeding τ fresh source copy (messages ++ (sent ++ others)) known) :
    Feeding τ fresh source copy (messages ++ sent.filter OutMessage.isTyped ++ others) known where
  informs := by
    rw [List.append_assoc, notices_append, notices_append, notices_filter, ← notices_append,
      ← notices_append]
    exact h.informs
  readable message hmessage := by
    apply h.readable
    rw [List.append_assoc] at hmessage
    refine (List.mem_append.mp hmessage).elim (List.mem_append_left _) fun hmessage => ?_
    apply List.mem_append_right
    exact (List.mem_append.mp hmessage).elim
      (fun hsent => List.mem_append_left _ (List.mem_filter.mp hsent).1)
      (List.mem_append_right _)

end Feeding

/-- What holds of a client behind its connection and of its record. A client in use is
told of every id. -/
structure Serves (τ : Text → ValueType) (fresh : Prop) (source : Source) (copy : Copy)
    (down : List OutMessage) (record : ServerClient) : Prop where
  feeding : Feeding τ fresh source copy (record.pending down) record.published
  finished : record.state = .inUse → ∀ id path, source.names id = some path →
    id ∈ record.published

/-- A tick tells a client of a dirty entry, with its id if that is new to it. -/
theorem serves_report (mapped : Option Text)
    (h : Feeding τ fresh source copy (record.pending down) record.published)
    (hfinished : record.state = .inUse → ∀ other named, source.names other = some named →
      other ∈ record.published ∨ other = id)
    (hname : source.names id = some path) {edit : Lib.Edit ℤ Value}
    (hmessage : message.notice = some (.edit id edit)) (hreadable : message.Readable)
    (hshows : Shows (source.registers path) source.now edit) (hfits : FitsType τ path edit) :
    Serves τ fresh { source with dirty := Function.update source.dirty path false } copy down
      ((if record.isKnown id then record else record.publish mapped id path).enqueue mapped
        message) := by
  have hdirty : ∀ other, other ≠ path →
      Function.update source.dirty path false other = false → source.dirty other = false := by
    intro other hother hclean
    rwa [Function.update_of_ne hother] at hclean
  cases hknown : record.isKnown id with
  | true =>
      have hmem : id ∈ (record.published : Set EntryId) := by
        simpa [ServerClient.isKnown] using hknown
      have hshown := h.concat_show hname (h.nameOf_known hmem hname) hmessage hreadable hshows
        hfits hdirty
      rw [Set.insert_eq_of_mem hmem, ← pending_enqueue record mapped] at hshown
      refine ⟨hshown, fun hstate other named hnamed => ?_⟩
      rcases hfinished hstate other named hnamed with hother | rfl
      · exact hother
      · exact hmem
  | false =>
      obtain ⟨hassigned, hcopy⟩ := h.concat_assign hname
      have hshown := hassigned.concat_show hname hcopy hmessage hreadable hshows hfits hdirty
      have hpending : ((record.publish mapped id path).enqueue mapped message).pending down =
          record.pending down ++ [.entryIdAssign id path] ++ [message] := by
        rw [pending_enqueue]
        exact congrArg (· ++ [message]) (pending_enqueue record mapped _ down)
      refine ⟨?_, fun hstate other named hnamed => ?_⟩
      · show Feeding _ _ _ _ _ ((insert id record.published : Finset EntryId) : Set EntryId)
        rw [Finset.coe_insert]
        exact hpending ▸ hshown
      · show other ∈ insert id record.published
        exact Finset.mem_insert.mpr (hfinished hstate other named hnamed).symm

/-- Writing moves messages from the queue of a client to its connection. -/
theorem Serves.flush (h : Serves τ fresh source copy down record) (behind : Io.Behind)
    (answers : List Bool) :
    Serves τ fresh source copy
      (down ++ (record.queue.flush behind answers).2.map Packet.message)
      (record.update (record.queue.length - (record.queue.flush behind answers).1.length)) := by
  obtain ⟨sent, hqueue, hpackets, -⟩ := MessageQueue.flush_spec behind record.queue answers
  refine ⟨?_, h.finished⟩
  have hfeeding := h.feeding
  unfold ServerClient.pending at hfeeding
  rw [hqueue] at hfeeding
  unfold ServerClient.pending
  rw [MessageQueue.queue_update, hpackets]
  exact hfeeding.filter_typed

/-! ## The server -/

namespace NetworkServer

def asSource (s : NetworkServer) (now : ℤ) : Source where
  names := s.idAssignments.find?
  registers := s.storage.registerAt
  dirty := s.storage.dirtyAt
  now := now

/-- The table of the server is fit to be sent: what is not dirty has been sent once. -/
structure Supplying (τ : Text → ValueType) (now : ℤ) (s : NetworkServer) : Prop where
  ids : s.IdsInvariant
  supplies : s.storage.Supplies (Carried τ) now
  named : ∀ path, s.storage.viewAt path ≠ none → s.storage.dirtyAt path = false →
    ∃ id, s.idAssignments.find? id = some path

/-- A time the protocol can carry. -/
structure Sendable (now : ℤ) : Prop where
  positive : 0 < now
  lt : now < 2 ^ 63

variable {s : NetworkServer} {now : ℤ} {handle : Handle} {entry : StorageEntry}

theorem Sendable.inTimeRange (h : Sendable now) {time : ℤ} (hpositive : 0 < time)
    (hle : time ≤ now) : InTimeRange time := by
  have hlt := h.lt
  constructor
  · omega
  · omega

/-- What is sent of a dirty entry shows its register. -/
theorem Supplying.shows (h : s.Supplying τ now) (hnow : Sendable now)
    (hentry : s.storage.entryAt path = some entry) (hdirty : entry.dirty = true) (id : EntryId) :
    ∃ edit, (entryMessage now entry id).notice = some (.edit id edit) ∧
      (entryMessage now entry id).Readable ∧ Shows (s.storage.registerAt path) now edit ∧
        FitsType τ path edit := by
  have hregister := Storage.registerAt_of_some hentry
  have hle := h.supplies.stamp_le path
  unfold entryMessage
  cases hdeleted : entry.deleted with
  | true =>
      have hdead : entry.view = none :=
        StorageEntry.view_of_dead (by simp [StorageEntry.hasValue, hdeleted])
      rw [hregister] at hle ⊢
      refine ⟨.erase now, rfl, ⟨portable_make, hnow.inTimeRange hnow.positive le_rfl,
        (by decide : InTimeRange 0)⟩, shows_erase hdead hle, hnow.positive.ne'⟩
  | false =>
      obtain ⟨found, hfind, hdata⟩ := Option.bind_eq_some_iff.mp hentry
      have hcreated : entry.created = false := by
        by_contra hcreated
        rw [Bool.not_eq_false] at hcreated
        rw [(h.supplies.coherent.sound hdata).clean hcreated] at hdirty
        cases hdirty
      have hlive : entry.view = some entry.value :=
        StorageEntry.view_of_live (by simp [StorageEntry.hasValue, hdeleted, hcreated])
      have hview : s.storage.viewAt path = some entry.value := by
        rw [Storage.viewAt, hentry]
        exact hlive
      have hpositive := h.supplies.positive path (hview ▸ Option.some_ne_none _)
      obtain ⟨htype, hportable⟩ := h.supplies.values path _ hview
      rw [hregister] at hle hpositive ⊢
      refine ⟨.write entry.lastUpdateTimestamp entry.value, rfl,
        ⟨hportable, hnow.inTimeRange hpositive hle, (by decide : InTimeRange 0)⟩,
        shows_write hlive le_rfl hle, ⟨hpositive.ne', htype⟩⟩

/-- The id of a dirty entry names its path; nothing else of the server changes that a
client could notice. -/
structure Identified (s : NetworkServer) (handle : Handle) (entry : StorageEntry)
    (id : EntryId) (t : NetworkServer) : Prop where
  ids : t.IdsInvariant
  assigned : t.idAssignments.find? id = some entry.path
  kept : ∀ other path, s.idAssignments.find? other = some path →
    t.idAssignments.find? other = some path
  new : ∀ other path, t.idAssignments.find? other = some path →
    s.idAssignments.find? other = some path ∨ other = id
  sameTable : Storage.SameTable s.storage t.storage
  found : ∃ data, t.storage.entries.get? handle = some data ∧ data.path = entry.path
  clients : t.clients = s.clients

/-- An entry without an id has a path without one. -/
theorem IdsInvariant.ne_path (h : s.IdsInvariant)
    (hentry : s.storage.entries.get? handle = some entry) (hnetId : entry.netId = idNotAssigned) :
    ∀ assignment ∈ s.idAssignments.entries, assignment.2 ≠ entry.path := by
  rintro ⟨id, path⟩ hassigned rfl
  have hfind := (s.idAssignments.mem_entries_iff id entry.path).mp hassigned
  have hne : id ≠ idNotAssigned := by
    rintro rfl
    rw [h.agree.assigned] at hfind
    cases hfind
  have hat := (h.agree.netId id entry.path hne).mp hfind
  rw [Storage.netIdAt, h.coherent.entryAt_path hentry] at hat
  exact hne ((Option.some.inj hat).symm.trans hnetId)

theorem IdsInvariant.idForEntry (h : s.IdsInvariant)
    (hentry : s.storage.entries.get? handle = some entry) :
    Identified s handle entry (s.idForEntry entry).2 (s.idForEntry entry).1 := by
  have hat := h.coherent.entryAt_path hentry
  unfold NetworkServer.idForEntry
  split_ifs with hnetId
  · have hroom : s.storage.HasRoom entry.path := Or.inl (by
      rw [(h.coherent.path_of_entry hentry).1]
      exact Option.some_ne_none handle)
    obtain ⟨t, hassign, ht, hfind, -, -⟩ :=
      h.assignIdToEntry (h.ne_path hentry hnetId) hroom
    obtain rfl : (s.assignIdToEntry entry.path).1 = t := congrArg Prod.fst hassign
    have hemplace : ∀ other, (s.assignIdToEntry entry.path).1.idAssignments.find? other =
        if other = s.nextEntryId then some entry.path else s.idAssignments.find? other := by
      intro other
      refine (OrderedMap.find?_emplace s.idAssignments s.nextEntryId entry.path other).trans ?_
      rw [h.find?_nextEntryId]
      rfl
    refine ⟨ht, hfind, fun other path hold => ?_, fun other path hnew => ?_,
      h.coherent.sameTable_onEntryIdAssigned s.nextEntryId entry.path,
      ⟨_, Storage.get?_perform h.coherent (.onEntryIdAssigned s.nextEntryId entry.path) hentry,
        entry.path_after _⟩, rfl⟩
    · rw [hemplace, if_neg, hold]
      rintro rfl
      rw [h.find?_nextEntryId] at hold
      cases hold
    · rw [hemplace] at hnew
      split_ifs at hnew with hother
      · exact .inr hother
      · exact .inl hnew
  · have hassigned : s.idAssignments.find? entry.netId = some entry.path := by
      rw [h.agree.netId _ _ hnetId, Storage.netIdAt, hat]
      rfl
    exact ⟨h, hassigned, fun _ _ hold => hold, fun _ _ hold => .inl hold,
      Storage.SameTable.refl _, ⟨entry, hentry, rfl⟩, rfl⟩

/-! ## The clients behind their connections -/

/-- What is known of the connections: whether the copies behind them were empty when they were
made, the copies, and what is on the way. -/
abbrev Links := ClientId → Prop → Copy → List OutMessage → Prop

structure Feeds (τ : Text → ValueType) (links : Links) (now : ℤ)
    (s : NetworkServer) : Prop extends Supplying τ now s where
  serves : ∀ id fresh copy down, links id fresh copy down →
    ∃ record, s.clients.find? id = some record ∧ Serves τ fresh (s.asSource now) copy down record

variable {links : Links} {later : ℤ} {t : NetworkServer}

/-- The server goes on without a word to its clients. -/
theorem Feeds.advance (h : s.Feeds τ links now) (ht : t.Supplying τ later)
    (hassignments : t.idAssignments = s.idAssignments)
    (hadvances : (s.asSource now).Advances (t.asSource later))
    (hclients : ∀ id fresh copy down, links id fresh copy down →
      ∀ record, s.clients.find? id = some record → ∃ record',
        t.clients.find? id = some record' ∧ record'.published = record.published ∧
        (record'.state = .inUse → record.state = .inUse) ∧
          ∀ known, Feeding τ fresh (t.asSource later) copy (record.pending down) known →
            Feeding τ fresh (t.asSource later) copy (record'.pending down) known) :
    t.Feeds τ links later where
  toSupplying := ht
  serves id fresh copy down hlink := by
    obtain ⟨record, hrecord, hserves⟩ := h.serves id fresh copy down hlink
    obtain ⟨record', hrecord', hpublished, hstate, hpending⟩ :=
      hclients id fresh copy down hlink record hrecord
    refine ⟨record', hrecord', ?_, fun hinUse other path hname => ?_⟩
    · rw [hpublished]
      exact hpending _ (hserves.feeding.advance hadvances)
    · rw [hpublished]
      refine hserves.finished (hstate hinUse) other path ?_
      show s.idAssignments.find? other = some path
      rw [← hassignments]
      exact hname

/-- The server changes the clients it has no connection to. -/
theorem Feeds.of_clients (h : s.Feeds τ links now) {t : NetworkServer}
    (hstorage : t.storage = s.storage) (hassignments : t.idAssignments = s.idAssignments)
    (hnext : t.nextEntryId = s.nextEntryId) {links' : Links}
    (hlinks : ∀ id fresh copy down, links' id fresh copy down → links id fresh copy down)
    (hclients : ∀ id fresh copy down, links' id fresh copy down →
      t.clients.find? id = s.clients.find? id) :
    t.Feeds τ links' now := by
  refine ⟨⟨h.ids.of_storage hassignments hnext hstorage, hstorage ▸ h.supplies, ?_⟩, ?_⟩
  · rw [hstorage, hassignments]
    exact h.named
  · intro id fresh copy down hlink
    have hsource : t.asSource now = s.asSource now := by
      rw [asSource, asSource, hstorage, hassignments]
    rw [hclients id fresh copy down hlink, hsource]
    exact h.serves id fresh copy down (hlinks id fresh copy down hlink)

/-! ## Ticks -/

/-- What one visit of a tick leaves: the entry has an id and is not dirty, and nothing
else of the table changes. -/
structure Published (s : NetworkServer) (now : ℤ) (handle : Handle) (entry : StorageEntry)
    (next : NetworkServer) : Prop extends
    Identified s handle entry (s.idForEntry entry).2 (s.idForEntry entry).1 where
  invariant : next.IdsInvariant
  assignments : next.idAssignments = (s.idForEntry entry).1.idAssignments
  registers : next.storage.registerAt = s.storage.registerAt
  dirty : next.storage.dirtyAt = Function.update s.storage.dirtyAt entry.path false

theorem IdsInvariant.published (h : s.IdsInvariant) (now : ℤ)
    (hentry : s.storage.entries.get? handle = some entry) :
    Published s now handle entry
      ((NetworkServer.publishDirty now entry s).2.withStorage
        ((NetworkServer.publishDirty now entry s).2.storage.clearDirty handle)) := by
  have hid := h.idForEntry hentry
  obtain ⟨data, hdata, hpath⟩ := hid.found
  obtain ⟨hregisters, hdirtyAt⟩ := hid.ids.coherent.clearDirty_at hdata
  rw [hpath] at hdirtyAt
  have hstorage : (NetworkServer.publishDirty now entry s).2.storage =
      (s.idForEntry entry).1.storage := rfl
  have hpublished : (NetworkServer.publishDirty now entry s).2.IdsInvariant :=
    hid.ids.of_storage rfl rfl hstorage
  refine ⟨hid, ?_, rfl, ?_, ?_⟩
  · refine hpublished.of_sameIds rfl rfl (hid.ids.coherent.clearDirty handle) ?_
    exact Storage.sameIds_clearDirty (s.idForEntry entry).1.storage handle
  · exact hregisters.trans (funext fun path => (hid.sameTable path).1)
  · refine hdirtyAt.trans ?_
    exact congrArg (Function.update · entry.path false) (funext fun path => (hid.sameTable path).2)

/-- A dirty entry is sent to every client, and is not dirty any more. -/
theorem Feeds.publishDirty (h : s.Feeds τ links now) (hnow : Sendable now)
    (hentry : s.storage.entries.get? handle = some entry) (hdirty : entry.dirty = true) :
    Feeds τ links now
      ((NetworkServer.publishDirty now entry s).2.withStorage
        ((NetworkServer.publishDirty now entry s).2.storage.clearDirty handle)) := by
  have hpublished := h.ids.published now hentry
  obtain ⟨edit, hnotice, hreadable, hshows, hfits⟩ :=
    h.shows hnow (h.ids.coherent.entryAt_path hentry) hdirty (s.idForEntry entry).2
  refine ⟨⟨hpublished.invariant, ?_, fun path hview hclean => ?_⟩, fun client fresh copy down hlink => ?_⟩
  · exact h.supplies.of_registers (congrFun hpublished.registers) hpublished.invariant.coherent
  · rw [← Storage.content_registerAt, hpublished.registers, Storage.content_registerAt] at hview
    rw [hpublished.dirty, Function.update_apply] at hclean
    split_ifs at hclean with hother
    · exact ⟨(s.idForEntry entry).2, hother ▸ hpublished.assigned⟩
    · obtain ⟨other, hassigned⟩ := h.named path hview hclean
      exact ⟨other, hpublished.kept other path hassigned⟩
  · obtain ⟨record, hrecord, hserves⟩ := h.serves client fresh copy down hlink
    have hadvances : (s.asSource now).Advances
        { s.asSource now with names := (s.idForEntry entry).1.idAssignments.find? } :=
      ⟨hpublished.kept, le_rfl, fun path => .inl ⟨rfl, rfl⟩⟩
    have hfinished : record.state = .inUse → ∀ other named,
        (s.idForEntry entry).1.idAssignments.find? other = some named →
          other ∈ record.published ∨ other = (s.idForEntry entry).2 :=
      fun hstate other named hnamed =>
        (hpublished.new other named hnamed).imp_left (hserves.finished hstate other named)
    have hserved := serves_report ((s.idForEntry entry).1.storage.pathOfId (s.idForEntry entry).2)
      (hserves.feeding.advance hadvances) hfinished hpublished.assigned hnotice hreadable hshows
      hfits
    have hclients := clients_publishDirty (s := s) now entry
    have hfind := (congrArg (OrderedMap.find? · client) hclients).trans
      (OrderedMap.find?_mapValues ..)
    rw [hrecord, Option.map_some] at hfind
    refine ⟨_, hfind, ?_⟩
    rw [asSource, hpublished.registers, hpublished.dirty]
    exact hserved

theorem Feeds.publishUpdates (h : s.Feeds τ links now) (hnow : Sendable now) :
    (s.publishUpdates now).Feeds τ links now := by
  apply Storage.actOnDirtyEntries_of_step storage withStorage (fun _ _ => rfl) _ h
  intro t handle entry ht hentry hdirty
  exact ht.publishDirty hnow hentry hdirty

/-- An entry has its path already, so that an id marks nothing. -/
theorem marks_onEntryIdAssigned {storage : Storage} (h : storage.Coherent)
    (hentry : storage.entries.get? handle = some entry) (id : EntryId) (other : Handle) :
    (storage.onEntryIdAssigned id entry.path).1.marks other = storage.marks other := by
  have hpath := (h.path_of_entry hentry).1
  unfold Storage.marks
  simp only [Storage.onEntryIdAssigned, Storage.findOrCreate, hpath, hentry]
  rw [HandleTable.get?_modify]
  split_ifs
  · rw [Option.map_map]
    rfl
  · rfl

theorem alwaysResumes_publishDirty (now : ℤ) :
    Storage.AlwaysResumes storage (NetworkServer.publishDirty now) where
  resumes _ _ := rfl
  coherent {handle entry s} h hentry := by
    show (s.idForEntry entry).1.storage.Coherent
    unfold NetworkServer.idForEntry
    split_ifs
    · exact h.onEntryIdAssigned s.nextEntryId entry.path
    · exact h
  marks {handle entry s} h hentry other := by
    show (s.idForEntry entry).1.storage.marks other = _
    unfold NetworkServer.idForEntry
    split_ifs
    · exact marks_onEntryIdAssigned h hentry s.nextEntryId other
    · rfl

/-- After a tick nothing is dirty. -/
theorem dirtyAt_publishUpdates (h : s.storage.Coherent) (now : ℤ) (path : Text) :
    (s.publishUpdates now).storage.dirtyAt path = false := by
  have hset : ∀ (t : NetworkServer) new, storage (t.withStorage new) = new := fun _ _ => rfl
  have htakes := Storage.takesAll hset (alwaysResumes_publishDirty now) h
  have hpass : (Storage.recordedPass storage withStorage (NetworkServer.publishDirty now) s).1 =
      s.publishUpdates now :=
    Storage.actOnDirtyEntries_map _ _ Prod.fst (fun _ => rfl) (fun _ _ => rfl)
      (fun _ _ => rfl) (s, [])
  have hnone := htakes.none
  rw [hpass] at hnone
  unfold Storage.dirtyAt Storage.entryAt
  cases hpath : (s.publishUpdates now).storage.paths.find? path with
  | none => rfl
  | some handle =>
      rw [Option.bind_some]
      cases hentry : (s.publishUpdates now).storage.entries.get? handle with
      | none => rfl
      | some entry =>
          have hclean := hnone handle
          unfold Storage.isDirty Storage.marks at hclean
          rw [hentry] at hclean
          exact hclean

/-- A tick keeps the ids and the registers. -/
theorem IdsInvariant.publishUpdates (h : s.IdsInvariant) (now : ℤ) :
    (s.publishUpdates now).storage.registerAt = s.storage.registerAt ∧
      ∀ id path, s.idAssignments.find? id = some path →
        (s.publishUpdates now).idAssignments.find? id = some path := by
  unfold NetworkServer.publishUpdates
  apply And.right (a := NetworkServer.IdsInvariant _)
  apply Storage.actOnDirtyEntries_of_step storage withStorage
    (I := fun t => t.IdsInvariant ∧ t.storage.registerAt = s.storage.registerAt ∧
      ∀ id path, s.idAssignments.find? id = some path → t.idAssignments.find? id = some path)
    (fun _ _ => rfl) _ ⟨h, rfl, fun _ _ hname => hname⟩
  rintro t handle entry ⟨ht, hregisters, hnames⟩ hentry -
  have hpublished := ht.published now hentry
  refine ⟨hpublished.invariant, hpublished.registers.trans hregisters, fun id path hname => ?_⟩
  exact hpublished.kept id path (hnames id path hname)

theorem IdsInvariant.follows_updateWith (h : s.IdsInvariant) (now : ℤ) (opened : Bool)
    (behind : Io.Behind) (answers : ClientId → List Bool) :
    (s.asSource now).Follows ((s.updateWith now opened behind answers).asSource now) := by
  have hsame : (s.asSource now).Follows (s.asSource now) :=
    ⟨fun _ _ hname => hname, le_rfl, fun _ => .inl rfl⟩
  unfold NetworkServer.updateWith NetworkServer.update
  cases s.state with
  | opening =>
      dsimp only
      split_ifs <;> exact hsame
  | inUse =>
      dsimp only
      split_ifs
      · exact hsame
      · obtain ⟨hregisters, hnames⟩ := h.publishUpdates now
        exact ⟨hnames, le_rfl, fun path => .inl (congrFun hregisters path)⟩

/-- The connections once the queues have been written. -/
def Links.flushed (links : Links) (s : NetworkServer) (now : ℤ) (behind : Io.Behind)
    (answers : ClientId → List Bool) : Links :=
  fun id fresh copy down' => ∃ down, links id fresh copy down ∧
    down' = down ++ (s.written now behind answers id).2.map Packet.message

/-- A server that is opening writes nothing. -/
theorem Feeds.updateWith_opening (h : s.Feeds τ links now) (hstate : s.state = .opening)
    (opened : Bool) (behind : Io.Behind) (answers : ClientId → List Bool) :
    (s.updateWith now opened behind answers).Feeds τ
      (links.flushed s now behind answers) now := by
  have hlinks : ∀ id fresh copy down', links.flushed s now behind answers id fresh copy down' →
      links id fresh copy down' := by
    rintro id fresh copy down' ⟨down, hlink, rfl⟩
    rwa [NetworkServer.written, hstate, List.map_nil, List.append_nil]
  unfold NetworkServer.updateWith NetworkServer.update
  rw [hstate]
  dsimp only
  split_ifs
  · exact h.of_clients (t := { s with state := .inUse }) rfl rfl rfl hlinks fun _ _ _ _ _ => rfl
  · exact h.of_clients rfl rfl rfl hlinks fun _ _ _ _ _ => rfl

theorem Feeds.updateWith_inUse (h : s.Feeds τ links now) (hnow : Sendable now)
    (hstate : s.state = .inUse) (opened : Bool) (behind : Io.Behind)
    (answers : ClientId → List Bool) :
    (s.updateWith now opened behind answers).Feeds τ
      (links.flushed s now behind answers) now := by
  unfold NetworkServer.updateWith NetworkServer.update
  rw [hstate]
  dsimp only
  split_ifs with hempty
  · refine ⟨h.toSupplying, fun id fresh copy down' hlink => ?_⟩
    obtain ⟨down, hlink, -⟩ := hlink
    obtain ⟨record, hrecord, -⟩ := h.serves id fresh copy down hlink
    have hmem := (s.clients.mem_entries_iff id record).mpr hrecord
    rw [List.isEmpty_iff.mp hempty] at hmem
    cases hmem
  · have hpublished := h.publishUpdates hnow
    refine ⟨⟨hpublished.ids.of_storage rfl rfl rfl, hpublished.supplies, hpublished.named⟩, ?_⟩
    rintro id fresh copy down' ⟨down, hlink, rfl⟩
    obtain ⟨record, hrecord, hserves⟩ := hpublished.serves id fresh copy down hlink
    have hqueue : (s.publishUpdates now).queueOf id = record.queue := by
      rw [queueOf, hrecord]
      rfl
    have hwritten : s.written now behind answers id = record.queue.flush behind (answers id) := by
      rw [NetworkServer.written, hstate, hqueue]
    refine ⟨_, (OrderedMap.find?_mapValues ..).trans (congrArg (Option.map _) hrecord), ?_⟩
    show Serves τ fresh ((s.publishUpdates now).asSource now) copy _ (record.update
      (((s.publishUpdates now).queueOf id).length - (s.written now behind answers id).1.length))
    rw [hwritten, hqueue]
    exact hserves.flush behind (answers id)

/-- The record of a client after a tick of a server in use. -/
theorem find?_updateWith {id : ClientId} {record : ServerClient} (hstate : s.state = .inUse)
    (hrecord : s.clients.find? id = some record) (now : ℤ) (opened : Bool) (behind : Io.Behind)
    (answers : ClientId → List Bool) :
    (s.updateWith now opened behind answers).storage = (s.publishUpdates now).storage ∧
      ∃ record', (s.updateWith now opened behind answers).clients.find? id = some record' ∧
        record'.state = record.state ∧
          record'.queue = (s.written now behind answers id).1 := by
  have hpublished : ∃ record', (s.publishUpdates now).clients.find? id = some record' ∧
      record'.state = record.state := by
    refine Storage.actOnDirtyEntries_of_invariant storage withStorage
      (I := fun t => ∃ record', t.clients.find? id = some record' ∧ record'.state = record.state)
      ?_ (fun _ _ ht => ht) ⟨record, hrecord, rfl⟩
    rintro t handle entry ⟨record', hrecord', hstate'⟩ -
    have hfind := (congrArg (OrderedMap.find? · id) (clients_publishDirty (s := t) now entry)).trans
      (OrderedMap.find?_mapValues ..)
    rw [hrecord', Option.map_some] at hfind
    refine ⟨_, hfind, ?_⟩
    dsimp only
    split_ifs <;> exact hstate'
  obtain ⟨record', hrecord', hstate'⟩ := hpublished
  have hqueue : (s.publishUpdates now).queueOf id = record'.queue := by
    rw [queueOf, hrecord']
    rfl
  have hsome : s.clients.entries.isEmpty = false := by
    rw [List.isEmpty_eq_false_iff]
    exact List.ne_nil_of_mem ((s.clients.mem_entries_iff id record).mpr hrecord)
  unfold NetworkServer.updateWith NetworkServer.update NetworkServer.written
  rw [hstate]
  dsimp only
  rw [if_neg (by simp [hsome])]
  refine ⟨rfl, _, (OrderedMap.find?_mapValues ..).trans (congrArg (Option.map _) hrecord'),
    hstate', ?_⟩
  have hleft := MessageQueue.queue_update record' behind (answers id)
  rw [← hqueue] at hleft
  exact hleft

theorem Feeds.updateWith (h : s.Feeds τ links now) (hnow : Sendable now) (opened : Bool)
    (behind : Io.Behind) (answers : ClientId → List Bool) :
    (s.updateWith now opened behind answers).Feeds τ
      (links.flushed s now behind answers) now := by
  cases hstate : s.state with
  | opening => exact h.updateWith_opening hstate opened behind answers
  | inUse => exact h.updateWith_inUse hnow hstate opened behind answers

/-! ## Edits and connections -/

theorem Supplying.wait (h : s.Supplying τ now) (hlater : now ≤ later) : s.Supplying τ later :=
  ⟨h.ids, h.supplies.wait hlater, h.named⟩

theorem Feeds.wait (h : s.Feeds τ links now) (hlater : now ≤ later) :
    s.Feeds τ links later := by
  apply h.advance (h.toSupplying.wait hlater) rfl ⟨fun _ _ hname => hname, hlater,
    fun _ => .inl ⟨rfl, rfl⟩⟩
  intro id fresh copy down _ record hrecord
  exact ⟨record, hrecord, rfl, fun hstate => hstate, fun _ hfeeding => hfeeding⟩

/-- An edit of the server: all but clearing a value, which the protocol does not carry. -/
def LocalOperation.IsEdit (τ : Text → ValueType) (s : Storage) : LocalOperation → Prop
  | .setEntryValue entry value => ∀ data, s.entries.get? entry = some data →
      Carried τ data.path value
  | .clearEntry _ => False
  | _ => True

theorem LocalOperation.IsEdit.operation {storage : Storage} {op : LocalOperation}
    (h : op.IsEdit τ storage) (now : ℤ) : (op.operation now).IsEdit now := by
  cases op with
  | getOrCreateEntry path => exact .getOrCreateEntry path
  | setEntryValue entry value => exact .setEntryValue entry value
  | clearEntry entry => exact absurd h id
  | deleteEntry entry => exact .deleteEntry entry
  | deleteEntries path => exact .deleteEntries path

theorem Supplying.edit (h : s.Supplying τ now) (hlater : now ≤ later) (hpositive : 0 < later)
    {op : LocalOperation} (hop : op.IsEdit τ s.storage) :
    let next := s.withStorage (s.storage.perform (op.operation later))
    next.Supplying τ later ∧ (s.asSource now).Advances (next.asSource later) := by
  obtain ⟨hsupplies, hregisters⟩ := h.supplies.edit carried_uniform (hop.operation later) hlater
    hpositive (by
      intro entry value data heq hdata
      cases op with
      | setEntryValue target new =>
          cases heq
          exact hop data hdata
      | _ => cases heq)
  refine ⟨⟨?_, hsupplies, fun path hview hclean => ?_⟩, fun _ _ hname => hname, hlater, hregisters⟩
  · exact h.ids.of_sameIds rfl rfl (h.ids.coherent.perform _)
      (sameIds_operation h.ids.coherent later op)
  · rcases hregisters path with ⟨hsame, hdirty⟩ | ⟨-, hdirty⟩
    · have hviews : s.storage.viewAt path ≠ none := by
        rw [← Storage.content_registerAt, ← hsame, Storage.content_registerAt]
        exact hview
      exact h.named path hviews (hdirty ▸ hclean)
    · cases (show (s.storage.perform (op.operation later)).dirtyAt path = false from
        hclean).symm.trans hdirty

theorem Feeds.edit (h : s.Feeds τ links now) (hlater : now ≤ later)
    (hpositive : 0 < later) {op : LocalOperation} (hop : op.IsEdit τ s.storage) :
    (s.withStorage (s.storage.perform (op.operation later))).Feeds τ links later := by
  obtain ⟨hsupplying, hadvances⟩ := h.toSupplying.edit hlater hpositive hop
  refine h.advance hsupplying rfl hadvances fun id fresh copy down _ record hrecord => ?_
  exact ⟨record, hrecord, rfl, fun hstate => hstate, fun _ hfeeding => hfeeding⟩

/-- A new client has a copy that trails the server. -/
theorem Feeds.onConnect (h : s.Feeds τ links now) {id : ClientId} {copy : Copy}
    (hfree : s.clients.find? id = none) (hcopy : Trails (s.asSource now) copy)
    (hblank : fresh → ∀ path, (copy.registers path).content = none) :
    (s.onConnect id).Feeds τ
      (fun other fresh' copy' down => links other fresh' copy' down ∨
        other = id ∧ fresh' = fresh ∧ copy' = copy ∧ down = [])
      now := by
  refine ⟨⟨h.ids.of_storage rfl rfl rfl, h.supplies, h.named⟩, ?_⟩
  rintro other fresh' copy' down (hlink | ⟨rfl, rfl, rfl, rfl⟩)
  · obtain ⟨record, hrecord, hserves⟩ := h.serves other fresh' copy' down hlink
    have hother : other ≠ id := by
      rintro rfl
      rw [hfree] at hrecord
      cases hrecord
    exact ⟨record, (s.find?_onConnect hother).trans hrecord, hserves⟩
  · refine ⟨_, find?_onConnect_self hfree, ⟨?_, ?_⟩⟩
    · have hinforms : Mirror.Informs (FitsType τ) (s.asSource now) ∅ fresh' copy' [] :=
        hcopy.informs hblank
      refine ⟨?_, fun message hmessage => absurd hmessage List.not_mem_nil⟩
      show Mirror.Informs (FitsType τ) (s.asSource now) ((∅ : Finset EntryId) : Set EntryId)
        fresh' copy' []
      rw [Finset.coe_empty]
      exact hinforms
    · intro hstate
      cases hstate

/-! ## Messages of a client -/

theorem Feeds.parsed (h : s.Feeds τ links now) (parser : MessageParser) :
    ({ s with parser } : NetworkServer).Feeds τ links now :=
  h.of_clients (t := { s with parser }) rfl rfl rfl (fun _ _ _ _ hlink => hlink)
    fun _ _ _ _ _ => rfl

/-- The answer to a request for the time tells nothing. -/
theorem Feeds.enqueueMessageForClient (h : s.Feeds τ links now) (sender : ClientId)
    {message : OutMessage} (hmessage : message.notice = none) (written : Bool) :
    (s.enqueueMessageForClient sender message written).Feeds τ links now := by
  refine ⟨⟨h.ids.of_storage rfl rfl rfl, h.supplies, h.named⟩, fun id fresh copy down hlink => ?_⟩
  obtain ⟨record, hrecord, hserves⟩ := h.serves id fresh copy down hlink
  have hfind : (s.enqueueMessageForClient sender message written).clients.find? id =
      some (if id = sender then
        record.enqueueImmediate (s.storage.pathOfId message.id) message written else record) := by
    refine (OrderedMap.find?_modify ..).trans ?_
    rw [hrecord]
    split_ifs
    · rfl
    · rfl
  refine ⟨_, hfind, ?_⟩
  split_ifs
  · refine ⟨?_, hserves.finished⟩
    cases written with
    | true => exact hserves.feeding
    | false => exact hserves.feeding.insert_mute hmessage
  · exact hserves

/-- One id in the loop of the handshake. -/
theorem feeding_publishAssignment (h : s.Supplying τ now) (hnow : Sendable now)
    {record : ServerClient}
    (hfeeding : Feeding τ fresh (s.asSource now) copy (record.pending down) record.published)
    (hname : s.idAssignments.find? id = some path) :
    let next := publishAssignment s.storage now record (id, path)
    Feeding τ fresh (s.asSource now) copy (next.pending down) next.published ∧
      next.published = insert id record.published := by
  have hpath : s.storage.pathOfId id = some path := by
    rw [← h.ids.agree.find?_eq_pathOfId h.ids.coherent, hname]
  have hview := h.ids.coherent.getEntryValueFromId_eq hpath
  unfold publishAssignment
  dsimp only
  cases hknown : record.isKnown id with
  | true =>
      have hmem : id ∈ record.published := by simpa [ServerClient.isKnown] using hknown
      exact ⟨hfeeding, (Finset.insert_eq_of_mem hmem).symm⟩
  | false =>
      have hpending := pending_enqueue record (s.storage.pathOfId id) (.entryIdAssign id path) down
      rw [if_neg Bool.false_ne_true, hview]
      cases hvalue : s.storage.viewAt path with
      | none =>
          have hempty : ((s.asSource now).registers path).content = none :=
            (Storage.content_registerAt ..).trans hvalue
          refine ⟨?_, rfl⟩
          show Feeding _ _ _ _ _ ((insert id record.published : Finset EntryId) : Set EntryId)
          rw [Finset.coe_insert]
          exact hpending ▸ hfeeding.concat_empty hname hempty
      | some value =>
          have hsource : (s.asSource now).names id = some path := hname
          obtain ⟨hassigned, hcopy⟩ := hfeeding.concat_assign hsource
          obtain ⟨htype, hportable⟩ := h.supplies.values path value hvalue
          have hshows : Shows ((s.asSource now).registers path) now (.write now value) :=
            shows_write ((Storage.content_registerAt ..).trans hvalue)
              (h.supplies.stamp_le path) le_rfl
          have hreadable : (OutMessage.entryUpdate now id value).Readable :=
            ⟨hportable, hnow.inTimeRange hnow.positive le_rfl, (by decide : InTimeRange 0)⟩
          have hnotice : (OutMessage.entryUpdate now id value).notice =
            some (.edit id (.write now value)) := rfl
          have hshown := hassigned.concat_show hsource hcopy hnotice hreadable hshows
            ⟨hnow.positive.ne', htype⟩ fun _ _ (hclean : (s.asSource now).dirty _ = false) => hclean
          refine ⟨?_, rfl⟩
          show Feeding _ _ _ _ _ ((insert id record.published : Finset EntryId) : Set EntryId)
          rw [Finset.coe_insert, pending_enqueue]
          exact (congrArg (· ++ _) hpending) ▸ hshown

/-- The loop of the handshake tells every id there is. -/
theorem feeding_handshake (h : s.Supplying τ now) (hnow : Sendable now)
    {assignments : List (EntryId × Text)}
    (hassignments : ∀ assignment ∈ assignments,
      s.idAssignments.find? assignment.1 = some assignment.2) {record : ServerClient}
    (hfeeding : Feeding τ fresh (s.asSource now) copy (record.pending down) record.published) :
    let next := assignments.foldl (publishAssignment s.storage now) record
    Feeding τ fresh (s.asSource now) copy (next.pending down) next.published ∧
      (∀ id ∈ record.published, id ∈ next.published) ∧
        ∀ assignment ∈ assignments, assignment.1 ∈ next.published := by
  induction assignments generalizing record with
  | nil => exact ⟨hfeeding, fun _ hid => hid, fun _ hmem => absurd hmem List.not_mem_nil⟩
  | cons assignment assignments ih =>
      obtain ⟨hfirst, hothers⟩ := List.forall_mem_cons.mp hassignments
      obtain ⟨hnext, hpublished⟩ := feeding_publishAssignment h hnow hfeeding hfirst
      obtain ⟨hlast, hkept, htold⟩ := ih hothers hnext
      refine ⟨hlast, fun id hid => hkept id ?_, fun other hother => ?_⟩
      · rw [hpublished]
        exact Finset.mem_insert_of_mem hid
      · rcases List.mem_cons.mp hother with rfl | hother
        · apply hkept
          rw [hpublished]
          exact Finset.mem_insert_self ..
        · exact htold other hother

theorem Feeds.handleDoHandshakeForClient (h : s.Feeds τ links now) (hnow : Sendable now)
    (sender : ClientId) :
    (s.handleDoHandshakeForClient now sender).Feeds τ links now := by
  refine ⟨⟨h.ids.of_storage rfl rfl rfl, h.supplies, h.named⟩, fun id fresh copy down hlink => ?_⟩
  obtain ⟨record, hrecord, hserves⟩ := h.serves id fresh copy down hlink
  have hfind := OrderedMap.find?_modify s.clients sender (fun client =>
    ((s.idAssignments.entries.foldl (publishAssignment s.storage now) client).enqueue
      (s.storage.pathOfId 0) .handshakeFinished).setState .inUse) id
  rw [hrecord] at hfind
  split_ifs at hfind with hid
  · obtain ⟨hfeeding, -, htold⟩ := feeding_handshake h.toSupplying hnow
      (fun assignment hmem => (s.idAssignments.mem_entries_iff ..).mp hmem) hserves.feeding
    refine ⟨_, hfind, ?_, fun _ other path hname => ?_⟩
    · have hmute : OutMessage.handshakeFinished.notice = none := rfl
      have hfinished := hfeeding.concat_mute hmute
      exact (pending_enqueue _ (s.storage.pathOfId 0) _ down) ▸ hfinished
    · exact htold (other, path) ((s.idAssignments.mem_entries_iff ..).mpr hname)
  · exact ⟨record, hfind, hserves⟩

theorem Feeds.onMessage (h : s.Feeds τ links now) (hnow : Sendable now)
    (sender : ClientId) {type : UInt8} (htype : Listening (.ofByte type))
    (payload : List UInt8) (written : Bool) :
    (s.onMessage now sender type payload written).Feeds τ links now := by
  unfold NetworkServer.onMessage
  dsimp only
  have hparsed := h.parsed (s.parser.parse (.ofByte type) payload)
  split_ifs
  · rcases htype with htype | htype
    · rw [htype] at hparsed ⊢
      exact hparsed.enqueueMessageForClient sender rfl written
    · rw [htype] at hparsed ⊢
      exact hparsed.handleDoHandshakeForClient hnow sender
  · exact hparsed

theorem asSource_onMessage (s : NetworkServer) (now : ℤ) (sender : ClientId) {type : UInt8}
    (htype : Listening (.ofByte type)) (payload : List UInt8) (written : Bool) :
    (s.onMessage now sender type payload written).asSource now = s.asSource now := by
  unfold NetworkServer.onMessage
  dsimp only
  split_ifs
  · rcases htype with htype | htype <;> rw [htype] <;> rfl
  · rfl

/-- The answer to a request tells nothing of the table. -/
theorem answer_mute (s : NetworkServer) (now : ℤ) (sender : ClientId) (packet : Packet)
    (behind : Io.Behind) (written : Bool) :
    ∀ reply ∈ s.answer now sender packet behind written,
      reply.Made ∧ reply.message.notice = none := by
  intro reply hreply
  obtain ⟨hmade, sendTime, hmessage⟩ := s.made_answer hreply
  exact ⟨hmade, by rw [hmessage]; rfl⟩

/-! ## What happens to the connections -/

/-- Each connection there is comes from one that was as good. -/
theorem Feeds.relink (h : s.Feeds τ links now) {links' : Links}
    (hlinks : ∀ id fresh copy' down', links' id fresh copy' down' →
      ∃ copy down, links id fresh copy down ∧
        ∀ queue known, Feeding τ fresh (s.asSource now) copy (down ++ queue) known →
          Feeding τ fresh (s.asSource now) copy' (down' ++ queue) known) :
    s.Feeds τ links' now := by
  refine ⟨h.toSupplying, fun id fresh copy' down' hlink => ?_⟩
  obtain ⟨copy, down, hbefore, hfeeds⟩ := hlinks id fresh copy' down' hlink
  obtain ⟨record, hrecord, hserves⟩ := h.serves id fresh copy down hbefore
  exact ⟨record, hrecord, hfeeds record.queue _ hserves.feeding, hserves.finished⟩

end NetworkServer

end Obsr.Net
