/-
# Collisions

A path has a value at the server and another one at a client that was not connected
when it was set. This module follows the exchange after the client connects: the
handshake of the server, the messages of the handshake at the client, and the next
storage pass of the client at the server.
-/

import Obsr.Net.LocalEdit
import Obsr.Net.MessageRoundTrip
import Obsr.Net.NetworkClient
import Obsr.Net.ServerIds
import Obsr.Storage.Foreign

namespace Obsr.Net

open Obsr.Lib

/-! ## Handling messages in order -/

/-- A handler that is called for each of the messages in order, each time with data
that show the message. -/
inductive Handles {σ : Type} (handler : ℤ → MessageType → ParseData → σ → σ) :
    List OutMessage → σ → σ → Prop
  | nil {s : σ} : Handles handler [] s s
  | cons {message : OutMessage} {messages : List OutMessage} {s s' : σ} (timeNow : ℤ)
      {data : ParseData} (shown : message.ShownBy data)
      (others : Handles handler messages (handler timeNow message.type data s) s') :
      Handles handler (message :: messages) s s'

namespace Handles

variable {σ : Type} {handler : ℤ → MessageType → ParseData → σ → σ}
  {messages others : List OutMessage} {s s' : σ}

theorem append (h : Handles handler (messages ++ others) s s') :
    ∃ t, Handles handler messages s t ∧ Handles handler others t s' := by
  induction messages generalizing s with
  | nil => exact ⟨s, .nil, h⟩
  | cons message messages ih =>
      cases h with
      | cons timeNow shown rest =>
          obtain ⟨t, hfirst, hothers⟩ := ih rest
          exact ⟨t, .cons timeNow shown hfirst, hothers⟩

/-- What every message of a list keeps is kept by all of them. -/
theorem invariant {I : σ → Prop} (h : Handles handler messages s s')
    (hstep : ∀ message ∈ messages, ∀ timeNow data s, message.ShownBy data → I s →
      I (handler timeNow message.type data s)) (hs : I s) : I s' := by
  induction h with
  | nil => exact hs
  | @cons message messages s s' timeNow data shown rest ih =>
      apply ih
      · exact fun other hother => hstep other (List.mem_cons_of_mem _ hother)
      · exact hstep message (List.mem_cons_self ..) timeNow data s shown hs

end Handles

/-- The handler of the client. -/
def NetworkClient.receive (timeNow : ℤ) (type : MessageType) (data : ParseData)
    (s : NetworkClient) : NetworkClient :=
  s.handle timeNow type data

/-- The handler of the server for the messages of one client. -/
def NetworkServer.receive (sender : ClientId) (written : Bool) (now : ℤ) (type : MessageType)
    (data : ParseData) (s : NetworkServer) : NetworkServer :=
  s.handle now sender type data written

namespace Collision

/-! ## The exchange -/

/-- The server after a client has connected and sent its `handshake_ready`. -/
def welcomed (server : NetworkServer) (now : ℤ) (sender : ClientId) : NetworkServer :=
  (server.onConnect sender).handleDoHandshakeForClient now sender

/-- The messages this enqueues for the client. -/
def greeting (server : NetworkServer) (now : ℤ) (sender : ClientId) : MessageQueue :=
  ((welcomed server now sender).clients.find? sender).elim [] ServerClient.queue

/-- The client handles them, its storage makes a pass, and the server handles the
messages of the pass. -/
def Exchange (server : NetworkServer) (client : NetworkClient) (sender : ClientId) (now : ℤ)
    (server' : NetworkServer) (client' : Storage) : Prop :=
  ∃ (greeted : NetworkClient) (timeNow : ℤ) (written : Bool),
    Handles NetworkClient.receive (greeting server now sender) client greeted ∧
      (NetworkClient.processStorage timeNow greeted.storage []).1 = client' ∧
      Handles (NetworkServer.receive sender written)
        (NetworkClient.processStorage timeNow greeted.storage []).2
        (welcomed server now sender) server'

/-- The path has a value at the server, where an id is assigned to it, and a value
of the same type at the client; with each comes the time it was set at. -/
structure Setup (server : NetworkServer) (client : Storage) (path : Text)
    (atServer atClient : ℤ × Value) : Prop where
  serverCoherent : server.storage.Coherent
  clientCoherent : client.Coherent
  assigned : ∃ id, server.idAssignments.find? id = some path ∧
    server.storage.pathOfId id = some path
  server : ∃ data, server.storage.entryAt path = some data ∧
    data.lastUpdateTimestamp = atServer.1 ∧ data.view = some atServer.2
  client : ∃ data, client.entryAt path = some data ∧
    data.lastUpdateTimestamp = atClient.1 ∧ data.view = some atClient.2
  sameType : atServer.2.type = atClient.2.type

/-- The server has assigned the id to the path. -/
def Assigned (server : NetworkServer) (path : Text) (id : EntryId) : Prop :=
  server.idAssignments.find? id = some path

/-- The ids of the path are those the server has assigned to it, wherever one of them
is known: in `m_ids` of either side and at the entries of the client. -/
structure Agrees (server : NetworkServer) (client : Storage) (path : Text) : Prop where
  mapped : ∀ id other, server.storage.pathOfId id = some other →
    (Assigned server path id ↔ other = path)
  known : ∀ id other, client.pathOfId id = some other →
    (Assigned server path id ↔ other = path)
  held : ∀ id other, client.netIdAt other = some id → Assigned server path id →
    other = path ∨ id = idNotAssigned

/-- This is so of a server whose records agree and a client that knows ids from it
only. -/
theorem agrees_of_idsAgree {server : NetworkServer} {client : Storage}
    (hserver : server.storage.Coherent) (hagree : server.IdsAgree)
    (hmapped : ∀ id path, client.pathOfId id = some path → Assigned server path id)
    (hheld : ∀ id path, id ≠ idNotAssigned → client.netIdAt path = some id →
      Assigned server path id) (path : Text) :
    Agrees server client path := by
  have honly : ∀ {id other}, Assigned server other id →
      (Assigned server path id ↔ other = path) := by
    intro id other hother
    constructor
    · intro hpath
      exact Option.some.inj (hother.symm.trans hpath)
    · rintro rfl
      exact hother
  refine ⟨fun id other hother => ?_, fun id other hother => honly (hmapped id other hother),
    fun id other hother hpath => ?_⟩
  · rw [← hagree.find?_eq_pathOfId hserver] at hother
    exact honly hother
  · refine or_iff_not_imp_right.mpr fun hid => ?_
    exact (honly (hheld id other hid hother)).mp hpath

/-- Both storages hold the value with the latest time. -/
def Resolves (server' : NetworkServer) (client' : Storage) (path : Text)
    (atServer atClient : ℤ × Value) : Prop :=
  let latest := if atClient.1 < atServer.1 then atServer.2 else atClient.2
  server'.storage.viewAt path = some latest ∧ client'.viewAt path = some latest

/-! ## The messages of the handshake -/

/-- The messages for an assigned id. -/
def introduction (storage : Storage) (now : ℤ) (assignment : EntryId × Text) :
    List OutMessage :=
  .entryIdAssign assignment.1 assignment.2 ::
    ((storage.getEntryValueFromId assignment.1).map
      (OutMessage.entryUpdate now assignment.1)).toList

theorem queue_publishAssignment (storage : Storage) (now : ℤ) {client : ServerClient}
    {assignment : EntryId × Text} (hnew : client.isKnown assignment.1 = false) :
    (NetworkServer.publishAssignment storage now client assignment).queue =
        client.queue ++ introduction storage now assignment ∧
      (NetworkServer.publishAssignment storage now client assignment).published =
        insert assignment.1 client.published := by
  unfold NetworkServer.publishAssignment introduction
  rw [if_neg (by simp [hnew])]
  cases storage.getEntryValueFromId assignment.1 with
  | none => exact ⟨rfl, rfl⟩
  | some value => exact ⟨List.append_assoc .., rfl⟩

theorem queue_publishAssignments (storage : Storage) (now : ℤ)
    {assignments : List (EntryId × Text)}
    (hsorted : assignments.Pairwise fun first second => first.1 < second.1)
    {client : ServerClient}
    (hnew : ∀ assignment ∈ assignments, client.isKnown assignment.1 = false) :
    (assignments.foldl (NetworkServer.publishAssignment storage now) client).queue =
      client.queue ++ assignments.flatMap (introduction storage now) := by
  induction assignments generalizing client with
  | nil => exact (List.append_nil _).symm
  | cons first rest ih =>
      obtain ⟨hfirst, hrest⟩ := List.pairwise_cons.mp hsorted
      obtain ⟨hnewFirst, hnewRest⟩ := List.forall_mem_cons.mp hnew
      obtain ⟨hqueue, hpublished⟩ :=
        queue_publishAssignment storage now hnewFirst
      have hstill : ∀ assignment ∈ rest,
          (NetworkServer.publishAssignment storage now client first).isKnown assignment.1 =
            false := by
        intro assignment hmem
        have hother := hnewRest assignment hmem
        unfold ServerClient.isKnown at hother ⊢
        rw [hpublished, decide_eq_false_iff_not, Finset.mem_insert, not_or]
        exact ⟨(hfirst assignment hmem).ne', of_decide_eq_false hother⟩
      rw [List.foldl_cons, ih hrest hstill, hqueue, List.flatMap_cons, List.append_assoc]

/-- A client that is new to the server is told every assigned id, each with its
value, at the time of the handshake. -/
theorem greeting_eq {server : NetworkServer} {sender : ClientId}
    (hnew : server.clients.find? sender = none) (now : ℤ) :
    greeting server now sender =
      server.idAssignments.entries.flatMap (introduction server.storage now) ++
        [.handshakeFinished] := by
  have hconnected : (server.onConnect sender).clients.find? sender =
      some (ServerClient.setState {} .inHandshake) := by
    unfold NetworkServer.onConnect
    rw [OrderedMap.find?_modify, if_pos rfl, OrderedMap.find?_emplace_self, hnew]
    rfl
  unfold greeting welcomed NetworkServer.handleDoHandshakeForClient
  rw [OrderedMap.find?_modify, if_pos rfl, hconnected]
  have hknown : ∀ assignment ∈ server.idAssignments.entries,
      (ServerClient.setState {} .inHandshake).isKnown assignment.1 = false := fun _ _ => rfl
  have hqueue := queue_publishAssignments server.storage now server.idAssignments.sorted hknown
  exact congrArg (· ++ [.handshakeFinished]) hqueue

/-! ## The messages of the handshake at the client -/

variable {path : Text} {ours : EntryId → Prop} {entry : Handle} {P : StorageEntry → Prop}

/-- The entry can take a value that comes with the time. -/
def Takes (now : ℤ) (value : Value) (data : StorageEntry) : Prop :=
  data.isStale now = false ∧ data.Fits value

/-- The entry has taken the value, and there is nothing to report of it. -/
def Took (now : ℤ) (value : Value) (data : StorageEntry) : Prop :=
  Takes now value data ∧ data.dirty = false ∧ data.view = some value

/-- The entry of the path is such, and our ids are for it alone. -/
structure Holds (s : Storage) (path : Text) (ours : EntryId → Prop) (entry : Handle)
    (P : StorageEntry → Prop) : Prop where
  data : ∃ data, s.Held path ours entry data ∧ P data
  named : ∀ id other, ours id → s.pathOfId id = some other → other = path
  held : s.HeldBy ours entry

theorem Holds.imp {s : Storage} {Q : StorageEntry → Prop} (h : Holds s path ours entry P)
    (himp : ∀ data, P data → Q data) : Holds s path ours entry Q :=
  ⟨h.data.imp fun data hdata => ⟨hdata.1, himp data hdata.2⟩, h.named, h.held⟩

/-- An assignment of another id to another path. -/
theorem Holds.assign_other {s : Storage} (h : Holds s path ours entry P) {id : EntryId}
    {other : Text} (hid : ¬ ours id) (hother : other ≠ path) :
    Holds (s.perform (.onEntryIdAssigned id other)) path ours entry P := by
  obtain ⟨data, hheld, hdata⟩ := h.data
  refine ⟨⟨data, hheld.perform hother, hdata⟩, fun id' found hours hfound => ?_,
    h.held.perform hheld.coherent fun hours => absurd hours hid⟩
  have hne : id' ≠ id := fun heq => hid (heq ▸ hours)
  have hsame := (Storage.pathOfId_onEntryIdAssigned hheld.coherent id other).1 id' hne
  exact h.named id' found hours (hsame.symm.trans hfound)

/-- An update of another id. -/
theorem Holds.update_other {s : Storage} (h : Holds s path ours entry P) {id : EntryId}
    (hid : ¬ ours id) (now : ℤ) (value : Value) (timestamp : ℤ) :
    Holds (s.perform (.onEntryUpdated now id value timestamp)) path ours entry P := by
  obtain ⟨data, hheld, hdata⟩ := h.data
  refine ⟨⟨data, hheld.perform hid, hdata⟩, fun id' found hours hfound => ?_,
    h.held.perform hheld.coherent fun hours => absurd hours hid⟩
  have hsame := Storage.pathOfId_onEntryUpdated s now id value timestamp id'
  exact h.named id' found hours (hsame.symm.trans hfound)

/-- After the assignment of one of our ids, `m_ids` has the entry of the path under
it. -/
theorem Holds.assign {s : Storage} (h : Holds s path ours entry P) {id : EntryId}
    (hid : ours id) (hP : ∀ data, P data → P { data with netId := id }) :
    Holds (s.perform (.onEntryIdAssigned id path)) path ours entry P ∧
      (s.perform (.onEntryIdAssigned id path)).pathOfId id = some path := by
  obtain ⟨data, hheld, hdata⟩ := h.data
  have hcoherent := hheld.coherent.perform (.onEntryIdAssigned id path)
  obtain ⟨hothers, htakes⟩ := Storage.pathOfId_onEntryIdAssigned hheld.coherent id path
  have hmapped : (s.perform (.onEntryIdAssigned id path)).pathOfId id = some path := by
    refine htakes.mpr ?_
    cases hfound : s.pathOfId id with
    | some other => exact Or.inl (by rw [hfound, h.named id other hid hfound])
    | none =>
        refine Or.inr ⟨hfound, Or.inl ?_⟩
        rw [hheld.find]
        exact Option.some_ne_none entry
  have hentryOf : s.entryOf path = some entry := by
    unfold Storage.entryOf Storage.findOrCreate
    rw [hheld.find]
    rfl
  have hget := Storage.get?_perform hheld.coherent (.onEntryIdAssigned id path) hheld.entry
  rw [Storage.effect, if_pos hentryOf] at hget
  refine ⟨⟨⟨_, ⟨hcoherent, hget, hheld.named, fun id' hfound => ?_⟩, hP data hdata⟩,
    fun id' other hours hfound => ?_, h.held.perform hheld.coherent fun _ => hentryOf⟩, hmapped⟩
  · by_cases hsame : id' = id
    · exact hsame ▸ hid
    · exact hheld.only id' ((hothers id' hsame).symm.trans hfound)
  · by_cases hsame : id' = id
    · subst hsame
      exact (Option.some.inj (hmapped.symm.trans hfound)).symm
    · exact h.named id' other hours ((hothers id' hsame).symm.trans hfound)

/-- An update of one of our ids that is not stale and fits is taken, and nothing is
left to be reported. -/
theorem Holds.update {s : Storage} {value : Value} {timestamp : ℤ}
    (h : Holds s path ours entry (Takes timestamp value)) {id : EntryId}
    (hmapped : s.pathOfId id = some path) (now : ℤ) :
    Holds (s.perform (.onEntryUpdated now id value timestamp)) path ours entry
      (Took timestamp value) := by
  obtain ⟨data, hheld, hstale, hfits⟩ := h.data
  have hcoherent := hheld.coherent.perform (.onEntryUpdated now id value timestamp)
  have hids := Storage.pathOfId_onEntryUpdated s now id value timestamp
  have hfind : s.ids.find? id = some entry := by
    obtain ⟨found, hfound, hpath⟩ :=
      (hheld.coherent.pathOfId_eq_some_iff id path).mp hmapped
    rw [hfound, ← hpath, hheld.find]
  have hget := Storage.get?_perform hheld.coherent (.onEntryUpdated now id value timestamp)
    hheld.entry
  rw [Storage.effect, if_pos hfind] at hget
  refine ⟨⟨_, ⟨hcoherent, hget, ?_, fun id' hfound => ?_⟩, ?_⟩, fun id' other hours hfound => ?_,
    h.held.perform hheld.coherent fun _ => hfind⟩
  · exact (data.set_frame now value false id false timestamp).1.trans hheld.named
  · exact hheld.only id' ((hids id').symm.trans hfound)
  · rw [StorageEntry.after, (StorageEntry.set_of_fits hstale (fun _ => hfits) now id false).1]
    refine ⟨⟨?_, Or.inr rfl⟩, rfl, rfl⟩
    apply decide_eq_false
    rintro ⟨hne, hlater⟩
    have hstamp : StorageEntry.stamp timestamp now = timestamp := if_neg hne
    exact absurd hlater (by rw [hstamp]; exact lt_irrefl timestamp)
  · exact h.named id' other hours ((hids id').symm.trans hfound)

/-- The client handles the assignment of one of our ids. -/
theorem Holds.receive_assign {s : NetworkClient} (h : Holds s.storage path ours entry P)
    {id : EntryId} (hid : ours id) (hP : ∀ data, P data → P { data with netId := id })
    {data : ParseData} (hshown : OutMessage.ShownBy (.entryIdAssign id path) data)
    (timeNow : ℤ) :
    Holds (s.receive timeNow .entryIdAssign data).storage path ours entry P ∧
      (s.receive timeNow .entryIdAssign data).storage.pathOfId id = some path := by
  obtain ⟨hshownId, hshownName⟩ := hshown
  show Holds (s.storage.perform (.onEntryIdAssigned data.id data.name)) _ _ _ _ ∧
    (s.storage.perform (.onEntryIdAssigned data.id data.name)).pathOfId id = _
  rw [hshownId, hshownName]
  exact h.assign hid hP

/-- The introduction of an id that is not ours, for another path, changes nothing. -/
theorem holds_introduction_other {storage : Storage} {now : ℤ} {id : EntryId} {name : Text}
    (hid : ¬ ours id) (hname : name ≠ path) {s s' : NetworkClient}
    (h : Handles NetworkClient.receive (introduction storage now (id, name)) s s')
    (hs : Holds s.storage path ours entry P) : Holds s'.storage path ours entry P := by
  refine h.invariant (I := fun s => Holds s.storage path ours entry P)
    (fun message hmessage timeNow data t hshown ht => ?_) hs
  rcases List.mem_cons.mp hmessage with rfl | hupdate
  · obtain ⟨hshownId, hshownName⟩ := hshown
    have hother : ¬ ours data.id := by
      rw [hshownId]
      exact hid
    exact ht.assign_other hother fun heq => hname (hshownName.symm.trans heq)
  · obtain ⟨found, -, rfl⟩ := Option.map_eq_some_iff.mp (Option.mem_toList.mp hupdate)
    obtain ⟨-, hshownId, -, -⟩ := hshown
    have hother : ¬ ours data.id := by
      rw [hshownId]
      exact hid
    exact ht.update_other hother ..

/-- The introduction of an id of another path changes nothing for ours; that of one of
our ids leaves the value of the server, if the server has one under the id. -/
theorem holds_introduction {storage : Storage} {now : ℤ} {value : Value}
    {assignment : EntryId × Text} (hours : ours assignment.1 ↔ assignment.2 = path)
    (hvalue : ∀ found, ours assignment.1 →
      storage.getEntryValueFromId assignment.1 = some found → found = value)
    {s s' : NetworkClient}
    (h : Handles NetworkClient.receive (introduction storage now assignment) s s') :
    (Holds s.storage path ours entry (Takes now value) →
        Holds s'.storage path ours entry (Takes now value)) ∧
      (Holds s.storage path ours entry (Took now value) →
        Holds s'.storage path ours entry (Took now value)) ∧
      (ours assignment.1 → storage.getEntryValueFromId assignment.1 = some value →
        Holds s.storage path ours entry (Takes now value) →
          Holds s'.storage path ours entry (Took now value)) := by
  obtain ⟨id, name⟩ := assignment
  by_cases hid : ours id
  · obtain rfl : name = path := hours.mp hid
    unfold introduction at h
    cases hfound : storage.getEntryValueFromId id with
    | none =>
        rw [hfound] at h
        rcases h with _ | ⟨assignedAt, hassigned, hrest⟩
        rcases hrest with _ | _
        refine ⟨fun hs => (hs.receive_assign hid (fun _ hdata => hdata) hassigned _).1,
          fun hs => (hs.receive_assign hid (fun _ hdata => hdata) hassigned _).1,
          fun _ hsome => ?_⟩
        exact absurd hsome (Option.some_ne_none value).symm
    | some found =>
        obtain rfl := hvalue found hid hfound
        rw [hfound] at h
        rcases h with _ | ⟨assignedAt, hassigned, hrest⟩
        rcases hrest with _ | ⟨updatedAt, hupdated, hnone⟩
        rcases hnone with _ | _
        rename_i dataAssigned dataUpdated
        obtain ⟨hsendTime, hupdatedId, -, hupdatedValue⟩ := hupdated
        have htakes : Holds s.storage name ours entry (Takes now found) →
            Holds (NetworkClient.receive updatedAt .entryUpdate dataUpdated
              (s.receive assignedAt .entryIdAssign dataAssigned)).storage name ours entry
              (Took now found) := by
          intro hs
          obtain ⟨hassign, hmapped⟩ :=
            hs.receive_assign hid (fun _ hdata => hdata) hassigned assignedAt
          show Holds (Storage.perform _
            (.onEntryUpdated _ dataUpdated.id dataUpdated.value dataUpdated.sendTime)) _ _ _ _
          rw [hupdatedId, hupdatedValue, hsendTime]
          exact hassign.update hmapped _
        exact ⟨fun hs => (htakes hs).imp fun _ hdata => hdata.1,
          fun hs => htakes (hs.imp fun _ hdata => hdata.1), fun _ _ hs => htakes hs⟩
  · have hname : name ≠ path := fun heq => hid (hours.mpr heq)
    exact ⟨holds_introduction_other hid hname h, holds_introduction_other hid hname h,
      fun hours => absurd hours hid⟩

/-- After all introductions the client has taken the value, if one of them brought
it. -/
theorem holds_introductions {storage : Storage} {now : ℤ} {value : Value}
    {assignments : List (EntryId × Text)}
    (hours : ∀ assignment ∈ assignments, ours assignment.1 ↔ assignment.2 = path)
    (hvalue : ∀ assignment ∈ assignments, ∀ found, ours assignment.1 →
      storage.getEntryValueFromId assignment.1 = some found → found = value)
    {s s' : NetworkClient}
    (h : Handles NetworkClient.receive (assignments.flatMap (introduction storage now)) s s') :
    (Holds s.storage path ours entry (Took now value) →
        Holds s'.storage path ours entry (Took now value)) ∧
      ((∃ assignment ∈ assignments, ours assignment.1 ∧
          storage.getEntryValueFromId assignment.1 = some value) →
        Holds s.storage path ours entry (Takes now value) →
          Holds s'.storage path ours entry (Took now value)) := by
  induction assignments generalizing s with
  | nil =>
      cases h
      refine ⟨fun hs => hs, ?_⟩
      rintro ⟨assignment, hmem, -⟩
      exact absurd hmem List.not_mem_nil
  | cons first rest ih =>
      obtain ⟨hoursFirst, hoursRest⟩ := List.forall_mem_cons.mp hours
      obtain ⟨hvalueFirst, hvalueRest⟩ := List.forall_mem_cons.mp hvalue
      obtain ⟨t, hintroduced, hafter⟩ := Handles.append h
      obtain ⟨htakes, htook, hbrings⟩ := holds_introduction hoursFirst hvalueFirst hintroduced
      obtain ⟨hkept, hbrought⟩ := ih hoursRest hvalueRest hafter
      refine ⟨fun hs => hkept (htook hs), ?_⟩
      rintro ⟨assignment, hmem, hassignment⟩ hs
      rcases List.mem_cons.mp hmem with rfl | hrest
      · exact hkept (hbrings hassignment.1 hassignment.2 hs)
      · exact hbrought ⟨assignment, hrest, hassignment⟩ (htakes hs)

/-! ## The value of the server wins -/

variable {server : NetworkServer} {client : Storage} {atServer atClient : ℤ × Value}

/-- What the server has under an id of the path is the value of the path. -/
theorem Setup.getEntryValueFromId (h : Setup server client path atServer atClient)
    {id : EntryId} (hid : server.storage.pathOfId id = some path) :
    server.storage.getEntryValueFromId id = some atServer.2 := by
  obtain ⟨found, hfind, hpath⟩ :=
    (h.serverCoherent.pathOfId_eq_some_iff id path).mp hid
  obtain ⟨data, hdata, -, hview⟩ := h.server
  rw [Storage.entryAt, hpath, Option.bind_some] at hdata
  rw [Storage.getEntryValueFromId, hfind, Option.bind_some, Storage.getEntryValue, hdata,
    Option.bind_some, hview]

/-- The client before the handshake can take the value of the server. -/
theorem Setup.holds (h : Setup server client path atServer atClient)
    (hagrees : Agrees server client path) {now : ℤ} (htime : atClient.1 ≤ now) :
    ∃ entry, Holds client path (Assigned server path) entry (Takes now atServer.2) := by
  obtain ⟨data, hat, hstamp, hview⟩ := h.client
  obtain ⟨entry, hpath, hentry⟩ := Option.bind_eq_some_iff.mp hat
  have hnamed : data.path = path := h.clientCoherent.path_of_entryAt hat
  have hfits : data.Fits atServer.2 := by
    unfold StorageEntry.view at hview
    split_ifs at hview
    · rw [StorageEntry.Fits, Option.some.inj hview]
      exact Or.inr h.sameType.symm
  refine ⟨entry, ⟨data, ⟨h.clientCoherent, hentry, hnamed, fun id hid => ?_⟩,
    not_isStale_of_le (hstamp.trans_le htime), hfits⟩, fun id other hours hother => ?_,
    fun other found hfound hours => ?_⟩
  · exact (hagrees.known id path hid).mpr rfl
  · exact (hagrees.known id other hother).mp hours
  · have hnetId : client.netIdAt found.path = some found.netId := by
      rw [Storage.netIdAt, h.clientCoherent.entryAt_path hfound]
      rfl
    refine (hagrees.held found.netId found.path hnetId hours).imp_left fun hsame => ?_
    have hfind := (h.clientCoherent.path_of_entry hfound).1
    rw [hsame, hpath] at hfind
    exact (Option.some.inj hfind).symm

/-- After the handshake the client has taken the value of the server. -/
theorem holds_greeted {client client' : NetworkClient}
    (h : Setup server client.storage path atServer atClient)
    (hagrees : Agrees server client.storage path) {sender : ClientId}
    (hnew : server.clients.find? sender = none) {now : ℤ} (htime : atClient.1 ≤ now)
    (hgreeted : Handles NetworkClient.receive (greeting server now sender) client client') :
    ∃ entry, Holds client'.storage path (Assigned server path) entry (Took now atServer.2) := by
  obtain ⟨entry, hbefore⟩ := h.holds hagrees htime
  rw [greeting_eq hnew] at hgreeted
  obtain ⟨finished, hintroduced, hlast⟩ := hgreeted.append
  have hours : ∀ assignment ∈ server.idAssignments.entries,
      Assigned server path assignment.1 ↔ assignment.2 = path := by
    intro assignment hmem
    rw [Assigned, (server.idAssignments.mem_entries_iff assignment.1 assignment.2).mp hmem,
      Option.some.injEq]
  have hvalue : ∀ assignment ∈ server.idAssignments.entries, ∀ found,
      Assigned server path assignment.1 →
      server.storage.getEntryValueFromId assignment.1 = some found → found = atServer.2 := by
    intro assignment _ found hassigned hfound
    obtain ⟨other, hother, -⟩ := Option.bind_eq_some_iff.mp hfound
    obtain ⟨data, hdata⟩ := h.serverCoherent.entry_of_id hother
    have hpath := Storage.pathOfId_of_find hother hdata
    rw [(hagrees.mapped assignment.1 data.path hpath).mp hassigned] at hpath
    rw [h.getEntryValueFromId hpath] at hfound
    exact (Option.some.inj hfound).symm
  obtain ⟨id, hassigned, hmapped⟩ := h.assigned
  have hbrings : ∃ assignment ∈ server.idAssignments.entries,
      Assigned server path assignment.1 ∧
        server.storage.getEntryValueFromId assignment.1 = some atServer.2 :=
    ⟨(id, path), (server.idAssignments.mem_entries_iff id path).mpr hassigned, hassigned,
      h.getEntryValueFromId hmapped⟩
  have htook := (holds_introductions hours hvalue hintroduced).2 hbrings hbefore
  rcases hlast with _ | ⟨finishedAt, -, hnone⟩
  rcases hnone with _ | _
  exact ⟨entry, htook⟩

/-! ## The storage pass at the server -/

/-- The message of another entry, which has none of our ids, does not change the entry
of the path. -/
theorem held_receive {s : NetworkServer} {data : StorageEntry}
    (h : s.storage.Held path ours entry data) {other : StorageEntry}
    (hpath : other.path ≠ path) (hid : ours other.netId → other.netId = idNotAssigned)
    (sender : ClientId) (written : Bool) (passNow now : ℤ) {shown : ParseData}
    (hshown : (NetworkClient.entryMessage passNow other).ShownBy shown) :
    (s.receive sender written now (NetworkClient.entryMessage passNow other).type
      shown).storage.Held path ours entry data := by
  unfold NetworkClient.entryMessage at hshown ⊢
  split_ifs at hshown ⊢ with hunassigned hdeleted
  · obtain ⟨-, hname, -, -⟩ := hshown
    replace hname : shown.name ≠ path := fun heq => hpath (hname.symm.trans heq)
    show (s.onEntryCreate now sender shown).storage.Held path ours entry data
    unfold NetworkServer.onEntryCreate
    split_ifs
    · -- the id is new, and is assigned first
      have hassigned : (s.storage.perform
          (.onEntryIdAssigned s.nextEntryId shown.name)).Held path ours entry data :=
        h.perform hname
      unfold NetworkServer.assignIdToEntry
      rcases hassign : s.storage.onEntryIdAssigned s.nextEntryId shown.name with ⟨t, result⟩
      have ht : s.storage.perform (.onEntryIdAssigned s.nextEntryId shown.name) = t :=
        congrArg Prod.fst hassign
      rw [ht] at hassigned
      cases result with
      | error thrown => exact hassigned
      | ok u =>
          show (t.perform (.onEntryCreated now s.nextEntryId shown.name shown.value
            shown.sendTime)).Held path ours entry data
          exact hassigned.perform hname
    · show (s.storage.perform (.onEntryCreated now shown.id shown.name shown.value
        shown.sendTime)).Held path ours entry data
      exact h.perform hname
  · obtain ⟨-, hshownId⟩ := hshown
    have hother : ¬ ours shown.id := by
      rw [hshownId]
      exact fun hours => hunassigned (hid hours)
    show (s.storage.perform (.onEntryDeleted now shown.id shown.sendTime)).Held path ours entry data
    exact h.perform hother
  · obtain ⟨-, hshownId, -, -⟩ := hshown
    have hother : ¬ ours shown.id := by
      rw [hshownId]
      exact fun hours => hunassigned (hid hours)
    show (s.storage.perform (.onEntryUpdated now shown.id shown.value shown.sendTime)).Held path
      ours entry data
    exact h.perform hother

/-- A pass clears marks and changes nothing else of what a path shows. -/
theorem viewAt_processStorage (now : ℤ) (s : Storage) (path : Text) :
    (NetworkClient.processStorage now s []).1.viewAt path = s.viewAt path := by
  refine Storage.actOnDirtyEntries_of_invariant Prod.fst _
    (I := fun state : Storage × List OutMessage => state.1.viewAt path = s.viewAt path)
    (fun state handle data hstate _ => hstate) (fun state handle hstate => ?_) rfl
  refine Eq.trans ?_ hstate
  unfold Storage.viewAt Storage.entryAt
  show ((state.1.paths.find? path).bind (state.1.clearDirty handle).entries.get?).bind _ = _
  cases state.1.paths.find? path with
  | none => rfl
  | some found =>
      rw [Option.bind_some, Option.bind_some, Storage.clearDirty, HandleTable.get?_modify]
      split_ifs
      · cases state.1.entries.get? found <;> rfl
      · rfl

/-- A message of a pass is that of a dirty entry. -/
theorem mem_processStorage {now : ℤ} {s : Storage} {message : OutMessage}
    (h : message ∈ (NetworkClient.processStorage now s []).2) :
    ∃ handle data, s.entries.get? handle = some data ∧ data.dirty = true ∧
      message = NetworkClient.entryMessage now data := by
  rw [NetworkClient.processStorage_queue, List.nil_append] at h
  obtain ⟨handle, -, hmessage⟩ := List.mem_filterMap.mp h
  obtain ⟨data, hdata, rfl⟩ := Option.map_eq_some_iff.mp hmessage
  obtain ⟨hentry, hdirty⟩ := Option.filter_eq_some_iff.mp hdata
  exact ⟨handle, data, hentry, hdirty, rfl⟩

/-- Whatever the two times are, the exchange leaves the value of the server on both
sides. -/
theorem viewAt_exchange {client : NetworkClient} {server' : NetworkServer} {client' : Storage}
    (h : Setup server client.storage path atServer atClient)
    (hagrees : Agrees server client.storage path) {sender : ClientId}
    (hnew : server.clients.find? sender = none) {now : ℤ} (htime : atClient.1 ≤ now)
    (hexchange : Exchange server client sender now server' client') :
    server'.storage.viewAt path = some atServer.2 ∧ client'.viewAt path = some atServer.2 := by
  obtain ⟨greeted, timeNow, written, hgreeted, rfl, hpass⟩ := hexchange
  obtain ⟨entry, hholds⟩ := holds_greeted h hagrees hnew htime hgreeted
  obtain ⟨taken, htaken, -, hclean, htakenView⟩ := hholds.data
  obtain ⟨serverData, hserverAt, -, hserverView⟩ := h.server
  obtain ⟨serverEntry, -, hserverEntry⟩ := Option.bind_eq_some_iff.mp hserverAt
  have hserver : (welcomed server now sender).storage.Held path (Assigned server path)
      serverEntry serverData :=
    ⟨h.serverCoherent, hserverEntry, h.serverCoherent.path_of_entryAt hserverAt,
      fun id hid => (hagrees.mapped id path hid).mpr rfl⟩
  have hserver' := hpass.invariant
    (I := fun s : NetworkServer =>
      s.storage.Held path (Assigned server path) serverEntry serverData)
    (fun message hmessage now shown s hshown hs => ?_) hserver
  · constructor
    · rw [Storage.viewAt, hserver'.entryAt, Option.bind_some, hserverView]
    · rw [viewAt_processStorage, Storage.viewAt, htaken.entryAt, Option.bind_some, htakenView]
  · obtain ⟨handle, other, hother, hdirty, rfl⟩ := mem_processStorage hmessage
    -- the entry of the path is not marked, so that it is another one
    have hne : handle ≠ entry := by
      rintro rfl
      rw [htaken.entry] at hother
      rw [← Option.some.inj hother, hclean] at hdirty
      cases hdirty
    refine held_receive hs (fun hsame => hne ?_) (fun hours => ?_) sender written timeNow now
      hshown
    · have hfind := (htaken.coherent.path_of_entry hother).1
      rw [hsame, htaken.find] at hfind
      exact (Option.some.inj hfind).symm
    · exact (hholds.held handle other hother hours).resolve_left hne

/-- A collision resolves to the latest value exactly if that is the value of the
server, or both sides have the same one. -/
theorem resolves_iff {client : NetworkClient} {server' : NetworkServer} {client' : Storage}
    (h : Setup server client.storage path atServer atClient)
    (hagrees : Agrees server client.storage path) {sender : ClientId}
    (hnew : server.clients.find? sender = none) {now : ℤ} (htime : atClient.1 ≤ now)
    (hexchange : Exchange server client sender now server' client') :
    Resolves server' client' path atServer atClient ↔
      atClient.1 < atServer.1 ∨ atServer.2 = atClient.2 := by
  obtain ⟨hserver, hclient⟩ := viewAt_exchange h hagrees hnew htime hexchange
  unfold Resolves
  simp only [hserver, hclient, and_self, Option.some.injEq]
  split_ifs with hlater
  · exact iff_of_true rfl (Or.inl hlater)
  · rw [or_iff_right hlater]

/-- A server whose clients have set a path to 7 at the time 5. -/
def setServer : NetworkServer :=
  (NetworkServer.start ⟨0, 0, [], 0, Value.make, 0⟩ (Storage.run [])).onEntryCreate 5 7
    ⟨5, idNotAssigned, [97], 4, Value.makeInt32 7, 0⟩

/-- A client that has set the path to 9 and was started. -/
def setClient (time : ℤ) : NetworkClient :=
  (NetworkClient.new ⟨0, 0, [], 0, Value.make, 0⟩
    (Storage.run [.getOrCreateEntry [97], .setEntryValue time 0 (Value.makeInt32 9)]) {}).start

theorem idsInvariant_setServer : setServer.IdsInvariant := by
  refine (NetworkServer.idsInvariant_start _ []).onEntryCreate 5 7 ?_
  rw [NetworkServer.CreateKeepsIds, if_pos rfl]
  exact ⟨fun assignment hassignment => absurd hassignment List.not_mem_nil, by decide +kernel⟩

theorem setup_set (time : ℤ) :
    Setup setServer (setClient time).storage [97] (5, Value.makeInt32 7)
      (time, Value.makeInt32 9) where
  serverCoherent := idsInvariant_setServer.coherent
  clientCoherent := (Storage.coherent_run _).clearNetIds
  assigned := ⟨0, by decide +kernel, by decide +kernel⟩
  server := ⟨_, rfl, rfl, rfl⟩
  client := ⟨_, rfl, rfl, rfl⟩
  sameType := rfl

theorem agrees_set (time : ℤ) : Agrees setServer (setClient time).storage [97] := by
  apply agrees_of_idsAgree idsInvariant_setServer.coherent idsInvariant_setServer.agree
  · intro id path hid
    cases hid
  · intro id path hne hid
    exact absurd (Storage.netIdAt_clearNetIds hid) hne

/-- The client after the greeting of the server. -/
def greetedClient (time : ℤ) : NetworkClient :=
  NetworkClient.receive 10 .handshakeFinished ⟨0, 0, [], 0, Value.make, 0⟩
    (NetworkClient.receive 10 .entryUpdate ⟨10, 0, [97], 4, Value.makeInt32 7, 0⟩
      (NetworkClient.receive 10 .entryIdAssign ⟨0, 0, [97], 0, Value.make, 0⟩ (setClient time)))

theorem exchange_set {time : ℤ}
    (hpass : (NetworkClient.processStorage 11 (greetedClient time).storage []).2 = []) :
    Exchange setServer (setClient time) 3 10 (welcomed setServer 10 3)
      (NetworkClient.processStorage 11 (greetedClient time).storage []).1 := by
  have hgreeting : greeting setServer 10 3 =
      [.entryIdAssign 0 [97], .entryUpdate 10 0 (Value.makeInt32 7), .handshakeFinished] := by
    decide +kernel
  refine ⟨greetedClient time, 11, true, ?_, rfl, ?_⟩
  · rw [hgreeting]
    exact .cons 10 ⟨rfl, rfl⟩ (.cons 10 ⟨rfl, rfl, rfl, rfl⟩ (.cons 10 trivial .nil))
  · rw [hpass]
    exact .nil

/-- The value of the server is the newer one. -/
theorem resolves_newer_server :
    Resolves (welcomed setServer 10 3)
        (NetworkClient.processStorage 11 (greetedClient 4).storage []).1 [97]
        (5, Value.makeInt32 7) (4, Value.makeInt32 9) ↔
      (4 : ℤ) < 5 ∨ Value.makeInt32 7 = Value.makeInt32 9 :=
  resolves_iff (setup_set 4) (agrees_set 4) (by decide +kernel) (by decide)
    (exchange_set (by decide +kernel))

/-- The client has set the path after the server; the handshake sends the older value
with the time of the handshake. -/
theorem not_resolves_newer_client :
    ¬ ∀ (server server' : NetworkServer) (client : NetworkClient) (client' : Storage)
      (path : Text) (atServer atClient : ℤ × Value) (sender : ClientId) (now : ℤ),
      Setup server client.storage path atServer atClient →
      Agrees server client.storage path → server.clients.find? sender = none →
      atServer.1 ≠ atClient.1 → atServer.1 ≤ now → atClient.1 ≤ now →
      Exchange server client sender now server' client' →
      Resolves server' client' path atServer atClient := by
  intro h
  have hresolves := h setServer (welcomed setServer 10 3) (setClient 8) _ [97]
    (5, Value.makeInt32 7) (8, Value.makeInt32 9) 3 10 (setup_set 8) (agrees_set 8)
    (by decide +kernel) (by decide) (by decide) (by decide) (exchange_set (by decide +kernel))
  revert hresolves
  unfold Resolves
  decide +kernel

end Collision

end Obsr.Net
