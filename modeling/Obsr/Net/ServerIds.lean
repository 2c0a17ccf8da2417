/-
# The ids of the server

The server knows the id of an entry in three places: in its own assignments, in
`m_ids` of the storage and in the entry. The three agree as long as every
`entry_create` it handles is the first for its path, finds room and does not
show the server the id of an earlier message; the first one that is not so makes
them disagree.
-/

import Obsr.Lib.Run
import Obsr.Net.Server

namespace Obsr.Net

open Obsr.Lib

namespace NetworkServer

variable {s : NetworkServer}

/-- The three records of the ids agree. -/
structure IdsAgree (s : NetworkServer) : Prop where
  unique : ∀ i j path, s.idAssignments.find? i = some path →
    s.idAssignments.find? j = some path → i = j
  assigned : s.idAssignments.find? idNotAssigned = none
  mapped : ∀ i path, s.idAssignments.find? i = some path ↔
    ∃ entry, s.storage.ids.find? i = some entry ∧ s.storage.paths.find? path = some entry
  netId : ∀ i path, i ≠ idNotAssigned →
    (s.idAssignments.find? i = some path ↔ s.storage.netIdAt path = some i)

/-- The create of a message finds its path without an id and with room; or the
parser still holds an id and the create cannot bring it anywhere new. -/
def CreateKeepsIds (s : NetworkServer) (data : ParseData) : Prop :=
  if data.id = idNotAssigned then
    (∀ assignment ∈ s.idAssignments.entries, assignment.2 ≠ data.name) ∧
      s.storage.HasRoom data.name
  else
    ¬ s.storage.HasRoom data.name ∨ s.storage.pathOfId data.id = some data.name ∨
      (s.storage.pathOfId data.id ≠ none ∧ s.storage.StaleAt data.name data.sendTime)

/-- The step is not a create that makes the records disagree. -/
def KeepsIds (s : NetworkServer) : Input → Prop
  | .message _ _ type payload _ =>
      let parser := s.parser.parse (MessageType.ofByte type) payload
      MessageType.ofByte type = .entryCreate → parser.isFinished = true →
        s.CreateKeepsIds parser.data
  | _ => True

/-- What holds of the ids in every state of such a run. -/
structure IdsInvariant (s : NetworkServer) : Prop where
  coherent : s.storage.Coherent
  agree : s.IdsAgree
  counted : ∀ i, s.idAssignments.find? i ≠ none ↔ i < s.nextEntryId

theorem IdsAgree.find?_eq_pathOfId (h : s.IdsAgree) (hs : s.storage.Coherent) (i : EntryId) :
    s.idAssignments.find? i = s.storage.pathOfId i := by
  apply Option.ext
  intro path
  rw [h.mapped, hs.pathOfId_eq_some_iff]

theorem idsAgree_of_pathOfId (hs : s.storage.Coherent)
    (hunique : ∀ i j path, s.idAssignments.find? i = some path →
      s.idAssignments.find? j = some path → i = j)
    (hassigned : s.idAssignments.find? idNotAssigned = none)
    (hmapped : ∀ i, s.idAssignments.find? i = s.storage.pathOfId i)
    (hnetId : ∀ i path, i ≠ idNotAssigned →
      (s.idAssignments.find? i = some path ↔ s.storage.netIdAt path = some i)) :
    s.IdsAgree where
  unique := hunique
  assigned := hassigned
  mapped i path := by rw [hmapped, hs.pathOfId_eq_some_iff]
  netId := hnetId

/-- The records still agree when the storage keeps its ids. -/
theorem IdsInvariant.of_sameIds (h : s.IdsInvariant) {t : NetworkServer}
    (hassign : t.idAssignments = s.idAssignments) (hnext : t.nextEntryId = s.nextEntryId)
    (hcoherent : t.storage.Coherent) (hsame : s.storage.SameIds t.storage) :
    t.IdsInvariant where
  coherent := hcoherent
  agree := by
    refine idsAgree_of_pathOfId hcoherent ?_ ?_ (fun i => ?_) (fun i path hi => ?_)
    · rw [hassign]; exact h.agree.unique
    · rw [hassign]; exact h.agree.assigned
    · rw [hassign, hsame.pathOfId, h.agree.find?_eq_pathOfId h.coherent]
    · rw [hassign, hsame.netIdAt i path hi]
      exact h.agree.netId i path hi
  counted i := by
    rw [hassign, hnext]
    exact h.counted i

/-! ## The counter -/

/-- Every id below the counter belongs to an entry of its own, and there are 256
entries. -/
theorem IdsInvariant.nextEntryId_le (h : s.IdsInvariant) : s.nextEntryId.toNat ≤ 256 := by
  have hentry : ∀ n : Fin s.nextEntryId.toNat, ∃ entry : Handle, entry < 256 ∧
      ∃ path, s.idAssignments.find? (UInt16.ofNat n) = some path ∧
        s.storage.paths.find? path = some entry := by
    intro n
    have hn : n.val < 2 ^ 16 := n.isLt.trans s.nextEntryId.toNat_lt
    have hlt : UInt16.ofNat n < s.nextEntryId := by
      rw [UInt16.lt_iff_toNat_lt, UInt16.toNat_ofNat_of_lt' hn]
      exact n.isLt
    obtain ⟨path, hpath⟩ := Option.ne_none_iff_exists'.mp ((h.counted _).mpr hlt)
    obtain ⟨entry, -, hfind⟩ := (h.agree.mapped _ path).mp hpath
    obtain ⟨data, hdata, -⟩ := h.coherent.entry_of_path hfind
    exact ⟨entry, HandleTable.lt_of_get? hdata, path, hpath, hfind⟩
  choose entry hlt path hassign hfind using hentry
  have hinjective : Function.Injective fun n => (⟨entry n, hlt n⟩ : Fin 256) := by
    intro n m hnm
    have hsame : entry n = entry m := Fin.mk.inj hnm
    obtain ⟨data, hdata, hpathN⟩ := h.coherent.entry_of_path (hfind n)
    obtain ⟨other, hother, hpathM⟩ := h.coherent.entry_of_path (hfind m)
    rw [hsame] at hdata
    obtain rfl := Option.some.inj (hdata.symm.trans hother)
    have hids := h.agree.unique _ _ (path n) (hassign n)
      (by rw [hpathN.symm.trans hpathM]; exact hassign m)
    have hnat := congrArg UInt16.toNat hids
    rw [UInt16.toNat_ofNat_of_lt' (n.isLt.trans s.nextEntryId.toNat_lt),
      UInt16.toNat_ofNat_of_lt' (m.isLt.trans s.nextEntryId.toNat_lt)] at hnat
    exact Fin.ext hnat
  have hcard := Fintype.card_le_of_injective _ hinjective
  rwa [Fintype.card_fin, Fintype.card_fin] at hcard

theorem IdsInvariant.nextEntryId_ne (h : s.IdsInvariant) :
    s.nextEntryId ≠ idNotAssigned := by
  intro heq
  have hle := h.nextEntryId_le
  rw [heq] at hle
  exact absurd hle (by decide)

theorem IdsInvariant.find?_nextEntryId (h : s.IdsInvariant) :
    s.idAssignments.find? s.nextEntryId = none := by
  by_contra hne
  exact absurd ((h.counted _).mp hne) (lt_irrefl _)

/-! ## Assigning an id -/

/-- A path without an id gets the next one. -/
theorem IdsInvariant.assignIdToEntry (h : s.IdsInvariant) {name : Text}
    (hname : ∀ assignment ∈ s.idAssignments.entries, assignment.2 ≠ name)
    (hroom : s.storage.HasRoom name) :
    ∃ t, s.assignIdToEntry name = (t, .ok s.nextEntryId) ∧ t.IdsInvariant ∧
      t.idAssignments.find? s.nextEntryId = some name ∧ t.parser = s.parser ∧
      t.clients = s.clients := by
  obtain ⟨storage, hassign, hcoherent, hnamed⟩ := assignIdToEntry_of_hasRoom h.coherent hroom
  have hnew := h.find?_nextEntryId
  have hold : ∀ i, s.idAssignments.find? i ≠ some name := fun i hi =>
    hname (i, name) ((s.idAssignments.mem_entries_iff i name).mpr hi) rfl
  have hfind : ∀ i, (s.idAssignments.emplace s.nextEntryId name).find? i =
      if i = s.nextEntryId then some name else s.idAssignments.find? i := by
    intro i
    rw [OrderedMap.find?_emplace, hnew]
    rfl
  have hpathOfId := h.agree.find?_eq_pathOfId h.coherent
  refine ⟨_, hassign, ⟨hcoherent, idsAgree_of_pathOfId hcoherent ?_ ?_ ?_ ?_, ?_⟩, ?_, rfl, rfl⟩
  · intro i j path hi hj
    rw [hfind] at hi hj
    split_ifs at hi hj with hin hjn hjn
    · rw [hin, hjn]
    · rw [← Option.some.inj hi] at hj
      exact absurd hj (hold j)
    · rw [← Option.some.inj hj] at hi
      exact absurd hi (hold i)
    · exact h.agree.unique i j path hi hj
  · rw [hfind, if_neg h.nextEntryId_ne.symm]
    exact h.agree.assigned
  · intro i
    rw [hfind, hnamed.pathOfId, ← hpathOfId, ← hpathOfId, hnew]
    rfl
  · intro i path hi
    rw [hfind, hnamed.netIdAt]
    by_cases hpath : path = name
    · subst hpath
      rw [if_pos rfl]
      by_cases hin : i = s.nextEntryId
      · simp [hin]
      · rw [if_neg hin]
        refine iff_of_false (hold i) (fun heq => hin (Option.some.inj heq).symm)
    · rw [if_neg hpath]
      by_cases hin : i = s.nextEntryId
      · rw [if_pos hin]
        refine iff_of_false (fun heq => hpath (Option.some.inj heq).symm) (fun hat => ?_)
        have hassigned := (h.agree.netId i path hi).mpr hat
        rw [hin, hnew] at hassigned
        cases hassigned
      · rw [if_neg hin]
        exact h.agree.netId i path hi
  · intro i
    rw [hfind]
    have hnext : (s.nextEntryId + 1).toNat = s.nextEntryId.toNat + 1 := by
      rw [UInt16.toNat_add, UInt16.toNat_one]
      exact Nat.mod_eq_of_lt (by have := h.nextEntryId_le; omega)
    have hlt : i < s.nextEntryId + 1 ↔ i = s.nextEntryId ∨ i < s.nextEntryId := by
      rw [UInt16.lt_iff_toNat_lt, UInt16.lt_iff_toNat_lt, hnext, ← UInt16.toNat_inj]
      omega
    rw [hlt]
    split_ifs with hin
    · exact iff_of_true (Option.some_ne_none name) (Or.inl hin)
    · rw [or_iff_right hin]
      exact h.counted i
  · rw [hfind, if_pos rfl]

/-! ## Steps that keep the ids -/

/-- The records still agree when only other parts of the server change. -/
theorem IdsInvariant.of_storage (h : s.IdsInvariant) {t : NetworkServer}
    (hassign : t.idAssignments = s.idAssignments) (hnext : t.nextEntryId = s.nextEntryId)
    (hstorage : t.storage = s.storage) : t.IdsInvariant :=
  h.of_sameIds hassign hnext (hstorage ▸ h.coherent) (hstorage ▸ Storage.SameIds.refl _)

theorem IdsInvariant.createEntry (h : s.IdsInvariant) (now : ℤ) (sender : ClientId)
    {id : EntryId} (hid : id ≠ idNotAssigned) {data : ParseData}
    (hkeep : ¬ s.storage.HasRoom data.name ∨ s.storage.pathOfId id = some data.name ∨
      (s.storage.pathOfId id ≠ none ∧ s.storage.StaleAt data.name data.sendTime)) :
    (s.createEntry now sender id data).IdsInvariant := by
  refine h.of_sameIds rfl rfl (h.coherent.onEntryCreated ..) ?_
  show s.storage.SameIds (s.storage.onEntryCreated now id data.name data.value data.sendTime).1
  by_cases hroom : s.storage.HasRoom data.name
  · have hpathOfId := Storage.pathOfId_onEntryCreated h.coherent hroom now id data.value
      data.sendTime
    have hnetIdAt := Storage.netIdAt_onEntryCreated h.coherent hroom now hid data.value
      data.sendTime
    replace hkeep := hkeep.resolve_left (not_not.mpr hroom)
    have hknown : ∃ path, s.storage.pathOfId id = some path := by
      rcases hkeep with hpath | ⟨hpath, -⟩
      · exact ⟨_, hpath⟩
      · exact Option.ne_none_iff_exists'.mp hpath
    obtain ⟨path, hpath⟩ := hknown
    refine ⟨fun other => ?_, fun other otherPath hother => ?_⟩
    · rw [hpathOfId]
      split_ifs with hsame
      · rw [hsame, hpath]
        rfl
      · rfl
    · rw [hnetIdAt]
      by_cases hname : otherPath = data.name
      · rw [if_pos hname, hname]
        by_cases hstale : s.storage.StaleAt data.name data.sendTime
        · rw [if_pos hstale]
          cases s.storage.netIdAt data.name with
          | none => simp [Ne.symm hother]
          | some netId => simp
        · have hthere := hkeep.resolve_right (fun hlate => hstale hlate.2)
          rw [← h.agree.find?_eq_pathOfId h.coherent, h.agree.netId id _ hid] at hthere
          rw [if_neg hstale, hthere]
      · rw [if_neg hname]
  · rw [Storage.onEntryCreated_of_not_hasRoom hroom]
    exact Storage.SameIds.refl _

theorem IdsInvariant.onEntryCreate (h : s.IdsInvariant) (now : ℤ) (sender : ClientId)
    {data : ParseData} (hkeep : s.CreateKeepsIds data) :
    (s.onEntryCreate now sender data).IdsInvariant := by
  unfold CreateKeepsIds at hkeep
  unfold NetworkServer.onEntryCreate
  split_ifs at hkeep ⊢ with hid
  · obtain ⟨t, hassign, ht, hfind, -, -⟩ := h.assignIdToEntry hkeep.1 hkeep.2
    simp only [hassign]
    refine ht.createEntry now sender h.nextEntryId_ne (Or.inr (Or.inl ?_))
    rw [← ht.agree.find?_eq_pathOfId ht.coherent, hfind]
  · exact h.createEntry now sender hid hkeep

theorem IdsInvariant.onEntryUpdate (h : s.IdsInvariant) (now : ℤ) (sender : ClientId)
    (data : ParseData) : (s.onEntryUpdate now sender data).IdsInvariant := by
  refine h.of_sameIds rfl rfl (h.coherent.onEntryUpdated ..)
    (Storage.sameIds_onEntryUpdated _ now _ _ (fun entry found hfind hfound => ?_))
  by_cases hid : data.id = idNotAssigned
  · exact Or.inl hid
  · refine Or.inr ?_
    have hpath := Storage.pathOfId_of_find hfind hfound
    rw [← h.agree.find?_eq_pathOfId h.coherent, h.agree.netId _ _ hid] at hpath
    rw [Storage.netIdAt, h.coherent.entryAt_path hfound] at hpath
    exact Option.some.inj hpath

theorem IdsInvariant.onEntryDelete (h : s.IdsInvariant) (now : ℤ) (sender : ClientId)
    (data : ParseData) : (s.onEntryDelete now sender data).IdsInvariant :=
  h.of_sameIds rfl rfl (h.coherent.onEntryDeleted ..) (Storage.sameIds_onEntryDeleted ..)

theorem IdsInvariant.onMessage (h : s.IdsInvariant) (now : ℤ) (sender : ClientId)
    (type : UInt8) (payload : List UInt8) (written : Bool)
    (hkeep : s.KeepsIds (.message now sender type payload written)) :
    (s.onMessage now sender type payload written).IdsInvariant := by
  have hparsed : IdsInvariant
      { s with parser := s.parser.parse (MessageType.ofByte type) payload } :=
    h.of_storage rfl rfl rfl
  unfold NetworkServer.onMessage
  simp only
  split_ifs with hfinished
  · cases htype : MessageType.ofByte type with
    | entryCreate =>
        have hcreate := hkeep htype hfinished
        rw [htype] at hparsed hcreate
        exact hparsed.onEntryCreate now sender hcreate
    | entryUpdate => rw [htype] at hparsed; exact hparsed.onEntryUpdate ..
    | entryDelete => rw [htype] at hparsed; exact hparsed.onEntryDelete ..
    | _ => rw [htype] at hparsed; exact hparsed.of_storage rfl rfl rfl
  · exact hparsed

/-- A dirty entry without an id has a path without an id. -/
theorem IdsInvariant.publishDirty (h : s.IdsInvariant) (now : ℤ) {handle : Handle}
    {entry : StorageEntry} (hentry : s.storage.entries.get? handle = some entry) :
    (NetworkServer.publishDirty now entry s).2.IdsInvariant := by
  have hid : (s.idForEntry entry).1.IdsInvariant := by
    unfold idForEntry
    split_ifs with hnetId
    · have hroom : s.storage.HasRoom entry.path := Or.inl (by
        rw [(h.coherent.path_of_entry hentry).1]
        exact Option.some_ne_none handle)
      have hname : ∀ assignment ∈ s.idAssignments.entries, assignment.2 ≠ entry.path := by
        rintro ⟨id, path⟩ hassigned rfl
        have hfind := (s.idAssignments.mem_entries_iff id entry.path).mp hassigned
        have hne : id ≠ idNotAssigned := by
          rintro rfl
          rw [h.agree.assigned] at hfind
          cases hfind
        have hat := (h.agree.netId id entry.path hne).mp hfind
        rw [Storage.netIdAt, h.coherent.entryAt_path hentry] at hat
        exact hne ((Option.some.inj hat).symm.trans hnetId)
      obtain ⟨t, hassign, ht, -⟩ := h.assignIdToEntry hname hroom
      rw [hassign]
      exact ht
    · exact h
  exact hid.of_storage rfl rfl rfl

theorem IdsInvariant.processUpdates (h : s.IdsInvariant) (now : ℤ) (takes : ClientId → ℕ) :
    (s.processUpdates now takes).IdsInvariant := by
  have hpass : (Storage.actOnDirtyEntries storage withStorage
      (NetworkServer.publishDirty now) s).IdsInvariant :=
    Storage.actOnDirtyEntries_of_invariant storage withStorage
      (fun s handle data hs hdata => hs.publishDirty now hdata)
      (fun s handle hs => hs.of_sameIds rfl rfl (hs.coherent.clearDirty handle)
        (Storage.sameIds_clearDirty ..)) h
  exact hpass.of_storage rfl rfl rfl

theorem sameIds_operation {t : Storage} (h : t.Coherent) (now : ℤ) (op : LocalOperation) :
    t.SameIds (t.perform (op.operation now)) := by
  cases op with
  | getOrCreateEntry path => exact Storage.sameIds_getOrCreateEntry h path
  | setEntryValue entry value =>
      exact Storage.sameIds_setEntryInternal t now entry value false true
        (fun _ _ => Or.inl rfl)
  | clearEntry entry =>
      exact Storage.sameIds_setEntryInternal t now entry Value.make true true
        (fun _ _ => Or.inl rfl)
  | deleteEntry entry => exact Storage.sameIds_deleteEntryInternal ..
  | deleteEntries path => exact Storage.sameIds_deleteEntries ..

theorem IdsInvariant.step (h : s.IdsInvariant) (input : Input) (hkeep : s.KeepsIds input) :
    (s.step input).IdsInvariant := by
  cases input with
  | connect id => exact h.of_storage rfl rfl rfl
  | disconnect id => exact h.of_storage rfl rfl rfl
  | close => exact h.of_storage rfl rfl rfl
  | message now sender type payload written => exact h.onMessage _ _ _ _ _ hkeep
  | localOperation now op =>
      exact h.of_sameIds rfl rfl (h.coherent.perform _) (sameIds_operation h.coherent now op)
  | update now opened takes =>
      show (s.update now opened takes).IdsInvariant
      unfold NetworkServer.update
      cases s.state with
      | opening =>
          cases opened with
          | true => exact h.of_storage rfl rfl rfl
          | false => exact h
      | inUse =>
          simp only
          split_ifs
          · exact h
          · exact h.processUpdates now takes

/-! ## Steps that break them -/

theorem not_idsAgree_createEntry (h : s.IdsInvariant) (now : ℤ) (sender : ClientId)
    {id : EntryId} (hid : id ≠ idNotAssigned) {data : ParseData}
    (hbreak : ¬ (¬ s.storage.HasRoom data.name ∨ s.storage.pathOfId id = some data.name ∨
      (s.storage.pathOfId id ≠ none ∧ s.storage.StaleAt data.name data.sendTime))) :
    ¬ (s.createEntry now sender id data).IdsAgree := by
  intro hagree
  obtain ⟨hroom, hpath, hlate⟩ : s.storage.HasRoom data.name ∧
      s.storage.pathOfId id ≠ some data.name ∧
        (s.storage.pathOfId id ≠ none → ¬ s.storage.StaleAt data.name data.sendTime) := by
    push Not at hbreak
    exact hbreak
  have hpathOfId := Storage.pathOfId_onEntryCreated h.coherent hroom now id data.value
    data.sendTime
  have hnetIdAt := Storage.netIdAt_onEntryCreated h.coherent hroom now hid data.value
    data.sendTime
  have hfind : s.idAssignments.find? id =
      (s.storage.onEntryCreated now id data.name data.value data.sendTime).1.pathOfId id :=
    hagree.find?_eq_pathOfId (h.coherent.onEntryCreated ..) id
  rw [hpathOfId, if_pos rfl] at hfind
  have hbefore : s.idAssignments.find? id = s.storage.pathOfId id :=
    h.agree.find?_eq_pathOfId h.coherent id
  cases hknown : s.storage.pathOfId id with
  | none =>
      rw [hknown] at hbefore hfind
      exact absurd (hbefore.symm.trans hfind) (Option.some_ne_none _).symm
  | some path =>
      have hfresh := hlate (by rw [hknown]; exact Option.some_ne_none path)
      have hat : (s.createEntry now sender id data).storage.netIdAt data.name = some id :=
        (hnetIdAt data.name).trans (by rw [if_pos rfl, if_neg hfresh])
      have hassigned := (hagree.netId id data.name hid).mpr hat
      exact hpath (hbefore.symm.trans hassigned)

theorem not_idsAgree_onEntryCreate (h : s.IdsInvariant) (now : ℤ) (sender : ClientId)
    {data : ParseData} (hbreak : ¬ s.CreateKeepsIds data) :
    ¬ (s.onEntryCreate now sender data).IdsAgree := by
  unfold CreateKeepsIds at hbreak
  unfold NetworkServer.onEntryCreate
  split_ifs at hbreak ⊢ with hid
  · by_cases hroom : s.storage.HasRoom data.name
    · -- the path has an id already, and gets a second one
      have hnamed : ¬ ∀ assignment ∈ s.idAssignments.entries, assignment.2 ≠ data.name :=
        fun hall => hbreak ⟨hall, hroom⟩
      push Not at hnamed
      obtain ⟨⟨i, name⟩, hassigned, rfl⟩ := hnamed
      have hfind := (s.idAssignments.mem_entries_iff i data.name).mp hassigned
      obtain ⟨storage, hassign, -⟩ := assignIdToEntry_of_hasRoom h.coherent hroom
      simp only [hassign]
      intro hagree
      have hne : i ≠ s.nextEntryId := by
        rintro rfl
        rw [h.find?_nextEntryId] at hfind
        cases hfind
      have hself := s.idAssignments.find?_emplace_self s.nextEntryId data.name
      rw [h.find?_nextEntryId] at hself
      exact hne (hagree.unique i s.nextEntryId data.name
        ((s.idAssignments.find?_emplace_of_ne data.name hne).trans hfind) hself)
    · -- the id is assigned to a path the storage has no room for
      simp only [assignIdToEntry_of_not_hasRoom hroom]
      intro hagree
      have hfind := hagree.find?_eq_pathOfId h.coherent s.nextEntryId
      rw [show s.storage.pathOfId s.nextEntryId = none from
        (h.agree.find?_eq_pathOfId h.coherent _).symm.trans h.find?_nextEntryId] at hfind
      have hself := s.idAssignments.find?_emplace_self s.nextEntryId data.name
      exact absurd (hself.symm.trans hfind) (Option.some_ne_none _)
  · exact not_idsAgree_createEntry h now sender hid hbreak

theorem not_idsAgree_step (h : s.IdsInvariant) (input : Input) (hbreak : ¬ s.KeepsIds input) :
    ¬ (s.step input).IdsAgree := by
  cases input with
  | message now sender type payload written =>
      simp only [KeepsIds] at hbreak
      push Not at hbreak
      obtain ⟨htype, hfinished, hcreate⟩ := hbreak
      have hparsed : IdsInvariant
          { s with parser := s.parser.parse (MessageType.ofByte type) payload } :=
        h.of_storage rfl rfl rfl
      have hstep : s.step (.message now sender type payload written) =
          NetworkServer.onEntryCreate
            { s with parser := s.parser.parse (MessageType.ofByte type) payload } now sender
            (s.parser.parse (MessageType.ofByte type) payload).data := by
        rw [htype] at hfinished ⊢
        show s.onMessage now sender type payload written = _
        simp only [onMessage, htype, hfinished, if_true, handle]
      rw [hstep]
      exact not_idsAgree_onEntryCreate hparsed now sender hcreate
  | _ => exact absurd trivial hbreak

/-! ## Runs -/

theorem idsInvariant_start (memory : ParseData) (ops : List Storage.Operation) :
    (start memory (Storage.run ops)).IdsInvariant := by
  have hcoherent := (Storage.coherent_run ops).clearNetIds
  refine ⟨hcoherent, idsAgree_of_pathOfId hcoherent ?_ rfl (fun i => rfl) ?_, fun i => ?_⟩
  · intro i j path hi
    cases hi
  · intro i path hi
    refine iff_of_false (fun hfind => by cases hfind) (fun hat => ?_)
    exact hi (Storage.netIdAt_clearNetIds hat)
  · refine iff_of_false (fun hne => hne rfl) (fun hlt => ?_)
    exact absurd hlt (by rw [UInt16.lt_iff_toNat_lt]; exact Nat.not_lt_zero _)

/-- The three records of the ids agree throughout exactly those runs in which
every create is the first one of its path, finds room for it, and does not fall
for the id of an earlier message. -/
theorem idsAgree_iff_keepsIds (memory : ParseData) (ops : List Storage.Operation)
    (inputs : List Input) :
    HoldsThroughout step IdsAgree (start memory (Storage.run ops)) inputs ↔
      StepsMeet step KeepsIds (start memory (Storage.run ops)) inputs :=
  holdsThroughout_iff_stepsMeet
    (fun (s : NetworkServer) input (hs : s.IdsInvariant) hkeep => hs.step input hkeep)
    (fun _ hs => hs.agree)
    (fun _ input hs hbreak => not_idsAgree_step hs input hbreak)
    (idsInvariant_start memory ops) inputs

/-- A delete with the id 5, then a create: the storage knows the id 5, the server
has not assigned it. -/
theorem not_idsAgree_after_delete :
    ¬ HoldsThroughout step IdsAgree (start ⟨0, 0, [], 0, Value.make, 0⟩ (Storage.run []))
      [.message 0 0 3 [0, 0, 0, 0, 0, 0, 0, 1, 0, 5] true,
        .message 0 0 1 [0, 0, 0, 0, 0, 0, 0, 2, 1, 97, 3, 1] true] := by
  intro hall
  have hmapped := (hall.last.mapped 5 [97]).mpr ⟨0, by decide +kernel, by decide +kernel⟩
  exact absurd hmapped (by decide +kernel)

end NetworkServer

end Obsr.Net
