/-
# Replication of local edits

A client edits one of its entries any number of times, its storage pass builds
one message out of the result, and the handler of the server applies it. The
message reproduces the edits only in part: a value of another type does not get
in, and a create stands for a deleted entry as well.
-/

import Obsr.Net.Client

namespace Obsr.Net

/-- A local operation on an entry. -/
inductive Edit
  | set (value : Value)
  | clear
  | delete
  deriving DecidableEq, Repr

namespace Edit

/-- What the entry is to the outside after the operation. -/
def view : Option Value → Edit → Option Value
  | _, set value => some value
  | _, clear => some Value.make
  | _, delete => none

/-- Some operation of a list does something: a delete needs an entry to
delete. -/
def changes : Option Value → List Edit → Bool
  | _, [] => false
  | none, delete :: rest => changes none rest
  | _, _ => true

end Edit

/-- One operation of the client's storage. -/
def editStorage (s : Storage) (entry : Handle) (now : ℤ) :
    Edit → Storage × Except Exception Unit
  | .set value => s.setEntryValue now entry value
  | .clear => s.clearEntry now entry
  | .delete => s.deleteEntry now entry

/-- A sequence of operations, if the storage accepts them all. -/
def editsStorage (entry : Handle) : List (ℤ × Edit) → Storage → Option Storage
  | [], s => some s
  | (now, edit) :: rest, s =>
      match editStorage s entry now edit with
      | (s, .ok ()) => editsStorage entry rest s
      | (_, .error _) => none

/-- The call the handler of the server makes for a message. The id of a create is
the one its parser holds. -/
def handlerCall (now : ℤ) (parsedId : EntryId) (s : Storage) (message : OutMessage) : Storage :=
  match message.type with
  | .entryCreate =>
      (s.onEntryCreated now parsedId message.name message.value message.sendTime).1
  | .entryUpdate => (s.onEntryUpdated now message.id message.value message.sendTime).1
  | .entryDelete => (s.onEntryDeleted now message.id message.sendTime).1
  | _ => s

/-- The server after the message a storage pass builds for an entry. -/
def afterPass (now : ℤ) (parsedId : EntryId) (client : Storage) (entry : Handle)
    (server : Storage) : Storage :=
  (NetworkClient.messageFor now client entry).elim server (handlerCall now parsedId server)

/-- Two storages agree on a path, and the second has seen nothing newer. -/
structure Agree (client server : Storage) (path : Text) (since : ℤ) : Prop where
  view : client.viewAt path = server.viewAt path
  id : ∀ c d, client.entryAt path = some c → server.entryAt path = some d →
    c.netId ≠ idNotAssigned → d.netId ≠ idNotAssigned → c.netId = d.netId
  notNewer : ∀ c d, client.entryAt path = some c → server.entryAt path = some d →
    d.lastUpdateTimestamp ≤ since ∧
      (c.dirty = true → d.lastUpdateTimestamp ≤ c.lastUpdateTimestamp)

/-- A message with the id gets to the entry of the path; a create gets to it, or
finds room for it. A new entry has the timestamp zero, so that a create from
before that time would be stale. -/
def Reaches (server : Storage) (path : Text) (id : EntryId) (now : ℤ) : Prop :=
  if id = idNotAssigned then
    server.paths.find? path ≠ none ∨ (server.entries.HasSpace ∧ 0 ≤ now)
  else
    server.ids.find? id ≠ none ∧ server.ids.find? id = server.paths.find? path

instance (server : Storage) (path : Text) (id : EntryId) (now : ℤ) :
    Decidable (Reaches server path id now) :=
  if h : id = idNotAssigned then decidable_of_iff _ (by rw [Reaches, if_pos h])
  else decidable_of_iff _ (by rw [Reaches, if_neg h])

/-- The value can take the place of the agreed one. -/
def FitsView (before : Option Value) (value : Value) : Prop :=
  ∀ old, before = some old → old.type = .empty ∨ old.type = value.type

/-- When the message carries the edits over: there is none and nothing changed;
or it cannot get through and nothing changed; or it gets through and the last
value fits the agreed one, or the last edit deleted an entry with an id. -/
def Carries (server : Storage) (c : StorageEntry) (edits : List Edit) (now : ℤ) : Prop :=
  let after := edits.foldl Edit.view c.view
  (c.dirty = false ∧ Edit.changes c.view edits = false) ∨
    (¬ Reaches server c.path c.netId now ∧ c.view = after) ∨
      (Reaches server c.path c.netId now ∧
        match after with
        | some value => FitsView c.view value
        | none => c.netId ≠ idNotAssigned)

/-! ## The edits at the client -/

theorem view_eq_none_iff (e : StorageEntry) : e.view = none ↔ e.hasValue = false := by
  unfold StorageEntry.view
  cases e.hasValue <;> simp

theorem view_of_hasValue {e : StorageEntry} (h : e.hasValue = true) :
    e.view = some e.value := if_pos h

/-- An entry without a value fits every value. -/
theorem fits_iff_fitsView {e : StorageEntry} (h : e.Sound) (value : Value) :
    e.Fits value ↔ FitsView e.view value := by
  cases hvalue : e.hasValue with
  | true => simp [FitsView, view_of_hasValue hvalue, StorageEntry.Fits]
  | false =>
      rw [FitsView, (view_eq_none_iff e).mpr hvalue]
      refine iff_of_true (Or.inl ?_) (fun old hold => by cases hold)
      rw [h.empty hvalue]
      rfl

/-- An operation changes nothing, or leaves the entry dirty with the time of the
operation. -/
structure Edited (c : StorageEntry) (now : ℤ) (edit : Edit) (c' : StorageEntry) : Prop where
  view : c'.view = edit.view c.view
  netId : c'.netId = c.netId
  path : c'.path = c.path
  effect : c' = c ∧ edit = .delete ∧ c.view = none ∨
    (c'.dirty = true ∧ c'.lastUpdateTimestamp = now ∧ (edit = .delete → c.view ≠ none))

theorem edited_of_set {c : StorageEntry} {now : ℤ} {value : Value} {clear : Bool}
    (h : (c.set now value clear idNotAssigned true 0).2.2 = .ok ()) :
    Edited c now (if clear then .clear else .set value)
      (c.set now value clear idNotAssigned true 0).1 := by
  have hstale := StorageEntry.isStale_zero c
  by_cases hfits : clear = false → c.Fits value
  · rw [(StorageEntry.set_of_fits hstale hfits now idNotAssigned true).1]
    cases clear with
    | true => exact ⟨rfl, rfl, rfl, Or.inr ⟨rfl, rfl, fun h => by cases h⟩⟩
    | false => exact ⟨rfl, rfl, rfl, Or.inr ⟨rfl, rfl, fun h => by cases h⟩⟩
  · push Not at hfits
    obtain ⟨rfl, hfits⟩ := hfits
    obtain ⟨-, thrown, hthrown⟩ :=
      StorageEntry.set_of_not_fits hstale hfits now idNotAssigned true
    rw [hthrown] at h
    cases h

theorem edited_of_delete (c : StorageEntry) (now : ℤ) :
    Edited c now .delete (c.delete now true 0).1 := by
  cases hvalue : c.hasValue with
  | false =>
      rw [StorageEntry.delete_of_not_hasValue hvalue]
      have hnone := (view_eq_none_iff c).mpr hvalue
      exact ⟨hnone, rfl, rfl, Or.inl ⟨rfl, rfl, hnone⟩⟩
  | true =>
      rw [StorageEntry.delete_of_hasValue (StorageEntry.isStale_zero c) hvalue]
      refine ⟨?_, rfl, rfl, Or.inr ⟨rfl, rfl, fun _ => ?_⟩⟩
      · exact (view_eq_none_iff _).mpr (by simp [StorageEntry.hasValue])
      · rw [view_of_hasValue hvalue]
        exact Option.some_ne_none _

theorem editStorage_spec {s s' : Storage} {entry : Handle} {c : StorageEntry} {now : ℤ}
    {edit : Edit} (hs : s.Coherent) (hc : s.entries.get? entry = some c)
    (h : editStorage s entry now edit = (s', .ok ())) :
    s'.Coherent ∧ s'.paths = s.paths ∧
      ∃ c', s'.entries.get? entry = some c' ∧ Edited c now edit c' := by
  have hset : ∀ value clear, s.setEntryInternal now entry value clear idNotAssigned true 0 =
      (s', .ok ()) → s'.Coherent ∧ s'.paths = s.paths ∧ ∃ c',
        s'.entries.get? entry = some c' ∧
          Edited c now (if clear then .clear else .set value) c' := by
    intro value clear hresult
    have hcoherent := hs.setEntryInternal now entry value clear idNotAssigned true 0
    rw [hresult] at hcoherent
    rw [Storage.setEntryInternal_of_some hc] at hresult
    obtain ⟨rfl, hok⟩ := Prod.mk.inj hresult
    exact ⟨hcoherent, rfl, _, Storage.get?_store_self s hc _ _, edited_of_set hok⟩
  cases edit with
  | set value => exact hset value false h
  | clear => exact hset Value.make true h
  | delete =>
      have hcoherent := hs.deleteEntryInternal now entry true 0
      have hresult : s.deleteEntryInternal now entry true 0 = (s', .ok ()) := h
      rw [hresult] at hcoherent
      rw [Storage.deleteEntryInternal_of_some hc] at hresult
      obtain ⟨rfl, -⟩ := Prod.mk.inj hresult
      exact ⟨hcoherent, rfl, _, Storage.get?_store_self s hc _ _, edited_of_delete c now⟩

/-- What a sequence of accepted operations leaves: the entry shows what the edits
say, and it is dirty with a new time if one of them changed it. -/
theorem editsStorage_spec {s s' : Storage} {entry : Handle} {c : StorageEntry} {since : ℤ}
    {edits : List (ℤ × Edit)} (hs : s.Coherent) (hc : s.entries.get? entry = some c)
    (hsince : ∀ edit ∈ edits, since ≤ edit.1)
    (h : editsStorage entry edits s = some s') :
    s'.Coherent ∧ s'.paths = s.paths ∧
      ∃ c', s'.entries.get? entry = some c' ∧
        c'.view = (edits.map Prod.snd).foldl Edit.view c.view ∧
        c'.netId = c.netId ∧ c'.path = c.path ∧
        (Edit.changes c.view (edits.map Prod.snd) = false → c' = c) ∧
        (Edit.changes c.view (edits.map Prod.snd) = true →
          c'.dirty = true ∧ since ≤ c'.lastUpdateTimestamp) := by
  induction edits generalizing s c with
  | nil =>
      obtain rfl := Option.some.inj h
      exact ⟨hs, rfl, c, hc, rfl, rfl, rfl, fun _ => rfl, fun hchange => Bool.noConfusion hchange⟩
  | cons edit edits ih =>
      obtain ⟨now, edit⟩ := edit
      rw [editsStorage] at h
      rcases hedit : editStorage s entry now edit with ⟨t, result⟩
      rw [hedit] at h
      cases result with
      | error thrown => cases h
      | ok u =>
          obtain ⟨ht, hpaths, d, hd, hedited⟩ := editStorage_spec hs hc hedit
          obtain ⟨hs', hpaths', c', hc', hview, hnetId, hpath, hsame, hchanged⟩ :=
            ih ht hd (fun other hother => hsince other (List.mem_cons_of_mem _ hother)) h
          refine ⟨hs', hpaths'.trans hpaths, c', hc', ?_, hnetId.trans hedited.netId,
            hpath.trans hedited.path, ?_, ?_⟩
          · rw [hview, hedited.view]
            rfl
          · intro hnone
            rcases hedited.effect with ⟨rfl, rfl, hcview⟩ | ⟨-, -, hdelete⟩
            · rw [hcview] at hnone hsame
              exact hsame hnone
            · cases edit with
              | set value => simp [Edit.changes] at hnone
              | clear => simp [Edit.changes] at hnone
              | delete =>
                  obtain ⟨old, hold⟩ := Option.ne_none_iff_exists'.mp (hdelete rfl)
                  simp [Edit.changes, hold] at hnone
          · intro hchange
            rcases hedited.effect with ⟨rfl, rfl, hcview⟩ | ⟨hdirty, htime, -⟩
            · rw [hcview] at hchange hchanged
              exact hchanged hchange
            · cases hrest : Edit.changes d.view (edits.map Prod.snd) with
              | true => exact hchanged hrest
              | false =>
                  rw [hsame hrest]
                  exact ⟨hdirty, htime ▸ hsince (now, edit) (List.mem_cons_self ..)⟩

/-! ## The message at the server -/

section Server

variable {s : Storage} {path : Text} {entry : Handle} {d : StorageEntry}

theorem entryAt_eq (hpath : s.paths.find? path = some entry)
    (hd : s.entries.get? entry = some d) : s.entryAt path = some d := by
  rw [Storage.entryAt, hpath, Option.bind_some, hd]

theorem viewAt_eq (hpath : s.paths.find? path = some entry)
    (hd : s.entries.get? entry = some d) : s.viewAt path = d.view := by
  rw [Storage.viewAt, entryAt_eq hpath hd, Option.bind_some]

theorem viewAt_of_unknown (hpath : s.paths.find? path = none) : s.viewAt path = none := by
  rw [Storage.viewAt, Storage.entryAt, hpath]
  rfl

/-- A changed entry shows at its own path only. -/
theorem viewAt_store_of_ne (data : StorageEntry) (events : List Event)
    (h : s.paths.find? path ≠ some entry) :
    (s.store entry data events).viewAt path = s.viewAt path := by
  unfold Storage.viewAt Storage.entryAt
  rw [Storage.paths_store]
  cases hpath : s.paths.find? path with
  | none => rfl
  | some other =>
      have hne : other ≠ entry := fun heq => h (by rw [hpath, heq])
      rw [Option.bind_some, Option.bind_some, Storage.get?_store_of_ne s data events hne]

theorem viewAt_store_self (hpath : s.paths.find? path = some entry)
    (hd : s.entries.get? entry = some d) (data : StorageEntry) (events : List Event) :
    (s.store entry data events).viewAt path = data.view :=
  viewAt_eq (s := s.store entry data events) hpath (Storage.get?_store_self s hd data events)

theorem not_isStale_of_le {timestamp : ℤ} (h : d.lastUpdateTimestamp ≤ timestamp) :
    d.isStale timestamp = false := by
  simp only [StorageEntry.isStale, decide_eq_false_iff_not, not_and, not_lt]
  exact fun _ => h

/-- A set leaves the path with a value: the one that was sent, exactly if it fits
the old one. -/
theorem viewAt_setEntryInternal (hsound : d.Sound)
    (hpath : s.paths.find? path = some entry) (hd : s.entries.get? entry = some d)
    {timestamp : ℤ} (htime : d.lastUpdateTimestamp ≤ timestamp) (now : ℤ) (value : Value)
    (id : EntryId) :
    let after := (s.setEntryInternal now entry value false id false timestamp).1.viewAt path
    after ≠ none ∧ (after = some value ↔ FitsView (s.viewAt path) value) := by
  have hstale := not_isStale_of_le htime
  rw [Storage.setEntryInternal_of_some hd, viewAt_eq hpath hd, ← fits_iff_fitsView hsound]
  simp only [viewAt_store_self hpath hd]
  by_cases hfits : d.Fits value
  · rw [(StorageEntry.set_of_fits hstale (fun _ => hfits) now id false).1]
    exact ⟨Option.some_ne_none value, iff_of_true rfl hfits⟩
  · rw [(StorageEntry.set_of_not_fits hstale hfits now id false).1]
    refine ⟨Option.some_ne_none d.value, iff_of_false (fun heq => ?_) hfits⟩
    have hvalue : d.value = value := Option.some.inj heq
    exact hfits (Or.inr (by rw [hvalue]))

theorem viewAt_deleteEntryInternal (hpath : s.paths.find? path = some entry)
    (hd : s.entries.get? entry = some d) {timestamp : ℤ}
    (htime : d.lastUpdateTimestamp ≤ timestamp) (now : ℤ) :
    (s.deleteEntryInternal now entry false timestamp).1.viewAt path = none := by
  rw [Storage.deleteEntryInternal_of_some hd, viewAt_store_self hpath hd]
  cases hvalue : d.hasValue with
  | false =>
      rw [StorageEntry.delete_of_not_hasValue hvalue]
      exact (view_eq_none_iff d).mpr hvalue
  | true =>
      rw [StorageEntry.delete_of_hasValue (not_isStale_of_le htime) hvalue]
      exact (view_eq_none_iff _).mpr (by simp [StorageEntry.hasValue])

/-- A create writes its value into the entry of the path, known or new. -/
theorem viewAt_onEntryCreated (hs : s.Coherent) {timestamp : ℤ}
    (hreach : s.paths.find? path ≠ none ∨ (s.entries.HasSpace ∧ 0 ≤ timestamp))
    (htime : ∀ d, s.entryAt path = some d → d.lastUpdateTimestamp ≤ timestamp)
    (now : ℤ) (id : EntryId) (value : Value) :
    let after := (s.onEntryCreated now id path value timestamp).1.viewAt path
    after ≠ none ∧ (after = some value ↔ FitsView (s.viewAt path) value) := by
  rcases s.findOrCreate_cases path with ⟨entry, hpath, hfind⟩ |
    ⟨entry, t, hpath, hcreates, hfind⟩ | ⟨hpath, hfull, hfind⟩
  · obtain ⟨d, hd, -⟩ := hs.entry_of_path hpath
    rw [Storage.onEntryCreated, hfind]
    exact viewAt_setEntryInternal (s := { s with ids := s.ids.emplace id entry })
      (hs.sound hd) hpath hd (htime d (entryAt_eq hpath hd)) now value id
  · have ht := hs.creates hpath hcreates
    have htpath : t.paths.find? path = some entry := by
      rw [hcreates.paths, Lib.OrderedMap.find?_emplace_self, hpath]
      rfl
    have hd := (hcreates.entries entry).trans (if_pos rfl)
    have hview : t.viewAt path = s.viewAt path :=
      (viewAt_eq htpath hd).trans (viewAt_of_unknown hpath).symm
    have hzero : (0 : ℤ) ≤ timestamp := by
      rcases hreach with hknown | ⟨-, hzero⟩
      · exact absurd hpath hknown
      · exact hzero
    rw [Storage.onEntryCreated, hfind, ← hview]
    exact viewAt_setEntryInternal (s := { t with ids := t.ids.emplace id entry })
      (ht.sound hd) htpath hd hzero now value id
  · rcases hreach with hknown | ⟨hspace, -⟩
    · exact absurd hpath hknown
    · exact absurd hspace hfull

/-- A create that finds no room, or is stale at once, shows nothing. -/
theorem viewAt_onEntryCreated_of_not_reaches {timestamp : ℤ}
    (hreach : ¬ (s.paths.find? path ≠ none ∨ (s.entries.HasSpace ∧ 0 ≤ timestamp)))
    (now : ℤ) (id : EntryId) (value : Value) :
    (s.onEntryCreated now id path value timestamp).1.viewAt path = s.viewAt path := by
  rcases s.findOrCreate_cases path with ⟨entry, hpath, -⟩ |
    ⟨entry, t, hpath, hcreates, hfind⟩ | ⟨-, -, hfind⟩
  · exact absurd (Or.inl (by rw [hpath]; exact Option.some_ne_none entry)) hreach
  · have hspace : s.entries.HasSpace := by
      by_contra hfull
      rw [Storage.findOrCreate, hpath] at hfind
      have hcreate := Storage.createNewEntry_of_not_hasSpace hfull path
      cases hcreate.symm.trans hfind
    have hnegative : timestamp < 0 := by
      by_contra hzero
      exact hreach (Or.inr ⟨hspace, not_lt.mp hzero⟩)
    have htpath : t.paths.find? path = some entry := by
      rw [hcreates.paths, Lib.OrderedMap.find?_emplace_self, hpath]
      rfl
    have hd := (hcreates.entries entry).trans (if_pos rfl)
    have hstale : StorageEntry.isStale { handle := entry, path, created := true } timestamp =
        true := by
      simp only [StorageEntry.isStale, decide_eq_true_eq]
      exact ⟨hnegative.ne, hnegative⟩
    rw [Storage.onEntryCreated, hfind, viewAt_of_unknown hpath]
    show (Storage.setEntryInternal { t with ids := t.ids.emplace id entry } now entry value
      false id false timestamp).1.viewAt path = none
    rw [Storage.setEntryInternal_of_some (s := { t with ids := t.ids.emplace id entry }) hd]
    rw [viewAt_store_self (s := { t with ids := t.ids.emplace id entry }) htpath hd,
      StorageEntry.set_of_stale hstale]
    rfl
  · rw [Storage.onEntryCreated, hfind]

/-- An update or a delete whose id stands for no entry, or for that of another
path, does not show at the path. -/
theorem viewAt_of_not_reaches {id : EntryId}
    (hreach : ¬ (s.ids.find? id ≠ none ∧ s.ids.find? id = s.paths.find? path))
    (now timestamp : ℤ) (value : Value) :
    (s.onEntryUpdated now id value timestamp).1.viewAt path = s.viewAt path ∧
      (s.onEntryDeleted now id timestamp).1.viewAt path = s.viewAt path := by
  unfold Storage.onEntryUpdated Storage.onEntryDeleted
  cases hid : s.ids.find? id with
  | none => exact ⟨rfl, rfl⟩
  | some other =>
      have hother : s.paths.find? path ≠ some other := fun heq =>
        hreach ⟨by rw [hid]; exact Option.some_ne_none other, by rw [hid, heq]⟩
      cases hd : s.entries.get? other with
      | none =>
          simp only [Storage.setEntryInternal_of_none hd, Storage.deleteEntryInternal_of_none hd]
          exact ⟨trivial, trivial⟩
      | some d =>
          simp only [Storage.setEntryInternal_of_some hd, Storage.deleteEntryInternal_of_some hd]
          exact ⟨viewAt_store_of_ne _ _ hother, viewAt_store_of_ne _ _ hother⟩

end Server

/-! ## Replication -/

theorem messageFor_of_dirty {s : Storage} {entry : Handle} {c : StorageEntry}
    (hc : s.entries.get? entry = some c) (now : ℤ) :
    NetworkClient.messageFor now s entry =
      if c.dirty then some (NetworkClient.entryMessage now c) else none := by
  cases hdirty : c.dirty <;> simp [NetworkClient.messageFor, hc, hdirty]

/-- The message of an entry gets to its path and the value fits, or an id says what to
delete; or it does not get there, and the server has what the entry has. -/
def Follows (server : Storage) (c : StorageEntry) (now : ℤ) : Prop :=
  (¬ Reaches server c.path c.netId now ∧ server.viewAt c.path = c.view) ∨
    (Reaches server c.path c.netId now ∧
      match c.view with
      | some value => FitsView (server.viewAt c.path) value
      | none => c.netId ≠ idNotAssigned)

section Messages

variable {server : Storage} {c : StorageEntry} {now : ℤ}

/-- An assigned id that reaches the path stands for its entry. -/
theorem entry_of_reaches (hserver : server.Coherent) (hid : c.netId ≠ idNotAssigned)
    (hreach : Reaches server c.path c.netId now) :
    ∃ entry d, server.ids.find? c.netId = some entry ∧
      server.paths.find? c.path = some entry ∧ server.entries.get? entry = some d ∧ d.Sound ∧
        server.entryAt c.path = some d := by
  rw [Reaches, if_neg hid] at hreach
  obtain ⟨entry, hentry⟩ := Option.ne_none_iff_exists'.mp hreach.1
  have hpath := hreach.2.symm.trans hentry
  obtain ⟨d, hd, -⟩ := hserver.entry_of_path hpath
  exact ⟨entry, d, hentry, hpath, hd, hserver.sound hd, entryAt_eq hpath hd⟩

theorem viewAt_create_iff (hserver : server.Coherent) (hid : c.netId = idNotAssigned)
    (htime : ∀ d, server.entryAt c.path = some d → d.lastUpdateTimestamp ≤ now)
    (parsedId : EntryId) :
    (server.onEntryCreated now parsedId c.path c.value now).1.viewAt c.path = c.view ↔
      Follows server c now := by
  rw [Follows]
  by_cases hreach : Reaches server c.path c.netId now
  · have hroom := hreach
    rw [Reaches, if_pos hid] at hroom
    obtain ⟨hsome, hiff⟩ := viewAt_onEntryCreated hserver hroom htime now parsedId c.value
    cases hvalue : c.hasValue with
    | true =>
        rw [view_of_hasValue hvalue, hiff]
        simp [hreach]
    | false =>
        rw [(view_eq_none_iff c).mpr hvalue]
        refine iff_of_false hsome ?_
        rintro (⟨hnot, -⟩ | ⟨-, hassigned⟩)
        · exact hnot hreach
        · exact hassigned hid
  · have hroom := hreach
    rw [Reaches, if_pos hid] at hroom
    rw [viewAt_onEntryCreated_of_not_reaches hroom]
    simp [hreach]

theorem viewAt_delete_iff (hserver : server.Coherent) (hid : c.netId ≠ idNotAssigned)
    (hdeleted : c.deleted = true)
    (htime : ∀ d, server.entryAt c.path = some d →
      d.lastUpdateTimestamp ≤ c.lastUpdateTimestamp) :
    (server.onEntryDeleted now c.netId c.lastUpdateTimestamp).1.viewAt c.path = c.view ↔
      Follows server c now := by
  have hview : c.view = none :=
    (view_eq_none_iff c).mpr (by simp [StorageEntry.hasValue, hdeleted])
  rw [Follows, hview]
  by_cases hreach : Reaches server c.path c.netId now
  · obtain ⟨entry, d, hentry, hpath, hd, -, hat⟩ := entry_of_reaches hserver hid hreach
    have hnone : (server.onEntryDeleted now c.netId c.lastUpdateTimestamp).1.viewAt c.path =
        none := by
      rw [Storage.onEntryDeleted, hentry]
      exact viewAt_deleteEntryInternal hpath hd (htime d hat) now
    simp [hnone, hreach, hid]
  · have hids := hreach
    rw [Reaches, if_neg hid] at hids
    rw [(viewAt_of_not_reaches hids now c.lastUpdateTimestamp c.value).2]
    simp [hreach]

theorem viewAt_update_iff (hserver : server.Coherent) (hid : c.netId ≠ idNotAssigned)
    (hvalue : c.hasValue = true)
    (htime : ∀ d, server.entryAt c.path = some d →
      d.lastUpdateTimestamp ≤ c.lastUpdateTimestamp) :
    (server.onEntryUpdated now c.netId c.value c.lastUpdateTimestamp).1.viewAt c.path = c.view ↔
      Follows server c now := by
  rw [Follows, view_of_hasValue hvalue]
  by_cases hreach : Reaches server c.path c.netId now
  · obtain ⟨entry, d, hentry, hpath, hd, hsound, hat⟩ := entry_of_reaches hserver hid hreach
    have hiff : (server.onEntryUpdated now c.netId c.value
        c.lastUpdateTimestamp).1.viewAt c.path = some c.value ↔
          FitsView (server.viewAt c.path) c.value := by
      rw [Storage.onEntryUpdated, hentry]
      exact (viewAt_setEntryInternal hsound hpath hd (htime d hat) now c.value c.netId).2
    simp [hiff, hreach]
  · have hids := hreach
    rw [Reaches, if_neg hid] at hids
    rw [(viewAt_of_not_reaches hids now c.lastUpdateTimestamp c.value).1]
    simp [hreach]

/-- This is exactly when the message of a dirty entry leaves the server with the value of
the entry, or without one. -/
theorem viewAt_handlerCall_iff (hserver : server.Coherent) (hc : c.Sound)
    (hdirty : c.dirty = true)
    (htime : ∀ d, server.entryAt c.path = some d →
      d.lastUpdateTimestamp ≤ now ∧ d.lastUpdateTimestamp ≤ c.lastUpdateTimestamp)
    (parsedId : EntryId) :
    (handlerCall now parsedId server (NetworkClient.entryMessage now c)).viewAt c.path =
      c.view ↔ Follows server c now := by
  have hcreated : c.created = false := by
    cases hcreated : c.created with
    | false => rfl
    | true => exact absurd (hc.clean hcreated) (by simp [hdirty])
  by_cases hid : c.netId = idNotAssigned
  · have hcall : handlerCall now parsedId server (NetworkClient.entryMessage now c) =
        (server.onEntryCreated now parsedId c.path c.value now).1 := by
      rw [NetworkClient.entryMessage, if_pos hid]
      rfl
    rw [hcall]
    exact viewAt_create_iff hserver hid (fun d hd => (htime d hd).1) parsedId
  · cases hdeleted : c.deleted with
    | true =>
        have hcall : handlerCall now parsedId server (NetworkClient.entryMessage now c) =
            (server.onEntryDeleted now c.netId c.lastUpdateTimestamp).1 := by
          rw [NetworkClient.entryMessage, if_neg hid, if_pos hdeleted]
          rfl
        rw [hcall]
        exact viewAt_delete_iff hserver hid hdeleted fun d hd => (htime d hd).2
    | false =>
        have hvalue : c.hasValue = true := by simp [StorageEntry.hasValue, hcreated, hdeleted]
        have hcall : handlerCall now parsedId server (NetworkClient.entryMessage now c) =
            (server.onEntryUpdated now c.netId c.value c.lastUpdateTimestamp).1 := by
          rw [NetworkClient.entryMessage, if_neg hid, if_neg (by simp [hdeleted])]
          rfl
        rw [hcall]
        exact viewAt_update_iff hserver hid hvalue fun d hd => (htime d hd).2

end Messages

/-- The server follows the edits of a client exactly when the one message built
for them carries them over. The clock does not fall behind `since`. -/
theorem replicates_iff_carries (clientOps serverOps : List Storage.Operation) {path : Text}
    {entry : Handle} {c : StorageEntry} {since now : ℤ} {edits : List (ℤ × Edit)}
    {client' : Storage}
    (hpath : (Storage.run clientOps).paths.find? path = some entry)
    (hc : (Storage.run clientOps).entries.get? entry = some c)
    (hagree : Agree (Storage.run clientOps) (Storage.run serverOps) path since)
    (hclock : ∀ edit ∈ edits, since ≤ edit.1) (hnow : since ≤ now)
    (haccept : editsStorage entry edits (Storage.run clientOps) = some client')
    (parsedId : EntryId) :
    (afterPass now parsedId client' entry (Storage.run serverOps)).viewAt path =
        client'.viewAt path ↔
      Carries (Storage.run serverOps) c (edits.map Prod.snd) now := by
  have hclient := Storage.coherent_run clientOps
  have hserver := Storage.coherent_run serverOps
  obtain ⟨hclient', hpaths, c', hc', hview, hnetId, hcpath, hsame, hchanged⟩ :=
    editsStorage_spec hclient hc hclock haccept
  have hcat : c.path = path := by
    obtain ⟨found, hfound, hfoundPath⟩ := hclient.entry_of_path hpath
    obtain rfl := Option.some.inj (hc.symm.trans hfound)
    exact hfoundPath
  have hpath' : client'.paths.find? path = some entry := by rw [hpaths, hpath]
  have hbefore : (Storage.run serverOps).viewAt path = c.view := by
    rw [← hagree.view, viewAt_eq hpath hc]
  rw [viewAt_eq hpath' hc', afterPass, messageFor_of_dirty hc']
  cases hdirty : c'.dirty with
  | false =>
      have hnone : Edit.changes c.view (edits.map Prod.snd) = false := by
        by_contra hchange
        have hset := (hchanged (by simpa using hchange)).1
        rw [hdirty] at hset
        cases hset
      obtain rfl := hsame hnone
      exact iff_of_true hbefore (Or.inl ⟨hdirty, hnone⟩)
  | true =>
      have htime : ∀ d, (Storage.run serverOps).entryAt c'.path = some d →
          d.lastUpdateTimestamp ≤ now ∧ d.lastUpdateTimestamp ≤ c'.lastUpdateTimestamp := by
        intro d hd
        rw [hcpath, hcat] at hd
        obtain ⟨hsinceD, hcD⟩ := hagree.notNewer c d (entryAt_eq hpath hc) hd
        refine ⟨hsinceD.trans hnow, ?_⟩
        cases hchange : Edit.changes c.view (edits.map Prod.snd) with
        | true => exact hsinceD.trans (hchanged hchange).2
        | false =>
            obtain rfl := hsame hchange
            exact hcD hdirty
      have hiff := viewAt_handlerCall_iff hserver (hclient'.sound hc') hdirty htime parsedId
      rw [Follows, hcpath, hcat, hnetId, hbefore] at hiff
      have hfirst : ¬ (c.dirty = false ∧ Edit.changes c.view (edits.map Prod.snd) = false) := by
        rintro ⟨hclean, hnone⟩
        obtain rfl := hsame hnone
        rw [hdirty] at hclean
        cases hclean
      rw [Carries, or_iff_right hfirst, hcat, ← hview]
      exact hiff

/-- An entry that both sides know by an id, set once. -/
theorem replicates_known_entry :
    ∃ client', editsStorage 0 [(1, .set (Value.makeInt32 5))]
        (Storage.run [.getOrCreateEntry [47, 97], .onEntryIdAssigned 0 [47, 97]]) =
          some client' ∧
      (afterPass 2 idNotAssigned client' 0
          (Storage.run [.onEntryIdAssigned 0 [47, 97]])).viewAt [47, 97] =
        client'.viewAt [47, 97] := by
  have hagree : Agree (Storage.run [.getOrCreateEntry [47, 97], .onEntryIdAssigned 0 [47, 97]])
      (Storage.run [.onEntryIdAssigned 0 [47, 97]]) [47, 97] 0 := by
    refine ⟨rfl, ?_, ?_⟩
    · intro c d hc hd _ _
      obtain rfl := Option.some.inj hc
      obtain rfl := Option.some.inj hd
      rfl
    · intro c d hc hd
      obtain rfl := Option.some.inj hc
      obtain rfl := Option.some.inj hd
      decide
  have hclock : ∀ edit ∈ [((1 : ℤ), Edit.set (Value.makeInt32 5))], 0 ≤ edit.1 := by decide
  refine ⟨_, rfl, (replicates_iff_carries _ _ rfl rfl hagree hclock (by decide) rfl
    idNotAssigned).mpr (Or.inr (Or.inr ⟨by decide +kernel, fun old hold => ?_⟩))⟩
  cases hold

/-- An entry that is set and deleted before its first synchronisation is live at
the server afterwards, with the empty value. -/
theorem not_replicates_created_and_deleted :
    ∃ client',
      (Storage.run [.getOrCreateEntry [47, 97]]).paths.find? [47, 97] = some 0 ∧
      Agree (Storage.run [.getOrCreateEntry [47, 97]]) (Storage.run []) [47, 97] 0 ∧
      editsStorage 0 [(1, .set (Value.makeInt32 5)), (2, .delete)]
        (Storage.run [.getOrCreateEntry [47, 97]]) = some client' ∧
      (afterPass 3 idNotAssigned client' 0 (Storage.run [])).viewAt [47, 97] =
        some Value.make ∧
      client'.viewAt [47, 97] = none := by
  refine ⟨_, rfl, ⟨rfl, ?_, ?_⟩, rfl, by decide +kernel, by decide +kernel⟩
  · intro c d _ hd
    cases hd
  · intro c d _ hd
    cases hd

end Obsr.Net
