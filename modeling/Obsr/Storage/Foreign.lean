/-
# Operations for other entries

An entry is left as it is by every operation of the network that is for another path,
or with an id that is not one of its own.
-/

import Obsr.Storage.Effect
import Obsr.Storage.Ids

namespace Obsr

open Obsr.Lib

namespace StorageEntry

/-- A set brings its id or none. -/
theorem netId_set_cases (e : StorageEntry) (now : ℤ) (value : Value) (clear : Bool)
    (id : EntryId) (markDirty : Bool) (timestamp : ℤ) :
    (e.set now value clear id markDirty timestamp).1.netId = e.netId ∨
      (e.set now value clear id markDirty timestamp).1.netId = id := by
  have hrevive : (e.revive id).netId = e.netId ∨ (e.revive id).netId = id := by
    by_cases hid : id = idNotAssigned
    · exact Or.inl (if_neg (not_not.mpr hid))
    · exact Or.inr (if_pos hid)
  cases hstale : e.isStale timestamp with
  | true =>
      rw [set_of_stale hstale]
      exact Or.inl rfl
  | false =>
      by_cases hfits : clear = false → e.Fits value
      · rw [(set_of_fits hstale hfits now id markDirty).1]
        exact hrevive
      · push Not at hfits
        obtain ⟨rfl, hfits⟩ := hfits
        rw [(set_of_not_fits hstale hfits now id markDirty).1]
        exact hrevive

end StorageEntry

namespace Storage

variable {s : Storage} {path : Text} {ours : EntryId → Prop} {entry : Handle}
  {data : StorageEntry}

/-- An operation of the network for another path, or with an id that is not ours. -/
def Foreign (path : Text) (ours : EntryId → Prop) : Operation → Prop
  | .onEntryCreated _ _ other _ _ => other ≠ path
  | .onEntryUpdated _ other _ _ => ¬ ours other
  | .onEntryDeleted _ other _ => ¬ ours other
  | .onEntryIdAssigned _ other => other ≠ path
  | _ => False

/-- The entry at a path, which only our ids stand for. -/
structure Held (s : Storage) (path : Text) (ours : EntryId → Prop) (entry : Handle)
    (data : StorageEntry) : Prop where
  coherent : s.Coherent
  entry : s.entries.get? entry = some data
  named : data.path = path
  only : ∀ other, s.pathOfId other = some path → ours other

theorem Held.find (h : s.Held path ours entry data) : s.paths.find? path = some entry := by
  rw [← h.named]
  exact (h.coherent.path_of_entry h.entry).1

theorem Held.entryAt (h : s.Held path ours entry data) : s.entryAt path = some data :=
  entryAt_of_find h.find h.entry

/-- An entry stands for its own path only. -/
theorem Coherent.path_of_entryOf (h : s.Coherent) (hentry : s.entries.get? entry = some data)
    {other : Text} (hother : s.entryOf other = some entry) : data.path = other := by
  unfold entryOf at hother
  rcases s.findOrCreate_cases other with ⟨found, hpath, hfind⟩ |
    ⟨found, t, hpath, hcreates, hfind⟩ | ⟨hpath, hfull, hfind⟩
  · rw [hfind] at hother
    obtain rfl := Option.some.inj hother
    obtain ⟨old, hold, hpathOld⟩ := h.entry_of_path hpath
    obtain rfl := Option.some.inj (hentry.symm.trans hold)
    exact hpathOld
  · rw [hfind] at hother
    obtain rfl := Option.some.inj hother
    have hfresh := hcreates.fresh
    rw [hentry] at hfresh
    cases hfresh
  · rw [hfind] at hother
    cases hother

theorem Held.not_entryOf (h : s.Held path ours entry data) {other : Text}
    (hother : other ≠ path) : s.entryOf other ≠ some entry := fun heq =>
  hother ((h.coherent.path_of_entryOf h.entry heq).symm.trans h.named)

theorem Held.not_find_id (h : s.Held path ours entry data) {other : EntryId}
    (hother : ¬ ours other) : s.ids.find? other ≠ some entry := fun heq =>
  hother (h.only other ((pathOfId_of_find heq h.entry).trans (congrArg some h.named)))

/-- What `m_ids` has under an id after an operation of the network: what it had, or
the entry of the path the operation is for. -/
theorem pathOfId_perform_of_foreign (hs : s.Coherent) {op : Operation}
    (hop : Foreign path ours op) {other : EntryId}
    (hafter : (s.perform op).pathOfId other = some path) : s.pathOfId other = some path := by
  cases op with
  | onEntryCreated now newId newPath value timestamp =>
      replace hop : newPath ≠ path := hop
      change (s.onEntryCreated now newId newPath value timestamp).1.pathOfId other = some path
        at hafter
      by_cases hroom : s.HasRoom newPath
      · rw [pathOfId_onEntryCreated hs hroom] at hafter
        split_ifs at hafter with hid
        · subst hid
          cases hold : s.pathOfId other with
          | none =>
              rw [hold] at hafter
              exact absurd (Option.some.inj hafter) hop
          | some found =>
              rw [hold] at hafter
              exact hafter
        · exact hafter
      · rwa [onEntryCreated_of_not_hasRoom hroom] at hafter
  | onEntryUpdated now newId value timestamp =>
      change (s.onEntryUpdated now newId value timestamp).1.pathOfId other = some path at hafter
      unfold onEntryUpdated at hafter
      split at hafter
      · exact hafter
      · rwa [pathOfId_setEntryInternal] at hafter
  | onEntryDeleted now newId timestamp =>
      change (s.onEntryDeleted now newId timestamp).1.pathOfId other = some path at hafter
      rwa [(sameIds_onEntryDeleted s now newId timestamp).pathOfId] at hafter
  | onEntryIdAssigned newId newPath =>
      replace hop : newPath ≠ path := hop
      change (s.onEntryIdAssigned newId newPath).1.pathOfId other = some path at hafter
      by_cases hroom : s.HasRoom newPath
      · obtain ⟨s', hassign, hnamed⟩ := onEntryIdAssigned_named hs hroom newId
        rw [hassign, hnamed.pathOfId] at hafter
        split_ifs at hafter with hid
        · subst hid
          cases hold : s.pathOfId other with
          | none =>
              rw [hold] at hafter
              exact absurd (Option.some.inj hafter) hop
          | some found =>
              rw [hold] at hafter
              exact hafter
        · exact hafter
      · rwa [onEntryIdAssigned_of_not_hasRoom hroom newId] at hafter
  | _ => exact hop.elim

/-- The entry does not notice. -/
theorem Held.perform (h : s.Held path ours entry data) {op : Operation}
    (hop : Foreign path ours op) : (s.perform op).Held path ours entry data where
  coherent := h.coherent.perform op
  entry := by
    rw [get?_perform h.coherent op h.entry]
    have hkeep : s.effect op entry = .keep := by
      cases op with
      | onEntryCreated now newId newPath value timestamp => exact if_neg (h.not_entryOf hop)
      | onEntryUpdated now newId value timestamp => exact if_neg (h.not_find_id hop)
      | onEntryDeleted now newId timestamp => exact if_neg (h.not_find_id hop)
      | onEntryIdAssigned newId newPath => exact if_neg (h.not_entryOf hop)
      | _ => exact hop.elim
    rw [hkeep]
    rfl
  named := h.named
  only other hother := h.only other (pathOfId_perform_of_foreign h.coherent hop hother)

/-! ## The ids entries hold -/

/-- No other entry holds one of our ids. -/
def HeldBy (s : Storage) (ours : EntryId → Prop) (entry : Handle) : Prop :=
  ∀ other data, s.entries.get? other = some data → ours data.netId →
    other = entry ∨ data.netId = idNotAssigned

/-- An update or an assignment brings one of our ids to that entry at most. -/
theorem HeldBy.perform (h : s.HeldBy ours entry) (hs : s.Coherent) {op : Operation}
    (hop : match op with
      | .onEntryUpdated _ newId _ _ => ours newId → s.ids.find? newId = some entry
      | .onEntryIdAssigned newId path => ours newId → s.entryOf path = some entry
      | _ => False) : (s.perform op).HeldBy ours entry := by
  intro other found hfound hnetId
  rw [(reached_perform hs op other).1, Option.map_eq_some_iff] at hfound
  obtain ⟨before, hbefore, rfl⟩ := hfound
  -- an entry that was created has no id yet
  have hold : ours before.netId → other = entry ∨ before.netId = idNotAssigned := by
    intro hours
    unfold base at hbefore
    cases hdata : s.entries.get? other with
    | some data =>
        rw [hdata] at hbefore
        obtain rfl := Option.some.inj hbefore
        exact h other _ hdata hours
    | none =>
        rw [hdata, Option.none_or] at hbefore
        obtain ⟨path, -, hcreated⟩ := Option.bind_eq_some_iff.mp hbefore
        split_ifs at hcreated
        · obtain rfl := Option.some.inj hcreated
          exact Or.inr rfl
  cases op with
  | onEntryUpdated now newId value timestamp =>
      rw [effect] at hnetId ⊢
      split_ifs at hnetId ⊢ with hreached
      · rcases before.netId_set_cases now value false newId false timestamp with hsame | hnew
        · rw [StorageEntry.after, hsame] at hnetId ⊢
          exact hold hnetId
        · rw [StorageEntry.after, hnew] at hnetId
          exact Or.inl (Option.some.inj (hreached.symm.trans (hop hnetId)))
      · exact hold hnetId
  | onEntryIdAssigned newId newPath =>
      rw [effect] at hnetId ⊢
      split_ifs at hnetId ⊢ with hreached
      · exact Or.inl (Option.some.inj (hreached.symm.trans (hop hnetId)))
      · exact hold hnetId
  | _ => exact hop.elim

end Storage

end Obsr
