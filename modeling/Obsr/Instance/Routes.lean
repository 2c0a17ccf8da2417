/-
# Routes to an entry

A program reaches an entry by its path, by its name in the object of a path, or by its
name in an object it got to one child at a time. Below an object all three make the same
walk and ask the storage for the same path. Directly below the root the first one fails:
the path of the parent is empty, and `get_or_create_object` cuts off its first character.
-/

import Obsr.Instance.Walk
import Obsr.Storage.Ids

namespace Obsr

open Obsr.Lib

namespace Instance

variable {i i' : Instance} {current object entry : Handle} {data : ObjectData} {last : Text}
  {front : List Text}

/-- One `get_child` after the other. -/
def getChildren : List Text → Handle → Instance → Instance × Except InstanceException Handle
  | [], object, i => (i, .ok object)
  | name :: others, object, i =>
      match i.getChild object name with
      | (i, .ok object) => getChildren others object i
      | (i, .error exception) => (i, .error exception)

def getPathForEntry (i : Instance) (entry : Handle) : Except InstanceException Text :=
  match i.storage.entries.get? entry with
  | none => .error (.thrown (.noSuchHandle entry))
  | some data => .ok data.path

inductive Route
  | path
  | object
  | children
  deriving DecidableEq, Repr

/-- The object the entry is in, if it is not reached by its path. -/
def enter (i : Instance) (front : List Text) :
    Route → Instance × Except InstanceException Handle
  | .children => getChildren front i.root i
  | _ => if front = [] then (i, .ok i.root) else i.getObject (joined front)

/-- The entry with the last name in the object along the names in front of it. -/
def takeRoute (i : Instance) (front : List Text) (last : Text) (route : Route) :
    Instance × Except InstanceException Handle :=
  match route with
  | .path => i.getEntry (joined (front ++ [last]))
  | route =>
      match i.enter front route with
      | (i, .ok object) => i.getEntryIn object last
      | (i, .error exception) => (i, .error exception)

/-- There are free slots for the missing objects and for the entry. -/
def HasRoomFor (i : Instance) (front : List Text) (last : Text) : Prop :=
  i.missing [] front ≤ i.objects.freeSlots ∧ i.storage.HasRoom (joined (front ++ [last]))

instance (i : Instance) (front : List Text) (last : Text) : Decidable (i.HasRoomFor front last) :=
  inferInstanceAs (Decidable (_ ∧ _))

/-- Every route leads to one entry, with the path along the names, whichever routes were
taken before. -/
def RoutesAgree (i : Instance) (front : List Text) (last : Text) : Prop :=
  ∃ entry, ∀ (before : List Route) (route : Route),
    let after := (before.foldl (fun i route => (i.takeRoute front last route).1) i).takeRoute
      front last route
    after.2 = .ok entry ∧ after.1.getPathForEntry entry = .ok (joined (front ++ [last]))

/-! ## Below an object -/

/-- Going from child to child is what the parser does. -/
theorem getChildren_eq (full : Text) (hfront : front ≠ [])
    (hnames : ∀ name ∈ front, validName name = true) (current : Handle) (i : Instance) :
    getChildren front current i = getOrCreateNames full front current i := by
  induction front generalizing current i with
  | nil => exact absurd rfl hfront
  | cons name others ih =>
      have hname := hnames name List.mem_cons_self
      rw [getChildren, getChild, if_pos hname]
      cases others with
      | nil =>
          rw [getOrCreateNames, if_neg (validName_iff.mp hname).1]
          rcases i.getOrCreateChild current name with ⟨i', exception | object⟩
          · rfl
          · rfl
      | cons next others =>
          rw [getOrCreateNames_cons full name (List.cons_ne_nil _ _)]
          rcases i.getOrCreateChild current name with ⟨i', exception | object⟩
          · rfl
          · exact ih (List.cons_ne_nil _ _) (fun n hn => hnames n (List.mem_cons_of_mem _ hn))
              object i'

theorem wellFormed_joined (hfront : front ≠ [])
    (hnames : ∀ name ∈ front, validName name = true) : WellFormed (joined front) front :=
  ⟨hfront, hnames, rfl⟩

/-- Every route builds the objects and asks the storage for the path then. -/
theorem takeRoute_builds (h : i.Coherent) (hfront : front ≠ [])
    (hnames : ∀ name ∈ front, validName name = true) (hlast : validName last = true)
    (hroom : i.missing [] front ≤ i.objects.freeSlots) :
    ∃ object i', i.Builds [] front object i' ∧ ∀ route,
      i.takeRoute front last route = i'.getStorageEntry (joined (front ++ [last])) := by
  have hwell := wellFormed_joined hfront hnames
  obtain ⟨object, i', hcreate, hbuilds⟩ := getOrCreateObject_builds h hwell hroom
  obtain ⟨rest, hslash, hrest⟩ := hwell.names_eq
  obtain ⟨data, hdata, hpath⟩ := hbuilds.live
  have hentry : i'.getEntryIn object last = i'.getStorageEntry (joined (front ++ [last])) := by
    rw [getEntryIn, if_pos hlast, hdata, joined_concat]
    dsimp only
    rw [hpath, List.nil_append]
  refine ⟨object, i', hbuilds, ?_⟩
  rintro (_ | _ | _)
  · show i.getEntry (joined (front ++ [last])) = _
    have hparent : parentPath (joined (front ++ [last])) = some (joined front) := by
      rw [joined_concat]
      exact parentPath_append (validName_iff.mp hlast).2 (joined front)
    rw [getEntry, hparent]
    dsimp only
    rw [hcreate]
  · have hobject : i.enter front .object = (i', .ok object) := by
      show (if front = [] then _ else i.getObject (joined front)) = _
      rw [if_neg hfront, getObject, if_neg (by rw [hslash]; exact List.cons_ne_nil _ _), hcreate]
    rw [takeRoute, hobject]
    · exact hentry
    · simp
  · have hchildren : i.enter front .children = (i', .ok object) := by
      show getChildren front i.root i = _
      rw [getChildren_eq (joined front) hfront hnames, ← hcreate, hslash, getOrCreateObject, hrest]
    rw [takeRoute, hchildren]
    · exact hentry
    · simp

/-- The objects along the names are there, and so is the entry. -/
structure Arrived (i : Instance) (front : List Text) (last : Text) (entry : Handle) : Prop where
  tree : i.Coherent
  storage : i.storage.Coherent
  present : i.missing [] front = 0
  found : i.storage.paths.find? (joined (front ++ [last])) = some entry

theorem Arrived.hasRoomFor (h : i.Arrived front last entry) : i.HasRoomFor front last :=
  ⟨h.present ▸ Nat.zero_le _, .inl (by rw [h.found]; simp)⟩

theorem Arrived.getPathForEntry (h : i.Arrived front last entry) :
    i.getPathForEntry entry = .ok (joined (front ++ [last])) := by
  obtain ⟨data, hdata, hpath⟩ := h.storage.entry_of_path h.found
  rw [Instance.getPathForEntry, hdata]
  exact congrArg Except.ok hpath

/-- With room for it, every route arrives at the same entry, the one of the path if there is
one already. -/
theorem takeRoute_arrives (h : i.Coherent) (hs : i.storage.Coherent) (hfront : front ≠ [])
    (hnames : ∀ name ∈ front, validName name = true) (hlast : validName last = true)
    (hroom : i.HasRoomFor front last) :
    ∃ entry, (∀ found, i.storage.paths.find? (joined (front ++ [last])) = some found →
        found = entry) ∧
      ∀ route, (i.takeRoute front last route).2 = .ok entry ∧
        (i.takeRoute front last route).1.Arrived front last entry := by
  obtain ⟨object, i', hbuilds, hroute⟩ := takeRoute_builds h hfront hnames hlast hroom.1
  obtain ⟨entry, storage, hfind, hfound⟩ := hs.findOrCreate_found hroom.2
  have hget : i'.getStorageEntry (joined (front ++ [last])) =
      ({ i' with storage }, .ok entry) := by
    rw [getStorageEntry, hbuilds.storage, Storage.getOrCreateEntry_eq_findOrCreate hs, hfind]
    rfl
  refine ⟨entry, ?_, fun route => ?_⟩
  · intro found hthere
    rw [Storage.findOrCreate, hthere] at hfind
    exact Except.ok.inj (Prod.mk.inj hfind).2
  · rw [hroute, hget]
    have hsame : missing { i' with storage } [] front = i'.missing [] front := by
      refine missing_congr ?_ front
      exact fun _ _ => rfl
    exact ⟨rfl, hbuilds.coherent.withStorage storage, hfound.coherent,
      hsame.trans hbuilds.present, hfound.find⟩

theorem arrived_takeRoute (h : i.Arrived front last entry) (hfront : front ≠ [])
    (hnames : ∀ name ∈ front, validName name = true) (hlast : validName last = true)
    (route : Route) :
    (i.takeRoute front last route).2 = .ok entry ∧
      (i.takeRoute front last route).1.Arrived front last entry := by
  obtain ⟨entry', hsame, harrives⟩ := takeRoute_arrives h.tree h.storage hfront hnames hlast
    h.hasRoomFor
  obtain rfl := hsame entry h.found
  exact harrives route

/-- After any calls that delete no object, and with free slots, all routes to an entry
agree exactly if the entry is not directly below the root. -/
theorem routesAgree_iff (uses : List Use) (front : List Text) (last : Text)
    (hnames : ∀ name ∈ front ++ [last], validName name = true)
    (hroom : (uses.foldl use new).HasRoomFor front last) :
    (uses.foldl use new).RoutesAgree front last ↔ front ≠ [] := by
  have h := kept_uses uses
  generalize uses.foldl use new = i at h hroom
  constructor
  · rintro ⟨entry, hagree⟩ rfl
    obtain ⟨hthrown, -⟩ := hagree [] .path
    have hlast := (validName_iff.mp (hnames last (by simp))).2
    have hparent : parentPath (joined ([] ++ [last])) = some [] := by
      rw [joined_concat]
      exact parentPath_append hlast []
    rw [List.foldl_nil, takeRoute, getEntry, hparent] at hthrown
    cases hthrown
  · intro hfront
    have hvalid : ∀ name ∈ front, validName name = true := fun name hname =>
      hnames name (List.mem_append_left _ hname)
    have hlast := hnames last (by simp)
    obtain ⟨entry, -, hfirst⟩ := takeRoute_arrives h.tree h.storage hfront hvalid hlast hroom
    refine ⟨entry, fun before route => ?_⟩
    have hafter : ∀ route, ((before.foldl (fun i route => (i.takeRoute front last route).1)
          i).takeRoute front last route).2 = .ok entry ∧
        ((before.foldl (fun i route => (i.takeRoute front last route).1) i).takeRoute front last
          route).1.Arrived front last entry := by
      cases before with
      | nil => exact hfirst
      | cons first rest =>
          have hstep : ∀ (i : Instance) (route : Route), i.Arrived front last entry →
              (i.takeRoute front last route).1.Arrived front last entry := fun i route hi =>
            (arrived_takeRoute hi hfront hvalid hlast route).2
          have harrived := foldl_of_invariant hstep (hfirst first).2 rest
          exact arrived_takeRoute harrived hfront hvalid hlast
    obtain ⟨hresult, harrived⟩ := hafter route
    exact ⟨hresult, harrived.getPathForEntry⟩

/-- The routes to `/a/b` on a new instance. -/
theorem routesAgree_below :
    (([] : List Use).foldl use new).RoutesAgree [[97]] [98] ↔ ([[97]] : List Text) ≠ [] :=
  routesAgree_iff [] [[97]] [98] (by decide) (by decide +kernel)

/-- The routes to `/a` on a new instance. -/
theorem not_routesAgree_top :
    (∀ name ∈ [] ++ [[97]], validName name = true) ∧
      (([] : List Use).foldl use new).HasRoomFor [] [97] ∧
      ¬ (([] : List Use).foldl use new).RoutesAgree [] [97] := by
  refine ⟨by decide, by decide +kernel, ?_⟩
  rintro ⟨entry, hagree⟩
  obtain ⟨hthrown, -⟩ := hagree [] .path
  cases hthrown

end Instance

end Obsr
