/-
# The tree of objects

The objects of an instance and the index of their paths describe the same tree as long as
objects are only created. A deletion frees the handle of an object and leaves its path in
the index; the path then leads to a handle of nobody, or of whichever object gets the
handle next.
-/

import Obsr.Instance.Instance
import Obsr.Lib.Run

namespace Obsr

open Obsr.Lib

namespace Instance

variable {i i' : Instance} {path : Text} {parent object : Handle} {above : ObjectData}

/-! ## Names and paths -/

/-- The path along these names. -/
def joined (along : List Text) : Text := along.flatMap (slash :: ·)

theorem names_ne_nil (rest : Text) : names rest ≠ [] := by
  cases rest with
  | nil => exact List.cons_ne_nil _ _
  | cons byte rest =>
      rw [names]
      split_ifs
      · exact List.cons_ne_nil _ _
      · cases names rest <;> exact List.cons_ne_nil _ _

/-- The names and the slashes in front of them are the path again. -/
theorem joined_names (rest : Text) : joined (names rest) = slash :: rest := by
  induction rest with
  | nil => rfl
  | cons byte rest ih =>
      rw [names]
      by_cases hslash : byte = slash
      · rw [if_pos hslash, joined, List.flatMap_cons]
        show slash :: joined (names rest) = _
        rw [ih, hslash]
      · rw [if_neg hslash]
        cases hnames : names rest with
        | nil => exact absurd hnames (names_ne_nil rest)
        | cons name others =>
            rw [hnames, joined, List.flatMap_cons] at ih
            simpa [joined, List.flatMap_cons] using ih

/-- A path as the documentation writes it: that of the root, or one that starts with a
slash and does not end with one. -/
def Absolute (path : Text) : Prop :=
  path = [] ∨ path.head? = some slash ∧ path.getLast? ≠ some slash

instance (path : Text) : Decidable (Absolute path) := inferInstanceAs (Decidable (_ ∨ _))

/-- The last name of such a path is one. -/
theorem getLast_names_ne_nil {rest : Text} (h : (slash :: rest).getLast? ≠ some slash) :
    (names rest).getLast? ≠ some [] := by
  intro hlast
  obtain ⟨before, hbefore⟩ := List.getLast?_eq_some_iff.mp hlast
  have hjoined := joined_names rest
  rw [hbefore, joined, List.flatMap_append] at hjoined
  rw [← hjoined] at h
  exact h (by simp)

/-! ## Coherence -/

/-- The index has the paths of the live objects, and the root is the object of the empty
path, which has no place in the index. -/
structure Coherent (i : Instance) : Prop where
  root : ∃ data, i.objects.get? i.root = some data ∧ data.path = []
  paths : ∀ path object, i.objectPaths.find? path = some object ↔
    object ≠ i.root ∧ ∃ data, i.objects.get? object = some data ∧ data.path = path
  one : ∀ path path' object, i.objectPaths.find? path = some object →
    i.objectPaths.find? path' = some object → path = path'

/-- One path maps to an object because it is that of the object. -/
theorem coherent_of_paths (hroot : ∃ data, i.objects.get? i.root = some data ∧ data.path = [])
    (hpaths : ∀ path object, i.objectPaths.find? path = some object ↔
      object ≠ i.root ∧ ∃ data, i.objects.get? object = some data ∧ data.path = path) :
    i.Coherent := by
  refine ⟨hroot, hpaths, ?_⟩
  intro path path' object hpath hpath'
  obtain ⟨-, data, hdata, rfl⟩ := (hpaths path object).mp hpath
  obtain ⟨-, data', hdata', rfl⟩ := (hpaths path' object).mp hpath'
  rw [Option.some.inj (hdata.symm.trans hdata')]

theorem coherent_new : new.Coherent := by
  have hroot : new.objects.get? new.root = some ⟨[], []⟩ := rfl
  refine coherent_of_paths ⟨_, hroot, rfl⟩ ?_
  intro path object
  refine iff_of_false (by simp [new]) ?_
  rintro ⟨hne, data, hdata, -⟩
  have hnone : new.objects.get? object = none := by
    unfold HandleTable.get? new
    split_ifs with hempty hlt
    · rfl
    · have hslot : (⟨object, by assumption⟩ : Fin 256) ≠ 0 := fun heq =>
        hne (show object = 0 from congrArg Fin.val heq)
      show Function.update (fun _ : Fin 256 => (none : Option ObjectData)) 0 _ _ = none
      rw [Function.update_of_ne hslot]
    · rfl
  rw [hnone] at hdata
  cases hdata

/-- The instance has got the object of a path, and lost none. -/
structure Reaches (i : Instance) (path : Text) (object : Handle) (i' : Instance) : Prop where
  coherent : i'.Coherent
  root : i'.root = i.root
  keeps : ∀ {other data}, i.objects.get? other = some data → i'.objects.get? other = some data
  live : ∃ data, i'.objects.get? object = some data ∧ data.path = path

theorem Reaches.trans {path' : Text} {object' : Handle} {i'' : Instance}
    (h : i.Reaches path object i') (h' : i'.Reaches path' object' i'') :
    i.Reaches path' object' i'' where
  coherent := h'.coherent
  root := h'.root.trans h.root
  keeps hdata := h'.keeps (h.keeps hdata)
  live := h'.live

/-- A new object of a path that has none. -/
theorem reaches_of_allocateNew (h : i.Coherent) {name : Text} (hname : path ≠ [])
    (habsent : i.objectPaths.find? path = none) {objects : HandleTable ObjectData 256}
    (hallocate : i.objects.allocateNew ⟨name, path⟩ = .ok (object, objects)) :
    i.Reaches path object
      { i with objects, objectPaths := i.objectPaths.emplace path object } := by
  obtain ⟨hfree, hobjects⟩ :=
    HandleTable.allocateNewWithHandle_eq_ok (by decide) hallocate
  obtain ⟨rootData, hrootData, hrootPath⟩ := h.root
  have hkeeps : ∀ {other data}, i.objects.get? other = some data →
      objects.get? other = some data := by
    intro other data hdata
    have hne : other ≠ object := by
      rintro rfl
      rw [hfree] at hdata
      cases hdata
    rw [hobjects, if_neg hne, hdata]
  have hnew : objects.get? object = some ⟨name, path⟩ := by rw [hobjects, if_pos rfl]
  have hnotRoot : object ≠ i.root := by
    rintro rfl
    rw [hfree] at hrootData
    cases hrootData
  refine ⟨coherent_of_paths ⟨rootData, hkeeps hrootData, hrootPath⟩ ?_, rfl, hkeeps,
    ⟨_, hnew, rfl⟩⟩
  intro other handle
  show (i.objectPaths.emplace path object).find? other = some handle ↔
    handle ≠ i.root ∧ ∃ data, objects.get? handle = some data ∧ data.path = other
  by_cases hother : other = path
  · subst hother
    rw [OrderedMap.find?_emplace_self, habsent, Option.getD_none, Option.some.injEq]
    constructor
    · rintro rfl
      exact ⟨hnotRoot, _, hnew, rfl⟩
    · rintro ⟨hne, data, hdata, hpath⟩
      by_contra hdifferent
      rw [hobjects, if_neg (Ne.symm hdifferent)] at hdata
      have hfound := (h.paths other handle).mpr ⟨hne, data, hdata, hpath⟩
      rw [habsent] at hfound
      cases hfound
  · rw [OrderedMap.find?_emplace_of_ne _ _ hother, h.paths other handle]
    refine and_congr_right fun hne => ?_
    by_cases hhandle : handle = object
    · subst hhandle
      refine iff_of_false ?_ ?_
      · rintro ⟨data, hdata, -⟩
        rw [hfree] at hdata
        cases hdata
      · rintro ⟨data, hdata, hpath⟩
        obtain rfl := Option.some.inj (hnew.symm.trans hdata)
        exact hother hpath.symm
    · rw [hobjects, if_neg hhandle]

/-- The spec of `get_or_create_child`: the child, or no space for it. -/
theorem getOrCreateChild_cases (h : i.Coherent) (hparent : i.objects.get? parent = some above)
    (name : Text) :
    (∃ object i', i.getOrCreateChild parent name = (i', .ok object) ∧
        i.Reaches (above.path ++ slash :: name) object i') ∨
      ¬ i.objects.HasSpace ∧
        i.getOrCreateChild parent name = (i, .error (.thrown .noSpace)) := by
  rw [getOrCreateChild, hparent]
  dsimp only
  cases hpath : i.objectPaths.find? (above.path ++ slash :: name) with
  | some object =>
      obtain ⟨-, hlive⟩ := (h.paths _ object).mp hpath
      exact .inl ⟨object, i, rfl, h, rfl, fun hdata => hdata, hlive⟩
  | none =>
      dsimp only
      cases hallocate : i.objects.allocateNew ⟨name, above.path ++ slash :: name⟩ with
      | error exception =>
          obtain ⟨rfl, hfull⟩ := HandleTable.allocateNewWithHandle_eq_error.mp hallocate
          exact .inr ⟨hfull, rfl⟩
      | ok created =>
          refine .inl ⟨created.1, _, rfl, ?_⟩
          exact reaches_of_allocateNew h (by simp) hpath hallocate

/-- A name that is not the last one makes a child, below which the loop goes on. -/
theorem getOrCreateNames_cons (full name : Text) {others : List Text} (hothers : others ≠ [])
    (current : Handle) (i : Instance) :
    Instance.getOrCreateNames full (name :: others) current i =
      match i.getOrCreateChild current name with
      | (i, .ok current) => Instance.getOrCreateNames full others current i
      | (i, .error exception) => (i, .error exception) := by
  cases others with
  | nil => exact absurd rfl hothers
  | cons next rest => rfl

/-- The loop over the names keeps the tree, wherever it stops. -/
theorem Coherent.getOrCreateNames (h : i.Coherent) {current : Handle}
    (hcurrent : i.objects.get? current = some above) (full : Text) (along : List Text) :
    (Instance.getOrCreateNames full along current i).1.Coherent ∧
      (Instance.getOrCreateNames full along current i).1.root = i.root := by
  induction along generalizing i current above with
  | nil => exact ⟨h, rfl⟩
  | cons name others ih =>
      have hchild := getOrCreateChild_cases h hcurrent name
      cases others with
      | nil =>
          rw [Instance.getOrCreateNames]
          split_ifs
          · exact ⟨h, rfl⟩
          · exact ⟨h, rfl⟩
          · rcases hchild with ⟨object, i', heq, hreaches⟩ | ⟨-, heq⟩
            · rw [heq]
              exact ⟨hreaches.coherent, hreaches.root⟩
            · rw [heq]
              exact ⟨h, rfl⟩
      | cons next others =>
          rw [getOrCreateNames_cons full name (List.cons_ne_nil _ _)]
          rcases hchild with ⟨object, i', heq, hreaches⟩ | ⟨-, heq⟩
          · rw [heq]
            obtain ⟨data, hdata, -⟩ := hreaches.live
            obtain ⟨hcoherent, hroot⟩ := ih hreaches.coherent hdata
            exact ⟨hcoherent, hroot.trans hreaches.root⟩
          · rw [heq]
            exact ⟨h, rfl⟩

/-- With a last name, it arrives at the object of these names, unless there is no space. -/
theorem getOrCreateNames_cases (h : i.Coherent) {current : Handle}
    (hcurrent : i.objects.get? current = some above) (full : Text) {along : List Text}
    (hnames : along ≠ []) (hlast : along.getLast? ≠ some []) :
    (∃ object i', Instance.getOrCreateNames full along current i = (i', .ok object) ∧
        i.Reaches (above.path ++ joined along) object i') ∨
      ∃ i', Instance.getOrCreateNames full along current i =
        (i', .error (.thrown .noSpace)) := by
  induction along generalizing i current above with
  | nil => exact absurd rfl hnames
  | cons name others ih =>
      have hchild := getOrCreateChild_cases h hcurrent name
      cases others with
      | nil =>
          have hname : name ≠ [] := by
            rintro rfl
            exact hlast rfl
          rw [Instance.getOrCreateNames, if_neg hname, joined, List.flatMap_singleton]
          rcases hchild with hreached | ⟨-, heq⟩
          · exact .inl hreached
          · exact .inr ⟨i, heq⟩
      | cons next others =>
          rw [getOrCreateNames_cons full name (List.cons_ne_nil _ _)]
          rcases hchild with ⟨object, i', heq, hreaches⟩ | ⟨-, heq⟩
          · rw [heq]
            obtain ⟨data, hdata, hpath⟩ := hreaches.live
            have hrest := ih hreaches.coherent hdata (List.cons_ne_nil _ _)
              (by rwa [List.getLast?_cons_cons] at hlast)
            rw [hpath, List.append_assoc] at hrest
            rcases hrest with ⟨object', i'', heq', hreaches'⟩ | hfull
            · exact .inl ⟨object', i'', heq', hreaches.trans hreaches'⟩
            · exact .inr hfull
          · rw [heq]
            exact .inr ⟨i, rfl⟩

/-! ## Calls -/

theorem Coherent.getOrCreateObject (h : i.Coherent) (path : Text) :
    (i.getOrCreateObject path).1.Coherent := by
  obtain ⟨data, hdata, -⟩ := h.root
  cases path with
  | nil => exact h
  | cons byte rest => exact (h.getOrCreateNames hdata (byte :: rest) (names rest)).1

theorem Coherent.getObject (h : i.Coherent) (path : Text) : (i.getObject path).1.Coherent := by
  rw [Instance.getObject]
  split_ifs
  · exact h
  · exact h.getOrCreateObject path

theorem Coherent.getChild (h : i.Coherent) (parent : Handle) (name : Text) :
    (i.getChild parent name).1.Coherent := by
  rw [Instance.getChild]
  split_ifs
  · cases hparent : i.objects.get? parent with
    | none =>
        rw [getOrCreateChild, hparent]
        exact h
    | some above =>
        rcases getOrCreateChild_cases h hparent name with ⟨object, i', heq, hreaches⟩ | ⟨-, heq⟩
        · rw [heq]
          exact hreaches.coherent
        · rw [heq]
          exact h
  · exact h

/-- The storage is not part of the tree. -/
theorem Coherent.withStorage (h : i.Coherent) (storage : Storage) :
    Coherent { i with storage } := ⟨h.root, h.paths, h.one⟩

theorem Coherent.getEntry (h : i.Coherent) (path : Text) : (i.getEntry path).1.Coherent := by
  rw [Instance.getEntry]
  cases parentPath path with
  | none => exact h
  | some parent =>
      have hparent := h.getOrCreateObject parent
      dsimp only
      rcases hcreate : i.getOrCreateObject parent with ⟨i', result⟩
      rw [hcreate] at hparent
      cases result with
      | ok object => exact hparent.withStorage _
      | error exception => exact hparent

theorem Coherent.getEntryIn (h : i.Coherent) (object : Handle) (name : Text) :
    (i.getEntryIn object name).1.Coherent := by
  rw [Instance.getEntryIn]
  split_ifs
  · cases i.objects.get? object with
    | none => exact h
    | some data => exact h.withStorage _
  · exact h

/-- The call deletes an object: one that is there and not the root. -/
def Deletes (i : Instance) : Call → Prop
  | .deleteObject _ object => object ≠ i.root ∧ i.objects.has object = true
  | _ => False

instance (i : Instance) : DecidablePred i.Deletes := fun call => by
  cases call <;> unfold Deletes <;> infer_instance

theorem Coherent.call (h : i.Coherent) {call : Call} (hkeeps : ¬ i.Deletes call) :
    (i.call call).Coherent := by
  cases call with
  | getObject path => exact h.getObject path
  | getChild object name => exact h.getChild object name
  | getEntry path => exact h.getEntry path
  | getEntryIn object name => exact h.getEntryIn object name
  | setValue now entry value => exact h.withStorage _
  | deleteObject now object =>
      show (i.deleteObject now object).1.Coherent
      rw [deleteObject]
      split_ifs with hroot
      · exact h
      · cases hdata : i.objects.get? object with
        | none => exact h
        | some data =>
            refine absurd ⟨hroot, ?_⟩ hkeeps
            rw [HandleTable.has, hdata]
            rfl

/-- The path of a deleted object leads to a handle of nobody. -/
theorem not_coherent_of_deletes (h : i.Coherent) {call : Call} (hdeletes : i.Deletes call) :
    ¬ (i.call call).Coherent := by
  cases call with
  | deleteObject now object =>
      obtain ⟨hroot, hhas⟩ := hdeletes
      obtain ⟨data, hdata⟩ := Option.isSome_iff_exists.mp hhas
      have hindexed := (h.paths data.path object).mpr ⟨hroot, data, hdata, rfl⟩
      have hafter : i.call (.deleteObject now object) =
          { i with
            storage := i.storage.deleteEntries now data.path
            objects := i.objects.release object } := by
        show (i.deleteObject now object).1 = _
        rw [deleteObject, if_neg hroot, hdata]
      rw [hafter]
      intro hcoherent
      obtain ⟨-, left, hleft, -⟩ := (hcoherent.paths data.path object).mp hindexed
      rw [HandleTable.get?_release, if_pos rfl] at hleft
      cases hleft
  | _ => exact absurd hdeletes id

/-! ## Lookups -/

/-- The lookups of a state return the object of the path they are asked for, unless there
is no space for it. -/
structure ReturnsRequested (i : Instance) : Prop where
  object : ∀ path, Absolute path →
    (∃ object i', i.getObject path = (i', .ok object) ∧
        ∃ data, i'.objects.get? object = some data ∧ data.path = path) ∨
      ∃ i', i.getObject path = (i', .error (.thrown .noSpace))
  child : ∀ parent above name, i.objects.get? parent = some above → validName name = true →
    (∃ object i', i.getChild parent name = (i', .ok object) ∧
        ∃ data, i'.objects.get? object = some data ∧
          data.path = above.path ++ slash :: name) ∨
      i.getChild parent name = (i, .error (.thrown .noSpace))

theorem Coherent.returnsRequested (h : i.Coherent) : i.ReturnsRequested where
  object path habsolute := by
    obtain ⟨rootData, hroot, hrootPath⟩ := h.root
    cases path with
    | nil => exact .inl ⟨i.root, i, rfl, rootData, hroot, hrootPath⟩
    | cons byte rest =>
        obtain habsurd | ⟨hfirst, hlast⟩ := habsolute
        · cases habsurd
        · obtain rfl : byte = slash := Option.some.inj hfirst
          have hcases := getOrCreateNames_cases h hroot (slash :: rest) (names_ne_nil rest)
            (getLast_names_ne_nil hlast)
          rw [hrootPath, List.nil_append, joined_names] at hcases
          rw [Instance.getObject, if_neg (List.cons_ne_nil _ _)]
          rcases hcases with ⟨object, i', heq, hreaches⟩ | hfull
          · exact .inl ⟨object, i', heq, hreaches.live⟩
          · exact .inr hfull
  child parent above name hparent hname := by
    rw [Instance.getChild, if_pos hname]
    rcases getOrCreateChild_cases h hparent name with ⟨object, i', heq, hreaches⟩ | ⟨-, heq⟩
    · exact .inl ⟨object, i', heq, hreaches.live⟩
    · exact .inr heq

/-- The tree is coherent, and the lookups rely on it. -/
structure TreeStays (i : Instance) : Prop where
  coherent : i.Coherent
  returns : i.ReturnsRequested

end Instance

end Obsr
