/-
# Walks down the tree

The lookups go down from the root, one name at a time, and make the objects that are
missing. With a free slot for each of these a walk arrives, and it has made nothing else.
The parser, the last slash and `get_child` lead along the same walk.
-/

import Obsr.Instance.Paths
import Obsr.Storage.Handles

namespace Obsr

open Obsr.Lib

namespace Instance

variable {i i' i'' : Instance} {parent current object object' : Handle} {data : ObjectData}
  {above name path : Text} {along others : List Text}

/-! ## A step down -/

/-- A new object below one that is there, with a name that no object there has. -/
structure Makes (i : Instance) (above name : Text) (object : Handle) (i' : Instance) :
    Prop where
  parent : ∃ parent data, i.objects.get? parent = some data ∧ data.path = above
  absent : i.objectPaths.find? (above ++ slash :: name) = none
  allocated : ∃ objects,
    i.objects.allocateNew ⟨name, above ++ slash :: name⟩ = .ok (object, objects) ∧
      i' = { i with
        objects
        objectPaths := i.objectPaths.emplace (above ++ slash :: name) object }

namespace Makes

theorem free (h : i.Makes above name object i') : i.objects.get? object = none := by
  obtain ⟨objects, hallocate, -⟩ := h.allocated
  exact (HandleTable.allocateNewWithHandle_eq_ok (by decide) hallocate).1

theorem get? (h : i.Makes above name object i') (other : Handle) :
    i'.objects.get? other =
      if other = object then some ⟨name, above ++ slash :: name⟩ else i.objects.get? other := by
  obtain ⟨objects, hallocate, rfl⟩ := h.allocated
  exact (HandleTable.allocateNewWithHandle_eq_ok (by decide) hallocate).2 other

theorem freeSlots (h : i.Makes above name object i') :
    i.objects.freeSlots = i'.objects.freeSlots + 1 := by
  obtain ⟨objects, hallocate, rfl⟩ := h.allocated
  exact HandleTable.freeSlots_of_allocateNewWithHandle hallocate

theorem storage (h : i.Makes above name object i') : i'.storage = i.storage := by
  obtain ⟨objects, -, rfl⟩ := h.allocated
  rfl

theorem root (h : i.Makes above name object i') : i'.root = i.root := by
  obtain ⟨objects, -, rfl⟩ := h.allocated
  rfl

theorem find?_self (h : i.Makes above name object i') :
    i'.objectPaths.find? (above ++ slash :: name) = some object := by
  obtain ⟨objects, -, rfl⟩ := h.allocated
  show (i.objectPaths.emplace _ object).find? _ = _
  rw [OrderedMap.find?_emplace_self, h.absent]
  rfl

theorem find?_of_ne (h : i.Makes above name object i') (hne : path ≠ above ++ slash :: name) :
    i'.objectPaths.find? path = i.objectPaths.find? path := by
  obtain ⟨objects, -, rfl⟩ := h.allocated
  exact OrderedMap.find?_emplace_of_ne _ _ hne

theorem reaches (h : i.Makes above name object i') (hi : i.Coherent) :
    i.Reaches (above ++ slash :: name) object i' := by
  obtain ⟨objects, hallocate, rfl⟩ := h.allocated
  exact reaches_of_allocateNew hi (by simp) h.absent hallocate

end Makes

/-- The child is found, or made, or there is no space for it. -/
theorem getOrCreateChild_steps (hparent : i.objects.get? parent = some data) (name : Text) :
    (∃ object, i.objectPaths.find? (data.path ++ slash :: name) = some object ∧
        i.getOrCreateChild parent name = (i, .ok object)) ∨
      (∃ object i', i.Makes data.path name object i' ∧
        i.getOrCreateChild parent name = (i', .ok object)) ∨
      (i.objectPaths.find? (data.path ++ slash :: name) = none ∧ i.objects.freeSlots = 0 ∧
        i.getOrCreateChild parent name = (i, .error (.thrown .noSpace))) := by
  rw [getOrCreateChild, hparent]
  dsimp only
  cases hpath : i.objectPaths.find? (data.path ++ slash :: name) with
  | some object => exact .inl ⟨object, rfl, rfl⟩
  | none =>
      cases hallocate : i.objects.allocateNew ⟨name, data.path ++ slash :: name⟩ with
      | error exception =>
          obtain ⟨rfl, hfull⟩ := HandleTable.allocateNewWithHandle_eq_error.mp hallocate
          rw [HandleTable.hasSpace_iff_freeSlots, Nat.pos_iff_ne_zero, not_not] at hfull
          exact .inr (.inr ⟨rfl, hfull, rfl⟩)
      | ok allocated =>
          exact .inr (.inl ⟨allocated.1, _,
            ⟨⟨parent, data, hparent, rfl⟩, hpath, allocated.2, hallocate, rfl⟩, rfl⟩)

/-! ## What every step keeps -/

/-- A property that survives the making of an object with a name. -/
def KeptByMakes (I : Instance → Prop) : Prop :=
  ∀ ⦃i above name object i'⦄, slash ∉ name → i.Makes above name object i' → I i → I i'

variable {I : Instance → Prop}

theorem getOrCreateChild_of_invariant (hI : KeptByMakes I) (h : I i) (parent : Handle)
    (hname : slash ∉ name) : I (i.getOrCreateChild parent name).1 := by
  cases hparent : i.objects.get? parent with
  | none =>
      rw [getOrCreateChild, hparent]
      exact h
  | some data =>
      rcases getOrCreateChild_steps hparent name with ⟨object, -, heq⟩ |
        ⟨object, i', hmakes, heq⟩ | ⟨-, -, heq⟩
      · rw [heq]
        exact h
      · rw [heq]
        exact hI hname hmakes h
      · rw [heq]
        exact h

theorem getOrCreateNames_of_invariant (hI : KeptByMakes I) (h : I i) (full : Text)
    (current : Handle) (hnames : ∀ name ∈ along, slash ∉ name) :
    I (getOrCreateNames full along current i).1 := by
  induction along generalizing i current with
  | nil => exact h
  | cons name others ih =>
      have hchild := getOrCreateChild_of_invariant hI h current (hnames name List.mem_cons_self)
      cases others with
      | nil =>
          rw [getOrCreateNames]
          split_ifs
          · exact h
          · exact h
          · exact hchild
      | cons next others =>
          rw [getOrCreateNames_cons full name (List.cons_ne_nil _ _)]
          rcases hstep : i.getOrCreateChild current name with ⟨i', result⟩
          rw [hstep] at hchild
          cases result with
          | error exception => exact hchild
          | ok object => exact ih hchild object fun n hn => hnames n (List.mem_cons_of_mem _ hn)

theorem getOrCreateObject_of_invariant (hI : KeptByMakes I) (h : I i) (path : Text) :
    I (i.getOrCreateObject path).1 := by
  cases path with
  | nil => exact h
  | cons byte rest =>
      exact getOrCreateNames_of_invariant hI h (byte :: rest) i.root
        fun name hname => not_mem_of_mem_names hname

theorem getChild_of_invariant (hI : KeptByMakes I) (h : I i) (parent : Handle) (name : Text) :
    I (i.getChild parent name).1 := by
  rw [getChild]
  split_ifs with hname
  · exact getOrCreateChild_of_invariant hI h parent (validName_iff.mp hname).2
  · exact h

/-! ## Runs that delete no object -/

/-- Every object has the name at the end of its path. -/
def Named (i : Instance) : Prop :=
  ∀ ⦃handle data⦄, i.objects.get? handle = some data → data.name = pathName data.path

theorem keptByMakes_named : KeptByMakes Named := by
  intro i above name object i' hname hmakes h other data hdata
  rw [hmakes.get?] at hdata
  split_ifs at hdata
  · obtain rfl := Option.some.inj hdata
    exact (pathName_append hname above).symm
  · exact h hdata

theorem keptByMakes_storage (storage : Storage) :
    KeptByMakes fun i => i.storage = storage := by
  intro i above name object i' hname hmakes h
  exact hmakes.storage.trans h

/-- What is called on an instance, but for `delete_object`, or done to its storage. -/
inductive Use
  | getObject (path : Text)
  | getChild (object : Handle) (name : Text)
  | getEntry (path : Text)
  | getEntryIn (object : Handle) (name : Text)
  | storage (u : Storage.Use)

def use (i : Instance) : Use → Instance
  | .getObject path => (i.getObject path).1
  | .getChild object name => (i.getChild object name).1
  | .getEntry path => (i.getEntry path).1
  | .getEntryIn object name => (i.getEntryIn object name).1
  | .storage u => { i with storage := i.storage.use u }

/-- What holds in every state of such a run. -/
structure Kept (i : Instance) : Prop where
  tree : i.Coherent
  named : i.Named
  storage : i.storage.Coherent

theorem kept_new : new.Kept where
  tree := coherent_new
  named := by
    intro handle data hdata
    obtain ⟨rootData, hroot, hpath⟩ := coherent_new.root
    by_cases hhandle : handle = new.root
    · rw [hhandle] at hdata
      obtain rfl : data = ⟨[], []⟩ := (Option.some.inj hdata).symm
      rfl
    · have hindexed := (coherent_new.paths data.path handle).mpr ⟨hhandle, data, hdata, rfl⟩
      simp [new] at hindexed
  storage := Storage.coherent_new

theorem storage_getOrCreateObject (i : Instance) (path : Text) :
    (i.getOrCreateObject path).1.storage = i.storage :=
  getOrCreateObject_of_invariant (keptByMakes_storage i.storage) rfl path

theorem Kept.withStorage (h : i.Kept) {storage : Storage} (hstorage : storage.Coherent) :
    Kept { i with storage } := ⟨h.tree.withStorage storage, h.named, hstorage⟩

theorem Kept.getStorageEntry (h : i.Kept) (path : Text) : (i.getStorageEntry path).1.Kept :=
  h.withStorage (h.storage.getOrCreateEntry path)

theorem Kept.getOrCreateObject (h : i.Kept) (path : Text) : (i.getOrCreateObject path).1.Kept where
  tree := h.tree.getOrCreateObject path
  named := getOrCreateObject_of_invariant keptByMakes_named h.named path
  storage := by
    rw [storage_getOrCreateObject]
    exact h.storage

theorem Kept.getObject (h : i.Kept) (path : Text) : (i.getObject path).1.Kept := by
  rw [Instance.getObject]
  split_ifs
  · exact h
  · exact h.getOrCreateObject path

theorem Kept.getChild (h : i.Kept) (parent : Handle) (name : Text) :
    (i.getChild parent name).1.Kept where
  tree := h.tree.getChild parent name
  named := getChild_of_invariant keptByMakes_named h.named parent name
  storage := by
    rw [getChild_of_invariant (keptByMakes_storage i.storage) rfl parent name]
    exact h.storage

theorem Kept.getEntryIn (h : i.Kept) (object : Handle) (name : Text) :
    (i.getEntryIn object name).1.Kept := by
  rw [Instance.getEntryIn]
  split_ifs
  · cases i.objects.get? object with
    | none => exact h
    | some data => exact h.getStorageEntry _
  · exact h

theorem Kept.getEntry (h : i.Kept) (path : Text) : (i.getEntry path).1.Kept := by
  rw [Instance.getEntry]
  cases parentPath path with
  | none => exact h
  | some parent =>
      have hparent := h.getOrCreateObject parent
      dsimp only
      rcases hcreate : i.getOrCreateObject parent with ⟨i', result⟩
      rw [hcreate] at hparent
      cases result with
      | ok object => exact hparent.getStorageEntry path
      | error exception => exact hparent

theorem Kept.use (h : i.Kept) (u : Use) : (i.use u).Kept := by
  cases u with
  | getObject path => exact h.getObject path
  | getChild object name => exact h.getChild object name
  | getEntry path => exact h.getEntry path
  | getEntryIn object name => exact h.getEntryIn object name
  | storage u => exact h.withStorage (h.storage.use u)

theorem kept_uses (uses : List Use) : (uses.foldl use new).Kept :=
  foldl_of_invariant (fun _ u h => h.use u) kept_new uses

/-! ## Walks -/

/-- How many of the objects along the names are missing below a path. -/
def missing (i : Instance) (above : Text) : List Text → ℕ
  | [] => 0
  | name :: others =>
      (if i.objectPaths.find? (above ++ slash :: name) = none then 1 else 0) +
        i.missing (above ++ slash :: name) others

/-- Only paths below count. -/
theorem missing_congr
    (h : ∀ path, above.length < path.length → i'.objectPaths.find? path = i.objectPaths.find? path)
    (along : List Text) : i'.missing above along = i.missing above along := by
  induction along generalizing above with
  | nil => rfl
  | cons name others ih =>
      have hlonger : above.length < (above ++ slash :: name).length := by simp
      rw [missing, missing, h _ hlonger, ih fun path hpath => h path (hlonger.trans hpath)]

theorem Makes.missing (h : i.Makes above name object i') (others : List Text) :
    i'.missing (above ++ slash :: name) others = i.missing (above ++ slash :: name) others :=
  missing_congr (fun _ hlonger => h.find?_of_ne fun heq => (heq ▸ hlonger).ne rfl) others

/-- What is in the index stays there. -/
theorem Reaches.find? (h : i.Reaches path object i') (hi : i.Coherent) {other : Text}
    {found : Handle} (hfound : i.objectPaths.find? other = some found) :
    i'.objectPaths.find? other = some found := by
  obtain ⟨hne, data, hdata, hpath⟩ := (hi.paths other found).mp hfound
  exact (h.coherent.paths other found).mpr ⟨h.root ▸ hne, data, h.keeps hdata, hpath⟩

/-- A walk along the names has arrived, and made what was missing on the way only. -/
structure Builds (i : Instance) (above : Text) (along : List Text) (object : Handle)
    (i' : Instance) : Prop extends i.Reaches (above ++ joined along) object i' where
  only : ∀ other data, i'.objects.get? other = some data → i.objects.get? other = some data ∨
    ∃ before, before ++ [data.name] <+: along ∧
      data.path = above ++ joined (before ++ [data.name]) ∧
      i.objectPaths.find? data.path = none
  present : i'.missing above along = 0
  storage : i'.storage = i.storage

theorem Builds.cons (h : i.Builds above [name] object i') (hi : i.Coherent)
    (h' : i'.Builds (above ++ slash :: name) others object' i'') :
    i.Builds above (name :: others) object' i'' where
  toReaches := by
    have hpath : above ++ joined (name :: others) = above ++ slash :: name ++ joined others := by
      rw [joined_cons, List.append_assoc, List.cons_append]
    rw [hpath]
    exact h.toReaches.trans h'.toReaches
  only := by
    intro other data hdata
    rcases h'.only other data hdata with hold | ⟨before, hbefore, hpath, habsent⟩
    · rcases h.only other data hold with hfirst | ⟨before, hbefore, hpath, habsent⟩
      · exact .inl hfirst
      · refine .inr ⟨before, hbefore.trans ?_, hpath, habsent⟩
        exact List.cons_prefix_cons.mpr ⟨rfl, List.nil_prefix⟩
    · refine .inr ⟨name :: before, List.cons_prefix_cons.mpr ⟨rfl, hbefore⟩, ?_, ?_⟩
      · rw [hpath, List.cons_append, joined_cons, List.append_assoc, List.cons_append]
      · by_contra hthere
        obtain ⟨found, hfound⟩ := Option.ne_none_iff_exists'.mp hthere
        rw [h.toReaches.find? hi hfound] at habsent
        cases habsent
  present := by
    have hfirst : i'.objectPaths.find? (above ++ slash :: name) ≠ none := by
      have hpresent := h.present
      rw [Instance.missing] at hpresent
      intro habsent
      rw [if_pos habsent] at hpresent
      omega
    obtain ⟨found, hfound⟩ := Option.ne_none_iff_exists'.mp hfirst
    rw [Instance.missing, h'.toReaches.find? h.coherent hfound, h'.present]
    rfl
  storage := h'.storage.trans h.storage

/-- A step of a walk for which there is room, which leaves room for the rest. -/
theorem getOrCreateChild_builds (h : i.Coherent) (hparent : i.objects.get? parent = some data)
    (hroom : i.missing data.path (name :: others) ≤ i.objects.freeSlots) :
    ∃ object i', i.getOrCreateChild parent name = (i', .ok object) ∧
      i.Builds data.path [name] object i' ∧
      i'.missing (data.path ++ slash :: name) others ≤ i'.objects.freeSlots := by
  have hsingle : joined [name] = slash :: name := by rw [joined_cons, joined_nil, List.append_nil]
  rw [missing] at hroom
  rcases getOrCreateChild_steps hparent name with ⟨object, hfound, heq⟩ |
    ⟨object, i', hmakes, heq⟩ | ⟨habsent, hfull, -⟩
  · rw [hfound] at hroom
    obtain ⟨-, hlive⟩ := (h.paths _ object).mp hfound
    refine ⟨object, i, heq, ⟨⟨h, rfl, fun hdata => hdata, ?_⟩, ?_, ?_, rfl⟩, by simpa using hroom⟩
    · rw [hsingle]
      exact hlive
    · exact fun other data hdata => .inl hdata
    · rw [missing, hfound]
      rfl
  · rw [if_pos hmakes.absent, hmakes.freeSlots, ← hmakes.missing] at hroom
    refine ⟨object, i', heq, ⟨?_, ?_, ?_, hmakes.storage⟩, by omega⟩
    · rw [hsingle]
      exact hmakes.reaches h
    · intro other new hnew
      rw [hmakes.get?] at hnew
      split_ifs at hnew
      · obtain rfl := Option.some.inj hnew
        refine .inr ⟨[], List.prefix_rfl, ?_, hmakes.absent⟩
        rw [List.nil_append, hsingle]
      · exact .inl hnew
    · rw [missing, hmakes.find?_self]
      rfl
  · rw [if_pos habsent, hfull] at hroom
    omega

/-- With a last name and a free slot for every missing object, the loop over the names
arrives. -/
theorem getOrCreateNames_builds (h : i.Coherent) (hcurrent : i.objects.get? current = some data)
    (full : Text) (hnames : along ≠ []) (hlast : along.getLast? ≠ some [])
    (hroom : i.missing data.path along ≤ i.objects.freeSlots) :
    ∃ object i', getOrCreateNames full along current i = (i', .ok object) ∧
      i.Builds data.path along object i' := by
  induction along generalizing i current data with
  | nil => exact absurd rfl hnames
  | cons name others ih =>
      obtain ⟨object, i', heq, hbuilds, hrest⟩ := getOrCreateChild_builds h hcurrent hroom
      cases others with
      | nil =>
          have hname : name ≠ [] := by
            rintro rfl
            exact hlast rfl
          rw [getOrCreateNames, if_neg hname]
          exact ⟨object, i', heq, hbuilds⟩
      | cons next others =>
          obtain ⟨below, hbelow, hpath⟩ := hbuilds.live
          have hbelowPath : below.path = data.path ++ slash :: name := by
            rw [hpath, joined_cons, joined_nil, List.append_nil]
          rw [← hbelowPath] at hrest
          obtain ⟨object', i'', heq', hbuilds'⟩ := ih hbuilds.coherent hbelow
            (List.cons_ne_nil _ _) (by rwa [List.getLast?_cons_cons] at hlast) hrest
          rw [hbelowPath] at hbuilds'
          refine ⟨object', i'', ?_, hbuilds.cons h hbuilds'⟩
          rw [getOrCreateNames_cons full name (List.cons_ne_nil _ _), heq]
          exact heq'

/-- Along objects that are there, a walk changes nothing. -/
theorem getOrCreateNames_of_present (h : i.Coherent)
    (hcurrent : i.objects.get? current = some data) (full : Text) {front : List Text}
    (hpresent : i.missing data.path front = 0) {back : List Text} (hback : back ≠ []) :
    ∃ object below, i.objects.get? object = some below ∧
      below.path = data.path ++ joined front ∧
      getOrCreateNames full (front ++ back) current i = getOrCreateNames full back object i := by
  induction front generalizing current data with
  | nil => exact ⟨current, data, hcurrent, (List.append_nil _).symm, rfl⟩
  | cons name others ih =>
      rw [missing, Nat.add_eq_zero_iff] at hpresent
      rcases getOrCreateChild_steps hcurrent name with ⟨object, hfound, heq⟩ |
        ⟨object, i', hmakes, -⟩ | ⟨habsent, -⟩
      · obtain ⟨-, child, hchild, hchildPath⟩ := (h.paths _ object).mp hfound
        rw [← hchildPath] at hpresent
        obtain ⟨object', below, hbelow, hpath, heq'⟩ := ih hchild hpresent.2
        refine ⟨object', below, hbelow, ?_, ?_⟩
        · rw [hpath, hchildPath, joined_cons, List.append_assoc, List.cons_append]
        · have hothers : others ++ back ≠ [] := fun hnil => hback (List.append_eq_nil_iff.mp hnil).2
          rw [List.cons_append, getOrCreateNames_cons full name hothers, heq]
          exact heq'
      · rw [if_pos hmakes.absent] at hpresent
        exact absurd hpresent.1 one_ne_zero
      · rw [if_pos habsent] at hpresent
        exact absurd hpresent.1 one_ne_zero

/-- With a free slot for every missing object, the object of a well-formed path is there
afterwards. -/
theorem getOrCreateObject_builds (h : i.Coherent) (hpath : WellFormed path along)
    (hroom : i.missing [] along ≤ i.objects.freeSlots) :
    ∃ object i', i.getOrCreateObject path = (i', .ok object) ∧ i.Builds [] along object i' := by
  obtain ⟨data, hdata, hroot⟩ := h.root
  have hlast : along.getLast? ≠ some [] := fun hlast =>
    (validName_iff.mp (hpath.2.1 [] (List.mem_of_getLast? hlast))).1 rfl
  obtain ⟨rest, rfl, hnames⟩ := hpath.names_eq
  rw [← hroot] at hroom ⊢
  rw [getOrCreateObject, hnames]
  exact getOrCreateNames_builds h hdata (slash :: rest) hpath.1 hlast hroom

end Instance

end Obsr
