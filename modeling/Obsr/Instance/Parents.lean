/-
# Parents of entries

`get_parent_for_entry` looks the path in front of the last slash up among the objects, and
only an `assert` asks whether it is there. Whoever creates an entry is to have created its
objects. `get_entry` in an object has; `get_entry` of a path has if the path is one of the
form that is documented; an entry from the network comes without any object.
-/

import Obsr.Instance.Walk

namespace Obsr

open Obsr.Lib

namespace Storage

variable {s : Storage} {path : Text}

/-- The path has no entry yet, and there is a slot for one. -/
def TakesIn (s : Storage) (path : Text) : Prop :=
  s.paths.find? path = none ∧ s.entries.HasSpace

instance (s : Storage) (path : Text) : Decidable (s.TakesIn path) :=
  inferInstanceAs (Decidable (_ ∧ _))

theorem paths_findOrCreate (s : Storage) (path : Text) :
    (¬ s.TakesIn path ∧ (s.findOrCreate path).1.paths = s.paths) ∨
      s.TakesIn path ∧
        ∃ entry, (s.findOrCreate path).1.paths = s.paths.emplace path entry := by
  rcases s.findOrCreate_cases path with ⟨entry, hpath, heq⟩ |
    ⟨entry, s', hpath, hcreates, heq⟩ | ⟨-, hfull, heq⟩
  · refine .inl ⟨fun htakes => ?_, by rw [heq]⟩
    rw [htakes.1] at hpath
    cases hpath
  · refine .inr ⟨⟨hpath, ?_⟩, entry, by rw [heq]; exact hcreates.paths⟩
    by_contra hfull
    rw [findOrCreate, hpath] at heq
    dsimp only at heq
    rw [createNewEntry_of_not_hasSpace hfull] at heq
    cases heq
  · exact .inl ⟨fun htakes => hfull htakes.2, by rw [heq]⟩

theorem paths_onEntryCreated (s : Storage) (now : ℤ) (id : EntryId) (path : Text)
    (value : Value) (timestamp : ℤ) :
    (s.onEntryCreated now id path value timestamp).1.paths = (s.findOrCreate path).1.paths := by
  rw [onEntryCreated]
  rcases s.findOrCreate path with ⟨t, exception | entry⟩
  · rfl
  · exact paths_setEntryInternal ..

theorem paths_onEntryIdAssigned (s : Storage) (id : EntryId) (path : Text) :
    (s.onEntryIdAssigned id path).1.paths = (s.findOrCreate path).1.paths := by
  rw [onEntryIdAssigned]
  rcases s.findOrCreate path with ⟨t, exception | entry⟩
  · rfl
  · dsimp only
    split <;> rfl

end Storage

namespace Instance

variable {i i' : Instance} {current object : Handle} {data : ObjectData} {path full : Text}
  {along : List Text}

/-- How `get_parent_for_entry` ends. -/
inductive ParentLookup
  | found (object : Handle)
  | noSuchHandle
  /-- The path has no slash. -/
  | noParentPath
  /-- The map has no such path. -/
  | missed
  deriving DecidableEq, Repr

def getParentForEntry (i : Instance) (entry : Handle) : ParentLookup :=
  match i.storage.entries.get? entry with
  | none => .noSuchHandle
  | some data =>
      match parentPath data.path with
      | none => .noParentPath
      | some path =>
          if path = [] then .found i.root
          else
            match i.objectPaths.find? path with
            | none => .missed
            | some object => .found object

theorem getParentForEntry_of_some {entry : Handle} {data : StorageEntry} {parent : Text}
    (hdata : i.storage.entries.get? entry = some data)
    (hparent : parentPath data.path = some parent) :
    i.getParentForEntry entry =
      if parent = [] then .found i.root
      else
        match i.objectPaths.find? parent with
        | none => .missed
        | some object => .found object := by
  rw [getParentForEntry, hdata]
  dsimp only
  rw [hparent]

/-- The lookup of every live entry finds a live object, with the path of the parent. -/
def FindsParents (i : Instance) : Prop :=
  ∀ entry data, i.storage.entries.get? entry = some data →
    ∃ object above, i.getParentForEntry entry = .found object ∧
      i.objects.get? object = some above ∧ parentPath data.path = some above.path

/-- A call that may create objects or entries, of the program or of the network. -/
inductive EntryCall
  | getObject (path : Text)
  | getChild (object : Handle) (name : Text)
  | getEntry (path : Text)
  | getEntryIn (object : Handle) (name : Text)
  | setValue (now : ℤ) (entry : Handle) (value : Value)
  | onEntryCreated (now : ℤ) (id : EntryId) (path : Text) (value : Value) (timestamp : ℤ)
  | onEntryIdAssigned (id : EntryId) (path : Text)
  deriving DecidableEq, Repr

def enterCall (i : Instance) : EntryCall → Instance
  | .getObject path => (i.getObject path).1
  | .getChild object name => (i.getChild object name).1
  | .getEntry path => (i.getEntry path).1
  | .getEntryIn object name => (i.getEntryIn object name).1
  | .setValue now entry value => (i.setValue now entry value).1
  | .onEntryCreated now id path value timestamp =>
      { i with storage := (i.storage.onEntryCreated now id path value timestamp).1 }
  | .onEntryIdAssigned id path =>
      { i with storage := (i.storage.onEntryIdAssigned id path).1 }

/-- `get_or_create_object` returns an object for the path: the one character is skipped, or
there is a last name, and a free slot for every object that is missing. -/
def Arrives (i : Instance) (path : Text) : Prop :=
  path ≠ [] ∧ (path.tail = [] ∨ (names path.tail).getLast? ≠ some [] ∧
    i.missing [] (names path.tail) ≤ i.objects.freeSlots)

/-- The parent of the path is the root, or there is an object for it. -/
def HasParent (i : Instance) (path : Text) : Prop :=
  ∃ parent, parentPath path = some parent ∧
    (parent = [] ∨ ∃ object, i.objectPaths.find? parent = some object)

/-- If the call creates an entry, then the parent of its path starts with a slash and is not
a slash alone, or is there already. -/
def CreatesInTree (i : Instance) : EntryCall → Prop
  | .getEntry path => ∀ parent, parentPath path = some parent → i.Arrives parent →
      i.storage.TakesIn path →
        parent.head? = some slash ∧ (parent = [slash] → i.objectPaths.find? [slash] ≠ none)
  | .onEntryCreated _ _ path _ _ | .onEntryIdAssigned _ path =>
      i.storage.TakesIn path → i.HasParent path
  | _ => True

/-! ## When a lookup by path arrives -/

/-- A child that is returned is not the root, and with a free slot for every object that is
missing below it there was one for the child as well. -/
theorem room_of_getOrCreateChild (h : i.Coherent) (hcurrent : i.objects.get? current = some data)
    {name : Text} {child : Handle} (hchild : i.getOrCreateChild current name = (i', .ok child)) :
    i'.Coherent ∧ child ≠ i'.root ∧
      (∃ below, i'.objects.get? child = some below ∧ below.path = data.path ++ slash :: name) ∧
      ∀ rest, i'.missing (data.path ++ slash :: name) rest ≤ i'.objects.freeSlots →
        i.missing data.path (name :: rest) ≤ i.objects.freeSlots := by
  rcases getOrCreateChild_steps hcurrent name with
    ⟨found, hfound, heq⟩ | ⟨made, i₁, hmakes, heq⟩ | ⟨-, -, heq⟩
  · rw [heq] at hchild
    cases hchild
    obtain ⟨hne, hlive⟩ := (h.paths _ child).mp hfound
    refine ⟨h, hne, hlive, fun rest hrest => ?_⟩
    rw [missing, hfound]
    simpa using hrest
  · rw [heq] at hchild
    cases hchild
    have hreaches := hmakes.reaches h
    have hindexed := (hreaches.coherent.paths _ child).mp hmakes.find?_self
    refine ⟨hreaches.coherent, hindexed.1, hindexed.2, fun rest hrest => ?_⟩
    rw [hmakes.missing] at hrest
    rw [missing, if_pos hmakes.absent, hmakes.freeSlots]
    omega
  · rw [heq] at hchild
    cases hchild

/-- A walk that arrives had a last name and room, or nowhere to go. -/
theorem room_of_getOrCreateNames (h : i.Coherent) (hcurrent : i.objects.get? current = some data)
    (hok : getOrCreateNames full along current i = (i', .ok object)) :
    (along.getLast? ≠ some [] ∧ i.missing data.path along ≤ i.objects.freeSlots) ∨
      along = [[]] ∧ current = i.root := by
  induction along generalizing i current data with
  | nil => cases hok
  | cons name others ih =>
      cases others with
      | nil =>
          rw [getOrCreateNames] at hok
          split_ifs at hok with hname hroot
          · exact .inr ⟨by rw [hname], hroot⟩
          · cases hok
          · obtain ⟨-, -, -, hroom⟩ := room_of_getOrCreateChild h hcurrent hok
            exact .inl ⟨by simpa using hname, hroom [] (Nat.zero_le _)⟩
      | cons next others =>
          rw [getOrCreateNames_cons full name (List.cons_ne_nil _ _)] at hok
          rcases hchild : i.getOrCreateChild current name with ⟨i'', exception | child⟩
          · rw [hchild] at hok
            cases hok
          · rw [hchild] at hok
            obtain ⟨hcoherent, hne, ⟨below, hbelow, hpath⟩, hroom⟩ :=
              room_of_getOrCreateChild h hcurrent hchild
            rcases ih hcoherent hbelow hok with ⟨hlast, hrest⟩ | ⟨-, hroot⟩
            · rw [hpath] at hrest
              exact .inl ⟨by rwa [List.getLast?_cons_cons], hroom _ hrest⟩
            · exact absurd hroot hne

theorem names_eq_singleton {rest : Text} (h : names rest = [[]]) : rest = [] := by
  have hjoined := joined_names rest
  rw [h, joined_cons, joined_nil, List.append_nil] at hjoined
  exact (List.cons.inj hjoined).2.symm

theorem arrives_of_getOrCreateObject (h : i.Coherent)
    (hok : i.getOrCreateObject path = (i', .ok object)) : i.Arrives path := by
  obtain ⟨data, hdata, hroot⟩ := h.root
  cases path with
  | nil => cases hok
  | cons byte rest =>
      refine ⟨List.cons_ne_nil _ _, ?_⟩
      have hcases := room_of_getOrCreateNames h hdata hok
      rw [hroot] at hcases
      rcases hcases with hroom | ⟨hnames, -⟩
      · exact .inr hroom
      · exact .inl (names_eq_singleton hnames)

/-- The lookup of a longer path ends at the object of the path, if a slash comes first. -/
theorem Arrives.getOrCreateObject (h : i.Coherent) (harrives : i.Arrives path) :
    ∃ object i', i.getOrCreateObject path = (i', .ok object) ∧
      (path.tail = [] → i' = i) ∧
      (path.tail ≠ [] → path.head? = some slash →
        ∃ indexed, i'.objectPaths.find? path = some indexed) := by
  obtain ⟨data, hdata, hroot⟩ := h.root
  obtain ⟨hne, htail⟩ := harrives
  obtain ⟨byte, rest, rfl⟩ := List.exists_cons_of_ne_nil hne
  rw [List.tail_cons] at htail ⊢
  rcases htail with rfl | ⟨hlast, hroom⟩
  · refine ⟨i.root, i, ?_, fun _ => rfl, fun hrest => absurd rfl hrest⟩
    rw [Instance.getOrCreateObject, names, getOrCreateNames, if_pos rfl, if_pos rfl]
  · rw [← hroot] at hroom
    obtain ⟨object, i', heq, hbuilds⟩ := getOrCreateNames_builds h hdata (byte :: rest)
      (names_ne_nil rest) hlast hroom
    refine ⟨object, i', heq, fun hrest => absurd ?_ hlast, fun _ hslash => ?_⟩
    · rw [hrest]
      rfl
    · obtain rfl : byte = slash := Option.some.inj hslash
      obtain ⟨below, hbelow, hpath⟩ := hbuilds.live
      rw [hroot, List.nil_append, joined_names] at hpath
      refine ⟨object, (hbuilds.coherent.paths _ object).mpr ⟨?_, below, hbelow, hpath⟩⟩
      rintro rfl
      obtain ⟨root, hrootData, hrootPath⟩ := hbuilds.coherent.root
      obtain rfl := Option.some.inj (hrootData.symm.trans hbelow)
      rw [hrootPath] at hpath
      cases hpath

/-! ## The invariant -/

/-- The paths of all objects but the root start with a slash. -/
def Rooted (i : Instance) : Prop :=
  ∀ ⦃handle data⦄, i.objects.get? handle = some data →
    data.path = [] ∨ data.path.head? = some slash

theorem keptByMakes_rooted : KeptByMakes Rooted := by
  intro i above name object i' _ hmakes h other data hdata
  rw [hmakes.get?] at hdata
  split_ifs at hdata
  · obtain rfl := Option.some.inj hdata
    obtain ⟨parent, parentData, hparent, rfl⟩ := hmakes.parent
    refine .inr ?_
    rcases h hparent with hroot | hslash
    · rw [hroot]
      rfl
    · rw [List.head?_append, hslash]
      rfl
  · exact h hdata

/-- The parents of all entries of the storage are there. -/
def Parents (i : Instance) : Prop :=
  ∀ ⦃path entry⦄, i.storage.paths.find? path = some entry → i.HasParent path

theorem HasParent.makes {above name : Text} (h : i.HasParent path)
    (hmakes : i.Makes above name object i') : i'.HasParent path := by
  obtain ⟨parent, hparent, hroot | ⟨found, hfound⟩⟩ := h
  · exact ⟨parent, hparent, .inl hroot⟩
  · refine ⟨parent, hparent, .inr ⟨found, ?_⟩⟩
    rw [hmakes.find?_of_ne, hfound]
    rintro rfl
    rw [hmakes.absent] at hfound
    cases hfound

theorem keptByMakes_parents : KeptByMakes Parents := by
  intro i above name object i' _ hmakes h path entry hpath
  rw [hmakes.storage] at hpath
  exact (h hpath).makes hmakes

structure Housed (i : Instance) : Prop where
  kept : i.Kept
  rooted : i.Rooted
  parents : i.Parents

theorem housed_new : new.Housed where
  kept := kept_new
  rooted := by
    intro handle data hdata
    obtain ⟨root, hroot, hpath⟩ := coherent_new.root
    by_cases hhandle : handle = new.root
    · rw [hhandle] at hdata
      obtain rfl := Option.some.inj (hroot.symm.trans hdata)
      exact .inl hpath
    · have hindexed := (coherent_new.paths data.path handle).mpr ⟨hhandle, data, hdata, rfl⟩
      simp [new] at hindexed
  parents := by
    intro path entry hpath
    simp [new, Storage.new] at hpath

theorem Housed.withStorage (h : i.Housed) (storage : Storage) (hstorage : storage.Coherent)
    (hpaths : ∀ path entry, storage.paths.find? path = some entry → i.HasParent path) :
    Housed { i with storage } :=
  ⟨h.kept.withStorage hstorage, h.rooted, hpaths⟩

/-- An entry may come in if its parent is there. -/
theorem Housed.findOrCreate (h : i.Housed) (storage : Storage) (hstorage : storage.Coherent)
    (hpaths : storage.paths = (i.storage.findOrCreate path).1.paths)
    (hparent : i.storage.TakesIn path → i.HasParent path) : Housed { i with storage } := by
  refine h.withStorage storage hstorage fun other entry hother => ?_
  rw [hpaths] at hother
  rcases i.storage.paths_findOrCreate path with ⟨-, hsame⟩ | ⟨htakes, entry, hemplace⟩
  · rw [hsame] at hother
    exact h.parents hother
  · by_cases heq : other = path
    · rw [heq]
      exact hparent htakes
    · rw [hemplace, OrderedMap.find?_emplace_of_ne _ _ heq] at hother
      exact h.parents hother

theorem Housed.getStorageEntry (h : i.Housed)
    (hparent : i.storage.TakesIn path → i.HasParent path) : (i.getStorageEntry path).1.Housed := by
  refine h.findOrCreate (i.storage.getOrCreateEntry path).1
    (h.kept.storage.getOrCreateEntry path) ?_ hparent
  rw [Storage.getOrCreateEntry_eq_findOrCreate h.kept.storage]

theorem Housed.getOrCreateObject (h : i.Housed) (path : Text) :
    (i.getOrCreateObject path).1.Housed where
  kept := h.kept.getOrCreateObject path
  rooted := getOrCreateObject_of_invariant keptByMakes_rooted h.rooted path
  parents := getOrCreateObject_of_invariant keptByMakes_parents h.parents path

/-- The parent of a path is that of an object that is not the root, or the root. -/
theorem Coherent.hasParent_of_live (h : i.Coherent) (hdata : i.objects.get? object = some data)
    (hparent : parentPath path = some data.path) : i.HasParent path := by
  refine ⟨data.path, hparent, ?_⟩
  by_cases hroot : object = i.root
  · obtain ⟨root, hrootData, hrootPath⟩ := h.root
    rw [hroot] at hdata
    obtain rfl := Option.some.inj (hrootData.symm.trans hdata)
    exact .inl hrootPath
  · exact .inr ⟨object, (h.paths data.path object).mpr ⟨hroot, data, hdata, rfl⟩⟩

theorem Housed.getEntryIn (h : i.Housed) (object : Handle) (name : Text) :
    (i.getEntryIn object name).1.Housed := by
  rw [Instance.getEntryIn]
  split_ifs with hname
  · cases hdata : i.objects.get? object with
    | none => exact h
    | some data =>
        refine h.getStorageEntry fun _ => h.kept.tree.hasParent_of_live hdata ?_
        exact parentPath_append (validName_iff.mp hname).2 data.path
  · exact h

theorem Housed.getEntry (h : i.Housed) (hok : i.CreatesInTree (.getEntry path)) :
    (i.getEntry path).1.Housed := by
  rw [Instance.getEntry]
  cases hparent : parentPath path with
  | none => exact h
  | some parent =>
      have hafter := h.getOrCreateObject parent
      have hstorage := storage_getOrCreateObject i parent
      dsimp only
      rcases hcreate : i.getOrCreateObject parent with ⟨i', exception | object⟩
      · rw [hcreate] at hafter
        exact hafter
      · rw [hcreate] at hafter hstorage
        refine hafter.getStorageEntry fun htakes => ⟨parent, hparent, .inr ?_⟩
        have harrives := arrives_of_getOrCreateObject h.kept.tree hcreate
        rw [show i'.storage = i.storage from hstorage] at htakes
        obtain ⟨hslash, hsingle⟩ := hok parent hparent harrives htakes
        obtain ⟨object', i'', heq, hsame, hindexed⟩ := harrives.getOrCreateObject h.kept.tree
        obtain ⟨rfl, -⟩ := Prod.mk.inj (hcreate.symm.trans heq)
        by_cases htail : parent.tail = []
        · obtain rfl := hsame htail
          have hone : parent = [slash] := by
            obtain ⟨byte, rest, rfl⟩ := List.exists_cons_of_ne_nil harrives.1
            obtain rfl : byte = slash := Option.some.inj hslash
            obtain rfl : rest = [] := htail
            rfl
          rw [hone]
          exact Option.ne_none_iff_exists'.mp (hsingle hone)
        · exact hindexed htail hslash

theorem Housed.enterCall (i : Instance) (call : EntryCall) (h : i.Housed)
    (hok : i.CreatesInTree call) : (i.enterCall call).Housed := by
  cases call with
  | getObject path =>
      show (i.getObject path).1.Housed
      rw [Instance.getObject]
      split_ifs
      · exact h
      · exact h.getOrCreateObject path
  | getChild object name =>
      exact ⟨h.kept.getChild object name,
        getChild_of_invariant keptByMakes_rooted h.rooted object name,
        getChild_of_invariant keptByMakes_parents h.parents object name⟩
  | getEntry path => exact h.getEntry hok
  | getEntryIn object name => exact h.getEntryIn object name
  | setValue now entry value =>
      refine h.withStorage (i.storage.setEntryValue now entry value).1
        (h.kept.storage.setEntryInternal ..) fun path other hpath => ?_
      rw [Storage.setEntryValue, Storage.paths_setEntryInternal] at hpath
      exact h.parents hpath
  | onEntryCreated now id path value timestamp =>
      exact h.findOrCreate _ (h.kept.storage.onEntryCreated ..)
        (Storage.paths_onEntryCreated ..) hok
  | onEntryIdAssigned id path =>
      exact h.findOrCreate _ (h.kept.storage.onEntryIdAssigned ..)
        (Storage.paths_onEntryIdAssigned ..) hok

/-! ## What the lookups find -/

theorem Housed.findsParents (i : Instance) (h : i.Housed) : i.FindsParents := by
  intro entry data hdata
  obtain ⟨hpath, -⟩ := h.kept.storage.path_of_entry hdata
  obtain ⟨parent, hparent, hfound⟩ := h.parents hpath
  obtain ⟨root, hroot, hrootPath⟩ := h.kept.tree.root
  rw [getParentForEntry_of_some hdata hparent, hparent]
  by_cases hempty : parent = []
  · rw [if_pos hempty]
    exact ⟨i.root, root, rfl, hroot, by rw [hrootPath, hempty]⟩
  · obtain ⟨object, hobject⟩ := hfound.resolve_left hempty
    obtain ⟨-, above, habove, habovePath⟩ := (h.kept.tree.paths parent object).mp hobject
    rw [if_neg hempty, hobject]
    exact ⟨object, above, rfl, habove, by rw [habovePath]⟩

/-- An entry without a parent, once it is in, is not to be looked up. -/
theorem not_findsParents (hstorage : i'.storage.Coherent) {entry : Handle}
    (hpath : i'.storage.paths.find? path = some entry) (hparent : ¬ i'.HasParent path) :
    ¬ i'.FindsParents := by
  intro hfinds
  obtain ⟨data, hdata, rfl⟩ := hstorage.entry_of_path hpath
  obtain ⟨object, above, hfound, -, habove⟩ := hfinds entry data hdata
  rw [getParentForEntry_of_some hdata habove] at hfound
  refine hparent ⟨above.path, habove, ?_⟩
  split_ifs at hfound with hempty
  · exact .inl hempty
  · cases hindexed : i'.objectPaths.find? above.path with
    | none =>
        rw [hindexed] at hfound
        cases hfound
    | some object => exact .inr ⟨object, rfl⟩

theorem find?_findOrCreate_of_takesIn {s : Storage} (h : s.TakesIn path) :
    ∃ entry, (s.findOrCreate path).1.paths.find? path = some entry := by
  rcases s.paths_findOrCreate path with ⟨hnot, -⟩ | ⟨-, entry, hemplace⟩
  · exact absurd h hnot
  · refine ⟨entry, ?_⟩
    rw [hemplace, OrderedMap.find?_emplace_self, h.1]
    rfl

theorem Housed.not_findsParents (i : Instance) (call : EntryCall) (h : i.Housed)
    (hbad : ¬ i.CreatesInTree call) : ¬ (i.enterCall call).FindsParents := by
  cases call with
  | getEntry path =>
      rw [CreatesInTree] at hbad
      push Not at hbad
      obtain ⟨parent, hparent, harrives, htakes, hslash⟩ := hbad
      obtain ⟨object, i', heq, hsame, -⟩ := harrives.getOrCreateObject h.kept.tree
      have hstorage := storage_getOrCreateObject i parent
      have hrooted := (h.getOrCreateObject parent).rooted
      have htree := (h.getOrCreateObject parent).kept.tree
      rw [heq] at hstorage hrooted htree
      have hafter : i.enterCall (.getEntry path) = (i'.getStorageEntry path).1 := by
        show (i.getEntry path).1 = _
        rw [Instance.getEntry, hparent]
        dsimp only
        rw [heq]
      rw [hafter, Instance.getStorageEntry, show i'.storage = i.storage from hstorage,
        Storage.getOrCreateEntry_eq_findOrCreate h.kept.storage]
      obtain ⟨entry, hentry⟩ := find?_findOrCreate_of_takesIn htakes
      refine Instance.not_findsParents (h.kept.storage.findOrCreate rfl).1 hentry ?_
      rintro ⟨parent', hparent', hfound⟩
      obtain rfl := Option.some.inj (hparent.symm.trans hparent')
      obtain ⟨indexed, hindexed⟩ := hfound.resolve_left harrives.1
      replace hindexed : i'.objectPaths.find? parent = some indexed := hindexed
      obtain ⟨-, data, hdata, hpath⟩ := (htree.paths parent indexed).mp hindexed
      have hhead := (hrooted hdata).resolve_left (by rw [hpath]; exact harrives.1)
      rw [hpath] at hhead
      obtain ⟨rfl, habsent⟩ := hslash hhead
      rw [hsame rfl, habsent] at hindexed
      cases hindexed
  | onEntryCreated now id path value timestamp =>
      rw [CreatesInTree] at hbad
      push Not at hbad
      obtain ⟨entry, hentry⟩ := find?_findOrCreate_of_takesIn hbad.1
      rw [← Storage.paths_onEntryCreated i.storage now id path value timestamp] at hentry
      exact Instance.not_findsParents (h.kept.storage.onEntryCreated ..) hentry hbad.2
  | onEntryIdAssigned id path =>
      rw [CreatesInTree] at hbad
      push Not at hbad
      obtain ⟨entry, hentry⟩ := find?_findOrCreate_of_takesIn hbad.1
      rw [← Storage.paths_onEntryIdAssigned i.storage id path] at hentry
      exact Instance.not_findsParents (h.kept.storage.onEntryIdAssigned ..) hentry hbad.2
  | _ => exact absurd trivial hbad

/-- In every state of a run the parents of all entries are found exactly if every entry that
comes in belongs to the tree as it is. -/
theorem findsParents_iff (calls : List EntryCall) :
    HoldsThroughout enterCall FindsParents new calls ↔
      StepsMeet enterCall CreatesInTree new calls :=
  holdsThroughout_iff_stepsMeet Housed.enterCall Housed.findsParents Housed.not_findsParents
    housed_new calls

/-- The entry `/a/b` arrives where there is no object `/a`. -/
theorem not_findsParents_received :
    ¬ HoldsThroughout enterCall FindsParents new
      [.onEntryCreated 5 1 [slash, 97, slash, 98] (.makeBoolean true) 3] := by
  intro hall
  have hlast := hall.last
  have hmissed : (new.enterCall (.onEntryCreated 5 1 [slash, 97, slash, 98]
      (.makeBoolean true) 3)).getParentForEntry 0 = .missed := by decide +kernel
  cases hdata : (new.enterCall (.onEntryCreated 5 1 [slash, 97, slash, 98]
      (.makeBoolean true) 3)).storage.entries.get? 0 with
  | none =>
      rw [getParentForEntry, hdata] at hmissed
      cases hmissed
  | some data =>
      obtain ⟨object, above, hfound, -⟩ := hlast 0 data hdata
      replace hfound := hmissed.symm.trans hfound
      cases hfound

end Instance

end Obsr
