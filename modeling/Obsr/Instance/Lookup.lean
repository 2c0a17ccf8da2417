/-
# Lookups by path

The documentation asks for paths "/path/to/object", and `get_or_create_object` throws at
some others. It never looks at the first character, takes names that are empty on the
way, and sees a slash at the end only after it has made what is in front of it.
-/

import Obsr.Instance.Walk

namespace Obsr

open Obsr.Lib

namespace Instance

variable {i i' : Instance} {current object : Handle} {data : ObjectData} {path full : Text}
  {along front back : List Text}

/-- The object along the names is there, and what was made is missing prefixes of it. -/
structure Gets (i : Instance) (along : List Text) (object : Handle) (i' : Instance) : Prop where
  object : ∃ data, i'.objects.get? object = some data ∧ data.path = joined along ∧
    along.getLast? = some data.name
  keeps : ∀ other data, i.objects.get? other = some data → i'.objects.get? other = some data
  only : ∀ other data, i'.objects.get? other = some data → i.objects.get? other = some data ∨
    ∃ before, before ++ [data.name] <+: along ∧ data.path = joined (before ++ [data.name]) ∧
      i.objectPaths.find? data.path = none

/-- `get_object` takes well-formed paths, those of the root, and nothing else. -/
structure GetsExactly (i : Instance) (path : Text) : Prop where
  root : path = [] ∨ path = [slash] → i.getObject path = (i, .ok i.root)
  wellFormed : ∀ along, WellFormed path along → i.missing [] along ≤ i.objects.freeSlots →
    ∃ object i', i.getObject path = (i', .ok object) ∧ i.Gets along object i'
  malformed : path ≠ [] → path ≠ [slash] → (∀ along, ¬ WellFormed path along) →
    (i.getObject path).2 = .error (.invalidPath path) ∧
      (i.getObject path).1.objects = i.objects

/-- The path is one that is to be taken, or it has an empty name at its end and all objects
in front of that are there. -/
def TakenRight (i : Instance) (path : Text) : Prop :=
  path = [] ∨ path = [slash] ∨ (∃ along, WellFormed path along) ∨
    ∃ front, front ≠ [] ∧ names path.tail = front ++ [[]] ∧ i.missing [] front = 0

/-! ## Paths that are taken -/

theorem Builds.gets (h : i.Builds [] along object i') (hnamed : i'.Named)
    (hpath : WellFormed path along) : i.Gets along object i' where
  object := by
    obtain ⟨data, hdata, hdataPath⟩ := h.live
    refine ⟨data, hdata, hdataPath, ?_⟩
    rcases along.eq_nil_or_concat with rfl | ⟨before, last, rfl⟩
    · exact absurd rfl hpath.1
    · rw [List.concat_eq_append] at hpath hdataPath ⊢
      have hlast := (validName_iff.mp (hpath.2.1 last (by simp))).2
      rw [hnamed hdata, hdataPath, joined_concat, List.nil_append, pathName_append hlast,
        List.getLast?_concat]
  keeps _ _ hdata := h.keeps hdata
  only := h.only

theorem Kept.gets_of_wellFormed (h : i.Kept) (hpath : WellFormed path along)
    (hroom : i.missing [] along ≤ i.objects.freeSlots) :
    ∃ object i', i.getObject path = (i', .ok object) ∧ i.Gets along object i' := by
  obtain ⟨object, i', heq, hbuilds⟩ := getOrCreateObject_builds h.tree hpath hroom
  have hnamed := (h.getOrCreateObject path).named
  rw [heq] at hnamed
  refine ⟨object, i', ?_, hbuilds.gets hnamed hpath⟩
  obtain ⟨rest, rfl, -⟩ := hpath.names_eq
  rw [Instance.getObject, if_neg (List.cons_ne_nil _ _), heq]

theorem getObject_root (hpath : path = [] ∨ path = [slash]) :
    i.getObject path = (i, .ok i.root) := by
  rcases hpath with rfl | rfl
  · rfl
  · rw [getObject, if_neg (List.cons_ne_nil _ _), getOrCreateObject, names, getOrCreateNames,
      if_pos rfl, if_pos rfl]

/-! ## Paths that are not -/

/-- An object that was made stays to the end. -/
theorem keptByMakes_live (object : Handle) (data : ObjectData) :
    KeptByMakes fun i => i.objects.get? object = some data := by
  intro i above name made i' _ hmakes hdata
  have hne : object ≠ made := by
    rintro rfl
    rw [hmakes.free] at hdata
    cases hdata
  rw [hmakes.get?, if_neg hne, hdata]

/-- A walk that makes nothing, and that space would not have let go on, goes along objects
that are there. -/
theorem present_of_unchanged (h : i.Coherent) (hcurrent : i.objects.get? current = some data)
    (hback : back ≠ []) (hnames : ∀ name ∈ front ++ back, slash ∉ name)
    (hspace : (getOrCreateNames full (front ++ back) current i).2 ≠
      .error (.thrown .noSpace))
    (hsame : (getOrCreateNames full (front ++ back) current i).1.objects = i.objects) :
    i.missing data.path front = 0 := by
  induction front generalizing current data with
  | nil => rfl
  | cons name others ih =>
      have hbelow : others ++ back ≠ [] := fun hnil => hback (List.append_eq_nil_iff.mp hnil).2
      rw [List.cons_append, getOrCreateNames_cons full name hbelow] at hspace hsame
      rcases getOrCreateChild_steps hcurrent name with ⟨object, hfound, heq⟩ |
        ⟨object, i', hmakes, heq⟩ | ⟨-, -, heq⟩
      · rw [heq] at hspace hsame
        obtain ⟨-, child, hchild, hchildPath⟩ := (h.paths _ object).mp hfound
        have hrest := ih hchild (fun n hn => hnames n (List.mem_cons_of_mem _ hn)) hspace hsame
        rw [missing, hfound, ← hchildPath, hrest]
        rfl
      · rw [heq] at hsame
        dsimp only at hsame
        have hmade : i'.objects.get? object = some ⟨name, data.path ++ slash :: name⟩ := by
          rw [hmakes.get?, if_pos rfl]
        have hothers : ∀ n ∈ others ++ back, slash ∉ n := fun n hn =>
          hnames n (List.mem_cons_of_mem _ hn)
        have hkept := getOrCreateNames_of_invariant (keptByMakes_live object _) hmade full object
          hothers
        rw [hsame, hmakes.free] at hkept
        cases hkept
      · rw [heq] at hspace
        exact absurd rfl hspace

/-- What `get_object` does with a path whose last name is empty. -/
theorem getObject_of_present (h : i.Coherent) (hfront : front ≠ [])
    (hnames : names path.tail = front ++ [[]]) (hpresent : i.missing [] front = 0) :
    path ≠ [] → i.getObject path = (i, .error (.invalidPath path)) := by
  intro hpath
  obtain ⟨byte, rest, rfl⟩ := List.exists_cons_of_ne_nil hpath
  rw [List.tail_cons] at hnames
  obtain ⟨data, hdata, hroot⟩ := h.root
  rw [← hroot] at hpresent
  obtain ⟨object, below, hbelow, hbelowPath, heq⟩ := getOrCreateNames_of_present h hdata
    (byte :: rest) hpresent (List.cons_ne_nil [] [])
  have hobject : object ≠ i.root := by
    rintro rfl
    obtain rfl := Option.some.inj (hdata.symm.trans hbelow)
    rw [hroot, List.nil_append] at hbelowPath
    obtain ⟨name, others, rfl⟩ := List.exists_cons_of_ne_nil hfront
    rw [joined_cons] at hbelowPath
    cases hbelowPath
  rw [getObject, if_neg hpath, getOrCreateObject, hnames, heq, getOrCreateNames, if_pos rfl,
    if_neg hobject]

/-- A path that throws as it is to throw has an empty name at its end, and nothing is
missing in front of that. -/
theorem present_of_malformed (h : i.Coherent) (hne : path ≠ [])
    (hthrown : (i.getObject path).2 = .error (.invalidPath path))
    (hsame : (i.getObject path).1.objects = i.objects) :
    ∃ front, front ≠ [] ∧ names path.tail = front ++ [[]] ∧ i.missing [] front = 0 := by
  obtain ⟨byte, rest, rfl⟩ := List.exists_cons_of_ne_nil hne
  obtain ⟨data, hdata, hroot⟩ := h.root
  rw [getObject, if_neg hne, getOrCreateObject] at hthrown hsame
  rw [List.tail_cons]
  rcases (names rest).eq_nil_or_concat with hnil | ⟨front, last, hnames⟩
  · exact absurd hnil (names_ne_nil rest)
  · rw [List.concat_eq_append] at hnames
    have hslashes : ∀ name ∈ front ++ [last], slash ∉ name := fun name hname =>
      not_mem_of_mem_names (hnames ▸ hname)
    rw [hnames] at hthrown hsame
    by_cases hlast : last = []
    · rw [hlast] at hnames hthrown hsame hslashes
      refine ⟨front, ?_, hnames, ?_⟩
      · rintro rfl
        rw [List.nil_append, getOrCreateNames, if_pos rfl, if_pos rfl] at hthrown
        cases hthrown
      · rw [← hroot]
        refine present_of_unchanged h hdata (List.cons_ne_nil _ _) hslashes ?_ hsame
        rw [hthrown]
        simp
    · exfalso
      have hne' : front ++ [last] ≠ [] := by simp
      rcases getOrCreateNames_cases h hdata (byte :: rest) hne' (by simpa using hlast) with
        ⟨object, i', heq, -⟩ | ⟨i', heq⟩
      · rw [heq] at hthrown
        cases hthrown
      · rw [heq] at hthrown
        simp at hthrown

/-- After any calls that delete no object, `get_object` takes a path as it is to exactly if
the path is one of the root, is well-formed, or has an empty name at its end and all objects
in front of that are there. -/
theorem getsExactly_iff (uses : List Use) (path : Text) :
    (uses.foldl use new).GetsExactly path ↔ (uses.foldl use new).TakenRight path := by
  have h := kept_uses uses
  generalize uses.foldl use new = i at h
  constructor
  · intro hexact
    by_cases hempty : path = []
    · exact .inl hempty
    by_cases hslash : path = [slash]
    · exact .inr (.inl hslash)
    by_cases hwell : ∃ along, WellFormed path along
    · exact .inr (.inr (.inl hwell))
    obtain ⟨hthrown, hsame⟩ := hexact.malformed hempty hslash (not_exists.mp hwell)
    exact .inr (.inr (.inr (present_of_malformed h.tree hempty hthrown hsame)))
  · intro htaken
    refine ⟨getObject_root, fun along hpath hroom => h.gets_of_wellFormed hpath hroom, ?_⟩
    intro hempty hslash hill
    rcases htaken with heq | heq | ⟨along, hwell⟩ | ⟨front, hfront, hnames, hpresent⟩
    · exact absurd heq hempty
    · exact absurd heq hslash
    · exact absurd hwell (hill along)
    · rw [getObject_of_present h.tree hfront hnames hpresent hempty]
      exact ⟨rfl, rfl⟩

/-- A path without its first slash. -/
theorem not_getsExactly_relative : ¬ (([] : List Use).foldl use new).GetsExactly [120, 97] := by
  intro h
  have hill : ∀ along, ¬ WellFormed [120, 97] along := by
    intro along hwell
    obtain ⟨rest, heq, -⟩ := hwell.names_eq
    exact absurd (List.head_eq_of_cons_eq heq) (by decide)
  have hthrown := (h.malformed (by decide) (by decide) hill).1
  revert hthrown
  decide +kernel

end Instance

end Obsr
