/-
# Ordered maps

A finite map whose entries are kept in the order of their keys, with the
insertion of `std::map::emplace`: a key that is there keeps its value.
-/

import Mathlib

namespace Obsr.Lib

universe u v w

/-- The entries carry the proof that their keys increase. -/
structure OrderedMap (κ : Type u) (ν : Type v) [LinearOrder κ] where
  entries : List (κ × ν)
  sorted : entries.Pairwise fun first second => first.1 < second.1

namespace OrderedMap

variable {κ : Type u} {ν : Type v} {ω : Type w} [LinearOrder κ]

def empty : OrderedMap κ ν := ⟨[], List.Pairwise.nil⟩

def find? (m : OrderedMap κ ν) (key : κ) : Option ν :=
  (m.entries.find? (·.1 = key)).map Prod.snd

/-- Put an entry in its place, unless its key is taken. -/
def insertNew (key : κ) (value : ν) : List (κ × ν) → List (κ × ν)
  | [] => [(key, value)]
  | entry :: rest =>
      if key < entry.1 then (key, value) :: entry :: rest
      else if key = entry.1 then entry :: rest
      else entry :: insertNew key value rest

theorem mem_insertNew {key : κ} {value : ν} {entry : κ × ν} {entries : List (κ × ν)}
    (h : entry ∈ insertNew key value entries) : entry = (key, value) ∨ entry ∈ entries := by
  induction entries with
  | nil => exact Or.inl (List.mem_singleton.mp h)
  | cons first rest ih =>
      rw [insertNew] at h
      split_ifs at h
      · exact List.mem_cons.mp h
      · exact Or.inr h
      · rcases List.mem_cons.mp h with rfl | hrest
        · exact Or.inr (List.mem_cons_self ..)
        · exact (ih hrest).imp_right (List.mem_cons_of_mem _)

theorem pairwise_insertNew (key : κ) (value : ν) {entries : List (κ × ν)}
    (h : entries.Pairwise fun first second => first.1 < second.1) :
    (insertNew key value entries).Pairwise fun first second => first.1 < second.1 := by
  induction entries with
  | nil => exact List.pairwise_singleton ..
  | cons first rest ih =>
      obtain ⟨hfirst, hrest⟩ := List.pairwise_cons.mp h
      rw [insertNew]
      split_ifs with hlt heq
      · refine List.pairwise_cons.mpr ⟨fun entry hentry => ?_, h⟩
        rcases List.mem_cons.mp hentry with rfl | hmem
        · exact hlt
        · exact hlt.trans (hfirst entry hmem)
      · exact h
      · refine List.pairwise_cons.mpr ⟨fun entry hentry => ?_, ih hrest⟩
        rcases mem_insertNew hentry with rfl | hmem
        · exact lt_of_le_of_ne (not_lt.mp hlt) (Ne.symm heq)
        · exact hfirst entry hmem

def emplace (m : OrderedMap κ ν) (key : κ) (value : ν) : OrderedMap κ ν :=
  ⟨insertNew key value m.entries, pairwise_insertNew key value m.sorted⟩

def erase (m : OrderedMap κ ν) (key : κ) : OrderedMap κ ν :=
  ⟨m.entries.filter (·.1 ≠ key), m.sorted.filter _⟩

/-- Change the values, each with a look at its key. -/
def mapValues (f : κ → ν → ω) (m : OrderedMap κ ν) : OrderedMap κ ω where
  entries := m.entries.map fun entry => (entry.1, f entry.1 entry.2)
  sorted := List.pairwise_map.mpr m.sorted

/-- Change the value of one key. -/
def modify (m : OrderedMap κ ν) (key : κ) (f : ν → ν) : OrderedMap κ ν :=
  m.mapValues fun other value => if other = key then f value else value

/-! ## Lookups -/

@[simp]
theorem find?_empty (key : κ) : (empty : OrderedMap κ ν).find? key = none := rfl

/-- An entry is found under its key. -/
theorem mem_entries_iff (m : OrderedMap κ ν) (key : κ) (value : ν) :
    (key, value) ∈ m.entries ↔ m.find? key = some value := by
  obtain ⟨entries, hsorted⟩ := m
  show (key, value) ∈ entries ↔ (entries.find? (·.1 = key)).map Prod.snd = some value
  induction entries with
  | nil => simp
  | cons first rest ih =>
      obtain ⟨hfirst, hrest⟩ := List.pairwise_cons.mp hsorted
      by_cases hkey : first.1 = key
      · have hnotin : (key, value) ∉ rest := fun hmem =>
          absurd (hfirst _ hmem) (by simp [hkey])
        simp [hkey, hnotin, Prod.ext_iff, eq_comm]
      · have hne : (key, value) ≠ first := fun heq => hkey (by rw [← heq])
        simp [hkey, hne, ih hrest]

/-- What is inserted: nothing, if the key is there, and the entry else. -/
theorem mem_insertNew_iff {key : κ} {value : ν} {entry : κ × ν} {entries : List (κ × ν)}
    (hsorted : entries.Pairwise fun first second => first.1 < second.1) :
    entry ∈ insertNew key value entries ↔
      entry ∈ entries ∨ (entry = (key, value) ∧ ∀ other ∈ entries, other.1 ≠ key) := by
  induction entries with
  | nil => simp [insertNew]
  | cons first rest ih =>
      obtain ⟨hfirst, hrest⟩ := List.pairwise_cons.mp hsorted
      rw [insertNew]
      split_ifs with hlt heq
      · have hnotin : ∀ other ∈ first :: rest, other.1 ≠ key := by
          intro other hother
          rcases List.mem_cons.mp hother with rfl | hmem
          · exact hlt.ne'
          · exact (hlt.trans (hfirst other hmem)).ne'
        rw [List.mem_cons, and_iff_left hnotin, or_comm]
      · have hin : ¬ ∀ other ∈ first :: rest, other.1 ≠ key := fun hall =>
          hall first (List.mem_cons_self ..) heq.symm
        rw [or_iff_left fun h => hin h.2]
      · have hfirstNe : first.1 ≠ key := Ne.symm heq
        simp [ih hrest, hfirstNe, or_assoc]

theorem find?_emplace (m : OrderedMap κ ν) (key : κ) (value : ν) (other : κ) :
    (m.emplace key value).find? other =
      if other = key then some ((m.find? key).getD value) else m.find? other := by
  apply Option.ext
  intro found
  have habsent : (∀ entry ∈ m.entries, entry.1 ≠ key) ↔ m.find? key = none := by
    rw [Option.eq_none_iff_forall_not_mem]
    constructor
    · intro hall present hpresent
      exact hall (key, present) ((mem_entries_iff m key present).mpr hpresent) rfl
    · rintro hnone ⟨entryKey, present⟩ hentry rfl
      exact hnone present ((mem_entries_iff m entryKey present).mp hentry)
  rw [← mem_entries_iff]
  show (other, found) ∈ insertNew key value m.entries ↔ _
  rw [mem_insertNew_iff m.sorted, mem_entries_iff, habsent]
  by_cases hkey : other = key
  · subst hkey
    rw [if_pos rfl]
    cases m.find? other <;> simp [eq_comm]
  · rw [if_neg hkey]
    simp [hkey]

theorem find?_emplace_self (m : OrderedMap κ ν) (key : κ) (value : ν) :
    (m.emplace key value).find? key = some ((m.find? key).getD value) := by
  rw [find?_emplace, if_pos rfl]

theorem find?_emplace_of_ne (m : OrderedMap κ ν) {key other : κ} (value : ν)
    (h : other ≠ key) : (m.emplace key value).find? other = m.find? other := by
  rw [find?_emplace, if_neg h]

/-- `emplace` does not change what is there. -/
theorem find?_emplace_of_some {m : OrderedMap κ ν} {key other : κ} {value found : ν}
    (h : m.find? other = some found) : (m.emplace key value).find? other = some found := by
  rw [find?_emplace]
  split_ifs with hother
  · rw [← hother, h]
    rfl
  · exact h

theorem find?_erase (m : OrderedMap κ ν) (key other : κ) :
    (m.erase key).find? other = if other = key then none else m.find? other := by
  apply Option.ext
  intro found
  rw [← mem_entries_iff]
  show (other, found) ∈ m.entries.filter _ ↔ _
  by_cases hkey : other = key <;> simp [hkey, mem_entries_iff]

@[simp]
theorem find?_mapValues (f : κ → ν → ω) (m : OrderedMap κ ν) (key : κ) :
    (m.mapValues f).find? key = (m.find? key).map (f key) := by
  apply Option.ext
  intro found
  rw [← mem_entries_iff]
  show (key, found) ∈ m.entries.map _ ↔ _
  rw [List.mem_map, Option.map_eq_some_iff]
  constructor
  · rintro ⟨⟨entryKey, value⟩, hentry, heq⟩
    obtain ⟨rfl, rfl⟩ := Prod.mk.inj heq
    exact ⟨value, (mem_entries_iff m _ value).mp hentry, rfl⟩
  · rintro ⟨value, hvalue, rfl⟩
    exact ⟨(key, value), (mem_entries_iff m key value).mpr hvalue, rfl⟩

theorem find?_modify (m : OrderedMap κ ν) (key : κ) (f : ν → ν) (other : κ) :
    (m.modify key f).find? other =
      if other = key then (m.find? other).map f else m.find? other := by
  rw [modify, find?_mapValues]
  split_ifs with hkey
  · rfl
  · exact Option.map_id' ..

/-! ## Properties of all values -/

theorem forall_mapValues_iff (m : OrderedMap κ ν) (f : κ → ν → ω) (P : ω → Prop) :
    (∀ key value, (m.mapValues f).find? key = some value → P value) ↔
      ∀ key value, m.find? key = some value → P (f key value) := by
  constructor
  · intro h key value hvalue
    apply h key
    rw [find?_mapValues, hvalue]
    rfl
  · intro h key value hvalue
    rw [find?_mapValues, Option.map_eq_some_iff] at hvalue
    obtain ⟨old, hold, rfl⟩ := hvalue
    exact h key old hold

theorem forall_modify_iff (m : OrderedMap κ ν) (changed : κ) (f : ν → ν) (P : ν → Prop) :
    (∀ key value, (m.modify changed f).find? key = some value → P value) ↔
      ∀ key value, m.find? key = some value → P (if key = changed then f value else value) :=
  forall_mapValues_iff m (fun key value => if key = changed then f value else value) P

variable {m : OrderedMap κ ν}

theorem forall_emplace (P : ν → Prop) (h : ∀ key value, m.find? key = some value → P value)
    (new : κ) {value : ν} (hvalue : P value) :
    ∀ key found, (m.emplace new value).find? key = some found → P found := by
  intro key found hfound
  rw [find?_emplace] at hfound
  split_ifs at hfound with hkey
  · rw [← Option.some.inj hfound]
    cases hold : m.find? new with
    | none => exact hvalue
    | some old => exact h new old hold
  · exact h key found hfound

theorem forall_erase (P : ν → Prop) (h : ∀ key value, m.find? key = some value → P value)
    (erased : κ) : ∀ key found, (m.erase erased).find? key = some found → P found := by
  intro key found hfound
  rw [find?_erase] at hfound
  split_ifs at hfound
  exact h key found hfound

end OrderedMap

/-! ## Machine integers as keys -/

instance linearOrderUInt8 : LinearOrder UInt8 where
  le_refl := UInt8.le_refl
  le_trans _ _ _ := UInt8.le_trans
  le_antisymm _ _ := UInt8.le_antisymm
  le_total := UInt8.le_total
  lt_iff_le_not_ge _ _ := Std.lt_iff_le_and_not_ge
  toDecidableLE := inferInstance
  toDecidableEq := inferInstance
  toDecidableLT := inferInstance

instance linearOrderUInt16 : LinearOrder UInt16 where
  le_refl := UInt16.le_refl
  le_trans _ _ _ := UInt16.le_trans
  le_antisymm _ _ := UInt16.le_antisymm
  le_total := UInt16.le_total
  lt_iff_le_not_ge _ _ := Std.lt_iff_le_and_not_ge
  toDecidableLE := inferInstance
  toDecidableEq := inferInstance
  toDecidableLT := inferInstance

end Obsr.Lib
