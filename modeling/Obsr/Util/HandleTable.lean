/-
# Handle tables

`handle_table` is an array of owning pointers; a handle is an index into it. A
new object goes into the first free slot.
-/

import Obsr.Types.Value

namespace Obsr

/-- The slots of a table; a null pointer is `none`. -/
structure HandleTable (α : Type) (capacity : ℕ) where
  data : Fin capacity → Option α

namespace HandleTable

variable {α : Type} {capacity : ℕ}

def empty : HandleTable α capacity := ⟨fun _ => none⟩

/-- The object a handle stands for; `has` asks whether there is one, and
`operator[]` throws if there is none. -/
def get? (t : HandleTable α capacity) (handle : Handle) : Option α :=
  if handle = emptyHandle then none
  else if h : handle < capacity then t.data ⟨handle, h⟩ else none

def has (t : HandleTable α capacity) (handle : Handle) : Bool := (t.get? handle).isSome

/-- Write through the pointer that `operator[]` returns. -/
def modify (t : HandleTable α capacity) (handle : Handle) (f : α → α) :
    HandleTable α capacity :=
  ⟨fun index => if index.val = handle then (t.data index).map f else t.data index⟩

def findNextAvailableSpot (t : HandleTable α capacity) : Option (Fin capacity) :=
  (List.finRange capacity).find? fun index => (t.data index).isNone

/-- `allocate_new_with_handle`: the object learns its handle. -/
def allocateNewWithHandle (t : HandleTable α capacity) (make : Handle → α) :
    Except Exception (Handle × HandleTable α capacity) :=
  match t.findNextAvailableSpot with
  | none => .error .noSpace
  | some index =>
      .ok (index, ⟨Function.update t.data index (some (make index))⟩)

/-- `allocate_new`. -/
def allocateNew (t : HandleTable α capacity) (object : α) :
    Except Exception (Handle × HandleTable α capacity) :=
  t.allocateNewWithHandle fun _ => object

/-- `release`, which throws if there is no object. -/
def release (t : HandleTable α capacity) (handle : Handle) : HandleTable α capacity :=
  ⟨fun index => if index.val = handle then none else t.data index⟩

/-- What an iteration over the table visits. -/
def toList (t : HandleTable α capacity) : List (Handle × α) :=
  (List.finRange capacity).filterMap fun index =>
    (t.data index).map fun object => (index.val, object)

/-- There is a free slot. -/
def HasSpace (t : HandleTable α capacity) : Prop := ∃ index, t.data index = none

instance (t : HandleTable α capacity) : Decidable t.HasSpace :=
  decidable_of_iff (t.findNextAvailableSpot.isSome = true) (by
    rw [findNextAvailableSpot, List.find?_isSome]
    simp [HasSpace])

/-- How many slots are free. -/
def freeSlots (t : HandleTable α capacity) : ℕ :=
  (Finset.univ.filter fun index => (t.data index).isNone = true).card

theorem hasSpace_iff_freeSlots {t : HandleTable α capacity} :
    t.HasSpace ↔ 0 < t.freeSlots := by
  rw [freeSlots, Finset.card_pos]
  constructor
  · rintro ⟨index, hfree⟩
    exact ⟨index, by simp [hfree]⟩
  · rintro ⟨index, hfree⟩
    exact ⟨index, by simpa using hfree⟩

/-- An allocation uses up one free slot. -/
theorem freeSlots_of_allocateNewWithHandle {t t' : HandleTable α capacity} {make : Handle → α}
    {handle : Handle} (h : t.allocateNewWithHandle make = .ok (handle, t')) :
    t.freeSlots = t'.freeSlots + 1 := by
  unfold allocateNewWithHandle at h
  split at h
  · simp at h
  · rename_i index hspot
    simp only [Except.ok.injEq, Prod.mk.injEq] at h
    obtain ⟨rfl, rfl⟩ := h
    have hfree : index ∈ Finset.univ.filter fun index => (t.data index).isNone = true := by
      simpa using List.find?_some hspot
    rw [freeSlots, freeSlots, ← Finset.card_erase_add_one hfree]
    congr 2
    ext other
    by_cases hother : other = index
    · simp [hother]
    · simp [hother]

/-! ## Lookups -/

@[simp]
theorem get?_empty (handle : Handle) :
    (empty : HandleTable α capacity).get? handle = none := by
  unfold get? empty
  split_ifs <;> rfl

theorem get?_modify (t : HandleTable α capacity) (handle : Handle) (f : α → α)
    (other : Handle) :
    (t.modify handle f).get? other =
      if other = handle then (t.get? other).map f else t.get? other := by
  unfold get? modify
  by_cases hempty : other = emptyHandle
  · simp [hempty]
  · by_cases hlt : other < capacity
    · simp [hempty, hlt]
    · simp [hempty, hlt]

theorem get?_modify_of_ne (t : HandleTable α capacity) {handle other : Handle} (f : α → α)
    (h : other ≠ handle) : (t.modify handle f).get? other = t.get? other := by
  rw [get?_modify, if_neg h]

theorem get?_modify_self (t : HandleTable α capacity) {handle : Handle} {object : α}
    (f : α → α) (h : t.get? handle = some object) :
    (t.modify handle f).get? handle = some (f object) := by
  rw [get?_modify, if_pos rfl, h]
  rfl

theorem get?_release (t : HandleTable α capacity) (handle other : Handle) :
    (t.release handle).get? other = if other = handle then none else t.get? other := by
  unfold get? release
  by_cases hempty : other = emptyHandle
  · simp [hempty]
  · by_cases hlt : other < capacity
    · simp [hempty, hlt]
    · simp [hempty, hlt]

theorem lt_of_get? {t : HandleTable α capacity} {handle : Handle} {object : α}
    (h : t.get? handle = some object) : handle < capacity := by
  unfold get? at h
  split_ifs at h with hempty hlt
  exact hlt

variable (hcapacity : capacity ≤ emptyHandle)
include hcapacity

theorem get?_of_data (t : HandleTable α capacity) (index : Fin capacity) :
    t.get? index = t.data index := by
  have hne : index.val ≠ emptyHandle := (index.isLt.trans_le hcapacity).ne
  simp [get?, hne, index.isLt]

/-- An allocation puts the new object under a handle that was free and leaves
every other handle alone. -/
theorem allocateNewWithHandle_eq_ok {t t' : HandleTable α capacity} {make : Handle → α}
    {handle : Handle} (h : t.allocateNewWithHandle make = .ok (handle, t')) :
    t.get? handle = none ∧
      ∀ other, t'.get? other = if other = handle then some (make handle) else t.get? other := by
  unfold allocateNewWithHandle at h
  split at h
  · simp at h
  · rename_i index hspot
    simp only [Except.ok.injEq, Prod.mk.injEq] at h
    obtain ⟨rfl, rfl⟩ := h
    have hfree : t.data index = none := by
      simpa using List.find?_some hspot
    refine ⟨(get?_of_data hcapacity t index).trans hfree, fun other => ?_⟩
    by_cases hother : other = index.val
    · subst hother
      rw [if_pos rfl, get?_of_data hcapacity]
      exact Function.update_self ..
    · rw [if_neg hother]
      unfold get?
      split_ifs with hempty hlt
      · rfl
      · exact Function.update_of_ne (fun heq => hother (congrArg Fin.val heq)) ..
      · rfl

omit hcapacity in
/-- An allocation fails exactly when no slot is free, and it says so. -/
theorem allocateNewWithHandle_eq_error {t : HandleTable α capacity} {make : Handle → α}
    {thrown : Exception} :
    t.allocateNewWithHandle make = .error thrown ↔ thrown = .noSpace ∧ ¬ t.HasSpace := by
  unfold allocateNewWithHandle
  split
  · rename_i hspot
    have hfull : ¬ t.HasSpace := by
      rintro ⟨index, hfree⟩
      rw [findNextAvailableSpot, List.find?_eq_none] at hspot
      exact hspot index (List.mem_finRange index) (by simp [hfree])
    rw [and_iff_left hfull, Except.error.injEq]
    exact eq_comm
  · rename_i index hspot
    have hspace : t.HasSpace := ⟨index, by simpa using List.find?_some hspot⟩
    refine iff_of_false (fun h => ?_) fun h => h.2 hspace
    cases h

end HandleTable

end Obsr
