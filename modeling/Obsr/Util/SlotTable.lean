/-
# The slots of a handle table

A `HandleTable` is what the users of `handle_table` see. Behind it are a counter, an
iterator that skips the free slots, and a search for a free slot that counts in `int` while
the capacity is a `size_t`. The skip loop reads a slot before it compares the index with
the capacity, so it also reads behind the last one; what such a read yields is a parameter.

A table of any capacity is the partial map it is meant to be until its first `2 ^ 31` slots
are all taken.
-/

import Obsr.Lib.Run
import Obsr.Util.HandleTable

namespace Obsr

open Obsr.Lib

/-- The largest `int`. -/
def intMax : ℕ := 2 ^ 31 - 1

/-- `m_data` and `m_count`. -/
structure SlotTable (α : Type) (capacity : ℕ) where
  data : Fin capacity → Option α
  count : ℕ

namespace SlotTable

variable {α : Type} {capacity : ℕ}

def empty : SlotTable α capacity where
  data _ := none
  count := 0

/-! ## Handles -/

/-- What is in the slots. -/
def objects (t : SlotTable α capacity) (handle : Handle) : Option α :=
  if h : handle < capacity then t.data ⟨handle, h⟩ else none

def has (t : SlotTable α capacity) (handle : Handle) : Bool :=
  if handle = emptyHandle then false
  else if handle ≥ capacity then false
  else (t.objects handle).isSome

/-- `operator[]`, with the pointer it returns. -/
def get (t : SlotTable α capacity) (handle : Handle) : Except Exception (Option α) :=
  if t.has handle then .ok (t.objects handle) else .error (.noSuchHandle handle)

/-- How `find_next_available_spot` ends; it returns -1 if all slots are taken. -/
inductive Search
  | spot (index : ℕ)
  | full
  /-- The largest `int` is incremented. -/
  | overflow
  deriving DecidableEq, Repr

/-- The loop of `find_next_available_spot`. -/
def findFrom (t : SlotTable α capacity) (i : ℕ) : Search :=
  if i < capacity then
    if (t.objects i).isNone then .spot i
    else if i = intMax then .overflow
    else t.findFrom (i + 1)
  else .full
termination_by capacity - i

def findNextAvailableSpot (t : SlotTable α capacity) : Search := t.findFrom 0

def write (t : SlotTable α capacity) (index : ℕ) (slot : Option α) (count : ℕ) :
    SlotTable α capacity where
  data i := if i.val = index then slot else t.data i
  count := count

/-- `allocate_new_with_handle`; there is no outcome behind an overflow. -/
def allocateNewWithHandle (t : SlotTable α capacity) (make : Handle → α) :
    Option (SlotTable α capacity × Except Exception Handle) :=
  match t.findNextAvailableSpot with
  | .overflow => none
  | .full => some (t, .error .noSpace)
  | .spot index =>
      let handle := index % 2 ^ 32
      some (t.write index (some (make handle)) (t.count + 1), .ok handle)

def allocateNew (t : SlotTable α capacity) (object : α) :
    Option (SlotTable α capacity × Except Exception Handle) :=
  t.allocateNewWithHandle fun _ => object

def release (t : SlotTable α capacity) (handle : Handle) :
    SlotTable α capacity × Except Exception (Option α) :=
  if t.has handle then (t.write handle none (t.count - 1), .ok (t.objects handle))
  else (t, .error (.noSuchHandle handle))

/-! ## Iteration -/

/-- `m_ptr`, as the offset of what it points to, and `m_index`. -/
structure Iterator where
  ptr : ℕ
  index : ℕ
  deriving DecidableEq, Repr

/-- Whether a pointer is read as not null. -/
def read (t : SlotTable α capacity) (past : ℕ → Bool) (position : ℕ) : Bool :=
  if position < capacity then (t.objects position).isSome else past position

/-- Where the loop of `iterate_to_next_element` stops, after it has counted up to an
index. -/
def skip (t : SlotTable α capacity) (past : ℕ → Bool) (ptr index : ℕ) : ℕ :=
  if !t.read past (ptr + index) ∧ index < capacity then t.skip past ptr (index + 1) else index
termination_by capacity - index

def iterateToNextElement (t : SlotTable α capacity) (past : ℕ → Bool) (it : Iterator) :
    Iterator :=
  { it with index := t.skip past it.ptr (it.index + 1) }

/-- The constructor of the iterator. -/
def iteratorAt (t : SlotTable α capacity) (past : ℕ → Bool) (ptr index : ℕ) : Iterator :=
  if !t.read past (ptr + index) ∧ index < capacity then
    t.iterateToNextElement past ⟨ptr, index⟩
  else ⟨ptr, index⟩

/-- A loop from an iterator to the end of the table, with what it visits; without one it
looks at a slot without an object, or it does not stop in so many turns. -/
def visitsFrom (t : SlotTable α capacity) (past : ℕ → Bool) :
    ℕ → Iterator → Option (List (Handle × α))
  | 0, _ => none
  | turns + 1, it =>
      if it.index = (t.iteratorAt past capacity capacity).index then some []
      else
        match t.objects (it.ptr + it.index) with
        | none => none
        | some object =>
            (t.visitsFrom past turns (t.iterateToNextElement past it)).map
              ((it.index % 2 ^ 32, object) :: ·)

/-- A loop over the table. -/
def visits (t : SlotTable α capacity) (past : ℕ → Bool) : Option (List (Handle × α)) :=
  t.visitsFrom past (capacity + 1) (t.iteratorAt past 0 0)

/-! ## The partial map -/

/-- How many handles below a bound are live. -/
def occupied (bound : ℕ) (objects : Handle → Option α) : ℕ :=
  ((Finset.range bound).filter fun handle => (objects handle).isSome = true).card

/-- The table is a partial map on the handles below its capacity, with the least free one
allocated next. -/
structure Exact (t : SlotTable α capacity) : Prop where
  allocate : ∀ make : Handle → α,
    (∃ handle t', t.allocateNewWithHandle make = some (t', .ok handle) ∧
        IsLeast {free | free < capacity ∧ t.objects free = none} handle ∧
        t'.objects = Function.update t.objects handle (some (make handle))) ∨
      (∀ handle < capacity, t.objects handle ≠ none) ∧
        t.allocateNewWithHandle make = some (t, .error .noSpace)
  release : ∀ handle,
    (∀ object, t.objects handle = some object →
        ∃ t', t.release handle = (t', .ok (some object)) ∧
          t'.objects = Function.update t.objects handle none) ∧
      (t.objects handle = none → t.release handle = (t, .error (.noSuchHandle handle)))
  has : ∀ handle, t.has handle = true ↔ t.objects handle ≠ none
  get : ∀ handle,
    (∀ object, t.objects handle = some object → t.get handle = .ok (some object)) ∧
      (t.objects handle = none → t.get handle = .error (.noSuchHandle handle))
  count : t.count = occupied capacity t.objects
  iterate : ∀ past, ∃ visited, t.visits past = some visited ∧
    (visited.map Prod.fst).Pairwise (· < ·) ∧
    ∀ handle object, (handle, object) ∈ visited ↔ t.objects handle = some object

inductive Op (α : Type)
  | allocateNew (object : α)
  | allocateNewWithHandle (make : Handle → α)
  | release (handle : Handle)

/-- The table after an operation; it stays where there is no outcome. -/
def step (t : SlotTable α capacity) : Op α → SlotTable α capacity
  | .allocateNew object => ((t.allocateNew object).getD (t, .error .noSpace)).1
  | .allocateNewWithHandle make => ((t.allocateNewWithHandle make).getD (t, .error .noSpace)).1
  | .release handle => (t.release handle).1

/-- An `int` is enough to find a free slot, or to see that there is none. -/
def SearchEnds (t : SlotTable α capacity) : Prop :=
  capacity ≤ intMax ∨ ∃ handle ≤ intMax, t.objects handle = none

variable {t : SlotTable α capacity} {handle : Handle} {object : α}

/-! ## The search -/

/-- The search ends at the least free slot, or at the capacity, or at the largest `int`. -/
theorem findFrom_cases {i : ℕ} (hi : i ≤ intMax) (hlive : ∀ j < i, t.objects j ≠ none) :
    (∃ index ≤ intMax, t.findFrom i = .spot index ∧
        IsLeast {free | free < capacity ∧ t.objects free = none} index) ∨
      (t.findFrom i = .full ∧ capacity ≤ intMax ∧
        ∀ handle < capacity, t.objects handle ≠ none) ∨
      (t.findFrom i = .overflow ∧ intMax < capacity ∧
        ∀ handle ≤ intMax, t.objects handle ≠ none) := by
  fun_induction findFrom t i with
  | case1 i hlt hfree =>
      refine .inl ⟨i, hi, rfl, ⟨hlt, Option.isNone_iff_eq_none.mp hfree⟩, ?_⟩
      rintro free ⟨-, hnone⟩
      by_contra hless
      exact hlive free (not_le.mp hless) hnone
  | case2 hlt hfree =>
      refine .inr (.inr ⟨rfl, hlt, fun handle hle => ?_⟩)
      rcases hle.lt_or_eq with hless | rfl
      · exact hlive handle hless
      · simpa using hfree
  | case3 i hlt hfree hne ih =>
      refine ih (by omega) fun j hj => ?_
      rcases (Nat.le_of_lt_succ hj).lt_or_eq with hless | rfl
      · exact hlive j hless
      · simpa using hfree
  | case4 i hge =>
      refine .inr (.inl ⟨rfl, by omega, fun handle hlt => hlive handle (by omega)⟩)

/-! ## Slots -/

theorem lt_of_objects (h : t.objects handle = some object) : handle < capacity := by
  rw [objects] at h
  split_ifs at h with hlt
  exact hlt

theorem objects_write (t : SlotTable α capacity) {index : ℕ} (h : index < capacity)
    (slot : Option α) (count : ℕ) :
    (t.write index slot count).objects = Function.update t.objects index slot := by
  funext other
  by_cases hother : other = index
  · subst hother
    rw [Function.update_self, objects, dif_pos h]
    exact if_pos rfl
  · rw [Function.update_of_ne hother, objects, objects]
    split_ifs
    · exact if_neg hother
    · rfl

theorem occupied_update_some {bound : ℕ} {objects : Handle → Option α} (hlt : handle < bound)
    (hfree : objects handle = none) (object : α) :
    occupied bound (Function.update objects handle (some object)) =
      occupied bound objects + 1 := by
  have hnot : handle ∉ (Finset.range bound).filter fun other => (objects other).isSome = true := by
    simp [hfree]
  rw [occupied, occupied, ← Finset.card_insert_of_notMem hnot]
  congr 1
  ext other
  by_cases hother : other = handle
  · simp [hother, hlt]
  · simp [hother]

theorem occupied_update_none {bound : ℕ} {objects : Handle → Option α} (hlt : handle < bound)
    (hlive : objects handle = some object) :
    occupied bound objects = occupied bound (Function.update objects handle none) + 1 := by
  rw [← occupied_update_some hlt (Function.update_self ..) object, Function.update_idem,
    ← hlive, Function.update_eq_self]

/-- The handles are numbers an `int` can be, and the counter counts them. -/
structure Valid (t : SlotTable α capacity) : Prop where
  bounded : ∀ handle, t.objects handle ≠ none → handle ≤ intMax
  count : t.count = occupied capacity t.objects

theorem valid_empty : (empty : SlotTable α capacity).Valid := by
  have hnone : ∀ handle, (empty : SlotTable α capacity).objects handle = none := by
    intro handle
    rw [objects]
    split_ifs <;> rfl
  refine ⟨fun handle hlive => absurd (hnone handle) hlive, ?_⟩
  rw [occupied, Finset.filter_false_of_mem fun handle _ => by simp [hnone]]
  rfl

theorem has_iff (h : t.Valid) (handle : Handle) :
    t.has handle = true ↔ t.objects handle ≠ none := by
  rw [has]
  split_ifs with hempty hcapacity
  · refine iff_of_false id fun hlive => ?_
    have hbound := h.bounded handle hlive
    rw [hempty] at hbound
    exact absurd hbound (by decide)
  · refine iff_of_false id fun hlive => ?_
    obtain ⟨object, hobject⟩ := Option.ne_none_iff_exists'.mp hlive
    exact absurd (lt_of_objects hobject) (not_lt.mpr hcapacity)
  · exact Option.isSome_iff_ne_none

/-! ## Operations -/

theorem allocate_spot (h : t.Valid) {index : ℕ} (hle : index ≤ intMax)
    (hspot : t.findNextAvailableSpot = .spot index)
    (hleast : IsLeast {free | free < capacity ∧ t.objects free = none} index)
    (make : Handle → α) :
    ∃ t', t.allocateNewWithHandle make = some (t', .ok index) ∧
      t'.objects = Function.update t.objects index (some (make index)) ∧ t'.Valid := by
  have hcast : index % 2 ^ 32 = index := Nat.mod_eq_of_lt (hle.trans_lt (by decide))
  obtain ⟨hlt, hfree⟩ := hleast.1
  refine ⟨t.write index (some (make index)) (t.count + 1), ?_, objects_write t hlt _ _, ?_⟩
  · rw [allocateNewWithHandle, hspot]
    dsimp only
    rw [hcast]
  · refine ⟨fun other hother => ?_, ?_⟩
    · rw [objects_write t hlt] at hother
      by_cases heq : other = index
      · exact heq ▸ hle
      · rw [Function.update_of_ne heq] at hother
        exact h.bounded other hother
    · rw [objects_write t hlt, occupied_update_some hlt hfree, ← h.count]
      rfl

theorem release_live (h : t.Valid) (hlive : t.objects handle = some object) :
    ∃ t', t.release handle = (t', .ok (some object)) ∧
      t'.objects = Function.update t.objects handle none ∧ t'.Valid := by
  have hhas : t.has handle = true := (has_iff h handle).mpr (by rw [hlive]; simp)
  have hlt := lt_of_objects hlive
  refine ⟨t.write handle none (t.count - 1), ?_, objects_write t hlt _ _, ?_⟩
  · rw [release, if_pos hhas, hlive]
  · refine ⟨fun other hother => ?_, ?_⟩
    · rw [objects_write t hlt] at hother
      refine h.bounded other fun hnone => hother ?_
      by_cases heq : other = handle
      · rw [heq, Function.update_self]
      · rw [Function.update_of_ne heq, hnone]
    · rw [objects_write t hlt]
      show t.count - 1 = _
      rw [h.count, occupied_update_none hlt hlive, Nat.add_sub_cancel]

theorem release_missing (h : t.Valid) (hnone : t.objects handle = none) :
    t.release handle = (t, .error (.noSuchHandle handle)) := by
  rw [release, if_neg]
  rw [has_iff h, hnone]
  simp

theorem Valid.allocate (h : t.Valid) (make : Handle → α) :
    ((t.allocateNewWithHandle make).getD (t, .error .noSpace)).1.Valid := by
  rcases findFrom_cases (t := t) (Nat.zero_le _) (fun j hj => absurd hj (Nat.not_lt_zero j)) with
    ⟨index, hle, hspot, hleast⟩ | ⟨hfull, -⟩ | ⟨hover, -⟩
  · obtain ⟨t', heq, -, hvalid⟩ := allocate_spot h hle hspot hleast make
    rw [heq]
    exact hvalid
  · rw [allocateNewWithHandle, findNextAvailableSpot, hfull]
    exact h
  · rw [allocateNewWithHandle, findNextAvailableSpot, hover]
    exact h

theorem Valid.step (h : t.Valid) (op : Op α) : (t.step op).Valid := by
  cases op with
  | allocateNew object => exact h.allocate _
  | allocateNewWithHandle make => exact h.allocate make
  | release handle =>
      show (t.release handle).1.Valid
      cases hobject : t.objects handle with
      | none =>
          rw [release_missing h hobject]
          exact h
      | some object =>
          obtain ⟨t', heq, -, hvalid⟩ := release_live h hobject
          rw [heq]
          exact hvalid

theorem valid_foldl (ops : List (Op α)) :
    (ops.foldl step (empty : SlotTable α capacity)).Valid :=
  foldl_of_invariant (fun _ op h => h.step op) valid_empty ops

/-! ## Loops over the table -/

/-- The live handles from an index on, in order. -/
def liveFrom (t : SlotTable α capacity) (index : ℕ) : List (Handle × α) :=
  (List.range' index (capacity - index)).filterMap fun handle =>
    (t.objects handle).map fun object => (handle, object)

theorem liveFrom_of_lt {index : ℕ} (h : index < capacity) :
    t.liveFrom index =
      ((t.objects index).map fun object => (index, object)).toList ++ t.liveFrom (index + 1) := by
  have hlength : capacity - index = capacity - (index + 1) + 1 := by omega
  rw [liveFrom, liveFrom, hlength, List.range'_succ, List.filterMap_cons]
  cases t.objects index <;> rfl

theorem liveFrom_capacity : t.liveFrom capacity = [] := by
  rw [liveFrom, Nat.sub_self]
  rfl

/-- The loop stops when the capacity is reached, whatever the slot there is read as. -/
theorem skip_capacity (t : SlotTable α capacity) (past : ℕ → Bool) (ptr : ℕ) :
    t.skip past ptr capacity = capacity := by
  rw [skip, if_neg fun hboth => lt_irrefl _ hboth.2]

theorem skip_of_none (past : ℕ → Bool) {index : ℕ} (hlt : index < capacity)
    (hnone : t.objects index = none) : t.skip past 0 index = t.skip past 0 (index + 1) := by
  rw [skip, if_pos]
  rw [read, Nat.zero_add, if_pos hlt, hnone]
  exact ⟨rfl, hlt⟩

theorem skip_of_some (past : ℕ → Bool) {index : ℕ} (hlive : t.objects index = some object) :
    t.skip past 0 index = index := by
  rw [skip, if_neg]
  rw [read, Nat.zero_add, if_pos (lt_of_objects hlive), hlive]
  exact fun hboth => Bool.false_ne_true hboth.1

theorem iteratorAt_begin (t : SlotTable α capacity) (past : ℕ → Bool) :
    t.iteratorAt past 0 0 = ⟨0, t.skip past 0 0⟩ := by
  by_cases hskips : (!t.read past (0 + 0)) = true ∧ 0 < capacity
  · have hnext : t.skip past 0 0 = t.skip past 0 1 := by rw [skip, if_pos hskips]
    rw [iteratorAt, if_pos hskips, hnext]
    rfl
  · have hstays : t.skip past 0 0 = 0 := by rw [skip, if_neg hskips]
    rw [iteratorAt, if_neg hskips, hstays]

theorem iteratorAt_end (t : SlotTable α capacity) (past : ℕ → Bool) :
    (t.iteratorAt past capacity capacity).index = capacity := by
  rw [iteratorAt, if_neg fun hboth => lt_irrefl _ hboth.2]

/-- With a turn for every slot that is left and one for the end, a loop visits the live
handles from where it is. -/
theorem visitsFrom_eq (h : t.Valid) (past : ℕ → Bool) {index turns : ℕ} (hle : index ≤ capacity)
    (hturns : capacity < index + turns) :
    t.visitsFrom past turns ⟨0, t.skip past 0 index⟩ = some (t.liveFrom index) := by
  induction hleft : capacity - index generalizing index turns with
  | zero =>
      obtain rfl : index = capacity := by omega
      obtain ⟨rest, rfl⟩ := Nat.exists_eq_succ_of_ne_zero (n := turns) (by omega)
      rw [skip_capacity, visitsFrom, if_pos (iteratorAt_end t past).symm, liveFrom_capacity]
  | succ left ih =>
      have hlt : index < capacity := by omega
      rw [liveFrom_of_lt hlt]
      cases hobject : t.objects index with
      | none =>
          rw [skip_of_none past hlt hobject]
          exact ih hlt (by omega) (by omega)
      | some object =>
          obtain ⟨rest, rfl⟩ := Nat.exists_eq_succ_of_ne_zero (n := turns) (by omega)
          have hrest := @ih (index + 1) rest hlt (by omega) (by omega)
          have hbound : index ≤ intMax := h.bounded index (by rw [hobject]; simp)
          have hcast : index % 2 ^ 32 = index := Nat.mod_eq_of_lt (hbound.trans_lt (by decide))
          rw [skip_of_some past hobject, visitsFrom, iteratorAt_end, if_neg hlt.ne]
          dsimp only
          rw [Nat.zero_add, hobject]
          dsimp only
          rw [iterateToNextElement, hrest, hcast]
          rfl

theorem visits_eq (h : t.Valid) (past : ℕ → Bool) : t.visits past = some (t.liveFrom 0) := by
  rw [visits, iteratorAt_begin]
  exact visitsFrom_eq h past (Nat.zero_le _) (by omega)

theorem mem_liveFrom_zero (t : SlotTable α capacity) (handle : Handle) (object : α) :
    (handle, object) ∈ t.liveFrom 0 ↔ t.objects handle = some object := by
  rw [liveFrom, List.mem_filterMap]
  constructor
  · rintro ⟨index, -, hindex⟩
    obtain ⟨found, hfound, heq⟩ := Option.map_eq_some_iff.mp hindex
    obtain ⟨rfl, rfl⟩ := Prod.mk.inj heq
    exact hfound
  · intro hobject
    refine ⟨handle, ?_, by rw [hobject]; rfl⟩
    have hlt := lt_of_objects hobject
    rw [List.mem_range'_1, Nat.zero_add, Nat.sub_zero]
    exact ⟨Nat.zero_le handle, hlt⟩

theorem pairwise_liveFrom (t : SlotTable α capacity) (index : ℕ) :
    ((t.liveFrom index).map Prod.fst).Pairwise (· < ·) := by
  rw [liveFrom, List.map_filterMap]
  refine List.Pairwise.filterMap _ ?_ List.pairwise_lt_range'
  intro first second hlt first' hfirst second' hsecond
  simp only [Option.map_map, Option.map_eq_some_iff] at hfirst hsecond
  obtain ⟨_, -, rfl⟩ := hfirst
  obtain ⟨_, -, rfl⟩ := hsecond
  exact hlt

/-! ## What is exact -/

theorem Valid.exact_iff (h : t.Valid) : t.Exact ↔ t.SearchEnds := by
  have hcases := findFrom_cases (t := t) (Nat.zero_le _) fun j hj => absurd hj (Nat.not_lt_zero j)
  constructor
  · intro hexact
    by_contra hends
    obtain ⟨hlarge, hlive⟩ := not_or.mp hends
    push Not at hlarge hlive
    obtain ⟨object, -⟩ := Option.ne_none_iff_exists'.mp (hlive 0 (Nat.zero_le _))
    have hover : t.findFrom 0 = .overflow := by
      rcases hcases with ⟨index, hle, -, hleast⟩ | ⟨-, hsmall, -⟩ | ⟨hover, -⟩
      · exact absurd hleast.1.2 (hlive index hle)
      · omega
      · exact hover
    have hnothing : t.allocateNewWithHandle (fun _ => object) = none := by
      rw [allocateNewWithHandle, findNextAvailableSpot, hover]
    rcases hexact.allocate fun _ => object with ⟨handle, t', heq, -⟩ | ⟨-, heq⟩
    · rw [hnothing] at heq
      cases heq
    · rw [hnothing] at heq
      cases heq
  · intro hends
    refine ⟨fun make => ?_, fun handle => ⟨fun object hlive => ?_, release_missing h⟩, has_iff h,
      fun handle => ⟨fun object hlive => ?_, fun hnone => ?_⟩, h.count, fun past => ?_⟩
    · rcases hcases with ⟨index, hle, hspot, hleast⟩ | ⟨hfull, -, hlive⟩ | ⟨-, hlarge, hlive⟩
      · obtain ⟨t', heq, hobjects, -⟩ := allocate_spot h hle hspot hleast make
        exact .inl ⟨index, t', heq, hleast, hobjects⟩
      · refine .inr ⟨hlive, ?_⟩
        rw [allocateNewWithHandle, findNextAvailableSpot, hfull]
      · rcases hends with hsmall | ⟨handle, hle, hnone⟩
        · omega
        · exact absurd hnone (hlive handle hle)
    · obtain ⟨t', heq, hobjects, -⟩ := release_live h hlive
      exact ⟨t', heq, hobjects⟩
    · rw [get, if_pos ((has_iff h handle).mpr (by rw [hlive]; simp)), hlive]
    · rw [get, if_neg]
      rw [has_iff h, hnone]
      simp
    · exact ⟨t.liveFrom 0, visits_eq h past, pairwise_liveFrom t 0, mem_liveFrom_zero t⟩

/-- In every state of a run the table is the partial map it is meant to be exactly if its
capacity is an `int`, or one of the first `2 ^ 31` slots is free. -/
theorem exact_iff_searchEnds (capacity : ℕ) (ops : List (Op α)) :
    HoldsThroughout step Exact (empty : SlotTable α capacity) ops ↔
      HoldsThroughout step SearchEnds (empty : SlotTable α capacity) ops := by
  rw [holdsThroughout_iff_forall, holdsThroughout_iff_forall]
  exact forall_congr' fun before => imp_congr_right fun _ => (valid_foldl before).exact_iff

/-! ## The table its users see -/

def toHandleTable (t : SlotTable α capacity) : HandleTable α capacity := ⟨t.data⟩

/-- A `HandleTable` with the same slots answers and goes on in the same way. -/
structure Refines (t : SlotTable α capacity) : Prop where
  get : ∀ handle, t.toHandleTable.get? handle = t.objects handle
  allocate : ∀ make, (t.allocateNewWithHandle make).map (fun after =>
      after.2.map fun handle => (handle, after.1.toHandleTable)) =
    some (t.toHandleTable.allocateNewWithHandle make)
  release : ∀ handle, (t.release handle).1.toHandleTable = t.toHandleTable.release handle
  visits : ∀ past, t.visits past = some t.toHandleTable.toList

theorem data_eq_objects (t : SlotTable α capacity) (index : Fin capacity) :
    t.data index = t.objects index := by
  rw [objects, dif_pos index.isLt]

theorem Valid.get?_toHandleTable (h : t.Valid) (handle : Handle) :
    t.toHandleTable.get? handle = t.objects handle := by
  rw [HandleTable.get?, objects]
  split_ifs with hempty hlt hlt
  · by_contra hlive
    have hbound := h.bounded handle
    rw [objects, dif_pos hlt] at hbound
    exact absurd (hempty ▸ hbound (Ne.symm hlive)) (by decide)
  · rfl
  · rfl
  · rfl

/-- The first free slot in the order of the slots is the least one. -/
theorem findNextAvailableSpot_toHandleTable {index : ℕ}
    (hleast : IsLeast {free | free < capacity ∧ t.objects free = none} index) :
    t.toHandleTable.findNextAvailableSpot = some ⟨index, hleast.1.1⟩ := by
  rw [HandleTable.findNextAvailableSpot, List.find?_eq_some_iff_getElem]
  refine ⟨?_, index, by simpa using hleast.1.1, by simp, fun j hj => ?_⟩
  · show (t.data ⟨index, hleast.1.1⟩).isNone = true
    rw [data_eq_objects, hleast.1.2]
    rfl
  · rw [List.getElem_finRange]
    show (!(t.data ⟨j, hj.trans hleast.1.1⟩).isNone) = true
    rw [data_eq_objects, Bool.not_eq_true', Option.isNone_eq_false_iff, Option.isSome_iff_ne_none]
    intro hfree
    exact (hleast.2 ⟨hj.trans hleast.1.1, hfree⟩).not_gt hj

theorem Valid.allocate_toHandleTable (h : t.Valid) (hends : t.SearchEnds) (make : Handle → α) :
    (t.allocateNewWithHandle make).map (fun after =>
        after.2.map fun handle => (handle, after.1.toHandleTable)) =
      some (t.toHandleTable.allocateNewWithHandle make) := by
  rcases findFrom_cases (t := t) (Nat.zero_le _) fun j hj => absurd hj (Nat.not_lt_zero j) with
    ⟨index, hle, hspot, hleast⟩ | ⟨hfull, -, hlive⟩ | ⟨-, hlarge, hlive⟩
  · obtain ⟨t', heq, hobjects, -⟩ := allocate_spot h hle hspot hleast make
    have htable : t'.toHandleTable =
        ⟨Function.update t.data ⟨index, hleast.1.1⟩ (some (make index))⟩ := by
      rw [toHandleTable]
      congr 1
      funext other
      rw [data_eq_objects, hobjects]
      by_cases hother : other = ⟨index, hleast.1.1⟩
      · rw [hother, Function.update_self, Function.update_self]
      · rw [Function.update_of_ne hother, Function.update_of_ne fun heq => hother (Fin.ext heq),
          data_eq_objects]
    rw [heq, HandleTable.allocateNewWithHandle, findNextAvailableSpot_toHandleTable hleast]
    exact congrArg (fun table => some (Except.ok (index, table))) htable
  · have hspace : ¬ t.toHandleTable.HasSpace := by
      rintro ⟨index, hfree⟩
      exact hlive index index.isLt ((data_eq_objects t index).symm.trans hfree)
    rw [allocateNewWithHandle, findNextAvailableSpot, hfull,
      HandleTable.allocateNewWithHandle_eq_error.mpr ⟨rfl, hspace⟩]
    rfl
  · rcases hends with hsmall | ⟨handle, hle, hnone⟩
    · omega
    · exact absurd hnone (hlive handle hle)

theorem Valid.release_toHandleTable (h : t.Valid) (handle : Handle) :
    (t.release handle).1.toHandleTable = t.toHandleTable.release handle := by
  rw [toHandleTable, HandleTable.release]
  congr 1
  funext index
  cases hobject : t.objects handle with
  | none =>
      rw [release_missing h hobject]
      show t.data index = if index.val = handle then none else t.data index
      split_ifs with hindex
      · rw [data_eq_objects, hindex, hobject]
      · rfl
  | some object =>
      have hhas : t.has handle = true := (has_iff h handle).mpr (by rw [hobject]; simp)
      rw [release, if_pos hhas]
      rfl

theorem toList_toHandleTable (t : SlotTable α capacity) :
    t.toHandleTable.toList = t.liveFrom 0 := by
  rw [liveFrom, Nat.sub_zero, ← List.range_eq_range', ← List.map_coe_finRange_eq_range,
    List.filterMap_map, HandleTable.toList]
  refine List.filterMap_congr fun index _ => ?_
  show (t.data index).map _ = (t.objects index).map _
  rw [data_eq_objects]

/-- A table whose capacity is an `int` is a `HandleTable`, after any operations. -/
theorem refines_handleTable (hcapacity : capacity ≤ intMax) (ops : List (Op α)) :
    (ops.foldl step (empty : SlotTable α capacity)).Refines where
  get := (valid_foldl ops).get?_toHandleTable
  allocate := (valid_foldl ops).allocate_toHandleTable (.inl hcapacity)
  release := (valid_foldl ops).release_toHandleTable
  visits past := by rw [visits_eq (valid_foldl ops), toList_toHandleTable]

/-! ## Tables whose capacity is no `int` -/

/-- So many allocations take so many slots, the first ones. -/
theorem live_of_allocations (object : α) {n : ℕ} (hn : n ≤ intMax + 1) (hcapacity : n ≤ capacity)
    (handle : Handle) :
    ((List.replicate n (Op.allocateNew object)).foldl step
      (empty : SlotTable α capacity)).objects handle ≠ none ↔ handle < n := by
  induction n generalizing handle with
  | zero =>
      refine iff_of_false (fun hlive => hlive ?_) (Nat.not_lt_zero handle)
      rw [objects]
      split_ifs <;> rfl
  | succ n ih =>
      have hvalid : ((List.replicate n (Op.allocateNew object)).foldl step
        (empty : SlotTable α capacity)).Valid := valid_foldl _
      rw [List.replicate_succ', List.foldl_append]
      have hlive := ih (by omega) (by omega)
      generalize (List.replicate n (Op.allocateNew object)).foldl step
        (empty : SlotTable α capacity) = t at hlive hvalid
      have hfree : t.objects n = none := by
        by_contra hnot
        exact lt_irrefl n ((hlive n).mp hnot)
      rcases findFrom_cases (t := t) (Nat.zero_le _) fun j hj => absurd hj (Nat.not_lt_zero j) with
        ⟨index, hle, hspot, hleast⟩ | ⟨-, -, hfull⟩ | ⟨-, -, hfull⟩
      · have hindex : index = n := by
          refine le_antisymm (hleast.2 ⟨hcapacity, hfree⟩) (not_lt.mp fun hlt => ?_)
          exact (hlive index).mpr hlt hleast.1.2
        obtain ⟨t', heq, hobjects, -⟩ := allocate_spot hvalid hle hspot hleast fun _ => object
        have hstep : t.step (.allocateNew object) = t' := by
          rw [step, allocateNew, heq]
          rfl
        rw [List.foldl_cons, List.foldl_nil, hstep, hobjects, hindex, Nat.lt_succ_iff_lt_or_eq]
        by_cases hhandle : handle = n
        · simp [hhandle]
        · rw [Function.update_of_ne hhandle, hlive handle, or_iff_left hhandle]
      · exact absurd hfree (hfull n hcapacity)
      · exact absurd hfree (hfull n (by omega))

/-- A table of `2 ^ 31` slots that are all taken: the search for a free one overflows. -/
theorem not_exact_full :
    ¬ HoldsThroughout step Exact (empty : SlotTable Unit (intMax + 1))
      (List.replicate (intMax + 1) (.allocateNew ())) := by
  intro hall
  rcases (valid_foldl _).exact_iff.mp hall.last with hsmall | ⟨handle, hle, hnone⟩
  · exact absurd hsmall (by decide)
  · exact (live_of_allocations () le_rfl le_rfl handle).mpr (Nat.lt_succ_of_le hle) hnone

end SlotTable

end Obsr
