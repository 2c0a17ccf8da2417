/-
# Slices of a flat array

Memory that is addressed by offset and length is a list: `slice l a b` is the
part from offset `a` up to offset `b`, and `overwrite l a new` is the list after
`new` was copied to offset `a`. Copying past the end is cut off at the end, so
that the length never changes; whether a copy stays inside is a separate
question that the users of this module ask explicitly.
-/

import Mathlib

namespace Obsr.Lib

universe u

variable {α : Type u}

/-- The cells from offset `a` up to, not including, offset `b`. -/
def slice (l : List α) (a b : ℕ) : List α := (l.drop a).take (b - a)

/-- Copy `new` to offset `a`; what does not fit is cut off. -/
def overwrite (l : List α) (a : ℕ) (new : List α) : List α :=
  (l.take a ++ new ++ l.drop (a + new.length)).take l.length

variable {l new : List α} {a b c n : ℕ}

@[simp]
theorem length_slice : (slice l a b).length = min (b - a) (l.length - a) := by
  simp [slice]

@[simp]
theorem length_overwrite : (overwrite l a new).length = l.length := by
  simp only [overwrite, List.length_take, List.length_append, List.length_drop]
  omega

@[simp]
theorem overwrite_nil : overwrite l a [] = l := by
  simp [overwrite]

@[simp]
theorem slice_self : slice l a a = [] := by
  simp [slice]

theorem slice_of_le (h : b ≤ a) : slice l a b = [] := by
  simp [slice, Nat.sub_eq_zero_of_le h]

theorem slice_zero : slice l 0 b = l.take b := by
  simp [slice]

/-- Neighbouring slices join. -/
theorem slice_append_slice (hab : a ≤ b) (hbc : b ≤ c) :
    slice l a b ++ slice l b c = slice l a c := by
  have hsplit : c - a = (b - a) + (c - b) := by omega
  have hstart : b = a + (b - a) := by omega
  rw [slice, slice, slice, hsplit, List.take_add, List.drop_drop, ← hstart]

/-- The first cells of a slice are the slice that ends earlier. -/
theorem take_slice (h : a + n ≤ b) : (slice l a b).take n = slice l a (a + n) := by
  rw [slice, slice, List.take_take]
  congr 1
  omega

/-- What follows the first cells of a slice is the slice that starts later. -/
theorem drop_slice : (slice l a b).drop n = slice l (a + n) b := by
  rw [slice, slice, List.drop_take, List.drop_drop]
  congr 1
  omega

theorem overwrite_eq (h : a + new.length ≤ l.length) :
    overwrite l a new = l.take a ++ new ++ l.drop (a + new.length) := by
  rw [overwrite, List.take_of_length_le]
  simp only [List.length_append, List.length_take, List.length_drop]
  omega

/-- The cells just copied are read back. -/
theorem slice_overwrite_self (h : a + new.length ≤ l.length) :
    slice (overwrite l a new) a (a + new.length) = new := by
  have hlen : (l.take a).length = a := by
    simp only [List.length_take]
    omega
  rw [overwrite_eq h, slice, List.append_assoc]
  rw [List.drop_append_of_le_length (by omega), List.drop_of_length_le (by omega)]
  simp

/-- A copy leaves the cells before it alone. -/
theorem slice_overwrite_before (h : a + new.length ≤ l.length) (hca : c ≤ a) :
    slice (overwrite l a new) b c = slice l b c := by
  rcases Nat.lt_or_ge b c with hbc | hbc
  · have hlen : (l.take a).length = a := by
      simp only [List.length_take]
      omega
    rw [overwrite_eq h, slice, slice, List.append_assoc,
      List.drop_append_of_le_length (by omega), List.take_append_of_le_length (by
        simp only [List.length_drop]
        omega)]
    rw [List.drop_take, List.take_take]
    congr 1
    omega
  · rw [slice_of_le hbc, slice_of_le hbc]

/-- A copy leaves the cells after it alone. -/
theorem slice_overwrite_after (h : a + new.length ≤ l.length)
    (hab : a + new.length ≤ b) : slice (overwrite l a new) b c = slice l b c := by
  have hlen : (l.take a ++ new).length = a + new.length := by
    simp only [List.length_append, List.length_take]
    omega
  have hback : a + new.length + (b - (a + new.length)) = b := by omega
  rw [overwrite_eq h, slice, slice]
  rw [List.drop_append, hlen, List.drop_of_length_le (by omega), List.nil_append,
    List.drop_drop, hback]

end Obsr.Lib
