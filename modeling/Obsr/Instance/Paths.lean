/-
# Paths

A path is cut at its slashes in two ways: `get_or_create_object` goes from one slash to
the next, and `get_parent_path` and `get_path_name` look for the last one. On the paths
that names make they agree.
-/

import Obsr.Instance.ObjectTree

namespace Obsr

namespace Instance

variable {name above path : Text} {along : List Text}

theorem validName_iff : validName name = true ↔ name ≠ [] ∧ slash ∉ name := decide_eq_true_iff

/-! ## The last slash -/

theorem dropWhile_append_slash (h : slash ∉ name) (rest : Text) :
    (name ++ slash :: rest).dropWhile (· ≠ slash) = slash :: rest := by
  rw [List.dropWhile_append_of_pos, List.dropWhile_cons_of_neg (by simp)]
  intro byte hbyte
  exact decide_eq_true fun heq => h (heq ▸ hbyte)

theorem takeWhile_append_slash (h : slash ∉ name) (rest : Text) :
    (name ++ slash :: rest).takeWhile (· ≠ slash) = name := by
  rw [List.takeWhile_append_of_pos, List.takeWhile_cons_of_neg (by simp), List.append_nil]
  intro byte hbyte
  exact decide_eq_true fun heq => h (heq ▸ hbyte)

theorem reverse_append_slash (above name : Text) :
    (above ++ slash :: name).reverse = name.reverse ++ slash :: above.reverse := by
  rw [List.reverse_append, List.reverse_cons, List.append_assoc, List.singleton_append]

/-- The parent of a path with a name at its end. -/
theorem parentPath_append (h : slash ∉ name) (above : Text) :
    parentPath (above ++ slash :: name) = some above := by
  rw [parentPath, if_pos (by simp), reverse_append_slash,
    dropWhile_append_slash (by rwa [List.mem_reverse]), List.tail_cons, List.reverse_reverse]

theorem pathName_append (h : slash ∉ name) (above : Text) :
    pathName (above ++ slash :: name) = name := by
  rw [pathName, if_pos (by simp), reverse_append_slash,
    takeWhile_append_slash (by rwa [List.mem_reverse]), List.reverse_reverse]

/-! ## Every slash -/

theorem joined_nil : joined [] = [] := rfl

theorem joined_cons (name : Text) (others : List Text) :
    joined (name :: others) = slash :: (name ++ joined others) := by
  rw [joined, List.flatMap_cons]
  rfl

theorem joined_append (front back : List Text) :
    joined (front ++ back) = joined front ++ joined back := List.flatMap_append ..

theorem joined_concat (front : List Text) (name : Text) :
    joined (front ++ [name]) = joined front ++ slash :: name := by
  rw [joined_append, joined_cons, joined_nil, List.append_nil]

theorem names_of_not_mem (h : slash ∉ name) : names name = [name] := by
  induction name with
  | nil => rfl
  | cons byte rest ih =>
      obtain ⟨hbyte, hrest⟩ := not_or.mp (mt List.mem_cons.mpr h)
      rw [names, if_neg (Ne.symm hbyte), ih hrest]

theorem names_append (h : slash ∉ name) (rest : Text) :
    names (name ++ slash :: rest) = name :: names rest := by
  induction name with
  | nil => rw [List.nil_append, names, if_pos rfl]
  | cons byte others ih =>
      obtain ⟨hbyte, hothers⟩ := not_or.mp (mt List.mem_cons.mpr h)
      rw [List.cons_append, names, if_neg (Ne.symm hbyte), ih hothers]

/-- The names of a path along some names are these. -/
theorem names_joined {others : List Text} (h : ∀ n ∈ name :: others, slash ∉ n) :
    names (name ++ joined others) = name :: others := by
  induction others generalizing name with
  | nil =>
      rw [joined_nil, List.append_nil]
      exact names_of_not_mem (h name List.mem_cons_self)
  | cons next others ih =>
      rw [joined_cons, names_append (h name List.mem_cons_self),
        ih fun n hn => h n (List.mem_cons_of_mem _ hn)]

theorem not_mem_of_mem_names {rest : Text} (h : name ∈ names rest) : slash ∉ name := by
  induction rest generalizing name with
  | nil =>
      rw [names, List.mem_singleton] at h
      rw [h]
      exact List.not_mem_nil
  | cons byte rest ih =>
      rw [names] at h
      split_ifs at h with hbyte
      · rcases List.mem_cons.mp h with rfl | hrest
        · exact List.not_mem_nil
        · exact ih hrest
      · cases hnames : names rest with
        | nil => exact absurd hnames (names_ne_nil rest)
        | cons first others =>
            rw [hnames] at h ih
            rcases List.mem_cons.mp h with rfl | hothers
            · intro hmem
              rcases List.mem_cons.mp hmem with heq | hfirst
              · exact hbyte heq.symm
              · exact ih List.mem_cons_self hfirst
            · exact ih (List.mem_cons_of_mem _ hothers)

/-! ## Well-formed paths -/

/-- A path "/n1/.../nk" of one name at least, each of them non-empty and without a slash. -/
def WellFormed (path : Text) (along : List Text) : Prop :=
  along ≠ [] ∧ (∀ name ∈ along, validName name = true) ∧ path = joined along

/-- A path is well-formed along what the parser finds in it. -/
theorem WellFormed.names_eq (h : WellFormed path along) :
    ∃ rest, path = slash :: rest ∧ names rest = along := by
  obtain ⟨hne, hvalid, rfl⟩ := h
  cases along with
  | nil => exact absurd rfl hne
  | cons name others =>
      refine ⟨_, joined_cons name others, names_joined fun n hn => ?_⟩
      exact (validName_iff.mp (hvalid n hn)).2

end Instance

end Obsr
