/-
# A register of the last writer

A register keeps the last value written to it with the time of its last change,
and drops what is older than that. To erase an empty register changes nothing, its
time included, so a write older than such an erasure still goes through; the
theorem at the end says for which edits this makes their order matter.
-/

import Mathlib

namespace Obsr.Lib

universe u v

structure Register (τ : Type u) (ν : Type v) where
  stamp : τ
  content : Option ν

inductive Edit (τ : Type u) (ν : Type v)
  | write (stamp : τ) (value : ν)
  | erase (stamp : τ)

namespace Edit

variable {τ : Type u} {ν : Type v}

def stamp : Edit τ ν → τ
  | write stamp _ => stamp
  | erase stamp => stamp

def isErasure : Edit τ ν → Bool
  | write _ _ => false
  | erase _ => true

end Edit

namespace Register

variable {τ : Type u} {ν : Type v} [LinearOrder τ] {r : Register τ ν}

open Edit

def apply (r : Register τ ν) : Edit τ ν → Register τ ν
  | .write stamp value => if stamp < r.stamp then r else ⟨stamp, some value⟩
  | .erase stamp =>
      if stamp < r.stamp then r
      else match r.content with
        | none => r
        | some _ => ⟨stamp, none⟩

def applyAll (r : Register τ ν) (edits : List (Edit τ ν)) : Register τ ν := edits.foldl apply r

theorem applyAll_append (r : Register τ ν) (first second : List (Edit τ ν)) :
    r.applyAll (first ++ second) = (r.applyAll first).applyAll second :=
  List.foldl_append

theorem apply_write_eq (r : Register τ ν) (stamp : τ) (value : ν) :
    r.apply (.write stamp value) = if stamp < r.stamp then r else ⟨stamp, some value⟩ := rfl

theorem apply_erase_eq (r : Register τ ν) (stamp : τ) :
    r.apply (.erase stamp) =
      if stamp < r.stamp then r
      else match r.content with
        | none => r
        | some _ => ⟨stamp, none⟩ := rfl

theorem apply_of_lt {edit : Edit τ ν} (h : edit.stamp < r.stamp) : r.apply edit = r := by
  cases edit with
  | write stamp value => exact if_pos h
  | erase stamp => exact if_pos h

theorem apply_write {stamp : τ} (h : r.stamp ≤ stamp) (value : ν) :
    r.apply (.write stamp value) = ⟨stamp, some value⟩ := if_neg (not_lt_of_ge h)

theorem content_apply_erase {stamp : τ} (h : r.stamp ≤ stamp) :
    (r.apply (.erase stamp)).content = none := by
  rw [apply_erase_eq, if_neg (not_lt_of_ge h)]
  cases hcontent : r.content with
  | none => exact hcontent
  | some value => rfl

theorem apply_erase_of_none (h : r.content = none) (stamp : τ) :
    r.apply (.erase stamp) = r := by
  rw [apply_erase_eq, h]
  exact ite_self r

theorem apply_erase_of_isSome {stamp : τ} (h : r.stamp ≤ stamp)
    (hcontent : r.content.isSome = true) : r.apply (.erase stamp) = ⟨stamp, none⟩ := by
  obtain ⟨value, hvalue⟩ := Option.isSome_iff_exists.mp hcontent
  rw [apply_erase_eq, hvalue, if_neg (not_lt_of_ge h)]

/-- A register takes its time from itself or from the edit. -/
theorem stamp_apply (r : Register τ ν) (edit : Edit τ ν) :
    (r.apply edit).stamp = r.stamp ∨ (r.apply edit).stamp = edit.stamp := by
  cases edit with
  | write stamp value =>
      rw [apply_write_eq]
      split_ifs
      · exact Or.inl rfl
      · exact Or.inr rfl
  | erase stamp =>
      rw [apply_erase_eq]
      split_ifs
      · exact Or.inl rfl
      · cases r.content with
        | none => exact Or.inl rfl
        | some value => exact Or.inr rfl

theorem stamp_applyAll_lt {bound : τ} {edits : List (Edit τ ν)} (h : r.stamp < bound)
    (hedits : ∀ edit ∈ edits, edit.stamp < bound) : (r.applyAll edits).stamp < bound := by
  induction edits generalizing r with
  | nil => exact h
  | cons edit edits ih =>
      obtain ⟨hedit, hedits⟩ := List.forall_mem_cons.mp hedits
      apply ih _ hedits
      rcases stamp_apply r edit with hsame | hnew
      · exact hsame ▸ h
      · exact hnew ▸ hedit

/-- Edits older than the register leave it alone. -/
theorem applyAll_of_lt {edits : List (Edit τ ν)}
    (h : ∀ edit ∈ edits, edit.stamp < r.stamp) : r.applyAll edits = r := by
  induction edits with
  | nil => rfl
  | cons edit edits ih =>
      obtain ⟨hedit, hedits⟩ := List.forall_mem_cons.mp h
      show (r.apply edit).applyAll edits = r
      rw [apply_of_lt hedit]
      exact ih hedits

/-! ## The outcome of some edits -/

/-- The newest edit decides if it is a write. -/
theorem content_of_newest_write {edits : List (Edit τ ν)} {stamp : τ} {value : ν}
    (hmem : .write stamp value ∈ edits) (hnodup : (edits.map Edit.stamp).Nodup)
    (hnewest : ∀ edit ∈ edits, edit.stamp ≤ stamp) (hlater : r.stamp < stamp) :
    (r.applyAll edits).content = some value := by
  obtain ⟨before, after, rfl⟩ := List.append_of_mem hmem
  have hstrict : ∀ edit ∈ before ++ after, edit.stamp < stamp := by
    intro edit hedit
    apply lt_of_le_of_ne
    · apply hnewest edit
      exact List.mem_append.mpr ((List.mem_append.mp hedit).imp_right (List.mem_cons_of_mem _))
    · intro hsame
      rw [List.map_append, List.map_cons, List.nodup_middle, List.nodup_cons,
        ← List.map_append] at hnodup
      exact hnodup.1 (List.mem_map.mpr ⟨edit, hedit, hsame⟩)
  have hbefore : (r.applyAll before).stamp < stamp :=
    stamp_applyAll_lt hlater fun edit hedit => hstrict edit (List.mem_append_left _ hedit)
  have hafter : ∀ edit ∈ after, edit.stamp < stamp := fun edit hedit =>
    hstrict edit (List.mem_append_right _ hedit)
  rw [applyAll_append]
  show (((r.applyAll before).apply (.write stamp value)).applyAll after).content = _
  rw [apply_write hbefore.le]
  rw [applyAll_of_lt hafter]

/-- An empty register stays empty if all writes are older. -/
theorem content_of_older_writes {edits : List (Edit τ ν)} (hcontent : r.content = none)
    (hwrites : ∀ stamp value, .write stamp value ∈ edits → stamp < r.stamp) :
    (r.applyAll edits).content = none := by
  induction edits with
  | nil => exact hcontent
  | cons edit edits ih =>
      have hedit : r.apply edit = r := by
        cases edit with
        | write stamp value => exact apply_of_lt (hwrites stamp value List.mem_cons_self)
        | erase stamp => exact apply_erase_of_none hcontent stamp
      show ((r.apply edit).applyAll edits).content = none
      rw [hedit]
      exact ih fun stamp value hmem => hwrites stamp value (List.mem_cons_of_mem _ hmem)

/-- An erasure decides if all writes are older than every erasure. -/
theorem content_of_newer_erasures {edits : List (Edit τ ν)} {erased : τ}
    (hmem : .erase erased ∈ edits) (hcontent : r.content.isSome = true)
    (hlater : ∀ stamp, .erase stamp ∈ edits → r.stamp < stamp)
    (hwrites : ∀ stamp value erased, .write stamp value ∈ edits → .erase erased ∈ edits →
      stamp < erased) :
    (r.applyAll edits).content = none := by
  induction edits generalizing r with
  | nil => exact absurd hmem List.not_mem_nil
  | cons edit edits ih =>
      cases edit with
      | write stamp value =>
          have herased : .erase erased ∈ edits :=
            (List.mem_cons.mp hmem).resolve_left (by simp)
          apply ih herased
          · rw [apply_write_eq]
            split_ifs
            · exact hcontent
            · rfl
          · intro other hother
            rcases stamp_apply r (.write stamp value) with hsame | hnew
            · exact hsame ▸ hlater other (List.mem_cons_of_mem _ hother)
            · exact hnew ▸ hwrites stamp value other List.mem_cons_self
                (List.mem_cons_of_mem _ hother)
          · exact fun stamp value erased hwrite hmem => hwrites stamp value erased
              (List.mem_cons_of_mem _ hwrite) (List.mem_cons_of_mem _ hmem)
      | erase stamp =>
          show ((r.apply (.erase stamp)).applyAll edits).content = none
          rw [apply_erase_of_isSome (hlater stamp List.mem_cons_self).le hcontent]
          apply content_of_older_writes rfl
          exact fun written value hwrite => hwrites written value stamp
            (List.mem_cons_of_mem _ hwrite) List.mem_cons_self

/-- Erasures alone, the first of which goes through. -/
theorem applyAll_erasures {edits : List (Edit τ ν)} (hcontent : r.content = none)
    (hedits : ∀ edit ∈ edits, edit.isErasure = true) : r.applyAll edits = r := by
  induction edits with
  | nil => rfl
  | cons edit edits ih =>
      obtain ⟨hedit, hothers⟩ := List.forall_mem_cons.mp hedits
      cases edit with
      | write stamp value => exact Bool.noConfusion hedit
      | erase stamp =>
          show (r.apply (.erase stamp)).applyAll edits = r
          rw [apply_erase_of_none hcontent]
          exact ih hothers

/-- Writes alone fill a register if one of them is new enough. -/
theorem content_of_writes {edits : List (Edit τ ν)}
    (hedits : ∀ edit ∈ edits, edit.isErasure = false)
    (hsome : r.content.isSome = true ∨ ∃ edit ∈ edits, r.stamp ≤ edit.stamp) :
    (r.applyAll edits).content.isSome = true := by
  induction edits generalizing r with
  | nil => exact hsome.resolve_right (by simp)
  | cons edit edits ih =>
      obtain ⟨hedit, hothers⟩ := List.forall_mem_cons.mp hedits
      cases edit with
      | erase stamp => exact Bool.noConfusion hedit
      | write stamp value =>
          apply ih hothers
          by_cases hstale : stamp < r.stamp
          · have hsame : r.apply (.write stamp value) = r := apply_of_lt hstale
            rw [hsame]
            refine hsome.imp_right fun ⟨other, hother, hle⟩ => ⟨other, ?_, hle⟩
            apply (List.mem_cons.mp hother).resolve_left
            rintro rfl
            exact absurd hle (not_le_of_gt hstale)
          · rw [apply_write (not_lt.mp hstale)]
            exact Or.inl rfl

/-! ## Edits in any order -/

/-- The newest edit is a write, or no write is newer than an erasure. -/
def Settled (edits : List (Edit τ ν)) : Prop :=
  (∃ stamp value, .write stamp value ∈ edits ∧ ∀ edit ∈ edits, edit.stamp ≤ stamp) ∨
    ∀ stamp value erased, .write stamp value ∈ edits → .erase erased ∈ edits → stamp < erased

theorem exists_newest {edits : List (Edit τ ν)} (h : edits ≠ []) :
    ∃ newest ∈ edits, ∀ edit ∈ edits, edit.stamp ≤ newest.stamp := by
  classical
  obtain ⟨newest, hmem, hnewest⟩ := edits.toFinset.exists_max_image Edit.stamp
    (List.toFinset_nonempty_iff edits |>.mpr h)
  exact ⟨newest, List.mem_toFinset.mp hmem, fun edit hedit =>
    hnewest edit (List.mem_toFinset.mpr hedit)⟩

/-- Settled edits have one outcome in every order. -/
theorem content_eq_of_settled {edits first second : List (Edit τ ν)}
    (hfirst : first.Perm edits) (hsecond : second.Perm edits)
    (hnodup : (edits.map Edit.stamp).Nodup) (hlater : ∀ edit ∈ edits, r.stamp < edit.stamp)
    (hcontent : r.content.isSome = true) (h : Settled edits) :
    (r.applyAll first).content = (r.applyAll second).content := by
  -- an outcome of the edits in the order they are given is one of every order
  suffices houtcome : ∃ content, ∀ order : List (Edit τ ν), order.Perm edits →
      (r.applyAll order).content = content by
    obtain ⟨content, hsame⟩ := houtcome
    rw [hsame first hfirst, hsame second hsecond]
  have hwritten : ∀ stamp value, .write stamp value ∈ edits →
      (∀ edit ∈ edits, edit.stamp ≤ stamp) →
        ∃ content, ∀ order : List (Edit τ ν), order.Perm edits →
          (r.applyAll order).content = content := by
    intro stamp value hmem hnewest
    refine ⟨some value, fun order horder => ?_⟩
    exact content_of_newest_write (horder.mem_iff.mpr hmem)
      ((horder.map Edit.stamp).nodup_iff.mpr hnodup)
      (fun edit hedit => hnewest edit (horder.mem_iff.mp hedit)) (hlater _ hmem)
  rcases h with ⟨stamp, value, hmem, hnewest⟩ | hwrites
  · exact hwritten stamp value hmem hnewest
  · by_cases herasure : ∃ erased, .erase erased ∈ edits
    · obtain ⟨erased, hmem⟩ := herasure
      refine ⟨none, fun order horder => ?_⟩
      exact content_of_newer_erasures (horder.mem_iff.mpr hmem) hcontent
        (fun stamp hstamp => hlater _ (horder.mem_iff.mp hstamp))
        (fun stamp value erased hwrite hmem => hwrites stamp value erased
          (horder.mem_iff.mp hwrite) (horder.mem_iff.mp hmem))
    · by_cases hempty : edits = []
      · subst hempty
        exact ⟨r.content, fun order horder => by rw [horder.eq_nil]; rfl⟩
      · obtain ⟨newest, hmem, hnewest⟩ := exists_newest hempty
        cases newest with
        | write stamp value => exact hwritten stamp value hmem hnewest
        | erase erased => exact absurd ⟨erased, hmem⟩ herasure

/-- Edits that are not settled have an order that erases the register and one
that does not. -/
theorem exists_orders_of_not_settled {edits : List (Edit τ ν)}
    (hnodup : (edits.map Edit.stamp).Nodup) (hlater : ∀ edit ∈ edits, r.stamp < edit.stamp)
    (hcontent : r.content.isSome = true) (h : ¬ Settled edits) :
    ∃ first second : List (Edit τ ν), first.Perm edits ∧ second.Perm edits ∧
      (r.applyAll first).content = none ∧ (r.applyAll second).content.isSome = true := by
  simp only [Settled, not_or, not_exists, not_and, not_forall, not_le, not_lt] at h
  obtain ⟨hnewest, written, value, erased, hwrite, herase, hle⟩ := h
  obtain ⟨newest, hmem, hmax⟩ := exists_newest (List.ne_nil_of_mem hwrite)
  have hlast : ∃ last, newest = .erase last := by
    cases newest with
    | erase last => exact ⟨last, rfl⟩
    | write stamp value =>
        obtain ⟨edit, hedit, hlt⟩ := hnewest stamp value hmem
        exact absurd (hmax edit hedit) (not_le_of_gt hlt)
  obtain ⟨last, rfl⟩ := hlast
  obtain ⟨before, after, hsplit⟩ := List.append_of_mem hmem
  -- the newest erasure last
  have hfirst : (before ++ after ++ [Edit.erase last]).Perm edits := by
    rw [hsplit, List.append_assoc]
    exact (List.perm_append_singleton _ _).append_left before
  -- the erasures first, the one that is older than a write in front
  obtain ⟨erasures, others, hfilter⟩ := List.append_of_mem
    (List.mem_filter.mpr ⟨herase, rfl⟩ : Edit.erase erased ∈ edits.filter Edit.isErasure)
  have hsecond : (Edit.erase erased :: (erasures ++ others) ++
      edits.filter fun edit => !edit.isErasure).Perm edits := by
    refine List.Perm.trans ?_ (List.filter_append_perm Edit.isErasure edits)
    rw [hfilter]
    exact (List.perm_middle.symm).append_right _
  refine ⟨_, _, hfirst, hsecond, ?_, ?_⟩
  · rw [applyAll_append]
    apply content_apply_erase
    by_cases hothers : before ++ after = []
    · rw [hothers]
      exact (hlater _ hmem).le
    · have hstrict : ∀ edit ∈ before ++ after, edit.stamp < last := by
        intro edit hedit
        have hedits : edit ∈ edits := hfirst.mem_iff.mp (List.mem_append_left _ hedit)
        apply lt_of_le_of_ne (hmax edit hedits)
        intro hsame
        rw [hsplit, List.map_append, List.map_cons, List.nodup_middle, List.nodup_cons,
          ← List.map_append] at hnodup
        exact hnodup.1 (List.mem_map.mpr ⟨edit, hedit, hsame⟩)
      exact (stamp_applyAll_lt (hlater _ hmem) hstrict).le
  · rw [List.cons_append, ← List.singleton_append, ← List.append_assoc, applyAll_append]
    have herasures : ∀ edit ∈ erasures ++ others, edit.isErasure = true := by
      intro edit hedit
      refine (List.mem_filter.mp (?_ : edit ∈ edits.filter Edit.isErasure)).2
      rw [hfilter]
      exact List.mem_append.mpr ((List.mem_append.mp hedit).imp_right (List.mem_cons_of_mem _))
    have hphase : r.applyAll ([.erase erased] ++ (erasures ++ others)) = ⟨erased, none⟩ := by
      rw [applyAll_append]
      show (r.apply (.erase erased)).applyAll _ = _
      have hfresh : r.stamp ≤ erased := (hlater _ herase).le
      rw [apply_erase_of_isSome hfresh hcontent]
      exact applyAll_erasures rfl herasures
    rw [hphase]
    apply content_of_writes
    · intro edit hedit
      simpa using (List.mem_filter.mp hedit).2
    · exact Or.inr ⟨.write written value, List.mem_filter.mpr ⟨hwrite, rfl⟩, hle⟩

/-! ## What a register remembers of its writes -/

/-- The most recent of the writes with the greatest stamp. -/
def IsLatest (log : List (τ × ν)) (write : τ × ν) : Prop :=
  ∃ before after, log = before ++ write :: after ∧ (∀ other ∈ before, other.1 ≤ write.1) ∧
    ∀ other ∈ after, other.1 < write.1

/-- The register holds the latest write of a log, if it holds anything, and has
seen nothing older than any write of it. -/
structure Remembers (r : Register τ ν) (log : List (τ × ν)) : Prop where
  bounded : ∀ write ∈ log, write.1 ≤ r.stamp
  latest : ∀ value, r.content = some value → IsLatest log (r.stamp, value)

theorem remembers_nil (stamp : τ) : Remembers (⟨stamp, none⟩ : Register τ ν) [] where
  bounded _ hwrite := absurd hwrite List.not_mem_nil
  latest value hvalue := absurd hvalue (Option.some_ne_none value).symm

theorem Remembers.write {log : List (τ × ν)} (h : r.Remembers log) (stamp : τ) (value : ν) :
    (r.apply (.write stamp value)).Remembers (log ++ [(stamp, value)]) := by
  by_cases hstale : stamp < r.stamp
  · rw [show r.apply (.write stamp value) = r from apply_of_lt hstale]
    constructor
    · intro write hwrite
      rcases List.mem_append.mp hwrite with hold | hnew
      · exact h.bounded write hold
      · rw [List.mem_singleton.mp hnew]
        exact hstale.le
    · intro kept hkept
      obtain ⟨before, after, rfl, hbefore, hafter⟩ := h.latest kept hkept
      refine ⟨before, after ++ [(stamp, value)], by simp, hbefore, fun other hother => ?_⟩
      rcases List.mem_append.mp hother with hold | hnew
      · exact hafter other hold
      · rw [List.mem_singleton.mp hnew]
        exact hstale
  · have hseen := not_lt.mp hstale
    rw [apply_write hseen]
    constructor
    · intro write hwrite
      rcases List.mem_append.mp hwrite with hold | hnew
      · exact (h.bounded write hold).trans hseen
      · rw [List.mem_singleton.mp hnew]
    · intro kept hkept
      obtain rfl : value = kept := Option.some.inj hkept
      exact ⟨log, [], rfl, fun other hother => (h.bounded other hother).trans hseen, by simp⟩

theorem Remembers.erase {log : List (τ × ν)} (h : r.Remembers log) (stamp : τ) :
    (r.apply (.erase stamp)).Remembers log := by
  by_cases hstale : stamp < r.stamp
  · rwa [show r.apply (.erase stamp) = r from apply_of_lt hstale]
  · have hseen := not_lt.mp hstale
    cases hcontent : r.content with
    | none => rwa [apply_erase_of_none hcontent]
    | some value =>
        rw [apply_erase_of_isSome hseen (by rw [hcontent]; rfl)]
        exact ⟨fun write hwrite => (h.bounded write hwrite).trans hseen,
          fun value hvalue => absurd hvalue (Option.some_ne_none value).symm⟩

end Register

end Obsr.Lib
