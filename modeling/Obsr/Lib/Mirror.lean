/-
# Copies of a table of registers

A source has a register for every key and gives some of the keys an id. It sends its
copies the ids with their keys, and the contents of its registers under the ids; a
register is dirty while its last change has not been sent. A copy may lose its
channel, come back with what it had, and get a new one.

`Informs` is what holds of a source and a copy behind a channel at any time. What the
source sends shows the register as it is then, so a copy that is newer than what
arrives shows the same already. That is why a copy may also set its times back.
-/

import Obsr.Lib.Channel
import Obsr.Lib.LastWriter

namespace Obsr.Lib

universe u v w x

/-- What a register shows after the edit, if it takes it. -/
def Edit.content {τ : Type w} {ν : Type x} : Edit τ ν → Option ν
  | .write _ value => some value
  | .erase _ => none

namespace Mirror

inductive Message (ι : Type u) (κ : Type v) (τ : Type w) (ν : Type x)
  | name (id : ι) (key : κ)
  | edit (id : ι) (edit : Edit τ ν)

structure Copy (ι : Type u) (κ : Type v) (τ : Type w) (ν : Type x) where
  names : ι → Option κ
  registers : κ → Register τ ν

structure Source (ι : Type u) (κ : Type v) (τ : Type w) (ν : Type x) where
  names : ι → Option κ
  registers : κ → Register τ ν
  dirty : κ → Bool
  now : τ

/-! ## A copy and its source -/

variable {ι : Type u} {κ : Type v} {τ : Type w} {ν : Type x} [LinearOrder τ]

/-- The copy has the ids of the source, and nothing the source has not shown. -/
structure Trails (s : Source ι κ τ ν) (copy : Copy ι κ τ ν) : Prop where
  names : ∀ id key, copy.names id = some key → s.names id = some key
  le_now : ∀ key, (copy.registers key).stamp ≤ s.now
  behind : ∀ key, (copy.registers key).stamp ≤ (s.registers key).stamp ∨
    (copy.registers key).content = (s.registers key).content

/-- The copy shows what a message is to make it show; `fits` is what else there is to
say of the edits of a key. -/
def Takes (fits : κ → Edit τ ν → Prop) (s : Source ι κ τ ν) (copy : Copy ι κ τ ν) :
    Message ι κ τ ν → Prop
  | .name id key => s.names id = some key
  | .edit id edit => ∃ key, copy.names id = some key ∧ fits key edit ∧
      ((copy.registers key).stamp ≤ edit.stamp ∨
        (copy.registers key).content = edit.content)

variable {fits : κ → Edit τ ν → Prop} {s s' : Source ι κ τ ν} {copy copy' : Copy ι κ τ ν}
  {id : ι} {key : κ} {edit : Edit τ ν}

theorem content_apply {r : Register τ ν} (h : r.stamp ≤ edit.stamp ∨ r.content = edit.content) :
    (r.apply edit).content = edit.content := by
  rcases lt_or_ge edit.stamp r.stamp with hlate | hle
  · rw [Register.apply_of_lt hlate]
    exact h.resolve_left hlate.not_ge
  · cases edit with
    | write stamp value => exact congrArg Register.content (Register.apply_write hle value)
    | erase stamp => exact Register.content_apply_erase hle

/-! ## The source goes on -/

/-- Time goes by; the source gives ids, and changes registers at the time it is. -/
structure Source.Follows (s s' : Source ι κ τ ν) : Prop where
  names : ∀ id key, s.names id = some key → s'.names id = some key
  now_le : s.now ≤ s'.now
  registers : ∀ key, s'.registers key = s.registers key ∨ (s'.registers key).stamp = s'.now

/-- A register that changes is dirty, and one that does not is as dirty as it was. -/
structure Source.Advances (s s' : Source ι κ τ ν) : Prop where
  names : ∀ id key, s.names id = some key → s'.names id = some key
  now_le : s.now ≤ s'.now
  registers : ∀ key, (s'.registers key = s.registers key ∧ s'.dirty key = s.dirty key) ∨
    ((s'.registers key).stamp = s'.now ∧ s'.dirty key = true)

theorem Source.Advances.follows (h : s.Advances s') : s.Follows s' :=
  ⟨h.names, h.now_le, fun key => (h.registers key).imp And.left And.left⟩

theorem Trails.follow (h : Trails s copy) (hfollows : s.Follows s') : Trails s' copy where
  names id key hname := hfollows.names id key (h.names id key hname)
  le_now key := (h.le_now key).trans hfollows.now_le
  behind key := by
    rcases hfollows.registers key with hsame | hstamp
    · rw [hsame]
      exact h.behind key
    · rw [hstamp]
      exact Or.inl ((h.le_now key).trans hfollows.now_le)

theorem Takes.follow {message : Message ι κ τ ν} (h : Takes fits s copy message)
    (hfollows : s.Follows s') : Takes fits s' copy message := by
  cases message with
  | name id key => exact hfollows.names id key h
  | edit id edit => exact h

/-! ## What the source shows -/

/-- The edit shows a register as it is. -/
structure Shows (r : Register τ ν) (now : τ) (edit : Edit τ ν) : Prop where
  content : edit.content = r.content
  le : r.stamp ≤ edit.stamp
  le_now : edit.stamp ≤ now

theorem shows_write {r : Register τ ν} {now stamp : τ} {value : ν}
    (hcontent : r.content = some value) (hle : r.stamp ≤ stamp) (hnow : stamp ≤ now) :
    Shows r now (.write stamp value) :=
  ⟨hcontent.symm, hle, hnow⟩

theorem shows_erase {r : Register τ ν} {now : τ} (hcontent : r.content = none)
    (hle : r.stamp ≤ now) : Shows r now (.erase now) :=
  ⟨hcontent.symm, hle, le_rfl⟩

theorem Trails.takes (h : Trails s copy) (hshows : Shows (s.registers key) s.now edit) :
    (copy.registers key).stamp ≤ edit.stamp ∨
      (copy.registers key).content = edit.content := by
  rcases h.behind key with hle | hcontent
  · exact Or.inl (hle.trans hshows.le)
  · exact Or.inr (hcontent.trans hshows.content.symm)

/-! ## A copy sets its times back -/

structure Copy.Older (copy' copy : Copy ι κ τ ν) : Prop where
  names : copy'.names = copy.names
  content : ∀ key, (copy'.registers key).content = (copy.registers key).content
  le : ∀ key, (copy'.registers key).stamp ≤ (copy.registers key).stamp

theorem Trails.older (h : Trails s copy) (holder : copy'.Older copy) : Trails s copy' where
  names id key hname := h.names id key (holder.names ▸ hname)
  le_now key := (holder.le key).trans (h.le_now key)
  behind key := by
    rw [holder.content]
    exact (h.behind key).imp_left (holder.le key).trans

theorem stamp_apply_le {r' r : Register τ ν} (hcontent : r'.content = r.content)
    (hle : r'.stamp ≤ r.stamp) (h : r.stamp ≤ edit.stamp ∨ r.content = edit.content) :
    (r'.apply edit).stamp ≤ (r.apply edit).stamp := by
  rcases lt_or_ge edit.stamp r.stamp with hlate | hfresh
  · rw [Register.apply_of_lt hlate]
    rcases r'.stamp_apply edit with hstamp | hstamp
    · exact hstamp ▸ hle
    · exact hstamp ▸ hlate.le
  · cases edit with
    | write stamp value =>
        have hnew : r.apply (.write stamp value) = ⟨stamp, some value⟩ :=
          Register.apply_write hfresh value
        have hnew' : r'.apply (.write stamp value) = ⟨stamp, some value⟩ :=
          Register.apply_write (hle.trans hfresh) value
        rw [hnew, hnew']
    | erase stamp =>
        cases hr : r.content with
        | none =>
            rw [Register.apply_erase_of_none hr, Register.apply_erase_of_none (hcontent.trans hr)]
            exact hle
        | some value =>
            have hsome : r.content.isSome = true := by rw [hr]; rfl
            have hnew : r.apply (.erase stamp) = ⟨stamp, none⟩ :=
              Register.apply_erase_of_isSome hfresh hsome
            have hnew' : r'.apply (.erase stamp) = ⟨stamp, none⟩ :=
              Register.apply_erase_of_isSome (hle.trans hfresh) (hcontent ▸ hsome)
            rw [hnew, hnew']

/-! ## Messages -/

open Channel

variable [DecidableEq ι] [DecidableEq κ]

/-- An id keeps the key it has; an edit under an id without a key is lost. -/
def receive (copy : Copy ι κ τ ν) : Message ι κ τ ν → Copy ι κ τ ν
  | .name id key =>
      { copy with
        names := Function.update copy.names id (some ((copy.names id).getD key)) }
  | .edit id edit =>
      match copy.names id with
      | none => copy
      | some key =>
          { copy with
            registers :=
              Function.update copy.registers key ((copy.registers key).apply edit) }

/-- What is in a channel can be received, up to any message. -/
structure Carries (fits : κ → Edit τ ν → Prop) (s : Source ι κ τ ν) (copy : Copy ι κ τ ν)
    (messages : List (Message ι κ τ ν)) : Prop where
  takes : StepsMeet receive (Takes fits s) copy messages
  trails : HoldsThroughout receive (Trails s) copy messages

/-- Once the messages have arrived, the copy has the ids it is thought to know, and
shows under these what is not dirty. A copy that began with nothing also lacks what the
source lacks. -/
structure Informs (fits : κ → Edit τ ν → Prop) (s : Source ι κ τ ν) (known : Set ι)
    (fresh : Prop) (copy : Copy ι κ τ ν) (messages : List (Message ι κ τ ν)) : Prop
    extends Carries fits s copy messages where
  learned : ∀ id ∈ known, ∃ key, s.names id = some key ∧
    (drained receive copy messages).names id = some key
  told : ∀ id ∈ known, ∀ key, s.names id = some key → s.dirty key = false →
    fresh ∨ (s.registers key).content.isSome = true →
      ((drained receive copy messages).registers key).content = (s.registers key).content
  blank : fresh → ∀ key, (∀ id ∈ known, s.names id ≠ some key) →
    ((drained receive copy messages).registers key).content = none

variable {known : Set ι} {fresh : Prop} {messages : List (Message ι κ τ ν)}

theorem names_receive (copy : Copy ι κ τ ν) (id : ι) (key : κ) (other : ι) :
    (receive copy (.name id key)).names other =
      if other = id then some ((copy.names id).getD key) else copy.names other :=
  Function.update_apply ..

theorem receive_edit (h : copy.names id = some key) :
    receive copy (.edit id edit) =
      { copy with
        registers := Function.update copy.registers key ((copy.registers key).apply edit) } := by
  simp only [receive, h]

theorem Carries.follow (h : Carries fits s copy messages) (hfollows : s.Follows s') :
    Carries fits s' copy messages where
  takes := by
    have htakes := h.takes
    clear h
    induction messages generalizing copy with
    | nil => trivial
    | cons message messages ih => exact ⟨htakes.1.follow hfollows, ih htakes.2⟩
  trails := h.trails.imp fun _ htrails => htrails.follow hfollows

theorem Informs.advance (h : Informs fits s known fresh copy messages)
    (hadvances : s.Advances s') : Informs fits s' known fresh copy messages where
  toCarries := h.toCarries.follow hadvances.follows
  learned id hid := by
    obtain ⟨key, hname, hcopy⟩ := h.learned id hid
    exact ⟨key, hadvances.names id key hname, hcopy⟩
  told id hid key hname hclean hshown := by
    obtain ⟨named, hnamed, -⟩ := h.learned id hid
    obtain rfl : named = key :=
      Option.some.inj ((hadvances.names id named hnamed).symm.trans hname)
    rcases hadvances.registers named with ⟨hsame, hdirty⟩ | ⟨-, hdirty⟩
    · rw [hsame] at hshown ⊢
      exact h.told id hid named hnamed (hdirty ▸ hclean) hshown
    · rw [hclean] at hdirty
      cases hdirty
  blank hfresh key hunknown := by
    apply h.blank hfresh key
    intro id hid hname
    exact hunknown id hid (hadvances.names id key hname)

theorem Trails.receive_name (h : Trails s copy) (hname : s.names id = some key) :
    Trails s (receive copy (.name id key)) where
  names other named hnamed := by
    rw [names_receive] at hnamed
    split_ifs at hnamed with hother
    · subst hother
      cases hknown : copy.names other with
      | none =>
          rw [hknown] at hnamed
          rw [hname]
          exact hnamed
      | some found =>
          rw [hknown] at hnamed
          rw [h.names other found hknown]
          exact hnamed
    · exact h.names other named hnamed
  le_now := h.le_now
  behind := h.behind

theorem Trails.receive_edit (h : Trails s copy) (hname : copy.names id = some key)
    (hshows : Shows (s.registers key) s.now edit) :
    Trails s (receive copy (.edit id edit)) := by
  rw [Mirror.receive_edit hname]
  constructor
  · exact h.names
  · intro other
    by_cases hother : other = key
    · subst hother
      simp only [Function.update_self]
      rcases (copy.registers other).stamp_apply edit with hstamp | hstamp
      · exact hstamp ▸ h.le_now other
      · exact hstamp ▸ hshows.le_now
    · simp only [Function.update_of_ne hother]
      exact h.le_now other
  · intro other
    by_cases hother : other = key
    · subst hother
      simp only [Function.update_self]
      exact Or.inr ((content_apply (h.takes hshows)).trans hshows.content)
    · simp only [Function.update_of_ne hother]
      exact h.behind other

theorem Carries.name (h : Carries fits s copy messages) (hname : s.names id = some key) :
    Carries fits s copy (messages ++ [.name id key]) where
  takes := stepsMeet_concat h.takes hname
  trails := holdsThroughout_concat h.trails (h.trails.last.receive_name hname)

theorem Carries.send (h : Carries fits s copy messages)
    (hname : (drained receive copy messages).names id = some key)
    (hshows : Shows (s.registers key) s.now edit) (hfits : fits key edit) :
    Carries fits s copy (messages ++ [.edit id edit]) where
  takes := stepsMeet_concat h.takes ⟨key, hname, hfits, h.trails.last.takes hshows⟩
  trails := holdsThroughout_concat h.trails (h.trails.last.receive_edit hname hshows)

/-- The source sends an id. -/
theorem Informs.name (h : Informs fits s known fresh copy messages)
    (hname : s.names id = some key) :
    Informs fits s known fresh copy (messages ++ [.name id key]) ∧
      (drained receive copy (messages ++ [.name id key])).names id = some key := by
  have hcarries := h.toCarries.name hname
  have hcopy : (drained receive copy (messages ++ [.name id key])).names id = some key := by
    cases hnamed : (drained receive copy (messages ++ [.name id key])).names id with
    | none => simp [drained_concat, names_receive] at hnamed
    | some named => rw [← hname, hcarries.trails.last.names id named hnamed]
  refine ⟨⟨hcarries, ?_, ?_, ?_⟩, hcopy⟩
  · intro other hother
    obtain ⟨named, hnamed, hdrained⟩ := h.learned other hother
    refine ⟨named, hnamed, ?_⟩
    by_cases hid : other = id
    · subst hid
      rw [hcopy, ← hname, hnamed]
    · rw [drained_concat, names_receive, if_neg hid]
      exact hdrained
  · intro other hother named hnamed hclean hshown
    rw [drained_concat]
    exact h.told other hother named hnamed hclean hshown
  · intro hfresh named hunknown
    rw [drained_concat]
    exact h.blank hfresh named hunknown

/-- The source shows a register under an id. The register need not be dirty any more. -/
theorem Informs.send (h : Informs fits s known fresh copy messages)
    (hsource : s.names id = some key)
    (hname : (drained receive copy messages).names id = some key)
    (hshows : Shows (s.registers key) s.now edit) (hfits : fits key edit) {dirty : κ → Bool}
    (hdirty : ∀ other, other ≠ key → dirty other = false → s.dirty other = false) :
    Informs fits { s with dirty } (insert id known) fresh copy (messages ++ [.edit id edit]) := by
  have hcarries := h.toCarries.send hname hshows hfits
  have hreceive : drained receive copy (messages ++ [.edit id edit]) = _ :=
    (drained_concat ..).trans (receive_edit hname)
  have htakes := h.toCarries.trails.last.takes hshows
  refine ⟨⟨hcarries.takes, hcarries.trails.imp fun _ htrails => ⟨htrails.1, htrails.2, htrails.3⟩⟩,
    ?_, ?_, ?_⟩
  · intro other hother
    rw [hreceive]
    rcases Set.mem_insert_iff.mp hother with rfl | hother
    · exact ⟨key, hsource, hname⟩
    · exact h.learned other hother
  · intro other hother named hnamed hclean hshown
    rw [hreceive]
    by_cases hkey : named = key
    · subst hkey
      simp only [Function.update_self]
      exact (content_apply htakes).trans hshows.content
    · simp only [Function.update_of_ne hkey]
      rcases Set.mem_insert_iff.mp hother with rfl | hother
      · exact absurd (Option.some.inj (hnamed.symm.trans hsource)) hkey
      · exact h.told other hother named hnamed (hdirty named hkey hclean) hshown
  · intro hfresh named hunknown
    have hkey : named ≠ key := by
      rintro rfl
      exact hunknown id (Set.mem_insert id known) hsource
    rw [hreceive]
    simp only [Function.update_of_ne hkey]
    exact h.blank hfresh named fun other hother => hunknown other (Set.mem_insert_of_mem _ hother)

/-- An id of an empty register is known once it is sent. -/
theorem Informs.name_empty (h : Informs fits s known fresh copy messages)
    (hname : s.names id = some key) (hcontent : (s.registers key).content = none) :
    Informs fits s (insert id known) fresh copy (messages ++ [.name id key]) := by
  obtain ⟨hnext, hcopy⟩ := h.name hname
  refine ⟨hnext.toCarries, ?_, ?_, ?_⟩
  · intro other hother
    rcases Set.mem_insert_iff.mp hother with rfl | hother
    · exact ⟨key, hname, hcopy⟩
    · exact hnext.learned other hother
  · intro other hother named hnamed hclean hshown
    by_cases hknown : ∃ found ∈ known, s.names found = some named
    · obtain ⟨found, hfound, hfoundName⟩ := hknown
      exact hnext.told found hfound named hfoundName hclean hshown
    · have hid : other = id := by
        refine (Set.mem_insert_iff.mp hother).resolve_right fun hother => ?_
        exact hknown ⟨other, hother, hnamed⟩
      obtain rfl : key = named := Option.some.inj (hname.symm.trans (hid ▸ hnamed))
      rw [hcontent] at hshown ⊢
      have hfresh : fresh := hshown.resolve_right (by simp)
      refine hnext.blank hfresh key fun found hfound hfoundName => ?_
      exact hknown ⟨found, hfound, hfoundName⟩
  · intro hfresh named hunknown
    exact hnext.blank hfresh named fun other hother =>
      hunknown other (Set.mem_insert_of_mem _ hother)

/-! ## The end of the channel that arrives -/

theorem Carries.tail {message : Message ι κ τ ν} (h : Carries fits s copy (message :: messages)) :
    Carries fits s (receive copy message) messages := ⟨h.takes.2, h.trails.2⟩

theorem Informs.tail {message : Message ι κ τ ν}
    (h : Informs fits s known fresh copy (message :: messages)) :
    Informs fits s known fresh (receive copy message) messages :=
  ⟨h.toCarries.tail, h.learned, h.told, h.blank⟩

theorem Carries.of_append {lost : List (Message ι κ τ ν)}
    (h : Carries fits s copy (messages ++ lost)) : Carries fits s copy messages :=
  ⟨stepsMeet_of_append h.takes, holdsThroughout_of_append h.trails⟩

/-- A copy begins with a channel of its own. -/
theorem Trails.informs (h : Trails s copy)
    (hblank : fresh → ∀ key, (copy.registers key).content = none) :
    Informs fits s ∅ fresh copy [] where
  takes := trivial
  trails := h
  learned _ hid := absurd hid (Set.notMem_empty _)
  told _ hid := absurd hid (Set.notMem_empty _)
  blank hfresh key _ := hblank hfresh key

/-! ## Earlier times -/

/-- What a copy takes it takes with earlier times too. -/
theorem Takes.older {message : Message ι κ τ ν} (h : Takes fits s copy message)
    (holder : copy'.Older copy) :
    Takes fits s copy' message ∧ (receive copy' message).Older (receive copy message) := by
  cases message with
  | name id key =>
      refine ⟨h, ?_, holder.content, holder.le⟩
      simp only [receive, holder.names]
  | edit id edit =>
      obtain ⟨key, hname, hfits, htakes⟩ := h
      have hname' : copy'.names id = some key := holder.names ▸ hname
      have htakes' : (copy'.registers key).stamp ≤ edit.stamp ∨
          (copy'.registers key).content = edit.content := by
        rw [holder.content]
        exact htakes.imp_left (holder.le key).trans
      refine ⟨⟨key, hname', hfits, htakes'⟩, ?_⟩
      rw [receive_edit hname, receive_edit hname']
      refine ⟨holder.names, fun other => ?_, fun other => ?_⟩
      · by_cases hother : other = key
        · subst hother
          simp only [Function.update_self]
          rw [content_apply htakes, content_apply htakes']
        · simp only [Function.update_of_ne hother]
          exact holder.content other
      · by_cases hother : other = key
        · subst hother
          simp only [Function.update_self]
          exact stamp_apply_le (holder.content other) (holder.le other) htakes
        · simp only [Function.update_of_ne hother]
          exact holder.le other

theorem Carries.older (h : Carries fits s copy messages) (holder : copy'.Older copy) :
    Carries fits s copy' messages ∧
      (drained receive copy' messages).Older (drained receive copy messages) := by
  induction messages generalizing copy copy' with
  | nil => exact ⟨⟨trivial, h.trails.first.older holder⟩, holder⟩
  | cons message messages ih =>
      obtain ⟨htakes, hnext⟩ := h.takes.1.older holder
      obtain ⟨hcarries, hdrained⟩ := ih h.tail hnext
      exact ⟨⟨⟨htakes, hcarries.takes⟩, h.trails.first.older holder, hcarries.trails⟩, hdrained⟩

theorem Informs.older (h : Informs fits s known fresh copy messages)
    (holder : copy'.Older copy) : Informs fits s known fresh copy' messages := by
  obtain ⟨hcarries, hdrained⟩ := h.toCarries.older holder
  refine ⟨hcarries, ?_, ?_, ?_⟩
  · rw [hdrained.names]
    exact h.learned
  · intro id hid key hname hclean hshown
    rw [hdrained.content]
    exact h.told id hid key hname hclean hshown
  · intro hfresh key hunknown
    rw [hdrained.content]
    exact h.blank hfresh key hunknown

/-! ## Nothing is on its way -/

/-- A copy whose channel is empty shows what is not dirty. -/
theorem Informs.content_eq (h : Informs fits s known fresh copy [])
    (hknown : ∀ key, s.dirty key = false → (s.registers key).content.isSome = true →
      ∃ id ∈ known, s.names id = some key)
    (hclean : s.dirty key = false)
    (hshown : fresh ∨ (s.registers key).content.isSome = true) :
    (copy.registers key).content = (s.registers key).content := by
  by_cases hnamed : ∃ id ∈ known, s.names id = some key
  · obtain ⟨id, hid, hname⟩ := hnamed
    exact h.told id hid key hname hclean hshown
  · cases hcontent : (s.registers key).content with
    | some value => exact absurd (hknown key hclean (by rw [hcontent]; rfl)) hnamed
    | none =>
        rw [hcontent] at hshown
        have hfresh : fresh := hshown.resolve_right (by simp)
        exact h.blank hfresh key fun id hid hname => hnamed ⟨id, hid, hname⟩

end Mirror

end Obsr.Lib
