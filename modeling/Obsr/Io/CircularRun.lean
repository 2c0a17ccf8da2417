/-
# Runs of a circular buffer

A ledger accompanies a buffer through a run: every byte the buffer accepted,
every byte that was taken out of it, every region of the array that was copied
or handed to a device, and what `read_from` asked its source for. Two laws are
read off it.

* Conservation: what was accepted is what was taken out followed by what is
  readable. A run conserves its bytes exactly when no step fills the last free
  cell, overruns the array, or has a device throw between the two halves of a
  wrapped transfer.
* Safety: all regions lie inside the array and no request exceeds the free
  cells. The only step that breaks it is the overrun of `read_from`.
-/

import Obsr.Lib.Run
import Obsr.Io.CircularContent

namespace Obsr.Io

open Obsr.Lib

/-- One call of a public operation, with the answers of the device it uses. -/
inductive Operation
  | reset
  | write (bytes : List UInt8)
  | readFrom (first second : ReadCall)
  | read (size : ℕ)
  | seekRead (offset : ℕ)
  | findAndSeekRead (byte : UInt8)
  | writeInto (first second : WriteCall)
  deriving DecidableEq, Repr

/-- What one operation did, in terms every operation shares. -/
structure Effect where
  buffer : CircularBuffer
  accepted : List UInt8 := []
  removed : List UInt8 := []
  regions : List Region := []

namespace CircularBuffer

/-- The bytes between the read positions of two states of one buffer. -/
def skipped (before after : CircularBuffer) : List UInt8 :=
  before.content.take (before.readAvailable - after.readAvailable)

def perform (b : CircularBuffer) : Operation → Effect
  | .reset => { buffer := b.reset, removed := b.content }
  | .write bytes =>
      { buffer := (b.write bytes).buffer
        accepted := if (b.write bytes).value then bytes else []
        regions := (b.write bytes).regions }
  | .readFrom first second =>
      { buffer := (b.readFrom first second).buffer
        accepted := (b.readFrom first second).value.bytes
        regions := (b.readFrom first second).regions }
  | .read size =>
      { buffer := (b.read size).buffer
        removed := (b.read size).value.getD []
        regions := (b.read size).regions }
  | .seekRead offset =>
      { buffer := b.seekRead offset
        removed := b.skipped (b.seekRead offset) }
  | .findAndSeekRead byte =>
      { buffer := (b.findAndSeekRead byte).buffer
        removed := b.skipped (b.findAndSeekRead byte).buffer
        regions := (b.findAndSeekRead byte).regions }
  | .writeInto first second =>
      { buffer := (b.writeInto first second).buffer
        removed := (b.writeInto first second).value.bytes
        regions := (b.writeInto first second).regions }

/-- The operation leaves no byte behind and takes none twice. -/
def KeepsBytes (b : CircularBuffer) : Operation → Prop
  | .write bytes => bytes.length ≠ b.free
  | .readFrom first second => b.ReadFromKeeps first second
  | .writeInto first second => b.WriteIntoKeeps first second
  | _ => True

/-- The operation stays inside the array. -/
def StaysInside (b : CircularBuffer) : Operation → Prop
  | .readFrom first _ => ¬ b.Overruns first
  | _ => True

instance (b : CircularBuffer) : DecidablePred b.KeepsBytes
  | .reset | .read _ | .seekRead _ | .findAndSeekRead _ =>
      inferInstanceAs (Decidable True)
  | .write _ => inferInstanceAs (Decidable (_ ≠ _))
  | .readFrom first second =>
      inferInstanceAs (Decidable (b.ReadFromKeeps first second))
  | .writeInto first second =>
      inferInstanceAs (Decidable (b.WriteIntoKeeps first second))

instance (b : CircularBuffer) : DecidablePred b.StaysInside
  | .reset | .read _ | .seekRead _ | .findAndSeekRead _ | .write _ | .writeInto _ _ =>
      inferInstanceAs (Decidable True)
  | .readFrom first _ => inferInstanceAs (Decidable (¬ b.Overruns first))

variable {b : CircularBuffer}

theorem KeepsBytes.staysInside {op : Operation} (h : b.KeepsBytes op) :
    b.StaysInside op := by
  cases op with
  | readFrom first second => exact not_overruns_of_readFromKeeps h
  | _ => trivial

/-! ## Positions -/

@[simp]
theorem size_advanceRead (n : ℕ) : (b.advanceRead n).size = b.size := rfl

theorem readAvailable_advanceRead (h : b.InBounds) {n : ℕ} (hn : n ≤ b.readAvailable) :
    (b.advanceRead n).readAvailable = b.readAvailable - n := by
  rw [← length_content (h.advanceRead n), content_advanceRead h hn, List.length_drop,
    length_content h]

@[simp]
theorem advanceRead_advanceRead (m n : ℕ) :
    (b.advanceRead m).advanceRead n = b.advanceRead (m + n) := by
  simp only [advanceRead, size, Nat.mod_add_mod, Nat.add_assoc]

theorem advanceRead_zero (h : b.InBounds) : b.advanceRead 0 = b := by
  rw [advanceRead, Nat.add_zero, Nat.mod_eq_of_lt h.read]

/-- A search moves the read position forward over a prefix of the content. -/
theorem findAndSeekRead_buffer (h : b.InBounds) (byte : UInt8) :
    ∃ k ≤ b.readAvailable, (b.findAndSeekRead byte).buffer = b.advanceRead k := by
  cases hfound : b.content.findIdx? (· = byte) with
  | some k =>
      have hlt := (List.findIdx?_eq_some_iff_findIdx_eq.mp hfound).1
      rw [length_content h] at hlt
      exact ⟨k, hlt.le, (findAndSeekRead_of_findIdx?_eq_some h hfound).1⟩
  | none =>
      have hbuffer := (findAndSeekRead_of_findIdx?_eq_none h hfound).2
      split_ifs at hbuffer
      · exact ⟨0, Nat.zero_le _, hbuffer.trans (advanceRead_zero h).symm⟩
      · exact ⟨_, le_rfl, hbuffer⟩

/-- `read` moves the read position or leaves it, and copies out what it
passes. -/
theorem read_buffer (h : b.InBounds) (n : ℕ) :
    ∃ k ≤ b.readAvailable, (b.read n).buffer = b.advanceRead k ∧
      (b.read n).value.getD [] = b.content.take k := by
  rcases Nat.lt_or_ge b.readAvailable n with hgt | hle
  · obtain ⟨hbuffer, hvalue⟩ := read_of_gt h hgt
    refine ⟨0, Nat.zero_le _, hbuffer.trans (advanceRead_zero h).symm, ?_⟩
    rw [hvalue, List.take_zero]
    rfl
  · obtain ⟨hbuffer, hvalue⟩ := read_of_le h hle
    exact ⟨n, hle, hbuffer, by rw [hvalue]; rfl⟩

theorem writeInto_buffer (h : b.InBounds) (first second : WriteCall) :
    ∃ k ≤ b.readAvailable, (b.writeInto first second).buffer = b.advanceRead k := by
  by_cases hkeep : b.WriteIntoKeeps first second
  · obtain ⟨k, hk, hbuffer, -⟩ := writeInto_of_keeps h hkeep
    exact ⟨k, hk, hbuffer⟩
  · have hbuffer := (writeInto_of_not_keeps h hkeep).1
    exact ⟨0, Nat.zero_le _, hbuffer.trans (advanceRead_zero h).symm⟩

/-- Every operation that stays inside the array keeps both positions in it. -/
theorem InBounds.perform (h : b.InBounds) {op : Operation} (hin : b.StaysInside op) :
    (b.perform op).buffer.InBounds ∧ (b.perform op).buffer.size = b.size := by
  have hmoved : ∀ c : CircularBuffer, (∃ k ≤ b.readAvailable, c = b.advanceRead k) →
      c.InBounds ∧ c.size = b.size := by
    rintro c ⟨k, -, rfl⟩
    exact ⟨h.advanceRead k, rfl⟩
  cases op with
  | reset =>
      have hpos := Nat.zero_lt_of_lt h.read
      exact ⟨⟨hpos, hpos, h.alloc⟩, rfl⟩
  | write bytes => exact h.write_bytes bytes
  | readFrom first second => exact h.readFrom hin
  | read n =>
      obtain ⟨k, hk, hbuffer, -⟩ := read_buffer h n
      exact hmoved _ ⟨k, hk, hbuffer⟩
  | seekRead offset =>
      exact hmoved _ ⟨_, (seekOffset_eq h).trans_le (Nat.min_le_right _ _), rfl⟩
  | findAndSeekRead byte => exact hmoved _ (findAndSeekRead_buffer h byte)
  | writeInto first second => exact hmoved _ (writeInto_buffer h first second)

/-! ## One step of conservation -/

theorem take_skipped (h : b.InBounds) {k : ℕ} (hk : k ≤ b.readAvailable) :
    b.skipped (b.advanceRead k) = b.content.take k := by
  rw [skipped, readAvailable_advanceRead h hk]
  congr 1
  omega

/-- What an operation that keeps its bytes accepts goes to the end of the
content, and what it removes comes from the front. -/
theorem content_perform (h : b.InBounds) {op : Operation} (hkeep : b.KeepsBytes op) :
    b.content ++ (b.perform op).accepted =
      (b.perform op).removed ++ (b.perform op).buffer.content := by
  have hmoved : ∀ k ≤ b.readAvailable,
      b.content = b.content.take k ++ (b.advanceRead k).content := by
    intro k hk
    rw [content_advanceRead h hk, List.take_append_drop]
  cases op with
  | reset => simp [perform, reset, content]
  | write bytes =>
      simp only [perform, List.nil_append]
      rcases Nat.lt_trichotomy bytes.length b.free with hlt | heq | hgt
      · obtain ⟨hvalue, hcontent⟩ := write_of_lt h hlt
        rw [hvalue, hcontent, if_pos rfl]
      · exact absurd heq hkeep
      · obtain ⟨hbuffer, hvalue⟩ := write_of_gt h hgt
        simp [hvalue, hbuffer]
  | readFrom first second =>
      simp only [perform, List.nil_append]
      rw [content_readFrom h hkeep]
  | read n =>
      obtain ⟨k, hk, hbuffer, hvalue⟩ := read_buffer h n
      simp only [perform, List.append_nil]
      rw [hbuffer, hvalue]
      exact hmoved k hk
  | seekRead offset =>
      have hk := (seekOffset_eq (n := offset) h).trans_le (Nat.min_le_right _ _)
      simp only [perform, List.append_nil]
      rw [seekRead, take_skipped h hk]
      exact hmoved _ hk
  | findAndSeekRead byte =>
      obtain ⟨k, hk, hbuffer⟩ := findAndSeekRead_buffer h byte
      simp only [perform, List.append_nil]
      rw [hbuffer, take_skipped h hk]
      exact hmoved k hk
  | writeInto first second =>
      obtain ⟨k, hk, hbuffer, hbytes⟩ := writeInto_of_keeps h hkeep
      simp only [perform, List.append_nil]
      rw [hbuffer, hbytes]
      exact hmoved k hk

/-- An operation that does not keep its bytes changes how many bytes there are
to account for. -/
theorem content_perform_ne (h : b.InBounds) {op : Operation} (hlose : ¬ b.KeepsBytes op) :
    (b.content ++ (b.perform op).accepted).length ≠
      ((b.perform op).removed ++ (b.perform op).buffer.content).length := by
  cases op with
  | reset | read _ | seekRead _ | findAndSeekRead _ => exact absurd trivial hlose
  | write bytes =>
      have heq : bytes.length = b.free := Classical.not_not.mp hlose
      obtain ⟨hvalue, hcontent⟩ := write_of_eq h heq
      have hpos := free_pos h
      simp only [perform, hvalue, hcontent, if_pos, List.length_append, List.length_nil]
      omega
  | readFrom first second =>
      have hlt := content_readFrom_length_lt h hlose
      simp only [perform, List.nil_append]
      omega
  | writeInto first second =>
      obtain ⟨hbuffer, hpos⟩ := writeInto_of_not_keeps h hlose
      simp only [perform, hbuffer, List.length_append, List.length_nil]
      omega

/-! ## One step of safety -/

theorem read_regions (h : b.InBounds) (n : ℕ) :
    ∀ region ∈ (b.read n).regions, region.Inside b.size := by
  have hread := h.read
  have hwrite := h.write
  rw [read]
  dsimp only
  split_ifs with hbig hwrap hshort hover hspace
  · simp
  · rw [subSize_of_le hread.le] at hshort
    simp only [List.mem_singleton, forall_eq, Region.Inside]
    omega
  · simp
  · rw [subSize_of_le hread.le] at hshort hover ⊢
    rw [subSize_of_le (by omega)]
    simp only [List.mem_cons, List.not_mem_nil, or_false, forall_eq_or_imp, forall_eq,
      Region.Inside]
    omega
  · simp
  · rw [subSize_of_le (by omega)] at hspace
    simp only [List.mem_singleton, forall_eq, Region.Inside]
    omega

theorem write_regions (h : b.InBounds) (bytes : List UInt8) :
    ∀ region ∈ (b.write bytes).regions, region.Inside b.size := by
  have hread := h.read
  have hwrite := h.write
  rw [write]
  dsimp only
  split_ifs with hbig hle hshort hover hspace
  · simp
  · rw [subSize_of_le hwrite.le] at hshort
    simp only [List.mem_singleton, forall_eq, Region.Inside]
    omega
  · simp
  · rw [subSize_of_le hwrite.le] at hshort hover ⊢
    rw [subSize_of_le (by omega)]
    simp only [List.mem_cons, List.not_mem_nil, or_false, forall_eq_or_imp, forall_eq,
      Region.Inside]
    omega
  · simp
  · rw [subSize_of_le (by omega)] at hspace
    simp only [List.mem_singleton, forall_eq, Region.Inside]
    omega

theorem findAndSeekRead_regions (h : b.InBounds) (byte : UInt8) :
    ∀ region ∈ (b.findAndSeekRead byte).regions, region.Inside b.size := by
  have hread := h.read
  have hwrite := h.write
  rw [findAndSeekRead]
  rcases Nat.lt_or_ge b.writePos b.readPos with hwrap | hle
  · rw [if_pos hwrap, subSize_of_le hread.le]
    dsimp only
    cases b.find b.readPos (b.size - b.readPos) byte with
    | some offset =>
        simp only [List.mem_singleton, forall_eq, Region.Inside]
        omega
    | none =>
        dsimp only
        split_ifs
        · simp only [List.mem_singleton, forall_eq, Region.Inside]
          omega
        · cases b.find 0 b.writePos byte <;>
            (simp only [List.mem_cons, List.not_mem_nil, or_false, forall_eq_or_imp,
              forall_eq, Region.Inside]; omega)
  · rw [if_neg (by omega), subSize_of_le hle]
    dsimp only
    cases b.find b.readPos (b.writePos - b.readPos) byte <;>
      (simp only [List.mem_singleton, forall_eq, Region.Inside]; omega)

theorem writeInto_regions (h : b.InBounds) (first second : WriteCall) :
    ∀ region ∈ (b.writeInto first second).regions, region.Inside b.size := by
  have hread := h.read
  have hwrite := h.write
  rcases Nat.lt_trichotomy b.writePos b.readPos with hwrap | heq | hlt
  · cases first with
    | throws =>
        rw [writeInto_throws h (by omega), if_pos hwrap]
        simp only [List.mem_singleton, forall_eq, Region.Inside]
        omega
    | takes count =>
        rcases Nat.lt_or_ge count (b.size - b.readPos) with hshort | hlong
        · rw [writeInto_wrapped_short h hwrap hshort]
          simp only [List.mem_singleton, forall_eq, Region.Inside]
          omega
        · cases second with
          | throws =>
              rw [writeInto_wrapped_throws h hwrap hlong]
              simp only [List.mem_cons, List.not_mem_nil, or_false, forall_eq_or_imp,
                forall_eq, Region.Inside]
              omega
          | takes more =>
              rw [writeInto_wrapped h hwrap hlong]
              simp only [List.mem_cons, List.not_mem_nil, or_false, forall_eq_or_imp,
                forall_eq, Region.Inside]
              omega
  · rw [writeInto_of_eq heq]
    simp
  · cases first with
    | throws =>
        rw [writeInto_throws h (by omega), if_neg (by omega)]
        simp only [List.mem_singleton, forall_eq, Region.Inside]
        omega
    | takes count =>
        rw [writeInto_unwrapped h hlt]
        simp only [List.mem_singleton, forall_eq, Region.Inside]
        omega

/-- Without the overrun, what `read_from` asks its source for lies inside the
array and is no more than is free. -/
theorem readFrom_regions (h : b.InBounds) {first : ReadCall} (second : ReadCall)
    (hover : ¬ b.Overruns first) :
    (∀ region ∈ (b.readFrom first second).regions, region.Inside b.size) ∧
      ((b.readFrom first second).regions.map Region.length).sum ≤ b.free := by
  have hread := h.read
  have hwrite := h.write
  have htwo : ∀ c : CircularBuffer, ∀ t : Transfer, b.readPos ≤ b.writePos →
      1 ≤ b.readPos →
      (∀ region ∈ (⟨c, t, [⟨b.writePos, b.size - b.writePos⟩,
        ⟨0, b.readPos - 1⟩]⟩ : Result Transfer).regions, region.Inside b.size) ∧
      ((⟨c, t, [⟨b.writePos, b.size - b.writePos⟩,
        ⟨0, b.readPos - 1⟩]⟩ : Result Transfer).regions.map Region.length).sum ≤
          b.free := by
    intro c t hle hpos
    rw [free_of_le hle]
    simp only [List.mem_cons, List.not_mem_nil, or_false, forall_eq_or_imp, forall_eq,
      Region.Inside, List.map_cons, List.map_nil, List.sum_cons, List.sum_nil]
    omega
  have hone : ∀ c : CircularBuffer, ∀ t : Transfer, ∀ n : ℕ, b.writePos + n ≤ b.size →
      n ≤ b.free →
      (∀ region ∈ (⟨c, t, [⟨b.writePos, n⟩]⟩ : Result Transfer).regions,
        region.Inside b.size) ∧
      ((⟨c, t, [⟨b.writePos, n⟩]⟩ : Result Transfer).regions.map Region.length).sum ≤
        b.free := by
    intro c t n hfit hfree
    simp only [List.mem_singleton, forall_eq, Region.Inside, List.map_cons, List.map_nil,
      List.sum_cons, List.sum_nil]
    omega
  rcases Nat.lt_or_ge b.writePos b.readPos with hwrap | hle
  · have hfree := free_of_lt h hwrap
    cases first with
    | throws =>
        rw [readFrom_throws h, if_neg (by omega)]
        exact hone _ _ _ (by omega) (by omega)
    | delivers bytes =>
        rw [readFrom_gap hwrap]
        exact hone _ _ _ (by omega) (by omega)
  · have hfree := free_of_le (b := b) hle
    cases first with
    | throws =>
        rw [readFrom_throws h, if_pos hle]
        exact hone _ _ _ (by omega) (by omega)
    | delivers bytes =>
        rcases Nat.lt_or_ge bytes.length (b.size - b.writePos) with hshort | hlong
        · rw [readFrom_short h hle hshort]
          exact hone _ _ _ (by omega) (by omega)
        · have hpos : b.readPos ≠ 0 := fun hzero => hover ⟨hle, hzero, hlong⟩
          rcases Nat.lt_or_ge 1 b.readPos with hgt | hle_one
          · have hfront : subSize b.readPos 1 = b.readPos - 1 := subSize_of_le (by omega)
            cases second with
            | throws =>
                rw [readFrom_front_throws h hle hlong (by omega), hfront]
                exact htwo _ _ hle (by omega)
            | delivers more =>
                rw [readFrom_front h hle hlong (by omega), hfront]
                exact htwo _ _ hle (by omega)
          · rw [readFrom_full h hle hlong (by omega)]
            exact hone _ _ _ (by omega) (by omega)

/-- The overrun hands the source a region of `SIZE_MAX` bytes. -/
theorem readFrom_overrun (h : b.InBounds) {first : ReadCall} (second : ReadCall)
    (hover : b.Overruns first) :
    ⟨0, 2 ^ 64 - 1⟩ ∈ (b.readFrom first second).regions := by
  cases first with
  | throws => exact False.elim hover
  | delivers bytes =>
      obtain ⟨hle, hzero, hlong⟩ := hover
      have hwrapped : subSize b.readPos 1 = 2 ^ 64 - 1 := by
        rw [hzero]
        rfl
      cases second with
      | throws =>
          rw [readFrom_front_throws h hle hlong (by omega), hwrapped]
          simp
      | delivers more =>
          rw [readFrom_front h hle hlong (by omega), hwrapped]
          simp

theorem perform_regions (h : b.InBounds) {op : Operation} (hin : b.StaysInside op) :
    ∀ region ∈ (b.perform op).regions, region.Inside b.size := by
  cases op with
  | reset => simp [perform]
  | write bytes => exact write_regions h bytes
  | readFrom first second => exact (readFrom_regions h second hin).1
  | read n => exact read_regions h n
  | seekRead offset => simp [perform]
  | findAndSeekRead byte => exact findAndSeekRead_regions h byte
  | writeInto first second => exact writeInto_regions h first second

end CircularBuffer

/-! ## The ledger of a run -/

/-- What one `read_from` asked its source for, and how many cells were free. -/
structure Request where
  asked : ℕ
  free : ℕ
  deriving DecidableEq, Repr

/-- A buffer together with the record of its run so far. -/
structure Ledger where
  buffer : CircularBuffer
  accepted : List UInt8 := []
  removed : List UInt8 := []
  regions : List Region := []
  requests : List Request := []

namespace Ledger

/-- A new buffer over memory that came from the allocator. -/
def start (memory : List UInt8) : Ledger := { buffer := .new memory }

/-- The request a `read_from` makes; other operations make none. -/
def request (b : CircularBuffer) : Operation → List Request
  | .readFrom first second =>
      [⟨((b.readFrom first second).regions.map Region.length).sum, b.free⟩]
  | _ => []

def step (ledger : Ledger) (op : Operation) : Ledger where
  buffer := (ledger.buffer.perform op).buffer
  accepted := ledger.accepted ++ (ledger.buffer.perform op).accepted
  removed := ledger.removed ++ (ledger.buffer.perform op).removed
  regions := ledger.regions ++ (ledger.buffer.perform op).regions
  requests := ledger.requests ++ request ledger.buffer op

/-- No byte was lost, duplicated or reordered. -/
def Conserved (ledger : Ledger) : Prop :=
  ledger.accepted = ledger.removed ++ ledger.buffer.content

/-- Both positions and every region used so far lie inside the array, and no
`read_from` asked for more than was free. -/
def Safe (ledger : Ledger) : Prop :=
  ledger.buffer.readPos < ledger.buffer.size ∧
    ledger.buffer.writePos < ledger.buffer.size ∧
    (∀ region ∈ ledger.regions, region.Inside ledger.buffer.size) ∧
    ∀ request ∈ ledger.requests, request.asked ≤ request.free

instance : DecidablePred Conserved := fun _ => inferInstanceAs (Decidable (_ = _))

instance : DecidablePred Safe :=
  fun ledger => inferInstanceAs (Decidable (_ ∧ _ ∧
    (∀ region ∈ ledger.regions, region.Inside ledger.buffer.size) ∧
    ∀ request ∈ ledger.requests, request.asked ≤ request.free))

theorem inBounds_start {memory : List UInt8} (hsize : 2 ≤ memory.length)
    (halloc : memory.length ≤ maxAllocation) : (start memory).buffer.InBounds :=
  ⟨Nat.zero_lt_of_lt hsize, Nat.zero_lt_of_lt hsize, halloc⟩

/-- A run conserves its bytes at every moment exactly when each of its steps
keeps them: no `write` and no `read_from` fills the last free cell, `read_from`
does not fill an array whose read position is `0`, and no device throws on the
second half of a transfer after the first half went through. -/
theorem conserved_iff_keepsBytes (memory : List UInt8) (hsize : 2 ≤ memory.length)
    (halloc : memory.length ≤ maxAllocation) (ops : List Operation) :
    HoldsThroughout step Conserved (start memory) ops ↔
      StepsMeet step (fun ledger op => ledger.buffer.KeepsBytes op) (start memory) ops := by
  refine holdsThroughout_iff_stepsMeet
    (I := fun ledger => ledger.buffer.InBounds ∧ ledger.Conserved) ?_ ?_ ?_ ?_ ops
  · rintro ledger op ⟨hbounds, hconserved⟩ hkeep
    refine ⟨(hbounds.perform hkeep.staysInside).1, ?_⟩
    have hstep := CircularBuffer.content_perform hbounds hkeep
    simp only [Conserved, step] at hconserved ⊢
    rw [hconserved, List.append_assoc, hstep, List.append_assoc]
  · exact fun ledger h => h.2
  · rintro ledger op ⟨hbounds, hconserved⟩ hlose hafter
    have hstep := CircularBuffer.content_perform_ne hbounds hlose
    simp only [Conserved, step] at hconserved hafter
    rw [hconserved, List.append_assoc, List.append_assoc, List.append_cancel_left_eq] at hafter
    exact hstep (congrArg List.length hafter)
  · exact ⟨inBounds_start hsize halloc, rfl⟩

/-- A run that wraps around once and conserves its bytes. -/
theorem conserved_wrapping_run :
    HoldsThroughout step Conserved (start [0, 0, 0, 0])
      [.write [1, 2, 3], .read 2, .readFrom (.delivers [4]) (.delivers [5, 6]),
        .writeInto (.takes 1) (.takes 4), .findAndSeekRead 9] :=
  (conserved_iff_keepsBytes [0, 0, 0, 0] (by decide) (by decide) _).mpr (by decide)

/-- Filling a new buffer to the brim loses all its bytes. -/
theorem not_conserved_brim_full :
    ¬ HoldsThroughout step Conserved (start [0, 0, 0, 0]) [.write [1, 2, 3, 4]] := by
  decide

/-- A run stays inside the array and its free cells exactly when no `read_from`
fills the array up to its end while the read position is `0`. -/
theorem safe_iff_staysInside (memory : List UInt8) (hsize : 2 ≤ memory.length)
    (halloc : memory.length ≤ maxAllocation) (ops : List Operation) :
    HoldsThroughout step Safe (start memory) ops ↔
      StepsMeet step (fun ledger op => ledger.buffer.StaysInside op) (start memory) ops := by
  refine holdsThroughout_iff_stepsMeet
    (I := fun ledger => ledger.buffer.InBounds ∧ ledger.Safe) ?_ ?_ ?_ ?_ ops
  · rintro ledger op ⟨hbounds, hsafe⟩ hin
    obtain ⟨hafter, hsame⟩ := hbounds.perform hin
    obtain ⟨-, -, hregions, hrequests⟩ := hsafe
    refine ⟨hafter, hafter.read, hafter.write, ?_, ?_⟩
    · intro region hregion
      show region.Inside (ledger.buffer.perform op).buffer.size
      rw [hsame]
      rcases List.mem_append.mp hregion with hold | hnew
      · exact hregions region hold
      · exact CircularBuffer.perform_regions hbounds hin region hnew
    · intro request hrequest
      rcases List.mem_append.mp hrequest with hold | hnew
      · exact hrequests request hold
      · cases op with
        | readFrom first second =>
            obtain rfl := List.mem_singleton.mp hnew
            exact (CircularBuffer.readFrom_regions hbounds second hin).2
        | _ => simp [Ledger.request] at hnew
  · exact fun ledger h => h.2
  · rintro ledger op ⟨hbounds, -⟩ hout hafter
    cases op with
    | readFrom first second =>
        have hover : ledger.buffer.Overruns first := Classical.not_not.mp hout
        have hrequest := hafter.2.2.2 _ (List.mem_append_right _ (List.mem_singleton_self _))
        have hmem := CircularBuffer.readFrom_overrun hbounds second hover
        have hsum := List.single_le_sum (by simp) _ (List.mem_map_of_mem (f := Region.length) hmem)
        have hsmall := hbounds.size_lt
        have hfree : ledger.buffer.free ≤ ledger.buffer.size := Nat.sub_le _ _
        simp only at hrequest hsum
        omega
    | _ => exact hout trivial
  · exact ⟨inBounds_start hsize halloc, Nat.zero_lt_of_lt hsize, Nat.zero_lt_of_lt hsize,
      by simp [start], by simp [start]⟩

/-- A source that delivers in two halves around the end of the array. -/
theorem safe_wrapping_run :
    HoldsThroughout step Safe (start [0, 0, 0, 0])
      [.write [1, 2, 3], .read 2, .readFrom (.delivers [4]) (.delivers [5, 6])] :=
  (safe_iff_staysInside [0, 0, 0, 0] (by decide) (by decide) _).mpr (by decide)

/-- A source that fills a new buffer is asked for `SIZE_MAX` further bytes. -/
theorem not_safe_fill_new :
    ¬ HoldsThroughout step Safe (start [0, 0])
        [.readFrom (.delivers [1, 2]) (.delivers [])] := by
  decide

end Ledger

end Obsr.Io
