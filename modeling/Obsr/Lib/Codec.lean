/-
# Writers and readers

A writer appends symbols to a buffer of fixed size, or fails; a reader takes
symbols off the front of a stream, or fails. The rules below say which symbols a
composed writer writes and a composed reader reads, so that a round trip follows
the structure of the two programs.

What a failed writer left in its buffer is dropped: a writer is only run on a
buffer that was reset before.
-/

import Mathlib

namespace Obsr.Lib

universe u

variable {σ α β : Type u}

/-- A buffer with the symbols written to it so far. -/
structure BoundedBuffer (σ : Type u) where
  size : ℕ
  written : List σ
  fits : written.length ≤ size

namespace BoundedBuffer

def empty (size : ℕ) : BoundedBuffer σ := ⟨size, [], Nat.zero_le size⟩

def room (b : BoundedBuffer σ) : ℕ := b.size - b.written.length

/-- Append symbols if there is room for all of them. -/
def append (b : BoundedBuffer σ) (symbols : List σ) : Option (BoundedBuffer σ) :=
  if h : b.written.length + symbols.length ≤ b.size then
    some ⟨b.size, b.written ++ symbols, by rwa [List.length_append]⟩
  else none

variable {b b' : BoundedBuffer σ} {symbols : List σ}

theorem append_of_le (h : b.written.length + symbols.length ≤ b.size) :
    b.append symbols = some ⟨b.size, b.written ++ symbols, by rwa [List.length_append]⟩ :=
  dif_pos h

theorem append_of_gt (h : b.size < b.written.length + symbols.length) :
    b.append symbols = none :=
  dif_neg (Nat.not_le_of_lt h)

theorem written_of_append (h : b.append symbols = some b') :
    b'.written = b.written ++ symbols ∧ b'.size = b.size := by
  unfold append at h
  split_ifs at h
  rw [← Option.some.inj h]
  exact ⟨rfl, rfl⟩

theorem append_eq_none_iff : b.append symbols = none ↔
    b.size < b.written.length + symbols.length := by
  unfold append
  split_ifs with h
  · exact iff_of_false id (Nat.not_lt_of_le h)
  · exact iff_of_true rfl (Nat.lt_of_not_le h)

@[simp]
theorem append_nil (b : BoundedBuffer σ) : b.append [] = some b := by
  rw [append_of_le (by simpa using b.fits)]
  simp

/-- Two pieces fit one after the other exactly if they fit together. -/
theorem append_append (b : BoundedBuffer σ) (first second : List σ) :
    ((b.append first).bind fun b => b.append second) = b.append (first ++ second) := by
  rcases Nat.lt_or_ge b.size (b.written.length + first.length) with hgt | hle
  · rw [append_of_gt hgt, append_of_gt (by rw [List.length_append]; omega)]
    rfl
  · rw [append_of_le hle, Option.bind_some]
    rcases Nat.lt_or_ge b.size (b.written.length + first.length + second.length) with
      hgt | hboth
    · rw [append_of_gt (by simp only [List.length_append]; omega),
        append_of_gt (by simp only [List.length_append]; omega)]
    · rw [append_of_le (by simp only [List.length_append]; omega),
        append_of_le (by simp only [List.length_append]; omega)]
      simp

end BoundedBuffer

/-! ## Writers -/

abbrev SymbolWriter (σ : Type u) := BoundedBuffer σ → Option (BoundedBuffer σ)

namespace SymbolWriter

def done : SymbolWriter σ := some

/-- One writer, then the other. -/
def andThen (first second : SymbolWriter σ) : SymbolWriter σ := fun b => (first b).bind second

/-- A writer that refuses to start. -/
def guarded (accepts : Bool) (writer : SymbolWriter σ) : SymbolWriter σ := fun b =>
  if accepts then writer b else none

/-- Write the elements of a list in order. -/
def each (element : α → SymbolWriter σ) : List α → SymbolWriter σ
  | [] => done
  | a :: as => (element a).andThen (each element as)

/-- The writer appends these symbols, wherever they fit. -/
def Writes (writer : SymbolWriter σ) (symbols : List σ) : Prop := ∀ b, writer b = b.append symbols

theorem writes_done : Writes (done : SymbolWriter σ) [] := fun b => b.append_nil.symm

theorem Writes.andThen {first second : SymbolWriter σ} {symbols symbols' : List σ}
    (h : Writes first symbols) (h' : Writes second symbols') :
    Writes (first.andThen second) (symbols ++ symbols') := by
  intro b
  rw [← b.append_append, SymbolWriter.andThen, h b]
  exact congrArg ((b.append symbols).bind) (funext h')

theorem Writes.each {element : α → SymbolWriter σ} {encode : α → List σ}
    (h : ∀ a, Writes (element a) (encode a)) (as : List α) :
    Writes (each element as) (as.flatMap encode) := by
  induction as with
  | nil => exact writes_done
  | cons a as ih => exact (h a).andThen ih

theorem Writes.guarded {writer : SymbolWriter σ} {symbols : List σ} (h : Writes writer symbols) :
    Writes (guarded true writer) symbols := h

/-- What a writer leaves in a buffer that was empty. -/
theorem Writes.written {writer : SymbolWriter σ} {symbols : List σ} (h : Writes writer symbols)
    {size : ℕ} {b : BoundedBuffer σ} (hwrite : writer (BoundedBuffer.empty size) = some b) :
    b.written = symbols := by
  rw [h] at hwrite
  have hwritten := (BoundedBuffer.written_of_append hwrite).1
  rwa [BoundedBuffer.empty, List.nil_append] at hwritten

/-- A writer fits an empty buffer exactly if its symbols do. -/
theorem Writes.eq_none_iff {writer : SymbolWriter σ} {symbols : List σ}
    (h : Writes writer symbols) (size : ℕ) :
    writer (BoundedBuffer.empty size) = none ↔ size < symbols.length := by
  rw [h, BoundedBuffer.append_eq_none_iff]
  simp [BoundedBuffer.empty]

/-- The writer fails whatever the buffer. -/
def Refuses (writer : SymbolWriter σ) : Prop := ∀ b, writer b = none

theorem Refuses.andThen {first : SymbolWriter σ} (h : Refuses first)
    (second : SymbolWriter σ) : Refuses (first.andThen second) := by
  intro b
  rw [SymbolWriter.andThen, h b, Option.bind_none]

theorem Refuses.after {second : SymbolWriter σ} (h : Refuses second)
    (first : SymbolWriter σ) : Refuses (first.andThen second) := by
  intro b
  rw [SymbolWriter.andThen, Option.bind_eq_none_iff]
  intro b' _
  exact h b'

theorem refuses_guarded (writer : SymbolWriter σ) : Refuses (guarded false writer) :=
  fun _ => rfl

/-- The writer puts symbols into the buffer it is given. -/
def KeepsSize (writer : SymbolWriter σ) : Prop := ∀ b b', writer b = some b' → b'.size = b.size

theorem Writes.keepsSize {writer : SymbolWriter σ} {symbols : List σ} (h : Writes writer symbols) :
    KeepsSize writer := by
  intro b b' hwrite
  rw [h b] at hwrite
  exact (BoundedBuffer.written_of_append hwrite).2

theorem Refuses.keepsSize {writer : SymbolWriter σ} (h : Refuses writer) : KeepsSize writer := by
  intro b b' hwrite
  cases (h b).symm.trans hwrite

theorem KeepsSize.andThen {first second : SymbolWriter σ} (h : KeepsSize first)
    (h' : KeepsSize second) : KeepsSize (first.andThen second) := by
  intro b b'' hwrite
  obtain ⟨b', hfirst, hsecond⟩ := Option.bind_eq_some_iff.mp hwrite
  exact (h' b' b'' hsecond).trans (h b b' hfirst)

theorem KeepsSize.guarded {writer : SymbolWriter σ} (h : KeepsSize writer) (accepts : Bool) :
    KeepsSize (guarded accepts writer) := by
  cases accepts with
  | true => exact h
  | false => exact (refuses_guarded writer).keepsSize

theorem KeepsSize.each {element : α → SymbolWriter σ} (h : ∀ a, KeepsSize (element a))
    (as : List α) : KeepsSize (each element as) := by
  induction as with
  | nil => exact writes_done.keepsSize
  | cons a as ih => exact (h a).andThen ih

/-- What such a writer puts into an empty buffer fits it. -/
theorem KeepsSize.length_le {writer : SymbolWriter σ} (h : KeepsSize writer) {size : ℕ}
    {b : BoundedBuffer σ} (hwrite : writer (BoundedBuffer.empty size) = some b) :
    b.written.length ≤ size := by
  have hsize : b.size = size := h _ b hwrite
  exact hsize ▸ b.fits

end SymbolWriter

/-! ## Readers -/

abbrev SymbolReader (σ : Type u) (α : Type u) := StateT (List σ) Option α

namespace SymbolReader

/-- The reader takes exactly these symbols, whatever follows them. -/
def Reads (reader : SymbolReader σ α) (symbols : List σ) (a : α) : Prop :=
  ∀ rest, reader (symbols ++ rest) = some (a, rest)

theorem reads_pure (a : α) : Reads (pure a : SymbolReader σ α) [] a := fun _ => rfl

theorem Reads.bind {reader : SymbolReader σ α} {next : α → SymbolReader σ β}
    {symbols symbols' : List σ} {a : α} {b : β}
    (h : Reads reader symbols a) (h' : Reads (next a) symbols' b) :
    Reads (reader >>= next) (symbols ++ symbols') b := by
  intro rest
  show (reader (symbols ++ symbols' ++ rest)).bind (fun found => next found.1 found.2) = _
  rw [List.append_assoc, h, Option.bind_some, h']

theorem Reads.map {reader : SymbolReader σ α} {symbols : List σ} {a : α}
    (h : Reads reader symbols a) (f : α → β) : Reads (f <$> reader) symbols (f a) := by
  intro rest
  show (reader (symbols ++ rest)).bind (fun found => some (f found.1, found.2)) = _
  rw [h, Option.bind_some]

/-- Symbols behind those a reader takes do not change what it does. -/
def Steady (reader : SymbolReader σ α) : Prop :=
  ∀ stream a rest more, reader stream = some (a, rest) →
    reader (stream ++ more) = some (a, rest ++ more)

theorem steady_pure (a : α) : Steady (pure a : SymbolReader σ α) := by
  intro stream a' rest more h
  cases h
  rfl

theorem Steady.bind {reader : SymbolReader σ α} {next : α → SymbolReader σ β}
    (h : Steady reader) (h' : ∀ a, Steady (next a)) : Steady (reader >>= next) := by
  intro stream b rest more hread
  obtain ⟨⟨a, between⟩, hfirst, hsecond⟩ := Option.bind_eq_some_iff.mp hread
  show (reader (stream ++ more)).bind (fun found => next found.1 found.2) = _
  rw [h stream a between more hfirst, Option.bind_some, h' a between b rest more hsecond]

theorem Steady.map {reader : SymbolReader σ α} (h : Steady reader) (f : α → β) :
    Steady (f <$> reader) := by
  intro stream b rest more hread
  obtain ⟨⟨a, between⟩, hfirst, hsecond⟩ := Option.bind_eq_some_iff.mp hread
  obtain ⟨rfl, rfl⟩ := Prod.mk.inj (Option.some.inj hsecond)
  show (reader (stream ++ more)).bind (fun found => some (f found.1, found.2)) = _
  rw [h stream a between more hfirst, Option.bind_some]

end SymbolReader

end Obsr.Lib
