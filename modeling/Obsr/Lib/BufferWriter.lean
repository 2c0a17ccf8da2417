/-
# Writers and what they leave

A writer with a verdict. What it has written before it failed stays in the buffer, so its
next run needs a buffer that was reset. Without what a failed run leaves, such a writer is
a writer of symbols.
-/

import Obsr.Lib.Codec

namespace Obsr.Lib

universe u

variable {σ α : Type u}

/-- A run over a buffer: whether it succeeds, and the buffer it leaves, of the same size. -/
structure BufferWriter (σ : Type u) where
  run : BoundedBuffer σ → Bool × BoundedBuffer σ
  keepsSize : ∀ b, (run b).2.size = b.size

namespace BufferWriter

def done : BufferWriter σ := ⟨fun b => (true, b), fun _ => rfl⟩

def fail : BufferWriter σ := ⟨fun b => (false, b), fun _ => rfl⟩

/-- All of the symbols, or none of them. -/
def write (symbols : List σ) : BufferWriter σ where
  run b :=
    match b.append symbols with
    | some b' => (true, b')
    | none => (false, b)
  keepsSize b := by
    cases happend : b.append symbols with
    | some b' => exact (BoundedBuffer.written_of_append happend).2
    | none => rfl

/-- One writer, then the other if it has succeeded. -/
def andThen (first second : BufferWriter σ) : BufferWriter σ where
  run b :=
    match first.run b with
    | (true, b) => second.run b
    | (false, b) => (false, b)
  keepsSize b := by
    have hfirst := first.keepsSize b
    rcases hrun : first.run b with ⟨written, between⟩
    rw [hrun] at hfirst
    cases written with
    | true => exact (second.keepsSize between).trans hfirst
    | false => exact hfirst

/-- A writer that refuses to start. -/
def guarded (accepts : Bool) (writer : BufferWriter σ) : BufferWriter σ :=
  if accepts then writer else fail

/-- Write the elements of a list in order. -/
def each (element : α → BufferWriter σ) : List α → BufferWriter σ
  | [] => done
  | a :: as => (element a).andThen (each element as)

/-- The writer without what a failed run leaves. -/
def toSymbolWriter (writer : BufferWriter σ) : SymbolWriter σ := fun b =>
  match writer.run b with
  | (true, b) => some b
  | (false, _) => none

@[simp]
theorem toSymbolWriter_done : (done : BufferWriter σ).toSymbolWriter = SymbolWriter.done := rfl

@[simp]
theorem toSymbolWriter_write (symbols : List σ) :
    (write symbols).toSymbolWriter = fun b => b.append symbols := by
  funext b
  dsimp only [toSymbolWriter, write]
  cases b.append symbols <;> rfl

@[simp]
theorem toSymbolWriter_andThen (first second : BufferWriter σ) :
    (first.andThen second).toSymbolWriter =
      first.toSymbolWriter.andThen second.toSymbolWriter := by
  funext b
  simp only [toSymbolWriter, andThen, SymbolWriter.andThen]
  rcases first.run b with ⟨written, b'⟩
  cases written <;> rfl

@[simp]
theorem toSymbolWriter_guarded (accepts : Bool) (writer : BufferWriter σ) :
    (guarded accepts writer).toSymbolWriter =
      SymbolWriter.guarded accepts writer.toSymbolWriter := by
  funext b
  cases accepts <;> rfl

@[simp]
theorem toSymbolWriter_each (element : α → BufferWriter σ) (as : List α) :
    (each element as).toSymbolWriter =
      SymbolWriter.each (fun a => (element a).toSymbolWriter) as := by
  induction as with
  | nil => rfl
  | cons a as ih => rw [each, toSymbolWriter_andThen, ih, SymbolWriter.each]

end BufferWriter

end Obsr.Lib
