/-
# Framed streams

A stream of frames, each a header of fixed width that tells the length of the
payload behind it. A receiver that sees the stream in pieces is between two
frames or behind a header; what it holds and what is still to come together
carry the frames it has not delivered yet.
-/

import Mathlib

namespace Obsr.Lib

universe u v

/-- How headers of type `η` are written as symbols of type `α`. -/
structure Format (η : Type u) (α : Type v) where
  width : ℕ
  encode : η → List α
  payloadSize : η → ℕ
  length_encode : ∀ header, (encode header).length = width

namespace Format

variable {η : Type u} {α : Type v}

/-- A header with a payload of the length it tells. -/
structure Frame (format : Format η α) where
  header : η
  payload : List α
  length_payload : payload.length = format.payloadSize header

variable {format : Format η α}

def Frame.symbols (frame : Frame format) : List α :=
  format.encode frame.header ++ frame.payload

def stream (frames : List (Frame format)) : List α := frames.flatMap Frame.symbols

/-- Between two frames, or behind the given header, the symbols carry the
frames. -/
def Carries (format : Format η α) (behind : Option η) (symbols : List α)
    (frames : List (Frame format)) : Prop :=
  match behind with
  | none => symbols = stream frames
  | some header => ∃ frame rest, frames = frame :: rest ∧ frame.header = header ∧
      symbols = frame.payload ++ stream rest

/-- What has arrived does not complete a header, or the payload of one. -/
def Waiting (format : Format η α) (behind : Option η) (arrived : List α) : Prop :=
  match behind with
  | none => arrived.length < format.width
  | some header => arrived.length < format.payloadSize header

@[simp]
theorem stream_nil : stream ([] : List (Frame format)) = [] := rfl

@[simp]
theorem stream_cons (frame : Frame format) (frames : List (Frame format)) :
    stream (frame :: frames) = format.encode frame.header ++ (frame.payload ++ stream frames) := by
  simp [stream, Frame.symbols]

theorem stream_append (frames frames' : List (Frame format)) :
    stream (frames ++ frames') = stream frames ++ stream frames' := by
  simp [stream]

variable {behind : Option η} {symbols arrived more : List α} {frames : List (Frame format)}

/-- Frames that are sent go to the end of what is carried. -/
theorem Carries.append (h : format.Carries behind symbols frames)
    (sent : List (Frame format)) :
    format.Carries behind (symbols ++ stream sent) (frames ++ sent) := by
  cases behind with
  | none =>
      show symbols ++ stream sent = stream (frames ++ sent)
      rw [stream_append]
      exact congrArg (· ++ stream sent) h
  | some header =>
      obtain ⟨frame, rest, rfl, hheader, rfl⟩ := h
      refine ⟨frame, rest ++ sent, rfl, hheader, ?_⟩
      rw [stream_append, List.append_assoc]

/-- A complete header is that of the next frame. -/
theorem Carries.header (h : format.Carries none (arrived ++ more) frames)
    (hwidth : 0 < format.width) (hlong : format.width ≤ arrived.length) :
    ∃ frame rest, frames = frame :: rest ∧
      arrived.take format.width = format.encode frame.header ∧
      format.Carries (some frame.header) (arrived.drop format.width ++ more) frames := by
  cases frames with
  | nil =>
      have hnil := (List.append_eq_nil_iff.mp (show arrived ++ more = [] from h)).1
      rw [hnil, List.length_nil] at hlong
      exact absurd hwidth (Nat.not_lt_of_le hlong)
  | cons frame rest =>
      have hstream : arrived ++ more =
          format.encode frame.header ++ (frame.payload ++ stream rest) :=
        Eq.trans (b := stream (frame :: rest)) h (stream_cons frame rest)
      have hlength := format.length_encode frame.header
      refine ⟨frame, rest, rfl, ?_, frame, rest, rfl, rfl, ?_⟩
      · have htake := congrArg (List.take format.width) hstream
        rwa [List.take_append_of_le_length hlong, List.take_append_of_le_length hlength.ge,
          List.take_of_length_le hlength.le] at htake
      · have hdrop := congrArg (List.drop format.width) hstream
        rwa [List.drop_append_of_le_length hlong, List.drop_append_of_le_length hlength.ge,
          List.drop_of_length_le hlength.le, List.nil_append] at hdrop

/-- A complete payload is that of the next frame. -/
theorem Carries.payload {header : η} (h : format.Carries (some header) (arrived ++ more) frames)
    (hlong : format.payloadSize header ≤ arrived.length) :
    ∃ frame rest, frames = frame :: rest ∧ frame.header = header ∧
      arrived.take (format.payloadSize header) = frame.payload ∧
      format.Carries none (arrived.drop (format.payloadSize header) ++ more) rest := by
  obtain ⟨frame, rest, rfl, rfl, hstream⟩ := h
  have hlength := frame.length_payload
  refine ⟨frame, rest, rfl, rfl, ?_, ?_⟩
  · have htake := congrArg (List.take (format.payloadSize frame.header)) hstream
    rwa [List.take_append_of_le_length hlong, List.take_append_of_le_length hlength.ge,
      List.take_of_length_le hlength.le] at htake
  · have hdrop := congrArg (List.drop (format.payloadSize frame.header)) hstream
    rwa [List.drop_append_of_le_length hlong, List.drop_append_of_le_length hlength.ge,
      List.drop_of_length_le hlength.le, List.nil_append] at hdrop

/-- Between two frames the next symbols start a header. -/
theorem Carries.starts (h : format.Carries none (arrived ++ more) frames) :
    (arrived = [] ∨ ∃ frame rest, frames = frame :: rest) := by
  cases frames with
  | nil => exact Or.inl (List.append_eq_nil_iff.mp (show arrived ++ more = [] from h)).1
  | cons frame rest => exact Or.inr ⟨frame, rest, rfl⟩

/-- A delivered frame takes its header and its payload out of what is carried. -/
theorem Carries.length_le {frame : Frame format} {rest : List (Frame format)} {after : List α}
    (h : format.Carries behind symbols (frame :: rest)) (hafter : format.Carries none after rest) :
    after.length + (if behind = none then format.width else 0) ≤ symbols.length := by
  have hrest : after = stream rest := hafter
  cases behind with
  | none =>
      have hstream : symbols = stream (frame :: rest) := h
      rw [hstream, stream_cons, hrest, List.length_append, List.length_append,
        format.length_encode, if_pos rfl]
      omega
  | some header =>
      obtain ⟨_, _, hsplit, -, rfl⟩ := h
      obtain ⟨rfl, rfl⟩ := List.cons.inj hsplit
      rw [hrest, List.length_append, if_neg (by simp)]
      omega

/-- A receiver that waits although everything has arrived has delivered all. -/
theorem Carries.eq_nil (h : format.Carries behind arrived frames)
    (hwaiting : format.Waiting behind arrived) : frames = [] := by
  cases behind with
  | none =>
      cases frames with
      | nil => rfl
      | cons frame rest =>
          have hlength := congrArg List.length (show arrived = stream (frame :: rest) from h)
          rw [stream_cons, List.length_append, format.length_encode] at hlength
          have hshort : arrived.length < format.width := hwaiting
          omega
  | some header =>
      obtain ⟨frame, rest, -, rfl, rfl⟩ := h
      have hshort : (frame.payload ++ stream rest).length < format.payloadSize frame.header :=
        hwaiting
      rw [List.length_append, frame.length_payload] at hshort
      omega

end Format

end Obsr.Lib
