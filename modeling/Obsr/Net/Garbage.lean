/-
# Frames behind garbage

A reader looks for the magic byte, takes the eleven bytes of a header from there, and only
then looks at the version. A magic byte in the garbage before a frame therefore costs the
ten bytes behind it, whatever they are. The reader finds the frame exactly if no such loss
reaches it.
-/

import Obsr.Net.Segmentation

namespace Obsr.Net

open Obsr.Io Obsr.Lib

namespace Reader

/-- The bytes that are still to be lost, one byte later. -/
def lose (missing : ℕ) (byte : UInt8) : ℕ :=
  if missing = 0 then
    if byte = MessageHeader.messageMagic then MessageHeader.sizeOf - 1 else 0
  else missing - 1

/-- The bytes that garbage costs what stands behind it. -/
def lost (garbage : List UInt8) : ℕ := garbage.foldl lose 0

/-- In front of the frame there is nothing that looks like the header of one. -/
def NoHeaderIn (garbage frame : List UInt8) : Prop :=
  ∀ k < garbage.length,
    ¬ [MessageHeader.messageMagic, MessageHeader.currentVersion] <+: (garbage ++ frame).drop k

instance (garbage frame : List UInt8) : Decidable (NoHeaderIn garbage frame) :=
  inferInstanceAs (Decidable (∀ k < garbage.length, ¬ _))

variable {garbage bytes rest : List UInt8} {frame : Format.Frame MessageHeader.format}

theorem NoHeaderIn.drop (h : NoHeaderIn garbage bytes) (n : ℕ) :
    NoHeaderIn (garbage.drop n) bytes := by
  intro k hk
  rw [List.length_drop] at hk
  have hlater := h (n + k) (by omega)
  rwa [← List.drop_drop, List.drop_append_of_le_length (by omega)] at hlater

/-! ## What garbage costs -/

theorem lost_cons_of_ne {byte : UInt8} (h : byte ≠ MessageHeader.messageMagic) :
    lost (byte :: garbage) = lost garbage := by
  rw [lost, List.foldl_cons, lose, if_pos rfl, if_neg h, lost]

theorem foldl_lose_of_le {missing : ℕ} (h : missing ≤ garbage.length) :
    garbage.foldl lose missing = lost (garbage.drop missing) := by
  induction missing generalizing garbage with
  | zero => rfl
  | succ missing ih =>
      obtain ⟨byte, garbage, rfl⟩ :=
        List.exists_cons_of_length_pos (Nat.zero_lt_of_lt h)
      rw [List.foldl_cons, lose, if_neg (Nat.succ_ne_zero _), List.drop_succ_cons]
      exact ih (Nat.le_of_succ_le_succ h)

theorem foldl_lose_of_gt {missing : ℕ} (h : garbage.length ≤ missing) :
    garbage.foldl lose missing = missing - garbage.length := by
  induction garbage generalizing missing with
  | nil => rfl
  | cons byte garbage ih =>
      rw [List.length_cons] at h ⊢
      rw [List.foldl_cons, lose, if_neg (by omega), ih (by omega)]
      omega

/-- Up to the first magic byte nothing is lost. -/
theorem lost_seek (garbage : List UInt8) : lost (seek garbage) = lost garbage := by
  induction garbage with
  | nil => rfl
  | cons byte garbage ih =>
      by_cases hmagic : byte = MessageHeader.messageMagic
      · rw [seek, List.dropWhile_cons_of_neg (by simpa using hmagic)]
      · rw [lost_cons_of_ne hmagic, ← ih, seek, List.dropWhile_cons_of_pos (by simpa using hmagic),
          seek]

theorem seek_eq_cons (h : seek bytes ≠ []) :
    ∃ tail, seek bytes = MessageHeader.messageMagic :: tail := by
  obtain ⟨byte, tail, hcons⟩ := List.exists_cons_of_ne_nil h
  have hhead := List.head?_dropWhile_not (· ≠ MessageHeader.messageMagic) bytes
  rw [← seek, hcons] at hhead
  have hbyte : byte = MessageHeader.messageMagic := by simpa using hhead
  exact ⟨tail, hbyte ▸ hcons⟩

/-- A magic byte with a whole header behind it costs that header. -/
theorem lost_of_le (h : MessageHeader.sizeOf ≤ (seek garbage).length) :
    lost garbage = lost ((seek garbage).drop MessageHeader.sizeOf) := by
  have hpos : 0 < MessageHeader.sizeOf := by decide
  obtain ⟨tail, htail⟩ := seek_eq_cons (List.ne_nil_of_length_pos (hpos.trans_le h))
  rw [htail, List.length_cons] at h
  rw [← lost_seek, htail, lost, List.foldl_cons, lose, if_pos rfl, if_pos rfl,
    foldl_lose_of_le (by omega)]
  rfl

/-- A magic byte with less behind it costs what comes after the garbage. -/
theorem lost_of_lt (hne : seek garbage ≠ [])
    (h : (seek garbage).length < MessageHeader.sizeOf) :
    lost garbage = MessageHeader.sizeOf - (seek garbage).length := by
  obtain ⟨tail, htail⟩ := seek_eq_cons hne
  rw [htail, List.length_cons] at h ⊢
  rw [← lost_seek, htail, lost, List.foldl_cons, lose, if_pos rfl, if_pos rfl,
    foldl_lose_of_gt (by omega)]
  omega

theorem lost_of_eq_nil (h : seek garbage = []) : lost garbage = 0 := by
  rw [← lost_seek, h]
  rfl

/-! ## The search -/

theorem length_of_nextHeader_add {header : MessageHeader}
    (h : nextHeader bytes = some (header, rest)) :
    rest.length + MessageHeader.sizeOf ≤ bytes.length := by
  induction bytes using nextHeader.induct with
  | case1 bytes hshort =>
      rw [nextHeader, dif_pos hshort] at h
      cases h
  | case2 bytes hlong hunsupported ih =>
      rw [nextHeader, dif_neg hlong, if_pos hunsupported] at h
      have hle := length_seek_le bytes
      have hrest := ih h
      rw [List.length_drop] at hrest
      omega
  | case3 bytes hlong hsupported =>
      rw [nextHeader, dif_neg hlong, if_neg hsupported] at h
      cases h
      have hle := length_seek_le bytes
      rw [List.length_drop]
      omega

/-- A header at a magic byte that the version does not follow. -/
theorem unsupported_of_not_prefix {tail : List UInt8}
    (hlong : MessageHeader.sizeOf ≤ (MessageHeader.messageMagic :: tail).length)
    (h : ¬ [MessageHeader.messageMagic, MessageHeader.currentVersion] <+:
      MessageHeader.messageMagic :: tail) :
    Unsupported (MessageHeader.ofBytes
      ((MessageHeader.messageMagic :: tail).take MessageHeader.sizeOf)) := by
  rw [MessageHeader.sizeOf, List.length_cons] at hlong
  obtain ⟨version, tail, rfl⟩ :=
    List.exists_cons_of_length_pos (show 0 < tail.length by omega)
  refine Or.inr fun hversion => h ?_
  obtain rfl : version = MessageHeader.currentVersion := hversion
  exact ⟨tail, rfl⟩

theorem seek_symbols (hsupported : Supported frame.header) :
    seek frame.symbols = frame.symbols := by
  have hmagic : frame.symbols = MessageHeader.messageMagic :: frame.symbols.tail := by
    rw [← hsupported.magic]
    rfl
  rw [hmagic, seek, List.dropWhile_cons_of_neg (by simp)]

theorem length_symbols (frame : Format.Frame MessageHeader.format) :
    frame.symbols.length = MessageHeader.sizeOf + frame.payload.length := by
  rw [Format.Frame.symbols, List.length_append, MessageHeader.format.length_encode]
  rfl

theorem nextHeader_symbols (hsupported : Supported frame.header) :
    nextHeader frame.symbols = some (frame.header, frame.payload) := by
  have hlength : frame.header.toBytes.length = MessageHeader.sizeOf :=
    MessageHeader.length_toBytes _
  have hsymbols : frame.symbols = frame.header.toBytes ++ frame.payload := rfl
  have hlong : ¬ frame.symbols.length < MessageHeader.sizeOf := by
    rw [length_symbols]
    omega
  rw [nextHeader, seek_symbols hsupported, dif_neg hlong, hsymbols, ← hlength, List.take_left,
    List.drop_left, MessageHeader.ofBytes_toBytes, if_neg]
  rintro (hmagic | hversion)
  · exact hmagic hsupported.magic
  · exact hversion hsupported.version

/-- What the search finds behind garbage: the frame, or a header that leaves less than
the frame holds. -/
theorem nextHeader_garbage (hsupported : Supported frame.header)
    (hnone : NoHeaderIn garbage frame.symbols) :
    (lost garbage = 0 →
      nextHeader (garbage ++ frame.symbols) = some (frame.header, frame.payload)) ∧
    (lost garbage ≠ 0 → ∀ header rest,
      nextHeader (garbage ++ frame.symbols) = some (header, rest) →
        rest.length < frame.payload.length) := by
  have hheader : MessageHeader.sizeOf = 11 := rfl
  induction hn : garbage.length using Nat.strong_induction_on generalizing garbage with
  | _ n ih =>
      have hle := length_seek_le garbage
      by_cases hnil : seek garbage = []
      · have hsame : nextHeader (garbage ++ frame.symbols) = nextHeader frame.symbols :=
          nextHeader_congr (seek_append_of_eq_nil hnil)
        rw [hsame, nextHeader_symbols hsupported, lost_of_eq_nil hnil]
        exact ⟨fun _ => rfl, fun hlost => absurd rfl hlost⟩
      · obtain ⟨tail, htail⟩ := seek_eq_cons hnil
        -- the header the search stops at is not one
        have hsuffix : seek garbage <:+ garbage := List.dropWhile_suffix _
        have hdrop := List.suffix_iff_eq_drop.mp hsuffix
        have hpos : 0 < (seek garbage).length := List.length_pos_of_ne_nil hnil
        have hhere := hnone (garbage.length - (seek garbage).length) (by omega)
        rw [List.drop_append_of_le_length (Nat.sub_le _ _), ← hdrop] at hhere
        have hsymbols := length_symbols frame
        have hwhole : MessageHeader.sizeOf ≤ (seek garbage ++ frame.symbols).length := by
          rw [List.length_append]
          omega
        have hunsupported : Unsupported (MessageHeader.ofBytes
            ((seek garbage ++ frame.symbols).take MessageHeader.sizeOf)) := by
          rw [htail, List.cons_append] at hhere hwhole ⊢
          exact unsupported_of_not_prefix hwhole hhere
        have hnext : nextHeader (garbage ++ frame.symbols) =
            nextHeader ((seek garbage ++ frame.symbols).drop MessageHeader.sizeOf) := by
          rw [nextHeader, seek_append_of_ne_nil hnil, dif_neg (Nat.not_lt.mpr hwhole),
            if_pos hunsupported]
        rw [hnext]
        rcases Nat.lt_or_ge (seek garbage).length MessageHeader.sizeOf with hshort | hlong
        · rw [lost_of_lt hnil hshort]
          refine ⟨fun hzero => by omega, fun _ header rest hfound => ?_⟩
          have hrest := length_of_nextHeader_add hfound
          rw [List.length_drop, List.length_append] at hrest
          omega
        · rw [lost_of_le hlong, List.drop_append_of_le_length hlong]
          have hlater : NoHeaderIn ((seek garbage).drop MessageHeader.sizeOf) frame.symbols := by
            rw [hdrop, List.drop_drop]
            exact hnone.drop _
          exact ih _ (by rw [List.length_drop]; omega) hlater rfl

/-! ## The first message -/

/-- A reader that has not run, with bytes in its buffer. -/
def fresh (data : ReadData) (buffer : CircularBuffer) : Reader where
  machine := { state := .start, userState := .header, errorCode := 0, data }
  readBuffer := buffer

/-- The machine has read the message of the frame. -/
structure Holds (r : Reader) (frame : Format.Frame MessageHeader.format) : Prop where
  noError : r.machine.isErrored = false
  finished : r.machine.isFinished = true
  header : r.machine.data.header = frame.header
  message : r.machine.data.messageBuffer = frame.payload

/-- What the machine reads is the first message of the bytes in its buffer. -/
theorem holds_process_iff {r : Reader} (hbounds : r.readBuffer.InBounds)
    (hwaits : Waits r.machine none) :
    r.process.Holds frame ↔
      (firstOf none r.readBuffer.content).map Prod.fst = some (frame.header, frame.payload) := by
  have hnow : ∀ {messages}, messagesOf none r.readBuffer.content = messages →
      ((firstOf none r.readBuffer.content).map Prod.fst = messages.head?) := by
    rintro messages rfl
    cases hfirst : firstOf none r.readBuffer.content with
    | none => rw [messagesOf_of_none hfirst]; rfl
    | some first => rw [messagesOf_of_some hfirst]; rfl
  cases follows_process hbounds hwaits with
  | failed failed nothing =>
      have hempty := nothing []
      rw [List.append_nil] at hempty
      rw [hnow hempty]
      refine iff_of_false (fun hholds => ?_) (by simp)
      exact Bool.false_ne_true (hholds.noError.symm.trans failed.isErrored)
  | waits behind' waits nothing resumes =>
      rw [hnow nothing]
      refine iff_of_false (fun hholds => ?_) (by simp)
      exact Bool.false_ne_true (waits.isFinished.symm.trans hholds.finished)
  | delivers delivering carries =>
      have hmessages := carries []
      rw [List.append_nil] at hmessages
      rw [hnow hmessages, List.head?_cons, Option.some.injEq, Prod.mk.injEq]
      constructor
      · intro hholds
        exact ⟨hholds.header, hholds.message⟩
      · rintro ⟨hheader, hmessage⟩
        exact ⟨delivering.isErrored, delivering.isFinished, hheader, hmessage⟩

/-- A frame behind garbage is the first message exactly if the garbage costs none of its
bytes. -/
theorem holds_garbage_iff {data : ReadData} {buffer : CircularBuffer}
    (hbounds : buffer.InBounds) (hcontent : buffer.content = garbage ++ frame.symbols)
    (hsupported : Supported frame.header) (hnone : NoHeaderIn garbage frame.symbols) :
    (fresh data buffer).process.Holds frame ↔ lost garbage = 0 := by
  have hsize : frame.payload.length = frame.header.messageSize.toNat := frame.length_payload
  have hsmall := hsupported.size
  obtain ⟨hfound, hmissed⟩ := nextHeader_garbage hsupported hnone
  rw [holds_process_iff hbounds ⟨rfl, Or.inl rfl⟩]
  show (firstOf none buffer.content).map Prod.fst = _ ↔ _
  rw [hcontent]
  constructor
  · intro hfirst
    by_contra hlost
    obtain ⟨⟨message, behind⟩, hsome, hmessage⟩ := Option.map_eq_some_iff.mp hfirst
    obtain ⟨⟨header, rest⟩, hheader, htaken⟩ := Option.bind_eq_some_iff.mp hsome
    have hshort := hmissed hlost header rest hheader
    rw [nextMessage] at htaken
    split_ifs at htaken with hfits
    obtain ⟨rfl, -⟩ := Prod.mk.inj (Option.some.inj htaken)
    have hpayload := congrArg (·.2.length) hmessage
    simp only [List.length_take] at hpayload
    omega
  · intro hlost
    rw [firstOf, hfound hlost, Option.bind_some]
    simp only [nextMessage, ← hsize]
    rw [if_pos ⟨by omega, le_rfl⟩, List.take_length]
    rfl

/-- The shortest frame there is. -/
def shortFrame : Format.Frame MessageHeader.format where
  header := ⟨MessageHeader.messageMagic, MessageHeader.currentVersion, 0, 6, 0⟩
  payload := []
  length_payload := rfl

/-- A new buffer into which these bytes were read. -/
def filled (bytes : List UInt8) : CircularBuffer :=
  ⟨bytes ++ List.replicate (1024 - bytes.length) 0, 0, bytes.length⟩

theorem size_filled (h : bytes.length < 1024) : (filled bytes).size = 1024 := by
  rw [filled, CircularBuffer.size, List.length_append, List.length_replicate]
  omega

theorem inBounds_filled (h : bytes.length < 1024) : (filled bytes).InBounds := by
  have hsize := size_filled h
  refine ⟨?_, ?_, ?_⟩
  · rw [hsize]
    exact Nat.zero_lt_succ _
  · rw [hsize]
    exact h
  · rw [hsize]
    decide

theorem content_filled (bytes : List UInt8) : (filled bytes).content = bytes := by
  have hunwrapped : ¬ (filled bytes).writePos < (filled bytes).readPos := Nat.not_lt_zero _
  rw [CircularBuffer.content, if_neg hunwrapped]
  show slice (bytes ++ _) 0 bytes.length = bytes
  rw [slice_zero, List.take_left]

/-- Twelve bytes of garbage, of which the first eleven look like a header of another
version. -/
theorem holds_garbage_iff_version :
    (fresh ⟨MessageHeader.ofBytes [], []⟩
        (filled ([0x29, 2, 0, 0, 0, 0, 0, 0, 0, 0, 0, 7] ++ shortFrame.symbols))).process.Holds
      shortFrame ↔ lost [0x29, 2, 0, 0, 0, 0, 0, 0, 0, 0, 0, 7] = 0 :=
  holds_garbage_iff (inBounds_filled (by decide)) (content_filled _)
    ⟨by decide, by decide, by decide⟩ (by decide)

/-- A single magic byte takes ten bytes of the header behind it along. -/
theorem not_holds_magic :
    ¬ ∀ (data : ReadData) (buffer : CircularBuffer) (garbage : List UInt8)
        (frame : Format.Frame MessageHeader.format), buffer.InBounds → buffer.size = 1024 →
      buffer.content = garbage ++ frame.symbols → Supported frame.header →
      frame.header.messageSize.toNat ≤ 512 → NoHeaderIn garbage frame.symbols →
      (fresh data buffer).process.Holds frame := by
  intro hall
  have hshort : ([0x29] ++ shortFrame.symbols).length < 1024 := by decide
  have hholds := hall ⟨MessageHeader.ofBytes [], []⟩ (filled ([0x29] ++ shortFrame.symbols)) [0x29]
    shortFrame (inBounds_filled hshort) (size_filled hshort) (content_filled _)
    ⟨by decide, by decide, by decide⟩ (by decide) (by decide)
  exact absurd hholds.finished (by decide +kernel)

end Reader

end Obsr.Net
