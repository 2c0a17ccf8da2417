/-
# The verdict of the parser

A peer chooses the type of a message, its length bytes and where it is cut off. What the
parser makes of it is decided by reading the fields of the type in order: they are all
there, one of them is missing, or the value is one its constructor refuses. The last two
cases of the machine that give no clean verdict come from the source: the error of an
unknown type has the code that means no error, and a constructor that throws leaves the
machine in the middle of its work.
-/

import Obsr.Io.BufferView
import Obsr.Io.ValueRoundTrip
import Obsr.Net.LoopEnds
import Obsr.Net.MessageParser

namespace Obsr.Net

open Obsr.Io Obsr.Lib

namespace MessageParser

/-! ## Reading the fields -/

/-- How the reading of a list of fields ends. -/
inductive Reading
  | complete (rest : List UInt8)
  | missing
  | threw
  deriving DecidableEq, Repr

def reading : List ParseState → ParseData → List UInt8 → Reading
  | [], _, view => .complete view
  | current :: next, data, view =>
      match readField current data.type view with
      | .ok (some (assign, rest)) => reading next (assign data) rest
      | .ok none => .missing
      | .error _ => .threw

/-- A call of `process` with the verdict of its last state, the machine and the input it
leaves, and the error code it had before. -/
def Ends (code : UInt8) (result : Verdict × StateMachine ParseState ParseData × ParserInput) :
    Reading → Prop
  | .complete rest => result.1 = .stop ∧ result.2.1.state = .ended ∧
      result.2.1.errorCode = code ∧ result.2.2.view = rest
  | .missing => result.1 = .stop ∧ result.2.1.state = .error ∧
      result.2.1.errorCode = ParseError.readData
  | .threw => result.1 = .threw ∧ result.2.1.state = .inState ∧ result.2.1.errorCode = code

variable {type : MessageType} {next fields : List ParseState}

/-- From a planned state on, the machine ends like the reading of the fields of the
plan. -/
theorem ends_processLoop_of_planned (m : StateMachine ParseState ParseData)
    (hstate : m.state = .inState) (hplan : Planned type (m.userState :: next)) {bound : ℕ}
    (hbound : next.length < bound) (view : List UInt8) :
    Ends m.errorCode (StateMachine.processLoop behaviour bound m ⟨type, view⟩)
      (reading (m.userState :: next) m.data view) := by
  induction next generalizing bound m view with
  | nil =>
      obtain ⟨bound, rfl⟩ := Nat.exists_eq_succ_of_ne_zero (Nat.ne_zero_of_lt hbound)
      rw [reading]
      cases hread : readField m.userState m.data.type view with
      | error thrown =>
          rw [processLoop_of_threw hstate hread]
          exact ⟨rfl, hstate, rfl⟩
      | ok field =>
          cases field with
          | none =>
              rw [processLoop_of_missing hstate hread]
              exact ⟨rfl, rfl, rfl⟩
          | some found =>
              rw [processLoop_of_last hstate hplan hread]
              exact ⟨rfl, rfl, rfl, rfl⟩
  | cons following next ih =>
      obtain ⟨bound, rfl⟩ := Nat.exists_eq_succ_of_ne_zero (Nat.ne_zero_of_lt hbound)
      rw [reading]
      cases hread : readField m.userState m.data.type view with
      | error thrown =>
          rw [processLoop_of_threw hstate hread]
          exact ⟨rfl, hstate, rfl⟩
      | ok field =>
          cases field with
          | none =>
              rw [processLoop_of_missing hstate hread]
              exact ⟨rfl, rfl, rfl⟩
          | some found =>
              rw [processLoop_of_following hstate hplan hread]
              exact ih { m with data := found.1 m.data, state := .inState,
                                userState := following }
                rfl hplan.2 (Nat.lt_of_succ_lt_succ hbound) found.2

/-- A call of `process` after `set_data`. -/
def verdict (p : MessageParser) (type : MessageType) (payload : List UInt8) :
    Verdict × StateMachine ParseState ParseData × ParserInput :=
  let (verdict, after) := (p.setData type payload).process
  (verdict, after.machine, after.input)

theorem verdict_eq (p : MessageParser) (type : MessageType) (payload : List UInt8) :
    p.verdict type payload =
      StateMachine.processLoop behaviour bound
        { p.machine with state := .inState, errorCode := 0, userState := .checkType }
        ⟨type, payload⟩ := rfl

/-- A message of a known type. -/
theorem ends_verdict (hfields : fieldsOf type = some fields) (p : MessageParser)
    (payload : List UInt8) :
    Ends 0 (p.verdict type payload) (reading fields p.data payload) :=
  ends_processLoop_of_planned
    { p.machine with state := .inState, errorCode := 0, userState := .checkType }
    rfl (planned_of_fieldsOf hfields) (length_lt_bound hfields) payload

/-- A message of any other type leaves a machine in error without an error code. -/
theorem verdict_of_unknown (hfields : fieldsOf type = none) (p : MessageParser)
    (payload : List UInt8) :
    (p.verdict type payload).1 = .stop ∧ (p.verdict type payload).2.1.state = .error ∧
      (p.verdict type payload).2.1.errorCode = 0 := by
  rw [verdict_eq]
  cases type <;> simp only [fieldsOf, reduceCtorEq] at hfields <;>
    simp [bound, StateMachine.processLoop, StateMachine.processOnce, behaviour, processState,
      readField, selectNextState, StateMachine.error, ParseError.unknownType]

/-! ## Where a reading throws -/

/-- The tag of the value of a message, and the bytes from the value on. -/
def valueOf (type : MessageType) (payload : List UInt8) : Option (UInt8 × List UInt8) :=
  match type with
  | .entryCreate =>
      match payload.drop 8 with
      | length :: name =>
          match name.drop length.toNat with
          | tag :: bytes => some (tag, bytes)
          | [] => none
      | [] => none
  | .entryUpdate =>
      match payload.drop 10 with
      | tag :: bytes => some (tag, bytes)
      | [] => none
  | _ => none

/-- The constructor of the value throws. -/
def Refused (tag : UInt8) (bytes : List UInt8) : Prop :=
  ∃ thrown, Deserializer.readValue tag bytes = .error thrown

variable {data : ParseData} {view : List UInt8}

theorem assigning_number {α : Type} {width : ℕ} {ofBytes : List UInt8 → α}
    (assign : α → Assignment) (view : List UInt8) :
    assigning (do return ofBytes (← Deserializer.readBytes width)) assign view =
      if width > view.length then none
      else some (assign (ofBytes (view.take width)), view.drop width) := by
  show (((Deserializer.readBytes width view).bind fun found =>
    some (ofBytes found.1, found.2)).map _) = _
  rw [Deserializer.readBytes]
  split_ifs <;> rfl

theorem readRaw_cons (length : UInt8) (rest : List UInt8) :
    Deserializer.readRaw (length :: rest) =
      if length.toNat > rest.length then none
      else some (rest.take length.toNat, rest.drop length.toNat) := by
  have hsize : Deserializer.readSize (length :: rest) = some (length.toNat, rest) :=
    (Deserializer.reads_read8 length).map UInt8.toNat rest
  show ((Deserializer.readSize (length :: rest)).bind fun found =>
    Deserializer.readBytes found.1 found.2) = _
  rw [hsize]
  rfl

/-- A state that reads a number of a fixed width. -/
theorem reading_number {current : ParseState} {α : Type} {width : ℕ} {ofBytes : List UInt8 → α}
    {assign : α → Assignment}
    (hfield : ∀ type view, readField current type view =
      .ok (assigning (do return ofBytes (← Deserializer.readBytes width)) assign view))
    (next : List ParseState) (data : ParseData) (view : List UInt8) :
    ∃ data', reading (current :: next) data view =
      if view.length < width then .missing else reading next data' (view.drop width) := by
  by_cases hshort : view.length < width
  · refine ⟨data, ?_⟩
    rw [reading, hfield, assigning_number, if_pos hshort, if_pos hshort]
  · refine ⟨assign (ofBytes (view.take width)) data, ?_⟩
    rw [reading, hfield, assigning_number, if_neg hshort, if_neg hshort]

theorem reading_sendTime (next : List ParseState) (data : ParseData) (view : List UInt8) :
    ∃ data', reading (.readSendTime :: next) data view =
      if view.length < 8 then .missing else reading next data' (view.drop 8) :=
  reading_number (fun _ _ => rfl) next data view

theorem reading_id (next : List ParseState) (data : ParseData) (view : List UInt8) :
    ∃ data', reading (.readId :: next) data view =
      if view.length < 2 then .missing else reading next data' (view.drop 2) :=
  reading_number (fun _ _ => rfl) next data view

theorem reading_timeValue (next : List ParseState) (data : ParseData) (view : List UInt8) :
    ∃ data', reading (.readTimeValue :: next) data view =
      if view.length < 8 then .missing else reading next data' (view.drop 8) :=
  reading_number (fun _ _ => rfl) next data view

theorem reading_name_cons (next : List ParseState) (data : ParseData) (length : UInt8)
    (rest : List UInt8) :
    ∃ data', reading (.readName :: next) data (length :: rest) =
      if rest.length < length.toNat then .missing
      else reading next data' (rest.drop length.toNat) := by
  have hread : readField .readName data.type (length :: rest) =
      .ok ((if length.toNat > rest.length then none
        else some (rest.take length.toNat, rest.drop length.toNat)).map fun found =>
          (fun data => { data with name := found.1 }, found.2)) :=
    congrArg (fun found => Except.ok (Option.map _ found)) (readRaw_cons length rest)
  by_cases hshort : rest.length < length.toNat
  · refine ⟨data, ?_⟩
    rw [reading, hread, if_pos hshort, if_pos hshort]
    rfl
  · refine ⟨{ data with name := rest.take length.toNat }, ?_⟩
    rw [reading, hread, if_neg hshort, if_neg hshort]
    rfl

theorem reading_valueType_cons (next : List ParseState) (data : ParseData) (tag : UInt8)
    (rest : List UInt8) :
    reading (.readValueType :: next) data (tag :: rest) =
      reading next { data with type := tag } rest := by
  have hread : readField .readValueType data.type (tag :: rest) =
      .ok (some (fun data => { data with type := tag }, rest)) :=
    congrArg (fun found => Except.ok (Option.map _ found)) (Deserializer.reads_read8 tag rest)
  rw [reading, hread]

theorem reading_value_eq_threw_iff (data : ParseData) (view : List UInt8) :
    reading [.readValue] data view = .threw ↔ Refused data.type view := by
  rw [reading, readField, Refused]
  cases hvalue : Deserializer.readValue data.type view with
  | error thrown => exact iff_of_true rfl ⟨thrown, rfl⟩
  | ok found =>
      cases found with
      | none => exact iff_of_false (by simp [Except.map]) (by simp)
      | some found => exact iff_of_false (by simp [Except.map, reading]) (by simp)

/-- The tag and then the value. -/
theorem reading_typedValue_eq_threw_iff (data : ParseData) (view : List UInt8) :
    reading [.readValueType, .readValue] data view = .threw ↔
      ∃ tag bytes, view = tag :: bytes ∧ Refused tag bytes := by
  cases view with
  | nil =>
      have hmissing : reading [.readValueType, .readValue] data [] = .missing := rfl
      rw [hmissing]
      exact iff_of_false (by simp) (by simp)
  | cons tag bytes =>
      rw [reading_valueType_cons, reading_value_eq_threw_iff]
      simp

theorem reading_create_eq_threw_iff (data : ParseData) (payload : List UInt8) :
    reading [.readSendTime, .readName, .readValueType, .readValue] data payload = .threw ↔
      ∃ tag bytes, valueOf .entryCreate payload = some (tag, bytes) ∧ Refused tag bytes := by
  obtain ⟨data', htime⟩ := reading_sendTime [.readName, .readValueType, .readValue] data payload
  rw [htime, valueOf]
  by_cases hshort : payload.length < 8
  · rw [if_pos hshort, List.drop_eq_nil_of_le hshort.le]
    exact iff_of_false (by simp) (by simp)
  · rw [if_neg hshort]
    cases payload.drop 8 with
    | nil =>
        have hmissing : reading [.readName, .readValueType, .readValue] data' [] = .missing := rfl
        rw [hmissing]
        exact iff_of_false (by simp) (by simp)
    | cons length rest =>
        obtain ⟨data'', hname⟩ := reading_name_cons [.readValueType, .readValue] data' length rest
        rw [hname]
        by_cases hcut : rest.length < length.toNat
        · rw [if_pos hcut]
          simp only [List.drop_eq_nil_of_le hcut.le]
          exact iff_of_false (by simp) (by simp)
        · rw [if_neg hcut, reading_typedValue_eq_threw_iff]
          dsimp only
          cases rest.drop length.toNat <;> simp

theorem reading_update_eq_threw_iff (data : ParseData) (payload : List UInt8) :
    reading [.readSendTime, .readId, .readValueType, .readValue] data payload = .threw ↔
      ∃ tag bytes, valueOf .entryUpdate payload = some (tag, bytes) ∧ Refused tag bytes := by
  obtain ⟨data', htime⟩ := reading_sendTime [.readId, .readValueType, .readValue] data payload
  obtain ⟨data'', hid⟩ := reading_id [.readValueType, .readValue] data' (payload.drop 8)
  rw [htime, hid, List.drop_drop, valueOf, List.length_drop]
  by_cases hshort : payload.length < 10
  · have hmissing : (if payload.length < 8 then Reading.missing
        else if payload.length - 8 < 2 then .missing
        else reading [.readValueType, .readValue] data'' (payload.drop 10)) = .missing := by
      split_ifs
      · rfl
      · rfl
      · omega
    rw [hmissing, List.drop_eq_nil_of_le hshort.le]
    exact iff_of_false (by simp) (by simp)
  · rw [if_neg (by omega), if_neg (by omega), reading_typedValue_eq_threw_iff]
    cases payload.drop 10 <;> simp

/-- Reading throws at the value, and there only. -/
theorem reading_eq_threw_iff (hfields : fieldsOf type = some fields) (data : ParseData)
    (payload : List UInt8) :
    reading fields data payload = .threw ↔
      ∃ tag bytes, valueOf type payload = some (tag, bytes) ∧ Refused tag bytes := by
  cases type <;> simp only [fieldsOf, Option.some.injEq, reduceCtorEq] at hfields <;>
    subst hfields
  case entryCreate => exact reading_create_eq_threw_iff data payload
  case entryUpdate => exact reading_update_eq_threw_iff data payload
  all_goals
    refine iff_of_false ?_ (by simp [valueOf])
  case entryDelete =>
    obtain ⟨data', htime⟩ := reading_sendTime [.readId] data payload
    obtain ⟨data'', hid⟩ := reading_id [] data' (payload.drop 8)
    rw [htime, hid]
    split_ifs <;> simp [reading]
  case entryIdAssign =>
    obtain ⟨data', hid⟩ := reading_id [.readName] data payload
    rw [hid]
    split_ifs
    · simp
    · cases payload.drop 2 with
      | nil => exact (show reading [.readName] data' [] = .missing from rfl) ▸ by simp
      | cons length rest =>
          obtain ⟨data'', hname⟩ := reading_name_cons [] data' length rest
          rw [hname]
          split_ifs <;> simp [reading]
  case timeSyncRequest =>
    obtain ⟨data', htime⟩ := reading_sendTime [] data payload
    rw [htime]
    split_ifs <;> simp [reading]
  case timeSyncResponse =>
    obtain ⟨data', htime⟩ := reading_sendTime [.readTimeValue] data payload
    obtain ⟨data'', hvalue⟩ := reading_timeValue [] data' (payload.drop 8)
    rw [htime, hvalue]
    split_ifs <;> simp [reading]
  case handshakeReady | handshakeFinished => simp [reading]

/-! ## Which values are refused -/

/-- The reader takes just so many bytes, or fails. -/
def Takes {α : Type} (width : ℕ) (reader : Deserialize α) : Prop :=
  (∀ view : List UInt8, view.length < width → reader view = none) ∧
    ∀ view : List UInt8, width ≤ view.length → ∃ a, reader view = some (a, view.drop width)

theorem takes_number {α : Type} (width : ℕ) (ofBytes : List UInt8 → α) :
    Takes width (do return ofBytes (← Deserializer.readBytes width)) := by
  constructor
  · intro view hshort
    show (Deserializer.readBytes width view).bind _ = none
    rw [Deserializer.readBytes, if_pos hshort]
    rfl
  · intro view hlong
    refine ⟨ofBytes (view.take width), ?_⟩
    show (Deserializer.readBytes width view).bind _ = _
    rw [Deserializer.readBytes, if_neg (Nat.not_lt.mpr hlong)]
    rfl

theorem Takes.map {α β : Type} {width : ℕ} {reader : Deserialize α} (h : Takes width reader)
    (f : α → β) : Takes width (f <$> reader) := by
  constructor
  · intro view hshort
    show (reader view).bind _ = none
    rw [h.1 view hshort]
    rfl
  · intro view hlong
    obtain ⟨a, hread⟩ := h.2 view hlong
    refine ⟨f a, ?_⟩
    show (reader view).bind _ = _
    rw [hread]
    rfl

theorem readElements_of_lt {α : Type} {width : ℕ} {element : Deserialize α}
    (h : Takes width element) (count : ℕ) (view : List UInt8)
    (hshort : view.length < count * width) :
    Deserializer.readElements element count view = none := by
  induction count generalizing view with
  | zero => omega
  | succ count ih =>
      rw [Nat.succ_mul] at hshort
      show (element view).bind _ = none
      rcases Nat.lt_or_ge view.length width with hcut | hlong
      · rw [h.1 view hcut]
        rfl
      · obtain ⟨a, hread⟩ := h.2 view hlong
        have hrest := ih (view.drop width) (by rw [List.length_drop]; omega)
        rw [hread, Option.bind_some]
        show (Deserializer.readElements element count (view.drop width)).bind _ = none
        rw [hrest]
        rfl

theorem readElements_of_le {α : Type} {width : ℕ} {element : Deserialize α}
    (h : Takes width element) (count : ℕ) (view : List UInt8)
    (hlong : count * width ≤ view.length) :
    ∃ array : List α, array.length = count ∧
      Deserializer.readElements element count view = some (array, view.drop (count * width)) := by
  induction count generalizing view with
  | zero => exact ⟨[], rfl, by rw [Nat.zero_mul, List.drop_zero]; rfl⟩
  | succ count ih =>
      rw [Nat.succ_mul] at hlong ⊢
      obtain ⟨a, hread⟩ := h.2 view (by omega)
      obtain ⟨array, hlength, hrest⟩ := ih (view.drop width) (by rw [List.length_drop]; omega)
      refine ⟨a :: array, by rw [List.length_cons, hlength], ?_⟩
      show (element view).bind _ = _
      rw [hread, Option.bind_some]
      show (Deserializer.readElements element count (view.drop width)).bind _ = _
      rw [hrest, List.drop_drop, Nat.add_comm width]
      rfl

theorem readArr_cons {α : Type} (element : Deserialize α) (length : UInt8)
    (rest : List UInt8) :
    Deserializer.readArr element (length :: rest) =
      Deserializer.readElements element length.toNat rest := by
  have hsize : Deserializer.readSize (length :: rest) = some (length.toNat, rest) :=
    (Deserializer.reads_read8 length).map UInt8.toNat rest
  show ((Deserializer.readSize (length :: rest)).bind fun found =>
    Deserializer.readElements element found.1 found.2) = _
  rw [hsize]
  rfl

theorem construct_error_iff {α : Type} {make : α → Except Exception Value}
    {reader : Deserialize α} {view : List UInt8} :
    (∃ thrown, Deserializer.construct make reader view = .error thrown) ↔
      ∃ a rest, reader view = some (a, rest) ∧ ∃ thrown, make a = .error thrown := by
  rw [Deserializer.construct]
  cases reader view with
  | none => exact iff_of_false (by simp) (by simp)
  | some found =>
      obtain ⟨a, rest⟩ := found
      dsimp only
      cases hmake : make a with
      | error thrown => exact iff_of_true ⟨thrown, rfl⟩ ⟨a, rest, rfl, thrown, hmake⟩
      | ok value =>
          refine iff_of_false (by simp [Except.map]) ?_
          rintro ⟨a', rest', hsame, thrown, hthrown⟩
          obtain ⟨rfl, -⟩ := Prod.mk.inj (Option.some.inj hsame)
          rw [hmake] at hthrown
          cases hthrown

theorem ofArray_error_iff {α : Type} (type : ValueType) (member : List α → Payload)
    (array : List α) :
    (∃ thrown, Value.ofArray type member array = .error thrown) ↔ 255 ≤ array.length := by
  rw [Value.ofArray, Value.withinSizeLimits]
  by_cases hsize : array.length < 255
  · rw [if_pos (decide_eq_true hsize)]
    exact iff_of_false (by simp) (Nat.not_le.mpr hsize)
  · rw [if_neg (by simpa using hsize)]
    exact iff_of_true ⟨_, rfl⟩ (Nat.not_lt.mp hsize)

/-- The length byte tells of 255 elements, and they are all there. -/
def FullLength (width : ℕ) (bytes : List UInt8) : Prop :=
  ∃ elements, bytes = 255 :: elements ∧ 255 * width ≤ elements.length

theorem toNat_eq_of_ge {length : UInt8} (h : 255 ≤ length.toNat) : length = 255 := by
  have hlt := length.toNat_lt
  exact UInt8.toNat_inj.mp (show length.toNat = 255 by omega)

theorem raw_refused_iff (type : ValueType) (member : List UInt8 → Payload)
    (bytes : List UInt8) :
    (∃ thrown, Deserializer.construct (Value.ofArray type member) Deserializer.readRaw bytes =
      .error thrown) ↔ FullLength 1 bytes := by
  rw [construct_error_iff]
  constructor
  · rintro ⟨array, rest, hread, hmake⟩
    rw [ofArray_error_iff] at hmake
    cases bytes with
    | nil => cases hread
    | cons length elements =>
        rw [readRaw_cons] at hread
        split_ifs at hread with hcut
        obtain ⟨rfl, -⟩ := Prod.mk.inj (Option.some.inj hread)
        rw [List.length_take] at hmake
        obtain rfl := toNat_eq_of_ge (show 255 ≤ length.toNat by omega)
        exact ⟨elements, rfl, by omega⟩
  · rintro ⟨elements, rfl, hlong⟩
    refine ⟨elements.take 255, elements.drop 255, ?_, ?_⟩
    · rw [readRaw_cons]
      exact if_neg (by simpa using hlong)
    · rw [ofArray_error_iff, List.length_take]
      omega

theorem array_refused_iff {α : Type} {width : ℕ} {element : Deserialize α}
    (helement : Takes width element) (type : ValueType) (member : List α → Payload)
    (bytes : List UInt8) :
    (∃ thrown, Deserializer.construct (Value.ofArray type member)
      (Deserializer.readArr element) bytes = .error thrown) ↔ FullLength width bytes := by
  rw [construct_error_iff]
  constructor
  · rintro ⟨array, rest, hread, hmake⟩
    rw [ofArray_error_iff] at hmake
    cases bytes with
    | nil => cases hread
    | cons length elements =>
        rw [readArr_cons] at hread
        rcases Nat.lt_or_ge elements.length (length.toNat * width) with hcut | hlong
        · rw [readElements_of_lt helement _ _ hcut] at hread
          cases hread
        · obtain ⟨array', hlength, hread'⟩ := readElements_of_le helement _ _ hlong
          rw [hread'] at hread
          obtain ⟨rfl, -⟩ := Prod.mk.inj (Option.some.inj hread)
          obtain rfl := toNat_eq_of_ge (hlength ▸ hmake)
          exact ⟨elements, rfl, hlong⟩
  · rintro ⟨elements, rfl, hlong⟩
    obtain ⟨array, hlength, hread⟩ := readElements_of_le helement 255 elements hlong
    refine ⟨array, elements.drop (255 * width), ?_, ?_⟩
    · rw [readArr_cons]
      exact hread
    · rw [ofArray_error_iff, hlength]

/-- The bytes of one element of a value that has a length. -/
def elementWidth (tag : UInt8) : Option ℕ :=
  match ValueType.ofByte tag with
  | some .raw | some .string => some 1
  | some .integer32Array | some .floatingPoint32Array => some 4
  | some .integer64Array | some .floatingPoint64Array => some 8
  | _ => none

/-- A constructor refuses what is one element too long for the tag it gets. -/
theorem refused_iff (tag : UInt8) (bytes : List UInt8) :
    Refused tag bytes ↔ ∃ width, elementWidth tag = some width ∧ FullLength width bytes := by
  have hfour : ∀ {α : Type} (f : UInt32 → α), Takes 4 (f <$> Deserializer.read32) := fun f =>
    (takes_number 4 _).map f
  have height : ∀ {α : Type} (f : UInt64 → α), Takes 8 (f <$> Deserializer.read64) := fun f =>
    (takes_number 8 _).map f
  have hnever : ∀ {α : Type} (make : α → Value) (reader : Deserialize α),
      ¬ ∃ thrown, Deserializer.construct (fun a => .ok (make a)) reader bytes =
        .error thrown := by
    intro α make reader hthrows
    obtain ⟨a, rest, -, thrown, hthrown⟩ := construct_error_iff.mp hthrows
    cases hthrown
  rw [Refused, elementWidth]
  simp only [Deserializer.readValue]
  cases ValueType.ofByte tag with
  | none => exact iff_of_false (by simp) (by simp)
  | some type =>
      cases type with
      | empty => exact iff_of_false (by simp) (by simp)
      | raw => exact (raw_refused_iff .raw .raw bytes).trans (by simp)
      | string => exact (raw_refused_iff .string .string bytes).trans (by simp)
      | boolean => exact iff_of_false (hnever _ _) (by simp)
      | integer32 => exact iff_of_false (hnever _ _) (by simp)
      | integer64 => exact iff_of_false (hnever _ _) (by simp)
      | floatingPoint32 => exact iff_of_false (hnever _ _) (by simp)
      | floatingPoint64 => exact iff_of_false (hnever _ _) (by simp)
      | integer32Array =>
          exact (array_refused_iff (hfour UInt32.toInt32) _ _ bytes).trans (by simp)
      | integer64Array =>
          exact (array_refused_iff (height UInt64.toInt64) _ _ bytes).trans (by simp)
      | floatingPoint32Array =>
          exact (array_refused_iff (takes_number 4 _) _ _ bytes).trans (by simp)
      | floatingPoint64Array =>
          exact (array_refused_iff (height fun bits => bits.toUInt32.toUInt64) _ _ bytes).trans
            (by simp)

/-- A message of this type has such a value. -/
def Overlong (type : MessageType) (payload : List UInt8) : Prop :=
  ∃ tag bytes width, valueOf type payload = some (tag, bytes) ∧
    elementWidth tag = some width ∧ FullLength width bytes

theorem reading_eq_threw_iff_overlong (hfields : fieldsOf type = some fields)
    (data : ParseData) (payload : List UInt8) :
    reading fields data payload = .threw ↔ Overlong type payload := by
  rw [reading_eq_threw_iff hfields, Overlong]
  constructor
  · rintro ⟨tag, bytes, hvalue, hrefused⟩
    obtain ⟨width, hwidth, hfull⟩ := (refused_iff tag bytes).mp hrefused
    exact ⟨tag, bytes, width, hvalue, hwidth, hfull⟩
  · rintro ⟨tag, bytes, width, hvalue, hwidth, hfull⟩
    exact ⟨tag, bytes, hvalue, (refused_iff tag bytes).mpr ⟨width, hwidth, hfull⟩⟩

/-! ## Clean verdicts -/

/-- The parser is done with a message: its loop has come to an end without an exception,
the machine is either finished or in error, and the deserializer, whose view is the window
of the payload on the memory of the reader, has seen nothing outside of it. -/
structure EndsClean (p : MessageParser) (type : MessageType) (payload : List UInt8) :
    Prop where
  ends : ∃ rounds, Lib.Ends (StateMachine.round behaviour)
    ({ p.machine with state := .inState, errorCode := 0, userState := .checkType },
      ⟨type, payload⟩) rounds (p.verdict type payload)
  returns : (p.verdict type payload).1 ≠ .threw
  oneOf : Xor ((p.verdict type payload).2.1.isFinished = true)
    ((p.verdict type payload).2.1.isErrored = true)
  inside : ∀ memory, payload <+: memory →
    (ReadonlyBufferView.reset memory payload.length).rest = payload ∧
      ∀ sizes, ∀ region ∈ (ReadonlyBufferView.reset memory payload.length).looksAt sizes,
        region.Inside payload.length

theorem ends_of_verdict (p : MessageParser) (type : MessageType) (payload : List UInt8) :
    ∃ rounds, Lib.Ends (StateMachine.round behaviour)
      ({ p.machine with state := .inState, errorCode := 0, userState := .checkType },
        ⟨type, payload⟩) rounds (p.verdict type payload) := by
  rw [verdict_eq]
  obtain ⟨rounds, -, hends⟩ := StateMachine.ends_processLoop rank_lt_of_processState
    { p.machine with state := .inState, errorCode := 0, userState := .checkType }
    ⟨type, payload⟩ (show rank .checkType < bound by decide)
  exact ⟨rounds, hends⟩

theorem inside_payload {payload memory : List UInt8} (h : payload <+: memory) :
    (ReadonlyBufferView.reset memory payload.length).rest = payload ∧
      ∀ sizes, ∀ region ∈ (ReadonlyBufferView.reset memory payload.length).looksAt sizes,
        region.Inside payload.length := by
  refine ⟨?_, ?_⟩
  · rw [ReadonlyBufferView.rest_reset]
    exact (List.prefix_iff_eq_take.mp h).symm
  · exact ReadonlyBufferView.looksAt_inside (ReadonlyBufferView.inBounds_reset h.length_le)

/-- What is left of a clean verdict when the type is known: no exception. -/
theorem endsClean_iff_ne_threw (hfields : fieldsOf type = some fields) (p : MessageParser)
    (payload : List UInt8) :
    p.EndsClean type payload ↔ reading fields p.data payload ≠ .threw := by
  have hends := ends_verdict hfields p payload
  constructor
  · intro hclean hthrew
    rw [hthrew] at hends
    exact hclean.returns hends.1
  · intro hquiet
    refine ⟨ends_of_verdict p type payload, ?_, ?_, fun memory => inside_payload⟩
    all_goals cases hreading : reading fields p.data payload
    case threw => exact absurd hreading hquiet
    case threw => exact absurd hreading hquiet
    all_goals rw [hreading] at hends
    case complete | missing => simp [hends.1]
    case complete =>
      exact .inl ⟨by simp [StateMachine.isFinished, hends.2.1],
        by simp [StateMachine.isErrored, hends.2.2.1]⟩
    case missing =>
      exact .inr ⟨by simp [StateMachine.isErrored, hends.2.2, ParseError.readData],
        by simp [StateMachine.isFinished, hends.2.1]⟩

/-- A machine in error without an error code is neither finished nor errored. -/
theorem not_endsClean_of_unknown (hfields : fieldsOf type = none) (p : MessageParser)
    (payload : List UInt8) : ¬ p.EndsClean type payload := by
  obtain ⟨-, hstate, hcode⟩ := verdict_of_unknown hfields p payload
  intro hclean
  have hone := hclean.oneOf
  simp [StateMachine.isFinished, StateMachine.isErrored, hstate, hcode] at hone

theorem fieldsOf_ofByte_isSome (byte : UInt8) :
    (fieldsOf (MessageType.ofByte byte)).isSome ↔ 1 ≤ byte ∧ byte ≤ 8 := by
  revert byte
  decide +kernel

/-- A message ends in a clean verdict if and only if its type is one of the protocol and
its value, if it has one, does not fill a length byte of 255. -/
theorem endsClean_iff (p : MessageParser) (byte : UInt8) (payload : List UInt8) :
    p.EndsClean (MessageType.ofByte byte) payload ↔
      (1 ≤ byte ∧ byte ≤ 8) ∧ ¬ Overlong (MessageType.ofByte byte) payload := by
  rw [← fieldsOf_ofByte_isSome]
  cases hfields : fieldsOf (MessageType.ofByte byte) with
  | none => exact iff_of_false (not_endsClean_of_unknown hfields p payload) (by simp)
  | some fields =>
      rw [endsClean_iff_ne_threw hfields, Ne, reading_eq_threw_iff_overlong hfields]
      simp

/-- A type of nobody leaves no verdict, and so does an update with a raw value of 255
bytes. -/
theorem not_endsClean_update :
    ¬ (∀ (p : MessageParser) (byte : UInt8) (payload : List UInt8),
      payload.length ≤ 1024 → p.EndsClean (MessageType.ofByte byte) payload) ∧
    ∀ p : MessageParser, ¬ p.EndsClean (MessageType.ofByte 2)
      (List.replicate 10 0 ++ ValueType.raw.toByte :: 255 :: List.replicate 255 0) := by
  have hupdate : ∀ p : MessageParser, ¬ p.EndsClean (MessageType.ofByte 2)
      (List.replicate 10 0 ++ ValueType.raw.toByte :: 255 :: List.replicate 255 0) := by
    intro p hclean
    have hfields : fieldsOf .entryUpdate = some _ := rfl
    refine (endsClean_iff_ne_threw hfields p _).mp hclean ?_
    refine (reading_eq_threw_iff_overlong hfields p.data _).mpr ?_
    exact ⟨ValueType.raw.toByte, 255 :: List.replicate 255 0, 1, rfl, rfl,
      List.replicate 255 0, rfl, by rw [List.length_replicate]⟩
  refine ⟨?_, hupdate⟩
  intro hclean
  let data : ParseData :=
    { sendTime := 0, id := 0, name := [], type := 0, value := Value.make, timeValue := 0 }
  have hfields : fieldsOf .noType = none := rfl
  exact not_endsClean_of_unknown hfields (MessageParser.new data) []
    (hclean (MessageParser.new data) 0 [] (by simp))

end MessageParser

end Obsr.Net
