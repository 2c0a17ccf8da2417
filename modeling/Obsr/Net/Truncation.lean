/-
# Cut payloads

A payload that the serializer has completed is read to its last byte and no further, and
a reader that is content with the front of a payload stays content, with the same result,
when the payload goes on. So none of them is content with a front that is too short: the
parser is left at a read that fails, wherever the payload was cut.
-/

import Obsr.Net.MessageRoundTrip
import Obsr.Net.ParserVerdict

namespace Obsr.Io

open Obsr.Lib SymbolWriter SymbolReader

namespace Deserializer

/-! ## Readers and what comes after them -/

theorem steady_readBytes (size : ℕ) : Steady (readBytes size) := by
  intro view bytes rest more hread
  rw [readBytes] at hread ⊢
  split_ifs at hread with hshort
  obtain ⟨rfl, rfl⟩ := Prod.mk.inj (Option.some.inj hread)
  have hlong : size ≤ view.length := Nat.not_lt.mp hshort
  rw [if_neg (by rw [List.length_append]; omega), List.take_append_of_le_length hlong,
    List.drop_append_of_le_length hlong]

theorem steady_number {α : Type} (width : ℕ) (ofBytes : List UInt8 → α) :
    Steady (do return ofBytes (← readBytes width)) :=
  (steady_readBytes width).bind fun _ => steady_pure _

theorem steady_readSize : Steady readSize :=
  (steady_number 1 fun bytes => UInt8.ofNat (BigEndian.ofBytes bytes)).bind fun _ => steady_pure _

theorem steady_readRaw : Steady readRaw := steady_readSize.bind steady_readBytes

theorem steady_readElements {α : Type} {element : Deserialize α} (h : Steady element)
    (count : ℕ) : Steady (readElements element count) := by
  induction count with
  | zero => exact steady_pure []
  | succ count ih => exact h.bind fun _ => ih.bind fun _ => steady_pure _

theorem steady_readArr {α : Type} {element : Deserialize α} (h : Steady element) :
    Steady (readArr element) :=
  steady_readSize.bind (steady_readElements h)

/-- The outcome of a read, with more bytes behind what it has left. -/
abbrev followedBy {α : Type} (outcome : Except Exception (Option (α × List UInt8)))
    (more : List UInt8) : Except Exception (Option (α × List UInt8)) :=
  outcome.map (Option.map fun found => (found.1, found.2 ++ more))

theorem construct_append {α : Type} {make : α → Except Exception Value} {reader : Deserialize α}
    (hsteady : Steady reader) {view : List UInt8} (more : List UInt8)
    (h : construct make reader view ≠ .ok none) :
    construct make reader (view ++ more) = followedBy (construct make reader view) more := by
  simp only [construct] at h ⊢
  cases hread : reader view with
  | none =>
      rw [hread] at h
      exact absurd rfl h
  | some found =>
      rw [hsteady view found.1 found.2 more hread]
      dsimp only
      cases make found.1 <;> rfl

theorem readValue_append {type : UInt8} {view : List UInt8} (more : List UInt8)
    (h : readValue type view ≠ .ok none) :
    readValue type (view ++ more) = followedBy (readValue type view) more := by
  have hnumber : ∀ {α : Type} (width : ℕ) (ofBytes : List UInt8 → α),
      Steady (do return ofBytes (← readBytes width)) := steady_number
  simp only [readValue] at h ⊢
  cases htype : ValueType.ofByte type with
  | none =>
      rw [htype] at h
      exact absurd rfl h
  | some tag =>
      rw [htype] at h
      cases tag with
      | empty => rfl
      | raw => exact construct_append steady_readRaw more h
      | string => exact construct_append steady_readRaw more h
      | boolean => exact construct_append (hnumber 1 _) more h
      | integer32 => exact construct_append (hnumber 4 _) more h
      | integer64 => exact construct_append (hnumber 8 _) more h
      | floatingPoint32 => exact construct_append (hnumber 4 _) more h
      | floatingPoint64 =>
          exact construct_append ((hnumber 8 _).bind fun _ => steady_pure _) more h
      | integer32Array => exact construct_append (steady_readArr ((hnumber 4 _).map _)) more h
      | integer64Array => exact construct_append (steady_readArr ((hnumber 8 _).map _)) more h
      | floatingPoint32Array => exact construct_append (steady_readArr (hnumber 4 _)) more h
      | floatingPoint64Array =>
          exact construct_append
            (steady_readArr ((hnumber 8 _).bind fun _ => steady_pure _)) more h

end Deserializer

namespace Serializer

/-! ## Values that were written -/

theorem lt_of_writeSize {size : ℕ} {writer : Serialize} {b b' : LinearBuffer}
    (h : (writeSize size).andThen writer b = some b') : size < 255 := by
  by_contra hlong
  have hlimit : isWithinSizeLimits size = false := decide_eq_false hlong
  rw [SymbolWriter.andThen, writeSize, hlimit] at h
  cases h

/-- A value that writes what a constructed value of its type writes is read back. -/
theorem reads_of_build {behind : Behind} {v v' : Value} {c : Construction}
    (hbuild : c.build = .ok v') (htype : v'.type = v.type)
    (hsame : writeValue behind v' = writeValue behind v) :
    ∃ bytes value, Writes (writeValue behind v) bytes ∧
      ∀ rest, Deserializer.readValue v.type.toByte (bytes ++ rest) = .ok (some (value, rest)) := by
  refine ⟨c.bytes behind, c.readBack behind, ?_, ?_⟩
  · rw [← hsame]
    exact Construction.writes_writeValue c hbuild behind
  · intro rest
    rw [← htype]
    exact Construction.readValue_bytes c hbuild behind rest

/-- What `write_value` writes under a tag, `read_value` takes under this tag. -/
theorem reads_of_writeValue {behind : Behind} {v : Value} {b b' : LinearBuffer}
    (h : writeValue behind v b = some b') :
    ∃ bytes value, Writes (writeValue behind v) bytes ∧
      ∀ rest, Deserializer.readValue v.type.toByte (bytes ++ rest) = .ok (some (value, rest)) := by
  obtain ⟨type, data⟩ := v
  cases type with
  | empty => exact reads_of_build (c := .make) rfl rfl rfl
  | integer64Array =>
      have hlength := lt_of_writeSize h
      exact reads_of_build
        (c := .makeInt64Array (Value.getInt64Array behind ⟨.integer64Array, data⟩))
        (Construction.ofArray_of_lt _ _ hlength) rfl rfl
  | raw =>
      cases data with
      | raw bytes =>
          have hlength := lt_of_writeSize h
          exact reads_of_build (c := .makeRaw bytes) (Construction.ofArray_of_lt _ _ hlength)
            rfl rfl
      | _ => cases h
  | string =>
      cases data with
      | string text =>
          have hlength := lt_of_writeSize h
          exact reads_of_build (c := .makeString text) (Construction.ofArray_of_lt _ _ hlength)
            rfl rfl
      | _ => cases h
  | boolean =>
      cases data with
      | boolean bit => exact reads_of_build (c := .makeBoolean bit) rfl rfl rfl
      | _ => cases h
  | integer32 =>
      cases data with
      | integer32 number => exact reads_of_build (c := .makeInt32 number) rfl rfl rfl
      | _ => cases h
  | integer64 =>
      cases data with
      | integer64 number => exact reads_of_build (c := .makeInt64 number) rfl rfl rfl
      | _ => cases h
  | floatingPoint32 =>
      cases data with
      | floatingPoint32 bits => exact reads_of_build (c := .makeFloat bits) rfl rfl rfl
      | _ => cases h
  | floatingPoint64 =>
      cases data with
      | floatingPoint64 bits => exact reads_of_build (c := .makeDouble bits) rfl rfl rfl
      | _ => cases h
  | integer32Array =>
      cases data with
      | integer32Array numbers =>
          have hlength := lt_of_writeSize h
          exact reads_of_build (c := .makeInt32Array numbers)
            (Construction.ofArray_of_lt _ _ hlength) rfl rfl
      | _ => cases h
  -- no constructor leaves one of these two tags
  | floatingPoint32Array =>
      cases data with
      | floatingPoint32Array bits =>
          have hlength := lt_of_writeSize h
          have hread := Deserializer.reads_readArr Deserializer.reads_read32 hlength
          rw [List.map_id'] at hread
          exact ⟨_, _, writes_writeArr (fun _ => writes_writeBytes _) hlength, fun rest =>
            Deserializer.construct_of_reads hread (Construction.ofArray_of_lt _ _ hlength) rest⟩
      | _ => cases h
  | floatingPoint64Array =>
      cases data with
      | floatingPoint64Array bits =>
          have hlength := lt_of_writeSize h
          have hread := Deserializer.reads_readArr Deserializer.reads_readf64 hlength
          exact ⟨_, _, writes_writeArr (fun _ => writes_writeBytes _) hlength, fun rest =>
            Deserializer.construct_of_reads hread
              (Construction.ofArray_of_lt _ _ (by rwa [List.length_map])) rest⟩
      | _ => cases h

end Serializer

end Obsr.Io

namespace Obsr.Net

open Obsr.Io Obsr.Lib SymbolWriter

namespace MessageParser

/-! ## Readings that go on -/

/-- A reading with more bytes behind what it has left. -/
def Reading.followedBy (more : List UInt8) : Reading → Reading
  | .complete rest => .complete (rest ++ more)
  | .missing => .missing
  | .threw => .threw

theorem assigning_append {α : Type} {reader : Deserialize α}
    (hsteady : SymbolReader.Steady reader) {assign : α → Assignment} {view : List UInt8}
    (more : List UInt8) (h : assigning reader assign view ≠ none) :
    assigning reader assign (view ++ more) =
      (assigning reader assign view).map fun found => (found.1, found.2 ++ more) := by
  simp only [assigning] at h ⊢
  cases hread : reader view with
  | none =>
      rw [hread] at h
      exact absurd rfl h
  | some found =>
      rw [hsteady view found.1 found.2 more hread]
      rfl

/-- A field that is there, or whose value is refused, is so whatever follows. -/
theorem readField_append {current : ParseState} {type : UInt8} {view : List UInt8}
    (more : List UInt8) (h : readField current type view ≠ .ok none) :
    readField current type (view ++ more) =
      (readField current type view).map (Option.map fun found => (found.1, found.2 ++ more)) := by
  have hassigning : ∀ {α : Type} {reader : Deserialize α} {assign : α → Assignment},
      SymbolReader.Steady reader →
      (Except.ok (assigning reader assign view) : Except Exception _) ≠ .ok none →
      (Except.ok (assigning reader assign (view ++ more)) : Except Exception _) =
        .ok ((assigning reader assign view).map fun found => (found.1, found.2 ++ more)) :=
    fun hsteady hthere =>
      congrArg Except.ok (assigning_append hsteady more fun hnone => hthere (congrArg _ hnone))
  cases current with
  | checkType => rfl
  | readId => exact hassigning (Deserializer.steady_number 2 _) h
  | readName => exact hassigning Deserializer.steady_readRaw h
  | readValueType => exact hassigning (Deserializer.steady_number 1 _) h
  | readSendTime => exact hassigning (Deserializer.steady_number 8 _) h
  | readTimeValue => exact hassigning (Deserializer.steady_number 8 _) h
  | readValue =>
      simp only [readField] at h ⊢
      cases hvalue : Deserializer.readValue type view with
      | error thrown =>
          rw [Deserializer.readValue_append more (by rw [hvalue]; simp), hvalue]
          rfl
      | ok found =>
          cases found with
          | none =>
              rw [hvalue] at h
              exact absurd rfl h
          | some found =>
              rw [Deserializer.readValue_append more (by rw [hvalue]; simp), hvalue]
              rfl

theorem reading_append {fields : List ParseState} {data : ParseData} {view : List UInt8}
    (more : List UInt8) (h : reading fields data view ≠ .missing) :
    reading fields data (view ++ more) = (reading fields data view).followedBy more := by
  induction fields generalizing data view with
  | nil => rfl
  | cons current next ih =>
      simp only [reading] at h ⊢
      cases hread : readField current data.type view with
      | error thrown =>
          rw [readField_append more (by rw [hread]; simp), hread]
          rfl
      | ok found =>
          cases found with
          | none =>
              rw [hread] at h
              exact absurd rfl h
          | some found =>
              rw [hread] at h
              rw [readField_append more (by rw [hread]; simp), hread]
              exact ih h

/-- The front of a payload that is read to its last byte lacks a field. -/
theorem reading_eq_missing_of_cut {fields : List ParseState} {data : ParseData}
    {payload cut : List UInt8} (hwhole : reading fields data payload = .complete [])
    (hcut : cut <+: payload) (hshort : cut ≠ payload) :
    reading fields data cut = .missing := by
  obtain ⟨more, rfl⟩ := hcut
  have hmore : more ≠ [] := fun hnone => hshort (by rw [hnone, List.append_nil])
  by_contra hthere
  rw [reading_append more hthere] at hwhole
  cases hreading : reading fields data cut <;> rw [hreading] at hwhole <;>
    simp [Reading.followedBy, hmore] at hwhole

theorem reading_of_consumes {fields : List ParseState} {data data' : ParseData}
    {view rest : List UInt8} (h : Consumes fields data view data' rest) :
    reading fields data view = .complete rest := by
  induction h with
  | nil => rfl
  | cons found _ ih =>
      rw [reading, found]
      exact ih

theorem Consumes.append {first second : List ParseState} {data data' data'' : ParseData}
    {view view' rest : List UInt8} (h : Consumes first data view data' view')
    (h' : Consumes second data' view' data'' rest) :
    Consumes (first ++ second) data view data'' rest := by
  induction h with
  | nil => exact h'
  | cons found _ ih => exact .cons found (ih h')

/-! ## Payloads that were written -/

/-- Where the writer succeeds, it writes bytes in which the states find their fields. -/
def Carries (writer : Serialize) (fields : List ParseState) : Prop :=
  (∃ b b', writer b = some b') →
    ∃ bytes, Writes writer bytes ∧
      ∀ data rest, ∃ data', Consumes fields data (bytes ++ rest) data' rest

theorem Carries.andThen {first second : Serialize} {fields fields' : List ParseState}
    (h : Carries first fields) (h' : Carries second fields') :
    Carries (first.andThen second) (fields ++ fields') := by
  rintro ⟨b, b', hwrite⟩
  obtain ⟨between, hfirst, hsecond⟩ := Option.bind_eq_some_iff.mp hwrite
  obtain ⟨bytes, hwrites, hconsumes⟩ := h ⟨b, between, hfirst⟩
  obtain ⟨bytes', hwrites', hconsumes'⟩ := h' ⟨between, b', hsecond⟩
  refine ⟨bytes ++ bytes', hwrites.andThen hwrites', ?_⟩
  intro data rest
  obtain ⟨data', htaken⟩ := hconsumes data (bytes' ++ rest)
  obtain ⟨data'', htaken'⟩ := hconsumes' data' rest
  rw [List.append_assoc]
  exact ⟨data'', htaken.append htaken'⟩

theorem carries_sendTime (time : ℤ) :
    Carries (Serializer.write64 (count time)) [.readSendTime] := fun _ =>
  ⟨_, Serializer.writes_writeBytes _, fun _ _ => ⟨_, .readSendTime .nil⟩⟩

theorem carries_timeValue (time : ℤ) :
    Carries (Serializer.write64 (count time)) [.readTimeValue] := fun _ =>
  ⟨_, Serializer.writes_writeBytes _, fun _ _ => ⟨_, .readTimeValue .nil⟩⟩

theorem carries_id (id : EntryId) : Carries (Serializer.write16 id) [.readId] := fun _ =>
  ⟨_, Serializer.writes_writeBytes _, fun _ _ => ⟨_, .readId .nil⟩⟩

theorem carries_name (name : Text) : Carries (Serializer.writeStr name) [.readName] := by
  rintro ⟨b, b', hwrite⟩
  have hname := Serializer.lt_of_writeSize hwrite
  exact ⟨_, Serializer.writes_writeRaw hname, fun _ _ => ⟨_, .readName hname .nil⟩⟩

theorem carries_typedValue (behind : Behind) (value : Value) :
    Carries (MessageSerializer.typedValue behind value) [.readValueType, .readValue] := by
  rintro ⟨b, b', hwrite⟩
  obtain ⟨between, -, hvalue⟩ := Option.bind_eq_some_iff.mp hwrite
  obtain ⟨bytes, value', hwrites, hread⟩ := Serializer.reads_of_writeValue hvalue
  refine ⟨value.type.toByte :: bytes, (Serializer.writes_writeBytes _).andThen hwrites, ?_⟩
  intro data rest
  have htaken : Consumes [.readValue] { data with type := value.type.toByte } (bytes ++ rest)
      { data with type := value.type.toByte, value := value' } rest := by
    refine @Consumes.cons .readValue [] (fun data => { data with value := value' })
      _ _ _ _ _ ?_ .nil
    show (Deserializer.readValue value.type.toByte (bytes ++ rest)).map _ = _
    rw [hread]
    rfl
  exact ⟨_, Consumes.assigning (fun _ _ => rfl)
    (Deserializer.reads_read8 value.type.toByte) htaken⟩

variable {behind : Behind} {message : OutMessage} {serializer : Serialize}
  {fields : List ParseState}

theorem carries_serializer (hserializer : message.serializer behind = some serializer)
    (hfields : fieldsOf message.type = some fields) : Carries serializer fields := by
  unfold OutMessage.serializer at hserializer
  cases htype : message.type <;> rw [htype] at hserializer hfields <;>
    simp only [fieldsOf, Option.some.injEq, reduceCtorEq] at hserializer hfields <;>
    subst hserializer hfields
  case entryCreate =>
    exact (carries_sendTime _).andThen ((carries_name _).andThen (carries_typedValue _ _))
  case entryUpdate =>
    exact (carries_sendTime _).andThen ((carries_id _).andThen (carries_typedValue _ _))
  case entryDelete => exact (carries_sendTime _).andThen (carries_id _)
  case entryIdAssign => exact (carries_id _).andThen (carries_name _)
  case timeSyncRequest => exact carries_sendTime _
  case timeSyncResponse => exact (carries_sendTime _).andThen (carries_timeValue _)
  case handshakeReady | handshakeFinished =>
    exact fun _ => ⟨[], writes_done, fun data _ => ⟨data, .nil⟩⟩

/-- A payload that was completed is read to its last byte. -/
theorem reading_written (hserializer : message.serializer behind = some serializer)
    (hfields : fieldsOf message.type = some fields) {size : ℕ} {buffer : LinearBuffer}
    (hwrite : serializer (BoundedBuffer.empty size) = some buffer) (data : ParseData) :
    reading fields data buffer.written = .complete [] := by
  obtain ⟨bytes, hwrites, hconsumes⟩ :=
    carries_serializer hserializer hfields ⟨_, buffer, hwrite⟩
  obtain ⟨data', htaken⟩ := hconsumes data []
  rw [List.append_nil] at htaken
  rw [hwrites.written hwrite]
  exact reading_of_consumes htaken

/-! ## The verdict on a cut payload -/

/-- The parser is in error because of a read, and not finished. -/
structure CutOff (p : MessageParser) : Prop where
  state : p.machine.state = .error
  code : p.machine.errorCode = ParseError.readData
  errored : p.machine.isErrored = true
  unfinished : p.isFinished = false

theorem cutOff_of_state {p : MessageParser} (hstate : p.machine.state = .error)
    (hcode : p.machine.errorCode = ParseError.readData) : p.CutOff := by
  refine ⟨hstate, hcode, ?_, ?_⟩
  · simp [StateMachine.isErrored, hcode, ParseError.readData]
  · simp [isFinished, StateMachine.isFinished, hstate]

/-- A machine in error takes no further step. -/
theorem CutOff.process {p : MessageParser} (h : p.CutOff) : p.process.2.CutOff := by
  have hsame : p.process = (.stop, p) := by
    simp only [MessageParser.process, StateMachine.process, h.state]
  rw [hsame]
  exact h

/-- However often it is asked. -/
theorem CutOff.processes {p : MessageParser} (h : p.CutOff) (calls : ℕ) :
    ((fun p : MessageParser => p.process.2)^[calls] p).CutOff := by
  induction calls generalizing p with
  | zero => exact h
  | succ calls ih => exact ih h.process

/-- Whatever the parser has read before, and wherever a completed payload is cut, the
first call of `process` returns in error, and the parser never gets out of it. -/
theorem cutOff_of_strictPrefix (hserializer : message.serializer behind = some serializer)
    {buffer : LinearBuffer}
    (hwrite : serializer (BoundedBuffer.empty MessageSerializer.writerBufferSize) = some buffer)
    {cut : List UInt8} (hcut : cut <+: buffer.written) (hshort : cut ≠ buffer.written)
    (p : MessageParser) :
    (p.setData message.type cut).process.1 = .stop ∧
      ∀ calls, ((fun p : MessageParser => p.process.2)^[calls]
        (p.setData message.type cut).process.2).CutOff := by
  obtain ⟨-, fields, hfields⟩ := ofByte_toByte_of_serializer hserializer
  have hends := ends_verdict hfields p cut
  rw [reading_eq_missing_of_cut (reading_written hserializer hfields hwrite p.data) hcut
    hshort] at hends
  obtain ⟨hstop, hstate, hcode⟩ := hends
  exact ⟨hstop, (cutOff_of_state hstate hcode).processes⟩

/-- An `entry_create` of the name `/x` with an array, cut in its second element. -/
theorem cutOff_of_strictPrefix_int32Array :
    let p := (MessageParser.new ⟨0, 0, [], 0, Value.make, 0⟩).setData .entryCreate
      [0, 0, 0, 0, 0, 0, 0, 5, 2, 47, 120, 8, 2, 0, 0, 0, 7, 255, 255]
    p.process.1 = .stop ∧
      ∀ calls, ((fun p : MessageParser => p.process.2)^[calls] p.process.2).CutOff :=
  have hserializer : (OutMessage.entryCreate 5 [47, 120]
      ⟨.integer32Array, .integer32Array [7, -1]⟩).serializer (fun _ => 0) = some _ := rfl
  have hwrites := OutMessage.writes_serializer hserializer (by decide)
    (c := .makeInt32Array [7, -1]) rfl
  cutOff_of_strictPrefix hserializer
    ((hwrites _).trans (BoundedBuffer.append_of_le (by decide +kernel)))
    (by decide +kernel) (by decide +kernel) (MessageParser.new ⟨0, 0, [], 0, Value.make, 0⟩)

end MessageParser

end Obsr.Net
