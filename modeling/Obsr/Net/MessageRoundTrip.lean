/-
# Messages on the wire

What `write_message` hands to its destination, read by a `message_parser`. The
serializer fixes the order of the fields in straight-line code and the parser in
its table of states; `Consumes` is the form of a message both agree on.
-/

import Obsr.Io.ValueRoundTrip
import Obsr.Net.MessageParser
import Obsr.Net.MessageSerializer

namespace Obsr.Net

open Obsr.Io Obsr.Lib SymbolWriter SymbolReader

/-- The range of `std::chrono::milliseconds`. -/
def InTimeRange (time : ℤ) : Prop := -2 ^ 63 ≤ time ∧ time < 2 ^ 63

instance (time : ℤ) : Decidable (InTimeRange time) := inferInstanceAs (Decidable (_ ∧ _))

theorem milliseconds_count {time : ℤ} (h : InTimeRange time) :
    milliseconds (count time) = time := by
  unfold milliseconds count
  rw [Int64.toInt64_toUInt64]
  exact Int64.toInt_ofInt_of_le h.1 h.2

namespace MessageParser

/-! ## Reading a sequence of fields -/

/-- The states find their fields one after the other, from these bytes to the
rest. -/
inductive Consumes : List ParseState → ParseData → List UInt8 → ParseData → List UInt8 → Prop
  | nil {data : ParseData} {view : List UInt8} : Consumes [] data view data view
  | cons {current : ParseState} {next : List ParseState} {assign : Assignment}
      {data data' : ParseData} {view rest view' : List UInt8}
      (found : readField current data.type view = .ok (some (assign, rest)))
      (others : Consumes next (assign data) rest data' view') :
      Consumes (current :: next) data view data' view'

theorem readFields_of_consumes {fields : List ParseState} {data data' : ParseData}
    {view rest : List UInt8} (h : Consumes fields data view data' rest) :
    readFields fields data view = (true, data') := by
  induction h with
  | nil => rfl
  | cons found _ ih => rw [readFields_of_read found, ih]

/-- A planned machine takes the bytes of the fields, and no more. -/
theorem view_processLoop_of_consumes {type : MessageType} {fields : List ParseState}
    {data data' : ParseData} {view rest : List UInt8}
    (h : Consumes fields data view data' rest) {m : StateMachine ParseState ParseData}
    (hstate : m.state = .inState) (hdata : m.data = data) {next : List ParseState}
    (hfields : fields = m.userState :: next) (hplan : Planned type fields) {bound : ℕ}
    (hbound : fields.length ≤ bound) :
    (StateMachine.processLoop behaviour bound m ⟨type, view⟩).2.2.view = rest := by
  induction h generalizing m next bound with
  | nil => exact absurd hfields (List.cons_ne_nil _ _).symm
  | @cons current others assign data data' view taken rest found hothers ih =>
      obtain ⟨rfl, rfl⟩ := List.cons.inj hfields
      subst hdata
      obtain ⟨bound, rfl⟩ := Nat.exists_eq_succ_of_ne_zero
        (Nat.ne_zero_of_lt (Nat.lt_of_lt_of_le (Nat.succ_pos _) hbound))
      cases others with
      | nil =>
          cases hothers
          rw [processLoop_of_last hstate hplan found]
      | cons following others =>
          have hnext := ih
            (m := { m with data := assign m.data, state := .inState, userState := following })
            rfl rfl rfl hplan.2 (Nat.le_of_succ_le_succ hbound)
          rw [processLoop_of_following hstate hplan found]
          exact hnext

/-- A parser finishes a message whose fields are all there. -/
theorem parse_of_consumes {type : MessageType} {fields : List ParseState}
    (hfields : fieldsOf type = some fields) (p : MessageParser) {data : ParseData}
    {payload rest : List UInt8} (h : Consumes fields p.data payload data rest) :
    (p.parse type payload).isFinished = true ∧ (p.parse type payload).data = data ∧
      (p.parse type payload).input.view = rest := by
  have hread := readFields_of_consumes h
  have hparse : parseFields type payload p.data = (true, data) := by
    simp only [parseFields, hfields]
    exact hread
  refine ⟨by rw [isFinished_parse, hparse], by rw [data_parse, hparse], ?_⟩
  have hchecked : Consumes (.checkType :: fields) p.data payload data rest := .cons rfl h
  exact view_processLoop_of_consumes hchecked
    (m := { p.machine with state := .inState, errorCode := 0, userState := .checkType })
    rfl rfl rfl (planned_of_fieldsOf hfields) (length_lt_bound hfields)

/-! ## The fields in the bytes of their writers -/

/-- A field whose reader takes the bytes in front of the others. -/
theorem Consumes.assigning {α : Type} {current : ParseState} {reader : Deserialize α}
    {assign : α → Assignment}
    (hfield : ∀ type view, readField current type view =
      .ok (MessageParser.assigning reader assign view))
    {bytes : List UInt8} {a : α} (hreads : Reads reader bytes a) {next : List ParseState}
    {data data' : ParseData} {others rest : List UInt8}
    (h : Consumes next (assign a data) others data' rest) :
    Consumes (current :: next) data (bytes ++ others) data' rest := by
  refine .cons ?_ h
  rw [hfield, MessageParser.assigning, hreads others]
  rfl

variable {next : List ParseState} {data data' : ParseData} {others rest : List UInt8}

theorem Consumes.readSendTime {time : ℤ}
    (h : Consumes next { data with sendTime := milliseconds (count time) } others data' rest) :
    Consumes (.readSendTime :: next) data
      (BigEndian.toBytes 8 (count time).toNat ++ others) data' rest :=
  Consumes.assigning (fun _ _ => rfl) (Deserializer.reads_read64 (count time)) h

theorem Consumes.readTimeValue {time : ℤ}
    (h : Consumes next { data with timeValue := milliseconds (count time) } others data' rest) :
    Consumes (.readTimeValue :: next) data
      (BigEndian.toBytes 8 (count time).toNat ++ others) data' rest :=
  Consumes.assigning (fun _ _ => rfl) (Deserializer.reads_read64 (count time)) h

theorem Consumes.readId {id : EntryId}
    (h : Consumes next { data with id } others data' rest) :
    Consumes (.readId :: next) data (BigEndian.toBytes 2 id.toNat ++ others) data' rest :=
  Consumes.assigning (fun _ _ => rfl) (Deserializer.reads_read16 id) h

theorem Consumes.readName {name : Text} (hname : name.length < 255)
    (h : Consumes next { data with name } others data' rest) :
    Consumes (.readName :: next) data (UInt8.ofNat name.length :: name ++ others) data' rest :=
  Consumes.assigning (fun _ _ => rfl) (Deserializer.reads_readRaw hname) h

open Construction in
/-- The type of a value and the value. -/
theorem Consumes.readTypedValue {c : Construction} {value : Value} (hbuild : c.build = .ok value)
    (behind : Behind)
    (h : Consumes next { data with type := value.type.toByte, value := c.readBack behind }
      others data' rest) :
    Consumes (.readValueType :: .readValue :: next) data
      (value.type.toByte :: c.bytes behind ++ others) data' rest := by
  have hvalue : Consumes (.readValue :: next) { data with type := value.type.toByte }
      (c.bytes behind ++ others) data' rest := by
    refine @Consumes.cons .readValue next (fun data => { data with value := c.readBack behind })
      _ _ _ _ _ ?_ h
    show (Deserializer.readValue value.type.toByte (c.bytes behind ++ others)).map _ = _
    rw [readValue_bytes c hbuild behind others]
    rfl
  exact Consumes.assigning (fun _ _ => rfl) (Deserializer.reads_read8 value.type.toByte) hvalue

end MessageParser

/-! ## The bytes of a message -/

namespace OutMessage

/-- The name, where the message carries one, is one `write_str` accepts. -/
def NameFits (message : OutMessage) : Prop :=
  message.type = .entryCreate ∨ message.type = .entryIdAssign → message.name.length < 255

instance (message : OutMessage) : Decidable message.NameFits :=
  inferInstanceAs (Decidable (_ → _))

/-- What the serializer writes for a message with a value built by `c`. -/
def bytes (behind : Behind) (c : Construction) (message : OutMessage) : List UInt8 :=
  match message.type with
  | .entryCreate =>
      BigEndian.toBytes 8 (count message.sendTime).toNat ++
        (UInt8.ofNat message.name.length :: message.name ++
          (message.value.type.toByte :: c.bytes behind))
  | .entryUpdate =>
      BigEndian.toBytes 8 (count message.sendTime).toNat ++
        (BigEndian.toBytes 2 message.id.toNat ++ (message.value.type.toByte :: c.bytes behind))
  | .entryDelete =>
      BigEndian.toBytes 8 (count message.sendTime).toNat ++ BigEndian.toBytes 2 message.id.toNat
  | .entryIdAssign =>
      BigEndian.toBytes 2 message.id.toNat ++
        (UInt8.ofNat message.name.length :: message.name)
  | .timeSyncRequest => BigEndian.toBytes 8 (count message.sendTime).toNat
  | .timeSyncResponse =>
      BigEndian.toBytes 8 (count message.sendTime).toNat ++
        BigEndian.toBytes 8 (count message.time).toNat
  | .handshakeReady | .handshakeFinished | .noType | .unknown _ => []

variable {message : OutMessage} {behind : Behind} {serializer : Serialize}

theorem refuses_serializer (hserializer : message.serializer behind = some serializer)
    (hname : ¬ message.NameFits) : Refuses serializer := by
  simp only [NameFits, Classical.not_imp, Nat.not_lt] at hname
  obtain ⟨htype, hlength⟩ := hname
  have hstr := Serializer.refuses_writeStr hlength
  rcases htype with htype | htype <;>
    simp only [OutMessage.serializer, htype, Option.some.injEq] at hserializer <;>
    subst hserializer
  · exact (hstr.andThen _).after _
  · exact hstr.after _

theorem writes_serializer (hserializer : message.serializer behind = some serializer)
    (hname : message.NameFits) {c : Construction} (hbuild : c.build = .ok message.value) :
    Writes serializer (message.bytes behind c) := by
  have hword : ∀ bytes, Writes (Serializer.writeBytes bytes) bytes :=
    Serializer.writes_writeBytes
  have hvalue : Writes (MessageSerializer.typedValue behind message.value)
      (message.value.type.toByte :: c.bytes behind) :=
    (hword _).andThen (Construction.writes_writeValue c hbuild behind)
  unfold NameFits at hname
  unfold OutMessage.serializer at hserializer
  cases htype : message.type <;> rw [htype] at hserializer hname <;>
    simp only [Option.some.injEq, reduceCtorEq] at hserializer <;> subst hserializer <;>
    unfold OutMessage.bytes <;> rw [htype]
  case entryCreate =>
    have hstr := Serializer.writes_writeRaw (hname (Or.inl rfl))
    exact (hword _).andThen (hstr.andThen hvalue)
  case entryUpdate => exact (hword _).andThen ((hword _).andThen hvalue)
  case entryDelete => exact (hword _).andThen (hword _)
  case entryIdAssign =>
    exact (hword _).andThen (Serializer.writes_writeRaw (hname (Or.inr rfl)))
  case timeSyncRequest => exact hword _
  case timeSyncResponse => exact (hword _).andThen (hword _)
  case handshakeReady | handshakeFinished => exact writes_done

/-! ## The round trip -/

/-- The data shows, in the fields the type of the message carries, what the
message holds. -/
def ShownBy (message : OutMessage) (data : ParseData) : Prop :=
  match message.type with
  | .entryCreate =>
      data.sendTime = message.sendTime ∧ data.name = message.name ∧
        data.type = message.value.type.toByte ∧ data.value = message.value
  | .entryUpdate =>
      data.sendTime = message.sendTime ∧ data.id = message.id ∧
        data.type = message.value.type.toByte ∧ data.value = message.value
  | .entryDelete => data.sendTime = message.sendTime ∧ data.id = message.id
  | .entryIdAssign => data.id = message.id ∧ data.name = message.name
  | .timeSyncRequest => data.sendTime = message.sendTime
  | .timeSyncResponse => data.sendTime = message.sendTime ∧ data.timeValue = message.time
  | .handshakeReady | .handshakeFinished | .noType | .unknown _ => True

open MessageParser in
/-- The states of the parser find their fields in these bytes. They show the message if
its times are in range and its value survives. -/
theorem consumes_bytes {fields : List ParseState} (hfields : fieldsOf message.type = some fields)
    (hname : message.NameFits) {c : Construction} (hbuild : c.build = .ok message.value)
    (data : ParseData) (rest : List UInt8) :
    ∃ data', Consumes fields data (message.bytes behind c ++ rest) data' rest ∧
      (c.readBack behind = message.value → InTimeRange message.sendTime →
        InTimeRange message.time → message.ShownBy data') := by
  unfold NameFits at hname
  unfold ShownBy bytes
  cases htype : message.type <;> rw [htype] at hfields hname <;>
    simp only [fieldsOf, Option.some.injEq, reduceCtorEq] at hfields <;> subst hfields <;>
    simp only [List.append_assoc]
  case entryCreate =>
    refine ⟨_, .readSendTime (.readName (hname (Or.inl rfl))
      (.readTypedValue hbuild behind .nil)), ?_⟩
    intro hvalue hsend _
    exact ⟨milliseconds_count hsend, rfl, rfl, hvalue⟩
  case entryUpdate =>
    refine ⟨_, .readSendTime (.readId (.readTypedValue hbuild behind .nil)), ?_⟩
    intro hvalue hsend _
    exact ⟨milliseconds_count hsend, rfl, rfl, hvalue⟩
  case entryDelete =>
    refine ⟨_, .readSendTime (.readId .nil), ?_⟩
    intro _ hsend _
    exact ⟨milliseconds_count hsend, rfl⟩
  case entryIdAssign =>
    exact ⟨_, .readId (.readName (hname (Or.inr rfl)) .nil), fun _ _ _ => ⟨rfl, rfl⟩⟩
  case timeSyncRequest =>
    exact ⟨_, .readSendTime .nil, fun _ hsend _ => milliseconds_count hsend⟩
  case timeSyncResponse =>
    refine ⟨_, .readSendTime (.readTimeValue .nil), ?_⟩
    intro _ hsend htime
    exact ⟨milliseconds_count hsend, milliseconds_count htime⟩
  case handshakeReady | handshakeFinished => exact ⟨_, .nil, fun _ _ _ => trivial⟩

end OutMessage

namespace MessageQueue

/-- A destination that takes everything and keeps what it was given. -/
def recording : Destination (List (UInt8 × List UInt8)) :=
  fun type payload handed => (true, handed ++ [(type, payload)])

/-- `write_message` hands this type and these bytes to the destination. -/
def Hands (behind : Behind) (message : OutMessage) (type : UInt8) (payload : List UInt8) : Prop :=
  (type, payload) ∈ (writeMessage behind recording message []).2

instance (behind : Behind) (message : OutMessage) (type : UInt8) (payload : List UInt8) :
    Decidable (Hands behind message type payload) :=
  inferInstanceAs (Decidable (_ ∈ _))

theorem hands_iff {behind : Behind} {message : OutMessage} {type : UInt8}
    {payload : List UInt8} :
    Hands behind message type payload ↔
      type = message.type.toByte ∧ ∃ serializer buffer,
        message.serializer behind = some serializer ∧
          serializer (BoundedBuffer.empty MessageSerializer.writerBufferSize) = some buffer ∧
            buffer.written = payload := by
  unfold Hands writeMessage
  cases hserializer : message.serializer behind with
  | none => simp
  | some serializer =>
      cases hwrite : serializer (BoundedBuffer.empty MessageSerializer.writerBufferSize) with
      | none => simp [hwrite]
      | some buffer => simp [hwrite, recording, eq_comm]

end MessageQueue

/-- The parser has read the whole message and shows it. -/
structure ReadsBack (message : OutMessage) (p : MessageParser) : Prop where
  finishes : p.isFinished = true
  consumes : p.input.view = []
  shows : message.ShownBy p.data

theorem ofByte_toByte_of_serializer {message : OutMessage} {behind : Behind}
    {serializer : Serialize} (h : message.serializer behind = some serializer) :
    MessageType.ofByte message.type.toByte = message.type ∧
      ∃ fields, MessageParser.fieldsOf message.type = some fields := by
  unfold OutMessage.serializer at h
  cases htype : message.type <;> rw [htype] at h <;>
    first
    | exact ⟨rfl, _, rfl⟩
    | simp at h

open MessageQueue in
/-- Whatever a parser has read before, it reads back every message that is handed
to the destination. -/
theorem readsBack_of_hands {behind : Behind} {message : OutMessage}
    (hsend : InTimeRange message.sendTime) (htime : InTimeRange message.time)
    {c : Construction} (hbuild : c.build = .ok message.value) (hsurvives : c.Survives)
    {type : UInt8} {payload : List UInt8} (hhands : Hands behind message type payload)
    (p : MessageParser) : ReadsBack message (p.parse (.ofByte type) payload) := by
  obtain ⟨rfl, serializer, buffer, hserializer, hwrite, rfl⟩ := hands_iff.mp hhands
  obtain ⟨htype, fields, hfields⟩ := ofByte_toByte_of_serializer hserializer
  have hname : message.NameFits := by
    by_contra hname
    rw [OutMessage.refuses_serializer hserializer hname] at hwrite
    exact absurd hwrite (Option.some_ne_none _).symm
  have hwritten := (OutMessage.writes_serializer hserializer hname hbuild).written hwrite
  have hvalue : c.readBack behind = message.value := by
    rw [(Construction.readBack_eq_value_iff c behind).mpr hsurvives]
    exact Construction.value_of_build hbuild hsurvives
  obtain ⟨data, hconsumes, hshown⟩ :=
    OutMessage.consumes_bytes hfields hname hbuild p.data []
  rw [List.append_nil] at hconsumes
  obtain ⟨hfinishes, hdata, hview⟩ := MessageParser.parse_of_consumes hfields p hconsumes
  rw [htype, hwritten]
  exact ⟨hfinishes, hview, hdata ▸ hshown hvalue hsend htime⟩

/-- An `entry_create` of the name `/x` with an array, to a parser that has seen an
`entry_delete`. -/
theorem readsBack_int32Array :
    ReadsBack (.entryCreate 5 [47, 120] ⟨.integer32Array, .integer32Array [7, -1]⟩)
      (((MessageParser.new ⟨0, 0, [], 0, Value.make, 0⟩).parse .entryDelete
        (List.replicate 10 1)).parse (.ofByte 1)
          [0, 0, 0, 0, 0, 0, 0, 5, 2, 47, 120, 8, 2, 0, 0, 0, 7, 255, 255, 255, 255]) :=
  have hhands : MessageQueue.Hands (fun _ => 0)
      (.entryCreate 5 [47, 120] ⟨.integer32Array, .integer32Array [7, -1]⟩) 1
      [0, 0, 0, 0, 0, 0, 0, 5, 2, 47, 120, 8, 2, 0, 0, 0, 7, 255, 255, 255, 255] := by
    decide +kernel
  readsBack_of_hands (by decide) (by decide) (c := .makeInt32Array [7, -1]) rfl trivial hhands _

end Obsr.Net
