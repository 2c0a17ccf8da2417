/-
# The message parser

`message_parser` is a state machine over `parse_data`. Each of its states reads
one field of a message, and the type of the message decides which state follows.

The data survives `set_data`. A message therefore leaves in the parser whatever
it read, and a later message that does not carry one of these fields shows the
old one to the handler. The only field a handler reads without the message
carrying it is the id of an `entry_create`; the last section says exactly when
that can be noticed.
-/

import Obsr.Io.Deserializer
import Obsr.Net.Message
import Obsr.Util.StateMachine

namespace Obsr.Net

open Obsr.Io

inductive ParseState
  | checkType
  | readId
  | readName
  | readValueType
  | readValue
  | readSendTime
  | readTimeValue
  deriving DecidableEq, Repr

namespace ParseError

/-- The first enumerator, so this error leaves the error code of a machine
without errors. -/
def unknownType : UInt8 := 0

def readData : UInt8 := 1

end ParseError

/-- The fields of `message_parser`: the type and the bytes of the message that
are not read yet. -/
structure ParserInput where
  type : MessageType
  view : List UInt8
  deriving DecidableEq, Repr

structure MessageParser where
  machine : StateMachine ParseState ParseData
  input : ParserInput
  deriving DecidableEq, Repr

/-- `std::chrono::milliseconds(value)`. -/
def milliseconds (count : UInt64) : ℤ := count.toInt64.toInt

namespace MessageParser

/-! ## The machine -/

/-- A field that was read, as the assignment to the data it is read for. -/
abbrev Assignment := ParseData → ParseData

/-- Read with `reader` and assign the result. -/
def assigning {α : Type} (reader : Deserialize α) (assign : α → Assignment)
    (view : List UInt8) : Option (Assignment × List UInt8) :=
  (reader view).map fun (read, rest) => (assign read, rest)

/-- What each state reads; `type` is the value type read before. -/
def readField (current : ParseState) (type : UInt8) (view : List UInt8) :
    Except Exception (Option (Assignment × List UInt8)) :=
  match current with
  | .checkType => .ok (some (id, view))
  | .readId => .ok (assigning Deserializer.read16 (fun id data => { data with id }) view)
  | .readName =>
      .ok (assigning Deserializer.readStr (fun name data => { data with name }) view)
  | .readValueType =>
      .ok (assigning Deserializer.read8 (fun type data => { data with type }) view)
  | .readValue =>
      (Deserializer.readValue type view).map
        (Option.map fun (value, rest) => (fun data => { data with value }, rest))
  | .readSendTime =>
      .ok (assigning Deserializer.read64
        (fun count data => { data with sendTime := milliseconds count }) view)
  | .readTimeValue =>
      .ok (assigning Deserializer.read64
        (fun count data => { data with timeValue := milliseconds count }) view)

def selectNextState (current : ParseState) (type : MessageType)
    (m : StateMachine ParseState ParseData) :
    Verdict × StateMachine ParseState ParseData :=
  match current with
  | .checkType =>
      match type with
      | .entryCreate | .entryUpdate | .entryDelete | .timeSyncRequest | .timeSyncResponse =>
          m.moveToState .readSendTime
      | .entryIdAssign => m.moveToState .readId
      | .handshakeReady | .handshakeFinished => m.finished
      | _ => m.error ParseError.unknownType
  | .readId =>
      match type with
      | .entryIdAssign => m.moveToState .readName
      | .entryUpdate => m.moveToState .readValueType
      | .entryDelete => m.finished
      | _ => m.error ParseError.unknownType
  | .readName =>
      match type with
      | .entryCreate => m.moveToState .readValueType
      | .entryIdAssign => m.finished
      | _ => m.error ParseError.unknownType
  | .readValueType =>
      match type with
      | .entryCreate | .entryUpdate => m.moveToState .readValue
      | _ => m.error ParseError.unknownType
  | .readValue =>
      match type with
      | .entryCreate | .entryUpdate => m.finished
      | _ => m.error ParseError.unknownType
  | .readSendTime =>
      match type with
      | .entryCreate => m.moveToState .readName
      | .entryUpdate | .entryDelete => m.moveToState .readId
      | .timeSyncRequest => m.finished
      | .timeSyncResponse => m.moveToState .readTimeValue
      | _ => m.error ParseError.unknownType
  | .readTimeValue =>
      match type with
      | .timeSyncResponse => m.finished
      | _ => m.error ParseError.unknownType

def processState (current : ParseState) (m : StateMachine ParseState ParseData)
    (input : ParserInput) :
    Verdict × StateMachine ParseState ParseData × ParserInput :=
  match readField current m.data.type input.view with
  | .error _ => (.threw, m, input)
  | .ok none =>
      let (verdict, m) := m.error ParseError.readData
      (verdict, m, input)
  | .ok (some (assign, rest)) =>
      let (verdict, m) := selectNextState current input.type { m with data := assign m.data }
      (verdict, m, { input with view := rest })

def behaviour : StateMachine.Behaviour ParseState ParseData ParserInput where
  first := .checkType
  processState := processState

/-- One call for each of the states. -/
def bound : ℕ := 7

/-- A new parser. The constructor leaves the members without a constructor of
their own as `memory` has them. -/
def new (memory : ParseData) : MessageParser where
  machine :=
    { state := .start, userState := .checkType, errorCode := 0
      data := { memory with name := [], value := Value.make } }
  input := ⟨.unknown 255, []⟩

def data (p : MessageParser) : ParseData := p.machine.data

def setData (p : MessageParser) (type : MessageType) (payload : List UInt8) :
    MessageParser :=
  { machine := p.machine.reset .checkType, input := ⟨type, payload⟩ }

/-- The bound is never reached (`process_eq_of_bound_le`). -/
def process (p : MessageParser) : Verdict × MessageParser :=
  let (verdict, machine, input) := StateMachine.process behaviour bound p.machine p.input
  (verdict, ⟨machine, input⟩)

/-- What both handlers do first with a message. -/
def parse (p : MessageParser) (type : MessageType) (payload : List UInt8) : MessageParser :=
  (p.setData type payload).process.2

def isFinished (p : MessageParser) : Bool := p.machine.isFinished

/-- The parser after the messages of a history. -/
def after (p : MessageParser) (history : List (MessageType × List UInt8)) : MessageParser :=
  history.foldl (fun p message => p.parse message.1 message.2) p

/-! ## The fields of a message -/

/-- The states a message of a type goes through after the check of its type. -/
def fieldsOf : MessageType → Option (List ParseState)
  | .entryCreate => some [.readSendTime, .readName, .readValueType, .readValue]
  | .entryUpdate => some [.readSendTime, .readId, .readValueType, .readValue]
  | .entryDelete => some [.readSendTime, .readId]
  | .entryIdAssign => some [.readId, .readName]
  | .timeSyncRequest => some [.readSendTime]
  | .timeSyncResponse => some [.readSendTime, .readTimeValue]
  | .handshakeReady | .handshakeFinished => some []
  | .noType | .unknown _ => none

/-- Read the fields of a list of states in order. The result says whether all of
them were there; the data keeps what was read in either case. -/
def readFields : List ParseState → ParseData → List UInt8 → Bool × ParseData
  | [], data, _ => (true, data)
  | current :: next, data, view =>
      match readField current data.type view with
      | .ok (some (assign, rest)) => readFields next (assign data) rest
      | _ => (false, data)

theorem readFields_of_unread {current : ParseState} {data : ParseData}
    {view : List UInt8}
    (hread : ∀ found, readField current data.type view ≠ .ok (some found))
    (next : List ParseState) :
    readFields (current :: next) data view = (false, data) := by
  rw [readFields]
  split
  · rename_i hfound
    exact absurd hfound (hread _)
  · rfl

theorem readFields_of_read {current : ParseState} {data : ParseData} {view : List UInt8}
    {found : Assignment × List UInt8}
    (hread : readField current data.type view = .ok (some found)) (next : List ParseState) :
    readFields (current :: next) data view =
      readFields next (found.1 data) found.2 := by
  rw [readFields, hread]

/-- `select_next_state` leads through the states of the list, in order. -/
def Planned (type : MessageType) : List ParseState → Prop
  | [] => True
  | current :: next =>
      (∀ m, selectNextState current type m =
        match next with
        | [] => m.finished
        | following :: _ => m.moveToState following) ∧
      Planned type next

theorem planned_of_fieldsOf {type : MessageType} {fields : List ParseState}
    (h : fieldsOf type = some fields) : Planned type (.checkType :: fields) := by
  cases type <;> simp only [fieldsOf, Option.some.injEq, reduceCtorEq] at h <;> subst h <;>
    exact ⟨fun _ => rfl, by simp [Planned, selectNextState]⟩

/-- There is a call for each state of a message. -/
theorem length_lt_bound {type : MessageType} {fields : List ParseState}
    (h : fieldsOf type = some fields) : fields.length < bound := by
  cases type <;> simp only [fieldsOf, Option.some.injEq, reduceCtorEq] at h <;> subst h <;> decide

/-- The states in the order a message can visit them in. -/
def rank : ParseState → ℕ
  | .checkType => 6
  | .readSendTime => 5
  | .readId => 4
  | .readName => 3
  | .readValueType => 2
  | .readValue => 1
  | .readTimeValue => 1

theorem rank_lt_of_selectNextState {current : ParseState} {type : MessageType}
    {m m' : StateMachine ParseState ParseData}
    (h : selectNextState current type m = (.again, m')) :
    rank m'.userState < rank current := by
  cases current <;> cases type <;>
    simp [selectNextState, StateMachine.moveToState, StateMachine.finished,
      StateMachine.error] at h <;> subst h <;> simp [rank]

/-- The loop of the parser ends before its bound. -/
theorem rank_lt_of_processState (current : ParseState)
    (m : StateMachine ParseState ParseData) (input : ParserInput)
    (m' : StateMachine ParseState ParseData) (input' : ParserInput)
    (h : behaviour.processState current m input = (.again, m', input')) :
    rank m'.userState < rank current := by
  simp only [behaviour, processState] at h
  split at h
  · exact absurd (congrArg Prod.fst h) (by simp)
  · exact absurd (congrArg Prod.fst h) (by simp [StateMachine.error])
  next assign rest _ =>
      rcases hnext : selectNextState current input.type
        { m with data := assign m.data } with ⟨verdict, next⟩
      rw [hnext] at h
      simp only [Prod.mk.injEq] at h
      obtain ⟨rfl, rfl, _⟩ := h
      exact rank_lt_of_selectNextState hnext

/-! ## What the loop does in one state -/

section OneState

variable {m : StateMachine ParseState ParseData} {type : MessageType} {view : List UInt8}
  {rounds : ℕ} {found : Assignment × List UInt8}

theorem processLoop_of_threw (hstate : m.state = .inState) {thrown : Exception}
    (hread : readField m.userState m.data.type view = .error thrown) :
    StateMachine.processLoop behaviour (rounds + 1) m ⟨type, view⟩ =
      (.threw, m, ⟨type, view⟩) := by
  simp [StateMachine.processLoop, StateMachine.processOnce, hstate, behaviour, processState,
    hread]

theorem processLoop_of_missing (hstate : m.state = .inState)
    (hread : readField m.userState m.data.type view = .ok none) :
    StateMachine.processLoop behaviour (rounds + 1) m ⟨type, view⟩ =
      (.stop, { m with state := .error, errorCode := ParseError.readData }, ⟨type, view⟩) := by
  simp [StateMachine.processLoop, StateMachine.processOnce, hstate, behaviour, processState,
    hread, StateMachine.error]

theorem processLoop_of_last (hstate : m.state = .inState) (hplan : Planned type [m.userState])
    (hread : readField m.userState m.data.type view = .ok (some found)) :
    StateMachine.processLoop behaviour (rounds + 1) m ⟨type, view⟩ =
      (.stop, { m with data := found.1 m.data, state := .ended }, ⟨type, found.2⟩) := by
  simp [StateMachine.processLoop, StateMachine.processOnce, hstate, behaviour, processState,
    hread, hplan.1, StateMachine.finished]

theorem processLoop_of_following (hstate : m.state = .inState) {following : ParseState}
    {next : List ParseState} (hplan : Planned type (m.userState :: following :: next))
    (hread : readField m.userState m.data.type view = .ok (some found)) :
    StateMachine.processLoop behaviour (rounds + 1) m ⟨type, view⟩ =
      StateMachine.processLoop behaviour rounds
        { m with data := found.1 m.data, state := .inState, userState := following }
        ⟨type, found.2⟩ := by
  simp [StateMachine.processLoop, StateMachine.processOnce, hstate, behaviour, processState,
    hread, hplan.1, StateMachine.moveToState]

/-- A state that does not find its field ends the loop and leaves the data. -/
theorem processLoop_of_unread (hstate : m.state = .inState)
    (hread : ∀ found, readField m.userState m.data.type view ≠ .ok (some found)) :
    let result := StateMachine.processLoop behaviour (rounds + 1) m ⟨type, view⟩
    result.2.1.isFinished = false ∧ result.2.1.data = m.data := by
  cases hfound : readField m.userState m.data.type view with
  | error thrown =>
      rw [processLoop_of_threw hstate hfound]
      exact ⟨by simp [StateMachine.isFinished, hstate], rfl⟩
  | ok field =>
      cases field with
      | none =>
          rw [processLoop_of_missing hstate hfound]
          exact ⟨rfl, rfl⟩
      | some found => exact absurd hfound (hread found)

end OneState

/-- From a planned state on, the machine reads the fields of the plan. -/
theorem processLoop_of_planned {type : MessageType} {next : List ParseState}
    (m : StateMachine ParseState ParseData) (hstate : m.state = .inState)
    (hplan : Planned type (m.userState :: next)) {bound : ℕ}
    (hbound : next.length < bound) (view : List UInt8) :
    let result := StateMachine.processLoop behaviour bound m ⟨type, view⟩
    result.2.1.isFinished = (readFields (m.userState :: next) m.data view).1 ∧
      result.2.1.data = (readFields (m.userState :: next) m.data view).2 := by
  induction next generalizing bound m view with
  | nil =>
      obtain ⟨bound, rfl⟩ := Nat.exists_eq_succ_of_ne_zero (Nat.ne_zero_of_lt hbound)
      by_cases hread : ∃ found, readField m.userState m.data.type view = .ok (some found)
      · obtain ⟨found, hfound⟩ := hread
        rw [readFields_of_read hfound, processLoop_of_last hstate hplan hfound]
        exact ⟨rfl, rfl⟩
      · push Not at hread
        rw [readFields_of_unread hread]
        exact processLoop_of_unread hstate hread
  | cons following next ih =>
      obtain ⟨bound, rfl⟩ := Nat.exists_eq_succ_of_ne_zero (Nat.ne_zero_of_lt hbound)
      by_cases hread : ∃ found, readField m.userState m.data.type view = .ok (some found)
      · obtain ⟨found, hfound⟩ := hread
        rw [readFields_of_read hfound, processLoop_of_following hstate hplan hfound]
        exact ih { m with data := found.1 m.data, state := .inState, userState := following }
          rfl hplan.2 (Nat.lt_of_succ_lt_succ hbound) found.2
      · push Not at hread
        rw [readFields_of_unread hread]
        exact processLoop_of_unread hstate hread

/-- The loop ends by itself, whatever its bound is. -/
theorem process_eq_of_bound_le {bound' : ℕ} (h : bound ≤ bound')
    (m : StateMachine ParseState ParseData) (input : ParserInput) :
    StateMachine.process behaviour bound' m input =
      StateMachine.process behaviour bound m input := by
  have hrank : ∀ s, rank s < bound := by
    intro s
    cases s <;> decide
  have hloop : ∀ m, StateMachine.processLoop behaviour bound' m input =
      StateMachine.processLoop behaviour bound m input := fun m =>
    StateMachine.processLoop_eq_of_rank behaviour rank_lt_of_processState m input
      ((hrank _).trans_le h) (hrank _)
  unfold StateMachine.process
  split
  · exact hloop _
  · rfl
  · rfl
  · exact hloop _

/-- The fields of a message, read into the data of earlier messages. -/
def parseFields (type : MessageType) (payload : List UInt8) (data : ParseData) :
    Bool × ParseData :=
  match fieldsOf type with
  | none => (false, data)
  | some fields => readFields fields data payload

/-- Whether parsing finishes, and the data it leaves, are those of reading the
fields of the message in order. -/
theorem parse_eq (p : MessageParser) (type : MessageType) (payload : List UInt8) :
    (p.parse type payload).isFinished = (parseFields type payload p.data).1 ∧
      (p.parse type payload).data = (parseFields type payload p.data).2 := by
  cases hfields : fieldsOf type with
  | none =>
      cases type <;> simp only [fieldsOf, reduceCtorEq] at hfields <;>
        simp [parse, process, setData, isFinished, data, parseFields, fieldsOf,
          StateMachine.process, StateMachine.reset, bound, StateMachine.processLoop,
          StateMachine.processOnce, behaviour, processState, readField, selectNextState,
          StateMachine.error, StateMachine.isFinished]
  | some fields =>
      have hparse := processLoop_of_planned
        { p.machine with state := .inState, errorCode := 0, userState := .checkType }
        rfl (planned_of_fieldsOf hfields) (length_lt_bound hfields) payload
      simp only [parseFields, hfields]
      exact hparse

theorem isFinished_parse (p : MessageParser) (type : MessageType) (payload : List UInt8) :
    (p.parse type payload).isFinished = (parseFields type payload p.data).1 :=
  (parse_eq p type payload).1

theorem data_parse (p : MessageParser) (type : MessageType) (payload : List UInt8) :
    (p.parse type payload).data = (parseFields type payload p.data).2 :=
  (parse_eq p type payload).2

/-! ## What a message leaves alone -/

/-- Two parsers show the same in the field a state reads. -/
def SameField (read : ParseState) (first second : ParseData) : Prop :=
  match read with
  | .checkType => True
  | .readId => first.id = second.id
  | .readName => first.name = second.name
  | .readValueType => first.type = second.type
  | .readValue => first.value = second.value
  | .readSendTime => first.sendTime = second.sendTime
  | .readTimeValue => first.timeValue = second.timeValue

instance (read : ParseState) (first second : ParseData) :
    Decidable (SameField read first second) :=
  match read with
  | .checkType => inferInstanceAs (Decidable True)
  | .readId | .readName | .readValueType | .readValue | .readSendTime | .readTimeValue =>
      inferInstanceAs (Decidable (_ = _))

theorem assigning_eq_some {α : Type} {reader : Deserialize α} {assign : α → Assignment}
    {view : List UInt8} {found : Assignment × List UInt8}
    (h : assigning reader assign view = some found) :
    ∃ read, found.1 = assign read := by
  obtain ⟨⟨read, rest⟩, _, rfl⟩ := Option.map_eq_some_iff.mp h
  exact ⟨read, rfl⟩

/-- A state assigns its own field only, and the same whatever was there. -/
theorem sameField_of_readField {current : ParseState} {type : UInt8} {view : List UInt8}
    {found : Assignment × List UInt8}
    (h : readField current type view = .ok (some found)) :
    (∀ first second, SameField current (found.1 first) (found.1 second)) ∧
      (∀ other first, other ≠ current → SameField other (found.1 first) first) := by
  cases current with
  | checkType =>
      simp only [readField, Except.ok.injEq, Option.some.injEq] at h
      subst h
      refine ⟨fun first second => trivial, fun other first _ => ?_⟩
      cases other <;> simp [SameField]
  | readValue =>
      simp only [readField] at h
      cases hvalue : Deserializer.readValue type view with
      | error thrown => simp [hvalue, Except.map] at h
      | ok read =>
          cases read with
          | none => simp [hvalue, Except.map] at h
          | some read =>
              simp only [hvalue, Except.map, Option.map_some, Except.ok.injEq,
                Option.some.injEq] at h
              subst h
              refine ⟨fun first second => rfl, fun other first hother => ?_⟩
              cases other <;> simp [SameField] at hother ⊢
  | readId | readName | readValueType | readSendTime | readTimeValue =>
      simp only [readField, Except.ok.injEq] at h
      obtain ⟨read, hread⟩ := assigning_eq_some h
      rw [hread]
      refine ⟨fun first second => rfl, fun other first hother => ?_⟩
      cases other <;> simp [SameField] at hother ⊢

theorem SameField.trans {read : ParseState} {first second third : ParseData}
    (h : SameField read first second) (h' : SameField read second third) :
    SameField read first third := by
  cases read <;> first | trivial | exact Eq.trans h h'

theorem SameField.symm {read : ParseState} {first second : ParseData}
    (h : SameField read first second) : SameField read second first := by
  cases read <;> first | trivial | exact Eq.symm h

theorem SameField.refl (read : ParseState) (data : ParseData) :
    SameField read data data := by
  cases read <;> trivial

/-- The fields that are not in the list stay as they are. -/
theorem readFields_leaves {other : ParseState} {fields : List ParseState}
    (hother : other ∉ fields) (data : ParseData) (view : List UInt8) :
    SameField other (readFields fields data view).2 data := by
  induction fields generalizing data view with
  | nil => exact SameField.refl other data
  | cons current next ih =>
      have hcurrent : other ≠ current := List.ne_of_not_mem_cons hother
      have hnext : other ∉ next := List.not_mem_of_not_mem_cons hother
      by_cases hread : ∃ found, readField current data.type view = .ok (some found)
      · obtain ⟨found, hfound⟩ := hread
        rw [readFields_of_read hfound]
        exact (ih hnext (found.1 data) found.2).trans
          ((sameField_of_readField hfound).2 other data hcurrent)
      · push Not at hread
        rw [readFields_of_unread hread]
        exact SameField.refl other data

/-- The states before the first one that reads a value type. -/
def untyped (fields : List ParseState) : List ParseState :=
  fields.takeWhile (· ≠ .readValueType)

/-- If no value is read before its type, the same fields are found whatever the
data was, and they are the same afterwards. -/
theorem readFields_same {fields : List ParseState} {first second : ParseData}
    (htype : first.type = second.type ∨ .readValue ∉ untyped fields)
    (view : List UInt8) :
    (readFields fields first view).1 = (readFields fields second view).1 ∧
      ((readFields fields first view).1 = true → ∀ read,
        read ∈ fields ∨ SameField read first second →
          SameField read (readFields fields first view).2
            (readFields fields second view).2) := by
  induction fields generalizing first second view with
  | nil =>
      refine ⟨rfl, fun _ read hread => ?_⟩
      rcases hread with hmem | hsame
      · exact absurd hmem (List.not_mem_nil)
      · exact hsame
  | cons current next ih =>
      -- what the state reads depends on the data through the value type only
      have hview : readField current first.type view = readField current second.type view := by
        cases current with
        | readValue =>
            rcases htype with hsame | huntyped
            · rw [hsame]
            · exact absurd (by simp [untyped]) huntyped
        | _ => rfl
      by_cases hread : ∃ found, readField current first.type view = .ok (some found)
      · obtain ⟨found, hfound⟩ := hread
        obtain ⟨hown, hothers⟩ := sameField_of_readField hfound
        rw [readFields_of_read hfound, readFields_of_read (hview ▸ hfound)]
        have htype' : (found.1 first).type = (found.1 second).type ∨
            .readValue ∉ untyped next := by
          by_cases hcurrent : current = .readValueType
          · subst hcurrent
            exact Or.inl (hown first second)
          · refine htype.imp (fun hsame => ?_) (fun huntyped => ?_)
            · have hfirst := hothers .readValueType first (Ne.symm hcurrent)
              have hsecond := hothers .readValueType second (Ne.symm hcurrent)
              exact hfirst.trans (hsame.trans hsecond.symm)
            · intro hmem
              refine huntyped ?_
              rw [untyped, List.takeWhile_cons_of_pos (by simpa using hcurrent)]
              exact List.mem_cons_of_mem _ hmem
        obtain ⟨hfinish, hfields⟩ := ih htype' found.2
        refine ⟨hfinish, fun hdone read hmem => hfields hdone read ?_⟩
        by_cases hcurrent : read = current
        · subst hcurrent
          exact Or.inr (hown first second)
        · rcases hmem with hmem | hsame
          · exact Or.inl ((List.mem_cons.mp hmem).resolve_left hcurrent)
          · exact Or.inr (((hothers read first hcurrent).trans hsame).trans
              (hothers read second hcurrent).symm)
      · push Not at hread
        rw [readFields_of_unread hread, readFields_of_unread (hview ▸ hread)]
        exact ⟨rfl, fun hfalse => absurd hfalse Bool.false_ne_true⟩

/-! ## The memory of the parser -/

/-- The id a message carries, if its bytes reach that far. -/
def carriedId : MessageType → List UInt8 → Option EntryId
  | .entryIdAssign, payload => (Deserializer.read16 payload).map Prod.fst
  | .entryUpdate, payload | .entryDelete, payload =>
      ((do let _ ← Deserializer.read64; Deserializer.read16 : Deserialize EntryId)
        payload).map Prod.fst
  | _, _ => none

/-- The payload is that of an `entry_create`: a time, a name, and a value of the
type it announces. -/
def carriesEntry (payload : List UInt8) : Bool :=
  match (do let _ ← Deserializer.read64; let _ ← Deserializer.readStr
            Deserializer.read8 : Deserialize UInt8) payload with
  | none => false
  | some (type, rest) =>
      match Deserializer.readValue type rest with
      | .ok (some _) => true
      | _ => false

/-- The id a history leaves in the parser that had `initial` at first. -/
def leftId (initial : EntryId) (history : List (MessageType × List UInt8)) : EntryId :=
  history.foldl (fun id message => (carriedId message.1 message.2).getD id) initial

theorem readFields_assigning {α : Type} {current : ParseState} {reader : Deserialize α}
    {assign : α → Assignment}
    (hreader : ∀ type view, readField current type view = .ok (assigning reader assign view))
    (next : List ParseState) (data : ParseData) (view : List UInt8) :
    readFields (current :: next) data view =
      match reader view with
      | none => (false, data)
      | some (read, rest) => readFields next (assign read data) rest := by
  rw [readFields, hreader]
  cases hread : reader view with
  | none => simp [assigning, hread]
  | some read => simp [assigning, hread]

/-- A message leaves the id it carries, or the one that was there. -/
theorem id_parseFields (type : MessageType) (payload : List UInt8) (data : ParseData) :
    (parseFields type payload data).2.id = (carriedId type payload).getD data.id := by
  have hsendId : ∀ next, .readId ∉ next →
      (readFields (.readSendTime :: .readId :: next) data payload).2.id =
        (((do let _ ← Deserializer.read64; Deserializer.read16 : Deserialize EntryId)
          payload).map Prod.fst).getD data.id := by
    intro next hnext
    rw [readFields_assigning (fun _ _ => rfl)]
    show _ = ((((Deserializer.read64 payload).bind
      fun sent => Deserializer.read16 sent.2)).map Prod.fst).getD data.id
    cases Deserializer.read64 payload with
    | none => rfl
    | some sent =>
        show (readFields (.readId :: next) _ sent.2).2.id =
          ((Deserializer.read16 sent.2).map Prod.fst).getD data.id
        rw [readFields_assigning (fun _ _ => rfl)]
        cases Deserializer.read16 sent.2 with
        | none => rfl
        | some read => exact readFields_leaves hnext _ read.2
  have hleaves : ∀ type fields, fieldsOf type = some fields → .readId ∉ fields →
      (parseFields type payload data).2.id = data.id := by
    intro type fields hfields hid
    rw [parseFields, hfields]
    exact readFields_leaves hid data payload
  cases type with
  | entryUpdate => exact hsendId _ (by decide)
  | entryDelete => exact hsendId _ (by decide)
  | entryIdAssign =>
      simp only [parseFields, fieldsOf, carriedId]
      rw [readFields_assigning (fun _ _ => rfl)]
      have hname : .readId ∉ [ParseState.readName] := by decide
      cases Deserializer.read16 payload with
      | none => rfl
      | some read => exact readFields_leaves hname _ read.2
  | noType | unknown _ => rfl
  | entryCreate | handshakeFinished | handshakeReady | timeSyncRequest | timeSyncResponse =>
      exact hleaves _ _ rfl (by decide)

theorem parseFields_entryCreate (payload : List UInt8) (data : ParseData) :
    (parseFields .entryCreate payload data).1 = carriesEntry payload := by
  simp only [parseFields, fieldsOf]
  rw [readFields_assigning (fun _ _ => rfl)]
  unfold carriesEntry
  show _ = match (Deserializer.read64 payload).bind fun sent =>
      (Deserializer.readStr sent.2).bind fun named => Deserializer.read8 named.2 with
    | none => false
    | some (type, rest) =>
        match Deserializer.readValue type rest with
        | .ok (some _) => true
        | _ => false
  cases Deserializer.read64 payload with
  | none => rfl
  | some sent =>
      simp only [Option.bind_some]
      rw [readFields_assigning (fun _ _ => rfl)]
      cases Deserializer.readStr sent.2 with
      | none => rfl
      | some named =>
          simp only [Option.bind_some]
          rw [readFields_assigning (fun _ _ => rfl)]
          cases Deserializer.read8 named.2 with
          | none => rfl
          | some typed =>
              simp only [readFields, readField]
              cases Deserializer.readValue typed.1 typed.2 with
              | error thrown => rfl
              | ok read => cases read <;> rfl

theorem id_after (p : MessageParser) (history : List (MessageType × List UInt8)) :
    (p.after history).data.id = leftId p.data.id history := by
  induction history generalizing p with
  | nil => rfl
  | cons message history ih =>
      show ((p.parse message.1 message.2).after history).data.id = _
      rw [ih, data_parse, id_parseFields]
      rfl

/-- The fields of the data that the handler of `network_server` reads for a type,
each named by the state that reads it in. -/
def serverReads : MessageType → List ParseState
  | .entryCreate => [.readId, .readName, .readValue, .readSendTime]
  | .entryUpdate => [.readId, .readValue, .readSendTime]
  | .entryDelete => [.readId, .readSendTime]
  | .timeSyncRequest => [.readSendTime]
  | _ => []

/-- The fields of the data that the handler of `network_client` reads for a
type. -/
def clientReads : MessageType → List ParseState
  | .entryUpdate => [.readId, .readValue, .readSendTime]
  | .entryDelete => [.readId, .readSendTime]
  | .entryIdAssign => [.readId, .readName]
  | .timeSyncResponse => [.readTimeValue, .readSendTime]
  | _ => []

/-- Two parsers show the handlers the same message if they both finish it. -/
def ShowSame (p q : MessageParser) (type : MessageType) (payload : List UInt8) : Prop :=
  (p.parse type payload).isFinished = true → (q.parse type payload).isFinished = true →
    ∀ read ∈ serverReads type ++ clientReads type,
      SameField read (p.parse type payload).data (q.parse type payload).data

instance (p q : MessageParser) (type : MessageType) (payload : List UInt8) :
    Decidable (ShowSame p q type payload) :=
  inferInstanceAs (Decidable (_ → _ → _))

/-- A handler reads what the message carries, except for the id of an
`entry_create`. -/
theorem carries_of_reads {type : MessageType} {fields : List ParseState}
    (hfields : fieldsOf type = some fields) {read : ParseState}
    (hread : read ∈ serverReads type ++ clientReads type) :
    read ∈ fields ∨ (type = .entryCreate ∧ read = .readId) := by
  cases type <;> simp only [fieldsOf, Option.some.injEq, reduceCtorEq] at hfields <;>
    subst hfields <;> revert read <;> simp [serverReads, clientReads]

/-- Nothing but an `entry_create` shows the handlers what earlier messages left
behind, and it shows them the id. Two histories are therefore told apart exactly
by a complete `entry_create` after different ids. -/
theorem showSame_iff (memory memory' : ParseData)
    (history history' : List (MessageType × List UInt8)) (type : MessageType)
    (payload : List UInt8) :
    ShowSame ((new memory).after history) ((new memory').after history') type payload ↔
      (type = .entryCreate → carriesEntry payload = true →
        leftId memory.id history = leftId memory'.id history') := by
  have hleft : ∀ memory history, ((new memory).after history).data.id =
      leftId memory.id history := fun memory history => id_after (new memory) history
  have hfinish : ∀ p : MessageParser,
      (p.parse .entryCreate payload).isFinished = carriesEntry payload :=
    fun p => by rw [isFinished_parse, parseFields_entryCreate]
  constructor
  · rintro hsame rfl hcarries
    have hid := hsame (by rw [hfinish, hcarries]) (by rw [hfinish, hcarries])
      .readId (by decide)
    simp only [SameField, data_parse, id_parseFields, carriedId, Option.getD_none,
      hleft] at hid
    exact hid
  · intro hcreate hdone hdone' read hread
    rw [data_parse, data_parse]
    cases hfields : fieldsOf type with
    | none => simp [isFinished_parse, parseFields, hfields] at hdone
    | some fields =>
        have huntyped : .readValue ∉ untyped fields := by
          cases type <;> simp only [fieldsOf, Option.some.injEq, reduceCtorEq] at hfields <;>
            subst hfields <;> decide
        have hfinished := hdone
        rw [isFinished_parse] at hfinished
        simp only [parseFields, hfields] at hfinished ⊢
        refine (readFields_same (Or.inr huntyped) payload).2 hfinished read ?_
        rcases carries_of_reads hfields hread with hcarried | ⟨rfl, rfl⟩
        · exact Or.inl hcarried
        · refine Or.inr ?_
          show _ = _
          rw [hleft, hleft]
          exact hcreate rfl (by rw [← hfinish, hdone])

/-- A delete of one id and a delete of another, before one `entry_create`. -/
theorem not_showSame_after_deletes :
    ∃ memory history history' type payload,
      ¬ ShowSame ((new memory).after history) ((new memory).after history') type payload :=
  ⟨⟨0, 0, [], 0, Value.make, 0⟩, [(.entryDelete, List.replicate 10 0)],
    [(.entryDelete, List.replicate 9 0 ++ [1])], .entryCreate,
    List.replicate 8 0 ++ [1, 97, 0], by decide⟩

end MessageParser

end Obsr.Net
