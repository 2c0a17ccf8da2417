/-
# The callback protocol of a socket

A `socket_io` together with the log of what its user sees: the calls of the three
callbacks, and the points at which `start` and `stop` have returned. What a callback does
with the object is up to the user and may depend on everything that was seen before.

A call that ends the session makes the loop over the messages go on all the same. The
protocol holds in a run exactly if no complete message is left behind such a call, and
none in the buffer when a read fails.
-/

import Obsr.Lib.Run
import Obsr.Net.FirstMessage
import Obsr.Net.SocketOwner

namespace Obsr.Net

open Obsr.Io Obsr.Lib

namespace Noted

/-- What the user of a socket sees. -/
inductive Note
  | started (connected : Bool)
  | stopped
  | onConnect
  | onClose
  | onMessage (header : MessageHeader) (message : List UInt8)
  deriving DecidableEq, Repr

/-- A call into the object from inside a callback. -/
inductive Action
  | write (type : UInt8) (message : List UInt8)
  | stop
  deriving DecidableEq, Repr

/-- What the last callback in a log calls. No two callbacks of a run see the same log, so
that the calls of every run are those of some user. -/
abbrev User := List Note → List Action

end Noted

structure Noted where
  io : SocketIo
  log : List Noted.Note
  deriving DecidableEq, Repr

namespace Noted

def new (memory : SocketIo.Memory) : Noted := ⟨SocketIo.new memory, []⟩

def note (s : Noted) (note : Note) : Noted := { s with log := s.log ++ [note] }

def ownerOf (callback : Note → Noted → Noted) : SocketOwner Noted where
  io := io
  setIo s io := { s with io }
  onConnect := callback .onConnect
  onClose := callback .onClose
  onMessage header message := callback (.onMessage header message)

/-- A call into the object; `stop` is noted when it has returned. -/
def act (callback : Note → Noted → Noted) (s : Noted) : Action → Noted
  | .write type message => (ownerOf callback).run (·.step (.write type message)) s
  | .stop => ((ownerOf callback).run SocketIo.stop s).note .stopped

/-- A callback is noted and then makes its calls. Callbacks inside of callbacks nest as
deep as `depth`. -/
def callback (user : User) : ℕ → Note → Noted → Noted
  | 0, note, s => s.note note
  | depth + 1, note, s =>
      (user (s.log ++ [note])).foldl (act (callback user depth)) (s.note note)

/-- Only the callback of a write that fails half way is inside of another, so that two deep
is as deep as they get (`callback_eq_of_le`). -/
def owner (user : User) : SocketOwner Noted := ownerOf (callback user 2)

/-- One step of a run; a `start` that throws is not noted. -/
def step (user : User) (s : Noted) : SocketIo.Input → Noted
  | .start connected =>
      if s.io.state = .idle then
        ((owner user).run (·.step (.start connected)) s).note (.started connected)
      else s
  | .stop => act (callback user 2) s .stop
  | input => (owner user).step s input

/-! ## The protocol -/

/-- What a log tells of the session it ends in. -/
def session (log : List Note) : List Note :=
  log.foldl (fun session note =>
    match note with
    | .started connected => [.started connected]
    | note => session ++ [note]) []

/-- `stop` has returned or `on_close` has been called. -/
def Ended (session : List Note) : Prop := .stopped ∈ session ∨ .onClose ∈ session

def Connected (session : List Note) : Prop :=
  .started true ∈ session ∨ .onConnect ∈ session

/-- What may be seen after a session so far. -/
def Note.Allowed (session : List Note) : Note → Prop
  | .onClose => .onClose ∉ session
  | .onConnect => ¬ Ended session
  | .onMessage _ _ => Connected session ∧ ¬ Ended session
  | .started _ | .stopped => True

/-- In every session `on_close` is called at most once, no `on_message` before the socket
is connected, and no `on_connect` or `on_message` after the end. -/
def Protocol (log : List Note) : Prop :=
  ∀ before note after, log = before ++ note :: after → note.Allowed (session before)

theorem protocol_nil : Protocol [] := by
  intro before note after h
  cases before <;> cases h

theorem protocol_concat {log : List Note} {note : Note} :
    Protocol (log ++ [note]) ↔ Protocol log ∧ note.Allowed (session log) := by
  constructor
  · intro h
    refine ⟨fun before entry after hlog => h before entry (after ++ [note]) ?_, h log note [] rfl⟩
    rw [hlog, List.append_assoc, List.cons_append]
  · rintro ⟨hlog, hnote⟩ before entry after h
    rcases concat_eq_append_cons h with ⟨rfl, rfl⟩ | ⟨rest, -, hbefore⟩
    · exact hnote
    · exact hlog before entry rest hbefore

theorem Protocol.of_isPrefix {log longer : List Note} (h : Protocol longer)
    (hbegins : log <+: longer) : Protocol log := by
  obtain ⟨rest, rfl⟩ := hbegins
  intro before note after hlog
  exact h before note (after ++ rest) (by rw [hlog, List.append_assoc, List.cons_append])

theorem session_started (log : List Note) (connected : Bool) :
    session (log ++ [.started connected]) = [.started connected] := by
  rw [session, List.foldl_append]
  rfl

theorem session_concat (log : List Note) {note : Note}
    (h : ∀ connected, note ≠ .started connected) :
    session (log ++ [note]) = session log ++ [note] := by
  rw [session, List.foldl_append]
  cases note with
  | started connected => exact absurd rfl (h connected)
  | stopped => rfl
  | onConnect => rfl
  | onClose => rfl
  | onMessage header message => rfl

/-! ## Where the object stands in its session -/

/-- What the state of the object says about the session. -/
def Linked (s : Noted) : Prop :=
  match s.io.state with
  | .idle => Connected (session s.log) → Ended (session s.log)
  | .bound | .connecting => ¬ Ended (session s.log)
  | .connected => Connected (session s.log) ∧ ¬ Ended (session s.log)

variable {s t u : Noted} {user : User}

theorem linked_new (memory : SocketIo.Memory) : (new memory).Linked := by
  rintro (h | h) <;> cases h

theorem linked_of_ended (hidle : s.io.state = .idle) (hended : Ended (session s.log)) :
    s.Linked := by
  rw [Linked, hidle]
  exact fun _ => hended

theorem linked_of_connecting (hconnecting : s.io.state = .connecting)
    (hopen : ¬ Ended (session s.log)) : s.Linked := by
  rw [Linked, hconnecting]
  exact hopen

theorem Linked.of_eq (h : s.Linked) (hstate : t.io.state = s.io.state) (hlog : t.log = s.log) :
    t.Linked := by
  rw [Linked, hstate, hlog]
  exact h

theorem Linked.not_ended (h : s.Linked) (hstate : s.io.state ≠ .idle) :
    ¬ Ended (session s.log) := by
  rw [Linked] at h
  cases hcase : s.io.state with
  | idle => exact absurd hcase hstate
  | bound => rwa [hcase] at h
  | connecting => rwa [hcase] at h
  | connected =>
      rw [hcase] at h
      exact h.2

theorem Linked.connected (h : s.Linked) (hstate : s.io.state = .connected) :
    Connected (session s.log) := by
  rw [Linked, hstate] at h
  exact h.1

/-- A message finds the object connected or is against the protocol. -/
theorem Linked.allowed_onMessage (h : s.Linked) (hstate : s.io.state = .connected)
    (header : MessageHeader) (message : List UInt8) :
    Note.Allowed (session s.log) (.onMessage header message) :=
  ⟨h.connected hstate, h.not_ended (by simp [hstate])⟩

theorem Linked.not_allowed_onMessage (h : s.Linked) (hidle : s.io.state = .idle)
    (header : MessageHeader) (message : List UInt8) :
    ¬ Note.Allowed (session s.log) (.onMessage header message) := by
  rintro ⟨hconnected, hended⟩
  rw [Linked, hidle] at h
  exact hended (h hconnected)

/-- A message changes nothing about the session. -/
theorem Linked.note_onMessage (h : s.Linked) (header : MessageHeader) (message : List UInt8) :
    (s.note (.onMessage header message)).Linked := by
  have hsession : session (s.note (.onMessage header message)).log =
      session s.log ++ [.onMessage header message] := session_concat _ (by simp)
  rw [Linked, hsession]
  rw [Linked] at h
  simpa [Connected, Ended, note] using h

/-! ## What the calls of a callback keep -/

/-- From a state on, the callbacks follow the protocol if they did before. -/
structure Keeps (s t : Noted) : Prop where
  linked : t.Linked
  longer : s.log <+: t.log
  protocol : Protocol s.log → Protocol t.log
  state : t.io.state = s.io.state ∨ t.io.state = .idle

theorem Keeps.refl (h : s.Linked) : Keeps s s := ⟨h, List.prefix_refl _, id, Or.inl rfl⟩

theorem Keeps.trans (h : Keeps s t) (h' : Keeps t u) : Keeps s u where
  linked := h'.linked
  longer := h.longer.trans h'.longer
  protocol hprotocol := h'.protocol (h.protocol hprotocol)
  state := by
    rcases h'.state with hsame | hidle
    · rw [hsame]
      exact h.state
    · exact Or.inr hidle

theorem keeps_setIo (h : s.Linked) {io : SocketIo} (hstate : io.state = s.io.state) :
    Keeps s { s with io } :=
  ⟨h.of_eq hstate rfl, List.prefix_refl _, id, Or.inl hstate⟩

/-- The end of a session. -/
theorem keeps_ends {io : SocketIo} {note : Note} (hidle : io.state = .idle)
    (hended : Ended (session s.log ++ [note])) (hnote : ∀ connected, note ≠ .started connected)
    (hallowed : note.Allowed (session s.log)) :
    Keeps s (({ s with io } : Noted).note note) where
  linked := linked_of_ended hidle ((session_concat s.log hnote).symm ▸ hended)
  longer := List.prefix_append _ _
  protocol hprotocol := protocol_concat.mpr ⟨hprotocol, hallowed⟩
  state := Or.inr hidle

/-- Callbacks that keep what they find. -/
def Safe (callback : Note → Noted → Noted) : Prop :=
  ∀ note s, (s.note note).Linked → Keeps (s.note note) (callback note s)

variable {callback : Note → Noted → Noted}

theorem keeps_run (hsafe : Safe callback) (h : s.Linked)
    {method : SocketIo → SocketIo × List SocketIo.Output}
    (hcloses : SocketIo.Closes s.io (method s.io)) :
    Keeps s ((ownerOf callback).run method s) := by
  rcases hcloses with ⟨hquiet, hstate⟩ | ⟨hcloses, hstarted, hidle⟩
  · rw [SocketOwner.run_of_nil hquiet]
    exact keeps_setIo h hstate
  · rw [SocketOwner.run_of_singleton hcloses]
    have hopen : .onClose ∉ session s.log := fun hmem => h.not_ended hstarted (Or.inr hmem)
    have hends : Keeps s (({ s with io := (method s.io).1 } : Noted).note .onClose) :=
      keeps_ends hidle (Or.inr (by simp)) (by simp) hopen
    exact hends.trans (hsafe .onClose _ hends.linked)

theorem run_stop (callback : Note → Noted → Noted) (s : Noted) :
    (ownerOf callback).run SocketIo.stop s = { s with io := { s.io with state := .idle } } := by
  have hstop : s.io.stop = ({ s.io with state := .idle }, []) := by
    by_cases hidle : s.io.state = .idle
    · rw [SocketIo.stop, SocketIo.stopInternal_of_idle hidle, ← hidle]
    · exact SocketIo.stopInternal_of_ne_idle hidle false
  rw [SocketOwner.run_of_nil (congrArg (SocketIo.callsIn ·.2) hstop)]
  exact congrArg (fun result => ({ s with io := result.1 } : Noted)) hstop

theorem keeps_act (hsafe : Safe callback) (h : s.Linked) (action : Action) :
    Keeps s (act callback s action) := by
  cases action with
  | write type message =>
      show Keeps s ((ownerOf callback).run (·.step (.write type message)) s)
      refine keeps_run hsafe h ?_
      exact SocketIo.closes_write type message s.io
  | stop =>
      rw [act, run_stop]
      exact keeps_ends rfl (Or.inl (by simp)) (by simp) trivial

theorem keeps_foldl_act (hsafe : Safe callback) (h : s.Linked) (actions : List Action) :
    Keeps s (actions.foldl (act callback) s) := by
  induction actions generalizing s with
  | nil => exact Keeps.refl h
  | cons action actions ih =>
      have hfirst := keeps_act hsafe h action
      exact hfirst.trans (ih hfirst.linked)

/-- The induction is on the depth: what a callback calls is one callback deeper. -/
theorem safe_callback (user : User) (depth : ℕ) : Safe (Noted.callback user depth) := by
  induction depth with
  | zero => exact fun note s h => Keeps.refl h
  | succ depth ih => exact fun note s h => keeps_foldl_act ih h _

/-! ## How deep callbacks nest -/

/-- Calls into an object that is closed call nobody. -/
theorem act_of_idle (callback callback' : Note → Noted → Noted) (hidle : s.io.state = .idle)
    (action : Action) :
    act callback s action = act callback' s action ∧
      (act callback s action).io.state = .idle := by
  cases action with
  | write type message =>
      rcases SocketIo.closes_write type message s.io with ⟨hquiet, hstate⟩ | ⟨-, hstarted, -⟩
      · rw [act, act, SocketOwner.run_of_nil hquiet, SocketOwner.run_of_nil hquiet]
        exact ⟨rfl, hstate.trans hidle⟩
      · exact absurd hidle hstarted
  | stop =>
      rw [act, act, run_stop, run_stop]
      exact ⟨rfl, rfl⟩

theorem foldl_act_of_idle (callback callback' : Note → Noted → Noted)
    (hidle : s.io.state = .idle) (actions : List Action) :
    actions.foldl (act callback) s = actions.foldl (act callback') s := by
  induction actions generalizing s with
  | nil => rfl
  | cons action actions ih =>
      obtain ⟨hsame, hidle'⟩ := act_of_idle callback callback' hidle action
      rw [List.foldl_cons, List.foldl_cons, ← hsame]
      exact ih hidle'

/-- What happens inside of a call is at most an `on_close` of an object that is closed. -/
theorem act_congr {callback' : Note → Noted → Noted} (hsame : ∀ s : Noted, s.io.state = .idle →
    callback .onClose s = callback' .onClose s) (s : Noted) (action : Action) :
    act callback s action = act callback' s action := by
  cases action with
  | write type message =>
      rcases SocketIo.closes_write type message s.io with ⟨hquiet, -⟩ | ⟨hcloses, -, hidle⟩
      · rw [act, act, SocketOwner.run_of_nil hquiet, SocketOwner.run_of_nil hquiet]
        rfl
      · rw [act, act, SocketOwner.run_of_singleton hcloses, SocketOwner.run_of_singleton hcloses]
        exact hsame _ hidle
  | stop => rw [act, act, run_stop, run_stop]

/-- Callbacks do not nest deeper than `owner` lets them. -/
theorem callback_eq_of_le {depth : ℕ} (hdepth : 2 ≤ depth) (note : Note) (s : Noted) :
    Noted.callback user depth note s = Noted.callback user 2 note s := by
  obtain ⟨more, rfl⟩ := Nat.exists_eq_add_of_le' hdepth
  have hinner : act (Noted.callback user (more + 1)) = act (Noted.callback user 1) := by
    funext s action
    refine act_congr (fun s hidle => ?_) s action
    exact foldl_act_of_idle (s := s.note .onClose) _ _ hidle _
  show List.foldl (act (Noted.callback user (more + 1))) _ _ = _
  rw [hinner]
  rfl

/-! ## The reader of the object -/

def withReader (s : Noted) (reader : Reader) : Noted := { s with io := { s.io with reader } }

theorem act_withReader (hblind : ∀ note (s : Noted) reader,
    callback note (s.withReader reader) = (callback note s).withReader reader)
    (s : Noted) (reader : Reader) (action : Action) :
    act callback (s.withReader reader) action = (act callback s action).withReader reader := by
  cases action with
  | write type message =>
      have hwrite : ({ s.io with reader } : SocketIo).step (.write type message) =
          ({ (s.io.step (.write type message)).1 with reader },
            (s.io.step (.write type message)).2) :=
        congrArg (fun result => (result.1, result.2.2)) (s.io.write_withReader type message reader)
      have hio : ((ownerOf callback).io (s.withReader reader)).step (.write type message) = _ :=
        hwrite
      rw [act, act]
      rcases SocketIo.closes_write type message s.io with ⟨hquiet, -⟩ | ⟨hcloses, -⟩
      · rw [SocketOwner.run_of_nil ((congrArg (SocketIo.callsIn ·.2) hio).trans hquiet),
          SocketOwner.run_of_nil hquiet, hio]
        rfl
      · rw [SocketOwner.run_of_singleton ((congrArg (SocketIo.callsIn ·.2) hio).trans hcloses),
          SocketOwner.run_of_singleton hcloses, hio]
        exact hblind .onClose { s with io := (s.io.step (.write type message)).1 } reader
  | stop =>
      rw [act, act, run_stop, run_stop]
      rfl

theorem foldl_act_withReader (hblind : ∀ note (s : Noted) reader,
    callback note (s.withReader reader) = (callback note s).withReader reader)
    (s : Noted) (reader : Reader) (actions : List Action) :
    actions.foldl (act callback) (s.withReader reader) =
      (actions.foldl (act callback) s).withReader reader := by
  induction actions generalizing s with
  | nil => rfl
  | cons action actions ih =>
      rw [List.foldl_cons, List.foldl_cons, act_withReader hblind]
      exact ih _

theorem callback_withReader (user : User) (depth : ℕ) (note : Note) (s : Noted)
    (reader : Reader) :
    Noted.callback user depth note (s.withReader reader) =
      (Noted.callback user depth note s).withReader reader := by
  induction depth generalizing note s reader with
  | zero => rfl
  | succ depth ih => exact foldl_act_withReader ih (s.note note) reader _

theorem blind_owner (user : User) : (owner user).Blind where
  io_setIo _ _ := rfl
  setIo_setIo _ _ _ := rfl
  setIo_io _ := rfl
  onMessage_setReader header message s reader :=
    callback_withReader user 2 (.onMessage header message) s reader

/-! ## Deliveries -/

/-- Only the callback of the last message ends the session. -/
def EndsLast (user : User) : Noted → List (MessageHeader × List UInt8) → Prop
  | _, [] => True
  | s, message :: rest =>
      (rest ≠ [] → ((owner user).onMessage message.1 message.2 s).io.state ≠ .idle) ∧
        EndsLast user ((owner user).onMessage message.1 message.2 s) rest

theorem keeps_onMessage (user : User) (h : s.Linked) (header : MessageHeader)
    (message : List UInt8) :
    Keeps (s.note (.onMessage header message)) ((owner user).onMessage header message s) :=
  safe_callback user 2 (.onMessage header message) s (h.note_onMessage header message)

theorem linked_deliver (user : User) (h : s.Linked)
    (messages : List (MessageHeader × List UInt8)) :
    ((owner user).deliver s messages).Linked ∧
      s.log <+: ((owner user).deliver s messages).log := by
  induction messages generalizing s with
  | nil => exact ⟨h, List.prefix_refl _⟩
  | cons message messages ih =>
      have hfirst := keeps_onMessage user h message.1 message.2
      obtain ⟨hlinked, hlonger⟩ := ih hfirst.linked
      exact ⟨hlinked, ((List.prefix_append _ _).trans hfirst.longer).trans hlonger⟩

/-- A message behind the end of the session is against the protocol. -/
theorem not_protocol_deliver (h : s.Linked) (hidle : s.io.state = .idle)
    {messages : List (MessageHeader × List UInt8)} (hmessages : messages ≠ []) :
    ¬ Protocol ((owner user).deliver s messages).log := by
  obtain ⟨message, rest, rfl⟩ := List.exists_cons_of_ne_nil hmessages
  have hfirst := keeps_onMessage user h message.1 message.2
  have hlonger := hfirst.longer.trans (linked_deliver user hfirst.linked rest).2
  intro hprotocol
  have hnote := protocol_concat.mp (hprotocol.of_isPrefix hlonger)
  exact h.not_allowed_onMessage hidle message.1 message.2 hnote.2

/-- The induction is on the messages: as long as the object is connected the next one is
allowed. -/
theorem protocol_deliver_iff (h : s.Linked) (hprotocol : Protocol s.log)
    (hconnected : s.io.state = .connected) (messages : List (MessageHeader × List UInt8)) :
    Protocol ((owner user).deliver s messages).log ↔ EndsLast user s messages := by
  induction messages generalizing s with
  | nil => exact iff_of_true hprotocol trivial
  | cons message rest ih =>
      have hfirst := keeps_onMessage user h message.1 message.2
      have hnext : Protocol ((owner user).onMessage message.1 message.2 s).log :=
        hfirst.protocol (protocol_concat.mpr
          ⟨hprotocol, h.allowed_onMessage hconnected message.1 message.2⟩)
      show Protocol ((owner user).deliver _ rest).log ↔ _
      rw [EndsLast]
      rcases hfirst.state with hopen | hidle
      · have hstill := hopen.trans hconnected
        rw [ih hfirst.linked hnext hstill, and_iff_right]
        simp [hstill]
      · cases rest with
        | nil => exact iff_of_true hnext ⟨fun hne => absurd rfl hne, trivial⟩
        | cons message' rest =>
            exact iff_of_false (not_protocol_deliver hfirst.linked hidle (List.cons_ne_nil _ _))
              fun hends => hends.1 (List.cons_ne_nil _ _) hidle

/-! ## One step of a run -/

/-- What is kept over a whole step. -/
def Sound (s : Noted) : Prop := s.Linked ∧ Protocol s.log

theorem Keeps.sound (h : Keeps s t) (hsound : s.Sound) : t.Sound :=
  ⟨h.linked, h.protocol hsound.2⟩

theorem sound_started (h : s.Sound) {io : SocketIo} {connected : Bool}
    (hstate : io.state = if connected then .connected else .bound) :
    (({ s with io } : Noted).note (.started connected)).Sound := by
  refine ⟨?_, protocol_concat.mpr ⟨h.2, trivial⟩⟩
  have hsession := session_started s.log connected
  cases connected <;> simp [Linked, note, hstate, hsession, Connected, Ended]

theorem sound_onConnect (h : s.Sound) {io : SocketIo} (hconnecting : s.io.state = .connecting)
    (hconnected : io.state = .connected) :
    ((owner user).onConnect { s with io }).Sound := by
  have hopen := h.1.not_ended (by simp [hconnecting])
  have hsession : session (s.log ++ [.onConnect]) = session s.log ++ [.onConnect] :=
    session_concat _ (by simp)
  have hnote : (({ s with io } : Noted).note .onConnect).Sound := by
    refine ⟨?_, protocol_concat.mpr ⟨h.2, hopen⟩⟩
    simp only [Linked, note, hconnected, hsession]
    exact ⟨Or.inr (by simp), by simpa [Ended] using hopen⟩
  exact (safe_callback user 2 .onConnect { s with io } hnote.1).sound hnote

theorem sound_run (h : s.Sound) {method : SocketIo → SocketIo × List SocketIo.Output}
    (hcloses : SocketIo.Closes s.io (method s.io)) : ((owner user).run method s).Sound :=
  (keeps_run (safe_callback user 2) h.1 hcloses).sound h

theorem sound_connect (h : s.Sound) (accepted : Bool) :
    ((owner user).run (·.step (.connect accepted)) s).Sound := by
  cases hstate : s.io.state with
  | bound =>
      cases accepted with
      | true =>
          have hconnect : s.io.step (.connect true) = ({ s.io with state := .connecting }, []) := by
            simp [SocketIo.step, SocketIo.connect, hstate]
          rw [SocketOwner.run_of_nil (congrArg (SocketIo.callsIn ·.2) hconnect)]
          exact ⟨linked_of_connecting (congrArg (·.1.state) hconnect)
            (h.1.not_ended (by simp [hstate])), h.2⟩
      | false =>
          have hconnect : s.io.step (.connect false) =
              ({ s.io with state := .idle }, [.onClose]) := by
            simp [SocketIo.step, SocketIo.connect, hstate, SocketIo.stopInternal]
          refine sound_run h ?_
          rw [hconnect]
          exact Or.inr ⟨rfl, by simp [hstate], rfl⟩
  | idle | connecting | connected =>
      have hconnect : s.io.step (.connect accepted) = (s.io, []) := by
        simp [SocketIo.step, SocketIo.connect, hstate]
      exact sound_run h (hconnect ▸ SocketIo.closes_self s.io)

theorem sound_writeReady (h : s.Sound) (finalized : Bool) (first second : WriteCall) :
    ((owner user).run (·.step (.writeReady finalized first second)) s).Sound := by
  by_cases hconnects : s.io.state = .connecting ∧ finalized = true
  · obtain ⟨hstate, rfl⟩ := hconnects
    have hready := SocketIo.writeReady_of_connecting hstate first second
    rw [SocketOwner.run_of_singleton (congrArg (SocketIo.callsIn ·.2) hready)]
    exact sound_onConnect h hstate (congrArg (·.1.state) hready)
  · exact sound_run h (SocketIo.closes_writeReady hconnects first second)

/-! ## The read half -/

theorem linked_withReader (h : s.Linked) (reader : Reader) : (s.withReader reader).Linked :=
  h.of_eq rfl rfl

/-- No callback changes the reader. -/
theorem reader_callback (user : User) (depth : ℕ) (note : Note) (s : Noted) :
    (Noted.callback user depth note s).io.reader = s.io.reader :=
  congrArg (·.io.reader) (callback_withReader user depth note s s.io.reader)

theorem keeps_stopInternal (h : s.Linked) :
    Keeps s ((owner user).run (·.stopInternal true) s) := by
  refine keeps_run (safe_callback user 2) h ?_
  exact SocketIo.closes_stopInternal s.io

theorem keeps_settle (user : User) (h : s.Linked) (backlog : Reader.Backlog) :
    Keeps s ((owner user).settle backlog s) := by
  have hreader : Keeps s (s.withReader backlog.reader) := keeps_setIo h rfl
  unfold SocketOwner.settle
  split_ifs
  · exact hreader.trans (keeps_stopInternal hreader.linked)
  · exact hreader

theorem keeps_afterRead (user : User) (h : s.Linked) (transfer : Transfer) :
    Keeps s ((owner user).afterRead transfer s) := by
  by_cases hfails : transfer.outcome = none
  · rw [SocketOwner.afterRead_of_none hfails]
    exact keeps_stopInternal h
  · rw [SocketOwner.afterRead_of_ne_none hfails]
    exact Keeps.refl h

/-- What has happened when the loop starts behind a read that failed. -/
theorem state_stopInternal (user : User) (s : Noted) :
    ((owner user).run (·.stopInternal true) s).io.state = .idle := by
  by_cases hidle : s.io.state = .idle
  · have hstop := SocketIo.stopInternal_of_idle hidle true
    rw [SocketOwner.run_of_nil (congrArg (SocketIo.callsIn ·.2) hstop)]
    exact (congrArg (·.1.state) hstop).trans hidle
  · have hstop := SocketIo.stopInternal_of_ne_idle hidle true
    rw [SocketOwner.run_of_singleton (congrArg (SocketIo.callsIn ·.2) hstop)]
    set closed : Noted := (owner user).setIo s (s.io.stopInternal true).1
    have hclosed : closed.io.state = .idle := congrArg (·.1.state) hstop
    have hlinked : (closed.note .onClose).Linked := by
      refine linked_of_ended hclosed (Or.inr ?_)
      rw [show session (closed.note .onClose).log = session s.log ++ [.onClose] from
        session_concat _ (by simp)]
      exact List.mem_append_right _ (List.mem_singleton.mpr rfl)
    rcases (safe_callback user 2 .onClose closed hlinked).state with hsame | hidle'
    · exact hsame.trans hclosed
    · exact hidle'

/-- A read that delivers everything before a session ends: if it fails then nothing
complete is in the buffer, and only the callback of the last message ends the session. -/
def EndsDrained (user : User) (s : Noted) : SocketIo.Input → Prop
  | .readReady first second =>
      s.io.state = .connected →
        let (reader, transfer) := s.io.reader.update first second
        let messages := reader.wholeBacklog.messages
        (transfer.outcome = none → messages = []) ∧
          EndsLast user (s.withReader reader) messages
  | _ => True

theorem onReadReady_eq (hconnected : s.io.state = .connected) (first second : ReadCall) :
    (owner user).onReadReady first second s =
      let (reader, transfer) := s.io.reader.update first second
      (owner user).settle reader.wholeBacklog ((owner user).deliver
        ((owner user).afterRead transfer (s.withReader reader)) reader.wholeBacklog.messages) :=
  (blind_owner user).onReadReady_eq (reader_callback user 2 .onClose) hconnected first second

theorem linked_onReadReady (h : s.Linked) (first second : ReadCall) :
    ((owner user).onReadReady first second s).Linked := by
  by_cases hconnected : s.io.state = .connected
  · rw [onReadReady_eq hconnected]
    have hread := keeps_afterRead user
      (linked_withReader h (s.io.reader.update first second).1)
      (s.io.reader.update first second).2
    exact (keeps_settle user (linked_deliver user hread.linked _).1 _).linked
  · rw [SocketOwner.onReadReady_of_not_connected hconnected]
    exact h

theorem protocol_onReadReady_iff (h : s.Sound) (first second : ReadCall) :
    Protocol ((owner user).onReadReady first second s).log ↔
      EndsDrained user s (.readReady first second) := by
  by_cases hconnected : s.io.state = .connected
  · rw [onReadReady_eq hconnected, EndsDrained, imp_iff_right hconnected]
    rcases s.io.reader.update first second with ⟨reader, transfer⟩
    show _ ↔ (transfer.outcome = none → reader.wholeBacklog.messages = []) ∧
      EndsLast user (s.withReader reader) reader.wholeBacklog.messages
    have hlinked := linked_withReader h.1 reader
    have hread := keeps_afterRead user hlinked transfer
    have hdelivered := linked_deliver user hread.linked reader.wholeBacklog.messages
    have hsettle := keeps_settle user hdelivered.1 reader.wholeBacklog
    have hloop : Protocol ((owner user).settle reader.wholeBacklog ((owner user).deliver
          ((owner user).afterRead transfer (s.withReader reader))
          reader.wholeBacklog.messages)).log ↔
        Protocol ((owner user).deliver ((owner user).afterRead transfer (s.withReader reader))
          reader.wholeBacklog.messages).log :=
      ⟨fun hprotocol => hprotocol.of_isPrefix hsettle.longer, hsettle.protocol⟩
    rw [hloop]
    by_cases hfails : transfer.outcome = none
    · rw [SocketOwner.afterRead_of_none hfails] at hread ⊢
      by_cases hmessages : reader.wholeBacklog.messages = []
      · rw [hmessages]
        exact iff_of_true (hread.protocol h.2) ⟨fun _ => rfl, trivial⟩
      · refine iff_of_false ?_ fun hends => hmessages (hends.1 hfails)
        exact not_protocol_deliver hread.linked (state_stopInternal user _) hmessages
    · rw [SocketOwner.afterRead_of_ne_none hfails]
      refine (protocol_deliver_iff hlinked h.2 hconnected _).trans ?_
      exact (and_iff_right fun hnone => absurd hnone hfails).symm
  · rw [SocketOwner.onReadReady_of_not_connected hconnected]
    exact iff_of_true h.2 fun hin => absurd hin hconnected

/-! ## Whole runs -/

/-- Every step but a read is sound. -/
theorem step_iff (user : User) (h : s.Sound) (input : SocketIo.Input) :
    (step user s input).Linked ∧ (Protocol (step user s input).log ↔ EndsDrained user s input) := by
  have hsound : ∀ t : Noted, t.Sound → t.Linked ∧ (Protocol t.log ↔ True) :=
    fun t ht => ⟨ht.1, iff_true_intro ht.2⟩
  cases input with
  | readReady first second =>
      exact ⟨linked_onReadReady h.1 first second, protocol_onReadReady_iff h first second⟩
  | start connected =>
      apply hsound
      rw [step]
      split_ifs with hidle
      · have hstart : s.io.step (.start connected) =
            ({ s.io with state := if connected then .connected else .bound }, []) := by
          simp [SocketIo.step, SocketIo.start, hidle]
        rw [SocketOwner.run_of_nil (congrArg (SocketIo.callsIn ·.2) hstart)]
        exact sound_started h (congrArg (·.1.state) hstart)
      · exact h
  | stop => exact hsound _ ((keeps_act (safe_callback user 2) h.1 .stop).sound h)
  | connect accepted => exact hsound _ (sound_connect h accepted)
  | write type message =>
      exact hsound _ ((keeps_act (safe_callback user 2) h.1 (.write type message)).sound h)
  | writeReady finalized first second => exact hsound _ (sound_writeReady h finalized first second)
  | hungOrError => exact hsound _ ((keeps_stopInternal h.1).sound h)

theorem sound_new (memory : SocketIo.Memory) : (new memory).Sound :=
  ⟨linked_new memory, protocol_nil⟩

/-- A run follows the protocol exactly if every read in it delivers everything before a
session ends. -/
theorem protocol_iff_endsDrained (user : User) (memory : SocketIo.Memory)
    (inputs : List SocketIo.Input) :
    HoldsThroughout (step user) (fun s => Protocol s.log) (new memory) inputs ↔
      StepsMeet (step user) (EndsDrained user) (new memory) inputs := by
  refine holdsThroughout_iff_stepsMeet (I := Sound) ?_ ?_ ?_ (sound_new memory) inputs
  · intro s input h hdrained
    obtain ⟨hlinked, hprotocol⟩ := step_iff user h input
    exact ⟨hlinked, hprotocol.mpr hdrained⟩
  · exact fun s h => h.2
  · intro s input h hundrained hprotocol
    exact hundrained ((step_iff user h input).2.mp hprotocol)

/-- A user that stops the object on every message. -/
def stopsOnMessage : User := fun log =>
  match log.getLast? with
  | some (.onMessage _ _) => [.stop]
  | _ => []

/-- Two messages arrive at once. -/
def twoMessages : List SocketIo.Input :=
  [.start true, .readReady (.delivers (SocketIo.probe 0 ++ SocketIo.probe 0)) (.delivers [])]

theorem log_twoMessages :
    (twoMessages.foldl (step stopsOnMessage) (new .blank)).log =
      [.started true, .onMessage (SocketIo.probeHeader 0) [], .stopped] ++
        .onMessage (SocketIo.probeHeader 0) [] :: [.stopped] := by
  decide +kernel

/-- The second message is delivered although `stop` has returned. -/
theorem not_protocol_twoMessages :
    ¬ HoldsThroughout (step stopsOnMessage) (fun s => Protocol s.log) (new .blank)
      twoMessages := by
  intro h
  have hallowed := h.last _ _ _ log_twoMessages
  exact hallowed.2 (Or.inl (by decide))

end Noted

end Obsr.Net
