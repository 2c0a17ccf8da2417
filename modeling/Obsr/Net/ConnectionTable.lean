/-
# The table of the connections

The map of a server is to hold the connections that are open, each under an id of its own,
and every connection is to be reported when it comes and when it goes.

It does as long as no connection ends: the record of a client stays in the map when its
socket is closed, and nothing but the start of the server removes it. It also fails when
the counter reaches the id that no client may have, and when a connection that was accepted
cannot be started.
-/

import Obsr.Net.ServerIo

namespace Obsr.Net

open Obsr.Io Obsr.Lib

namespace ServerIo

/-- What was reported of a connection. -/
def callsFor (s : ServerIo) (n : ℕ) : List Report :=
  (s.reports.filter (·.1 = n)).map Prod.snd

def Refused (s : ServerIo) (n : ℕ) : Prop := n ∈ s.refused.map (·.connection)

/-- The map holds the open connections, each under its id; each connection that was not
refused was reported once, and a second time if it is closed; and none was refused while
there was an id for it. -/
structure TableExact (s : ServerIo) : Prop where
  holds : ∀ id n, s.clients.find? id = some n ↔ s.Open n ∧ (s.objects n).id = id
  distinct : ∀ n m, s.Open n → s.Open m → (s.objects n).id = (s.objects m).id → n = m
  valid : ∀ n, s.Open n → (s.objects n).id ≠ invalidClientId
  reported : ∀ n, n < s.accepted → ¬ s.Refused n →
    s.callsFor n =
      .onConnect (s.objects n).id ::
        if s.Open n then [] else [.onDisconnect (s.objects n).id]
  unreported : ∀ n, s.accepted ≤ n ∨ s.Refused n → s.callsFor n = []
  full : ∀ refusal ∈ s.refused, ∀ id, id ≠ invalidClientId → id ∈ refusal.inUse

/-- The step ends no connection; a connection that it accepts can be started, and there is
an id for it. -/
def Keeps (s : ServerIo) : Input → Prop
  | .acceptFails => True
  | .accept _ start => start = .succeeds ∧ s.nextClientId ≠ invalidClientId
  | .event n event answers => ¬ s.Ends n event answers
  | .writeTo call => ¬ s.CutsShort call

/-! ## Connections that do not end -/

/-- Every connection so far is open under its number. -/
structure Undisturbed (s : ServerIo) : Prop where
  counted : s.nextClientId.toNat = s.accepted
  registered : ∀ id n, s.clients.find? id = some n ↔ n < s.accepted ∧ id.toNat = n
  connected : ∀ n, n < s.accepted →
    (s.objects n).io.state = .connected ∧ (s.objects n).id.toNat = n
  others : ∀ n, s.accepted ≤ n → (s.objects n).io.state = .idle
  reported : ∀ n, s.callsFor n = if n < s.accepted then [.onConnect (s.objects n).id] else []
  refused : s.refused = []

variable {s t : ServerIo}

theorem undisturbed_started (blank : SocketIo.Memory) : (started blank).Undisturbed where
  counted := rfl
  registered id n := by simp [started]
  connected n h := absurd h (Nat.not_lt_zero n)
  others _ _ := rfl
  reported _ := rfl
  refused := rfl

theorem Undisturbed.open_iff (h : s.Undisturbed) (n : ℕ) : s.Open n ↔ n < s.accepted := by
  constructor
  · intro hopen
    by_contra hle
    exact hopen (h.others n (Nat.not_lt.mp hle))
  · intro hlt
    rw [Open, (h.connected n hlt).1]
    decide

theorem Undisturbed.not_connecting (h : s.Undisturbed) (n : ℕ) :
    (s.objects n).io.state ≠ .connecting := by
  rcases Nat.lt_or_ge n s.accepted with hlt | hle
  · rw [(h.connected n hlt).1]
    decide
  · rw [h.others n hle]
    decide

/-- The next id is free. -/
theorem Undisturbed.find?_nextClientId (h : s.Undisturbed) :
    s.clients.find? s.nextClientId = none := by
  by_contra hsome
  obtain ⟨n, hn⟩ := Option.ne_none_iff_exists'.mp hsome
  obtain ⟨hlt, hid⟩ := (h.registered _ n).mp hn
  rw [h.counted] at hid
  exact absurd hid hlt.ne'

theorem Undisturbed.tableExact (h : s.Undisturbed) : s.TableExact where
  holds id n := by
    rw [h.registered, h.open_iff]
    refine and_congr_right fun hlt => ?_
    have hid := (h.connected n hlt).2
    constructor
    · intro hkey
      exact UInt16.toNat_inj.mp (hid.trans hkey.symm)
    · rintro rfl
      exact hid
  distinct n m hn hm hids := by
    have hidN := (h.connected n ((h.open_iff n).mp hn)).2
    have hidM := (h.connected m ((h.open_iff m).mp hm)).2
    rw [← hidN, hids, hidM]
  valid n hopen hinvalid := by
    have hlt := (h.open_iff n).mp hopen
    have hid := (h.connected n hlt).2
    have hnext := s.nextClientId.toNat_lt
    rw [hinvalid] at hid
    have hn : n = 65535 := hid.symm
    rw [h.counted] at hnext
    omega
  reported n hlt _ := by
    rw [h.reported, if_pos hlt, if_pos ((h.open_iff n).mpr hlt)]
  unreported n hn := by
    rcases hn with hle | hrefused
    · rw [h.reported, if_neg (Nat.not_lt.mpr hle)]
    · rw [Refused, h.refused] at hrefused
      cases hrefused
  full refusal hmem := by
    rw [h.refused] at hmem
    cases hmem

theorem Undisturbed.sameConnections (h : s.Undisturbed) (hsame : SameConnections s t) :
    t.Undisturbed where
  counted := by rw [hsame.nextClientId, hsame.accepted, h.counted]
  registered id n := by rw [hsame.clients, hsame.accepted, h.registered]
  connected n := by
    rw [hsame.accepted, hsame.state, hsame.id]
    exact h.connected n
  others n := by
    rw [hsame.accepted, hsame.state]
    exact h.others n
  reported n := by
    rw [callsFor, hsame.reports, hsame.accepted, hsame.id]
    exact h.reported n
  refused := hsame.refused.trans h.refused

/-! ## Accepting a connection -/

/-- The server with the record of the connection that comes next. -/
def stored (s : ServerIo) (memory : SocketIo.Memory) : ServerIo :=
  ({ s with nextClientId := s.nextClientId + 1, accepted := s.accepted + 1 } : ServerIo).store
    s.accepted s.nextClientId memory

@[simp]
theorem objects_stored_self (s : ServerIo) (memory : SocketIo.Memory) :
    (s.stored memory).objects s.accepted = ⟨s.nextClientId, SocketIo.new memory⟩ :=
  Function.update_self ..

theorem objects_stored_of_ne {n : ℕ} (h : n ≠ s.accepted) (memory : SocketIo.Memory) :
    (s.stored memory).objects n = s.objects n := Function.update_of_ne h ..

/-- The socket of a new client is connected from its start on. -/
theorem objects_startClient (s : ServerIo) (memory : SocketIo.Memory) (refusal : Refusal) :
    ((s.stored memory).startClient s.accepted s.nextClientId refusal .succeeds).objects
      s.accepted = ⟨s.nextClientId, (SocketIo.new memory).start true⟩ := by
  simp only [startClient, report, objects_withIo_self, objects_stored_self]

theorem Undisturbed.accept_eq (h : s.Undisturbed) (memory : SocketIo.Memory) (start : Start) :
    s.accept memory start =
      (s.stored memory).startClient s.accepted s.nextClientId ⟨s.accepted, s.openIds⟩ start := by
  have hfree : ¬ (s.clients.find? s.nextClientId).isSome = true := by
    rw [h.find?_nextClientId]
    exact Bool.false_ne_true
  exact if_neg hfree

theorem toNat_nextClientId (hvalid : s.nextClientId ≠ invalidClientId) :
    (s.nextClientId + 1).toNat = s.nextClientId.toNat + 1 := by
  have hlt := s.nextClientId.toNat_lt
  have hne : s.nextClientId.toNat ≠ 65535 := fun heq => hvalid (UInt16.toNat_inj.mp heq)
  rw [UInt16.toNat_add, UInt16.toNat_one]
  omega

/-- What a connection adds that is accepted and started. -/
structure Registers (s t : ServerIo) (io : SocketIo) : Prop where
  clients : t.clients = s.clients.emplace s.nextClientId s.accepted
  nextClientId : t.nextClientId = s.nextClientId + 1
  accepted : t.accepted = s.accepted + 1
  object : t.objects s.accepted = ⟨s.nextClientId, io⟩
  others : ∀ n, n ≠ s.accepted → t.objects n = s.objects n
  reports : t.reports = s.reports ++ [(s.accepted, .onConnect s.nextClientId)]
  refused : t.refused = s.refused

theorem Undisturbed.registers_accept (h : s.Undisturbed) (memory : SocketIo.Memory) :
    s.Registers (s.accept memory .succeeds) ((SocketIo.new memory).start true) := by
  rw [h.accept_eq]
  refine ⟨rfl, rfl, rfl, objects_startClient s memory _, fun n hn => ?_, rfl, rfl⟩
  simp only [startClient, report, objects_withIo_of_ne hn, objects_stored_of_ne hn]

variable {io : SocketIo}

theorem Undisturbed.find?_registers (h : s.Undisturbed) (hadds : s.Registers t io)
    (id : ClientId) (n : ℕ) :
    t.clients.find? id = some n ↔ n < t.accepted ∧ id.toNat = n := by
  rw [hadds.clients, hadds.accepted, OrderedMap.find?_emplace, h.find?_nextClientId]
  split_ifs with hid
  · subst hid
    rw [h.counted]
    constructor
    · rintro ⟨⟩
      exact ⟨Nat.lt_succ_self _, rfl⟩
    · rintro ⟨-, rfl⟩
      rfl
  · have hne : id.toNat ≠ s.accepted := fun heq =>
      hid (UInt16.toNat_inj.mp (heq.trans h.counted.symm))
    rw [h.registered]
    omega

theorem Undisturbed.callsFor_registers (h : s.Undisturbed) (hadds : s.Registers t io) (n : ℕ) :
    t.callsFor n = if n < t.accepted then [.onConnect (t.objects n).id] else [] := by
  have hbefore := h.reported n
  rw [callsFor] at hbefore
  rw [callsFor, hadds.reports, hadds.accepted, List.filter_append, List.map_append, hbefore]
  by_cases hlast : n = s.accepted
  · rw [hlast, hadds.object]
    simp
  · rw [hadds.others n hlast]
    have hfirst : s.accepted ≠ n := Ne.symm hlast
    have hiff : n < s.accepted + 1 ↔ n < s.accepted := by omega
    simp [hfirst, hiff]

theorem Undisturbed.registers (h : s.Undisturbed) (hadds : s.Registers t io)
    (hio : io.state = .connected) (hvalid : s.nextClientId ≠ invalidClientId) :
    t.Undisturbed where
  counted := by
    rw [hadds.nextClientId, hadds.accepted, toNat_nextClientId hvalid, h.counted]
  registered := h.find?_registers hadds
  connected n hn := by
    rw [hadds.accepted] at hn
    by_cases hlast : n = s.accepted
    · rw [hlast, hadds.object]
      exact ⟨hio, h.counted⟩
    · rw [hadds.others n hlast]
      exact h.connected n (by omega)
  others n hn := by
    rw [hadds.accepted] at hn
    rw [hadds.others n (by omega)]
    exact h.others n (by omega)
  reported := h.callsFor_registers hadds
  refused := hadds.refused.trans h.refused

/-- Nothing is reported of a connection that could not be started. -/
theorem Undisturbed.callsFor_accepted (h : s.Undisturbed) (hreports : t.reports = s.reports) :
    t.callsFor s.accepted = [] := by
  have hcalls := h.reported s.accepted
  rw [if_neg (Nat.lt_irrefl _)] at hcalls
  rw [callsFor, hreports]
  exact hcalls

theorem Undisturbed.nextClientId_not_mem_openIds (h : s.Undisturbed) :
    s.nextClientId ∉ s.openIds := by
  intro hmem
  obtain ⟨n, hn, hid⟩ := List.mem_map.mp hmem
  have hlt := List.mem_range.mp (List.mem_of_mem_filter hn)
  have hnext := h.counted
  rw [← hid, (h.connected n hlt).2] at hnext
  exact absurd hnext hlt.ne

/-- A connection that is accepted in any other way ruins the table. -/
theorem Undisturbed.not_tableExact_accept (h : s.Undisturbed) (memory : SocketIo.Memory)
    {start : Start} (hbad : ¬ (start = .succeeds ∧ s.nextClientId ≠ invalidClientId)) :
    ¬ (s.accept memory start).TableExact := by
  intro hexact
  -- a connection that is neither reported nor refused
  have hsilent : ∀ t : ServerIo, t.TableExact → t.reports = s.reports →
      t.refused = s.refused → t.accepted = s.accepted + 1 → False := by
    intro t ht hreports hrefused haccepted
    have hnot : ¬ t.Refused s.accepted := by
      rw [Refused, hrefused, h.refused]
      exact List.not_mem_nil
    have hreported := ht.reported s.accepted (by omega) hnot
    rw [h.callsFor_accepted hreports] at hreported
    cases hreported
  rw [h.accept_eq] at hexact
  cases start with
  | succeeds =>
      have hinvalid : s.nextClientId = invalidClientId := by
        by_contra hvalid
        exact hbad ⟨rfl, hvalid⟩
      refine hexact.valid s.accepted ?_ ?_
      · rw [Open, objects_startClient]
        exact SocketIo.State.noConfusion
      · rw [objects_startClient]
        exact hinvalid
  | looperFails => exact hsilent _ hexact rfl rfl rfl
  | socketFails =>
      rw [startClient] at hexact
      split_ifs at hexact with hvalid
      · -- the id that the connection had is free
        have hfull := hexact.full ⟨s.accepted, s.openIds⟩
          (List.mem_append_right _ (List.mem_singleton_self _)) s.nextClientId hvalid
        exact h.nextClientId_not_mem_openIds hfull
      · exact hsilent _ hexact rfl rfl rfl

/-! ## The end of a connection -/

/-- The record of a connection that ended is still there. -/
theorem TableExact.not_of_closed (h : s.TableExact) (hlater : Later s t) {n : ℕ}
    (hopen : s.Open n) (hclosed : ¬ t.Open n) : ¬ t.TableExact := by
  intro hexact
  have hfind := (h.holds (s.objects n).id n).mpr ⟨hopen, rfl⟩
  rw [← hlater.clients] at hfind
  exact hclosed ((hexact.holds _ n).mp hfind).1

theorem Undisturbed.step (h : s.Undisturbed) {input : Input} (hkeeps : s.Keeps input) :
    (s.step input).Undisturbed := by
  cases input with
  | acceptFails => exact h
  | accept memory start =>
      obtain ⟨rfl, hvalid⟩ := hkeeps
      exact h.registers (h.registers_accept memory) rfl hvalid
  | event n event answers =>
      exact h.sameConnections (sameConnections_onEvent (h.not_connecting n) hkeeps)
  | writeTo call => exact h.sameConnections (sameConnections_writeTo hkeeps)

theorem Undisturbed.not_tableExact_step (h : s.Undisturbed) {input : Input}
    (hkeeps : ¬ s.Keeps input) : ¬ (s.step input).TableExact := by
  cases input with
  | acceptFails => exact absurd trivial hkeeps
  | accept memory start => exact h.not_tableExact_accept memory hkeeps
  | event n event answers =>
      have hstate := h.not_connecting n
      obtain ⟨m, hopen, hclosed⟩ := closes_onEvent hstate (not_not.mp hkeeps)
      exact h.tableExact.not_of_closed (later_onEvent hstate event answers) hopen hclosed
  | writeTo call =>
      obtain ⟨m, hopen, hclosed⟩ := closes_writeTo (not_not.mp hkeeps)
      exact h.tableExact.not_of_closed (later_writeTo s call) hopen hclosed

/-- The table is exact in every state of a run exactly if no connection ends in it, every
connection that is accepted can be started, and there is an id for each. -/
theorem tableExact_iff (blank : SocketIo.Memory) (inputs : List Input) :
    HoldsThroughout step TableExact (started blank) inputs ↔
      StepsMeet step Keeps (started blank) inputs :=
  holdsThroughout_iff_stepsMeet (I := Undisturbed) (fun _ _ h hkeeps => h.step hkeeps)
    (fun _ h => h.tableExact) (fun _ _ h hkeeps => h.not_tableExact_step hkeeps)
    (undisturbed_started blank) inputs

/-- One client connects and hangs up. -/
theorem not_tableExact_hungUp :
    ¬ HoldsThroughout step TableExact (started SocketIo.Memory.blank)
      [.accept SocketIo.Memory.blank .succeeds, .event 0 .hungOrError []] := by
  intro h
  have hrecord : ((((started SocketIo.Memory.blank).step
      (.accept SocketIo.Memory.blank .succeeds)).step
        (.event 0 .hungOrError [])).clients.find? 0) = some 0 := rfl
  exact ((h.last.holds 0 0).mp hrecord).1 rfl

end ServerIo

end Obsr.Net
