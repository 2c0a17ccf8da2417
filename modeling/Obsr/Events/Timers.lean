/-
# Timers

`looper` keeps its timers in a handle table of their own. `stop_timer` only marks a timer;
the next pass over the timers that comes by collects it, and the end of that pass releases
it. A pass lets go of the lock around each callback, so that everything else can be called
while one is running.

`stop_timer` asks the table of the io resources whether the handle is there. The timers are
numbered, and the development notes what happens to each.
-/

import Obsr.Events.Registry

namespace Obsr.Events

open Obsr.Lib

/-- `timer_data`, with its number; its callback is known by the number. -/
structure TimerData where
  serial : ℕ
  timeout : ℤ
  nextTimestamp : ℤ
  deriving DecidableEq, Repr

inductive TimerNote
  | stopped (serial : ℕ)
  /-- A stop that threw, with the timer of the handle if there was one. -/
  | refused (serial : Option ℕ)
  | called (serial : ℕ)
  | released (serial : ℕ)
  deriving DecidableEq, Repr

/-- A `process_timers` in one of its callbacks, with the handles it still is to visit. -/
structure TimerPass where
  now : ℤ
  calling : Handle
  handles : List Handle
  toRemove : List Handle
  deriving DecidableEq, Repr

/-- `min_poll_timeout`, in milliseconds. -/
def minPollTimeout : ℤ := 100

/-- `initial_poll_timeout`, in milliseconds. -/
def initialPollTimeout : ℤ := 1000

/-- `event_in`. -/
def eventIn : EventTypes := 1

/-- A looper with its timers. -/
structure TimerLooper (π : Type) where
  io : Looper π
  timers : HandleTable TimerData 16 := HandleTable.empty
  timeout : ℤ := initialPollTimeout
  nextSerial : ℕ := 0
  pass : Option TimerPass := none
  notes : List TimerNote := []

/-- What happens to a looper, in a callback or out of it: a call, a step of its io side, the
beginning of a pass over the timers, or that the callback a pass is in returns. -/
inductive TimerInput
  | createTimer (now timeout : ℤ)
  | stopTimer (handle : Handle)
  | io (input : LooperInput)
  | beginPass (now : ℤ)
  | callbackReturns
  deriving DecidableEq, Repr

namespace TimerLooper

variable {π : Type}

/-- The constructor registers the signal that wakes the looper up. -/
def new (descriptors : Resource → Descriptor) (poller : π) (signal : Resource) :
    TimerLooper π where
  io := (({ descriptors, poller } : Looper π).add signal eventIn).1

def createTimer (s : TimerLooper π) (now timeout : ℤ) :
    TimerLooper π × Except LooperException Handle :=
  if timeout < minPollTimeout then (s, .error .illegalArgument)
  else
    match s.timers.allocateNew
        { serial := s.nextSerial, timeout, nextTimestamp := now + timeout } with
    | .error _ => (s, .error .noSpace)
    | .ok (handle, timers) =>
        ({ s with
            timers
            timeout := if s.timeout > timeout then timeout else s.timeout
            nextSerial := s.nextSerial + 1 }, .ok handle)

/-- The timer of a handle. -/
def serialOf (s : TimerLooper π) (handle : Handle) : Option ℕ :=
  (s.timers.get? handle).map TimerData.serial

def note (s : TimerLooper π) (n : TimerNote) : TimerLooper π := { s with notes := s.notes ++ [n] }

def stopTimer (s : TimerLooper π) (handle : Handle) :
    TimerLooper π × Except LooperException Unit :=
  if s.io.handles.has handle then
    match s.timers.get? handle with
    | none => (s.note (.refused none), .error (.noSuchHandle handle))
    | some data =>
        ({ s with
            timers := s.timers.modify handle fun data => { data with timeout := 0 }
            notes := s.notes ++ [.stopped data.serial] }, .ok ())
  else (s.note (.refused (s.serialOf handle)), .error (.noSuchHandle handle))

def releaseTimer (s : TimerLooper π) (handle : Handle) : TimerLooper π :=
  match s.timers.get? handle with
  | none => s
  | some data =>
      { s with timers := s.timers.release handle, notes := s.notes ++ [.released data.serial] }

/-- The loop of `process_timers` from the first of the handles on, up to the next callback
or to the end. -/
def visitTimers (now : ℤ) : List Handle → List Handle → TimerLooper π → TimerLooper π
  | [], toRemove, s => { toRemove.foldl releaseTimer s with pass := none }
  | handle :: handles, toRemove, s =>
      match s.timers.get? handle with
      | none => visitTimers now handles toRemove s
      | some data =>
          if data.timeout = 0 then visitTimers now handles (toRemove ++ [handle]) s
          else if data.nextTimestamp > now then visitTimers now handles toRemove s
          else
            { s with
              pass := some { now, calling := handle, handles, toRemove }
              notes := s.notes ++ [.called data.serial] }

def beginPass (s : TimerLooper π) (now : ℤ) : TimerLooper π :=
  match s.pass with
  | none => visitTimers now (List.range 16) [] s
  | some _ => s

def callbackReturns (s : TimerLooper π) : TimerLooper π :=
  match s.pass with
  | none => s
  | some pass =>
      visitTimers pass.now pass.handles pass.toRemove
        { s with
          timers := s.timers.modify pass.calling fun data =>
            { data with nextTimestamp := pass.now + data.timeout } }

def step (P : Poller π) (s : TimerLooper π) : TimerInput → TimerLooper π
  | .createTimer now timeout => (s.createTimer now timeout).1
  | .stopTimer handle => (s.stopTimer handle).1
  | .io input => { s with io := s.io.step P input }
  | .beginPass now => s.beginPass now
  | .callbackReturns => s.callbackReturns

/-- A stop throws for no timer there is; it silences its timer for good, and it neither
stops nor releases another one. -/
structure StopsWork (s : TimerLooper π) : Prop where
  refused : ∀ serial, .refused (some serial) ∉ s.notes
  silent : ∀ before serial after, s.notes = before ++ .stopped serial :: after →
    .called serial ∉ after
  stopped : ∀ handle data, s.timers.get? handle = some data →
    (data.timeout = 0 ↔ .stopped data.serial ∈ s.notes)
  released : ∀ before serial after, s.notes = before ++ .released serial :: after →
    .stopped serial ∈ before
  kept : ∀ serial < s.nextSerial, .released serial ∉ s.notes →
    ∃ handle data, s.timers.get? handle = some data ∧ data.serial = serial

/-- A timer is stopped while an io resource has a handle of the same number. -/
def StopsBesideIo (s : TimerLooper π) : TimerInput → Prop
  | .stopTimer handle => s.timers.has handle = true → s.io.handles.has handle = true
  | _ => True

/-! ## The notes -/

/-- The notes are in an order that they may be in. -/
structure InOrder (notes : List TimerNote) : Prop where
  refused : ∀ serial, .refused (some serial) ∉ notes
  silent : ∀ before serial after, notes = before ++ .stopped serial :: after →
    .called serial ∉ after
  released : ∀ before serial after, notes = before ++ .released serial :: after →
    .stopped serial ∈ before

variable {notes : List TimerNote}

theorem inOrder_nil : InOrder [] where
  refused _ := List.not_mem_nil
  silent before serial after h := by simp at h
  released before serial after h := by simp at h

/-- One more note, of a call of a timer that was not stopped or of a release of one that
was. -/
theorem InOrder.concat (h : InOrder notes) {n : TimerNote}
    (hrefused : ∀ serial, n ≠ .refused (some serial))
    (hcalled : ∀ serial, n = .called serial → .stopped serial ∉ notes)
    (hreleased : ∀ serial, n = .released serial → .stopped serial ∈ notes) :
    InOrder (notes ++ [n]) where
  refused serial hmem := by
    rcases List.mem_append.mp hmem with hold | hnew
    · exact h.refused serial hold
    · exact hrefused serial (List.mem_singleton.mp hnew).symm
  silent := by
    intro before serial after heq
    rcases concat_eq_append_cons heq with ⟨rfl, -⟩ | ⟨rest, rfl, hnotes⟩
    · obtain rfl : after = [] := by
        have hlength := congrArg List.length heq
        simpa using hlength
      exact List.not_mem_nil
    · intro hmem
      rcases List.mem_append.mp hmem with hrest | hlast
      · exact h.silent before serial rest hnotes hrest
      · refine hcalled serial (List.mem_singleton.mp hlast).symm ?_
        rw [hnotes]
        exact List.mem_append_right _ List.mem_cons_self
  released := by
    intro before serial after heq
    rcases concat_eq_append_cons heq with ⟨rfl, hlast⟩ | ⟨rest, rfl, hnotes⟩
    · exact hreleased serial hlast.symm
    · exact h.released before serial rest hnotes

/-! ## The notes and the table -/

/-- The number of the timer of a handle. -/
def serialAt (timers : HandleTable TimerData 16) (handle : Handle) : Option ℕ :=
  (timers.get? handle).map TimerData.serial

/-- The timers are told apart by their numbers, and the notes are about those there were. -/
structure Sound (timers : HandleTable TimerData 16) (nextSerial : ℕ) (notes : List TimerNote) :
    Prop where
  order : InOrder notes
  stopped : ∀ handle data, timers.get? handle = some data →
    (data.timeout = 0 ↔ .stopped data.serial ∈ notes)
  kept : ∀ serial < nextSerial, .released serial ∉ notes →
    ∃ handle, serialAt timers handle = some serial
  serial_lt : ∀ handle serial, serialAt timers handle = some serial → serial < nextSerial
  noted_lt : ∀ serial, .stopped serial ∈ notes → serial < nextSerial
  distinct : ∀ handle handle' serial, serialAt timers handle = some serial →
    serialAt timers handle' = some serial → handle = handle'

variable {timers timers' : HandleTable TimerData 16} {nextSerial : ℕ}
  {s s' : TimerLooper π} {P : Poller π} {handle : Handle} {data : TimerData}

theorem serialAt_eq (h : timers.get? handle = some data) :
    serialAt timers handle = some data.serial := by
  rw [serialAt, h]
  rfl

theorem serialAt_modify (timers : HandleTable TimerData 16) (handle : Handle)
    {f : TimerData → TimerData} (hf : ∀ data, (f data).serial = data.serial) (other : Handle) :
    serialAt (timers.modify handle f) other = serialAt timers other := by
  rw [serialAt, serialAt, HandleTable.get?_modify]
  split_ifs
  · rw [Option.map_map]
    exact Option.map_congr fun data _ => hf data
  · rfl

theorem sound_new : Sound HandleTable.empty 0 [] where
  order := inOrder_nil
  stopped handle data h := by simp at h
  kept serial h := absurd h (Nat.not_lt_zero _)
  serial_lt handle serial h := by simp [serialAt] at h
  noted_lt serial h := absurd h List.not_mem_nil
  distinct handle handle' serial h := by simp [serialAt] at h

theorem Sound.stopsWork (h : Sound s.timers s.nextSerial s.notes) : s.StopsWork where
  refused := h.order.refused
  silent := h.order.silent
  stopped := h.stopped
  released := h.order.released
  kept serial hlt hnot := by
    obtain ⟨handle, hserial⟩ := h.kept serial hlt hnot
    obtain ⟨data, hdata, heq⟩ := Option.map_eq_some_iff.mp hserial
    exact ⟨handle, data, hdata, heq⟩

namespace Sound

/-- The same timers under other times, with one more note. -/
theorem of_serials (h : Sound timers nextSerial notes) {notes' : List TimerNote}
    (hserials : ∀ handle, serialAt timers' handle = serialAt timers handle)
    (horder : InOrder notes')
    (hreleased : ∀ serial, .released serial ∉ notes' → .released serial ∉ notes)
    (hnoted : ∀ serial, .stopped serial ∈ notes' → serial < nextSerial)
    (hstopped : ∀ handle data, timers'.get? handle = some data →
      (data.timeout = 0 ↔ .stopped data.serial ∈ notes')) :
    Sound timers' nextSerial notes' where
  order := horder
  stopped := hstopped
  kept serial hlt hnot := by
    obtain ⟨handle, hserial⟩ := h.kept serial hlt (hreleased serial hnot)
    exact ⟨handle, (hserials handle).trans hserial⟩
  serial_lt handle serial hserial := h.serial_lt handle serial (hserials handle ▸ hserial)
  noted_lt := hnoted
  distinct handle handle' serial hserial hserial' :=
    h.distinct handle handle' serial (hserials handle ▸ hserial) (hserials handle' ▸ hserial')

/-- A timer whose callback is called has not been stopped. -/
theorem called (h : Sound timers nextSerial notes) (hdata : timers.get? handle = some data)
    (hruns : data.timeout ≠ 0) :
    Sound timers nextSerial (notes ++ [.called data.serial]) := by
  refine h.of_serials (fun _ => rfl) (h.order.concat (by simp) ?_ (by simp)) (by simp)
    (fun serial hmem => h.noted_lt serial (by simpa using hmem))
    fun other found hfound => by simpa using h.stopped other found hfound
  intro serial heq hmem
  obtain rfl : data.serial = serial := TimerNote.called.inj heq
  exact hruns ((h.stopped handle data hdata).mpr hmem)

/-- A stop of a handle that is no timer. -/
theorem refuse (h : Sound timers nextSerial notes) :
    Sound timers nextSerial (notes ++ [.refused none]) :=
  h.of_serials (fun _ => rfl) (h.order.concat (by simp) (by simp) (by simp)) (by simp)
    (fun serial hmem => h.noted_lt serial (by simpa using hmem))
    fun other found hfound => by simpa using h.stopped other found hfound

/-- Other times of the next call. -/
theorem modify (h : Sound timers nextSerial notes) (target : Handle) (next : TimerData → ℤ) :
    Sound (timers.modify target fun data => { data with nextTimestamp := next data }) nextSerial
      notes := by
  refine h.of_serials (fun other => serialAt_modify timers target (by simp) other) h.order
    (fun serial hnot => hnot) h.noted_lt ?_
  intro other found hfound
  rw [HandleTable.get?_modify] at hfound
  split_ifs at hfound
  · obtain ⟨old, hold, rfl⟩ := Option.map_eq_some_iff.mp hfound
    exact h.stopped other old hold
  · exact h.stopped other found hfound

/-- A stop marks its timer and no other. -/
theorem stop (h : Sound timers nextSerial notes) (hdata : timers.get? handle = some data) :
    Sound (timers.modify handle fun data => { data with timeout := 0 }) nextSerial
      (notes ++ [.stopped data.serial]) := by
  refine h.of_serials (fun other => serialAt_modify timers handle (by simp) other)
    (h.order.concat (by simp) (by simp) (by simp)) (by simp) ?_ ?_
  · intro serial hmem
    rcases List.mem_append.mp hmem with hold | hnew
    · exact h.noted_lt serial hold
    · obtain rfl : serial = data.serial := by simpa using hnew
      exact h.serial_lt handle _ (serialAt_eq hdata)
  · intro other found hfound
    rw [HandleTable.get?_modify] at hfound
    split_ifs at hfound with hother
    · obtain ⟨old, hold, rfl⟩ := Option.map_eq_some_iff.mp hfound
      rw [hother, hdata] at hold
      obtain rfl := Option.some.inj hold
      simp
    · rw [h.stopped other found hfound, List.mem_append, or_iff_left]
      intro hsame
      obtain hserial : found.serial = data.serial := by simpa using hsame
      exact hother (h.distinct other handle found.serial (serialAt_eq hfound)
        (hserial ▸ serialAt_eq hdata))

/-- A new timer, under a handle that was free. -/
theorem create (h : Sound timers nextSerial notes) {timeout nextTimestamp : ℤ}
    (htimeout : timeout ≠ 0) (hfree : timers.get? handle = none)
    (hget : ∀ other, timers'.get? other =
      if other = handle then some { serial := nextSerial, timeout, nextTimestamp }
      else timers.get? other) :
    Sound timers' (nextSerial + 1) notes := by
  have hserials : ∀ other, serialAt timers' other =
      if other = handle then some nextSerial else serialAt timers other := by
    intro other
    rw [serialAt, hget, serialAt]
    split_ifs <;> rfl
  refine ⟨h.order, ?_, ?_, ?_, ?_, ?_⟩
  · intro other found hfound
    rw [hget] at hfound
    split_ifs at hfound
    · obtain rfl := Option.some.inj hfound
      exact iff_of_false htimeout fun hmem => (h.noted_lt nextSerial hmem).false
    · exact h.stopped other found hfound
  · intro serial hlt hnot
    by_cases hnew : serial = nextSerial
    · exact ⟨handle, by rw [hserials, if_pos rfl, hnew]⟩
    · obtain ⟨other, hother⟩ := h.kept serial (by omega) hnot
      refine ⟨other, ?_⟩
      rw [hserials, if_neg, hother]
      rintro rfl
      rw [serialAt, hfree] at hother
      cases hother
  · intro other serial hserial
    rw [hserials] at hserial
    split_ifs at hserial
    · obtain rfl := Option.some.inj hserial
      exact Nat.lt_succ_self _
    · exact Nat.lt_succ_of_lt (h.serial_lt other serial hserial)
  · exact fun serial hmem => Nat.lt_succ_of_lt (h.noted_lt serial hmem)
  · intro first second serial hfirst hsecond
    rw [hserials] at hfirst hsecond
    split_ifs at hfirst hsecond with hone htwo htwo
    · rw [hone, htwo]
    · obtain rfl := Option.some.inj hfirst
      exact absurd (h.serial_lt second _ hsecond) (lt_irrefl _)
    · obtain rfl := Option.some.inj hsecond
      exact absurd (h.serial_lt first _ hfirst) (lt_irrefl _)
    · exact h.distinct first second serial hfirst hsecond

/-- A timer that was stopped is released. -/
theorem release (h : Sound timers nextSerial notes) (hdata : timers.get? handle = some data)
    (hstopped : data.timeout = 0) :
    Sound (timers.release handle) nextSerial (notes ++ [.released data.serial]) := by
  have hserials : ∀ other, serialAt (timers.release handle) other =
      if other = handle then none else serialAt timers other := by
    intro other
    rw [serialAt, HandleTable.get?_release, serialAt]
    split_ifs <;> rfl
  refine ⟨h.order.concat (by simp) (by simp) ?_, ?_, ?_, ?_, ?_, ?_⟩
  · intro serial heq
    obtain rfl := TimerNote.released.inj heq
    exact (h.stopped handle data hdata).mp hstopped
  · intro other found hfound
    rw [HandleTable.get?_release] at hfound
    split_ifs at hfound
    simpa using h.stopped other found hfound
  · intro serial hlt hnot
    rw [List.mem_append, not_or] at hnot
    obtain ⟨other, hother⟩ := h.kept serial hlt hnot.1
    refine ⟨other, ?_⟩
    rw [hserials, if_neg, hother]
    rintro rfl
    rw [serialAt_eq hdata] at hother
    exact hnot.2 (by rw [Option.some.inj hother]; exact List.mem_singleton_self _)
  · intro other serial hserial
    rw [hserials] at hserial
    split_ifs at hserial
    exact h.serial_lt other serial hserial
  · exact fun serial hmem => h.noted_lt serial (by simpa using hmem)
  · intro first second serial hfirst hsecond
    rw [hserials] at hfirst hsecond
    split_ifs at hfirst hsecond
    exact h.distinct first second serial hfirst hsecond

end Sound

/-! ## A pass -/

/-- The handles that a pass has collected are those of timers that were stopped. -/
def Collected (timers : HandleTable TimerData 16) (toRemove : List Handle) : Prop :=
  ∀ handle ∈ toRemove, ∃ data, timers.get? handle = some data ∧ data.timeout = 0

/-- What holds at every step. -/
structure Kept (s : TimerLooper π) : Prop where
  sound : Sound s.timers s.nextSerial s.notes
  collected : ∀ pass, s.pass = some pass → Collected s.timers pass.toRemove

/-- The end of a pass releases what was stopped; a handle that was released already is
nobody's. -/
theorem sound_releaseTimers (h : Sound s.timers s.nextSerial s.notes) {toRemove : List Handle}
    (hstopped : ∀ handle ∈ toRemove, ∀ data, s.timers.get? handle = some data →
      data.timeout = 0) :
    Sound (toRemove.foldl releaseTimer s).timers (toRemove.foldl releaseTimer s).nextSerial
      (toRemove.foldl releaseTimer s).notes := by
  induction toRemove generalizing s with
  | nil => exact h
  | cons handle toRemove ih =>
      rw [List.foldl_cons]
      have hrest : ∀ other ∈ toRemove, ∀ data, s.timers.get? other = some data →
          data.timeout = 0 := fun other hmem => hstopped other (List.mem_cons_of_mem _ hmem)
      cases hdata : s.timers.get? handle with
      | none =>
          rw [releaseTimer, hdata]
          exact ih h hrest
      | some data =>
          rw [releaseTimer, hdata]
          refine ih (h.release hdata (hstopped handle List.mem_cons_self data hdata)) ?_
          intro other hmem found hfound
          replace hfound : (s.timers.release handle).get? other = some found := hfound
          rw [HandleTable.get?_release] at hfound
          split_ifs at hfound
          exact hrest other hmem found hfound

theorem kept_visitTimers (h : Sound s.timers s.nextSerial s.notes) (now : ℤ)
    {handles toRemove : List Handle} (hcollected : Collected s.timers toRemove) :
    (visitTimers now handles toRemove s).Kept := by
  induction handles generalizing toRemove with
  | nil =>
      refine ⟨sound_releaseTimers h fun handle hmem data hdata => ?_, fun pass hpass => ?_⟩
      · obtain ⟨found, hfound, hstopped⟩ := hcollected handle hmem
        rw [← Option.some.inj (hfound.symm.trans hdata)]
        exact hstopped
      · cases hpass
  | cons handle handles ih =>
      rw [visitTimers]
      cases hdata : s.timers.get? handle with
      | none => exact ih hcollected
      | some data =>
          dsimp only
          split_ifs with hstopped hlater
          · refine ih fun other hmem => ?_
            rcases List.mem_append.mp hmem with hold | hnew
            · exact hcollected other hold
            · rw [List.mem_singleton.mp hnew]
              exact ⟨data, hdata, hstopped⟩
          · exact ih hcollected
          · refine ⟨h.called hdata hstopped, fun pass hpass => ?_⟩
            obtain rfl := Option.some.inj hpass
            exact hcollected

/-! ## Steps -/

theorem Kept.createTimer (h : s.Kept) (now timeout : ℤ) : (s.createTimer now timeout).1.Kept := by
  rw [TimerLooper.createTimer]
  by_cases hsmall : timeout < minPollTimeout
  · rw [if_pos hsmall]
    exact h
  · rw [if_neg hsmall]
    split
    · exact h
    · next handle timers hnew =>
        obtain ⟨hfree, hget⟩ := HandleTable.allocateNewWithHandle_eq_ok (by decide) hnew
        have htimeout : timeout ≠ 0 := by
          rintro rfl
          exact hsmall (by decide)
        refine ⟨h.sound.create htimeout hfree hget, fun pass hpass other hmem => ?_⟩
        obtain ⟨found, hfound, hstopped⟩ := h.collected pass hpass other hmem
        refine ⟨found, ?_, hstopped⟩
        show timers.get? other = some found
        rw [hget, if_neg, hfound]
        rintro rfl
        rw [hfree] at hfound
        cases hfound

theorem Kept.stopTimer (h : s.Kept) {handle : Handle}
    (hok : s.timers.has handle = true → s.io.handles.has handle = true) :
    (s.stopTimer handle).1.Kept := by
  rw [TimerLooper.stopTimer]
  cases hdata : s.timers.get? handle with
  | none =>
      have hserial : s.serialOf handle = none := by
        rw [serialOf, hdata]
        rfl
      split_ifs
      · exact ⟨h.sound.refuse, h.collected⟩
      · rw [hserial]
        exact ⟨h.sound.refuse, h.collected⟩
  | some data =>
      have hhas : s.timers.has handle = true := by
        rw [HandleTable.has, hdata]
        rfl
      rw [if_pos (hok hhas)]
      refine ⟨h.sound.stop hdata, fun pass hpass other hmem => ?_⟩
      obtain ⟨found, hfound, hstopped⟩ := h.collected pass hpass other hmem
      by_cases hother : other = handle
      · subst hother
        exact ⟨_, HandleTable.get?_modify_self _ _ hdata, rfl⟩
      · exact ⟨found, (HandleTable.get?_modify_of_ne _ _ hother).trans hfound, hstopped⟩

theorem Kept.beginPass (h : s.Kept) (now : ℤ) : (s.beginPass now).Kept := by
  rw [TimerLooper.beginPass]
  split
  · exact kept_visitTimers h.sound now fun handle hmem => absurd hmem List.not_mem_nil
  · exact h

theorem Kept.callbackReturns (h : s.Kept) : s.callbackReturns.Kept := by
  rw [TimerLooper.callbackReturns]
  split
  · exact h
  · next pass hpass =>
      refine kept_visitTimers (h.sound.modify pass.calling _) pass.now fun other hmem => ?_
      obtain ⟨found, hfound, hstopped⟩ := h.collected pass hpass other hmem
      show ∃ data, (s.timers.modify pass.calling _).get? other = some data ∧ data.timeout = 0
      by_cases hother : other = pass.calling
      · subst hother
        exact ⟨_, HandleTable.get?_modify_self _ _ hfound, hstopped⟩
      · exact ⟨found, (HandleTable.get?_modify_of_ne _ _ hother).trans hfound, hstopped⟩

theorem kept_new (descriptors : Resource → Descriptor) (poller : π) (signal : Resource) :
    (new descriptors poller signal).Kept :=
  ⟨sound_new, fun pass hpass => by cases hpass⟩

theorem Kept.step (P : Poller π) (s : TimerLooper π) (input : TimerInput) (h : s.Kept)
    (hok : s.StopsBesideIo input) : (s.step P input).Kept := by
  cases input with
  | createTimer now timeout => exact h.createTimer now timeout
  | stopTimer handle => exact h.stopTimer hok
  | io input => exact ⟨h.sound, h.collected⟩
  | beginPass now => exact h.beginPass now
  | callbackReturns => exact h.callbackReturns

/-- A stop of a timer beside which there is no io resource throws. -/
theorem not_stopsWork (P : Poller π) (s : TimerLooper π) (input : TimerInput)
    (hbad : ¬ s.StopsBesideIo input) : ¬ (s.step P input).StopsWork := by
  cases input with
  | stopTimer handle =>
      obtain ⟨hhas, hio⟩ := Classical.not_imp.mp hbad
      obtain ⟨data, hdata⟩ := Option.isSome_iff_exists.mp hhas
      intro hworks
      refine hworks.refused data.serial ?_
      show _ ∈ (s.stopTimer handle).1.notes
      rw [stopTimer, if_neg hio, serialOf, hdata]
      exact List.mem_append_right _ (List.mem_singleton_self _)
  | _ => exact absurd trivial hbad

/-- In every state of a run stops have worked exactly if each timer was stopped while there
was an io resource with the same handle. -/
theorem stopsWork_iff (P : Poller π) (descriptors : Resource → Descriptor) (poller : π)
    (signal : Resource) (inputs : List TimerInput) :
    HoldsThroughout (step P) StopsWork (new descriptors poller signal) inputs ↔
      StepsMeet (step P) StopsBesideIo (new descriptors poller signal) inputs :=
  holdsThroughout_iff_stepsMeet (I := Kept) (Kept.step P) (fun _ h => h.sound.stopsWork)
    (fun s input _ hbad => not_stopsWork P s input hbad) (kept_new descriptors poller signal)
    inputs

/-- Two timers beside the signal, which is the only io resource; the second one is
stopped. -/
theorem not_stopsWork_second :
    ¬ HoldsThroughout (step resourcePoller) StopsWork
      (new (fun resource => resource) (fun _ => none) 0)
      [.createTimer 0 200, .createTimer 0 200, .stopTimer 1] := by
  intro hall
  refine hall.last.refused 1 ?_
  decide +kernel

end TimerLooper

end Obsr.Events
