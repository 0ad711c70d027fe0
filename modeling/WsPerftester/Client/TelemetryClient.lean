import WsPerftester.Lib.TransitionSystem
import WsPerftester.Messages.Statistics

/-! # The telemetry client

`base_client` of `base-client.hpp`, with what `mobile_signaling_client` overrides, as a transition
system. The telemetry thread runs `telemetry_loop`, the network thread the handlers; a step is one
critical section, or one statement outside the critical sections that touches a shared member, and
the steps of the two threads interleave freely. The environment decides when the handlers run, what
the clock shows, whether a send fails, and when the server's echo of an accepted message arrives.

`m_finite_messages` is constantly `true`. The random pauses, the random payload and the log are not
part of the model: nothing the client reports depends on them. -/

namespace WsPerftester

/-- What has become of one call of `send_message`. -/
inductive Fate
  /-- It returned an error. -/
  | refused
  /-- The message was accepted and its echo has not arrived. -/
  | outstanding
  /-- `on_message` has been called for its echo, at this time. -/
  | echoed (received : Int)
  /-- Its echo arrived after the client had started closing, and no handler was called. -/
  | discarded
  deriving DecidableEq, Repr

/-- One call of `send_message`, with the `m_start` recorded for it. -/
structure Send where
  start : Int
  fate : Fate
  deriving DecidableEq, Repr

/-- `duration_cast<microseconds>` of a duration in nanoseconds. -/
def microseconds (d : Int) : Int := d.tdiv 1000

namespace Send

/-- Whether the message was accepted without error. -/
def Accepted (s : Send) : Prop := s.fate ≠ .refused

/-- Whether the echo is still to come. -/
def Outstanding (s : Send) : Prop := s.fate = .outstanding

/-- Whether the echo has been received. -/
def Echoed (s : Send) : Prop := ∃ received, s.fate = .echoed received

instance (s : Send) : Decidable s.Accepted := inferInstanceAs (Decidable (_ ≠ _))

instance (s : Send) : Decidable s.Outstanding := inferInstanceAs (Decidable (_ = _))

/-- The latency that belongs to a message: from its own start to the receipt of its own echo. -/
def latency (s : Send) : Option Int :=
  match s.fate with
  | .echoed received => some (microseconds (received - s.start))
  | _ => none

/-- A message has a latency exactly when it has been echoed. -/
theorem echoed_iff (s : Send) : s.Echoed ↔ s.latency.isSome = true := by
  obtain ⟨start, fate⟩ := s
  cases fate <;> simp [Echoed, latency]

instance (s : Send) : Decidable s.Echoed := decidable_of_iff _ (echoed_iff s).symm

/-- An echo that has been received is not still to come. -/
theorem Echoed.not_outstanding {s : Send} (h : s.Echoed) : ¬ s.Outstanding := by
  obtain ⟨received, hfate⟩ := h
  simp [Outstanding, hfate]

/-- An echoed message was accepted. -/
theorem Echoed.accepted {s : Send} (h : s.Echoed) : s.Accepted := by
  obtain ⟨received, hfate⟩ := h
  simp [Accepted, hfate]

end Send

/-- The two classes that run `telemetry_loop`. -/
inductive Client.Kind
  /-- `base_client`, with either `telemetry_client`. -/
  | base
  /-- `mobile_signaling_client`. -/
  | mobile
  deriving DecidableEq, Repr

/-- What the telemetry thread executes next. -/
inductive Client.Loc
  /-- The test of the `while`. -/
  | loopHead
  /-- The pause, and the critical section that tests the state of the connection. -/
  | awake
  /-- `sleep(1); continue`. -/
  | retry
  /-- `m_count++`. -/
  | counting
  /-- The critical section that sends. -/
  | sending
  /-- `m_message_pending = false` after a send error. -/
  | sendFailed
  /-- `if (m_count == m_total_messages)` behind the loop. -/
  | left
  /-- `sleep(10)` and `close`. -/
  | closing
  /-- `sleep(1)` and `fail`. -/
  | failing
  /-- `telemetry_loop` has returned. -/
  | finished
  /-- An exception has terminated the whole process. -/
  | terminated
  deriving DecidableEq, Repr

/-- A client. `closeStarted` and `sends` belong to the network: whether the client has called
`close`, and every call of `send_message` in order. -/
structure Client where
  loc : Client.Loc := .loopHead
  mOpen : Bool := false
  mDone : Bool := false
  mFailed : Bool := false
  mMessagePending : Bool := false
  mCount : Nat := 0
  mStart : Int := 0
  mConStart : Int
  /-- In microseconds; `none` until it is assigned. -/
  mSetupTime : Option Int := none
  /-- The values fed to the accumulator, in microseconds. -/
  mStats : List Int := []
  closeStarted : Bool := false
  sends : List Send := []
  deriving DecidableEq, Repr

/-- The steps of the two threads, with what the environment decides about each. -/
inductive Client.Act
  /-- The telemetry thread executes its next statement, other than a send or a close. -/
  | proceed
  /-- It sends, at time `now`; the flags tell which of the two channels reports an error. -/
  | send (now : Int) (primaryError signalingError : Bool)
  /-- It closes; `refused` if the connection is not in a state to be closed. -/
  | close (refused : Bool)
  | onOpen (now : Int)
  | onClose
  /-- A connection failed; `primaryGone` if the primary one has no state or is closed or closing. -/
  | onFail (primaryGone : Bool)
  /-- The echo of the message of call `k` is delivered at time `now`. -/
  | onMessage (k : Nat) (now : Int)
  /-- The echo of the message of call `k` arrives at a connection that is being closed. -/
  | discard (k : Nat)
  deriving DecidableEq, Repr

namespace Client

/-! ## The members of the classes -/

/-- The client at another statement. -/
def goto (c : Client) (loc : Loc) : Client := { c with loc := loc }

/-- `on_open`. -/
def onOpen (now : Int) (c : Client) : Client :=
  { c with mSetupTime := some (microseconds (now - c.mConStart)), mOpen := true }

/-- `on_close`; the close handlers of the mobile client only write to the log. -/
def onClose (kind : Kind) (c : Client) : Client :=
  match kind with
  | .base => { c with mDone := true }
  | .mobile => c

/-- `base_client::on_fail`. -/
def baseOnFail (c : Client) : Client := { c with mFailed := true, mDone := true }

/-- `on_fail`; the mobile client ignores a failure while its primary connection lives. -/
def onFail (kind : Kind) (primaryGone : Bool) (c : Client) : Client :=
  match kind with
  | .base => c.baseOnFail
  | .mobile => if primaryGone then c.baseOnFail else c

/-- `on_message`. -/
def onMessage (now : Int) (c : Client) : Client :=
  { c with mMessagePending := false, mStats := c.mStats ++ [microseconds (now - c.mStart)] }

/-- Whether `send_message` returns an error: the mobile client tries the signaling connection when
the primary one reports an error. -/
def sendMessage (kind : Kind) (primaryError signalingError : Bool) : Bool :=
  match kind with
  | .base => primaryError
  | .mobile => if primaryError then signalingError else false

/-- `close`: without an `error_code` a refused close throws, which no one in this thread catches. -/
def close (kind : Kind) (refused : Bool) (c : Client) : Client :=
  match kind, refused with
  | .base, true => c.goto .terminated
  | _, _ => { c with loc := .finished, closeStarted := true }

/-- `fail`: the base client only prints, the mobile client closes. -/
def fail (kind : Kind) (c : Client) : Client :=
  match kind with
  | .base => c.goto .finished
  | .mobile => c.close .mobile false

/-- The critical section that sends. -/
def send (kind : Kind) (now : Int) (primaryError signalingError : Bool) (c : Client) : Client :=
  let ec := sendMessage kind primaryError signalingError
  { c with
    loc := if ec then .sendFailed else .loopHead
    mMessagePending := true
    mStart := now
    sends := c.sends ++ [⟨now, if ec then .refused else .outstanding⟩] }

/-- The statements of `telemetry_loop` that neither send nor close. -/
def proceed (kind : Kind) (total : Int) (c : Client) : Option Client :=
  match c.loc with
  | .loopHead => some (c.goto (if (c.mCount : Int) < total then .awake else .left))
  | .awake =>
      -- both tests are made under one lock, after the pause
      if c.mDone then some (c.goto .left)
      else if !c.mOpen || c.mMessagePending then some (c.goto .retry)
      else some (c.goto .counting)
  | .retry => some (c.goto .loopHead)
  | .counting => some { c with loc := .sending, mCount := c.mCount + 1 }
  -- outside the lock, and without leaving the loop: the `break` is commented out
  | .sendFailed => some { c with loc := .loopHead, mMessagePending := false }
  | .left => some (c.goto (if (c.mCount : Int) = total then .closing else .failing))
  | .failing => some (c.fail kind)
  -- a send and a close need a decision of the environment
  | .sending | .closing | .finished | .terminated => none

/-- The echo of call `k` is no longer to come. -/
def settle (k : Nat) (fate : Fate) (c : Client) : Client :=
  { c with sends := c.sends.modify k fun s => { s with fate := fate } }

/-- Whether the echo of call `k` is still to come. -/
def Awaits (c : Client) (k : Nat) : Prop := ∃ s ∈ c.sends[k]?, s.Outstanding

instance (c : Client) (k : Nat) : Decidable (c.Awaits k) :=
  inferInstanceAs (Decidable (∃ s ∈ _, _))

/-! ## The transition system -/

/-- One step of one of the threads, or of the network. -/
def step (kind : Kind) (total : Int) (c : Client) : Act → Option Client
  | .proceed => c.proceed kind total
  | .send now primaryError signalingError =>
      if c.loc = .sending then some (c.send kind now primaryError signalingError) else none
  | .close refused => if c.loc = .closing then some (c.close kind refused) else none
  | .onOpen now => if c.loc = .terminated then none else some (c.onOpen now)
  | .onClose => if c.loc = .terminated then none else some (c.onClose kind)
  | .onFail primaryGone => if c.loc = .terminated then none else some (c.onFail kind primaryGone)
  -- the handler is not told which message the echo belongs to
  | .onMessage k now =>
      if c.Awaits k ∧ c.loc ≠ .terminated then some ((c.onMessage now).settle k (.echoed now))
      else none
  | .discard k =>
      if c.Awaits k ∧ c.closeStarted = true then some (c.settle k .discarded) else none

/-- **The client.** `total` is `m_total_messages`, and `conStart` what `m_con_start` holds when the
threads are started. -/
def telemetry (kind : Kind) (total conStart : Int) : TransitionSystem Client Act where
  init := { mConStart := conStart }
  step := step kind total

/-! ## What a step can do -/

/-- The moves of the telemetry thread that only change the place. -/
inductive Flow (total : Int) (c : Client) : Loc → Prop
  | enter (hloc : c.loc = .loopHead) (h : (c.mCount : Int) < total) : Flow total c .awake
  | exhausted (hloc : c.loc = .loopHead) (h : ¬ (c.mCount : Int) < total) : Flow total c .left
  | stopped (hloc : c.loc = .awake) (h : c.mDone = true) : Flow total c .left
  | blocked (hloc : c.loc = .awake) (h : c.mOpen = false ∨ c.mMessagePending = true)
      (hdone : c.mDone = false) : Flow total c .retry
  | ready (hloc : c.loc = .awake) (hdone : c.mDone = false) (hopen : c.mOpen = true)
      (hidle : c.mMessagePending = false) : Flow total c .counting
  | again (hloc : c.loc = .retry) : Flow total c .loopHead
  | complete (hloc : c.loc = .left) (h : (c.mCount : Int) = total) : Flow total c .closing
  | giveUp (hloc : c.loc = .left) (h : (c.mCount : Int) ≠ total) : Flow total c .failing

/-- Everything that can happen to a client in one step. -/
inductive Moves (kind : Kind) (total : Int) (c : Client) : Act → Client → Prop
  | flow {loc : Loc} (h : Flow total c loc) : Moves kind total c .proceed (c.goto loc)
  | count (hloc : c.loc = .counting) :
      Moves kind total c .proceed { c with loc := .sending, mCount := c.mCount + 1 }
  | reset (hloc : c.loc = .sendFailed) :
      Moves kind total c .proceed { c with loc := .loopHead, mMessagePending := false }
  | fail (hloc : c.loc = .failing) : Moves kind total c .proceed (c.fail kind)
  | send {now : Int} {primaryError signalingError : Bool} (hloc : c.loc = .sending) :
      Moves kind total c (.send now primaryError signalingError)
        (c.send kind now primaryError signalingError)
  | close {refused : Bool} (hloc : c.loc = .closing) :
      Moves kind total c (.close refused) (c.close kind refused)
  | onOpen {now : Int} : Moves kind total c (.onOpen now) (c.onOpen now)
  | onClose : Moves kind total c .onClose (c.onClose kind)
  | onFail {primaryGone : Bool} :
      Moves kind total c (.onFail primaryGone) (c.onFail kind primaryGone)
  | onMessage {k : Nat} {now : Int} (h : c.Awaits k) :
      Moves kind total c (.onMessage k now) ((c.onMessage now).settle k (.echoed now))
  | discard {k : Nat} (h : c.Awaits k) (hclosing : c.closeStarted = true) :
      Moves kind total c (.discard k) (c.settle k .discarded)

/-- The deterministic statements move as `Moves` says. -/
theorem moves_of_proceed {kind : Kind} {total : Int} {c c' : Client}
    (h : c.proceed kind total = some c') : Moves kind total c .proceed c' := by
  unfold proceed at h
  split at h
  · next hloc =>
      cases h
      split
      · next hlt => exact .flow (.enter hloc hlt)
      · next hlt => exact .flow (.exhausted hloc hlt)
  · next hloc =>
      split at h
      · next hdone => cases h; exact .flow (.stopped hloc hdone)
      · next hdone =>
          split at h
          · next hblocked =>
              cases h
              exact .flow (.blocked hloc (by simpa using hblocked) (by simpa using hdone))
          · next hblocked =>
              cases h
              obtain ⟨hopen, hidle⟩ : c.mOpen = true ∧ c.mMessagePending = false := by
                simpa using hblocked
              exact .flow (.ready hloc (by simpa using hdone) hopen hidle)
  · next hloc => cases h; exact .flow (.again hloc)
  · next hloc => cases h; exact .count hloc
  · next hloc => cases h; exact .reset hloc
  · next hloc =>
      cases h
      split
      · next heq => exact .flow (.complete hloc heq)
      · next hne => exact .flow (.giveUp hloc hne)
  · next hloc => cases h; exact .fail hloc
  all_goals cases h

/-- **Inversion of `step`.** A step is one of the moves. -/
theorem moves_of_step {kind : Kind} {total : Int} {c c' : Client} {a : Act}
    (h : step kind total c a = some c') : Moves kind total c a c' := by
  cases a with
  | proceed => exact moves_of_proceed h
  | send now primaryError signalingError =>
      obtain ⟨hloc, h⟩ := Option.ite_none_right_eq_some.mp h
      cases h
      exact .send hloc
  | close refused =>
      obtain ⟨hloc, h⟩ := Option.ite_none_right_eq_some.mp h
      cases h
      exact .close hloc
  | onOpen now =>
      obtain ⟨-, h⟩ := Option.ite_none_left_eq_some.mp h
      cases h
      exact .onOpen
  | onClose =>
      obtain ⟨-, h⟩ := Option.ite_none_left_eq_some.mp h
      cases h
      exact .onClose
  | onFail primaryGone =>
      obtain ⟨-, h⟩ := Option.ite_none_left_eq_some.mp h
      cases h
      exact .onFail
  | onMessage k now =>
      obtain ⟨⟨hawaits, -⟩, h⟩ := Option.ite_none_right_eq_some.mp h
      cases h
      exact .onMessage hawaits
  | discard k =>
      obtain ⟨⟨hawaits, hclosing⟩, h⟩ := Option.ite_none_right_eq_some.mp h
      cases h
      exact .discard hawaits hclosing

/-- A step of the telemetry thread. -/
def Act.isThread : Act → Bool
  | .proceed | .send _ _ _ | .close _ => true
  | _ => false

/-- Only the telemetry thread touches its place and `m_count`. -/
theorem place_moves {kind : Kind} {total : Int} {c c' : Client} {a : Act}
    (hmove : Moves kind total c a c') (ha : a.isThread = false) :
    c'.loc = c.loc ∧ c'.mCount = c.mCount := by
  cases hmove with
  | flow _ | count _ | reset _ | fail _ | send _ | close _ => cases ha
  | onOpen | onMessage _ | discard _ _ => exact ⟨rfl, rfl⟩
  | onClose => cases kind <;> exact ⟨rfl, rfl⟩
  | @onFail primaryGone => cases kind <;> cases primaryGone <;> exact ⟨rfl, rfl⟩

/-- Only `on_open` opens the client. -/
theorem mOpen_moves {kind : Kind} {total : Int} {c c' : Client} {a : Act}
    (hmove : Moves kind total c a c') (ha : ∀ now, a ≠ .onOpen now) : c'.mOpen = c.mOpen := by
  cases hmove with
  | flow _ | count _ | reset _ | send _ | onMessage _ | discard _ _ => rfl
  | fail _ => cases kind <;> rfl
  | @close refused _ => cases kind <;> cases refused <;> rfl
  | onOpen => exact absurd rfl (ha _)
  | onClose => cases kind <;> rfl
  | @onFail primaryGone => cases kind <;> cases primaryGone <;> rfl

/-- A client that has been opened stays so. -/
theorem mOpen_mono {kind : Kind} {total : Int} {c c' : Client} {a : Act}
    (hmove : Moves kind total c a c') (hopen : c.mOpen = true) : c'.mOpen = true := by
  by_cases ha : ∃ now, a = .onOpen now
  · obtain ⟨now, rfl⟩ := ha
    cases hmove
    rfl
  · rw [mOpen_moves hmove fun now h => ha ⟨now, h⟩, hopen]

/-- Only the close handler and the fail handler touch the stop flag. -/
theorem mDone_moves {kind : Kind} {total : Int} {c c' : Client} {a : Act}
    (hmove : Moves kind total c a c') (hclose : a ≠ .onClose)
    (hfail : ∀ primaryGone, a ≠ .onFail primaryGone) : c'.mDone = c.mDone := by
  cases hmove with
  | flow _ | count _ | reset _ | send _ | onOpen | onMessage _ | discard _ _ => rfl
  | fail _ => cases kind <;> rfl
  | @close refused _ => cases kind <;> cases refused <;> rfl
  | onClose => exact absurd rfl hclose
  | onFail => exact absurd rfl (hfail _)

/-- The stop flag stays up. -/
theorem mDone_mono {kind : Kind} {total : Int} {c c' : Client} {a : Act}
    (hmove : Moves kind total c a c') (hdone : c.mDone = true) : c'.mDone = true := by
  by_cases hclose : a = .onClose
  · subst hclose
    cases hmove
    cases kind
    · rfl
    · exact hdone
  · by_cases hfail : ∃ primaryGone, a = .onFail primaryGone
    · obtain ⟨primaryGone, rfl⟩ := hfail
      cases hmove
      cases kind
      · rfl
      · cases primaryGone
        · exact hdone
        · rfl
    · rw [mDone_moves hmove hclose fun primaryGone h => hfail ⟨primaryGone, h⟩, hdone]

/-- What the moves preserve holds in every reachable state. -/
theorem reachable_induction {kind : Kind} {total conStart : Int} {P : Client → Prop}
    (hinit : P { mConStart := conStart })
    (hmoves : ∀ c a c', P c → Moves kind total c a c' → P c') {c : Client}
    (hc : (telemetry kind total conStart).Reachable c) : P c :=
  hc.invariant hinit fun c a c' hP h => hmoves c a c' hP (moves_of_step h)

end Client

end WsPerftester
