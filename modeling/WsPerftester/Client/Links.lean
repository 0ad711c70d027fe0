import WsPerftester.Client.SendDiscipline

/-! # A client and its connections

`telemetry` lets the handlers of a client run in any order. Here they run as the connections of the
client call for them: `base_client` has one connection, `mobile_signaling_client` a primary one and
a signaling one that is started when the primary one opens. A connection that ends first changes its
state and calls its handler later, so the handler of the other one may run in between; afterwards
its object may be released. Every run of the client among its connections is a run of `telemetry`
(`Links.reachable_client`). -/

namespace WsPerftester

/-- The connections of a client; `base_client` has the primary one only. -/
inductive Which
  | primary
  | signaling
  deriving DecidableEq, Repr

/-- The session state of a connection. -/
inductive Link.Phase
  /-- The connection has not been created. -/
  | absent
  | connecting
  | opened
  /-- The closing handshake has begun. -/
  | closing
  | closed
  /-- It was never open; `get_state` returns `closed` for it. -/
  | failed
  deriving DecidableEq, Repr

/-- A connection. -/
structure Link where
  phase : Link.Phase := .absent
  /-- Whether its close handler or its fail handler has run. -/
  handled : Bool := false
  /-- Whether its object has been released, so that its handle has expired. -/
  released : Bool := false
  deriving DecidableEq, Repr

namespace Link

/-- `state == closed || state == closing`. -/
def Gone (l : Link) : Prop := l.phase = .closing ∨ l.phase = .closed ∨ l.phase = .failed

instance (l : Link) : Decidable l.Gone := inferInstanceAs (Decidable (_ ∨ _))

/-- The connection is neither connecting nor open, and all its handlers have run. -/
def Settled (l : Link) : Prop :=
  l.phase = .absent ∨ (l.phase = .closed ∨ l.phase = .failed) ∧ l.handled = true

instance (l : Link) : Decidable l.Settled := inferInstanceAs (Decidable (_ ∨ _))

end Link

/-- A client and its connections. -/
structure Links where
  client : Client
  primary : Link := { phase := .connecting }
  signaling : Link := {}
  /-- A handler has dereferenced a null pointer. -/
  crashed : Bool := false
  deriving DecidableEq, Repr

/-- What happens to a client and its connections. -/
inductive Links.Act
  /-- A step of the telemetry thread, or an echo. -/
  | thread (a : Client.Act)
  /-- A connection is established, and its open handler runs. The signaling connection that the
  primary one starts is not created if `get_connection` reports an error. -/
  | opens (which : Which) (now : Int) (signalingError : Bool)
  /-- One side begins to close a connection. -/
  | beginsClose (which : Which)
  /-- An open connection is closed. -/
  | closes (which : Which)
  /-- A connection cannot be established. -/
  | fails (which : Which)
  /-- The close handler or the fail handler of a connection runs. -/
  | handles (which : Which)
  /-- The object of a connection is released. -/
  | releases (which : Which)
  deriving DecidableEq, Repr

/-- The handlers of connection events, which `Links` runs itself. -/
def Client.Act.isEvent : Client.Act → Bool
  | .onOpen _ | .onClose | .onFail _ => true
  | _ => false

namespace Links

/-- A connection. -/
def link (s : Links) : Which → Link
  | .primary => s.primary
  | .signaling => s.signaling

/-- The client with another state of a connection. -/
def setLink (s : Links) (l : Link) : Which → Links
  | .primary => { s with primary := l }
  | .signaling => { s with signaling := l }

/-- The open handlers: `on_open`, and for the primary connection of a mobile client
`on_open_primary`, which calls `on_open` and `connect_signaling`. -/
def runOpen (kind : Client.Kind) (now : Int) (signalingError : Bool) (which : Which) (s : Links) :
    Links :=
  match kind, which with
  | .mobile, .primary =>
      { s with
        client := s.client.onOpen now
        signaling := if signalingError then s.signaling else { phase := .connecting } }
  | _, _ => { s with client := s.client.onOpen now }

/-- The fail handlers. The mobile one looks up the primary connection and asks for its state before
it looks at the error code of the look-up. -/
def runFail (kind : Client.Kind) (s : Links) : Links :=
  match kind with
  | .base => { s with client := s.client.onFail .base true }
  | .mobile =>
      if s.primary.released then { s with crashed := true }
      else { s with client := s.client.onFail .mobile (decide s.primary.Gone) }

/-- One step, of a process that is still alive. -/
def step (kind : Client.Kind) (total : Int) (s : Links) (a : Act) : Option Links :=
  if s.crashed || s.client.loc = .terminated then none
  else match a with
    | .thread a =>
        if a.isEvent then none
        else (Client.step kind total s.client a).map fun c => { s with client := c }
    | .opens which now signalingError =>
        if (s.link which).phase = .connecting then
          some ((s.setLink { s.link which with phase := .opened } which).runOpen kind now
            signalingError which)
        else none
    | .beginsClose which =>
        if (s.link which).phase = .opened then
          some (s.setLink { s.link which with phase := .closing } which)
        else none
    | .closes which =>
        if (s.link which).phase = .opened ∨ (s.link which).phase = .closing then
          some (s.setLink { s.link which with phase := .closed } which)
        else none
    | .fails which =>
        if (s.link which).phase = .connecting then
          some (s.setLink { s.link which with phase := .failed } which)
        else none
    | .handles which =>
        let l := s.link which
        let handled := s.setLink { l with handled := true } which
        if l.handled then none
        else if l.phase = .closed then some { handled with client := s.client.onClose kind }
        else if l.phase = .failed then some (handled.runFail kind)
        else none
    | .releases which =>
        if (s.link which).handled then
          some (s.setLink { s.link which with released := true } which)
        else none

/-- **The client among its connections.** -/
def system (kind : Client.Kind) (total conStart : Int) : TransitionSystem Links Act where
  init := { client := { mConStart := conStart } }
  step := step kind total

/-! ## What a step can do -/

/-- Whether the process is still alive. -/
def Alive (s : Links) : Prop := s.crashed = false ∧ s.client.loc ≠ .terminated

/-- Everything that can happen in one step. -/
inductive Moves (kind : Client.Kind) (total : Int) (s : Links) : Act → Links → Prop
  | thread {a : Client.Act} {c : Client} (ha : a.isEvent = false)
      (h : Client.step kind total s.client a = some c) :
      Moves kind total s (.thread a) { s with client := c }
  | opens {which : Which} {now : Int} {signalingError : Bool}
      (h : (s.link which).phase = .connecting) :
      Moves kind total s (.opens which now signalingError)
        ((s.setLink { s.link which with phase := .opened } which).runOpen kind now signalingError
          which)
  | beginsClose {which : Which} (h : (s.link which).phase = .opened) :
      Moves kind total s (.beginsClose which)
        (s.setLink { s.link which with phase := .closing } which)
  | closes {which : Which} (h : (s.link which).phase = .opened ∨ (s.link which).phase = .closing) :
      Moves kind total s (.closes which) (s.setLink { s.link which with phase := .closed } which)
  | fails {which : Which} (h : (s.link which).phase = .connecting) :
      Moves kind total s (.fails which) (s.setLink { s.link which with phase := .failed } which)
  | closeHandled {which : Which} (hfirst : (s.link which).handled = false)
      (h : (s.link which).phase = .closed) :
      Moves kind total s (.handles which)
        { s.setLink { s.link which with handled := true } which with
          client := s.client.onClose kind }
  | failHandled {which : Which} (hfirst : (s.link which).handled = false)
      (h : (s.link which).phase = .failed) :
      Moves kind total s (.handles which)
        ((s.setLink { s.link which with handled := true } which).runFail kind)
  | releases {which : Which} (h : (s.link which).handled = true) :
      Moves kind total s (.releases which)
        (s.setLink { s.link which with released := true } which)

/-- **Inversion of `step`.** A step is one of the moves of a living process. -/
theorem moves_of_step {kind : Client.Kind} {total : Int} {s s' : Links} {a : Act}
    (h : step kind total s a = some s') : s.Alive ∧ Moves kind total s a s' := by
  obtain ⟨halive, h⟩ := Option.ite_none_left_eq_some.mp h
  refine ⟨by simpa [Alive] using halive, ?_⟩
  cases a with
  | thread a =>
      obtain ⟨hevent, h⟩ := Option.ite_none_left_eq_some.mp h
      obtain ⟨c, hc, rfl⟩ := Option.map_eq_some_iff.mp h
      exact .thread (by simpa using hevent) hc
  | opens which now signalingError =>
      obtain ⟨hphase, h⟩ := Option.ite_none_right_eq_some.mp h
      cases h
      exact .opens hphase
  | beginsClose which =>
      obtain ⟨hphase, h⟩ := Option.ite_none_right_eq_some.mp h
      cases h
      exact .beginsClose hphase
  | closes which =>
      obtain ⟨hphase, h⟩ := Option.ite_none_right_eq_some.mp h
      cases h
      exact .closes hphase
  | fails which =>
      obtain ⟨hphase, h⟩ := Option.ite_none_right_eq_some.mp h
      cases h
      exact .fails hphase
  | handles which =>
      obtain ⟨hfirst, h⟩ := Option.ite_none_left_eq_some.mp h
      have hfirst : (s.link which).handled = false := by simpa using hfirst
      by_cases hclosed : (s.link which).phase = .closed
      · rw [if_pos hclosed] at h
        cases h
        exact .closeHandled hfirst hclosed
      · rw [if_neg hclosed] at h
        obtain ⟨hfailed, h⟩ := Option.ite_none_right_eq_some.mp h
        cases h
        exact .failHandled hfirst hfailed
  | releases which =>
      obtain ⟨hhandled, h⟩ := Option.ite_none_right_eq_some.mp h
      cases h
      exact .releases hhandled

section SetLink

variable (s : Links) (l : Link) (which : Which)

@[simp] theorem client_setLink : (s.setLink l which).client = s.client := by cases which <;> rfl

end SetLink

/-- The open handlers call `on_open`. -/
@[simp] theorem client_runOpen (kind : Client.Kind) (now : Int) (signalingError : Bool)
    (which : Which) (s : Links) :
    (s.runOpen kind now signalingError which).client = s.client.onOpen now := by
  cases kind <;> cases which <;> rfl

/-- The fail handlers call `on_fail`, unless they crash. -/
theorem client_runFail (kind : Client.Kind) (s : Links) :
    (s.runFail kind).client = s.client ∨
      ∃ primaryGone, (s.runFail kind).client = s.client.onFail kind primaryGone := by
  cases kind with
  | base => exact .inr ⟨true, rfl⟩
  | mobile =>
      by_cases hreleased : s.primary.released = true
      · left
        rw [runFail, if_pos hreleased]
      · right
        exact ⟨decide s.primary.Gone, by rw [runFail, if_neg hreleased]⟩

/-- **Connections only order the handlers.** The client among its connections goes through a run of
`telemetry`. -/
theorem reachable_client {kind : Client.Kind} {total conStart : Int} {s : Links}
    (hs : (system kind total conStart).Reachable s) :
    (Client.telemetry kind total conStart).Reachable s.client := by
  refine hs.invariant (P := fun s => (Client.telemetry kind total conStart).Reachable s.client)
    .init fun s a s' hc hstep => ?_
  obtain ⟨⟨-, halive⟩, hmove⟩ := moves_of_step hstep
  cases hmove with
  | thread _ h => exact hc.step h
  | @opens _ now _ _ =>
      rw [client_runOpen, client_setLink]
      refine .step (a := .onOpen now) hc ?_
      simp [Client.telemetry, Client.step, halive]
  | beginsClose | closes | fails | releases => rwa [client_setLink]
  | closeHandled =>
      refine .step (a := .onClose) hc ?_
      simp [Client.telemetry, Client.step, halive]
  | failHandled =>
      rcases client_runFail kind (s.setLink { s.link _ with handled := true } _) with
        hsame | ⟨primaryGone, hfail⟩
      · rwa [hsame, client_setLink]
      · rw [hfail, client_setLink]
        refine .step (a := .onFail primaryGone) hc ?_
        simp [Client.telemetry, Client.step, halive]

/-! ## The stop flag -/

/-- Neither a step of the telemetry thread nor an echo touches the stop flag. -/
theorem mDone_of_thread {kind : Client.Kind} {total : Int} {c c' : Client} {a : Client.Act}
    (ha : a.isEvent = false) (h : Client.step kind total c a = some c') : c'.mDone = c.mDone := by
  refine Client.mDone_moves (Client.moves_of_step h) ?_ fun primaryGone => ?_
  · rintro rfl
    cases ha
  · rintro rfl
    cases ha

/-- No connection of the client is connecting or open, and all their handlers have run. -/
def Quiescent (s : Links) : Prop := s.crashed = false ∧ s.primary.Settled ∧ s.signaling.Settled

instance (s : Links) : Decidable s.Quiescent := inferInstanceAs (Decidable (_ ∧ _))

/-- A fail handler runs and finds the primary connection closing, closed or failed. -/
def FindsPrimaryGone (s : Links) (a : Act) : Prop :=
  ∃ which, a = .handles which ∧ (s.link which).phase = .failed ∧ s.primary.Gone ∧
    s.primary.released = false

/-- The primary connection of a base client has been created, and once it has ended the flag is
up. -/
structure BaseInv (s : Links) : Prop where
  created : s.primary.phase ≠ .absent
  told : s.primary.handled = true → s.client.mDone = true

/-- A move that keeps the flag and does not handle the end of the primary connection keeps the
invariant. -/
theorem BaseInv.of_eq {s s' : Links} (h : BaseInv s) (hphase : s'.primary.phase ≠ .absent)
    (hhandled : s'.primary.handled = s.primary.handled)
    (hdone : s'.client.mDone = s.client.mDone) : BaseInv s' where
  created := hphase
  told ht := by rw [hdone]; exact h.told (hhandled ▸ ht)

/-- Every move of a base client keeps the invariant. -/
theorem BaseInv.moves {total : Int} {s s' : Links} {a : Act} (h : BaseInv s)
    (hmove : Moves .base total s a s') : BaseInv s' := by
  cases hmove with
  | thread ha hstep => exact h.of_eq h.created rfl (mDone_of_thread ha hstep)
  | @opens which =>
      cases which with
      | primary => exact h.of_eq (by simp [runOpen, setLink]) rfl rfl
      | signaling => exact h.of_eq h.created rfl rfl
  | @beginsClose which | @closes which | @fails which =>
      cases which with
      | primary => exact h.of_eq (by simp [setLink]) rfl rfl
      | signaling => exact h.of_eq h.created rfl rfl
  | @releases which =>
      cases which with
      | primary => exact h.of_eq h.created rfl rfl
      | signaling => exact h.of_eq h.created rfl rfl
  | @closeHandled which | @failHandled which =>
      -- both handlers of the base client raise the flag
      cases which with
      | primary => exact ⟨h.created, fun _ => rfl⟩
      | signaling => exact ⟨h.created, fun _ => rfl⟩

/-- A base client with no connection left has been told to stop. -/
theorem told_of_base {total conStart : Int} {s : Links}
    (hs : (system .base total conStart).Reachable s) (hquiet : s.Quiescent) :
    s.client.mDone = true := by
  have hinv : BaseInv s := by
    refine hs.invariant (P := BaseInv) ?_ fun s a s' h hstep => h.moves (moves_of_step hstep).2
    exact ⟨by simp [system], by simp [system]⟩
  rcases hquiet.2.1 with habsent | ⟨-, hhandled⟩
  · exact absurd habsent hinv.created
  · exact hinv.told hhandled

/-- What raises the flag of a mobile client. -/
theorem mDone_moves {total : Int} {s s' : Links} {a : Act} (hmove : Moves .mobile total s a s') :
    s'.client.mDone = true ↔ s.client.mDone = true ∨ s.FindsPrimaryGone a := by
  have hsame (ha : ¬ s.FindsPrimaryGone a) (hdone : s'.client.mDone = s.client.mDone) :
      s'.client.mDone = true ↔ s.client.mDone = true ∨ s.FindsPrimaryGone a := by
    rw [hdone, or_iff_left ha]
  cases hmove with
  | thread ha hstep => exact hsame (by simp [FindsPrimaryGone]) (mDone_of_thread ha hstep)
  | opens =>
      refine hsame (by simp [FindsPrimaryGone]) ?_
      rw [client_runOpen, client_setLink]
      rfl
  | beginsClose | closes | fails | releases =>
      exact hsame (by simp [FindsPrimaryGone]) (by rw [client_setLink])
  | closeHandled _ hclosed => exact hsame (by simp [FindsPrimaryGone, hclosed]) rfl
  | @failHandled which _ hfailed =>
      have hreleased : (s.setLink { s.link which with handled := true } which).primary.released =
          s.primary.released := by cases which <;> rfl
      have hgone : (s.setLink { s.link which with handled := true } which).primary.Gone ↔
          s.primary.Gone := by cases which <;> exact Iff.rfl
      have hfinds : s.FindsPrimaryGone (.handles which) ↔
          s.primary.Gone ∧ s.primary.released = false := by
        simp [FindsPrimaryGone, hfailed]
      rw [hfinds, runFail, hreleased]
      cases hr : s.primary.released with
      | true => simp
      | false =>
          by_cases hg : s.primary.Gone
          · simp [Client.onFail, Client.baseOnFail, hgone, hg]
          · simp [Client.onFail, hgone, hg]

/-- When the flag of a client with no connection left is up. -/
theorem mDone_iff (kind : Client.Kind) (total conStart : Int) {run : List Act} {s : Links}
    (hrun : (system kind total conStart).exec (system kind total conStart).init run = some s)
    (hquiet : s.Quiescent) :
    s.client.mDone = true ↔ kind = .base ∨
      (system kind total conStart).Sometime FindsPrimaryGone
        (system kind total conStart).init run := by
  cases kind with
  | base =>
      exact iff_of_true (told_of_base ((system _ _ _).reachable_of_exec hrun) hquiet) (.inl rfl)
  | mobile =>
      rw [or_iff_right Client.Kind.noConfusion]
      refine TransitionSystem.exec_induction
        (P := fun run s => s.client.mDone = true ↔ (system .mobile total conStart).Sometime
          FindsPrimaryGone (system .mobile total conStart).init run) ?_ ?_ hrun
      · simp [system]
      · intro run s a s' hexec ih hstep
        rw [mDone_moves (moves_of_step hstep).2, ih, TransitionSystem.sometime_concat _ hexec]

/-! ## Told to stop -/

/-- A step of the telemetry thread. -/
def Act.isThread : Act → Bool
  | .thread a => a.isThread
  | _ => false

/-- A call of `send_message`. -/
def Act.isSend : Act → Bool
  | .thread a => a.isSend
  | _ => false

/-- Only the telemetry thread touches its place. -/
theorem loc_moves {kind : Client.Kind} {total : Int} {s s' : Links} {a : Act}
    (hmove : Moves kind total s a s') (ha : ∀ b, a ≠ .thread b) :
    s'.client.loc = s.client.loc := by
  cases hmove with
  | thread => exact absurd rfl (ha _)
  | opens => rw [client_runOpen, client_setLink]; rfl
  | beginsClose | closes | fails | releases => rw [client_setLink]
  | closeHandled => cases kind <;> rfl
  | @failHandled which =>
      rcases client_runFail kind (s.setLink { s.link which with handled := true } which) with
        hsame | ⟨primaryGone, hfail⟩
      · rw [hsame, client_setLink]
      · rw [hfail, client_setLink]
        cases kind <;> cases primaryGone <;> rfl

/-- No step takes the flag down. -/
theorem mDone_mono {kind : Client.Kind} {total : Int} {s s' : Links} {a : Act}
    (hmove : Moves kind total s a s') (hdone : s.client.mDone = true) : s'.client.mDone = true := by
  cases hmove with
  | thread ha h => rw [mDone_of_thread ha h, hdone]
  | opens => rwa [client_runOpen, client_setLink]
  | beginsClose | closes | fails | releases => rwa [client_setLink]
  | closeHandled =>
      cases kind
      · rfl
      · exact hdone
  | @failHandled which =>
      rcases client_runFail kind (s.setLink { s.link which with handled := true } which) with
        hsame | ⟨primaryGone, hfail⟩
      · rwa [hsame, client_setLink]
      · rw [hfail, client_setLink]
        cases kind <;> cases primaryGone <;> first | rfl | exact hdone

/-- With the flag up, the thread makes at most one more call and ends after a few steps, whatever
the connections do. -/
theorem left_of_exec {kind : Client.Kind} {total conStart : Int} {s s' : Links} {run : List Act}
    (hdone : s.client.mDone = true) (hrun : (system kind total conStart).exec s run = some s') :
    run.countP (·.isSend) ≤ s.client.loc.sendsLeft ∧
      run.countP (·.isThread) ≤ s.client.loc.stepsToEnd := by
  induction run generalizing s with
  | nil => exact ⟨Nat.zero_le _, Nat.zero_le _⟩
  | cons a run ih =>
      obtain ⟨t, hstep, hrest⟩ := Option.bind_eq_some_iff.mp hrun
      have hmove := (moves_of_step hstep).2
      obtain ⟨hsends, hsteps⟩ := ih (mDone_mono hmove hdone) hrest
      rw [List.countP_cons, List.countP_cons]
      by_cases ha : ∃ b, a = .thread b
      · obtain ⟨b, rfl⟩ := ha
        cases hmove with
        | thread _ h =>
            obtain ⟨hsend, hthread⟩ := Client.left_moves hdone (Client.moves_of_step h)
            rw [Act.isSend, Act.isThread]
            exact ⟨by dsimp only at hsends; omega, by dsimp only at hsteps; omega⟩
      · have hsend : a.isSend = false := by cases a <;> first | rfl | exact absurd ⟨_, rfl⟩ ha
        have hthread : a.isThread = false := by cases a <;> first | rfl | exact absurd ⟨_, rfl⟩ ha
        rw [loc_moves hmove fun b h => ha ⟨b, h⟩] at hsends hsteps
        rw [hsend, hthread]
        exact ⟨hsends, hsteps⟩

/-- **When a client with no connection left has been told to stop.** A base client always has; a
mobile client has when one of its fail handlers found the primary connection gone. A client that has
been told makes at most one more call, and its loop ends. -/
theorem told_to_stop_iff (kind : Client.Kind) (total conStart : Int) {run : List Act} {s : Links}
    (hrun : (system kind total conStart).exec (system kind total conStart).init run = some s)
    (hquiet : s.Quiescent) :
    (s.client.mDone = true ↔ kind = .base ∨
      (system kind total conStart).Sometime FindsPrimaryGone
        (system kind total conStart).init run) ∧
    (s.client.mDone = true → ∀ after s', (system kind total conStart).exec s after = some s' →
      after.countP (·.isSend) ≤ 1 ∧ after.countP (·.isThread) ≤ 8) := by
  refine ⟨?_, fun hdone after s' hafter => ?_⟩
  · exact mDone_iff kind total conStart hrun hquiet
  · obtain ⟨hsends, hsteps⟩ := left_of_exec hdone hafter
    exact ⟨Nat.le_trans hsends (Client.Loc.sendsLeft_le _),
      Nat.le_trans hsteps (Client.Loc.stepsToEnd_le _)⟩

/-- Both connections open, both are closed, and both close handlers run. -/
def closedRun : List Act :=
  [.opens .primary 1000000 false, .opens .signaling 2000000 false, .closes .primary,
    .handles .primary, .closes .signaling, .handles .signaling]

/-- A mobile client whose connections have both been closed has not been told to stop. -/
theorem closed_mobile_not_told :
    ∃ s : Links, (system .mobile 12 0).Reachable s ∧ s.Quiescent ∧ s.primary.phase = .closed ∧
      s.signaling.phase = .closed ∧ s.client.mDone = false := by
  obtain ⟨s, hrun, hend⟩ := (system .mobile 12 0).exists_of_exec_any closedRun
    (fun s => s.Quiescent ∧ s.primary.phase = .closed ∧ s.signaling.phase = .closed ∧
      s.client.mDone = false) (by decide)
  exact ⟨s, (system .mobile 12 0).reachable_of_exec hrun, of_decide_eq_true hend⟩

/-- The primary connection is closed before the signaling one fails. -/
def failedOverRun : List Act :=
  [.opens .primary 1000000 false, .closes .primary, .handles .primary, .fails .signaling,
    .handles .signaling]

/-- `told_to_stop_iff` at the end of `failedOverRun`. -/
theorem told_to_stop_failed_over :
    ∃ s : Links, s.Quiescent ∧ s.client.mDone = true ∧
      (system .mobile 12 0).Sometime FindsPrimaryGone (system .mobile 12 0).init failedOverRun := by
  obtain ⟨s, hrun, hend⟩ := (system .mobile 12 0).exists_of_exec_any failedOverRun
    (fun s => s.Quiescent ∧ s.client.mDone = true) (by decide)
  obtain ⟨hquiet, hdone⟩ := of_decide_eq_true hend
  refine ⟨s, hquiet, hdone, ?_⟩
  exact ((told_to_stop_iff .mobile 12 0 hrun hquiet).1.mp hdone).resolve_left
    Client.Kind.noConfusion

end Links

end WsPerftester
