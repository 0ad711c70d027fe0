import WsPerftester.Client.Echoes

/-! # The course of `telemetry_loop`

What the telemetry thread does in one run, whatever the handlers do in between: when it sends and
how often, how the loop is left, and what it has done when it closes the connection. The flags only
go up, so a run is split at the step that raises one; `sendsLeft` and `stepsToEnd` bound what the
thread can still do once it has been told to stop. -/

namespace WsPerftester

namespace Client

variable {kind : Kind} {total conStart : Int}

/-! ## Behind the tests -/

/-- The thread gets behind a test only as the test allows. -/
theorem arrives_moves {c c' : Client} {a : Act} (hmove : Moves kind total c a c')
    (ha : a.isThread = true) :
    (c'.loc = .counting → c'.mOpen = true) ∧ (c'.loc = .sending → c.loc = .counting) ∧
      (c'.loc = .closing → (c'.mCount : Int) = total) := by
  cases hmove with
  | flow hflow =>
      cases hflow with
      | ready _ _ hopen => simp [goto, hopen]
      | complete _ hall => simp [goto, hall]
      | enter | exhausted | stopped | blocked | again | giveUp => simp [goto]
  | count hloc => simp [hloc]
  | reset => simp
  | fail => cases kind <;> simp [Client.fail, Client.close, goto]
  | @send now primaryError signalingError =>
      cases herror : sendMessage kind primaryError signalingError <;> simp [Client.send, herror]
  | @close refused => cases kind <;> cases refused <;> simp [Client.close, goto]
  | onOpen | onClose | onFail | onMessage | discard => cases ha

/-! ## Before the connection is open -/

/-- A thread that is about to send has seen the connection open. -/
theorem mOpen_of_sending {c : Client} (hc : (telemetry kind total conStart).Reachable c) :
    c.loc = .counting ∨ c.loc = .sending → c.mOpen = true := by
  refine reachable_induction (P := fun c => c.loc = .counting ∨ c.loc = .sending → c.mOpen = true)
    (by simp) (fun c a c' ih hmove hloc => ?_) hc
  cases ha : a.isThread with
  | false => exact mOpen_mono hmove (ih ((place_moves hmove ha).1 ▸ hloc))
  | true =>
      obtain ⟨hcounting, hsending, -⟩ := arrives_moves hmove ha
      rcases hloc with hloc | hloc
      · exact hcounting hloc
      · exact mOpen_mono hmove (ih (.inl (hsending hloc)))

/-- A connection that is open has been opened in the run. -/
theorem exists_onOpen {run : List Act} {c : Client}
    (hrun : (telemetry kind total conStart).exec (telemetry kind total conStart).init run = some c)
    (hopen : c.mOpen = true) : ∃ now, .onOpen now ∈ run := by
  revert hopen
  refine TransitionSystem.exec_induction
    (P := fun run c => c.mOpen = true → ∃ now, .onOpen now ∈ run) (by simp [telemetry]) ?_ hrun
  intro run c a c' _ ih hstep hopen
  by_cases ha : ∃ now, a = .onOpen now
  · obtain ⟨now, rfl⟩ := ha
    exact ⟨now, by simp⟩
  · rw [mOpen_moves (moves_of_step hstep) fun now h => ha ⟨now, h⟩] at hopen
    obtain ⟨now, hmem⟩ := ih hopen
    exact ⟨now, List.mem_append_left _ hmem⟩

/-! ## Told to stop -/

/-- The calls of `send_message` that a thread at this place makes before it tests the flag. -/
@[simp] def Loc.sendsLeft : Loc → Nat
  | .counting | .sending => 1
  | _ => 0

/-- The steps that a thread at this place makes when the flag is up. -/
@[simp] def Loc.stepsToEnd : Loc → Nat
  | .counting => 8
  | .sending => 7
  | .sendFailed | .retry => 6
  | .loopHead => 5
  | .awake => 4
  | .left => 2
  | .closing | .failing => 1
  | .finished | .terminated => 0

/-- With the flag up, a send uses up what is left, and so does a step. -/
theorem left_moves {c c' : Client} {a : Act} (hdone : c.mDone = true)
    (hmove : Moves kind total c a c') :
    c'.loc.sendsLeft + (if a.isSend then 1 else 0) ≤ c.loc.sendsLeft ∧
      c'.loc.stepsToEnd + (if a.isThread then 1 else 0) ≤ c.loc.stepsToEnd := by
  cases ha : a.isThread with
  | false =>
      have hsend : a.isSend = false := by cases a <;> first | rfl | cases ha
      rw [(place_moves hmove ha).1, hsend]
      exact ⟨Nat.le_refl _, Nat.le_refl _⟩
  | true =>
      cases hmove with
      | flow hflow =>
          cases hflow with
          | ready _ hnot | blocked _ _ hnot => simp [hdone] at hnot
          | enter hloc | exhausted hloc | stopped hloc | again hloc | complete hloc | giveUp hloc =>
              simp [goto, hloc, Act.isSend]
      | count hloc | reset hloc => simp [hloc, Act.isSend]
      | fail hloc => cases kind <;> simp [Client.fail, Client.close, goto, hloc, Act.isSend]
      | @send now primaryError signalingError hloc =>
          cases herror : sendMessage kind primaryError signalingError <;>
            simp [Client.send, herror, hloc, Act.isSend]
      | @close refused hloc =>
          cases kind <;> cases refused <;> simp [Client.close, goto, hloc, Act.isSend]
      | onOpen | onClose | onFail | onMessage | discard => cases ha

/-- **A thread that has been told to stop** makes at most one more call of `send_message`, and ends
after a few steps. -/
theorem left_of_exec {c c' : Client} {run : List Act} (hdone : c.mDone = true)
    (hrun : (telemetry kind total conStart).exec c run = some c') :
    run.countP (·.isSend) ≤ c.loc.sendsLeft ∧
      c'.loc.stepsToEnd + run.countP (·.isThread) ≤ c.loc.stepsToEnd := by
  induction run generalizing c with
  | nil =>
      cases hrun
      exact ⟨Nat.zero_le _, Nat.le_refl _⟩
  | cons a run ih =>
      obtain ⟨t, hstep, hrest⟩ := Option.bind_eq_some_iff.mp hrun
      have hmove := moves_of_step hstep
      obtain ⟨hsends, hsteps⟩ := left_moves hdone hmove
      obtain ⟨hsends', hsteps'⟩ := ih (mDone_mono hmove hdone) hrest
      rw [List.countP_cons, List.countP_cons]
      exact ⟨by omega, by omega⟩

/-- No place has more than one call left. -/
theorem Loc.sendsLeft_le (loc : Loc) : loc.sendsLeft ≤ 1 := by
  cases loc <;> decide

/-- No place is more than eight steps from the end. -/
theorem Loc.stepsToEnd_le (loc : Loc) : loc.stepsToEnd ≤ 8 := by
  cases loc <;> decide

/-! ## How the loop is left -/

/-- The thread sees the flag and leaves the loop. -/
def SeesDone (c : Client) (a : Act) : Prop :=
  a = .proceed ∧ c.loc = .awake ∧ c.mDone = true

/-- The thread calls `fail`. -/
def CallsFail (c : Client) (a : Act) : Prop := a = .proceed ∧ c.loc = .failing

/-- The thread calls `close`. -/
def CallsClose (_ : Client) (a : Act) : Prop := ∃ refused, a = .close refused

/-- Some step of a run of the client meets `C` in the state it is taken from. -/
def Happens (kind : Kind) (total conStart : Int) (C : Client → Act → Prop) (run : List Act) :
    Prop :=
  (telemetry kind total conStart).Sometime C (telemetry kind total conStart).init run

/-- How far the thread has come, and what it has done on its way out: whether it has seen the flag,
called `fail` or called `close`. -/
def Stage (total : Int) (saw failed closed : Prop) (c : Client) : Prop :=
  match c.loc with
  | .left =>
      ¬ failed ∧ ¬ closed ∧ (saw ∧ (c.mCount : Int) < total ∨ ¬ saw ∧ (c.mCount : Int) = total)
  | .closing => ¬ saw ∧ ¬ failed ∧ ¬ closed ∧ (c.mCount : Int) = total
  | .failing => saw ∧ ¬ failed ∧ ¬ closed ∧ (c.mCount : Int) < total
  | .finished | .terminated =>
      saw ∧ failed ∧ ¬ closed ∧ (c.mCount : Int) < total ∨
        ¬ saw ∧ ¬ failed ∧ closed ∧ (c.mCount : Int) = total
  | _ => ¬ saw ∧ ¬ failed ∧ ¬ closed

/-- Steps of the handlers and of the network leave the stage as it is. -/
theorem Stage.other {saw failed closed : Prop} {c c' : Client} {a : Act}
    (h : Stage total saw failed closed c) (hmove : Moves kind total c a c')
    (ha : a.isThread = false) :
    Stage total (saw ∨ c.SeesDone a) (failed ∨ c.CallsFail a) (closed ∨ c.CallsClose a) c' := by
  obtain ⟨hloc, hcount⟩ := place_moves hmove ha
  have hsees : ¬ c.SeesDone a := by rintro ⟨rfl, -⟩; cases ha
  have hfails : ¬ c.CallsFail a := by rintro ⟨rfl, -⟩; cases ha
  have hcloses : ¬ c.CallsClose a := by rintro ⟨refused, rfl⟩; cases ha
  rw [or_iff_left hsees, or_iff_left hfails, or_iff_left hcloses]
  unfold Stage at h ⊢
  rwa [hloc, hcount]

/-- The moves of the thread that only change the place. -/
theorem Stage.flow {saw failed closed : Prop} {c : Client} {loc : Loc} (hnonneg : 0 ≤ total)
    (hcount : CountInv total c) (h : Stage total saw failed closed c) (hflow : Flow total c loc) :
    Stage total (saw ∨ c.SeesDone .proceed) (failed ∨ c.CallsFail .proceed)
      (closed ∨ c.CallsClose .proceed) (c.goto loc) := by
  have hbound := hcount.bound
  cases hflow with
  | enter hloc | again hloc =>
      simpa [Stage, SeesDone, CallsFail, CallsClose, goto, hloc] using h
  | blocked hloc _ hdone | ready hloc hdone =>
      simpa [Stage, SeesDone, CallsFail, CallsClose, goto, hloc, hdone] using h
  | exhausted hloc hnot =>
      -- `m_count` does not exceed the total, so it has reached it
      have hall : (c.mCount : Int) = total := by omega
      have hnone : ¬ saw ∧ ¬ failed ∧ ¬ closed := by simpa [Stage, hloc] using h
      simp [Stage, SeesDone, CallsFail, CallsClose, goto, hloc, hall, hnone]
  | stopped hloc hdone =>
      have hroom := hcount.room (.inl hloc)
      have hnone : ¬ saw ∧ ¬ failed ∧ ¬ closed := by simpa [Stage, hloc] using h
      simp [Stage, SeesDone, CallsFail, CallsClose, goto, hloc, hdone, hroom, hnone]
  | complete hloc hall =>
      obtain ⟨hfailed, hclosed, ⟨-, hlt⟩ | ⟨hsaw, -⟩⟩ : ¬ failed ∧ ¬ closed ∧ _ := by
        simpa [Stage, hloc] using h
      · omega
      · simp [Stage, SeesDone, CallsFail, CallsClose, goto, hloc, hall, hsaw, hfailed, hclosed]
  | giveUp hloc hne =>
      obtain ⟨hfailed, hclosed, ⟨hsaw, hlt⟩ | ⟨-, hall⟩⟩ : ¬ failed ∧ ¬ closed ∧ _ := by
        simpa [Stage, hloc] using h
      · simp [Stage, SeesDone, CallsFail, CallsClose, goto, hloc, hlt, hsaw, hfailed, hclosed]
      · exact absurd hall hne

/-- **Every step keeps to the stages.** -/
theorem Stage.moves {saw failed closed : Prop} {c c' : Client} {a : Act} (hnonneg : 0 ≤ total)
    (hcount : CountInv total c) (h : Stage total saw failed closed c)
    (hmove : Moves kind total c a c') :
    Stage total (saw ∨ c.SeesDone a) (failed ∨ c.CallsFail a) (closed ∨ c.CallsClose a) c' := by
  cases ha : a.isThread with
  | false => exact h.other hmove ha
  | true =>
      cases hmove with
      | flow hflow => exact h.flow hnonneg hcount hflow
      | count hloc | reset hloc =>
          simpa [Stage, SeesDone, CallsFail, CallsClose, hloc] using h
      | @send now primaryError signalingError hloc =>
          cases herror : sendMessage kind primaryError signalingError <;>
            simpa [Stage, SeesDone, CallsFail, CallsClose, Client.send, herror, hloc] using h
      | fail hloc =>
          obtain ⟨hsaw, -, hclosed, hlt⟩ :
              saw ∧ ¬ failed ∧ ¬ closed ∧ (c.mCount : Int) < total := by
            simpa [Stage, hloc] using h
          obtain ⟨loc, closeStarted, hend, heq⟩ := halts_fail kind c
          rw [heq]
          rcases hend with rfl | rfl <;>
            simp [Stage, SeesDone, CallsFail, CallsClose, hloc, hsaw, hclosed, hlt]
      | @close refused hloc =>
          obtain ⟨hsaw, hfailed, -, hall⟩ :
              ¬ saw ∧ ¬ failed ∧ ¬ closed ∧ (c.mCount : Int) = total := by
            simpa [Stage, hloc] using h
          obtain ⟨loc, closeStarted, hend, heq⟩ := halts_close kind refused c
          rw [heq]
          rcases hend with rfl | rfl <;>
            simp [Stage, SeesDone, CallsFail, CallsClose, hloc, hsaw, hfailed, hall]
      | onOpen | onClose | onFail | onMessage | discard => cases ha

/-- The stage a run has reached. -/
theorem stage_of_exec (hnonneg : 0 ≤ total) {run : List Act} {c : Client}
    (hrun :
      (telemetry kind total conStart).exec (telemetry kind total conStart).init run = some c) :
    Stage total (Happens kind total conStart SeesDone run)
      (Happens kind total conStart CallsFail run) (Happens kind total conStart CallsClose run)
      c := by
  refine TransitionSystem.exec_induction
    (P := fun run c => Stage total (Happens kind total conStart SeesDone run)
      (Happens kind total conStart CallsFail run) (Happens kind total conStart CallsClose run) c)
    (by simp [Stage, Happens, telemetry]) ?_ hrun
  intro run c a c' hexec ih hstep
  have hcount := CountInv.of_reachable ((telemetry kind total conStart).reachable_of_exec hexec)
  have hnext := ih.moves hnonneg hcount (moves_of_step hstep)
  unfold Happens at hnext ⊢
  rwa [TransitionSystem.sometime_concat _ hexec, TransitionSystem.sometime_concat _ hexec,
    TransitionSystem.sometime_concat _ hexec]

/-- The calls of a run are recorded. -/
theorem length_sends_of_exec {run : List Act} {c : Client}
    (hrun :
      (telemetry kind total conStart).exec (telemetry kind total conStart).init run = some c) :
    c.sends.length = run.countP (·.isSend) := by
  refine TransitionSystem.exec_induction (P := fun run c => c.sends.length = run.countP (·.isSend))
    rfl ?_ hrun
  intro run c a c' _ ih hstep
  rw [length_sends_moves (moves_of_step hstep), ih, List.countP_append, List.countP_singleton]

/-- A send is made from the place before it. -/
theorem loc_of_send {c c' : Client} {now : Int} {primaryError signalingError : Bool}
    (hmove : Moves kind total c (.send now primaryError signalingError) c') : c.loc = .sending := by
  cases hmove with
  | send hloc => exact hloc

/-- **Send discipline.** No call is made before the connection has been opened, at most one after
the client has been told to stop, and never more than there are messages. When `telemetry_loop` has
returned, it has called `fail` exactly if it left the loop because it saw the flag, in which case
messages are missing, and `close` exactly if it made a call for every message. -/
theorem send_discipline (kind : Kind) (total conStart : Int) (hnonneg : 0 ≤ total) {run : List Act}
    {c : Client}
    (hrun :
      (telemetry kind total conStart).exec (telemetry kind total conStart).init run = some c) :
    (∀ before after now e₁ e₂, run = before ++ .send now e₁ e₂ :: after →
        ∃ now', .onOpen now' ∈ before) ∧
      (∀ before after t, run = before ++ after →
        (telemetry kind total conStart).exec (telemetry kind total conStart).init before = some t →
        t.mDone = true → after.countP (·.isSend) ≤ 1) ∧
      (run.countP (·.isSend) : Int) ≤ total ∧
      (c.loc = .finished ∨ c.loc = .terminated →
        (Happens kind total conStart CallsFail run ↔ Happens kind total conStart SeesDone run) ∧
        (Happens kind total conStart SeesDone run → (run.countP (·.isSend) : Int) < total) ∧
        (Happens kind total conStart CallsClose run ↔ (run.countP (·.isSend) : Int) = total)) := by
  have hcount := CountInv.of_reachable ((telemetry kind total conStart).reachable_of_exec hrun)
  have hattempts := hcount.attempts
  rw [length_sends_of_exec hrun] at hattempts
  have hbound := hcount.bound
  refine ⟨?_, ?_, by omega, ?_⟩
  · rintro before after now e₁ e₂ rfl
    rw [TransitionSystem.exec_append] at hrun
    obtain ⟨t, hbefore, hafter⟩ := Option.bind_eq_some_iff.mp hrun
    obtain ⟨t', hsend, -⟩ := Option.bind_eq_some_iff.mp hafter
    have hmove : Moves kind total t (.send now e₁ e₂) t' := moves_of_step hsend
    have ht := (telemetry kind total conStart).reachable_of_exec hbefore
    exact exists_onOpen hbefore (mOpen_of_sending ht (.inr (loc_of_send hmove)))
  · rintro before after t rfl hbefore hdone
    rw [TransitionSystem.exec_append, hbefore] at hrun
    exact Nat.le_trans (left_of_exec hdone hrun).1 t.loc.sendsLeft_le
  · intro hend
    have hsends : run.countP (·.isSend) = c.mCount := by
      rcases hend with hloc | hloc <;> simpa [hloc] using hattempts
    have hstage := stage_of_exec hnonneg hrun
    rw [hsends]
    rcases hend with hloc | hloc
    all_goals
      rw [Stage, hloc] at hstage
      rcases hstage with ⟨hsaw, hfailed, hclosed, hlt⟩ | ⟨hsaw, hfailed, hclosed, hall⟩
    · exact ⟨iff_of_true hfailed hsaw, fun _ => hlt, iff_of_false hclosed (Int.ne_of_lt hlt)⟩
    · exact ⟨iff_of_false hfailed hsaw, fun h => absurd h hsaw, iff_of_true hclosed hall⟩
    · exact ⟨iff_of_true hfailed hsaw, fun _ => hlt, iff_of_false hclosed (Int.ne_of_lt hlt)⟩
    · exact ⟨iff_of_false hfailed hsaw, fun h => absurd h hsaw, iff_of_true hclosed hall⟩

/-- The server closes the connection between the test and the send of the first of two messages. -/
def cutOffRun : List Act :=
  [.proceed, .onOpen 1000000, .proceed, .onClose, .proceed, .send 2000000 true false, .proceed,
    .proceed, .proceed, .proceed, .proceed]

/-- `send_discipline` at the end of `cutOffRun`: one call is made behind the flag, and `fail` is
called. -/
theorem send_discipline_cut_off :
    ∃ c : Client, c.loc = .finished ∧ cutOffRun.countP (·.isSend) = 1 ∧
      (Happens .base 2 0 CallsFail cutOffRun ↔ Happens .base 2 0 SeesDone cutOffRun) ∧
      ¬ Happens .base 2 0 CallsClose cutOffRun := by
  obtain ⟨c, hrun, hend⟩ := (telemetry .base 2 0).exists_of_exec_any cutOffRun
    (fun c => c.loc = .finished) (by decide)
  have hloc := of_decide_eq_true hend
  obtain ⟨-, -, -, hleft⟩ := send_discipline .base 2 0 (by decide) hrun
  obtain ⟨hfail, -, hclose⟩ := hleft (.inl hloc)
  refine ⟨c, hloc, by decide, hfail, fun h => ?_⟩
  exact absurd (hclose.mp h) (by decide)

end Client

end WsPerftester
