import WsPerftester.Client.SendDiscipline

/-! # What is true when the client closes

Behind the loop `telemetry_loop` calls `close("connection finished")` if `m_count` has reached the
number of messages. The count says nothing about the outcome of the calls
(`all_messages_sent_iff`), and between the last test of the flag and the close there is time for the
connection to end (`closes_open_connection_iff`). -/

namespace WsPerftester

namespace Client

variable {kind : Kind} {total conStart : Int}

/-- The client closes when `m_count` has reached the total. -/
theorem mCount_of_closing {c : Client} (hc : (telemetry kind total conStart).Reachable c) :
    c.loc = .closing → (c.mCount : Int) = total := by
  refine reachable_induction (P := fun c => c.loc = .closing → (c.mCount : Int) = total) (by simp)
    (fun c a c' ih hmove hloc => ?_) hc
  cases ha : a.isThread with
  | false =>
      obtain ⟨hsame, hcount⟩ := place_moves hmove ha
      rw [hcount]
      exact ih (hsame ▸ hloc)
  | true => exact (arrives_moves hmove ha).2.2 hloc

/-- A step that closes is taken at the close. -/
theorem loc_of_close {c c' : Client} {refused : Bool}
    (hmove : Moves kind total c (.close refused) c') : c.loc = .closing := by
  cases hmove with
  | close hloc => exact hloc

/-- A closing client has made a call for every message. -/
theorem length_sends_of_close {c c' : Client} {refused : Bool}
    (hc : (telemetry kind total conStart).Reachable c)
    (hclose : step kind total c (.close refused) = some c') : (c.sends.length : Int) = total := by
  have hloc := loc_of_close (moves_of_step hclose)
  have hattempts := (CountInv.of_reachable hc).attempts
  rw [hloc, if_neg (by decide), Nat.add_zero] at hattempts
  rw [hattempts, mCount_of_closing hc hloc]

/-! ## The messages sent -/

/-- No call of `send_message` returns an error. -/
def NoSendFails (kind : Kind) (run : List Act) : Prop :=
  ∀ now e₁ e₂, .send now e₁ e₂ ∈ run → sendMessage kind e₁ e₂ = false

/-- Changing an element of a list changes what holds of all elements only if it changes what holds
of that one. -/
theorem forall_mem_modify {α : Type} {P : α → Prop} {f : α → α} {xs : List α} {k : Nat}
    (h : ∀ x, xs[k]? = some x → (P (f x) ↔ P x)) : (∀ x ∈ xs.modify k f, P x) ↔ ∀ x ∈ xs, P x := by
  induction xs generalizing k with
  | nil => rw [List.modify_nil]
  | cons x xs ih =>
      cases k with
      | zero => rw [List.modify_zero_cons, List.forall_mem_cons, List.forall_mem_cons, h x rfl]
      | succ k =>
          rw [List.modify_succ_cons, List.forall_mem_cons, List.forall_mem_cons]
          exact and_congr_right fun _ => ih fun y hy => h y hy

/-- The network settles accepted messages only. -/
theorem forall_accepted_settle {c : Client} {k : Nat} (hk : c.Awaits k) {fate : Fate}
    (hfate : fate ≠ .refused) :
    (∀ s ∈ (c.settle k fate).sends, s.Accepted) ↔ ∀ s ∈ c.sends, s.Accepted := by
  refine forall_mem_modify fun s hs => ?_
  obtain ⟨t, ht, hout⟩ := hk
  obtain rfl : s = t := Option.some.inj (hs.symm.trans ht)
  have haccepted : s.Accepted := by
    rw [Send.Accepted, hout]
    exact Fate.noConfusion
  exact iff_of_true hfate haccepted

/-- Every call of a run has been accepted exactly if none returned an error. -/
theorem forall_accepted_iff {run : List Act} {c : Client}
    (hrun :
      (telemetry kind total conStart).exec (telemetry kind total conStart).init run = some c) :
    (∀ s ∈ c.sends, s.Accepted) ↔ NoSendFails kind run := by
  refine TransitionSystem.exec_induction
    (P := fun run c => (∀ s ∈ c.sends, s.Accepted) ↔ NoSendFails kind run)
    (by simp [telemetry, NoSendFails]) ?_ hrun
  intro run c a c' _ ih hstep
  have hother (ha : a.isSend = false) : NoSendFails kind (run ++ [a]) ↔ NoSendFails kind run := by
    simp only [NoSendFails, List.mem_append, List.mem_singleton]
    constructor
    · exact fun h now e₁ e₂ hmem => h now e₁ e₂ (.inl hmem)
    · rintro h now e₁ e₂ (hmem | rfl)
      · exact h now e₁ e₂ hmem
      · cases ha
  have hmove : Moves kind total c a c' := moves_of_step hstep
  cases hmove with
  | flow | onOpen => rw [hother rfl, ← ih]; rfl
  | count | reset => rw [hother rfl, ← ih]
  | fail => rw [hother rfl, ← ih, (halts_fail kind c).sends_eq]
  | close => rw [hother rfl, ← ih, (halts_close kind _ c).sends_eq]
  | onClose => rw [hother rfl, ← ih, (signals_onClose kind c).sends_eq]
  | onFail => rw [hother rfl, ← ih, (signals_onFail kind _ c).sends_eq]
  | onMessage hk => rw [hother rfl, ← ih]; exact forall_accepted_settle hk Fate.noConfusion
  | discard hk => rw [hother rfl, ← ih]; exact forall_accepted_settle hk Fate.noConfusion
  | @send now primaryError signalingError =>
      have hlast : NoSendFails kind (run ++ [.send now primaryError signalingError]) ↔
          NoSendFails kind run ∧ sendMessage kind primaryError signalingError = false := by
        simp only [NoSendFails, List.mem_append, List.mem_singleton]
        constructor
        · exact fun h => ⟨fun now e₁ e₂ hmem => h now e₁ e₂ (.inl hmem), h _ _ _ (.inr rfl)⟩
        · rintro ⟨h, herror⟩ now' e₁ e₂ (hmem | heq)
          · exact h now' e₁ e₂ hmem
          · cases heq
            exact herror
      rw [hlast, ← ih, Client.send, List.forall_mem_append, List.forall_mem_singleton]
      refine and_congr_right fun _ => ?_
      cases sendMessage kind primaryError signalingError <;> simp [Send.Accepted]

/-- **When a client that closes has sent every message.** -/
theorem all_messages_sent_iff (kind : Kind) (total conStart : Int) {run : List Act}
    {c c' : Client} {refused : Bool}
    (hrun : (telemetry kind total conStart).exec (telemetry kind total conStart).init run = some c)
    (hclose : step kind total c (.close refused) = some c') :
    (c'.sends.countP (fun s => s.Accepted) : Int) = total ↔ NoSendFails kind run := by
  have hc := (telemetry kind total conStart).reachable_of_exec hrun
  have hsends : c'.sends = c.sends := by
    cases moves_of_step hclose with
    | close => exact (halts_close kind refused c).sends_eq
  rw [← forall_accepted_iff hrun, hsends, ← length_sends_of_close hc hclose, Int.ofNat_inj,
    List.countP_eq_length]
  simp only [decide_eq_true_eq]

/-- The first of two sends fails. -/
def failedSendRun : List Act :=
  [.proceed, .onOpen 1000000, .proceed, .proceed, .send 2000000 true false, .proceed, .proceed,
    .proceed, .proceed, .send 3000000 false false, .proceed, .proceed]

/-- The client closes as finished although one of its two messages has not been sent. -/
theorem message_missing_at_close :
    ∃ c c' : Client, (telemetry .base 2 0).exec (telemetry .base 2 0).init failedSendRun = some c ∧
      step .base 2 c (.close false) = some c' ∧ c'.sends.countP (fun s => s.Accepted) = 1 := by
  obtain ⟨c', hrun, hend⟩ := (telemetry .base 2 0).exists_of_exec_any
    (failedSendRun ++ [.close false]) (fun c => c.sends.countP (fun s => s.Accepted) = 1)
    (by decide)
  obtain ⟨c, hbefore, hclose⟩ := (telemetry .base 2 0).exec_concat.mp hrun
  exact ⟨c, c', hbefore, hclose, of_decide_eq_true hend⟩

/-- `all_messages_sent_iff` at the end of `failedSendRun`. -/
theorem all_messages_sent_failed :
    ∃ c' : Client, (c'.sends.countP (fun s => s.Accepted) : Int) ≠ 2 ∧
      ¬ NoSendFails .base failedSendRun := by
  obtain ⟨c', hrun, hend⟩ := (telemetry .base 2 0).exists_of_exec_any
    (failedSendRun ++ [.close false]) (fun c => (c.sends.countP (fun s => s.Accepted) : Int) ≠ 2)
    (by decide)
  obtain ⟨c, hbefore, hclose⟩ := (telemetry .base 2 0).exec_concat.mp hrun
  have hne := of_decide_eq_true hend
  exact ⟨c', hne, fun h => hne ((all_messages_sent_iff .base 2 0 hbefore hclose).mpr h)⟩

/-! ## The connection -/

/-- The connection ends: the close handler or the fail handler runs. -/
def Act.EndsConnection (a : Act) : Prop := a = .onClose ∨ ∃ primaryGone, a = .onFail primaryGone

/-- The thread does not test the flag any more before it closes: it has counted every message, or
is about to count the last one. -/
def TestsOver (total : Int) (c : Client) : Prop :=
  total ≤ c.mCount + if c.loc = .counting then 1 else 0

/-- The connection does not end behind the last test of the flag. -/
def NoLateEnd (total : Int) (c : Client) (a : Act) : Prop := TestsOver total c → ¬ a.EndsConnection

/-- A thread that has been told to stop does not get past the last test. -/
theorem testsOver_of_moves {c c' : Client} {a : Act} (hdone : c.mDone = true)
    (hmove : Moves kind total c a c') (hover : TestsOver total c') : TestsOver total c := by
  unfold TestsOver at hover ⊢
  have hsame (hcount : c'.mCount = c.mCount) (hloc : c'.loc ≠ .counting) :
      total ≤ c.mCount + if c.loc = .counting then 1 else 0 := by
    rw [hcount, if_neg hloc] at hover
    split <;> omega
  cases ha : a.isThread with
  | false =>
      obtain ⟨hloc, hcount⟩ := place_moves hmove ha
      rwa [hloc, hcount] at hover
  | true =>
      cases hmove with
      | flow hflow =>
          cases hflow with
          | ready _ hnot => simp [hdone] at hnot
          | enter | exhausted | stopped | blocked | again | complete | giveUp =>
              exact hsame rfl Loc.noConfusion
      | count hloc =>
          rw [if_neg Loc.noConfusion] at hover
          rw [if_pos hloc]
          push_cast at hover
          omega
      | reset => exact hsame rfl Loc.noConfusion
      | @send now primaryError signalingError =>
          refine hsame rfl ?_
          cases herror : sendMessage kind primaryError signalingError <;> simp [Client.send, herror]
      | fail =>
          obtain ⟨loc, closed, hend, heq⟩ := halts_fail kind c
          refine hsame (by rw [heq]) ?_
          rw [heq]
          rcases hend with rfl | rfl <;> exact Loc.noConfusion
      | @close refused =>
          obtain ⟨loc, closed, hend, heq⟩ := halts_close kind refused c
          refine hsame (by rw [heq]) ?_
          rw [heq]
          rcases hend with rfl | rfl <;> exact Loc.noConfusion
      | onOpen | onClose | onFail | onMessage | discard => cases ha

/-- A handler that ends the connection of a base client raises the flag. -/
theorem mDone_of_endsConnection {c c' : Client} {a : Act} (hmove : Moves .base total c a c')
    (ha : a.EndsConnection) : c'.mDone = true := by
  rcases ha with rfl | ⟨primaryGone, rfl⟩
  · cases hmove
    rfl
  · cases hmove
    rfl

/-- The flag of a base client at the last test. -/
theorem testsOver_of_exec {run : List Act} {c : Client}
    (hrun : (telemetry .base total conStart).exec (telemetry .base total conStart).init run =
      some c) :
    ((telemetry .base total conStart).Along (NoLateEnd total) (telemetry .base total conStart).init
        run → c.mDone = true → ¬ TestsOver total c) ∧
      (¬ (telemetry .base total conStart).Along (NoLateEnd total)
        (telemetry .base total conStart).init run → c.mDone = true) := by
  refine TransitionSystem.exec_induction
    (P := fun run c => ((telemetry .base total conStart).Along (NoLateEnd total)
        (telemetry .base total conStart).init run → c.mDone = true → ¬ TestsOver total c) ∧
      (¬ (telemetry .base total conStart).Along (NoLateEnd total)
        (telemetry .base total conStart).init run → c.mDone = true)) (by simp [telemetry]) ?_ hrun
  rintro run c a c' hexec ⟨ih, ih'⟩ hstep
  have hmove : Moves .base total c a c' := moves_of_step hstep
  rw [TransitionSystem.along_concat _ hexec]
  constructor
  · rintro ⟨halong, hlast⟩ hdone hover
    by_cases ha : a.EndsConnection
    · have hthread : a.isThread = false := by rcases ha with rfl | ⟨primaryGone, rfl⟩ <;> rfl
      obtain ⟨hloc, hcount⟩ := place_moves hmove hthread
      refine hlast ?_ ha
      rwa [TestsOver, hloc, hcount] at hover
    · have hsame : c'.mDone = c.mDone :=
        mDone_moves hmove (fun h => ha (.inl h)) fun primaryGone h => ha (.inr ⟨primaryGone, h⟩)
      have hdone' : c.mDone = true := hsame ▸ hdone
      exact ih halong hdone' (testsOver_of_moves hdone' hmove hover)
  · intro hnot
    by_cases halong : (telemetry .base total conStart).Along (NoLateEnd total)
        (telemetry .base total conStart).init run
    · have hlate : ¬ NoLateEnd total c a := fun h => hnot ⟨halong, h⟩
      obtain ⟨-, ha⟩ := Classical.not_imp.mp hlate
      exact mDone_of_endsConnection hmove (not_not.mp ha)
    · exact mDone_mono hmove (ih' halong)

/-- A client that has made a call is open. -/
theorem mOpen_of_sends {c : Client} (hc : (telemetry kind total conStart).Reachable c) :
    0 < c.sends.length → c.mOpen = true := by
  induction hc with
  | init => exact fun h => absurd h (Nat.lt_irrefl 0)
  | @step c c' a hc hstep ih =>
      intro hsends
      have hmove : Moves kind total c a c' := moves_of_step hstep
      rw [length_sends_moves hmove] at hsends
      refine mOpen_mono hmove ?_
      cases ha : a.isSend with
      | false => exact ih (by simpa [ha] using hsends)
      | true =>
          cases hmove with
          | send hloc => exact mOpen_of_sending hc (.inr hloc)
          | flow | count | reset | fail | close | onOpen | onClose | onFail | onMessage
          | discard => cases ha

/-- The open handler has run once it occurs in the run. -/
theorem mOpen_of_onOpen {run : List Act} {c : Client} {now : Int}
    (hrun : (telemetry kind total conStart).exec (telemetry kind total conStart).init run = some c)
    (hmem : .onOpen now ∈ run) : c.mOpen = true := by
  revert hmem
  refine TransitionSystem.exec_induction (P := fun run c => .onOpen now ∈ run → c.mOpen = true)
    (by simp) ?_ hrun
  intro run c a c' _ ih hstep hmem
  have hmove : Moves kind total c a c' := moves_of_step hstep
  rcases List.mem_append.mp hmem with hmem | hlast
  · exact mOpen_mono hmove (ih hmem)
  · cases List.mem_singleton.mp hlast
    cases hmove
    rfl

/-- **When a base client closes an open connection.** -/
theorem closes_open_connection_iff (total conStart : Int) (hnonneg : 0 ≤ total) {run : List Act}
    {c c' : Client} {refused : Bool}
    (hrun :
      (telemetry .base total conStart).exec (telemetry .base total conStart).init run = some c)
    (hclose : step .base total c (.close refused) = some c') :
    c.mOpen = true ∧ c.mDone = false ↔
      (total = 0 → ∃ now, .onOpen now ∈ run) ∧
        (telemetry .base total conStart).Along (NoLateEnd total)
          (telemetry .base total conStart).init run := by
  have hc := (telemetry .base total conStart).reachable_of_exec hrun
  have hloc := loc_of_close (moves_of_step hclose)
  have hopen : c.mOpen = true ↔ (total = 0 → ∃ now, .onOpen now ∈ run) := by
    constructor
    · exact fun hopen _ => exists_onOpen hrun hopen
    · intro hopened
      by_cases hzero : total = 0
      · obtain ⟨now, hmem⟩ := hopened hzero
        exact mOpen_of_onOpen hrun hmem
      · have hlength := length_sends_of_close hc hclose
        exact mOpen_of_sends hc (by omega)
  have hover : TestsOver total c := by
    rw [TestsOver, mCount_of_closing hc hloc]
    omega
  obtain ⟨halong, hlate⟩ := testsOver_of_exec hrun
  have hdone : c.mDone = false ↔ (telemetry .base total conStart).Along (NoLateEnd total)
      (telemetry .base total conStart).init run := by
    constructor
    · intro hdone
      by_contra hnot
      rw [hlate hnot] at hdone
      cases hdone
    · exact fun h => Bool.eq_false_iff.mpr fun hdone => halong h hdone hover
  rw [hopen, hdone]

/-- The server closes the connection while the thread pauses behind the only message. -/
def closedInPauseRun : List Act :=
  [.proceed, .onOpen 1000000, .proceed, .proceed, .send 2000000 false false, .proceed, .proceed,
    .onClose]

/-- The client closes a connection that has been closed, and its process is terminated. -/
theorem close_behind_the_server :
    ∃ c c' : Client,
      (telemetry .base 1 0).exec (telemetry .base 1 0).init closedInPauseRun = some c ∧
        step .base 1 c (.close true) = some c' ∧ c.mOpen = true ∧ c.mDone = true ∧
        c'.loc = .terminated := by
  obtain ⟨c, hrun, hend⟩ := (telemetry .base 1 0).exists_of_exec_any closedInPauseRun
    (fun c => c.loc = .closing ∧ c.mOpen = true ∧ c.mDone = true) (by decide)
  obtain ⟨hloc, hopen, hdone⟩ := of_decide_eq_true hend
  exact ⟨c, c.close .base true, hrun, if_pos hloc, hopen, hdone, rfl⟩

/-- `closes_open_connection_iff` at the end of `closedInPauseRun`. -/
theorem closes_open_connection_late :
    ¬ (telemetry .base 1 0).Along (NoLateEnd 1) (telemetry .base 1 0).init closedInPauseRun := by
  obtain ⟨c, hrun, hend⟩ := (telemetry .base 1 0).exists_of_exec_any closedInPauseRun
    (fun c => c.loc = .closing ∧ c.mDone = true) (by decide)
  obtain ⟨hloc, hdone⟩ := of_decide_eq_true hend
  have hclose : step .base 1 c (.close true) = some (c.close .base true) := if_pos hloc
  intro halong
  have hopened := (closes_open_connection_iff 1 0 (by decide) hrun hclose).mpr
    ⟨fun h => absurd h (by decide), halong⟩
  rw [hdone] at hopened
  cases hopened.2

end Client

end WsPerftester
