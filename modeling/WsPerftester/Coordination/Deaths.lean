import WsPerftester.Coordination.Families
import WsPerftester.Coordination.Results
import WsPerftester.Coordination.Reaping

/-! # Exits counted truthfully

Runs in which children may be killed at any point and `waitpid` says what the operating system
promises: 0 as long as all children left to wait for are running, an error when there is no child
left to wait for, and otherwise a child of the caller that has exited, with its status, once. A
listener then waits for as many children as it has, so its `waitpid` never fails
(`waitpid_never_fails`); and over one configuration `clientsFinished` and `clientsDied` are, at the
exit of the collection loop, the numbers of processes that exited with status 0 and with another one
(`exits_counted`). -/

namespace WsPerftester

open TransitionSystem Population

/-! ## What `waitpid` promises -/

namespace Process

/-- The parent has still to wait for the process. -/
def Unreaped (i : Nat) (p : Process) : Prop := p.parent = i ∧ p.reaped = false

instance (i : Nat) (p : Process) : Decidable (p.Unreaped i) := inferInstanceAs (Decidable (_ ∧ _))

instance (p : Process) : Decidable p.Exited :=
  match h : p.loc with
  | .exited status => .isTrue ⟨status, h⟩
  | .awaitHello | .awaitSync | .awaitRequest | .working _ _ =>
      .isFalse fun ⟨status, hloc⟩ => by rw [h] at hloc; cases hloc

end Process

namespace State

/-- `waitpid(0, &status, WNOHANG)` in listener `i` may return `r`. -/
def WaitpidMay (s : State) (i : Nat) : WaitResult → Prop
  | .running => (∃ p ∈ s.processes, p.Unreaped i) ∧ ∀ p ∈ s.processes, p.Unreaped i → ¬ p.Exited
  | .error _ => ∀ p ∈ s.processes, ¬ p.Unreaped i
  | .child pid status => ∃ p, s.processes[pid]? = some p ∧ p.Unreaped i ∧ p.loc = .exited status

instance (s : State) (i : Nat) (r : WaitResult) : Decidable (s.WaitpidMay i r) :=
  match r with
  | .running => inferInstanceAs (Decidable ((∃ p ∈ s.processes, _) ∧ ∀ p ∈ s.processes, _))
  | .error _ => inferInstanceAs (Decidable (∀ p ∈ s.processes, _))
  | .child pid status =>
      match h : s.processes[pid]? with
      | none => .isFalse fun ⟨p, hp, _⟩ => by rw [h] at hp; cases hp
      | some p =>
          if hp : p.Unreaped i ∧ p.loc = .exited status then .isTrue ⟨p, h, hp⟩
          else .isFalse fun ⟨q, hq, hprocess⟩ => hp (by
            rw [h] at hq
            cases hq
            exact hprocess)

/-- `waitpid` keeps its promise in the step. -/
def truthfulStep (s : State) : Action → Bool
  | .listener i (.reap r) => s.WaitpidMay i r
  | _ => true

end State

/-- A run in which `waitpid` keeps its promise; children may die. -/
def truthful (confs : List Config) (count : Nat) : TransitionSystem State Action :=
  (coordination confs count).restrict State.truthfulStep

/-- A step of such a run. -/
theorem truthful_step {confs : List Config} {count : Nat} {s s' : State} {a : Action} :
    (truthful confs count).step s a = some s' ↔
      s.truthfulStep a = true ∧ s.step confs a = some s' :=
  restrict_step _

/-- Whoever moves, a process that has exited stays so. -/
theorem Process.Moves.exited {confs : List Config} {ok : Process.Act → Prop} {c c' : Controller}
    {p p' : Process} (h : Process.Moves confs ok c p c' p') (hexit : p.Exited) : p'.Exited := by
  cases h with
  | broadcast => rwa [deliver_of_exited hexit]
  | moved _ hact => exact (exited_of_act hact hexit).1
  | served | drained | reaped | silent | countListener | countProcess | taken | still => exact hexit

/-! ## Reaped children and notices -/

namespace Process

/-- Weighs the children of listener `i` that `waitpid` has returned. -/
def waitedBy (i : Nat) (p : Process) : Nat := if p.parent = i ∧ p.reaped = true then 1 else 0

/-- Weighs the processes `waitpid` has returned with status 0. -/
def waitedClean (p : Process) : Nat := if p.reaped = true ∧ p.loc = .exited 0 then 1 else 0

/-- Publishing reaps nobody. -/
theorem waitedBy_deliver (i : Nat) (p : Process) (m : Broadcast) :
    (p.deliver m).waitedBy i = p.waitedBy i := by
  obtain ⟨s, hs⟩ := deliver_eq p m
  rw [hs]
  rfl

/-- Publishing changes no status. -/
theorem waitedClean_deliver (p : Process) (m : Broadcast) :
    (p.deliver m).waitedClean = p.waitedClean := by
  obtain ⟨s, hs⟩ := deliver_eq p m
  rw [hs]
  rfl

end Process

namespace Listener

/-- Notices with status 0 that are queued. -/
def cleanQueued (l : Listener) : Nat := l.sink.countP (·.isCleanExit)

/-- Publishing queues nothing. -/
theorem cleanQueued_deliver (l : Listener) (m : Broadcast) :
    (l.deliver m).cleanQueued = l.cleanQueued := by
  rw [cleanQueued, (deliver_keeps l m).1, cleanQueued]

end Listener

/-- Notices with status 0 the controller has counted in its collection loop. -/
def Controller.cleanTaken (c : Controller) : Nat :=
  match c.loc with
  | .collect counters => counters.clientsFinished
  | _ => 0

/-- **Children waited for and notices.** A child that was waited for has exited; a listener has
pushed one notice for each child it has waited for, and there are no other children that were waited
for; and the notices with status 0 are those of the children that returned 0. -/
structure TruthfulInv (s : State) : Prop where
  exited : ∀ p ∈ s.processes, p.reaped = true → p.Exited
  reported : ∀ i l, s.listeners[i]? = some l → total (Process.waitedBy i) s.processes = l.reported
  reaped : total Process.waited s.processes = total Listener.reported s.listeners
  clean : s.controller.iteration = 0 → total Process.waitedClean s.processes =
    s.controller.cleanTaken + total Listener.cleanQueued s.listeners

namespace TruthfulInv

variable {confs : List Config} {count : Nat} {s s' : State}

/-- Every truthful step keeps reaped processes exited. -/
theorem step_exited (hinv : TruthfulInv s) {a : Action} (hok : s.truthfulStep a = true)
    (h : s.step confs a = some s') : ∀ p ∈ s'.processes, p.reaped = true → p.Exited := by
  intro p' hp' hreaped
  obtain ⟨j, hj⟩ := List.mem_iff_getElem?.mp hp'
  have hany : ∀ k b, a = .process k b → (fun _ => True) b := fun _ _ _ => trivial
  rcases State.process_moved_or_launched h hany j p' hj with ⟨p, hp, -⟩ | ⟨i, -, rfl⟩
  · have hexited := hinv.exited p (List.mem_of_getElem? hp)
    rcases State.process_cases h hp hj with ⟨b, c, m, -, -, rfl⟩ | ⟨b, rfl, hact⟩ |
      ⟨i, status, rfl, rfl⟩ | ⟨-, -, r, sink, rfl⟩
    · obtain ⟨hsame, -, -, hloc⟩ := Process.deliver_keeps p m
      rw [Process.Exited, hloc]
      exact hexited (hsame ▸ hreaped)
    · rw [(Process.sink_of_act hact).1] at hreaped
      exact (Process.exited_of_act hact (hexited hreaped)).1
    · -- `waitpid` returns a process that has exited
      obtain ⟨q, hq, -, hloc⟩ := of_decide_eq_true hok
      obtain rfl := Option.some.inj (hq.symm.trans hp)
      exact ⟨status, hloc⟩
    · exact hexited hreaped
  · cases hreaped

/-- A listener that waits for children has one left to wait for. -/
theorem exists_unreaped (hinv : TruthfulInv s) (hs : (coordination confs count).Reachable s)
    {i : Nat} {l : Listener} (hl : s.listeners[i]? = some l) {unfinished : Int}
    (hloc : l.loc = .reaping unfinished) (hmore : 0 < unfinished) :
    ∃ p ∈ s.processes, p.Unreaped i := by
  have hchildren := State.total_childOf_eq_family hs i l hl
  have hreported := hinv.reported i l hl
  simp only [Listener.family, Listener.outstanding, hloc] at hchildren
  by_contra hnone
  -- otherwise all its children have been waited for
  have hsame : total (Process.waitedBy i) s.processes = total (Process.childOf i) s.processes := by
    refine total_congr fun p hp => ?_
    by_cases hparent : p.parent = i
    · have hreaped : p.reaped = true := by
        by_contra hnot
        exact hnone ⟨p, hp, hparent, Bool.eq_false_iff.mpr hnot⟩
      simp [Process.waitedBy, Process.childOf, hparent, hreaped]
    · simp [Process.waitedBy, Process.childOf, hparent]
  omega

/-- The weight of the reaped children is changed by their parents only. -/
theorem ownWeight_waitedBy (i : Nat) : Process.OwnWeight (Process.waitedBy i) :=
  ⟨Process.waitedBy_deliver i, fun _ _ => rfl, fun _ _ => rfl⟩

/-- Nobody but listener `i` waits for its children. -/
theorem total_waitedBy_step {a : Action} (hok : s.truthfulStep a = true)
    (h : s.step confs a = some s') {i : Nat} (ha : ∀ b, a ≠ .listener i b) :
    total (Process.waitedBy i) s'.processes = total (Process.waitedBy i) s.processes := by
  cases a with
  | controller | serveListener | serveProcess | takeListener | takeProcess =>
      exact State.total_processes_of_own (ownWeight_waitedBy i) h (by simp) (by simp)
  | process j b =>
      obtain ⟨p, p', hp, hact, rfl⟩ := State.step_process.mp h
      refine total_set_of_eq hp ?_
      rw [Process.waitedBy, (Process.sink_of_act hact).1, Process.parent_of_act hact,
        Process.waitedBy]
  | listener k b =>
      have hki : k ≠ i := fun hki => ha b (by rw [hki])
      obtain ⟨l, l', -, -, rfl⟩ := State.step_listener.mp h
      show total (Process.waitedBy i) (State.afterListener k s.processes b) = _
      cases b with
      | launch => simp [State.afterListener, Process.waitedBy, hki]
      | reap r =>
          cases r with
          | running | error => rfl
          | child pid status =>
              obtain ⟨p, hp, hunreaped, -⟩ := of_decide_eq_true hok
              simp only [State.afterListener, hp]
              refine total_set_of_eq hp ?_
              simp [Process.waitedBy, hunreaped.1, hki]
      | subscribe | receive | synced | launched | allReaped => rfl

/-- Every truthful step reports one child for each that is waited for. -/
theorem step_reported (hinv : TruthfulInv s) (hs : (coordination confs count).Reachable s)
    {a : Action} (hok : s.truthfulStep a = true) (h : s.step confs a = some s') {i : Nat}
    {l' : Listener} (hl' : s'.listeners[i]? = some l') :
    total (Process.waitedBy i) s'.processes = l'.reported := by
  have hlt : i < s.listeners.length := by
    rw [← State.length_listeners h]
    exact (List.getElem?_eq_some_iff.mp hl').1
  have hl := List.getElem?_eq_getElem hlt
  have hreported := hinv.reported i _ hl
  have hsame : total (Process.waitedBy i) s'.processes = total (Process.waitedBy i) s.processes →
      l'.reported = (s.listeners[i]).reported →
      total (Process.waitedBy i) s'.processes = l'.reported := by
    intro htotal hnone
    rw [htotal, hnone, hreported]
  rcases State.listener_cases h hl hl' with ⟨b, c, m, rfl, -, rfl⟩ | ⟨b, rfl, hact⟩ |
    ⟨-, hothers, r, sink, rfl⟩
  · exact hsame (State.total_processes_of_own (ownWeight_waitedBy i) h (by simp) (by simp))
      (Listener.deliver_keeps _ m).2
  · obtain ⟨x, x', -, -, rfl⟩ := State.step_listener.mp h
    cases Listener.change_of_act hact with
    | error hloc hmore =>
        -- there is a child left to wait for, so `waitpid` does not fail
        obtain ⟨p, hp, hunreaped⟩ := hinv.exists_unreaped hs hl hloc hmore
        exact absurd hunreaped (of_decide_eq_true hok p hp)
    | @child unfinished status pid hloc hmore =>
        obtain ⟨p, hp, hunreaped, -⟩ := of_decide_eq_true hok
        have hset := total_set (Process.waitedBy i) { p with reaped := true } hp
        have hbefore : p.waitedBy i = 0 := by simp [Process.waitedBy, hunreaped.2]
        have hafter : Process.waitedBy i { p with reaped := true } = 1 := by
          simp [Process.waitedBy, hunreaped.1]
        show total (Process.waitedBy i)
            (State.afterListener i s.processes (.reap (.child pid status))) =
          (s.listeners[i].report unfinished status).reported
        simp only [State.afterListener, hp, Listener.reported_report]
        omega
    | launch =>
        refine hsame ?_ rfl
        show total _ (s.processes ++ [{ parent := i }]) = _
        simp [Process.waitedBy]
    | subscribe | hello | ignore | theEnd | start | synced | launched | running | allReaped =>
        exact hsame rfl rfl
  · exact hsame (total_waitedBy_step hok h hothers) rfl

/-- Every truthful step reports one child for each that is waited for, over all listeners. -/
theorem step_reaped (hinv : TruthfulInv s) (hs : (coordination confs count).Reachable s)
    {a : Action} (hok : s.truthfulStep a = true) (h : s.step confs a = some s') :
    total Process.waited s'.processes = total Listener.reported s'.listeners := by
  have hreaped := hinv.reaped
  cases a with
  | controller | serveListener | serveProcess | takeListener | takeProcess =>
      rw [State.total_processes_of_own OrderlyInv.ownWeight_waited h (by simp) (by simp),
        State.total_listeners_of_own NoticeInv.ownWeight_reported h (by simp)]
      exact hreaped
  | process j a =>
      obtain ⟨p, p', hp, hact, rfl⟩ := State.step_process.mp h
      refine (total_set_of_eq hp ?_).trans hreaped
      rw [Process.waited, (Process.sink_of_act hact).1, Process.waited]
  | listener i a =>
      obtain ⟨l, l', hl, hact, rfl⟩ := State.step_listener.mp h
      have hset := total_set Listener.reported l' hl
      cases Listener.change_of_act hact with
      | error hloc hmore =>
          obtain ⟨p, hp, hunreaped⟩ := hinv.exists_unreaped hs hl hloc hmore
          exact absurd hunreaped (of_decide_eq_true hok p hp)
      | @child unfinished status pid =>
          obtain ⟨p, hp, hunreaped, -⟩ := of_decide_eq_true hok
          have hone := total_set Process.waited { p with reaped := true } hp
          have hbefore : p.waited = 0 := by simp [Process.waited, hunreaped.2]
          have hafter : Process.waited { p with reaped := true } = 1 := rfl
          rw [Listener.reported_report] at hset
          simp only [State.afterListener, hp, State.setListener]
          omega
      | launch =>
          have hnone : total Process.waited [{ parent := i }] = 0 := rfl
          show total Process.waited (s.processes ++ [{ parent := i }]) = _
          rw [total_append, hnone]
          exact hreaped.trans (Nat.add_right_cancel hset).symm
      | subscribe | hello | ignore | theEnd | start | synced | launched | running | allReaped =>
          exact hreaped.trans (Nat.add_right_cancel hset).symm

/-- What a process does leaves the status with which it was waited for. -/
theorem waitedClean_of_act {p p' : Process} {a : Process.Act} (hexited : p.reaped = true → p.Exited)
    (hact : p.act a = some p') : p'.waitedClean = p.waitedClean := by
  have hsame := (Process.sink_of_act hact).1
  by_cases hreaped : p.reaped = true
  · have hloc : p'.loc = p.loc := by
      obtain ⟨status, hstatus⟩ := hexited hreaped
      cases Process.change_of_act hact with
      | subscribe | ignore => rfl
      | hello h | start h | synced h | result h | exit h =>
          rw [hstatus] at h
          cases h
      | die h => exact absurd ⟨status, hstatus⟩ h
    rw [Process.waitedClean, hsame, hloc, Process.waitedClean]
  · simp [Process.waitedClean, hsame, hreaped]

/-- The controller's own actions take no notice as long as the iteration lasts. -/
theorem cleanTaken_act {confs : List Config} {c c' : Controller} {a : Controller.Act}
    {m : Option Broadcast} (hact : c.act confs a = some (c', m)) (hi' : c'.iteration = 0) :
    c'.cleanTaken = c.cleanTaken ∧ c.iteration = 0 := by
  cases Controller.change_of_act hact with
  | helloListener | helloSocket => exact ⟨rfl, hi'⟩
  | enter hloc | theEnd hloc | startProcesses hloc | startWebsockets hloc =>
      exact ⟨by simp [Controller.cleanTaken, Controller.goto, hloc], hi'⟩
  | finish => cases hi'

/-- Every truthful step keeps account of the children that returned 0. -/
theorem step_clean (hinv : TruthfulInv s) (hs : (coordination confs count).Reachable s)
    {a : Action} (hok : s.truthfulStep a = true)
    (h : s.step confs a = some s') (hi' : s'.controller.iteration = 0) :
    total Process.waitedClean s'.processes =
      s'.controller.cleanTaken + total Listener.cleanQueued s'.listeners := by
  have hclean := hinv.clean
  cases a with
  | controller a =>
      obtain ⟨c, m, hact, rfl⟩ := State.step_controller.mp h
      rw [State.controller_controllerStep] at hi' ⊢
      obtain ⟨htaken, hi⟩ := cleanTaken_act hact hi'
      rw [htaken, State.total_processes_controllerStep Process.waitedClean_deliver,
        State.total_listeners_controllerStep Listener.cleanQueued_deliver]
      exact hclean hi
  | serveListener i =>
      obtain ⟨l, c, hl, hc, -, rfl⟩ := State.step_serveListener.mp h
      obtain ⟨n, conf', hloc, -, -, rfl⟩ := Controller.countListener_eq_some hc
      have hbalance := hclean hi'
      have hqueue := total_set_of_eq (f := Listener.cleanQueued)
        (y := { l with syncclient := .replied }) hl rfl
      simpa [State.setListener, Controller.cleanTaken, Controller.goto, hloc, hqueue] using hbalance
  | serveProcess j =>
      obtain ⟨p, c, hp, hc, -, rfl⟩ := State.step_serveProcess.mp h
      obtain ⟨n, conf', hloc, -, -, rfl⟩ := Controller.countProcess_eq_some hc
      have hbalance := hclean hi'
      have hwaited := total_set_of_eq (f := Process.waitedClean)
        (y := { p with syncclient := .replied }) hp rfl
      simpa [State.setProcess, Controller.cleanTaken, Controller.goto, hloc, hwaited] using hbalance
  | takeListener i =>
      obtain ⟨l, m, sink, c, hl, hsink, hc, rfl⟩ := State.step_takeListener.mp h
      obtain ⟨counters, conf', hloc, -, -, rfl⟩ := Controller.take_eq_some hc
      have hbalance := hclean hi'
      have hqueue := total_set Listener.cleanQueued { l with sink := sink } hl
      have habsorb := congrArg Counters.clientsFinished (counters.foldl_absorb [m])
      -- the notice leaves the queue and is counted
      simp only [Listener.cleanQueued, hsink, List.countP_cons] at hqueue
      simp only [List.foldl_cons, List.foldl_nil, List.countP_singleton] at habsorb
      simp only [Controller.cleanTaken, hloc] at hbalance
      simp only [State.setListener, Controller.cleanTaken, Controller.goto, habsorb]
      omega
  | takeProcess j =>
      obtain ⟨p, m, sink, c, hp, hsink, hc, rfl⟩ := State.step_takeProcess.mp h
      obtain ⟨counters, conf', hloc, -, -, rfl⟩ := Controller.take_eq_some hc
      have hbalance := hclean hi'
      have hresult : m.isFinished = false := by
        apply (NoticesKept.of_reachable hs).results p (List.mem_of_getElem? hp)
        rw [hsink]
        exact List.mem_cons_self
      have hwaited := total_set_of_eq (f := Process.waitedClean) (y := { p with sink := sink })
        hp rfl
      have hsame : (counters.absorb m).clientsFinished = counters.clientsFinished := by
        cases m with
        | finished name status => cases hresult
        | result stats => rfl
      simp only [Controller.cleanTaken, hloc] at hbalance
      simp only [State.setProcess, Controller.cleanTaken, Controller.goto, hsame, hwaited]
      exact hbalance
  | process j a =>
      obtain ⟨p, p', hp, hact, rfl⟩ := State.step_process.mp h
      have hsame := waitedClean_of_act (hinv.exited p (List.mem_of_getElem? hp)) hact
      exact (total_set_of_eq hp hsame).trans (hclean hi')
  | listener i a =>
      obtain ⟨l, l', hl, hact, rfl⟩ := State.step_listener.mp h
      have hbalance := hclean hi'
      have hqueue := total_set Listener.cleanQueued l' hl
      cases Listener.change_of_act hact with
      | error hloc hmore =>
          obtain ⟨p, hp, hunreaped⟩ := hinv.exists_unreaped hs hl hloc hmore
          exact absurd hunreaped (of_decide_eq_true hok p hp)
      | @child unfinished status pid =>
          obtain ⟨p, hp, hunreaped, hexit⟩ := of_decide_eq_true hok
          have hset := total_set Process.waitedClean { p with reaped := true } hp
          have hbefore : p.waitedClean = 0 := by simp [Process.waitedClean, hunreaped.2]
          have hafter : Process.waitedClean { p with reaped := true } =
              if status = 0 then 1 else 0 := by simp [Process.waitedClean, hexit]
          -- the notice says what the child returned
          have hpush : (l.report unfinished status).cleanQueued =
              l.cleanQueued + if status = 0 then 1 else 0 := by
            rw [Listener.cleanQueued, Listener.sink_report, List.countP_append,
              List.countP_singleton, isCleanExit_finished, Listener.cleanQueued]
            simp
          rw [hbefore, hafter] at hset
          rw [hpush] at hqueue
          simp only [State.afterListener, hp, State.setListener]
          omega
      | launch =>
          have hnone : total Process.waitedClean [{ parent := i }] = 0 := rfl
          show total Process.waitedClean (s.processes ++ [{ parent := i }]) = _
          rw [total_append, hnone]
          exact hbalance.trans (congrArg _ (Nat.add_right_cancel hqueue).symm)
      | subscribe | hello | ignore | theEnd | start | synced | launched | running | allReaped =>
          exact hbalance.trans (congrArg _ (Nat.add_right_cancel hqueue).symm)

/-- The account is kept in every truthful run. -/
theorem of_reachable (hs : (truthful confs count).Reachable s) : TruthfulInv s := by
  refine hs.invariant_of (Q := fun s => (coordination confs count).Reachable s)
    (fun s hs => hs.of_restrict) ?_ ?_
  · refine ⟨by simp [restrict, coordination], fun i l hl => ?_, by simp [restrict, coordination],
      by simp [restrict, coordination, Controller.cleanTaken, Listener.cleanQueued]⟩
    simp only [restrict, coordination] at hl ⊢
    rw [List.eq_of_mem_replicate (List.mem_of_getElem? hl)]
    rfl
  · intro s a s' hreach hinv h
    obtain ⟨hok, hstep⟩ := truthful_step.mp h
    exact ⟨hinv.step_exited hok hstep, fun _ _ => hinv.step_reported hreach hok hstep,
      hinv.step_reaped hreach hok hstep, hinv.step_clean hreach hok hstep⟩

end TruthfulInv

/-- **`waitpid` never fails.** In every truthful run over any configurations, with any number of
listeners, whichever children die, no listener ever calls `waitpid` without a child to wait for: the
branch of `listener.cpp` that reports an error with the unset variable `status` is not taken. -/
theorem waitpid_never_fails {confs : List Config} {count : Nat} {s : State}
    (hs : (truthful confs count).Reachable s) (i : Nat) (status : Int) :
    (truthful confs count).step s (.listener i (.reap (.error status))) = none := by
  by_contra hsome
  obtain ⟨s', h⟩ := Option.ne_none_iff_exists'.mp hsome
  obtain ⟨hok, hstep⟩ := truthful_step.mp h
  obtain ⟨l, l', hl, hact, -⟩ := State.step_listener.mp hstep
  cases Listener.change_of_act hact with
  | error hloc hmore =>
      obtain ⟨p, hmem, hunreaped⟩ :=
        (TruthfulInv.of_reachable hs).exists_unreaped hs.of_restrict hl hloc hmore
      exact of_decide_eq_true hok p hmem hunreaped

/-- The listener of `soloRun` waits for its only child. -/
theorem waitpid_never_fails_solo :
    ∃ s : State, (truthful [.solo] 1).Reachable s ∧ (∃ l ∈ s.listeners, l.loc = .reaping 1) ∧
      (truthful [.solo] 1).step s (.listener 0 (.reap (.error 0))) = none := by
  obtain ⟨s, hs, hend⟩ := (truthful [.solo] 1).exists_of_exec_any (soloRun.take 12)
    (fun s => ∃ l ∈ s.listeners, l.loc = .reaping 1) (by decide)
  have hreach := reachable_of_exec _ hs
  exact ⟨s, hreach, of_decide_eq_true hend, waitpid_never_fails hreach 0 0⟩

namespace State

variable {conf : Config} {count : Nat} {s : State}

/-- When the collection loop can be left every child has been waited for. -/
theorem all_reaped_of_collected (hm : 0 ≤ conf.machines) (hp : 0 ≤ conf.processes)
    (hs : (truthful [conf] count).Reachable s) {counters : Counters}
    (hloc : s.controller.loc = .collect counters)
    (hexit : ¬ counters.Waiting conf.finishedExpected) :
    s.processes.length = conf.finishedExpected.toNat ∧
      counters.finished = conf.finishedExpected.toNat ∧
      (∀ l ∈ s.listeners, l.sink = []) ∧ ∀ p ∈ s.processes, p.reaped = true := by
  have hreach : (coordination [conf] count).Reachable s := hs.of_restrict
  have hi := (Obeys.of_reachable hp hreach).single.iteration_of_collect hloc
  have hreported := NoticeInv.reported_le hm hp hreach
  have hbalance := (NoticeInv.of_reachable hp hreach).balance
  have hlen := length_processes_le hm hp hreach
  simp only [Controller.consumed, hi, hloc] at hbalance
  rw [Counters.waiting_iff] at hexit
  have hqueue : total Listener.undelivered s.listeners = 0 := by omega
  -- a notice stands for a child that was waited for, so all that can exist have been
  have hreaped := (TruthfulInv.of_reachable hs).reaped
  have hle : ∀ p ∈ s.processes, Process.waited p ≤ 1 := fun p _ => by
    unfold Process.waited
    split <;> simp
  have hbound := total_le_total hle
  rw [total_one] at hbound
  refine ⟨by omega, by omega, fun l hl => ?_, fun p hmem => ?_⟩
  · exact List.length_eq_zero_iff.mp (total_eq_zero.mp hqueue l hl)
  · have hone := eq_of_total_eq hle (by rw [total_one]; omega) p hmem
    by_contra hnot
    simp [Process.waited, hnot] at hone

end State

/-- **Exits counted truthfully.** In every truthful run over one configuration, whichever children
die and whenever they do: when the collection loop can be left, all `machines * processes` children
have exited and have been waited for, and `clientsFinished` and `clientsDied` are the numbers of
those that exited with status 0 and with another one. -/
theorem exits_counted {conf : Config} {count : Nat} {s : State} (hm : 0 ≤ conf.machines)
    (hp : 0 ≤ conf.processes) (hs : (truthful [conf] count).Reachable s) {counters : Counters}
    (hloc : s.controller.loc = .collect counters)
    (hexit : ¬ counters.Waiting conf.finishedExpected) :
    (s.processes.length : Int) = conf.machines * conf.processes ∧
      (∀ p ∈ s.processes, p.Exited ∧ p.reaped = true) ∧
      counters.clientsFinished = s.processes.countP (fun p => p.loc = .exited 0) ∧
      counters.clientsDied = s.processes.countP (fun p => p.loc ≠ .exited 0) := by
  obtain ⟨hlen, hfinished, hsinks, hreaped⟩ := State.all_reaped_of_collected hm hp hs hloc hexit
  have hinv := TruthfulInv.of_reachable hs
  have hi := (State.Obeys.of_reachable hp hs.of_restrict).single.iteration_of_collect hloc
  have hexpected : ((conf.finishedExpected.toNat : Nat) : Int) = conf.machines * conf.processes :=
    Int.toNat_of_nonneg (Int.mul_nonneg hm hp)
  have hqueue : total Listener.cleanQueued s.listeners = 0 :=
    total_eq_zero.mpr fun l hl => by rw [Listener.cleanQueued, hsinks l hl, List.countP_nil]
  -- everybody has been waited for, so the clean exits waited for are all the clean exits
  have hclean := hinv.clean hi
  rw [hqueue, total_congr fun p hmem => show p.waitedClean = if p.loc = .exited 0 then 1 else 0 by
    simp [Process.waitedClean, hreaped p hmem], total_eq_countP] at hclean
  simp only [Controller.cleanTaken, hloc, Nat.add_zero] at hclean
  have hsplit := List.length_eq_countP_add_countP (fun p : Process => p.loc = .exited 0)
    (l := s.processes)
  unfold Counters.finished at hfinished
  refine ⟨by omega, fun p hmem => ⟨hinv.exited p hmem (hreaped p hmem), hreaped p hmem⟩,
    hclean.symm, ?_⟩
  simp only [decide_eq_true_eq, decide_not] at hsplit ⊢
  omega

/-- The only child of `soloRun` is killed at work: no client is counted as finished. -/
theorem exits_counted_killed :
    ∃ s : State, (truthful [.solo] 1).Reachable s ∧ s.controller.loc = .collect ⟨0, 1, 1⟩ ∧
      0 = s.processes.countP (fun p => p.loc = .exited 0) ∧
      1 = s.processes.countP (fun p => p.loc ≠ .exited 0) := by
  obtain ⟨s, hs, hend⟩ := (truthful [.solo] 1).exists_of_exec_any
    (soloRun.take 21 ++ [.process 0 (.die 9), .listener 0 (.reap (.child 0 9)), .takeProcess 0,
      .takeListener 0]) (fun s => s.controller.loc = .collect ⟨0, 1, 1⟩) (by decide)
  have hloc := of_decide_eq_true hend
  have hreach := reachable_of_exec _ hs
  exact ⟨s, hreach, hloc, (exits_counted (by decide) (by decide) hreach hloc (by decide)).2.2⟩

end WsPerftester
