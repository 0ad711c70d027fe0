import WsPerftester.Coordination.Collection

/-! # Results at the end of an iteration

Runs in which every process pushes its results, exits with status 0 and is then reaped. The results
pushed are those the controller has counted and those still queued (`OrderlyInv`). When the last
`Finished` notice is taken every process has been reaped, so all `machines * processes * instances`
results have been pushed; the loop is left at once, and the printed statistics lack exactly those
that are still queued on the connections of the processes. -/

namespace WsPerftester

open TransitionSystem Population

/-! ## Orderly runs -/

namespace State

/-- No process is killed, and `waitpid` returns 0 or a child of the caller that has exited with the
returned status and was not returned before. -/
def orderlyStep (s : State) : Action → Bool
  | .process _ a => a.survives
  | .listener i (.reap (.child pid status)) =>
      s.processes[pid]?.any fun p => p.parent = i ∧ p.loc = .exited status ∧ p.reaped = false
  | .listener _ (.reap (.error _)) => false
  | _ => true

/-- Orderly steps are free of crashes. -/
theorem crashFree_of_orderlyStep {s : State} {a : Action} (h : s.orderlyStep a = true) :
    a.crashFree = true := by
  cases a with
  | process j a => exact h
  | _ => rfl

end State

/-- A run over one configuration that is orderly. -/
def orderly (conf : Config) (count : Nat) : TransitionSystem State Action :=
  (coordination [conf] count).restrict State.orderlyStep

/-- A step of such a run is an orderly step. -/
theorem orderly_step {conf : Config} {count : Nat} {s s' : State} {a : Action} :
    (orderly conf count).step s a = some s' ↔ s.orderlyStep a = true ∧ s.step [conf] a = some s' :=
  restrict_step _

/-- An orderly run is free of crashes. -/
theorem crashFree_of_orderly {conf : Config} {count : Nat} {s : State}
    (hs : (orderly conf count).Reachable s) : (crashFree conf count).Reachable s :=
  hs.restrict_mono fun _ _ h => State.crashFree_of_orderlyStep h

namespace Process

/-- Weighs the processes `waitpid` has returned. -/
def waited (p : Process) : Nat := if p.reaped then 1 else 0

/-- Results a process has pushed and the controller has not taken. -/
def undelivered (p : Process) : Nat := p.sink.length

/-- A process pushes one result at a time, and is never reaped by its own action. -/
theorem sink_of_act {p p' : Process} {a : Act} (h : p.act a = some p') :
    p'.reaped = p.reaped ∧ p'.pushed + p.undelivered = p.pushed + p'.undelivered := by
  cases change_of_act h with
  | result => exact ⟨rfl, by simp [undelivered]; omega⟩
  | subscribe | hello | ignore | start | synced | exit | die => exact ⟨rfl, rfl⟩

/-- A process that has exited does nothing; only its subscriptions may still be processed. -/
theorem exited_of_act {p p' : Process} {a : Act} (hact : p.act a = some p') (hexit : p.Exited) :
    p'.Exited ∧ p'.sink = p.sink := by
  obtain ⟨status, hloc⟩ := hexit
  cases change_of_act hact with
  | subscribe => exact ⟨⟨status, hloc⟩, rfl⟩
  | hello h | synced h | start h | result h | exit h => rw [hloc] at h; cases h
  | ignore h => rcases h with ⟨h, -⟩ | ⟨h, -⟩ <;> rw [hloc] at h <;> cases h
  | die h => exact absurd ⟨status, hloc⟩ h

/-- Publishing reaches no sink. -/
theorem deliver_keeps (p : Process) (m : Broadcast) :
    (p.deliver m).reaped = p.reaped ∧ (p.deliver m).pushed = p.pushed ∧
      (p.deliver m).sink = p.sink ∧ (p.deliver m).loc = p.loc := by
  obtain ⟨s, hs⟩ := deliver_eq p m
  rw [hs]
  exact ⟨rfl, rfl, rfl, rfl⟩

/-- Publishing reaps nobody. -/
theorem waited_deliver (p : Process) (m : Broadcast) : (p.deliver m).waited = p.waited := by
  rw [waited, (deliver_keeps p m).1, waited]

/-- Publishing queues nothing. -/
theorem undelivered_deliver (p : Process) (m : Broadcast) :
    (p.deliver m).undelivered = p.undelivered := by
  rw [undelivered, (deliver_keeps p m).2.2.1, undelivered]

end Process

/-- Results the controller has counted in its collection loop. -/
def Controller.received (c : Controller) : Nat :=
  match c.loc with
  | .collect counters => counters.resultsReceived
  | _ => 0

/-- The iteration is never entered again. -/
theorem Controller.iteration_of_moves {confs : List Config} {c c' : Controller} {a : Action}
    (hmoves : c.Moves confs a c') (hi' : c'.iteration = 0) : c.iteration = 0 := by
  cases hmoves with
  | acts hact =>
      cases change_of_act hact with
      | finish => simp at hi'
      | enter | theEnd | helloListener | startProcesses | helloSocket | startWebsockets =>
          exact hi'
  | countsListener hcount =>
      obtain ⟨n, conf, -, -, -, rfl⟩ := countListener_eq_some hcount
      exact hi'
  | countsProcess hcount =>
      obtain ⟨n, conf, -, -, -, rfl⟩ := countProcess_eq_some hcount
      exact hi'
  | takesListener htake | takesProcess htake =>
      obtain ⟨counters, conf, -, -, -, rfl⟩ := take_eq_some htake
      exact hi'
  | listener | process => exact hi'

/-- **Conservation of the results.** A reaped process has exited, there is one notice for each
reaped process, and the results pushed are those counted and those still queued. -/
structure OrderlyInv (s : State) : Prop where
  exited : ∀ p ∈ s.processes, p.reaped = true → p.Exited
  reaped : total Process.waited s.processes = total Listener.reported s.listeners
  results : s.controller.iteration = 0 → total Process.pushed s.processes =
    s.controller.received + total Process.undelivered s.processes

namespace OrderlyInv

variable {conf : Config} {count : Nat} {s s' : State}

/-- Every orderly step keeps reaped processes exited. -/
theorem step_exited (hinv : OrderlyInv s) {a : Action} (hok : s.orderlyStep a = true)
    (h : s.step [conf] a = some s') : ∀ p ∈ s'.processes, p.reaped = true → p.Exited := by
  have hexited := hinv.exited
  cases a with
  | controller a =>
      obtain ⟨c, m, -, rfl⟩ := State.step_controller.mp h
      cases m with
      | none => exact hexited
      | some m =>
          intro p hp hreaped
          obtain ⟨q, hq, rfl⟩ := List.mem_map.mp hp
          obtain ⟨hsame, -, -, hloc⟩ := Process.deliver_keeps q m
          rw [Process.Exited, hloc]
          exact hexited q hq (hsame ▸ hreaped)
  | serveListener i =>
      obtain ⟨l, c, -, -, -, rfl⟩ := State.step_serveListener.mp h
      exact hexited
  | serveProcess j =>
      obtain ⟨p, c, hp, -, -, rfl⟩ := State.step_serveProcess.mp h
      exact forall_set hexited (hexited p (List.mem_of_getElem? hp))
  | takeListener i =>
      obtain ⟨l, m, sink, c, -, -, -, rfl⟩ := State.step_takeListener.mp h
      exact hexited
  | takeProcess j =>
      obtain ⟨p, m, sink, c, hp, -, -, rfl⟩ := State.step_takeProcess.mp h
      exact forall_set hexited (hexited p (List.mem_of_getElem? hp))
  | listener i a =>
      obtain ⟨l, l', -, -, rfl⟩ := State.step_listener.mp h
      cases a with
      | launch =>
          intro p hp hreaped
          rcases List.mem_append.mp hp with hp | hp
          · exact hexited p hp hreaped
          · rw [List.mem_singleton.mp hp] at hreaped
            cases hreaped
      | reap r =>
          cases r with
          | running | error => exact hexited
          | child pid status =>
              -- an orderly `waitpid` returns a process that has exited
              obtain ⟨p, hp, hprocess⟩ := Option.any_eq_true _ _ |>.mp hok
              obtain ⟨-, hloc, -⟩ := of_decide_eq_true hprocess
              simp only [State.afterListener, hp]
              exact forall_set hexited fun _ => ⟨status, hloc⟩
      | _ => exact hexited
  | process j a =>
      obtain ⟨p, p', hp, hact, rfl⟩ := State.step_process.mp h
      refine forall_set hexited fun hreaped => ?_
      rw [(Process.sink_of_act hact).1] at hreaped
      exact (Process.exited_of_act hact (hexited p (List.mem_of_getElem? hp) hreaped)).1

/-- A process is reaped by its parent only. -/
theorem ownWeight_waited : Process.OwnWeight Process.waited :=
  ⟨Process.waited_deliver, fun _ _ => rfl, fun _ _ => rfl⟩

/-- Every orderly step reports one process for each it reaps. -/
theorem step_reaped (hinv : OrderlyInv s) {a : Action} (hok : s.orderlyStep a = true)
    (h : s.step [conf] a = some s') :
    total Process.waited s'.processes = total Listener.reported s'.listeners := by
  have hreaped := hinv.reaped
  cases a with
  | controller | serveListener | serveProcess | takeListener | takeProcess =>
      rw [State.total_processes_of_own ownWeight_waited h (by simp) (by simp),
        State.total_listeners_of_own NoticeInv.ownWeight_reported h (by simp)]
      exact hreaped
  | process j a =>
      obtain ⟨p, p', hp, hact, rfl⟩ := State.step_process.mp h
      refine (total_set_of_eq hp ?_).trans hreaped
      rw [Process.waited, (Process.sink_of_act hact).1, Process.waited]
  | listener i a =>
      obtain ⟨l, l', hl, hact, rfl⟩ := State.step_listener.mp h
      have hset := total_set Listener.reported l' hl
      cases Listener.change_of_act hact with
      | error => cases hok
      | @child unfinished status pid =>
          obtain ⟨p, hp, hprocess⟩ := Option.any_eq_true _ _ |>.mp hok
          obtain ⟨-, -, hfresh⟩ := of_decide_eq_true hprocess
          have hone := total_set Process.waited { p with reaped := true } hp
          have hbefore : p.waited = 0 := by simp [Process.waited, hfresh]
          have hafter : Process.waited { p with reaped := true } = 1 := rfl
          -- the process is waited for and reported in one step
          rw [Listener.reported_report] at hset
          simp only [State.afterListener, hp, State.setListener]
          omega
      | launch =>
          have hnone : total Process.waited [{ parent := i }] = 0 := rfl
          show total Process.waited (s.processes ++ [{ parent := i }]) = _
          rw [total_append, hnone]
          exact hreaped.trans (Nat.add_right_cancel hset).symm
      | subscribe | hello | ignore | theEnd | start | synced | launched | running | allReaped =>
          exact hreaped.trans (Nat.add_right_cancel hset).symm

/-- Every step conserves the results as long as the iteration lasts. -/
theorem step_results (hnotice : NoticeInv conf s) (hinv : OrderlyInv s)
    {a : Action} (h : s.step [conf] a = some s') (hi' : s'.controller.iteration = 0) :
    total Process.pushed s'.processes =
      s'.controller.received + total Process.undelivered s'.processes := by
  have hresults := hinv.results
  cases a with
  | controller a =>
      obtain ⟨c, m, hact, rfl⟩ := State.step_controller.mp h
      rw [State.controller_controllerStep] at hi' ⊢
      have hsame : c.received = s.controller.received ∧ s.controller.iteration = 0 := by
        cases Controller.change_of_act hact with
        | helloListener hloc | helloSocket hloc => exact ⟨rfl, hi'⟩
        | enter hloc | theEnd hloc | startProcesses hloc | startWebsockets hloc =>
            exact ⟨by simp [Controller.received, Controller.goto, hloc], hi'⟩
        | finish => simp at hi'
      have hbalance := hresults hsame.2
      rw [hsame.1, State.total_processes_controllerStep fun p m => (p.deliver_keeps m).2.1,
        State.total_processes_controllerStep Process.undelivered_deliver]
      exact hbalance
  | serveListener i =>
      obtain ⟨l, c, -, hc, -, rfl⟩ := State.step_serveListener.mp h
      obtain ⟨n, conf', hloc, hconf, -, rfl⟩ := Controller.countListener_eq_some hc
      have hbalance := hresults hi'
      simpa [State.setListener, Controller.received, Controller.goto, hloc] using hbalance
  | serveProcess j =>
      obtain ⟨p, c, hp, hc, -, rfl⟩ := State.step_serveProcess.mp h
      obtain ⟨n, conf', hloc, hconf, -, rfl⟩ := Controller.countProcess_eq_some hc
      have hbalance := hresults hi'
      have hpushed := total_set_of_eq (f := Process.pushed)
        (y := { p with syncclient := .replied }) hp rfl
      have hqueue := total_set_of_eq (f := Process.undelivered)
        (y := { p with syncclient := .replied }) hp rfl
      simp only [Controller.received, hloc] at hbalance
      simp only [State.setProcess, Controller.received, Controller.goto]
      omega
  | takeListener i =>
      obtain ⟨l, m, sink, c, hl, hsink, hc, rfl⟩ := State.step_takeListener.mp h
      obtain ⟨counters, conf', hloc, hconf, -, rfl⟩ := Controller.take_eq_some hc
      have hbalance := hresults hi'
      have hm := hnotice.notice_of_head hl hsink
      have habsorb := counters.resultsReceived_absorb m
      simp only [hm, if_true, Nat.add_zero] at habsorb
      simpa [State.setListener, Controller.received, Controller.goto, hloc, habsorb] using hbalance
  | takeProcess j =>
      obtain ⟨p, m, sink, c, hp, hsink, hc, rfl⟩ := State.step_takeProcess.mp h
      obtain ⟨counters, conf', hloc, hconf, -, rfl⟩ := Controller.take_eq_some hc
      have hbalance := hresults hi'
      have hm := hnotice.result_of_head hp hsink
      have habsorb := counters.resultsReceived_absorb m
      have hpushed := total_set_of_eq (f := Process.pushed) (y := { p with sink := sink }) hp rfl
      have hqueue := total_set Process.undelivered { p with sink := sink } hp
      simp only [Controller.received, hloc] at hbalance
      -- the result leaves the queue and is counted
      simp only [Process.undelivered, hsink, List.length_cons] at hqueue
      simp only [hm, Bool.false_eq_true, if_false] at habsorb
      simp only [State.setProcess, Controller.received, Controller.goto, habsorb]
      omega
  | process j a =>
      obtain ⟨p, p', hp, hact, rfl⟩ := State.step_process.mp h
      have hbalance := hresults hi'
      -- a result is pushed and queued at once
      have hone := (Process.sink_of_act hact).2
      have hpushed := total_set Process.pushed p' hp
      have hqueue := total_set Process.undelivered p' hp
      simp only [State.setProcess]
      omega
  | listener i a =>
      obtain ⟨l, l', -, -, rfl⟩ := State.step_listener.mp h
      -- a child is launched with nothing pushed
      have hbalance := hresults hi'
      show total Process.pushed (State.afterListener i s.processes a) =
        s.controller.received + total Process.undelivered (State.afterListener i s.processes a)
      rw [State.total_afterListener fun _ => rfl, State.total_afterListener fun _ => rfl]
      simpa [Process.undelivered] using hbalance

/-- The results are conserved in every orderly run. -/
theorem of_reachable (hp : 0 ≤ conf.processes) (hs : (orderly conf count).Reachable s) :
    OrderlyInv s := by
  refine hs.invariant_of (fun s hs => NoticeInv.of_reachable hp hs.of_restrict) ?_ ?_
  · exact ⟨by simp [coordination, restrict], by simp [coordination, restrict],
      by simp [coordination, restrict, Controller.received]⟩
  · intro s a s' hnotice horderly h
    obtain ⟨hok, hstep⟩ := orderly_step.mp h
    exact ⟨horderly.step_exited hok hstep, horderly.step_reaped hok hstep,
      horderly.step_results hnotice hstep⟩

end OrderlyInv

/-! ## The exit of the collection loop -/

namespace State

variable {conf : Config} {count : Nat} {s s' : State}

/-- The collection loop is left next: its guard is false. -/
def Collected (conf : Config) (s : State) : Prop :=
  ∃ counters, s.controller.loc = .collect counters ∧ ¬ counters.Waiting conf.finishedExpected

/-- The step takes the last notice the collection loop waits for. -/
def TakesLastFinished (conf : Config) (s : State) (a : Action) : Prop :=
  ∃ i counters, a = .takeListener i ∧ s.controller.loc = .collect counters ∧
    (counters.finished : Int) + 1 = conf.finishedExpected

/-- The last notice is taken only when no result is queued. -/
def ResultsBeforeLast (conf : Config) (s : State) (a : Action) : Prop :=
  s.TakesLastFinished conf a → ∀ p ∈ s.processes, p.sink = []

/-- Nothing is queued exactly when every queue is empty. -/
theorem sinks_empty_iff {processes : List Process} :
    (∀ p ∈ processes, p.sink = []) ↔ total Process.undelivered processes = 0 := by
  rw [total_eq_zero]
  exact forall₂_congr fun p _ => List.length_eq_zero_iff.symm

/-- **At the exit everybody is done.** Every process has been reaped, has exited and has pushed its
results. -/
theorem done_of_collected (hm : 0 ≤ conf.machines) (hp : 0 ≤ conf.processes)
    (hs : (orderly conf count).Reachable s) (hexit : s.Collected conf) :
    s.processes.length = conf.finishedExpected.toNat ∧
      ∀ p ∈ s.processes, p.Exited ∧ p.pushed = conf.instances.toNat := by
  have hreach : (coordination [conf] count).Reachable s := hs.of_restrict
  have hfree := crashFree_of_orderly hs
  obtain ⟨counters, hloc, hguard⟩ := hexit
  have hi := (Obeys.of_reachable hp hreach).single.iteration_of_collect hloc
  have horderly := OrderlyInv.of_reachable hp hs
  -- all notices have been taken, so all have been pushed
  have hreported := NoticeInv.reported_le hm hp hreach
  have hbalance := (NoticeInv.of_reachable hp hreach).balance
  simp only [Controller.consumed, hi, hloc] at hbalance
  rw [Counters.waiting_iff] at hguard
  have hlen := length_processes_le hm hp hreach
  -- a notice stands for a reaped process, so all that can exist have been reaped
  have hwaited : total Process.waited s.processes = total (fun _ => 1) s.processes := by
    have hle : total Process.waited s.processes ≤ total (fun _ => 1) s.processes :=
      total_le_total fun p _ => by unfold Process.waited; split <;> simp
    rw [horderly.reaped, total_one] at hle ⊢
    omega
  have hall : ∀ p ∈ s.processes, p.reaped = true := by
    intro p hmem
    have hone := eq_of_total_eq (fun p _ => by unfold Process.waited; split <;> simp)
      hwaited p hmem
    by_contra hnot
    simp [Process.waited, hnot] at hone
  rw [horderly.reaped, total_one] at hwaited
  refine ⟨by omega, fun p hmem => ?_⟩
  have hexited := horderly.exited p hmem (hall p hmem)
  have hstage := (processes_obey hm hp hfree p hmem).stage
  obtain ⟨status, hout⟩ := hexited
  simp only [Process.Stage, hout] at hstage
  exact ⟨⟨status, hout⟩, hstage.2.2⟩

/-- At the exit the results counted and those still queued are all the results. -/
theorem results_of_collected (hm : 0 ≤ conf.machines) (hp : 0 ≤ conf.processes)
    (hn : 0 ≤ conf.instances) (hs : (orderly conf count).Reachable s) {counters : Counters}
    (hloc : s.controller.loc = .collect counters)
    (hguard : ¬ counters.Waiting conf.finishedExpected) :
    ((counters.resultsReceived + total Process.undelivered s.processes : Nat) : Int) =
      conf.resultsExpected := by
  obtain ⟨hlen, hdone⟩ := done_of_collected hm hp hs ⟨counters, hloc, hguard⟩
  have hi := (Obeys.of_reachable hp hs.of_restrict).single.iteration_of_collect hloc
  have hresults := (OrderlyInv.of_reachable hp hs).results hi
  have hpushed : total Process.pushed s.processes = total (fun _ => conf.instances.toNat * 1)
      s.processes := total_congr fun p hmem => by rw [(hdone p hmem).2, Nat.mul_one]
  rw [total_mul, total_one, hlen] at hpushed
  simp only [Controller.received, hloc] at hresults
  rw [← hresults, hpushed, Config.resultsExpected, Int.natCast_mul, Int.toNat_of_nonneg hn,
    Config.finishedExpected, Int.toNat_of_nonneg (Int.mul_nonneg hm hp), Int.mul_comm]

/-- After the exit of the loop the sinks of the processes stay as they are. -/
theorem sinks_after_collected (hm : 0 ≤ conf.machines) (hp : 0 ≤ conf.processes)
    (hs : (orderly conf count).Reachable s) (hexit : s.Collected conf) {a : Action}
    (h : s.step [conf] a = some s') (hi' : s'.controller.iteration = 0) :
    s'.Collected conf ∧ ¬ s.TakesLastFinished conf a ∧
      ((∀ p ∈ s'.processes, p.sink = []) ↔ ∀ p ∈ s.processes, p.sink = []) := by
  have hdone := (done_of_collected hm hp hs hexit).2
  obtain ⟨counters, hloc, hguard⟩ := hexit
  have hi := (Obeys.of_reachable hp hs.of_restrict).single.iteration_of_collect hloc
  -- the guard is false, so nothing is taken any more
  have htake : ∀ m c, s.controller.take [conf] m = some c → False := by
    intro m c hc
    obtain ⟨counters', conf', hloc', hconf, hmore, -⟩ := Controller.take_eq_some hc
    rw [hloc] at hloc'
    cases hloc'
    rw [hi] at hconf
    cases hconf
    exact hguard hmore
  cases a with
  | controller a =>
      obtain ⟨c, m, hact, rfl⟩ := step_controller.mp h
      cases Controller.change_of_act hact with
      | finish => simp [controllerStep] at hi'
      | enter hloc' | theEnd hloc' | helloListener hloc' | startProcesses hloc' | helloSocket hloc'
      | startWebsockets hloc' => rw [hloc] at hloc'; cases hloc'
  | serveListener i =>
      obtain ⟨l, c, -, hc, -, -⟩ := step_serveListener.mp h
      obtain ⟨n, conf', hloc', -⟩ := Controller.countListener_eq_some hc
      rw [hloc] at hloc'; cases hloc'
  | serveProcess j =>
      obtain ⟨p, c, -, hc, -, -⟩ := step_serveProcess.mp h
      obtain ⟨n, conf', hloc', -⟩ := Controller.countProcess_eq_some hc
      rw [hloc] at hloc'; cases hloc'
  | takeListener i =>
      obtain ⟨l, m, sink, c, -, -, hc, -⟩ := step_takeListener.mp h
      exact (htake m c hc).elim
  | takeProcess j =>
      obtain ⟨p, m, sink, c, -, -, hc, -⟩ := step_takeProcess.mp h
      exact (htake m c hc).elim
  | listener i a =>
      obtain ⟨l, l', -, -, rfl⟩ := step_listener.mp h
      refine ⟨⟨counters, hloc, hguard⟩, by simp [TakesLastFinished], ?_⟩
      rw [sinks_empty_iff, sinks_empty_iff]
      show total Process.undelivered (afterListener i s.processes a) = 0 ↔ _
      rw [total_afterListener fun _ => rfl]
      simp [Process.undelivered]
  | process j a =>
      obtain ⟨p, p', hat, hact, rfl⟩ := step_process.mp h
      refine ⟨⟨counters, hloc, hguard⟩, by simp [TakesLastFinished], ?_⟩
      have hsame := (Process.exited_of_act hact (hdone p (List.mem_of_getElem? hat)).1).2
      rw [sinks_empty_iff, sinks_empty_iff, setProcess, total_set_of_eq hat]
      rw [Process.undelivered, hsame, Process.undelivered]

/-- The loop reaches its exit only by taking the last notice, which touches no queue of a process;
and after the last notice it is at its exit. -/
theorem collected_step_iff (hpos : 0 < conf.finishedExpected) (hs : s.Obeys conf)
    (hnotice : NoticeInv conf s) (hexit : ¬ s.Collected conf) {a : Action}
    (h : s.step [conf] a = some s') :
    (s'.Collected conf ↔ s.TakesLastFinished conf a) ∧
      (s'.Collected conf → s'.processes = s.processes) := by
  cases a with
  | controller a =>
      obtain ⟨c, m, hact, rfl⟩ := step_controller.mp h
      have hnot : ¬ (s.controllerStep c m).Collected conf := by
        rintro ⟨counters, hloc, hguard⟩
        rw [controller_controllerStep] at hloc
        cases Controller.change_of_act hact with
        | startWebsockets hloc' hconf =>
            -- the loop is entered with nothing counted
            obtain rfl : ({} : Counters) = counters := by simpa [Controller.goto] using hloc
            exact hguard (Counters.waiting_iff.mpr (by simpa [Counters.finished] using hpos))
        | enter | theEnd | startProcesses | finish => simp [Controller.goto] at hloc
        | helloListener hloc' | helloSocket hloc' => rw [hloc'] at hloc; cases hloc
      exact ⟨iff_of_false hnot (by simp [TakesLastFinished]), fun hcon => absurd hcon hnot⟩
  | serveListener i =>
      obtain ⟨l, c, -, hc, -, rfl⟩ := step_serveListener.mp h
      obtain ⟨n, conf', -, -, -, rfl⟩ := Controller.countListener_eq_some hc
      exact ⟨iff_of_false (by simp [Collected, Controller.goto]) (by simp [TakesLastFinished]),
        fun _ => rfl⟩
  | serveProcess j =>
      obtain ⟨p, c, -, hc, -, rfl⟩ := step_serveProcess.mp h
      obtain ⟨n, conf', -, -, -, rfl⟩ := Controller.countProcess_eq_some hc
      exact ⟨iff_of_false (by simp [Collected, Controller.goto]) (by simp [TakesLastFinished]),
        fun hcon => by simp [Collected, Controller.goto] at hcon⟩
  | takeListener i =>
      obtain ⟨l, m, sink, c, hl, hsink, hc, rfl⟩ := step_takeListener.mp h
      obtain ⟨counters, conf', hloc, hconf, hmore, rfl⟩ := Controller.take_eq_some hc
      obtain ⟨-, rfl⟩ := hs.single.iteration_eq_zero hconf
      have hm := hnotice.notice_of_head hl hsink
      have habsorb := counters.finished_absorb m
      simp only [hm, if_true] at habsorb
      rw [Counters.waiting_iff] at hmore
      refine ⟨?_, fun _ => rfl⟩
      constructor
      · rintro ⟨counters', hloc', hguard⟩
        obtain rfl : counters.absorb m = counters' := by simpa [Controller.goto] using hloc'
        rw [Counters.waiting_iff] at hguard
        exact ⟨i, counters, rfl, hloc, by omega⟩
      · rintro ⟨k, counters', -, hloc', hlast⟩
        rw [hloc] at hloc'
        cases hloc'
        refine ⟨counters.absorb m, rfl, ?_⟩
        rw [Counters.waiting_iff]
        omega
  | takeProcess j =>
      obtain ⟨p, m, sink, c, hp, hsink, hc, rfl⟩ := step_takeProcess.mp h
      obtain ⟨counters, conf', hloc, hconf, hmore, rfl⟩ := Controller.take_eq_some hc
      obtain ⟨-, rfl⟩ := hs.single.iteration_eq_zero hconf
      have hm := hnotice.result_of_head hp hsink
      have habsorb := counters.finished_absorb m
      simp only [hm, Bool.false_eq_true, if_false, Nat.add_zero] at habsorb
      have hnot : ¬ Collected conf' { s.setProcess j { p with sink := sink } with
          controller := s.controller.goto (.collect (counters.absorb m)) } := by
        rintro ⟨counters', hloc', hguard⟩
        obtain rfl : counters.absorb m = counters' := by simpa [Controller.goto] using hloc'
        rw [Counters.waiting_iff, habsorb, ← Counters.waiting_iff] at hguard
        exact hguard hmore
      exact ⟨iff_of_false hnot (by simp [TakesLastFinished]), fun hcon => absurd hcon hnot⟩
  | listener i a =>
      obtain ⟨l, l', -, -, rfl⟩ := step_listener.mp h
      exact ⟨iff_of_false hexit (by simp [TakesLastFinished]), fun hcon => absurd hcon hexit⟩
  | process j a =>
      obtain ⟨p, p', -, -, rfl⟩ := step_process.mp h
      exact ⟨iff_of_false hexit (by simp [TakesLastFinished]), fun hcon => absurd hcon hexit⟩

/-- During the iteration the condition has held so far, except that at the exit of the loop it says
whether the queues are empty. -/
theorem along_resultsBeforeLast (hm : 1 ≤ conf.machines) (hp : 1 ≤ conf.processes)
    {run : List Action}
    (hrun : (orderly conf count).exec (orderly conf count).init run = some s)
    (hi : s.controller.iteration = 0) :
    (¬ s.Collected conf →
      (orderly conf count).Along (ResultsBeforeLast conf) (orderly conf count).init run) ∧
    (s.Collected conf → ((∀ p ∈ s.processes, p.sink = []) ↔
      (orderly conf count).Along (ResultsBeforeLast conf) (orderly conf count).init run)) := by
  have hpos : 0 < conf.finishedExpected := Int.mul_pos (by omega) (by omega)
  revert hi
  refine exec_induction (P := fun run s => s.controller.iteration = 0 →
    (¬ s.Collected conf →
      (orderly conf count).Along (ResultsBeforeLast conf) (orderly conf count).init run) ∧
    (s.Collected conf → ((∀ p ∈ s.processes, p.sink = []) ↔
      (orderly conf count).Along (ResultsBeforeLast conf) (orderly conf count).init run)))
    ?_ ?_ hrun
  · intro _
    refine ⟨fun _ => trivial, fun _ => iff_of_true (fun p hp => ?_) trivial⟩
    cases hp
  · intro run s a s' hrun ih h hi'
    have hreach := reachable_of_exec _ hrun
    have hstep := (orderly_step.mp h).2
    obtain ⟨hbefore, hafter⟩ := ih (Controller.iteration_of_moves (controller_moves hstep) hi')
    rw [along_concat _ hrun]
    by_cases hexit : s.Collected conf
    · -- the last notice has been taken: nothing changes any more
      obtain ⟨hexit', hnot, hsinks⟩ :=
        sinks_after_collected (by omega) (by omega) hreach hexit hstep hi'
      refine ⟨fun hcon => absurd hexit' hcon, fun _ => ?_⟩
      rw [hsinks, hafter hexit]
      exact ⟨fun halong => ⟨halong, fun hlast => absurd hlast hnot⟩, fun halong => halong.1⟩
    · -- the exit is reached now or not at all
      have hobeys := Obeys.of_reachable (by omega) hreach.of_restrict
      have hnotice := NoticeInv.of_reachable (by omega) hreach.of_restrict
      obtain ⟨hlast, hsame⟩ := collected_step_iff hpos hobeys hnotice hexit hstep
      refine ⟨fun hcon => ⟨hbefore hexit, fun h => absurd (hlast.mpr h) hcon⟩, fun hexit' => ?_⟩
      rw [hsame hexit']
      exact ⟨fun hempty => ⟨hbefore hexit, fun _ => hempty⟩,
        fun halong => halong.2 (hlast.mp hexit')⟩

end State

/-- **When no result is lost at the end of an iteration.** In every orderly run of one iteration,
when the collection loop exits, every result has been counted exactly when the last `Finished`
notice was taken with no result queued on the connection of a process. -/
theorem results_complete_iff {conf : Config} {count : Nat} (hm : 1 ≤ conf.machines)
    (hp : 1 ≤ conf.processes) (hn : 1 ≤ conf.instances) {run : List Action} {s : State}
    (hrun : (orderly conf count).exec (orderly conf count).init run = some s) {counters : Counters}
    (hloc : s.controller.loc = .collect counters)
    (hexit : ¬ counters.Waiting conf.finishedExpected) :
    (counters.resultsReceived : Int) = conf.resultsExpected ↔
      (orderly conf count).Along (State.ResultsBeforeLast conf) (orderly conf count).init run := by
  have hreach := reachable_of_exec _ hrun
  have hp0 : 0 ≤ conf.processes := by omega
  have hi := (State.Obeys.of_reachable hp0 hreach.of_restrict).single.iteration_of_collect hloc
  have hsum := State.results_of_collected (by omega) hp0 (by omega) hreach hloc hexit
  rw [← (State.along_resultsBeforeLast hm hp hrun hi).2 ⟨counters, hloc, hexit⟩,
    State.sinks_empty_iff]
  omega

/-- The notice of the only process overtakes its result: the loop exits with nothing counted. -/
theorem result_lost_behind_last_finished :
    ¬ ∀ (conf : Config) (count : Nat), 1 ≤ conf.machines → 1 ≤ conf.processes →
      1 ≤ conf.instances → ∀ s, (orderly conf count).Reachable s → ∀ counters,
        s.controller.loc = .collect counters → ¬ counters.Waiting conf.finishedExpected →
        (counters.resultsReceived : Int) = conf.resultsExpected := by
  intro hclaim
  obtain ⟨s, hs, hend⟩ := (orderly .solo 1).exists_of_exec_any
    (soloRun.take 23 ++ [.takeListener 0])
    (fun s => s.controller.loc = .collect ⟨1, 0, 0⟩) (by decide)
  -- the notice was taken, the result is still queued
  have h := hclaim .solo 1 (by decide) (by decide) (by decide) s (reachable_of_exec _ hs) ⟨1, 0, 0⟩
    (of_decide_eq_true hend) (by decide)
  exact absurd h (by decide)

/-- When the result is taken before the notice it is counted. -/
theorem results_complete_solo :
    ∃ s, (orderly .solo 1).Reachable s ∧ s.controller.loc = .collect ⟨1, 0, 1⟩ ∧
      (orderly .solo 1).Along (State.ResultsBeforeLast .solo) (orderly .solo 1).init
        (soloRun.take 25) := by
  obtain ⟨s, hs, hend⟩ := (orderly .solo 1).exists_of_exec_any (soloRun.take 25)
    (fun s => s.controller.loc = .collect ⟨1, 0, 1⟩) (by decide)
  have hloc := of_decide_eq_true hend
  exact ⟨s, reachable_of_exec _ hs, hloc,
    (results_complete_iff (by decide) (by decide) (by decide) hs hloc (by decide)).mp (by decide)⟩

end WsPerftester
