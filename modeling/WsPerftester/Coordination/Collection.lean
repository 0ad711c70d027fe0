import WsPerftester.Coordination.StartBarriers

/-! # The collection loop

The loop is left when `machines * processes` notices have been taken. `NoticeInv` is the
conservation law of the notices: those pushed by the listeners are those the controller has counted
and those still queued, whatever `waitpid` returns and whoever dies. Results travel on connections
of their own. From the conservation law follows what one iteration does with its notices
(`finished_notices`): none is lost, none is reported twice, and none is left for a later
iteration. -/

namespace WsPerftester

open TransitionSystem Population

/-! ## Finished notices -/

namespace Listener

variable {conf : Config} {c : Controller} {l l' : Listener}

/-- Notices a listener has pushed and the controller has not taken. -/
def undelivered (l : Listener) : Nat := l.sink.length

/-- The children a listener has still to wait for, its local variable `unfinished`. -/
def unfinished (conf : Config) (l : Listener) : Int :=
  match l.loc with
  | .launching _ _ => conf.processes
  | .reaping unfinished => unfinished
  | _ => 0

/-- A started listener has reported the children it does not wait for any more. -/
theorem Obeys.reported_eq (h : l.Obeys conf c) (hstarts : l.starts = 1) :
    (l.reported : Int) = conf.processes - l.unfinished conf := by
  have hstage := h.stage
  cases hloc : l.loc with
  | awaitHello | awaitSync | awaitRequest | launching | reaping | terminated =>
      simp only [Stage, hloc] at hstage
      simp only [unfinished, hloc]
      omega

/-- A listener that has not started has reported nothing. -/
theorem Obeys.reported_of_waiting (h : l.Obeys conf c) (hstarts : l.starts ≠ 1) :
    l.reported = 0 := by
  have hstage := h.stage
  cases hloc : l.loc with
  | awaitHello | awaitSync | awaitRequest | launching | reaping | terminated =>
      simp only [Stage, hloc] at hstage
      omega

/-- Only counted listeners report, and no more than `processes` times. -/
theorem Obeys.reported_le (h : l.Obeys conf c) :
    l.reported ≤ l.counted * conf.processes.toNat := by
  by_cases hstarts : l.starts = 1
  · have hcounted : l.counted = 1 := by
      by_contra hnot
      have := (h.starts_of_uncounted hnot).1
      omega
    have hstage := h.stage
    rw [hcounted, Nat.one_mul]
    cases hloc : l.loc with
    | awaitHello | awaitSync | awaitRequest | launching | reaping | terminated =>
        simp only [Stage, hloc] at hstage
        omega
  · rw [h.reported_of_waiting hstarts]
    exact Nat.zero_le _

/-- A listener pushes its notices and nothing else. -/
theorem sink_of_act {a : Act} (h : l.act a = some l')
    (hsink : ∀ m ∈ l.sink, m.isFinished = true) :
    l'.reported + l.undelivered = l.reported + l'.undelivered ∧
      ∀ m ∈ l'.sink, m.isFinished = true := by
  cases change_of_act h with
  | error | child =>
      -- one more notice pushed and one more queued
      refine ⟨?_, fun m hm => ?_⟩
      · simp only [undelivered, reported_report, sink_report, List.length_append,
          List.length_singleton]
        omega
      · rw [sink_report, List.mem_append, List.mem_singleton] at hm
        rcases hm with hm | rfl
        · exact hsink m hm
        · rfl
  | subscribe | hello | ignore | theEnd | start | synced | launch | launched | running
  | allReaped => exact ⟨rfl, hsink⟩

/-- Publishing reaches no sink. -/
theorem deliver_keeps (l : Listener) (m : Broadcast) :
    (l.deliver m).sink = l.sink ∧ (l.deliver m).reported = l.reported := by
  unfold deliver
  split <;> exact ⟨rfl, rfl⟩

/-- Publishing queues nothing. -/
theorem undelivered_deliver (l : Listener) (m : Broadcast) :
    (l.deliver m).undelivered = l.undelivered := by
  rw [undelivered, (deliver_keeps l m).1, undelivered]

/-- Whoever moves, the sink of a listener holds notices only. -/
theorem notices_of_moves {confs : List Config} {c' : Controller} (hmoves : Moves confs c l c' l')
    (hsink : ∀ m ∈ l.sink, m.isFinished = true) : ∀ m ∈ l'.sink, m.isFinished = true := by
  cases hmoves with
  | broadcast => rwa [(deliver_keeps l _).1]
  | drained _ htail => exact fun m hm => hsink m (by rw [htail]; exact List.mem_cons_of_mem _ hm)
  | moved hact => exact (sink_of_act hact hsink).2
  | served | silent | countListener | countProcess | taken | still => exact hsink

end Listener

/-- Whoever moves, the sink of a process holds results only. -/
theorem Process.results_of_moves {confs : List Config} {ok : Act → Prop} {c c' : Controller}
    {p p' : Process} (hmoves : Moves confs ok c p c' p')
    (hsink : ∀ m ∈ p.sink, m.isFinished = false) : ∀ m ∈ p'.sink, m.isFinished = false := by
  cases hmoves with
  | broadcast =>
      obtain ⟨s, hs⟩ := deliver_eq p _
      rwa [hs]
  | drained _ htail => exact fun m hm => hsink m (by rw [htail]; exact List.mem_cons_of_mem _ hm)
  | moved _ hact =>
      cases change_of_act hact with
      | result =>
          intro m hm
          rcases List.mem_append.mp hm with hm | hm
          · exact hsink m hm
          · rw [List.mem_singleton.mp hm]
            rfl
      | subscribe | hello | ignore | start | synced | exit | die => exact hsink
  | served | reaped | silent | countListener | countProcess | taken | still => exact hsink

namespace Controller

/-- Notices the controller has taken. -/
def consumed (conf : Config) (c : Controller) : Nat :=
  match c.iteration, c.loc with
  | 0, .collect counters => counters.finished
  | 0, _ => 0
  | _, _ => conf.finishedExpected.toNat

/-- No action of the controller on its own takes a notice. -/
theorem consumed_act {conf : Config} {c c' : Controller} (hc : c.Single)
    (hbounds : c.WithinBounds [conf]) {a : Act} {m : Option Broadcast}
    (hact : c.act [conf] a = some (c', m)) : c'.consumed conf = c.consumed conf := by
  obtain ⟨iteration, loc⟩ := c
  cases change_of_act hact with
  | theEnd hloc hconf =>
      obtain rfl := hc.iteration_eq_one hconf
      rfl
  | finish hloc hconf hdone =>
      -- the loop was left with as many notices as it waits for
      have hle := hbounds _ hconf
      obtain ⟨rfl, rfl⟩ := hc.iteration_eq_zero hconf
      subst hloc
      rw [Counters.waiting_iff] at hdone
      simp only at hle
      simp only [consumed]
      omega
  | helloListener hloc hconf | helloSocket hloc hconf | startWebsockets hloc hconf
  | enter hloc hconf | startProcesses hloc hconf =>
      obtain ⟨rfl, rfl⟩ := hc.iteration_eq_zero hconf
      subst hloc
      rfl

end Controller

/-- **Conservation of the notices.** Listeners push notices only and processes push results only;
the notices pushed are those the controller has taken and those still queued. -/
structure NoticeInv (conf : Config) (s : State) : Prop where
  notices : ∀ l ∈ s.listeners, ∀ m ∈ l.sink, m.isFinished = true
  results : ∀ p ∈ s.processes, ∀ m ∈ p.sink, m.isFinished = false
  balance : total Listener.reported s.listeners =
    s.controller.consumed conf + total Listener.undelivered s.listeners

namespace NoticeInv

variable {conf : Config} {count : Nat} {s s' : State}

/-- Only a listener reports. -/
theorem ownWeight_reported : Listener.OwnWeight Listener.reported :=
  ⟨fun l m => (l.deliver_keeps m).2, fun _ _ => rfl, fun _ _ => rfl⟩

/-- What the controller takes from a listener is a notice. -/
theorem notice_of_head (hinv : NoticeInv conf s) {i : Nat} {l : Listener} {m : Message}
    {sink : List Message} (hl : s.listeners[i]? = some l) (hsink : l.sink = m :: sink) :
    m.isFinished = true := by
  apply hinv.notices l (List.mem_of_getElem? hl)
  rw [hsink]
  exact List.mem_cons_self

/-- What the controller takes from a process is a result. -/
theorem result_of_head (hinv : NoticeInv conf s) {j : Nat} {p : Process} {m : Message}
    {sink : List Message} (hp : s.processes[j]? = some p) (hsink : p.sink = m :: sink) :
    m.isFinished = false := by
  apply hinv.results p (List.mem_of_getElem? hp)
  rw [hsink]
  exact List.mem_cons_self

/-- Every step conserves the notices. -/
theorem step_balance (hs : s.Obeys conf) (hbounds : s.controller.WithinBounds [conf])
    (hinv : NoticeInv conf s) {a : Action} (h : s.step [conf] a = some s') :
    total Listener.reported s'.listeners =
      s'.controller.consumed conf + total Listener.undelivered s'.listeners := by
  have hbalance := hinv.balance
  cases a with
  | controller a =>
      obtain ⟨c, m, hact, rfl⟩ := State.step_controller.mp h
      have hconsumed := Controller.consumed_act hs.single hbounds hact
      rw [State.controller_controllerStep, hconsumed,
        State.total_listeners_controllerStep fun l m => (l.deliver_keeps m).2,
        State.total_listeners_controllerStep Listener.undelivered_deliver]
      exact hbalance
  | serveListener i =>
      obtain ⟨l, c, hl, hc, hreq, rfl⟩ := State.step_serveListener.mp h
      obtain ⟨n, conf', hloc, hconf, -, rfl⟩ := Controller.countListener_eq_some hc
      obtain ⟨hi, -⟩ := hs.single.iteration_eq_zero hconf
      have hreported := total_set_of_eq (f := Listener.reported)
        (y := { l with syncclient := .replied }) hl rfl
      have hqueue := total_set_of_eq (f := Listener.undelivered)
        (y := { l with syncclient := .replied }) hl rfl
      simp only [Controller.consumed, hi, hloc] at hbalance
      simp only [State.setListener, Controller.consumed, Controller.goto, hi]
      omega
  | serveProcess j =>
      obtain ⟨p, c, -, hc, -, rfl⟩ := State.step_serveProcess.mp h
      obtain ⟨n, conf', hloc, hconf, -, rfl⟩ := Controller.countProcess_eq_some hc
      obtain ⟨hi, -⟩ := hs.single.iteration_eq_zero hconf
      simpa [State.setProcess, Controller.consumed, Controller.goto, hi, hloc] using hbalance
  | takeListener i =>
      obtain ⟨l, m, sink, c, hl, hsink, hc, rfl⟩ := State.step_takeListener.mp h
      obtain ⟨counters, conf', hloc, hconf, -, rfl⟩ := Controller.take_eq_some hc
      obtain ⟨hi, -⟩ := hs.single.iteration_eq_zero hconf
      have hnotice := hinv.notice_of_head hl hsink
      have hreported := total_set_of_eq (f := Listener.reported) (y := { l with sink := sink })
        hl rfl
      have hqueue := total_set Listener.undelivered { l with sink := sink } hl
      have habsorb := counters.finished_absorb m
      simp only [Controller.consumed, hi, hloc] at hbalance
      -- the notice leaves the queue and is counted
      simp only [Listener.undelivered, hsink, List.length_cons] at hqueue
      simp only [hnotice, if_true] at habsorb
      simp only [State.setListener, Controller.consumed, Controller.goto, hi, habsorb] at hbalance ⊢
      omega
  | takeProcess j =>
      obtain ⟨p, m, sink, c, hp, hsink, hc, rfl⟩ := State.step_takeProcess.mp h
      obtain ⟨counters, conf', hloc, hconf, -, rfl⟩ := Controller.take_eq_some hc
      obtain ⟨hi, -⟩ := hs.single.iteration_eq_zero hconf
      have hresult := hinv.result_of_head hp hsink
      -- a result leaves the notices alone
      have habsorb := counters.finished_absorb m
      simp only [Controller.consumed, hi, hloc] at hbalance
      simpa [State.setProcess, Controller.consumed, Controller.goto, hi, habsorb, hresult]
        using hbalance
  | listener i a =>
      obtain ⟨l, l', hl, hact, rfl⟩ := State.step_listener.mp h
      have hpushed := (Listener.sink_of_act hact (hinv.notices l (List.mem_of_getElem? hl))).1
      have hreported := total_set Listener.reported l' hl
      have hqueue := total_set Listener.undelivered l' hl
      simp only [State.setListener]
      omega
  | process j a =>
      obtain ⟨p, p', -, -, rfl⟩ := State.step_process.mp h
      exact hbalance

/-- The notices are conserved in every run. -/
theorem of_reachable (hp : 0 ≤ conf.processes) (hs : (coordination [conf] count).Reachable s) :
    NoticeInv conf s := by
  refine hs.invariant_of
    (fun _ hs => And.intro (State.Obeys.of_reachable hp hs) (BarrierInv.of_reachable hs)) ?_
    ?_
  · refine ⟨fun l hl => ?_, by simp [coordination], ?_⟩
    · rw [List.eq_of_mem_replicate hl]
      simp
    · simp [coordination, Controller.consumed, Listener.undelivered]
  · intro s a s' hinv hnotice h
    refine ⟨?_, ?_, hnotice.step_balance hinv.1 hinv.2.bounds h⟩
    · exact State.forall_listeners h
        (fun _ _ hsink hmoves => Listener.notices_of_moves hmoves hsink) hnotice.notices
    · exact State.forall_processes (A := fun _ => True) h (fun _ _ _ => trivial)
        (fun _ _ => by simp) (fun _ _ hsink hmoves => Process.results_of_moves hmoves hsink)
        hnotice.results

/-- Never more notices are pushed than the controller waits for. -/
theorem reported_le (hm : 0 ≤ conf.machines) (hp : 0 ≤ conf.processes)
    (hs : (coordination [conf] count).Reachable s) :
    total Listener.reported s.listeners ≤ conf.finishedExpected.toNat := by
  have hobeys := State.Obeys.of_reachable hp hs
  have hbarrier := BarrierInv.of_reachable hs
  have hle : total Listener.reported s.listeners ≤
      total (fun l => conf.processes.toNat * Listener.counted l) s.listeners :=
    total_le_total fun l hl => by
      rw [Nat.mul_comm]
      exact (hobeys.listeners l hl).reported_le
  have hserved := Controller.served_le_quota hobeys.single hbarrier.bounds
  rw [total_mul, hbarrier.counted] at hle
  calc total Listener.reported s.listeners
      ≤ conf.processes.toNat * s.controller.served [conf] := hle
    _ ≤ conf.processes.toNat * conf.quota := Nat.mul_le_mul_left _ hserved
    _ = conf.finishedExpected.toNat := by rw [Nat.mul_comm, Config.quota_mul_processes hm hp]

end NoticeInv

/-- **Finished notices are neither lost, duplicated nor left over.** In one iteration, whatever
`waitpid` returns and whoever dies: each started listener has pushed `processes - unfinished`
notices and the others none; never more than `machines * processes` are pushed in all; the notices
pushed are those taken and those queued; the collection loop can be left exactly when all `machines
* processes` have been taken, and then none is queued anywhere. -/
theorem finished_notices {conf : Config} {count : Nat} {s : State} (hm : 0 ≤ conf.machines)
    (hp : 0 ≤ conf.processes) (hs : (coordination [conf] count).Reachable s) :
    (∀ l ∈ s.listeners, if l.starts = 1 then (l.reported : Int) = conf.processes - l.unfinished conf
      else l.reported = 0) ∧
    (total Listener.reported s.listeners : Int) ≤ conf.machines * conf.processes ∧
    (∀ counters, s.controller.loc = .collect counters →
      total Listener.reported s.listeners =
        counters.finished + total Listener.undelivered s.listeners ∧
      ((s.step [conf] (.controller .finish)).isSome = true ↔
        (counters.finished : Int) = conf.machines * conf.processes)) ∧
    (s.controller.iteration = 1 →
      (total Listener.reported s.listeners : Int) = conf.machines * conf.processes ∧
      (∀ l ∈ s.listeners, l.sink = []) ∧
      ∀ p ∈ s.processes, ∀ m ∈ p.sink, m.isFinished = false) := by
  have hobeys := State.Obeys.of_reachable hp hs
  have hinv := NoticeInv.of_reachable hp hs
  have hle := NoticeInv.reported_le hm hp hs
  have hbalance := hinv.balance
  have hexpected : ((conf.finishedExpected.toNat : Nat) : Int) = conf.machines * conf.processes :=
    Int.toNat_of_nonneg (Int.mul_nonneg hm hp)
  refine ⟨fun l hl => ?_, by omega, fun counters hloc => ?_, fun hi => ?_⟩
  · split
    · next hstarts => exact (hobeys.listeners l hl).reported_eq hstarts
    · next hstarts => exact (hobeys.listeners l hl).reported_of_waiting hstarts
  · have hi := hobeys.single.iteration_of_collect hloc
    simp only [Controller.consumed, hi, hloc] at hbalance
    refine ⟨hbalance, ?_⟩
    have hbound := (BarrierInv.of_reachable hs).bounds conf (by rw [hi]; rfl)
    simp only [hloc] at hbound
    have hguard : (s.step [conf] (.controller .finish)).isSome = true ↔
        ¬ counters.Waiting conf.finishedExpected := by
      by_cases hwait : counters.Waiting conf.finishedExpected <;>
        simp [State.step, Controller.act, hloc, hi, hwait]
    -- the counter is within its bound, so the guard fails exactly at the bound
    rw [hguard, Counters.waiting_iff]
    omega
  · have hconsumed : s.controller.consumed conf = conf.finishedExpected.toNat := by
      simp [Controller.consumed, hi]
    have hqueue : total Listener.undelivered s.listeners = 0 := by omega
    refine ⟨by omega, fun l hl => ?_, hinv.results⟩
    exact List.length_eq_zero_iff.mp (total_eq_zero.mp hqueue l hl)

/-- After the run of one listener with one process no notice is left. -/
theorem finished_notices_solo :
    ∃ s, (coordination [.solo] 1).Reachable s ∧ s.controller.iteration = 1 ∧
      (total Listener.reported s.listeners : Int) = Config.solo.machines * Config.solo.processes ∧
      ∀ l ∈ s.listeners, l.sink = [] := by
  obtain ⟨s, hs, hend⟩ := (coordination [.solo] 1).exists_of_exec_any soloRun
    (fun s => s.controller.iteration = 1) (by decide)
  have hi := of_decide_eq_true hend
  obtain ⟨hreported, hsinks, -⟩ :=
    (finished_notices (by decide) (by decide) (reachable_of_exec _ hs)).2.2.2 hi
  exact ⟨s, reachable_of_exec _ hs, hi, hreported, hsinks⟩

end WsPerftester
