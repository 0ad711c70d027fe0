import WsPerftester.Coordination.OneIteration

/-! # The process barrier

A listener the first barrier has counted launches `processes` children (`Listener.children`), each
child joins the population of processes, and each process is counted by the second barrier once at
most. `FamilyInv` says whose child every process is. `State.processes_balance` and
`State.children_balance` say that the processes counted, queued, alive, lost or still to be launched
make up `machines * processes`: the barrier can be filled exactly as long as no child is lost before
its request. -/

namespace WsPerftester

open TransitionSystem Population

/-! ## Children -/

namespace Listener

/-- Children a listener has launched. -/
def children (conf : Config) (l : Listener) : Nat :=
  match l.loc with
  | .launching _ launched => launched
  | _ => l.starts * conf.processes.toNat

/-- Children a counted listener has still to launch. -/
def toLaunch (conf : Config) (l : Listener) : Nat :=
  l.counted * conf.processes.toNat - l.children conf

variable {conf : Config} {c : Controller} {l l' : Listener}

/-- A listener behind its barrier has been counted. -/
theorem Sound.counted_eq_one (h : l.Sound) (houter : l.loc ≠ .awaitHello)
    (hwait : l.loc ≠ .awaitSync) : l.counted = 1 := by
  have hidle : l.syncclient = .idle := by
    by_contra hbusy
    exact hwait (h.sync.mp hbusy)
  simp [counted, houter, hidle]

/-- Only counted listeners launch children, and no more than `processes`. -/
theorem Obeys.children_le (h : l.Obeys conf c) :
    l.children conf ≤ l.counted * conf.processes.toNat := by
  have hstage := h.stage
  have hcounted := h.sound.counted_eq_one
  cases hloc : l.loc with
  | awaitHello | awaitSync =>
      -- not counted yet, and no child launched
      simp only [Stage, hloc] at hstage
      simp [children, hloc, hstage.1]
  | launching processes launched =>
      simp only [Stage, hloc] at hstage
      simpa [children, hloc, hcounted] using hstage.2.1
  | awaitRequest =>
      simp only [Stage, hloc] at hstage
      have hstarts : l.starts ≤ 1 := by omega
      simpa [children, hloc, hcounted] using Nat.mul_le_mul_right conf.processes.toNat hstarts
  | reaping | terminated =>
      simp only [Stage, hloc] at hstage
      simp [children, hloc, hcounted, hstage.1]

/-- A counted listener launches `processes` children in all. -/
theorem Obeys.children_add_toLaunch (h : l.Obeys conf c) :
    l.children conf + l.toLaunch conf = l.counted * conf.processes.toNat := by
  have := h.children_le
  unfold toLaunch
  omega

/-- What an action adds to the children of the listener that takes it. -/
def Act.launches : Act → Nat
  | .launch => 1
  | _ => 0

/-- A listener launches its children one at a time. -/
theorem Obeys.children_of_act (h : l.Obeys conf c) {a : Act} (hact : l.act a = some l') :
    l'.children conf = l.children conf + a.launches := by
  have hstage := h.stage
  unfold children
  cases change_of_act hact with
  | subscribe | ignore | running => rfl
  | launch hloc => simp [hloc, Act.launches]
  | hello hloc | synced hloc | theEnd hloc | allReaped hloc => simp [hloc, Act.launches]
  | error hloc | child hloc => simp [hloc, Act.launches, report]
  | start hloc hin =>
      -- a second `StartProcesses` is never published
      have hnext := (h.follows.receive_next (by simp [hloc]) hin (by simp)).1
      have hget := Controller.getElem?_toListeners hnext
      simp only [Stage, hloc] at hstage
      rw [read_of_loc (by simp [hloc])] at hget
      rcases hstage with ⟨hstarts, -⟩ | ⟨hstarts, -⟩
      · simp [hloc, hstarts, Act.launches]
      · rw [hstarts] at hget
        cases hget
  | launched hloc hdone =>
      -- the loop counter leaves the loop at `processes`
      simp only [Stage, hloc] at hstage
      obtain ⟨rfl, hle, hstarts, -⟩ := hstage
      simp only [hloc, hstarts, Act.launches]
      omega

end Listener

namespace Process

/-- Weighs the children of listener `i`. -/
def childOf (i : Nat) (p : Process) : Nat := if p.parent = i then 1 else 0

/-- An action does not change whose child a process is. -/
theorem parent_of_act {p p' : Process} {a : Act} (h : p.act a = some p') :
    p'.parent = p.parent := by
  cases change_of_act h <;> rfl

/-- Publishing does not change whose child a process is. -/
@[simp] theorem childOf_deliver (i : Nat) (p : Process) (m : Broadcast) :
    (p.deliver m).childOf i = p.childOf i := by
  obtain ⟨s, hs⟩ := deliver_eq p m
  rw [hs]
  rfl

/-- Publishing counts nobody. -/
@[simp] theorem counted_deliver (p : Process) (m : Broadcast) :
    (p.deliver m).counted = p.counted := by
  obtain ⟨s, hs⟩ := deliver_eq p m
  rw [hs]
  rfl

/-- Nobody but the controller counts a process. -/
theorem Sound.counted_of_act {p p' : Process} (h : p.Sound) {a : Act} (hact : p.act a = some p') :
    p'.counted = p.counted := by
  unfold counted
  cases change_of_act hact with
  | hello hloc => simp [h.outside hloc]
  | synced hloc hreply =>
      have hsent : p.requests ≠ 0 := fun hzero => by
        have := h.silent hzero
        rw [hreply] at this
        cases this
      simp [hsent, hreply]
  | subscribe | ignore | start | result | exit | die => rfl

end Process

namespace State

variable {conf : Config} {confs : List Config} {s s' : State}

/-- What a step adds to the children of listener `i`. -/
def launchesOf (i : Nat) : Action → Nat
  | .listener k a => if k = i then a.launches else 0
  | _ => 0

/-- An action of a listener changes a weight of the processes only by the child it launches, if the
weight does not tell whether a process has been reaped. -/
theorem total_afterListener {f : Process → Nat} (hreaped : ∀ p, f { p with reaped := true } = f p)
    (i : Nat) (processes : List Process) (a : Listener.Act) :
    total f (afterListener i processes a) =
      total f processes + a.launches * f { parent := i } := by
  cases a with
  | launch => simp [afterListener, Listener.Act.launches]
  | reap r =>
      cases r with
      | running | error => simp [afterListener, Listener.Act.launches]
      | child pid status =>
          simp only [afterListener, Listener.Act.launches, Nat.zero_mul, Nat.add_zero]
          -- `waitpid` may return a pid that is not one of the processes modelled
          split
          · next p hp => exact total_set_of_eq hp (hreaped p)
          · rfl
  | _ => simp [afterListener, Listener.Act.launches]

/-- A process never changes its parent. -/
theorem ownWeight_childOf (i : Nat) : Process.OwnWeight (Process.childOf i) :=
  ⟨Process.childOf_deliver i, fun _ _ => rfl, fun _ _ => rfl⟩

/-- A step adds a process to the family that launches it. -/
theorem total_childOf_step {a : Action} (h : s.step confs a = some s') (i : Nat) :
    total (Process.childOf i) s'.processes =
      total (Process.childOf i) s.processes + launchesOf i a := by
  cases a with
  | controller | serveListener | serveProcess | takeListener | takeProcess =>
      exact total_processes_of_own (ownWeight_childOf i) h (by simp) (by simp)
  | listener k a =>
      obtain ⟨l, l', -, -, rfl⟩ := step_listener.mp h
      show total (Process.childOf i) (afterListener k s.processes a) = _
      rw [total_afterListener fun _ => rfl]
      simp [Process.childOf, launchesOf]
  | process j a =>
      obtain ⟨p, p', hp, hact, rfl⟩ := step_process.mp h
      refine total_set_of_eq hp ?_
      simp only [Process.childOf, Process.parent_of_act hact]

/-- Publishing launches nobody. -/
theorem children_deliver (l : Listener) (m : Broadcast) :
    (l.deliver m).children conf = l.children conf := by
  unfold Listener.deliver
  split <;> rfl

/-- Only a listener launches children. -/
theorem ownWeight_children : Listener.OwnWeight (Listener.children conf) :=
  ⟨children_deliver, fun _ _ => rfl, fun _ _ => rfl⟩

/-- A step adds a child to the listener that launches it. -/
theorem children_step (hs : s.Obeys conf) {a : Action} (h : s.step [conf] a = some s') {i : Nat}
    {l' : Listener} (hl' : s'.listeners[i]? = some l') :
    ∃ l, s.listeners[i]? = some l ∧ l'.children conf = l.children conf + launchesOf i a := by
  -- a changed listener is either listener `i` or leaves it alone
  have hset : ∀ {k : Nat} {x y : Listener}, s.listeners[k]? = some x →
      (s.listeners.set k y)[i]? = some l' →
      (k = i ∧ s.listeners[i]? = some x ∧ l' = y) ∨ (k ≠ i ∧ s.listeners[i]? = some l') := by
    intro k x y hx hy
    by_cases hki : k = i
    · subst hki
      rw [List.getElem?_set_self (List.getElem?_eq_some_iff.mp hx).1] at hy
      exact .inl ⟨rfl, hx, (Option.some.inj hy).symm⟩
    · exact .inr ⟨hki, by rwa [List.getElem?_set_ne hki] at hy⟩
  cases a with
  | controller a =>
      obtain ⟨c, m, -, rfl⟩ := step_controller.mp h
      cases m with
      | none => exact ⟨l', hl', rfl⟩
      | some m =>
          simp only [controllerStep, publish, List.getElem?_map, Option.map_eq_some_iff] at hl'
          obtain ⟨l, hl, rfl⟩ := hl'
          exact ⟨l, hl, children_deliver l m⟩
  | serveListener k =>
      obtain ⟨l, c, hl, -, -, rfl⟩ := step_serveListener.mp h
      rcases hset hl hl' with ⟨-, hl, rfl⟩ | ⟨-, hl⟩
      · exact ⟨l, hl, rfl⟩
      · exact ⟨l', hl, rfl⟩
  | serveProcess j =>
      obtain ⟨p, c, -, -, -, rfl⟩ := step_serveProcess.mp h
      exact ⟨l', hl', rfl⟩
  | takeListener k =>
      obtain ⟨l, m, sink, c, hl, -, -, rfl⟩ := step_takeListener.mp h
      rcases hset hl hl' with ⟨-, hl, rfl⟩ | ⟨-, hl⟩
      · exact ⟨l, hl, rfl⟩
      · exact ⟨l', hl, rfl⟩
  | takeProcess j =>
      obtain ⟨p, m, sink, c, -, -, -, rfl⟩ := step_takeProcess.mp h
      exact ⟨l', hl', rfl⟩
  | listener k a =>
      obtain ⟨l, x, hl, hact, rfl⟩ := step_listener.mp h
      rcases hset hl hl' with ⟨rfl, hl, rfl⟩ | ⟨hki, hl⟩
      · refine ⟨l, hl, ?_⟩
        rw [launchesOf, if_pos rfl]
        exact (hs.listeners l (List.mem_of_getElem? hl)).children_of_act hact
      · exact ⟨l', hl, by simp [launchesOf, hki]⟩
  | process j a =>
      obtain ⟨p, p', -, -, rfl⟩ := step_process.mp h
      exact ⟨l', hl', rfl⟩

/-- The children of all listeners grow by the processes launched. -/
theorem total_children_step (hs : s.Obeys conf) {a : Action} (h : s.step [conf] a = some s') :
    total (Listener.children conf) s'.listeners =
      total (Listener.children conf) s.listeners + launches a := by
  cases a with
  | controller | serveListener | serveProcess | takeListener | takeProcess | process =>
      exact total_listeners_of_own ownWeight_children h (by simp)
  | listener k a =>
      obtain ⟨l, l', hl, hact, rfl⟩ := step_listener.mp h
      have hone := (hs.listeners l (List.mem_of_getElem? hl)).children_of_act hact
      have hset := total_set (Listener.children conf) l' hl
      have hlaunch : launches (.listener k a) = a.launches := by cases a <;> rfl
      rw [hlaunch]
      simp only [setListener]
      omega

end State

/-- **Every process is the child of the listener that launched it.** -/
structure FamilyInv (conf : Config) (s : State) : Prop where
  children : ∀ i l, s.listeners[i]? = some l →
    total (Process.childOf i) s.processes = l.children conf
  launched : total (Listener.children conf) s.listeners = s.processes.length

namespace FamilyInv

variable {conf : Config} {count : Nat} {s s' : State}

/-- Every step keeps the families together. -/
theorem step (hs : s.Obeys conf) (hinv : FamilyInv conf s) {a : Action}
    (h : s.step [conf] a = some s') : FamilyInv conf s' where
  children := by
    intro i l' hl'
    obtain ⟨l, hl, hone⟩ := State.children_step hs h hl'
    rw [State.total_childOf_step h, hinv.children i l hl, hone]
  launched := by
    rw [State.total_children_step hs h, hinv.launched, State.length_processes h]

/-- Families are kept together in every run. -/
theorem of_reachable (hp : 0 ≤ conf.processes) (hs : (coordination [conf] count).Reachable s) :
    FamilyInv conf s := by
  refine hs.invariant_of (fun s hs => State.Obeys.of_reachable hp hs) ⟨?_, ?_⟩
    fun s a s' hs hinv h => step hs hinv h
  · intro i l hl
    rw [List.eq_of_mem_replicate (List.mem_of_getElem? hl)]
    simp [coordination, Listener.children]
  · simp [coordination, Listener.children]

end FamilyInv

/-! ## Counting the processes -/

namespace Controller

/-- Requests of processes the controller has counted so far. -/
def servedProcesses (conf : Config) (c : Controller) : Nat :=
  match c.iteration, c.loc with
  | 0, .syncProcesses n => n
  | 0, .collect _ => conf.finishedExpected.toNat
  | 0, _ => 0
  | _, _ => conf.finishedExpected.toNat

/-- No action of the controller on its own counts a process. -/
theorem servedProcesses_act {conf : Config} {c c' : Controller} (hc : c.Single)
    (hbounds : c.WithinBounds [conf]) {a : Act} {m : Option Broadcast}
    (hact : c.act [conf] a = some (c', m)) :
    c'.servedProcesses conf = c.servedProcesses conf := by
  obtain ⟨iteration, loc⟩ := c
  cases change_of_act hact with
  | theEnd hloc hconf =>
      obtain rfl := hc.iteration_eq_one hconf
      rfl
  | startWebsockets hloc hconf hdone =>
      -- the barrier was left with its counter exactly at `machines * processes`
      have hle := hbounds _ hconf
      obtain ⟨rfl, rfl⟩ := hc.iteration_eq_zero hconf
      subst hloc
      simp only at hle
      simp only [servedProcesses, goto]
      omega
  | helloListener hloc hconf | helloSocket hloc hconf | finish hloc hconf | enter hloc hconf
  | startProcesses hloc hconf =>
      obtain ⟨rfl, rfl⟩ := hc.iteration_eq_zero hconf
      subst hloc
      rfl

end Controller

namespace State

variable {conf : Config} {count : Nat} {s s' : State}

/-- Every step counts as many processes as the controller does. -/
theorem counted_step (hs : s.Obeys conf) (hbounds : s.controller.WithinBounds [conf])
    (hcounted : total Process.counted s.processes = s.controller.servedProcesses conf) {a : Action}
    (h : s.step [conf] a = some s') :
    total Process.counted s'.processes = s'.controller.servedProcesses conf := by
  cases a with
  | controller a =>
      obtain ⟨c, m, hact, rfl⟩ := step_controller.mp h
      have hserved := Controller.servedProcesses_act hs.single hbounds hact
      rw [controller_controllerStep, hserved,
        total_processes_controllerStep Process.counted_deliver]
      exact hcounted
  | serveListener i =>
      obtain ⟨l, c, -, hc, -, rfl⟩ := step_serveListener.mp h
      obtain ⟨n, conf', hloc, hconf, -, rfl⟩ := Controller.countListener_eq_some hc
      obtain ⟨hi, -⟩ := hs.single.iteration_eq_zero hconf
      simpa [setListener, Controller.servedProcesses, Controller.goto, hi, hloc] using hcounted
  | serveProcess j =>
      obtain ⟨p, c, hp, hc, hreq, rfl⟩ := step_serveProcess.mp h
      obtain ⟨n, conf', hloc, hconf, -, rfl⟩ := Controller.countProcess_eq_some hc
      obtain ⟨hi, -⟩ := hs.single.iteration_eq_zero hconf
      have hsent : p.requests ≠ 0 := fun hzero => by
        have := (hs.processes p (List.mem_of_getElem? hp)).silent hzero
        rw [hreq] at this
        cases this
      -- the weight of the process and the counter of the barrier go up together
      have hset := total_set Process.counted { p with syncclient := .replied } hp
      have hbefore : p.counted = 0 := by simp [Process.counted, hreq]
      have hafter : Process.counted { p with syncclient := .replied } = 1 := by
        simp [Process.counted, hsent]
      simp only [Controller.servedProcesses, hi, hloc] at hcounted
      simp only [setProcess, Controller.servedProcesses, Controller.goto, hi]
      omega
  | takeListener i =>
      obtain ⟨l, m, sink, c, -, -, hc, rfl⟩ := step_takeListener.mp h
      obtain ⟨counters, conf', hloc, hconf, -, rfl⟩ := Controller.take_eq_some hc
      obtain ⟨hi, -⟩ := hs.single.iteration_eq_zero hconf
      simpa [setListener, Controller.servedProcesses, Controller.goto, hi, hloc] using hcounted
  | takeProcess j =>
      obtain ⟨p, m, sink, c, hp, -, hc, rfl⟩ := step_takeProcess.mp h
      obtain ⟨counters, conf', hloc, hconf, -, rfl⟩ := Controller.take_eq_some hc
      obtain ⟨hi, -⟩ := hs.single.iteration_eq_zero hconf
      have hset := total_set_of_eq (f := Process.counted) (y := { p with sink := sink }) hp rfl
      simpa [setProcess, Controller.servedProcesses, Controller.goto, hi, hloc, hset] using hcounted
  | listener i a =>
      obtain ⟨l, l', -, -, rfl⟩ := step_listener.mp h
      -- a child is launched uncounted
      refine Eq.trans ?_ hcounted
      show total Process.counted (afterListener i s.processes a) = _
      rw [total_afterListener fun _ => rfl]
      simp [Process.counted]
  | process j a =>
      obtain ⟨p, p', hp, hact, rfl⟩ := step_process.mp h
      have hsame := (hs.processes p (List.mem_of_getElem? hp)).counted_of_act hact
      exact (total_set_of_eq hp hsame).trans hcounted

/-- **Every process ever counted is one the controller has replied to.** -/
theorem counted_of_reachable (hp : 0 ≤ conf.processes)
    (hs : (coordination [conf] count).Reachable s) :
    total Process.counted s.processes = s.controller.servedProcesses conf :=
  hs.invariant_of (fun _ hs => And.intro (Obeys.of_reachable hp hs) (BarrierInv.of_reachable hs))
    (by simp [coordination, Controller.servedProcesses])
    fun _ _ _ hinv hcounted h => counted_step hinv.1 hinv.2.bounds hcounted h

/-- Counted, queued, live and lost processes are all that have been launched. -/
theorem processes_balance (hp : 0 ≤ conf.processes)
    (hs : (coordination [conf] count).Reachable s) :
    s.controller.servedProcesses conf + total Process.queued s.processes +
      total Process.outer s.processes + total Process.lost s.processes = s.processes.length := by
  have hsound := (Obeys.of_reachable hp hs).processes
  have hone : total (fun p => Process.counted p + Process.queued p + Process.outer p +
      Process.lost p) s.processes = s.processes.length :=
    total_eq_length fun p hp => Process.stages (hsound p hp)
  rw [total_add, total_add, total_add, counted_of_reachable hp hs] at hone
  exact hone

/-- The children launched and those still to be launched are `processes` for every counted
listener. -/
theorem children_balance (hp : 0 ≤ conf.processes)
    (hs : (coordination [conf] count).Reachable s) :
    s.processes.length + total (Listener.toLaunch conf) s.listeners =
      s.controller.served [conf] * conf.processes.toNat := by
  have hobeys := (Obeys.of_reachable hp hs).listeners
  have hone : total (fun l => Listener.children conf l + Listener.toLaunch conf l) s.listeners =
      total (fun l => conf.processes.toNat * Listener.counted l) s.listeners :=
    total_congr fun l hl => by rw [(hobeys l hl).children_add_toLaunch, Nat.mul_comm]
  rw [total_add, total_mul, (FamilyInv.of_reachable hp hs).launched,
    (BarrierInv.of_reachable hs).counted, Nat.mul_comm] at hone
  exact hone

end State

/-- Behind the listener barrier `machines` listeners have been counted. -/
theorem Controller.served_of_syncProcesses (conf : Config) {c : Controller} (hc : c.Single)
    {n : Nat} (hloc : c.loc = .syncProcesses n) :
    c.iteration = 0 ∧ c.served [conf] = conf.quota := by
  have hi := hc.iteration_of_loc (by simp [hloc]) (by simp [hloc])
  exact ⟨hi, by simp [served, hi, hloc]⟩

/-- The product the loops of the controller count up to. -/
theorem Config.quota_mul_processes {conf : Config} (hm : 0 ≤ conf.machines)
    (hp : 0 ≤ conf.processes) :
    conf.quota * conf.processes.toNat = conf.finishedExpected.toNat := by
  rw [Config.quota, Config.finishedExpected, Int.toNat_mul hm hp]

/-- A process is lost when it has exited before sending its request. -/
theorem Process.Sound.lost_eq_zero_iff {p : Process} (h : p.Sound) :
    p.lost = 0 ↔ (p.requests = 0 → ¬ p.Exited) := by
  constructor
  · rintro hlost hzero ⟨status, hloc⟩
    simp [lost, hzero, hloc] at hlost
  · intro hnever
    unfold lost
    rw [if_neg]
    rintro ⟨hzero, hloc⟩
    exact (h.gone hzero).elim hloc (hnever hzero)

/-- **What the process barrier can count on.** Whatever children die and whenever they do, the
processes counted, the requests queued, the children alive or still to be launched that have not
sent their request and the children that exited before sending it are `machines * processes` in
all. So the barrier can be filled exactly as long as no child has exited before its request. -/
theorem process_barrier_balance {conf : Config} {count : Nat} {s : State} (hm : 1 ≤ conf.machines)
    (hp : 1 ≤ conf.processes) (hs : (coordination [conf] count).Reachable s) {processes : Nat}
    (hloc : s.controller.loc = .syncProcesses processes) :
    ((processes + total Process.queued s.processes +
      (total Process.outer s.processes + total (Listener.toLaunch conf) s.listeners) +
      total Process.lost s.processes : Nat) : Int) = conf.machines * conf.processes ∧
    (conf.machines * conf.processes ≤ ((processes + total Process.queued s.processes +
      (total Process.outer s.processes + total (Listener.toLaunch conf) s.listeners) : Nat) : Int) ↔
      ∀ p ∈ s.processes, p.requests = 0 → ¬ p.Exited) := by
  have hp0 : 0 ≤ conf.processes := by omega
  have hobeys := State.Obeys.of_reachable hp0 hs
  obtain ⟨hi, hserved⟩ := Controller.served_of_syncProcesses conf hobeys.single hloc
  have hprocesses := State.processes_balance hp0 hs
  have hchildren := State.children_balance hp0 hs
  rw [hserved, Config.quota_mul_processes (by omega) hp0] at hchildren
  simp only [Controller.servedProcesses, hi, hloc] at hprocesses
  have hexpected : ((conf.finishedExpected.toNat : Nat) : Int) = conf.machines * conf.processes :=
    Int.toNat_of_nonneg (Int.mul_nonneg (by omega) hp0)
  -- the balance is short by the lost processes, and by nothing else
  have hlost : total Process.lost s.processes = 0 ↔
      ∀ p ∈ s.processes, p.requests = 0 → ¬ p.Exited := by
    rw [total_eq_zero]
    exact forall₂_congr fun p hp => (hobeys.processes p hp).lost_eq_zero_iff
  rw [← hlost, ← hexpected]
  constructor <;> omega

/-- One listener with one child that dies before its request: nobody is left to pass the barrier. -/
theorem process_barrier_of_dead_child_stuck :
    ¬ ∀ (conf : Config) (count : Nat), 1 ≤ conf.machines → 1 ≤ conf.processes →
      ∀ s, (coordination [conf] count).Reachable s → ∀ processes,
        s.controller.loc = .syncProcesses processes →
        conf.machines * conf.processes ≤ ((processes + total Process.queued s.processes +
          (total Process.outer s.processes + total (Listener.toLaunch conf) s.listeners) : Nat) :
            Int) := by
  intro hclaim
  -- the only child is launched and dies in front of its request
  obtain ⟨s, hs, hend⟩ := (coordination [.solo] 1).exists_of_exec_any
    (soloRun.take 12 ++ [.process 0 (.die 1)]) (fun s =>
      s.controller.loc = .syncProcesses 0 ∧ total Process.queued s.processes = 0 ∧
        total Process.outer s.processes = 0 ∧ total (Listener.toLaunch .solo) s.listeners = 0)
    (by decide)
  obtain ⟨hloc, hqueued, houter, hlaunch⟩ := of_decide_eq_true hend
  have h := hclaim .solo 1 (by decide) (by decide) s (reachable_of_exec _ hs) 0 hloc
  rw [hqueued, houter, hlaunch] at h
  exact absurd h (by decide)

/-- The only child of the only listener is alive and has still to send its request. -/
theorem process_barrier_balance_solo :
    ∃ s : State, (coordination [.solo] 1).Reachable s ∧ s.controller.loc = .syncProcesses 0 ∧
      Config.solo.machines * Config.solo.processes ≤ ((0 + total Process.queued s.processes +
        (total Process.outer s.processes + total (Listener.toLaunch .solo) s.listeners) : Nat) :
          Int) := by
  obtain ⟨s, hs, hend⟩ := (coordination [.solo] 1).exists_of_exec_any (soloRun.take 12) (fun s =>
      s.controller.loc = .syncProcesses 0 ∧ ∀ p ∈ s.processes, p.loc = .awaitHello) (by decide)
  obtain ⟨hloc, halive⟩ := of_decide_eq_true hend
  have hreach := reachable_of_exec _ hs
  refine ⟨s, hreach, hloc, ?_⟩
  refine (process_barrier_balance (by decide) (by decide) hreach hloc).2.mpr ?_
  rintro p hp - ⟨status, hexit⟩
  rw [halive p hp] at hexit
  cases hexit

end WsPerftester
