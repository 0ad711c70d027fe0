import WsPerftester.Coordination.Leftovers

/-! # Families and counts over any number of iterations

What `ProcessBarrier` says of the children and the counted processes of one iteration, in runs over
any configurations. A listener has reported a child or has it outstanding (`Listener.family`), and
its children are the processes it has launched, in whichever iteration
(`State.total_childOf_eq_family`); the processes ever counted are those the process barriers have
counted (`State.total_counted_eq`), and together with those queued, alive and lost they are all
processes (`State.processes_partition`). -/

namespace WsPerftester

open TransitionSystem Population

/-! ## Children -/

namespace Listener

/-- Children of the present round that have not been reported. -/
def outstanding (l : Listener) : Nat :=
  match l.loc with
  | .launching _ launched => launched
  | .reaping unfinished => unfinished.toNat
  | .awaitHello | .awaitSync | .awaitRequest | .terminated => 0

/-- Children launched in all rounds. -/
def family (l : Listener) : Nat := l.reported + l.outstanding

/-- What holds of the rounds of a listener at any time. -/
structure Paced (l : Listener) : Prop where
  idle : l.loc = .awaitHello ∨ l.loc = .awaitSync → l.starts = 0
  launching : ∀ processes launched, l.loc = .launching processes launched →
    l.starts ≠ 0 ∧ launched ≤ processes.toNat
  reaping : ∀ unfinished, l.loc = .reaping unfinished → l.starts ≠ 0

variable {l l' : Listener}

/-- The actions of a listener keep its rounds. -/
theorem Paced.change {a : Act} (h : l.Paced) (hact : l.Change a l') : l'.Paced := by
  obtain ⟨hidle, hlaunching, hreaping⟩ := h
  cases hact with
  | subscribe | ignore | running => exact ⟨hidle, hlaunching, hreaping⟩
  | hello hloc => exact ⟨fun _ => hidle (.inl hloc), by simp, by simp⟩
  | theEnd | synced | allReaped => exact ⟨by simp, by simp, by simp⟩
  | start =>
      refine ⟨by simp, fun processes launched hloc' => ?_, by simp⟩
      cases hloc'
      exact ⟨Nat.succ_ne_zero _, Nat.zero_le _⟩
  | launch hloc hmore =>
      obtain ⟨hstarts, -⟩ := hlaunching _ _ hloc
      refine ⟨by simp, fun processes launched hloc' => ⟨hstarts, ?_⟩, by simp⟩
      cases hloc'
      omega
  | launched hloc => exact ⟨by simp, by simp, fun _ _ => (hlaunching _ _ hloc).1⟩
  | error hloc | child hloc => exact ⟨by simp, by simp, fun _ _ => hreaping _ hloc⟩

/-- **A listener keeps its rounds throughout.** -/
theorem Paced.moves {confs : List Config} {c c' : Controller} (h : l.Paced)
    (hmoves : Moves confs c l c' l') : l'.Paced := by
  cases hmoves with
  | broadcast =>
      unfold deliver
      split
      · exact h
      · exact ⟨h.idle, h.launching, h.reaping⟩
  | served | drained => exact ⟨h.idle, h.launching, h.reaping⟩
  | moved hact => exact h.change (change_of_act hact)
  | silent | countListener | countProcess | taken | still => exact h

/-- A family grows by the child that is launched. -/
theorem Paced.family_of_act (h : l.Paced) {a : Act} (hact : l.act a = some l') :
    l'.family = l.family + a.launches := by
  unfold family
  cases change_of_act hact with
  | subscribe | ignore | running => rfl
  | hello hloc | theEnd hloc | start hloc | synced hloc | launch hloc =>
      simp [outstanding, hloc, Act.launches, Nat.add_assoc]
  | launched hloc hdone =>
      have hle := (h.launching _ _ hloc).2
      simp only [outstanding, hloc, Act.launches]
      omega
  | error hloc hmore | child hloc hmore =>
      -- the child is outstanding no more, it has been reported
      simp only [outstanding, hloc, loc_report, reported_report, Act.launches]
      omega
  | allReaped hloc hdone =>
      simp only [outstanding, hloc, Act.launches]
      omega

/-- Publishing launches nobody. -/
theorem family_deliver (l : Listener) (m : Broadcast) : (l.deliver m).family = l.family := by
  unfold deliver
  split <;> rfl

/-- Only a listener adds to its family. -/
theorem ownWeight_family : OwnWeight family :=
  ⟨family_deliver, fun _ _ => rfl, fun _ _ => rfl⟩

end Listener

/-- The rounds of every listener are kept in every run. -/
theorem paced_of_reachable {confs : List Config} {count : Nat} {s : State}
    (hs : (coordination confs count).Reachable s) : ∀ l ∈ s.listeners, l.Paced := by
  refine hs.invariant (P := fun s => ∀ l ∈ s.listeners, l.Paced) ?_ ?_
  · intro l hl
    rw [List.eq_of_mem_replicate hl]
    exact ⟨fun _ => rfl, by simp, by simp⟩
  · intro s a s' hinv h
    exact State.forall_listeners h (fun _ _ hl hmoves => hl.moves hmoves) hinv

namespace State

variable {confs : List Config} {count : Nat} {s s' : State}

/-- A step adds a child to the listener that launches it. -/
theorem family_step {a : Action} (h : s.step confs a = some s')
    (hpaced : ∀ l ∈ s.listeners, l.Paced) {i : Nat} {l l' : Listener}
    (hl : s.listeners[i]? = some l) (hl' : s'.listeners[i]? = some l') :
    l'.family = l.family + launchesOf i a := by
  rcases listener_cases h hl hl' with ⟨b, c, m, rfl, -, rfl⟩ | ⟨b, rfl, hact⟩ |
    ⟨-, hothers, r, sink, rfl⟩
  · rw [Listener.family_deliver]
    rfl
  · rw [launchesOf, if_pos rfl]
    exact (hpaced l (List.mem_of_getElem? hl)).family_of_act hact
  · have hnone : launchesOf i a = 0 := by
      unfold launchesOf
      split
      · next k b => exact if_neg fun hki => hothers b (by rw [hki])
      · rfl
    rw [hnone]
    rfl

/-- **The children of a listener** are the processes it has launched in all rounds. -/
theorem total_childOf_eq_family (hs : (coordination confs count).Reachable s) :
    ∀ i l, s.listeners[i]? = some l → total (Process.childOf i) s.processes = l.family := by
  refine hs.invariant_of (P := fun s => ∀ i l, s.listeners[i]? = some l →
    total (Process.childOf i) s.processes = l.family) (fun _ hs => paced_of_reachable hs) ?_ ?_
  · intro i l hl
    rw [List.eq_of_mem_replicate (List.mem_of_getElem? hl)]
    rfl
  · intro s a s' hpaced hinv h i l' hl'
    have hlt : i < s.listeners.length :=
      length_listeners h ▸ (List.getElem?_eq_some_iff.mp hl').1
    have hl := List.getElem?_eq_getElem hlt
    rw [total_childOf_step h, hinv i _ hl, family_step h hpaced hl hl']

/-- All families together are all processes. -/
theorem total_family_eq_length (hs : (coordination confs count).Reachable s) :
    total Listener.family s.listeners = s.processes.length := by
  refine hs.invariant_of (P := fun s => total Listener.family s.listeners = s.processes.length)
    (fun _ hs => paced_of_reachable hs) ?_ ?_
  · simp [coordination, Listener.family, Listener.outstanding]
  · intro s a s' hpaced hinv hstep
    have h : s.step confs a = some s' := hstep
    rw [length_processes h, ← hinv]
    cases a with
    | controller | serveListener | serveProcess | takeListener | takeProcess | process =>
        exact total_listeners_of_own Listener.ownWeight_family h (by simp)
    | listener i b =>
        obtain ⟨l, l', hl, hact, rfl⟩ := step_listener.mp h
        have hone := (hpaced l (List.mem_of_getElem? hl)).family_of_act hact
        have hset := total_set Listener.family l' hl
        have hlaunch : launches (.listener i b) = b.launches := by cases b <;> rfl
        simp only [setListener, hlaunch]
        omega

end State

/-! ## Counted processes -/

/-- A process that has just been launched is sound. -/
theorem Process.Sound.start (i : Nat) : Sound { parent := i } :=
  ⟨by simp, by simp, by simp, by simp, by simp⟩

/-- Every process is sound in every run. -/
theorem sound_of_reachable {confs : List Config} {count : Nat} {s : State}
    (hs : (coordination confs count).Reachable s) : ∀ p ∈ s.processes, p.Sound := by
  refine hs.invariant (P := fun s => ∀ p ∈ s.processes, p.Sound) (by simp [coordination]) ?_
  intro s a s' hinv h
  exact State.forall_processes (A := fun _ => True) h (fun _ _ _ => trivial)
    (fun i _ => .start i) (fun _ _ hp hmoves => hp.moves hmoves) hinv

namespace Controller

variable {confs : List Config} {c c' : Controller}

/-- Requests of processes the controller has counted in all its iterations. -/
def countedProcesses (confs : List Config) (c : Controller) : Nat :=
  (∑ j ∈ Finset.range c.iteration, expectedOf confs j) +
    match c.loc with
    | .syncProcesses n => n
    | .collect _ => expectedOf confs c.iteration
    | .iterate | .syncListeners _ | .ended => 0

/-- No action of the controller on its own counts a process. -/
theorem countedProcesses_act (h : c.WithinBounds confs) {a : Act} {m : Option Broadcast}
    (hact : c.act confs a = some (c', m)) :
    c'.countedProcesses confs = c.countedProcesses confs := by
  cases change_of_act hact with
  | helloListener | helloSocket => rfl
  | enter hloc | theEnd hloc | startProcesses hloc => simp [countedProcesses, goto, hloc]
  | startWebsockets hloc hconf hdone =>
      -- the barrier was left with its counter exactly at `machines * processes`
      have hle := h _ hconf
      simp only [hloc] at hle
      simp only [countedProcesses, goto, hloc, expectedOf, hconf, Option.map_some, Option.getD_some]
      omega
  | finish hloc => simp [countedProcesses, hloc, Finset.sum_range_succ]

/-- A request of a listener that is counted counts no process. -/
theorem countedProcesses_countListener (h : c.countListener confs = some c') :
    c'.countedProcesses confs = c.countedProcesses confs := by
  obtain ⟨n, conf, hloc, -, -, rfl⟩ := countListener_eq_some h
  simp [countedProcesses, goto, hloc]

/-- A request of a process is counted once. -/
theorem countedProcesses_countProcess (h : c.countProcess confs = some c') :
    c'.countedProcesses confs = c.countedProcesses confs + 1 := by
  obtain ⟨n, conf, hloc, -, -, rfl⟩ := countProcess_eq_some h
  simp [countedProcesses, goto, hloc, Nat.add_assoc]

/-- A message that is taken counts no process. -/
theorem countedProcesses_take {m : Message} (h : c.take confs m = some c') :
    c'.countedProcesses confs = c.countedProcesses confs := by
  obtain ⟨counters, conf, hloc, -, -, rfl⟩ := take_eq_some h
  simp [countedProcesses, goto, hloc]

end Controller

namespace State

variable {confs : List Config} {count : Nat} {s s' : State}

/-- **Every process ever counted is one the controller has replied to**, in whichever iteration. -/
theorem total_counted_eq (hs : (coordination confs count).Reachable s) :
    total Process.counted s.processes = s.controller.countedProcesses confs := by
  refine hs.invariant_of (P := fun s =>
      total Process.counted s.processes = s.controller.countedProcesses confs)
    (fun _ hs => And.intro (BarrierInv.of_reachable hs) (sound_of_reachable hs)) ?_ ?_
  · simp [coordination, Controller.countedProcesses]
  intro s a s' hinv hcounted hstep
  obtain ⟨hbarrier, hsound⟩ := hinv
  have h : s.step confs a = some s' := hstep
  cases a with
  | controller a =>
      obtain ⟨c, m, hact, rfl⟩ := step_controller.mp h
      rw [controller_controllerStep, Controller.countedProcesses_act hbarrier.bounds hact,
        total_processes_controllerStep Process.counted_deliver]
      exact hcounted
  | serveListener i =>
      obtain ⟨l, c, -, hc, -, rfl⟩ := step_serveListener.mp h
      show total Process.counted s.processes = c.countedProcesses confs
      rw [Controller.countedProcesses_countListener hc]
      exact hcounted
  | serveProcess j =>
      obtain ⟨p, c, hp, hc, hreq, rfl⟩ := step_serveProcess.mp h
      have hsent : p.requests ≠ 0 := fun hzero => by
        have := (hsound p (List.mem_of_getElem? hp)).silent hzero
        rw [hreq] at this
        cases this
      -- the weight of the process and the counter of the barrier go up together
      have hset := total_set Process.counted { p with syncclient := .replied } hp
      have hbefore : p.counted = 0 := by simp [Process.counted, hreq]
      have hafter : Process.counted { p with syncclient := .replied } = 1 := by
        simp [Process.counted, hsent]
      show total Process.counted (s.processes.set j _) = c.countedProcesses confs
      rw [Controller.countedProcesses_countProcess hc]
      omega
  | takeListener i =>
      obtain ⟨l, m, sink, c, -, -, hc, rfl⟩ := step_takeListener.mp h
      show total Process.counted s.processes = c.countedProcesses confs
      rw [Controller.countedProcesses_take hc]
      exact hcounted
  | takeProcess j =>
      obtain ⟨p, m, sink, c, hp, -, hc, rfl⟩ := step_takeProcess.mp h
      show total Process.counted (s.processes.set j _) = c.countedProcesses confs
      rw [Controller.countedProcesses_take hc,
        total_set_of_eq (f := Process.counted) (y := { p with sink := sink }) hp rfl]
      exact hcounted
  | listener i a =>
      obtain ⟨l, l', -, -, rfl⟩ := step_listener.mp h
      -- a child is launched uncounted
      refine Eq.trans ?_ hcounted
      show total Process.counted (afterListener i s.processes a) = _
      rw [total_afterListener fun _ => rfl]
      simp [Process.counted]
  | process j a =>
      obtain ⟨p, p', hp, hact, rfl⟩ := step_process.mp h
      exact (total_set_of_eq hp ((hsound p (List.mem_of_getElem? hp)).counted_of_act hact)).trans
        hcounted

/-- Counted, queued, live and lost processes are all that have been launched. -/
theorem processes_partition (hs : (coordination confs count).Reachable s) :
    s.controller.countedProcesses confs + total Process.queued s.processes +
      total Process.outer s.processes + total Process.lost s.processes = s.processes.length := by
  have hone : total (fun p => Process.counted p + Process.queued p + Process.outer p +
      Process.lost p) s.processes = s.processes.length :=
    total_eq_length fun p hp => Process.stages (sound_of_reachable hs p hp)
  rw [total_add, total_add, total_add, total_counted_eq hs] at hone
  exact hone

end State

end WsPerftester
