import Mathlib.Algebra.Ring.Int.Defs
import WsPerftester.Coordination.Finishing

/-! # When a run ends

The phases put together. An execution in which no child exits before it has sent its request, and
the work of every process ends, gets through all its iterations, and reaches `END`, exactly when
there are listeners enough for all of them (`runs_end_iff`). Over one configuration such children
and work without an end are all that can keep it from its `END`; then every child is waited for, and
every listener that was counted reads its `END` and terminates (`run_ends_iff`). -/

namespace WsPerftester

open TransitionSystem Population

/-! ## Lost children stay lost -/

namespace Process

/-- Whoever moves, a process that has exited before its request has not sent it. -/
theorem Sound.lost_moves {confs : List Config} {ok : Act → Prop} {c c' : Controller}
    {p p' : Process} (h : p.Sound) (hmoves : Moves confs ok c p c' p') (hlost : p.lost ≠ 0) :
    p'.lost ≠ 0 := by
  obtain ⟨hrequests, hplace⟩ : p.requests = 0 ∧ p.loc ≠ .awaitHello := by
    by_contra hnot
    exact hlost (if_neg hnot)
  have hexit : p.Exited := (h.gone hrequests).resolve_left hplace
  have hnone : p'.requests = 0 := by
    cases hmoves with
    | broadcast => rwa [deliver_of_exited hexit]
    | moved _ hact =>
        cases change_of_act hact with
        | hello hloc => exact absurd hloc hplace
        | subscribe | ignore | start | synced | result | exit | die => exact hrequests
    | served | drained | reaped | silent | countListener | countProcess | taken | still =>
        exact hrequests
  obtain ⟨status, hloc⟩ := hmoves.exited hexit
  simp [lost, hnone, hloc]

end Process

namespace State

variable {conf : Config} {count : Nat} {s s' : State}

/-- A lost child stays lost. -/
theorem ChildLost.step {confs : List Config} (hlost : s.ChildLost)
    (hsound : ∀ p ∈ s.processes, p.Sound) {a : Action} (h : s.step confs a = some s') :
    s'.ChildLost := by
  obtain ⟨p, hmem, hp⟩ := hlost
  obtain ⟨j, hj⟩ := List.mem_iff_getElem?.mp hmem
  obtain ⟨p', hj', hmoves⟩ :=
    process_moves (A := fun _ => True) h (fun _ _ _ => trivial) j p hj
  exact ⟨p', List.mem_of_getElem? hj', (hsound p hmem).lost_moves hmoves hp⟩

/-- Behind the process barrier every child has been launched and counted. -/
theorem all_counted (hm : 0 ≤ conf.machines) (hp : 0 ≤ conf.processes)
    (hs : (coordination [conf] count).Reachable s) (hat : s.controller.toProcesses conf ≠ []) :
    s.processes.length = conf.finishedExpected.toNat ∧ (∀ p ∈ s.processes, p.counted = 1) ∧
      ∀ l ∈ s.listeners, l.toLaunch conf = 0 := by
  have hle := length_processes_le hm hp hs
  have hcounted := counted_of_reachable hp hs
  have hbalance := processes_balance hp hs
  have hchildren := children_balance hp hs
  have hserved := Controller.served_le_quota (Obeys.of_reachable hp hs).single
    (BarrierInv.of_reachable hs).bounds
  have hmul := Nat.mul_le_mul_right conf.processes.toNat hserved
  rw [Config.quota_mul_processes hm hp] at hmul
  rw [Controller.servedProcesses_of_started hat] at hcounted hbalance
  refine ⟨by omega, ?_, total_eq_zero.mp (by omega)⟩
  exact eq_of_total_eq (fun p _ => by unfold Process.counted; split <;> simp)
    (by rw [hcounted, total_one]; omega)

/-- Behind the process barrier no child has been lost. -/
theorem not_childLost (hm : 0 ≤ conf.machines) (hp : 0 ≤ conf.processes)
    (hs : (coordination [conf] count).Reachable s) (hat : s.controller.toProcesses conf ≠ []) :
    ¬ s.ChildLost := by
  rintro ⟨p, hmem, hlost⟩
  have hcounted := (all_counted hm hp hs hat).2.1 p hmem
  have hstages := Process.stages ((Obeys.of_reachable hp hs).processes p hmem)
  omega

end State

/-! ## Behind the iterations -/

namespace Controller

variable {confs : List Config} {c c' : Controller}

/-- `END` has been published behind the only iteration. -/
theorem Single.iteration_of_ended (h : c.Single) (hended : c.loc = .ended) : c.iteration = 1 := by
  rcases h with ⟨-, hloc⟩ | ⟨hi, -⟩
  · exact absurd hended hloc
  · exact hi

/-- Outside its loops the controller moves on its own only. -/
theorem Moves.of_outside (hloc : c.loc = .iterate ∨ c.loc = .ended) {a : Action}
    (hmoves : c.Moves confs a c') :
    (∃ b m, c.act confs b = some (c', m)) ∨ (c' = c ∧ ∀ b, a ≠ .controller b) := by
  cases hmoves with
  | acts hact => exact .inl ⟨_, _, hact⟩
  | countsListener hcount =>
      obtain ⟨n, conf, h, -⟩ := countListener_eq_some hcount
      simp [h] at hloc
  | countsProcess hcount =>
      obtain ⟨n, conf, h, -⟩ := countProcess_eq_some hcount
      simp [h] at hloc
  | takesListener htake | takesProcess htake =>
      obtain ⟨counters, conf, h, -⟩ := take_eq_some htake
      simp [h] at hloc
  | listener | process => exact .inr ⟨rfl, by simp⟩

/-- Nothing happens to the controller any more. -/
theorem eq_of_ended (hended : c.loc = .ended) {a : Action} (hmoves : c.Moves confs a c') :
    c' = c := by
  rcases hmoves.of_outside (.inr hended) with ⟨b, m, hact⟩ | ⟨hsame, -⟩
  · rw [not_act_of_ended hended] at hact
    cases hact
  · exact hsame

/-- Behind the last iteration nothing is left to do but to publish `END`. -/
theorem Arrived.moves {j : Nat} (h : c.Arrived j) (hnone : confs[j]? = none) {a : Action}
    (hmoves : c.Moves confs a c') :
    c'.loc = .ended ∨ (c' = c ∧ ∀ b, a ≠ .controller b) := by
  obtain ⟨rfl, hloc⟩ := h
  rcases hmoves.of_outside (.inl hloc) with ⟨b, m, hact⟩ | hstill
  · cases change_of_act hact with
    | theEnd => exact .inl rfl
    | enter _ hconf =>
        rw [hnone] at hconf
        cases hconf
    | helloListener h | startProcesses h | helloSocket h | startWebsockets h | finish h =>
        rw [hloc] at h
        cases h
  · exact .inr hstill

end Controller

section Staying

variable {confs : List Config} {count : Nat} (ρ : (truthful confs count).Execution) {n m : Nat}

/-- Behind `END` the controller stays. -/
theorem ended_stays (hnm : n ≤ m) (hended : (ρ.state n).controller.loc = .ended) :
    (ρ.state m).controller.loc = .ended := by
  refine ρ.stays (P := fun s => s.controller.loc = .ended) (fun s a s' _ hended h => ?_) hnm hended
  rw [Controller.eq_of_ended hended (State.controller_moves (truthful_step.mp h).2)]
  exact hended

/-- Processes join and never leave. -/
theorem process_stays (hnm : n ≤ m) {j : Nat} {p : Process}
    (hp : (ρ.state n).processes[j]? = some p) : ∃ p', (ρ.state m).processes[j]? = some p' := by
  refine ρ.stays (P := fun s => ∃ p, s.processes[j]? = some p) (fun s a s' _ hjoined h => ?_) hnm
    ⟨p, hp⟩
  obtain ⟨q, hq⟩ := hjoined
  obtain ⟨q', hq', -⟩ :=
    State.process_moves (A := fun _ => True) (truthful_step.mp h).2 (fun _ _ _ => trivial) j q hq
  exact ⟨q', hq'⟩

/-- When all processes have exited from some time on, all work has ended. -/
theorem workEnds_of_exited (hexited : ∀ k, n ≤ k → ∀ p ∈ (ρ.state k).processes, p.Exited) :
    WorkEnds ρ := by
  intro k j p hp _
  obtain ⟨p', hp'⟩ := process_stays ρ (Nat.le_max_left k n) hp
  exact ⟨max k n, Nat.le_max_left k n, p', hp',
    hexited _ (Nat.le_max_right k n) p' (List.mem_of_getElem? hp')⟩

/-- A child that is ever lost is lost from then on. -/
theorem childLost_stays (hnm : n ≤ m) (hlost : (ρ.state n).ChildLost) : (ρ.state m).ChildLost :=
  ρ.stays (P := State.ChildLost) (fun _ _ _ hs hlost h =>
    hlost.step (sound_of_reachable hs.of_restrict) (truthful_step.mp h).2) hnm hlost

end Staying

/-! ## Runs after which nothing happens -/

namespace State

/-- The controller has ended, and everybody else has terminated. -/
def Still (s : State) : Prop :=
  s.controller.loc = .ended ∧
    (∀ l ∈ s.listeners, l.loc = .terminated ∧ l.subscriber.issued = []) ∧
      ∀ p ∈ s.processes, p.Exited ∧ p.subscriber.issued = []

instance (s : State) : Decidable s.Still :=
  inferInstanceAs (Decidable (_ ∧ (∀ l ∈ s.listeners, _) ∧ ∀ p ∈ s.processes, _))

/-- Then nothing can happen. -/
theorem Still.step_eq_none {confs : List Config} {s : State} (h : s.Still) (a : Action) :
    s.step confs a = none := by
  obtain ⟨hended, hlisteners, hprocesses⟩ := h
  by_contra hsome
  obtain ⟨s', hstep⟩ := Option.ne_none_iff_exists'.mp hsome
  cases a with
  | controller a =>
      obtain ⟨c, m, hact, -⟩ := step_controller.mp hstep
      cases Controller.change_of_act hact with
      | enter h | theEnd h | helloListener h | startProcesses h | helloSocket h
      | startWebsockets h | finish h => simp [hended] at h
  | serveListener i =>
      obtain ⟨l, c, -, hcount, -⟩ := step_serveListener.mp hstep
      obtain ⟨n, conf, h, -⟩ := Controller.countListener_eq_some hcount
      simp [hended] at h
  | serveProcess j =>
      obtain ⟨p, c, -, hcount, -⟩ := step_serveProcess.mp hstep
      obtain ⟨n, conf, h, -⟩ := Controller.countProcess_eq_some hcount
      simp [hended] at h
  | takeListener i =>
      obtain ⟨l, m, sink, c, -, -, htake, -⟩ := step_takeListener.mp hstep
      obtain ⟨counters, conf, h, -⟩ := Controller.take_eq_some htake
      simp [hended] at h
  | takeProcess j =>
      obtain ⟨p, m, sink, c, -, -, htake, -⟩ := step_takeProcess.mp hstep
      obtain ⟨counters, conf, h, -⟩ := Controller.take_eq_some htake
      simp [hended] at h
  | listener i a =>
      obtain ⟨l, l', hl, hact, -⟩ := step_listener.mp hstep
      obtain ⟨hterm, hnone⟩ := hlisteners l (List.mem_of_getElem? hl)
      cases Listener.change_of_act hact with
      | subscribe hissued => simp [hnone] at hissued
      | ignore h => simp [hterm] at h
      | hello h | theEnd h | start h | synced h | launch h | launched h | running h | error h
      | child h | allReaped h => simp [hterm] at h
  | process j a =>
      obtain ⟨p, p', hp, hact, -⟩ := step_process.mp hstep
      obtain ⟨⟨status, hexit⟩, hnone⟩ := hprocesses p (List.mem_of_getElem? hp)
      cases Process.change_of_act hact with
      | subscribe hissued => simp [hnone] at hissued
      | ignore h => simp [hexit] at h
      | hello h | start h | synced h | result h | exit h => simp [hexit] at h
      | die h => exact h ⟨status, hexit⟩

end State

/-- A run after which nothing can happen is a fair execution. -/
theorem fairToAll_ofRun {confs : List Config} {count : Nat} {run : List Action} {s : State}
    (h : (truthful confs count).exec (truthful confs count).init run = some s) (hstill : s.Still) :
    FairToAll (TransitionSystem.Execution.ofRun h) := by
  intro party
  refine TransitionSystem.Execution.fair_ofRun h fun a _ => ?_
  by_contra hsome
  obtain ⟨s', hstep⟩ := Option.ne_none_iff_exists'.mp hsome
  have hnone := (truthful_step.mp hstep).2
  rw [hstill.step_eq_none] at hnone
  cases hnone

/-- Behind a run after which nothing can happen nobody is at work. -/
theorem workEnds_ofRun {confs : List Config} {count : Nat} {run : List Action} {s : State}
    (h : (truthful confs count).exec (truthful confs count).init run = some s) (hstill : s.Still) :
    WorkEnds (TransitionSystem.Execution.ofRun h) := by
  refine workEnds_of_exited _ (n := run.length) fun k hk p hp => ?_
  rw [TransitionSystem.Execution.state_ofRun h hk] at hp
  exact (hstill.2.2 p hp).1

/-! ## All iterations are passed -/

/-- No iteration needs more listeners than all of them. -/
theorem quotaBefore_le (confs : List Config) (i : Nat) :
    quotaBefore confs i ≤ (confs.map Config.quota).sum := by
  rw [quotaBefore, List.map_take, ← List.sum_take_add_sum_drop (confs.map Config.quota) i]
  exact Nat.le_add_right _ _

section Iterations

variable {confs : List Config} {count : Nat}

/-- The controller publishes its `END`. -/
theorem end_published (ρ : (truthful confs count).Execution) (hfair : FairToAll ρ) {n j : Nat}
    (hnone : confs[j]? = none) (hover : (ρ.state n).controller.Arrived j) :
    ∃ m, n ≤ m ∧ (ρ.state m).controller.loc = .ended := by
  refine ρ.eventually_of_rank (hfair .controller) (P := fun s => s.controller.Arrived j)
    (Q := fun s => s.controller.loc = .ended) (fun _ => 0) ?_ ?_ hover
  · intro s _ hover _
    have hhere : confs[s.controller.iteration]? = none := by rw [hover.1, hnone]
    exact ⟨.controller .iterate, ⟨_, rfl⟩,
      isSome_truthful_controller (by simp [Controller.act, hover.2, hhere])⟩
  · intro s a s' _ hover h
    rcases hover.moves hnone (State.controller_moves (truthful_step.mp h).2) with
      hended | ⟨hsame, hother⟩
    · exact .inl hended
    · refine .inr ⟨by rwa [hsame], Nat.le_refl _, ?_⟩
      rintro ⟨b, rfl⟩
      exact absurd rfl (hother b)

/-- One iteration is passed, with listeners enough, no child lost and no work without an end. -/
theorem iteration_passed {conf : Config} {j : Nat}
    (hconfs : ∀ conf ∈ confs, 0 ≤ conf.machines ∧ 0 ≤ conf.processes)
    (hfewer : ∀ j, childrenOf confs (j + 1) ≤ childrenOf confs j) (hconf : confs[j]? = some conf)
    (hcount : quotaBefore confs (j + 1) ≤ count) (ρ : (truthful confs count).Execution)
    (hfair : FairToAll ρ) (hnever : ∀ n, ¬ (ρ.state n).ChildLost) (hends : WorkEnds ρ) {n : Nat}
    (hat : (ρ.state n).controller.Arrived j) : ∃ m, (ρ.state m).controller.Arrived (j + 1) := by
  obtain ⟨n₁, -, hprocesses⟩ := listener_barrier_passed hconf hcount ρ hfair ⟨hat.1, .inl hat.2⟩
  obtain ⟨n₂, -, hcollection | hlost⟩ :=
    process_barrier_passed hconfs hfewer hconf ρ hfair hprocesses
  · obtain ⟨n₃, -, hover⟩ := collection_finishes hconf ρ hfair hends hcollection
    exact ⟨n₃, hover⟩
  · exact absurd hlost (hnever n₂)

/-- With listeners enough for all of them, no child lost and no work without an end, all iterations
are passed. -/
theorem iterations_passed (hconfs : ∀ conf ∈ confs, 0 ≤ conf.machines ∧ 0 ≤ conf.processes)
    (hfewer : ∀ j, childrenOf confs (j + 1) ≤ childrenOf confs j)
    (hcount : (confs.map Config.quota).sum ≤ count) (ρ : (truthful confs count).Execution)
    (hfair : FairToAll ρ) (hnever : ∀ n, ¬ (ρ.state n).ChildLost) (hends : WorkEnds ρ) :
    ∀ j ≤ confs.length, ∃ n, (ρ.state n).controller.Arrived j := by
  intro j hj
  induction j with
  | zero =>
      refine ⟨0, ?_⟩
      rw [ρ.start]
      exact ⟨rfl, rfl⟩
  | succ j ih =>
      obtain ⟨n, hat⟩ := ih (Nat.le_of_succ_le hj)
      exact iteration_passed hconfs hfewer (List.getElem?_eq_getElem hj)
        (le_trans (quotaBefore_le confs (j + 1)) hcount) ρ hfair hnever hends
        hat

/-- Behind the last iteration `END` is published. -/
theorem end_reached (hconfs : ∀ conf ∈ confs, 0 ≤ conf.machines ∧ 0 ≤ conf.processes)
    (hfewer : ∀ j, childrenOf confs (j + 1) ≤ childrenOf confs j)
    (hcount : (confs.map Config.quota).sum ≤ count) (ρ : (truthful confs count).Execution)
    (hfair : FairToAll ρ) (hnever : ∀ n, ¬ (ρ.state n).ChildLost) (hends : WorkEnds ρ) :
    ∃ n, (ρ.state n).controller.loc = .ended := by
  obtain ⟨n, hat⟩ := iterations_passed hconfs hfewer hcount ρ hfair hnever hends
    confs.length (Nat.le_refl _)
  obtain ⟨m, -, hended⟩ := end_published ρ hfair (List.getElem?_eq_none (Nat.le_refl _)) hat
  exact ⟨m, hended⟩

/-- Nobody starts to count a listener that does not exist. -/
theorem quota_le_of_ended {s : State} (hs : (coordination confs count).Reachable s)
    (hended : s.controller.loc = .ended) : (confs.map Config.quota).sum ≤ count := by
  have hbarrier := BarrierInv.of_reachable hs
  have hserved := Controller.served_of_ended hbarrier.bounds hended
  have hle : total Listener.counted s.listeners ≤ total (fun _ => 1) s.listeners :=
    total_le_total fun l _ => by rcases l.counted_cases with h | h <;> omega
  rw [total_one, hbarrier.counted, hserved, hbarrier.length, quotaBefore, List.take_length] at hle
  exact hle

/-- When no configuration asks for more processes than those before it, no iteration has more
children than the one before. -/
theorem childrenOf_succ_le (hfewer : confs.Pairwise fun a b => b.processes ≤ a.processes)
    (j : Nat) : childrenOf confs (j + 1) ≤ childrenOf confs j := by
  unfold childrenOf
  cases hnext : confs[j + 1]? with
  | none => exact Nat.zero_le _
  | some b =>
      obtain ⟨hlt, rfl⟩ := List.getElem?_eq_some_iff.mp hnext
      have hle := List.pairwise_iff_getElem.mp hfewer j (j + 1) (Nat.lt_of_succ_lt hlt) hlt
        (Nat.lt_succ_self j)
      rw [List.getElem?_eq_getElem (Nat.lt_of_succ_lt hlt), Option.map_some, Option.map_some,
        Option.getD_some, Option.getD_some]
      exact Int.toNat_le_toNat hle

/-- The machines of the configurations are the listeners all iterations wait for. -/
theorem sum_quota (hconfs : ∀ conf ∈ confs, 0 ≤ conf.machines) :
    (((confs.map Config.quota).sum : Nat) : Int) = (confs.map Config.machines).sum := by
  induction confs with
  | nil => rfl
  | cons conf confs ih =>
      have hm := hconfs conf List.mem_cons_self
      rw [List.map_cons, List.map_cons, List.sum_cons, List.sum_cons, Int.natCast_add,
        ih fun conf hmem => hconfs conf (List.mem_cons_of_mem _ hmem), Config.quota,
        Int.toNat_of_nonneg hm]

/-- **When the runs end.** Over any configurations of which none asks for more processes than those
before it, take a fair execution in which `waitpid` tells the truth, no child exits before it has
sent its request, but may be killed at any time afterwards, and every process at work exits some
time. It gets through all iterations and reaches `END` exactly when there are as many listeners as
all configurations have machines together. -/
theorem runs_end_iff (hconfs : ∀ conf ∈ confs, 0 ≤ conf.machines ∧ 0 ≤ conf.processes)
    (hfewer : confs.Pairwise fun a b => b.processes ≤ a.processes)
    (ρ : (truthful confs count).Execution) (hfair : FairToAll ρ)
    (hnever : ∀ n, ¬ (ρ.state n).ChildLost) (hends : WorkEnds ρ) :
    (∃ n, (ρ.state n).controller.loc = .ended) ↔ (confs.map Config.machines).sum ≤ count := by
  have hsum := sum_quota fun conf hmem => (hconfs conf hmem).1
  constructor
  · rintro ⟨n, hended⟩
    have hle := quota_le_of_ended (ρ.reachable n).of_restrict hended
    omega
  · intro hcount
    exact end_reached hconfs (childrenOf_succ_le hfewer) (by omega) ρ hfair hnever hends

/-- A configuration without processes. -/
def Config.idle : Config := { Config.solo with processes := 0, ints := by decide }

/-- A second listener is counted for a second iteration without processes. -/
def idleRun : List Action :=
  .controller .iterate :: Listener.subscribeRun 1 ++
  [.controller .helloListener, .listener 1 .receive, .serveListener 1, .listener 1 .synced,
    .controller .startProcesses, .controller .startWebsockets, .controller .finish,
    .controller .iterate, .listener 0 .receive, .listener 0 .receive, .listener 0 .launched,
    .listener 0 .allReaped, .listener 0 .receive, .listener 1 .receive, .listener 1 .launched,
    .listener 1 .allReaped, .listener 1 .receive]

/-- Two listeners get through two iterations of one machine each. -/
theorem runs_end_idle : ∃ ρ : (truthful [.solo, .idle] 2).Execution, FairToAll ρ ∧
    (∀ n, ¬ (ρ.state n).ChildLost) ∧ WorkEnds ρ ∧ ∃ n, (ρ.state n).controller.loc = .ended := by
  obtain ⟨s, hs, hend⟩ := (truthful [.solo, .idle] 2).exists_of_exec_any (soloRun ++ idleRun)
    (fun s => s.Still ∧ ∀ p ∈ s.processes, p.lost = 0) (by decide)
  obtain ⟨hstill, hfound⟩ := of_decide_eq_true hend
  have hfair := fairToAll_ofRun hs hstill
  have hnever : ∀ n, ¬ ((TransitionSystem.Execution.ofRun hs).state n).ChildLost := by
    intro n hlost
    have hlater := childLost_stays _ (Nat.le_max_left n (soloRun ++ idleRun).length) hlost
    rw [TransitionSystem.Execution.state_ofRun hs (Nat.le_max_right _ _)] at hlater
    obtain ⟨p, hmem, hp⟩ := hlater
    exact hp (hfound p hmem)
  have hends := workEnds_ofRun hs hstill
  exact ⟨_, hfair, hnever, hends,
    (runs_end_iff (by decide) (by decide) _ hfair hnever hends).mpr (by decide)⟩

end Iterations

/-! ## The listeners terminate -/

namespace Listener

/-- What a counted listener does before it reads `END`. -/
def toEnd (l : Listener) : Nat :=
  match l.loc with
  | .awaitHello | .terminated => 0
  | .awaitSync => 4 * l.subscriber.inbox.length + 2
  | .awaitRequest => 4 * l.subscriber.inbox.length + 1
  | .launching _ _ => 4 * l.subscriber.inbox.length + 4
  | .reaping _ => 4 * l.subscriber.inbox.length + 3

/-- A listener that is not about to launch a child or to wait for one. -/
def Unburdened (l : Listener) : Prop :=
  (∀ processes launched, l.loc = .launching processes launched → ¬ (launched : Int) < processes) ∧
    ∀ unfinished, l.loc = .reaping unfinished → ¬ 0 < unfinished

variable {conf : Config} {c : Controller} {l l' : Listener}

/-- Behind `END` a listener changes by its own actions only. -/
theorem Moves.of_ended {confs : List Config} {c' : Controller} (hended : c.loc = .ended)
    (hmoves : Moves confs c l c' l') : l' = l ∨ ∃ a, l.act a = some l' := by
  cases hmoves with
  | broadcast hact =>
      cases Controller.change_of_act hact with
      | theEnd h | startProcesses h | startWebsockets h | helloListener h | helloSocket h =>
          simp [hended] at h
  | served hcount =>
      obtain ⟨n, conf', h, -⟩ := Controller.countListener_eq_some hcount
      simp [hended] at h
  | drained htake =>
      obtain ⟨counters, conf', h, -⟩ := Controller.take_eq_some htake
      simp [hended] at h
  | moved hact => exact .inr ⟨_, hact⟩
  | silent | countListener | countProcess | taken | still => exact .inl rfl

/-- A counted listener in front of its `END` can go on, -/
theorem EndOk.act_of_unburdened (h : l.EndOk c) (hsound : l.Sound) (hended : c.loc = .ended)
    (hcounted : l.counted = 1) (hterm : l.loc ≠ .terminated) (hfree : l.Unburdened) :
    ∃ a, (∀ r, a ≠ .reap r) ∧ (l.act a).isSome = true := by
  have hmem := h hended hcounted hterm
  cases hloc : l.loc with
  | awaitHello => exact absurd hloc (loc_of_counted hcounted)
  | awaitSync =>
      have hbusy := hsound.sync.mpr hloc
      cases hreply : l.syncclient with
      | idle => exact absurd hreply hbusy
      | requested => simp [counted, hreply] at hcounted
      | replied => exact ⟨.synced, by simp, by simp [act, hloc, hreply]⟩
  | awaitRequest =>
      obtain ⟨m, inbox, hin⟩ := List.exists_cons_of_ne_nil (List.ne_nil_of_mem hmem)
      exact ⟨.receive, by simp, by simp [act, hloc, Subscriber.receive, hin]⟩
  | launching processes launched =>
      exact ⟨.launched, by simp, by simp [act, hloc, hfree.1 _ _ hloc]⟩
  | reaping unfinished => exact ⟨.allReaped, by simp, by simp [act, hloc, hfree.2 _ hloc]⟩
  | terminated => exact absurd hloc hterm

/-- and whatever it does brings it closer. -/
theorem Sound.toEnd_lt (h : l.Sound) (hcounted : l.counted = 1) (hfree : l.Unburdened) {a : Act}
    (hact : l.Change a l') : l'.toEnd < l.toEnd := by
  have hinside := loc_of_counted hcounted
  cases hact with
  | subscribe hissued =>
      have hnil := h.joined hinside
      rw [hissued] at hnil
      cases hnil
  | hello hloc => exact absurd hloc hinside
  | ignore hloc hin =>
      obtain ⟨hloc, -⟩ := hloc.resolve_left fun h => hinside h.1
      simp only [toEnd, hloc, hin, List.length_cons]
      omega
  | theEnd hloc =>
      simp only [toEnd, hloc]
      omega
  | start hloc hin =>
      simp only [toEnd, hloc, hin, List.length_cons]
      omega
  | synced hloc =>
      simp only [toEnd, hloc]
      omega
  | launch hloc hmore => exact absurd hmore (hfree.1 _ _ hloc)
  | launched hloc | allReaped hloc =>
      simp only [toEnd, hloc]
      omega
  | running hloc hmore | error hloc hmore | child hloc hmore =>
      exact absurd hmore (hfree.2 _ hloc)

end Listener

namespace State

variable {conf : Config} {count : Nat} {s s' : State}

/-- At the end every child has been launched and reported. -/
theorem unburdened_of_ended (hm : 0 ≤ conf.machines) (hp : 0 ≤ conf.processes)
    (hs : (coordination [conf] count).Reachable s) (hended : s.controller.loc = .ended) :
    ∀ l ∈ s.listeners, l.counted = 1 → l.Unburdened := by
  have hobeys := Obeys.of_reachable hp hs
  have hbarrier := BarrierInv.of_reachable hs
  have hi := hobeys.single.iteration_of_ended hended
  have hpublished : s.controller.toProcesses conf ≠ [] := by
    simp [Controller.toProcesses, hi]
  have hlaunched := (all_counted hm hp hs hpublished).2.2
  -- as many notices were pushed as the counted listeners can push
  have hbalance := (NoticeInv.of_reachable hp hs).balance
  have hreported := NoticeInv.reported_le hm hp hs
  have hcounted := hbarrier.counted
  have hserved : s.controller.served [conf] = conf.quota :=
    Controller.served_of_started hobeys.single (by simp [Controller.toListeners, hi, hended])
  have hquota : total (fun l => conf.processes.toNat * Listener.counted l) s.listeners =
      conf.finishedExpected.toNat := by
    rw [total_mul, hcounted, hserved, Nat.mul_comm, Config.quota_mul_processes hm hp]
  have hall := eq_of_total_eq (f := Listener.reported)
    (g := fun l => conf.processes.toNat * Listener.counted l)
    (fun l hl => by rw [Nat.mul_comm]; exact (hobeys.listeners l hl).reported_le)
    (by rw [hquota]; simp only [Controller.consumed, hi] at hbalance; omega)
  intro l hl hone
  have hstage := (hobeys.listeners l hl).stage
  have hpushed := hall l hl
  simp only [hone, Nat.mul_one] at hpushed
  refine ⟨fun processes launched hloc => ?_, fun unfinished hloc => ?_⟩
  · have hzero := hlaunched l hl
    simp only [Listener.Stage, hloc] at hstage
    simp only [Listener.toLaunch, Listener.children, hloc, hone] at hzero
    omega
  · simp only [Listener.Stage, hloc] at hstage
    omega

/-- At the end every child has exited and has been waited for. -/
theorem all_reaped_of_ended (hm : 0 ≤ conf.machines) (hp : 0 ≤ conf.processes)
    (hs : (truthful [conf] count).Reachable s) (hended : s.controller.loc = .ended) :
    ∀ p ∈ s.processes, p.Exited ∧ p.reaped = true := by
  have hreach : (coordination [conf] count).Reachable s := hs.of_restrict
  have hi := (Obeys.of_reachable hp hreach).single.iteration_of_ended hended
  have hlength := length_processes_le hm hp hreach
  have hbalance := (NoticeInv.of_reachable hp hreach).balance
  have hinv := TruthfulInv.of_reachable hs
  have hreported := hinv.reaped
  simp only [Controller.consumed, hi] at hbalance
  have hle : ∀ p ∈ s.processes, Process.waited p ≤ 1 := fun p _ => by
    unfold Process.waited
    split <;> simp
  have hbound := total_le_total hle
  rw [total_one] at hbound
  intro p hmem
  have hone := eq_of_total_eq hle (by rw [total_one]; omega) p hmem
  have hreaped : p.reaped = true := by
    by_contra hnot
    simp [Process.waited, hnot] at hone
  exact ⟨hinv.exited p hmem hreaped, hreaped⟩

/-- A run is over: the controller has published `END`, every child has exited and has been waited
for, and every listener that was counted has terminated. -/
structure Over (s : State) : Prop where
  ended : s.controller.loc = .ended
  processes : ∀ p ∈ s.processes, p.Exited ∧ p.reaped = true
  listeners : ∀ l ∈ s.listeners, l.counted = 1 → l.loc = .terminated

end State

section Terminating

variable {conf : Config} {count : Nat}

/-- A counted listener reads its `END` and terminates. -/
theorem listener_terminates (hm : 0 ≤ conf.machines) (hp : 0 ≤ conf.processes)
    (ρ : (truthful [conf] count).Execution) (hfair : FairToAll ρ) {n i : Nat} {l : Listener}
    (hended : (ρ.state n).controller.loc = .ended) (hl : (ρ.state n).listeners[i]? = some l)
    (hcounted : l.counted = 1) :
    ∃ m, n ≤ m ∧ ∃ l', (ρ.state m).listeners[i]? = some l' ∧ l'.loc = .terminated := by
  refine ρ.eventually_of_rank (hfair (.listener i))
    (P := fun s => s.controller.loc = .ended ∧ ∃ l, s.listeners[i]? = some l ∧ l.counted = 1)
    (Q := fun s => ∃ l, s.listeners[i]? = some l ∧ l.loc = .terminated)
    (fun s => (s.listeners[i]?.map Listener.toEnd).getD 0) ?_ ?_ ⟨hended, l, hl, hcounted⟩
  · rintro s hs ⟨hended, l, hl, hcounted⟩ hnot
    have hreach : (coordination [conf] count).Reachable s := hs.of_restrict
    have hmem := List.mem_of_getElem? hl
    obtain ⟨hsound, hend⟩ := Listener.endOk_of_reachable hreach l hmem
    obtain ⟨a, hreap, ha⟩ := hend.act_of_unburdened hsound hended hcounted
      (fun hterm => hnot ⟨l, hl, hterm⟩)
      (State.unburdened_of_ended hm hp hreach hended l hmem hcounted)
    exact ⟨.listener i a, ⟨a, rfl⟩, isSome_truthful_listener hl hreap ha⟩
  · rintro s a s' hs ⟨hended, l, hl, hcounted⟩ h
    have hreach : (coordination [conf] count).Reachable s := hs.of_restrict
    have hstep := (truthful_step.mp h).2
    have hmem := List.mem_of_getElem? hl
    have hsame := Controller.eq_of_ended hended (State.controller_moves hstep)
    obtain ⟨l', hl', hmoves⟩ := State.listener_moves hstep i l hl
    have hlt : ∀ {b : Listener.Act}, l.act b = some l' → l'.toEnd < l.toEnd := fun hact =>
      (Listener.endOk_of_reachable hreach l hmem).1.toEnd_lt hcounted
        (State.unburdened_of_ended hm hp hreach hended l hmem hcounted)
        (Listener.change_of_act hact)
    have hkept : l'.counted = 1 ∧ l'.toEnd ≤ l.toEnd := by
      rcases hmoves.of_ended hended with rfl | ⟨b, hact⟩
      · exact ⟨hcounted, Nat.le_refl _⟩
      · exact ⟨(Listener.counted_of_act hact).trans hcounted, (hlt hact).le⟩
    refine .inr ⟨⟨by rw [hsame, hended], l', hl', hkept.1⟩, by simpa [hl, hl'] using hkept.2, ?_⟩
    rintro ⟨b, rfl⟩
    obtain ⟨x, x', hx, hact, rfl⟩ := State.step_listener.mp hstep
    obtain rfl := Option.some.inj (hl.symm.trans hx)
    have hself := List.getElem?_set_self (a := x') (List.getElem?_eq_some_iff.mp hl).1
    obtain rfl : x' = l' := Option.some.inj (hself.symm.trans hl')
    simpa [hl, hl'] using hlt hact

/-- Behind `END` a listener that has terminated, or was not counted, stays so. -/
theorem terminated_step {confs : List Config} {s s' : State} {a : Action}
    (h : s.step confs a = some s') {i : Nat} (hdone : s.controller.loc = .ended ∧
      ∀ l, s.listeners[i]? = some l → l.counted = 1 → l.loc = .terminated) :
    s'.controller.loc = .ended ∧
      ∀ l, s'.listeners[i]? = some l → l.counted = 1 → l.loc = .terminated := by
  obtain ⟨hended, hterm⟩ := hdone
  have hsame := Controller.eq_of_ended hended (State.controller_moves h)
  refine ⟨by rw [hsame, hended], fun l' hl' hcounted => ?_⟩
  have hlt : i < s.listeners.length :=
    State.length_listeners h ▸ (List.getElem?_eq_some_iff.mp hl').1
  have hl := List.getElem?_eq_getElem hlt
  obtain ⟨y, hy, hmoves⟩ := State.listener_moves h i _ hl
  obtain rfl := Option.some.inj (hl'.symm.trans hy)
  rcases hmoves.of_ended hended with heq | ⟨b, hact⟩
  · rw [heq] at hcounted ⊢
    exact hterm _ hl hcounted
  · have hloc := hterm _ hl ((Listener.counted_of_act hact).symm.trans hcounted)
    cases Listener.change_of_act hact with
    | subscribe => exact hloc
    | ignore h => rcases h with ⟨h, -⟩ | ⟨h, -⟩ <;> simp [hloc] at h
    | running h => simp [hloc] at h
    | hello h | theEnd h | start h | synced h | launch h | launched h | error h | child h
    | allReaped h => simp [hloc] at h

/-- In the end all counted listeners have terminated. -/
theorem listeners_terminate (hm : 0 ≤ conf.machines) (hp : 0 ≤ conf.processes)
    (ρ : (truthful [conf] count).Execution) (hfair : FairToAll ρ) {n : Nat}
    (hended : (ρ.state n).controller.loc = .ended) : ∃ m, n ≤ m ∧ (ρ.state m).Over := by
  have hstays : ∀ {m : Nat}, n ≤ m → (ρ.state m).controller.loc = .ended :=
    fun hnm => ended_stays ρ hnm hended
  have hreached : ∀ i, i < count → ∃ m, n ≤ m ∧ (ρ.state m).controller.loc = .ended ∧
      ∀ l, (ρ.state m).listeners[i]? = some l → l.counted = 1 → l.loc = .terminated := by
    intro i _
    by_cases hone : ∃ l, (ρ.state n).listeners[i]? = some l ∧ l.counted = 1
    · obtain ⟨l, hl, hcounted⟩ := hone
      obtain ⟨m, hnm, l', hl', hterm⟩ := listener_terminates hm hp ρ hfair hended hl hcounted
      refine ⟨m, hnm, hstays hnm, fun x hx _ => ?_⟩
      rw [hl'] at hx
      cases hx
      exact hterm
    · exact ⟨n, Nat.le_refl n, hended, fun l hl hcounted => absurd ⟨l, hl, hcounted⟩ hone⟩
  obtain ⟨m, hnm, hdone⟩ := ρ.eventually_forall_lt
    (P := fun i s => s.controller.loc = .ended ∧
      ∀ l, s.listeners[i]? = some l → l.counted = 1 → l.loc = .terminated)
    (fun i s a s' _ hdone h => terminated_step (truthful_step.mp h).2 hdone) hreached
  have hlength := (BarrierInv.of_reachable (ρ.reachable m).of_restrict).length
  refine ⟨m, hnm, hstays hnm, State.all_reaped_of_ended hm hp (ρ.reachable m) (hstays hnm), ?_⟩
  intro l hl hcounted
  obtain ⟨i, hi⟩ := List.mem_iff_getElem?.mp hl
  have hlt := (List.getElem?_eq_some_iff.mp hi).1
  exact (hdone i (by omega)).2 l hi hcounted

end Terminating

/-- **When a run ends.** A fair execution over one configuration, in which `waitpid` tells the truth
and children may be killed at any time, reaches `END` exactly when there are as many listeners as
machines, no child ever exits before it has sent its request, and every process at work exits some
time. Then the run gets over: every child has exited and has been waited for, and every listener
that was counted has terminated. -/
theorem run_ends_iff {conf : Config} {count : Nat} (hm : 0 ≤ conf.machines)
    (hp : 0 ≤ conf.processes) (ρ : (truthful [conf] count).Execution) (hfair : FairToAll ρ) :
    ((∃ n, (ρ.state n).controller.loc = .ended) ↔
      conf.machines ≤ count ∧ (∀ n, ¬ (ρ.state n).ChildLost) ∧ WorkEnds ρ) ∧
    ((∃ n, (ρ.state n).Over) ↔ ∃ n, (ρ.state n).controller.loc = .ended) := by
  refine ⟨⟨?_, ?_⟩, ?_, ?_⟩
  · rintro ⟨n, hended⟩
    have hquota := quota_le_of_ended (ρ.reachable n).of_restrict hended
    simp only [List.map_cons, List.map_nil, List.sum_singleton, Config.quota] at hquota
    refine ⟨by omega, fun k hlost => ?_, workEnds_of_exited ρ (n := n) fun k hk p hmem => ?_⟩
    · -- a child that is ever lost is lost when `END` has been published
      have hlater := childLost_stays ρ (Nat.le_max_left k n) hlost
      have hended' := ended_stays ρ (Nat.le_max_right k n) hended
      have hreach' := (ρ.reachable (max k n)).of_restrict
      have hi := (State.Obeys.of_reachable hp hreach').single.iteration_of_ended hended'
      exact State.not_childLost hm hp hreach' (by simp [Controller.toProcesses, hi]) hlater
    · -- behind `END` every child has been waited for
      exact (State.all_reaped_of_ended hm hp (ρ.reachable k) (ended_stays ρ hk hended) p hmem).1
  · rintro ⟨hcount, hnever, hends⟩
    refine end_reached (by simp [hm, hp]) (fun j => ?_) ?_ ρ hfair hnever hends
    · simp [childrenOf]
    · simp only [List.map_cons, List.map_nil, List.sum_singleton, Config.quota]
      omega
  · rintro ⟨n, hover⟩
    exact ⟨n, hover.ended⟩
  · rintro ⟨n, hended⟩
    obtain ⟨m, -, hover⟩ := listeners_terminate hm hp ρ hfair hended
    exact ⟨m, hover⟩

/-- One listener with one child, which is killed at work: the run gets over. -/
theorem run_ends_killed : ∃ ρ : (truthful [.solo] 1).Execution, FairToAll ρ ∧
    (∃ n, ∃ p ∈ (ρ.state n).processes, p.loc = .exited 9) ∧ WorkEnds ρ ∧
      ∃ n, (ρ.state n).Over := by
  obtain ⟨s, hs, hend⟩ := (truthful [.solo] 1).exists_of_exec_any
    (soloRun.take 20 ++ [.process 0 (.die 9), .listener 0 (.reap (.child 0 9)), .takeListener 0,
      .listener 0 .allReaped, .controller .finish, .controller .iterate, .listener 0 .receive])
    (fun s => s.Still ∧ ∃ p ∈ s.processes, p.loc = .exited 9) (by decide)
  obtain ⟨hstill, hkilled⟩ := of_decide_eq_true hend
  have hfair := fairToAll_ofRun hs hstill
  have hlast := TransitionSystem.Execution.state_ofRun hs (Nat.le_refl _)
  obtain ⟨hwhen, hover⟩ := run_ends_iff (by decide) (by decide) _ hfair
  have hended : ∃ n, ((TransitionSystem.Execution.ofRun hs).state n).controller.loc = .ended :=
    ⟨_, by rw [hlast]; exact hstill.1⟩
  exact ⟨_, hfair, ⟨_, by rw [hlast]; exact hkilled⟩, (hwhen.mp hended).2.2, hover.mpr hended⟩

end WsPerftester
