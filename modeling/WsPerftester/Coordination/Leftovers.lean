import Mathlib.Algebra.BigOperators.Group.Finset.Basic
import Mathlib.Algebra.Order.BigOperators.Group.Finset
import WsPerftester.Coordination.Following
import WsPerftester.Coordination.Collection

/-! # What several iterations leave behind

A listener that was counted in one iteration receives the `StartProcesses` of every later one as
well, while the controller waits each time for the children of `machines` listeners only. `promised`
are the `Finished` notices the counted listeners owe for the rounds started so far, `expected` those
the collection loops read; the difference is left over, queued or still to be pushed, and it is
counted by the loop of a later iteration or never (`leftover_notices`). -/

namespace WsPerftester

open TransitionSystem Population

/-! ## What is owed and what is read -/

/-- Children every listener launches in iteration `j`. -/
def childrenOf (confs : List Config) (j : Nat) : Nat :=
  (confs[j]?.map fun conf => conf.processes.toNat).getD 0

/-- Notices the collection loop of iteration `j` reads. -/
def expectedOf (confs : List Config) (j : Nat) : Nat :=
  (confs[j]?.map fun conf => conf.finishedExpected.toNat).getD 0

/-- Notices the counted listeners owe for the first `r` rounds: those of every listener counted so
far, in each round. -/
def promised (confs : List Config) (r : Nat) : Nat :=
  ∑ j ∈ Finset.range r, quotaBefore confs (j + 1) * childrenOf confs j

/-- Notices of the listeners that had been counted before the iteration in which they are owed. -/
def surplus (confs : List Config) (r : Nat) : Nat :=
  ∑ j ∈ Finset.range r, quotaBefore confs j * childrenOf confs j

/-- The notices owed are those that are read and the surplus. -/
theorem promised_eq {confs : List Config}
    (hconfs : ∀ conf ∈ confs, 0 ≤ conf.machines ∧ 0 ≤ conf.processes) (r : Nat) :
    promised confs r = surplus confs r + ∑ j ∈ Finset.range r, expectedOf confs j := by
  rw [promised, surplus, ← Finset.sum_add_distrib]
  refine Finset.sum_congr rfl fun j _ => ?_
  cases hconf : confs[j]? with
  | none => simp [childrenOf, expectedOf, hconf]
  | some conf =>
      obtain ⟨hm, hp⟩ := hconfs conf (List.mem_of_getElem? hconf)
      rw [quotaBefore_succ hconf, Nat.add_mul]
      simp only [childrenOf, expectedOf, hconf, Option.map_some, Option.getD_some]
      rw [Config.quota_mul_processes hm hp]

/-- Notices the controller has taken in all its iterations. -/
def Controller.takenNotices (confs : List Config) (c : Controller) : Nat :=
  (∑ j ∈ Finset.range c.iteration, expectedOf confs j) +
    match c.loc with
    | .collect counters => counters.finished
    | .iterate | .syncListeners _ | .syncProcesses _ | .ended => 0

/-- Children a broadcast makes a listener launch. -/
def Broadcast.children : Broadcast → Nat
  | .startProcesses n => n.toNat
  | _ => 0

namespace Listener

/-- Notices a listener will still push for the rounds it has been told of. -/
def owed (l : Listener) : Nat :=
  (match l.loc with
    | .launching processes _ => processes.toNat
    | .reaping unfinished => unfinished.toNat
    | .awaitHello | .awaitSync | .awaitRequest | .terminated => 0) +
  total Broadcast.children l.subscriber.inbox

/-- Notices a counted listener has pushed or will push. -/
def promises (l : Listener) : Nat := l.counted * (l.reported + l.owed)

variable {l l' : Listener}

/-- Only a `StartProcesses` makes a listener owe anything. -/
theorem owed_deliver {m : Broadcast} (h : m.children = 0) (l : Listener) :
    (l.deliver m).owed = l.owed := by
  rw [owed, owed, loc_deliver]
  congr 1
  unfold deliver Subscriber.deliver
  split
  · rfl
  · split
    · simp [h]
    · rfl

/-- Other broadcasts leave the promises as they are. -/
theorem promises_deliver {m : Broadcast} (h : m.children = 0) (l : Listener) :
    (l.deliver m).promises = l.promises := by
  rw [promises, promises, counted_deliver, owed_deliver h, (deliver_keeps l m).2]

/-- **Every counted listener is started again** by each `StartProcesses`. -/
theorem promises_startProcesses (h : l.Sound) (hterm : l.loc ≠ .terminated) (n : Int) :
    (l.deliver (.startProcesses n)).promises = l.promises + n.toNat * l.counted := by
  rw [promises, promises, counted_deliver, (deliver_keeps l _).2]
  by_cases hcounted : l.counted = 0
  · simp [hcounted]
  · have hinside : l.loc ≠ .awaitHello := fun hloc => hcounted (by simp [counted, hloc])
    have howed : (l.deliver (.startProcesses n)).owed = l.owed + n.toNat := by
      rw [owed, owed, loc_deliver, deliver, if_neg hterm,
        h.inOrder.deliver_of_issued (h.joined hinside)]
      simp [order, Broadcast.command, Broadcast.children, Nat.add_assoc]
    rw [howed, Nat.mul_comm n.toNat, ← Nat.mul_add, Nat.add_assoc]

/-- What a counted listener does turns one of its debts into another, or pays it. -/
theorem promises_of_act {a : Act} (hact : l.act a = some l') :
    l'.promises = l.promises := by
  rw [promises, promises, counted_of_act hact]
  by_cases hcounted : l.counted = 0
  · rw [hcounted, Nat.zero_mul, Nat.zero_mul]
  have hinside : l.loc ≠ .awaitHello := fun hloc => hcounted (by simp [counted, hloc])
  have hsame : l'.reported + l'.owed = l.reported + l.owed := by
    cases change_of_act hact with
    | subscribe | running => rfl
    | hello hloc => exact absurd hloc hinside
    | @ignore m _ hloc hin =>
        -- an inner loop ignores nothing that would have started children
        obtain ⟨-, -, hm⟩ := hloc.resolve_left fun h => hinside h.1
        have hnone : m.children = 0 := by
          cases m with
          | startProcesses n => exact absurd rfl (hm n)
          | helloListener | helloSocket | startWebsockets | theEnd => rfl
        simp [owed, hin, hnone]
    | theEnd hloc hin | start hloc hin =>
        simp [owed, hloc, hin, Broadcast.children]
    | synced hloc | launch hloc | launched hloc => simp [owed, hloc]
    | error hloc hmore | child hloc hmore =>
        -- one notice is pushed, and one is owed no more
        simp only [owed, hloc, reported_report, loc_report, subscriber_report]
        omega
    | allReaped hloc hdone =>
        simp only [owed, hloc]
        omega
  rw [hsame]

end Listener

namespace Controller

variable {confs : List Config} {c c' : Controller}

/-- A request that is counted starts no round. -/
theorem rounds_countListener (h : c.countListener confs = some c') : c'.rounds = c.rounds := by
  obtain ⟨n, conf, hloc, -, -, rfl⟩ := countListener_eq_some h
  simp [rounds, goto, hloc]

/-- A request of a process that is counted starts no round. -/
theorem rounds_countProcess (h : c.countProcess confs = some c') : c'.rounds = c.rounds := by
  obtain ⟨n, conf, hloc, -, -, rfl⟩ := countProcess_eq_some h
  simp [rounds, goto, hloc]

/-- A message that is taken starts no round. -/
theorem rounds_take {m : Message} (h : c.take confs m = some c') : c'.rounds = c.rounds := by
  obtain ⟨counters, conf, hloc, -, -, rfl⟩ := take_eq_some h
  simp [rounds, goto, hloc]

/-- Of the controller's actions the barrier that is passed starts a round, with the children of its
iteration for everybody counted so far; the others start nobody. -/
theorem rounds_act (h : c.WithinBounds confs) {a : Act} {m : Option Broadcast}
    (hact : c.act confs a = some (c', m)) :
    (∃ conf : Config, m = some (.startProcesses conf.processes) ∧ c.loc ≠ .ended ∧
      c'.rounds = c.rounds + 1 ∧ childrenOf confs c.rounds = conf.processes.toNat ∧
      c.served confs = quotaBefore confs (c.rounds + 1)) ∨
    (c'.rounds = c.rounds ∧ ∀ b, m = some b → b.children = 0) := by
  cases change_of_act hact with
  | @startProcesses conf n hloc hconf hdone =>
      -- the barrier was left with its counter exactly at `machines`
      have hle := h _ hconf
      simp only [hloc, Config.quota] at hle
      have hrounds : c.rounds = c.iteration := by simp [rounds, hloc]
      refine .inl ⟨conf, rfl, by simp [hloc], by simp [rounds, goto, hloc], ?_, ?_⟩
      · rw [hrounds, childrenOf, hconf, Option.map_some, Option.getD_some]
      · rw [hrounds, quotaBefore_succ hconf, served, hloc, Config.quota]
        simp only
        omega
  | enter hloc | theEnd hloc | startWebsockets hloc | finish hloc =>
      exact .inr ⟨by simp [rounds, goto, hloc], by rintro _ ⟨⟩ <;> rfl⟩
  | helloListener | helloSocket => exact .inr ⟨rfl, by rintro _ ⟨⟩; rfl⟩

end Controller

/-- **The promises are kept.** What the counted listeners have reported and still owe is at least
what every listener counted so far owes in every round started so far. -/
theorem promised_le {confs : List Config} {count : Nat} {s : State}
    (hs : (coordination confs count).Reachable s) :
    promised confs s.controller.rounds ≤ total Listener.promises s.listeners := by
  refine hs.invariant_of (P := fun s =>
      promised confs s.controller.rounds ≤ total Listener.promises s.listeners)
    (fun _ hs => And.intro (BarrierInv.of_reachable hs) (endsLast_of_reachable hs)) ?_ ?_
  · simp [coordination, Controller.rounds, promised]
  intro s a s' hinv hle hstep
  obtain ⟨hbarrier, hends⟩ := hinv
  have h : s.step confs a = some s' := hstep
  cases a with
  | controller a =>
      obtain ⟨c, m, hact, rfl⟩ := State.step_controller.mp h
      rw [State.controller_controllerStep]
      rcases Controller.rounds_act hbarrier.bounds hact with
        ⟨conf, rfl, hended, hrounds, hchildren, hserved⟩ | ⟨hrounds, hother⟩
      · have hpromises : total Listener.promises
            (s.controllerStep c (some (.startProcesses conf.processes))).listeners =
              total Listener.promises s.listeners +
                conf.processes.toNat * total Listener.counted s.listeners := by
          rw [← total_mul, ← total_add, State.controllerStep, State.publish, total_map]
          refine total_congr fun l hl => ?_
          have hterm : l.loc ≠ .terminated := fun hloc => hended (hends l hl (.inr hloc))
          exact Listener.promises_startProcesses (hbarrier.sound l hl) hterm _
        -- everybody counted so far is in the new round
        rw [hpromises, hbarrier.counted, hserved, hrounds, promised, Finset.sum_range_succ,
          hchildren, Nat.mul_comm conf.processes.toNat]
        exact Nat.add_le_add_right hle _
      · rw [hrounds]
        cases m with
        | none => exact hle
        | some b =>
            rw [State.controllerStep, State.publish, total_map,
              total_congr fun l _ => Listener.promises_deliver (hother b rfl) l]
            exact hle
  | serveListener i =>
      obtain ⟨l, c, hl, hc, hreq, rfl⟩ := State.step_serveListener.mp h
      have hset := total_set Listener.promises { l with syncclient := .replied } hl
      have hzero : l.promises = 0 := by simp [Listener.promises, Listener.counted, hreq]
      show promised confs c.rounds ≤ total Listener.promises (s.listeners.set i _)
      rw [Controller.rounds_countListener hc]
      omega
  | serveProcess j =>
      obtain ⟨p, c, -, hc, -, rfl⟩ := State.step_serveProcess.mp h
      show promised confs c.rounds ≤ total Listener.promises s.listeners
      rw [Controller.rounds_countProcess hc]
      exact hle
  | takeListener i =>
      obtain ⟨l, m, sink, c, hl, -, hc, rfl⟩ := State.step_takeListener.mp h
      show promised confs c.rounds ≤ total Listener.promises (s.listeners.set i _)
      rw [Controller.rounds_take hc,
        total_set_of_eq (f := Listener.promises) (y := { l with sink := sink }) hl rfl]
      exact hle
  | takeProcess j =>
      obtain ⟨p, m, sink, c, -, -, hc, rfl⟩ := State.step_takeProcess.mp h
      show promised confs c.rounds ≤ total Listener.promises s.listeners
      rw [Controller.rounds_take hc]
      exact hle
  | listener i a =>
      obtain ⟨l, l', hl, hact, rfl⟩ := State.step_listener.mp h
      show promised confs s.controller.rounds ≤ total Listener.promises (s.listeners.set i l')
      rw [total_set_of_eq hl (Listener.promises_of_act hact)]
      exact hle
  | process j a =>
      obtain ⟨p, p', -, -, rfl⟩ := State.step_process.mp h
      exact hle

/-! ## What has been read -/

namespace Controller

variable {confs : List Config} {c c' : Controller}

/-- No action of the controller on its own takes a notice: an iteration that is over has read
exactly those it waited for. -/
theorem takenNotices_act (h : c.WithinBounds confs) {a : Act} {m : Option Broadcast}
    (hact : c.act confs a = some (c', m)) : c'.takenNotices confs = c.takenNotices confs := by
  cases change_of_act hact with
  | helloListener | helloSocket => rfl
  | enter hloc | theEnd hloc | startProcesses hloc => simp [takenNotices, goto, hloc]
  | startWebsockets hloc => simp [takenNotices, goto, hloc, Counters.finished]
  | finish hloc hconf hdone =>
      have hle := h _ hconf
      simp only [hloc] at hle
      rw [Counters.waiting_iff] at hdone
      simp only [takenNotices, hloc, Finset.sum_range_succ, expectedOf, hconf, Option.map_some,
        Option.getD_some]
      omega

/-- A request that is counted is no notice. -/
theorem takenNotices_countListener (h : c.countListener confs = some c') :
    c'.takenNotices confs = c.takenNotices confs := by
  obtain ⟨n, conf, hloc, -, -, rfl⟩ := countListener_eq_some h
  simp [takenNotices, goto, hloc]

/-- A request of a process that is counted is no notice. -/
theorem takenNotices_countProcess (h : c.countProcess confs = some c') :
    c'.takenNotices confs = c.takenNotices confs := by
  obtain ⟨n, conf, hloc, -, -, rfl⟩ := countProcess_eq_some h
  simp [takenNotices, goto, hloc]

/-- A message that is taken counts when it is a notice. -/
theorem takenNotices_take {m : Message} (h : c.take confs m = some c') :
    c'.takenNotices confs = c.takenNotices confs + if m.isFinished then 1 else 0 := by
  obtain ⟨counters, conf, hloc, -, -, rfl⟩ := take_eq_some h
  simp [takenNotices, goto, hloc, counters.finished_absorb m, Nat.add_assoc]

end Controller

/-- **Conservation of the notices over all iterations.** Those pushed are those taken, in whichever
iteration, and those still queued. -/
structure NoticesKept (confs : List Config) (s : State) : Prop where
  notices : ∀ l ∈ s.listeners, ∀ m ∈ l.sink, m.isFinished = true
  results : ∀ p ∈ s.processes, ∀ m ∈ p.sink, m.isFinished = false
  balance : total Listener.reported s.listeners =
    s.controller.takenNotices confs + total Listener.undelivered s.listeners

namespace NoticesKept

variable {confs : List Config} {count : Nat} {s s' : State}

/-- Every step conserves the notices. -/
theorem step_balance (hbounds : s.controller.WithinBounds confs) (hinv : NoticesKept confs s)
    {a : Action} (h : s.step confs a = some s') :
    total Listener.reported s'.listeners =
      s'.controller.takenNotices confs + total Listener.undelivered s'.listeners := by
  have hbalance := hinv.balance
  cases a with
  | controller a =>
      obtain ⟨c, m, hact, rfl⟩ := State.step_controller.mp h
      rw [State.controller_controllerStep, Controller.takenNotices_act hbounds hact,
        State.total_listeners_controllerStep fun l m => (l.deliver_keeps m).2,
        State.total_listeners_controllerStep Listener.undelivered_deliver]
      exact hbalance
  | serveListener i =>
      obtain ⟨l, c, hl, hc, -, rfl⟩ := State.step_serveListener.mp h
      show total Listener.reported (s.listeners.set i _) =
        c.takenNotices confs + total Listener.undelivered (s.listeners.set i _)
      rw [Controller.takenNotices_countListener hc,
        total_set_of_eq (f := Listener.reported) (y := { l with syncclient := .replied }) hl rfl,
        total_set_of_eq (f := Listener.undelivered) (y := { l with syncclient := .replied }) hl rfl]
      exact hbalance
  | serveProcess j =>
      obtain ⟨p, c, -, hc, -, rfl⟩ := State.step_serveProcess.mp h
      show _ = c.takenNotices confs + _
      rw [Controller.takenNotices_countProcess hc]
      exact hbalance
  | takeListener i =>
      obtain ⟨l, m, sink, c, hl, hsink, hc, rfl⟩ := State.step_takeListener.mp h
      have hnotice : m.isFinished = true := by
        apply hinv.notices l (List.mem_of_getElem? hl)
        rw [hsink]
        exact List.mem_cons_self
      have hreported := total_set_of_eq (f := Listener.reported) (y := { l with sink := sink })
        hl rfl
      -- the notice leaves the queue and is counted
      have hqueue := total_set Listener.undelivered { l with sink := sink } hl
      have htaken := Controller.takenNotices_take hc
      simp only [Listener.undelivered, hsink, List.length_cons] at hqueue
      simp only [hnotice, if_true] at htaken
      simp only [State.setListener] at hbalance ⊢
      omega
  | takeProcess j =>
      obtain ⟨p, m, sink, c, hp, hsink, hc, rfl⟩ := State.step_takeProcess.mp h
      have hresult : m.isFinished = false := by
        apply hinv.results p (List.mem_of_getElem? hp)
        rw [hsink]
        exact List.mem_cons_self
      show _ = c.takenNotices confs + _
      rw [Controller.takenNotices_take hc, hresult]
      exact hbalance
  | listener i a =>
      obtain ⟨l, l', hl, hact, rfl⟩ := State.step_listener.mp h
      have hpushed := (Listener.sink_of_act hact (hinv.notices l (List.mem_of_getElem? hl))).1
      have hreported := total_set Listener.reported l' hl
      have hqueue := total_set Listener.undelivered l' hl
      simp only [State.setListener]
      omega
  | process j a =>
      obtain ⟨p, p', -, -, rfl⟩ := State.step_process.mp h
      exact hbalance

/-- The notices are conserved in every run. -/
theorem of_reachable (hs : (coordination confs count).Reachable s) : NoticesKept confs s := by
  refine hs.invariant_of (fun _ hs => BarrierInv.of_reachable hs) ?_ ?_
  · refine ⟨fun l hl => ?_, by simp [coordination], ?_⟩
    · rw [List.eq_of_mem_replicate hl]
      simp
    · simp [coordination, Controller.takenNotices, Listener.undelivered]
  · intro s a s' hbarrier hkept h
    refine ⟨?_, ?_, hkept.step_balance hbarrier.bounds h⟩
    · exact State.forall_listeners h
        (fun _ _ hsink hmoves => Listener.notices_of_moves hmoves hsink) hkept.notices
    · exact State.forall_processes (A := fun _ => True) h (fun _ _ _ => trivial)
        (fun _ _ => by simp) (fun _ _ hsink hmoves => Process.results_of_moves hmoves hsink)
        hkept.results

end NoticesKept

/-! ## What is left over -/

/-- What the counted listeners have promised they have pushed, or still owe. -/
theorem total_promises_le (listeners : List Listener) :
    total Listener.promises listeners ≤
      total Listener.reported listeners + total (fun l => l.counted * l.owed) listeners := by
  rw [← total_add]
  refine total_le_total fun l _ => ?_
  rw [Listener.promises, Nat.mul_add]
  refine Nat.add_le_add_right ?_ _
  calc l.counted * l.reported ≤ 1 * l.reported := by
        refine Nat.mul_le_mul_right _ ?_
        unfold Listener.counted
        split <;> omega
    _ = l.reported := Nat.one_mul _

/-- **Notices left over.** Between two iterations and at the end, for every list of configurations,
every number of listeners and every order of steps, the notices queued and those the counted
listeners still owe are at least the surplus: the children which the listeners of the earlier
iterations were told to launch in each iteration in addition to the `machines * processes` that the
collection loop of that iteration waited for. -/
theorem leftover_notices {confs : List Config} {count : Nat} {s : State}
    (hconfs : ∀ conf ∈ confs, 0 ≤ conf.machines ∧ 0 ≤ conf.processes)
    (hs : (coordination confs count).Reachable s)
    (hloc : s.controller.loc = .iterate ∨ s.controller.loc = .ended) :
    surplus confs s.controller.iteration ≤
      total (fun l => l.undelivered + l.counted * l.owed) s.listeners := by
  have hpromised := promised_le hs
  have hbalance := (NoticesKept.of_reachable hs).balance
  have hrounds : s.controller.rounds = s.controller.iteration := by
    rcases hloc with hloc | hloc <;> simp [Controller.rounds, hloc]
  have htaken : s.controller.takenNotices confs =
      ∑ j ∈ Finset.range s.controller.iteration, expectedOf confs j := by
    rcases hloc with hloc | hloc <;> simp [Controller.takenNotices, hloc]
  rw [hrounds, promised_eq hconfs] at hpromised
  have hpromises := total_promises_le s.listeners
  rw [total_add]
  omega

/-- Two iterations of one machine with two listeners leave one notice over. -/
theorem leftover_notices_two_rounds :
    ∃ s, (coordination [.solo, .solo] 2).Reachable s ∧ s.controller = ⟨2, .iterate⟩ ∧
      1 ≤ total (fun l => l.undelivered + l.counted * l.owed) s.listeners := by
  obtain ⟨s, hs, hend⟩ := (coordination [.solo, .solo] 2).exists_of_exec_any
    (soloRun ++ secondRun) (fun s => s.controller = ⟨2, .iterate⟩) (by decide)
  have hcontroller := of_decide_eq_true hend
  have hreach := reachable_of_exec _ hs
  have hleft := leftover_notices (by decide) hreach (.inl (by rw [hcontroller]))
  rw [hcontroller] at hleft
  exact ⟨s, hreach, hcontroller, le_trans (by decide) hleft⟩

end WsPerftester
