import WsPerftester.Coordination.Subscriptions

/-! # The listener barrier over any number of iterations

A listener is in its outer loop (`outer`), has a synchronisation request queued at the controller
(`queued`), or has been counted by the barrier of some iteration (`counted`); it never goes back.
The controller counts each listener once, so the listeners counted before an iteration are missing
from its barrier: `BarrierInv.balance` is the conservation law, and it decides when the barrier of
an iteration can be filled. -/

namespace WsPerftester

open TransitionSystem Population

/-- Synchronisation requests the listener barrier of an iteration reads. -/
def Config.quota (conf : Config) : Nat := conf.machines.toNat

/-- Requests the barriers of the first `i` iterations read. -/
def quotaBefore (confs : List Config) (i : Nat) : Nat := ((confs.take i).map Config.quota).sum

/-- No iteration comes before the first. -/
@[simp] theorem quotaBefore_zero (confs : List Config) : quotaBefore confs 0 = 0 := rfl

/-- One more iteration adds its own quota. -/
theorem quotaBefore_succ {confs : List Config} {i : Nat} {conf : Config}
    (h : confs[i]? = some conf) : quotaBefore confs (i + 1) = quotaBefore confs i + conf.quota := by
  simp [quotaBefore, List.take_add_one, h]

namespace Listener

/-- Weighs the listeners in the outer loop, which a later `HELLO_LISTENER` still reaches. -/
def outer (l : Listener) : Nat := if l.loc = .awaitHello then 1 else 0

/-- Weighs the listeners whose request is queued at `syncservice`. -/
def queued (l : Listener) : Nat := if l.syncclient = .requested then 1 else 0

/-- Weighs the listeners a barrier has counted. -/
def counted (l : Listener) : Nat :=
  if l.loc = .awaitHello ∨ l.syncclient = .requested then 0 else 1

/-- The REQ socket is busy exactly while the listener waits for its reply. -/
def SyncOk (l : Listener) : Prop := l.syncclient ≠ .idle ↔ l.loc = .awaitSync

/-- A listener is in exactly one of the three stages. -/
theorem outer_add_queued_add_counted {l : Listener} (h : l.SyncOk) :
    l.outer + l.queued + l.counted = 1 := by
  unfold outer queued counted
  by_cases houter : l.loc = .awaitHello
  · have hidle : l.syncclient = .idle := by
      by_contra hbusy
      exact absurd (h.mp hbusy) (by simp [houter])
    simp [houter, hidle]
  · by_cases hqueued : l.syncclient = .requested <;> simp [houter, hqueued]

/-- Publishing does not change the stage of a listener. -/
@[simp] theorem loc_deliver (l : Listener) (m : Broadcast) : (l.deliver m).loc = l.loc := by
  unfold deliver
  split <;> rfl

/-- Publishing does not reach the REQ socket. -/
@[simp] theorem syncclient_deliver (l : Listener) (m : Broadcast) :
    (l.deliver m).syncclient = l.syncclient := by
  unfold deliver
  split <;> rfl

/-- Publishing makes nobody send a request. -/
@[simp] theorem requests_deliver (l : Listener) (m : Broadcast) :
    (l.deliver m).requests = l.requests := by
  unfold deliver
  split <;> rfl

/-- Publishing counts nobody. -/
@[simp] theorem counted_deliver (l : Listener) (m : Broadcast) :
    (l.deliver m).counted = l.counted := by
  simp [counted]

/-- What holds of every listener at any time, whatever the others do. -/
structure Sound (l : Listener) : Prop where
  sync : l.SyncOk
  /-- A listener sends its request once, when it leaves the outer loop for good. -/
  once : l.requests + l.outer = 1
  inOrder : l.subscriber.InOrder order
  /-- It leaves the outer loop on a `HELLO_LISTENER`, its last subscription. -/
  joined : l.loc ≠ .awaitHello → l.subscriber.issued = []

/-- A listener that has just been started is sound. -/
theorem Sound.start : Sound {} where
  sync := by simp [SyncOk]
  once := by simp [outer]
  inOrder := ⟨rfl, by simp⟩
  joined := by simp

/-- Publishing keeps a listener sound. -/
theorem Sound.deliver {l : Listener} (h : l.Sound) (m : Broadcast) : (l.deliver m).Sound := by
  by_cases hterm : l.loc = .terminated
  · rwa [Listener.deliver, if_pos hterm]
  · rw [Listener.deliver, if_neg hterm]
    exact ⟨h.sync, h.once, h.inOrder.deliver m, by simpa using h.joined⟩

/-- The reply of the controller keeps a listener sound. -/
theorem Sound.served {l : Listener} (h : l.Sound) (hreq : l.syncclient = .requested) :
    Sound { l with syncclient := .replied } where
  sync := by simpa [SyncOk, hreq] using h.sync
  once := h.once
  inOrder := h.inOrder
  joined := h.joined

/-- The actions of a listener keep it sound. -/
theorem Sound.change {l l' : Listener} {a : Act} (h : l.Sound) (hact : l.Change a l') :
    l'.Sound := by
  obtain ⟨hsync, honce, hin, hjoined⟩ := h
  cases hact with
  | subscribe hissued =>
      refine ⟨hsync, honce, hin.subscribe hissued, fun hloc => ?_⟩
      -- a listener that has left the outer loop has nothing left to subscribe
      rw [hjoined hloc] at hissued
      cases hissued
  | hello hloc hinbox =>
      -- the one step out of the outer loop: `HELLO_LISTENER` was its last subscription
      refine ⟨by simp [SyncOk], by simp_all [outer], hin.receive hinbox, fun _ => ?_⟩
      exact hin.issued_eq_nil (by decide) rfl (by rw [hinbox]; exact List.mem_cons_self) rfl
  | ignore _ hinbox => exact ⟨hsync, honce, hin.receive hinbox, hjoined⟩
  | running => exact ⟨hsync, honce, hin, hjoined⟩
  | synced hloc => exact ⟨by simp [SyncOk], by simpa [outer, hloc] using honce, hin,
      fun _ => hjoined (by simp [hloc])⟩
  | theEnd hloc hinbox | start hloc hinbox =>
      exact ⟨by simpa [SyncOk, hloc] using hsync, by simpa [outer, hloc] using honce,
        hin.receive hinbox, fun _ => hjoined (by simp [hloc])⟩
  | launch hloc | launched hloc | error hloc | child hloc | allReaped hloc =>
      exact ⟨by simpa [SyncOk, hloc] using hsync, by simpa [outer, hloc] using honce, hin,
        fun _ => hjoined (by simp [hloc])⟩

/-- **A listener is sound throughout.** -/
theorem Sound.moves {confs : List Config} {c c' : Controller} {l l' : Listener} (h : l.Sound)
    (hmoves : Moves confs c l c' l') : l'.Sound := by
  cases hmoves with
  | broadcast => exact h.deliver _
  | served _ hreq => exact h.served hreq
  | drained => exact ⟨h.sync, h.once, h.inOrder, h.joined⟩
  | moved hact => exact h.change (change_of_act hact)
  | silent | countListener | countProcess | taken | still => exact h

/-- Nobody but the controller counts a listener. -/
theorem counted_of_act {l l' : Listener} {a : Act} (h : l.act a = some l') :
    l'.counted = l.counted := by
  unfold counted
  cases change_of_act h with
  | hello hloc => simp [hloc]
  | synced hloc hreply => simp [hloc, hreply]
  | ignore | subscribe | running => rfl
  | theEnd hloc | start hloc | launch hloc | launched hloc | error hloc | child hloc
  | allReaped hloc => simp [hloc, report]

end Listener

namespace Controller

/-- Requests of listeners the controller has counted so far. -/
def served (confs : List Config) (c : Controller) : Nat :=
  quotaBefore confs c.iteration +
    match c.loc with
    | .iterate | .ended => 0
    | .syncListeners n => n
    | .syncProcesses _ | .collect _ => (confs[c.iteration]?.map Config.quota).getD 0

/-- No loop of the controller counts beyond its bound, and it ends after the last iteration only. -/
def WithinBounds (confs : List Config) (c : Controller) : Prop :=
  ∀ conf, confs[c.iteration]? = some conf →
    match c.loc with
    | .iterate => True
    | .ended => False
    | .syncListeners n => n ≤ conf.quota
    | .syncProcesses n => n ≤ conf.finishedExpected.toNat
    | .collect counters => counters.finished ≤ conf.finishedExpected.toNat

variable {confs : List Config} {c c' : Controller}

/-- The bounds hold after an action of the controller. -/
theorem WithinBounds.act {a : Act} {m : Option Broadcast} (h : c.WithinBounds confs)
    (hact : c.act confs a = some (c', m)) : c'.WithinBounds confs := by
  cases change_of_act hact with
  | helloListener | helloSocket => exact h
  | theEnd hloc hconf =>
      -- `END` is published behind the last configuration, where no bound applies
      intro conf hconf'
      rw [show (c.goto Loc.ended).iteration = c.iteration from rfl, hconf] at hconf'
      cases hconf'
  | enter | startProcesses | startWebsockets | finish =>
      intro conf _
      simp [goto, Counters.finished]

/-- The bounds hold after a request has been counted. -/
theorem WithinBounds.countListener (hcount : c.countListener confs = some c') :
    c'.WithinBounds confs := by
  obtain ⟨n, conf, hloc, hconf, hmore, rfl⟩ := countListener_eq_some hcount
  intro conf' hconf'
  obtain rfl : conf = conf' := Option.some.inj (hconf.symm.trans hconf')
  simp only [goto, Config.quota]
  omega

/-- The bounds hold after a request of a process has been counted. -/
theorem WithinBounds.countProcess (hcount : c.countProcess confs = some c') :
    c'.WithinBounds confs := by
  obtain ⟨n, conf, hloc, hconf, hmore, rfl⟩ := countProcess_eq_some hcount
  intro conf' hconf'
  obtain rfl : conf = conf' := Option.some.inj (hconf.symm.trans hconf')
  simp only [goto]
  omega

/-- The bounds hold after a message has been taken. -/
theorem WithinBounds.take {m : Message} (htake : c.take confs m = some c') :
    c'.WithinBounds confs := by
  obtain ⟨counters, conf, hloc, hconf, hmore, rfl⟩ := take_eq_some htake
  intro conf' hconf'
  obtain rfl : conf = conf' := Option.some.inj (hconf.symm.trans hconf')
  have habsorb := counters.finished_absorb m
  rw [Counters.waiting_iff] at hmore
  simp only [goto]
  split at habsorb <;> omega

/-- **The controller stays within its bounds throughout.** -/
theorem WithinBounds.moves {a : Action} (h : c.WithinBounds confs) (hmoves : c.Moves confs a c') :
    c'.WithinBounds confs := by
  cases hmoves with
  | acts hact => exact h.act hact
  | countsListener hcount => exact .countListener hcount
  | countsProcess hcount => exact .countProcess hcount
  | takesListener htake | takesProcess htake => exact .take htake
  | listener | process => exact h

/-- No action of the controller on its own counts a listener. -/
theorem served_act {a : Act} {m : Option Broadcast} (h : c.WithinBounds confs)
    (hact : c.act confs a = some (c', m)) : c'.served confs = c.served confs := by
  cases change_of_act hact with
  | helloListener | helloSocket => rfl
  | enter hloc | theEnd hloc => simp [served, goto, hloc]
  | startWebsockets hloc => simp [served, goto, hloc]
  | startProcesses hloc hconf hdone =>
      -- the barrier was left with its counter exactly at `machines`
      have hle := h _ hconf
      simp only [hloc, Config.quota] at hle
      simp only [served, goto, hloc, hconf, Option.map_some, Option.getD_some, Config.quota]
      omega
  | finish hloc hconf => simp [served, hloc, hconf, quotaBefore_succ hconf]

end Controller

/-- **The listener barrier invariant.** Every listener ever counted is one the controller has
replied to. -/
structure BarrierInv (confs : List Config) (count : Nat) (s : State) : Prop where
  length : s.listeners.length = count
  sound : ∀ l ∈ s.listeners, l.Sound
  bounds : s.controller.WithinBounds confs
  counted : total Listener.counted s.listeners = s.controller.served confs

namespace BarrierInv

variable {confs : List Config} {count : Nat} {s s' : State}

/-- Nobody has been counted initially. -/
theorem init : BarrierInv confs count (coordination confs count).init where
  length := by simp [coordination]
  sound := by
    intro l hl
    rw [List.eq_of_mem_replicate hl]
    exact .start
  bounds := by intro conf _; simp [coordination]
  counted := by simp [coordination, Controller.served, Listener.counted]

/-- Every step counts as many listeners as the controller does. -/
theorem step_counted {a : Action} (hinv : BarrierInv confs count s)
    (h : s.step confs a = some s') :
    total Listener.counted s'.listeners = s'.controller.served confs := by
  have hcounted := hinv.counted
  cases a with
  | controller a =>
      obtain ⟨c, m, hact, rfl⟩ := State.step_controller.mp h
      have hserved := Controller.served_act hinv.bounds hact
      rw [State.controller_controllerStep, hserved,
        State.total_listeners_controllerStep Listener.counted_deliver]
      exact hcounted
  | serveListener i =>
      obtain ⟨l, c, hl, hc, hreq, rfl⟩ := State.step_serveListener.mp h
      obtain ⟨n, conf, hloc, -, -, rfl⟩ := Controller.countListener_eq_some hc
      have hsound := hinv.sound l (List.mem_of_getElem? hl)
      have hwait : l.loc = .awaitSync := hsound.sync.mp (by simp [hreq])
      -- the weight of the listener and the counter of the barrier go up together
      have hset := total_set Listener.counted { l with syncclient := .replied } hl
      have hbefore : l.counted = 0 := by simp [Listener.counted, hreq]
      have hafter : Listener.counted { l with syncclient := .replied } = 1 := by
        simp [Listener.counted, hwait]
      simp only [Controller.served, hloc] at hcounted
      simp only [State.setListener, Controller.served, Controller.goto]
      omega
  | serveProcess j =>
      obtain ⟨p, c, -, hc, -, rfl⟩ := State.step_serveProcess.mp h
      obtain ⟨n, conf, hloc, -, -, rfl⟩ := Controller.countProcess_eq_some hc
      simpa [State.setProcess, Controller.served, Controller.goto, hloc] using hcounted
  | takeListener i =>
      obtain ⟨l, m, sink, c, hl, -, hc, rfl⟩ := State.step_takeListener.mp h
      obtain ⟨counters, conf, hloc, -, -, rfl⟩ := Controller.take_eq_some hc
      have hset := total_set_of_eq (f := Listener.counted) (y := { l with sink := sink }) hl rfl
      simpa [State.setListener, Controller.served, Controller.goto, hloc, hset] using hcounted
  | takeProcess j =>
      obtain ⟨p, m, sink, c, -, -, hc, rfl⟩ := State.step_takeProcess.mp h
      obtain ⟨counters, conf, hloc, -, -, rfl⟩ := Controller.take_eq_some hc
      simpa [State.setProcess, Controller.served, Controller.goto, hloc] using hcounted
  | listener i a =>
      obtain ⟨l, l', hl, hact, rfl⟩ := State.step_listener.mp h
      have hsame := Listener.counted_of_act hact
      exact (total_set_of_eq hl hsame).trans hcounted
  | process j a =>
      obtain ⟨p, p', -, -, rfl⟩ := State.step_process.mp h
      exact hcounted

/-- Every step preserves the invariant. -/
theorem step {a : Action} (hinv : BarrierInv confs count s) (h : s.step confs a = some s') :
    BarrierInv confs count s' where
  length := (State.length_listeners h).trans hinv.length
  sound := State.forall_listeners h (fun _ _ hl hmoves => hl.moves hmoves) hinv.sound
  bounds := hinv.bounds.moves (State.controller_moves h)
  counted := hinv.step_counted h

/-- The invariant holds in every run. -/
theorem of_reachable (hs : (coordination confs count).Reachable s) : BarrierInv confs count s :=
  hs.invariant init fun _ _ _ hinv h => hinv.step h

/-- **Conservation at the barrier.** Listeners that can still answer, requests that are queued and
listeners already counted make up all listeners. -/
theorem balance (hinv : BarrierInv confs count s) :
    total Listener.outer s.listeners + total Listener.queued s.listeners +
      s.controller.served confs = count := by
  have hone : total (fun l => Listener.outer l + Listener.queued l + Listener.counted l)
      s.listeners = s.listeners.length :=
    total_eq_length fun l hl => Listener.outer_add_queued_add_counted (hinv.sound l hl).sync
  rw [hinv.length, total_add, total_add, hinv.counted] at hone
  exact hone

/-- Every listener outside the outer loop has sent one request. -/
theorem requests_add_outer (hinv : BarrierInv confs count s) :
    total Listener.requests s.listeners + total Listener.outer s.listeners = count := by
  have hone : total (fun l => Listener.requests l + Listener.outer l) s.listeners =
      s.listeners.length :=
    total_eq_length fun l hl => (hinv.sound l hl).once
  rwa [hinv.length, total_add] at hone

end BarrierInv

/-! ## Passing the barrier in every iteration -/

/-- **When the barrier of an iteration can be filled.** In the listener barrier of any iteration,
the requests counted, the requests queued and the listeners still in their outer loop suffice for
`machines` exactly when the `machines` of all iterations up to this one do not exceed the number of
listeners: a listener counted once never sends another request. -/
theorem barrier_fillable_iff {confs : List Config} {count : Nat} {s : State}
    (hs : (coordination confs count).Reachable s) {conf : Config} {subscribers : Nat}
    (hconf : confs[s.controller.iteration]? = some conf)
    (hloc : s.controller.loc = .syncListeners subscribers) :
    conf.machines ≤ ((subscribers + total Listener.queued s.listeners +
        total Listener.outer s.listeners : Nat) : Int) ↔
      quotaBefore confs (s.controller.iteration + 1) ≤ count := by
  have hbalance := (BarrierInv.of_reachable hs).balance
  simp only [Controller.served, hloc] at hbalance
  rw [quotaBefore_succ hconf, Config.quota]
  omega

/-- The checked-in configuration asks for seventeen listeners. -/
example : quotaBefore Config.checkedIn 1 = 17 := by decide

/-- A configuration with one machine, one process and one client that sends one message. -/
def Config.solo : Config where
  machines := 1
  processes := 1
  instances := 1
  interval := 1
  messages := 1
  messageLength := 1
  sendMessages := true
  randomizedInterval := false
  ints := by decide

/-- The publisher processes the subscriptions of listener `i`. -/
def Listener.subscribeRun (i : Nat) : List Action := List.replicate 3 (.listener i .subscribe)

/-- The only listener and its only process go through one iteration of `Config.solo`. -/
def soloRun : List Action :=
  .controller .iterate :: Listener.subscribeRun 0 ++
  [.controller .helloListener, .listener 0 .receive, .serveListener 0, .listener 0 .synced,
    .controller .startProcesses, .listener 0 .receive, .listener 0 .launch, .listener 0 .launched,
    .process 0 .subscribe, .process 0 .subscribe, .controller .helloSocket, .process 0 .receive,
    .serveProcess 0, .process 0 .synced, .controller .startWebsockets, .process 0 .receive,
    .process 0 (.result "success 1 5 5 5 0 20"), .process 0 .exit,
    .listener 0 (.reap (.child 0 0)), .takeProcess 0, .takeListener 0, .listener 0 .allReaped,
    .controller .finish]

/-- With two listeners the barrier of the second iteration can be filled behind `soloRun`, by the
listener that the first one has not counted. -/
theorem barrier_fillable_second_iteration :
    ∃ s, (coordination [.solo, .solo] 2).Reachable s ∧ s.controller = ⟨1, .syncListeners 0⟩ ∧
      Config.solo.machines ≤ ((0 + total Listener.queued s.listeners +
        total Listener.outer s.listeners : Nat) : Int) := by
  obtain ⟨s, hs, hend⟩ := (coordination [.solo, .solo] 2).exists_of_exec_any
    (soloRun ++ [.controller .iterate]) (fun s => s.controller = ⟨1, .syncListeners 0⟩) (by decide)
  have hcontroller := of_decide_eq_true hend
  have hreach := reachable_of_exec _ hs
  refine ⟨s, hreach, hcontroller, (barrier_fillable_iff hreach ?_ ?_).mpr ?_⟩
  · rw [hcontroller]
    rfl
  · rw [hcontroller]
  · rw [hcontroller]
    decide

/-- A second listener and its process go through an iteration behind `soloRun`; the first listener
does not touch the `StartProcesses` it is sent as well. -/
def secondRun : List Action :=
  .controller .iterate :: Listener.subscribeRun 1 ++
  [.controller .helloListener, .listener 1 .receive, .serveListener 1, .listener 1 .synced,
    .controller .startProcesses, .listener 1 .receive, .listener 1 .launch, .listener 1 .launched,
    .process 1 .subscribe, .process 1 .subscribe, .controller .helloSocket, .process 1 .receive,
    .serveProcess 1, .process 1 .synced, .controller .startWebsockets, .process 1 .receive,
    .process 1 (.result "success 1 5 5 5 0 20"), .process 1 .exit,
    .listener 1 (.reap (.child 1 0)), .takeProcess 1, .takeListener 1, .controller .finish]

/-- With one listener and two iterations of one machine, the second barrier waits for a request
that nobody will send. -/
theorem barrier_of_second_iteration_stuck :
    ¬ ∀ (confs : List Config) (count : Nat), (∀ conf ∈ confs, conf.machines ≤ count) →
      ∀ s, (coordination confs count).Reachable s → ∀ conf subscribers,
        confs[s.controller.iteration]? = some conf →
        s.controller.loc = .syncListeners subscribers →
        conf.machines ≤ ((subscribers + total Listener.queued s.listeners +
          total Listener.outer s.listeners : Nat) : Int) := by
  intro hclaim
  -- one whole iteration, and the entry into the second one
  obtain ⟨s, hs, hend⟩ := (coordination [.solo, .solo] 1).exists_of_exec_any
    (soloRun ++ [.controller .iterate]) (fun s =>
      s.controller = ⟨1, .syncListeners 0⟩ ∧ total Listener.queued s.listeners = 0 ∧
        total Listener.outer s.listeners = 0) (by decide)
  simp only [decide_eq_true_eq] at hend
  obtain ⟨hcontroller, hqueued, houter⟩ := hend
  have h := hclaim [.solo, .solo] 1 (by decide) s (reachable_of_exec _ hs) .solo 0
    (by rw [hcontroller]; rfl) (by rw [hcontroller])
  rw [hqueued, houter] at h
  exact absurd h (by decide)

/-! ## Unanswered requests at the end -/

namespace Listener

/-- Once the controller has ended, a counted listener has terminated or has `END` to read. -/
def EndOk (c : Controller) (l : Listener) : Prop :=
  c.loc = .ended → l.counted = 1 → l.loc ≠ .terminated → .theEnd ∈ l.subscriber.inbox

/-- A listener that has left its outer loop receives every `END`. -/
theorem theEnd_mem_deliver {l : Listener} (h : l.Sound) (hloc : l.loc ≠ .awaitHello)
    (hterm : l.loc ≠ .terminated) : .theEnd ∈ (l.deliver .theEnd).subscriber.inbox := by
  rw [Listener.deliver, if_neg hterm, h.inOrder.deliver_of_issued (h.joined hloc)]
  simp [order, Broadcast.command]

/-- The actions of a listener leave an unread `END` unread, unless it terminates. -/
theorem EndOk.change {c : Controller} {l l' : Listener} {a : Act} (h : l.EndOk c)
    (hact : l.act a = some l') : l'.EndOk c := by
  intro hended hcounted hterm
  have hsame := counted_of_act hact
  cases change_of_act hact with
  | theEnd => exact absurd rfl hterm
  | hello hloc => simp [counted] at hcounted
  | ignore hloc hin =>
      -- only the outer loop ignores an `END`, and nobody there has been counted
      have hmem := h hended hcounted hterm
      rcases hloc with ⟨hloc, -⟩ | ⟨-, hm, -⟩
      · simp [counted, hloc] at hcounted
      · rw [hin, List.mem_cons] at hmem
        exact hmem.resolve_left (Ne.symm hm)
  | start hloc hin =>
      have hmem := h hended (hsame ▸ hcounted) (by simp [hloc])
      rw [hin, List.mem_cons] at hmem
      exact hmem.resolve_left (by simp)
  | synced hloc | launch hloc | launched hloc | error hloc | child hloc | allReaped hloc =>
      exact h hended (hsame ▸ hcounted) (by simp [hloc])
  | subscribe | running => exact h hended hcounted hterm

/-- **Every counted listener gets its `END`.** -/
theorem EndOk.moves {confs : List Config} {c c' : Controller} {l l' : Listener} (hsound : l.Sound)
    (h : l.EndOk c) (hmoves : Moves confs c l c' l') : l'.EndOk c' := by
  cases hmoves with
  | broadcast hact =>
      intro hended hcounted hterm
      cases Controller.change_of_act hact with
      | theEnd =>
          have hloc : l.loc ≠ .awaitHello := fun hloc => by simp [counted, hloc] at hcounted
          exact theEnd_mem_deliver hsound hloc (by simpa using hterm)
      | startProcesses | startWebsockets => simp [Controller.goto] at hended
      | helloListener hloc | helloSocket hloc => rw [hloc] at hended; cases hended
  | silent hact =>
      intro hended
      cases Controller.change_of_act hact <;> simp [Controller.goto] at hended
  | served hc | countListener hc =>
      obtain ⟨n, conf, -, -, -, rfl⟩ := Controller.countListener_eq_some hc
      intro hended
      simp [Controller.goto] at hended
  | countProcess hc =>
      obtain ⟨n, conf, -, -, -, rfl⟩ := Controller.countProcess_eq_some hc
      intro hended
      simp [Controller.goto] at hended
  | drained hc | taken hc =>
      obtain ⟨counters, conf, -, -, -, rfl⟩ := Controller.take_eq_some hc
      intro hended
      simp [Controller.goto] at hended
  | moved hact => exact h.change hact
  | still => exact h

end Listener

/-- Once the controller has ended it has counted the quotas of all iterations. -/
theorem Controller.served_of_ended {confs : List Config} {c : Controller}
    (hbounds : c.WithinBounds confs) (hended : c.loc = .ended) :
    c.served confs = quotaBefore confs confs.length := by
  have hnone : confs[c.iteration]? = none := by
    cases hconf : confs[c.iteration]? with
    | none => rfl
    | some conf => exact (by simpa [hended] using hbounds conf hconf)
  have hlen := List.getElem?_eq_none_iff.mp hnone
  simp [served, hended, quotaBefore, List.take_of_length_le hlen]

namespace State

/-- No message is in flight to a listener: no reply, and no broadcast except those left in the
socket of a listener that is blocked in `s_recv(syncclient)`. -/
def Quiet (s : State) : Prop :=
  ∀ l ∈ s.listeners, l.syncclient ≠ .replied ∧ (l.loc = .awaitSync ∨ l.subscriber.inbox = [])

instance (s : State) : Decidable s.Quiet :=
  inferInstanceAs (Decidable (∀ l ∈ s.listeners, _ ∧ (_ ∨ _)))

/-- The step is the reading of a `HELLO_LISTENER` that makes listener `i` send its request. -/
def AnswersHello (s : State) (a : Action) : Prop :=
  ∃ i l, a = .listener i .receive ∧ s.listeners[i]? = some l ∧ l.loc = .awaitHello ∧
    l.subscriber.inbox.head? = some .helloListener

/-- A listener answers a `HELLO_LISTENER` only while fewer requests have been sent than the
controller reads in all its iterations. -/
def AnswersInQuota (confs : List Config) (s : State) (a : Action) : Prop :=
  s.AnswersHello a → total Listener.requests s.listeners < quotaBefore confs confs.length

variable {confs : List Config} {s s' : State}

/-- Only a listener sends requests. -/
theorem ownWeight_requests : Listener.OwnWeight Listener.requests :=
  ⟨Listener.requests_deliver, fun _ _ => rfl, fun _ _ => rfl⟩

/-- Answering a HELLO sends one request; no other step sends any. -/
theorem requests_step {a : Action} (h : s.step confs a = some s') :
    (s.AnswersHello a ∧
      total Listener.requests s'.listeners = total Listener.requests s.listeners + 1) ∨
    (¬ s.AnswersHello a ∧
      total Listener.requests s'.listeners = total Listener.requests s.listeners) := by
  cases a with
  | controller | serveListener | serveProcess | takeListener | takeProcess | process =>
      exact .inr ⟨by simp [AnswersHello], total_listeners_of_own ownWeight_requests h (by simp)⟩
  | listener i a =>
      obtain ⟨l, l', hl, hact, rfl⟩ := step_listener.mp h
      have hset := total_set Listener.requests l' hl
      have hsame : l'.requests = l.requests → total Listener.requests (s.listeners.set i l') =
          total Listener.requests s.listeners := total_set_of_eq hl
      have hmore : l'.requests = l.requests + 1 → total Listener.requests (s.listeners.set i l') =
          total Listener.requests s.listeners + 1 := fun hone => by omega
      cases Listener.change_of_act hact with
      | hello hloc hin =>
          -- the only branch in which a listener sends a request
          exact .inl ⟨⟨i, l, rfl, hl, hloc, by rw [hin, List.head?_cons]⟩, hmore rfl⟩
      | ignore hloc hin =>
          refine .inr ⟨?_, hsame rfl⟩
          rintro ⟨k, x, ha, hx, hx', hhead⟩
          cases ha
          obtain rfl := Option.some.inj (hl.symm.trans hx)
          rw [hin, List.head?_cons] at hhead
          rcases hloc with ⟨-, hm⟩ | ⟨hloc, -⟩
          · exact hm (Option.some.inj hhead)
          · rw [hloc] at hx'; cases hx'
      | theEnd hloc | start hloc =>
          refine .inr ⟨?_, hsame rfl⟩
          rintro ⟨k, x, ha, hx, hx', -⟩
          cases ha
          obtain rfl := Option.some.inj (hl.symm.trans hx)
          rw [hloc] at hx'; cases hx'
      | _ => exact .inr ⟨by simp [AnswersHello], hsame rfl⟩

/-- Answering only within the quota is the same as sending no more requests than the quota. -/
theorem along_answersInQuota_iff {count : Nat} {run : List Action}
    (h : (coordination confs count).exec (coordination confs count).init run = some s) :
    (coordination confs count).Along (AnswersInQuota confs) (coordination confs count).init run ↔
      total Listener.requests s.listeners ≤ quotaBefore confs confs.length := by
  refine exec_induction (P := fun run s =>
    (coordination confs count).Along (AnswersInQuota confs) (coordination confs count).init run ↔
      total Listener.requests s.listeners ≤ quotaBefore confs confs.length) ?_ ?_ h
  · simp [coordination]
  · intro run s a s' hrun ih hstep
    rw [along_concat _ hrun, ih, AnswersInQuota]
    rcases requests_step hstep with ⟨hanswers, hsent⟩ | ⟨hanswers, hsent⟩
    · simp only [hanswers, true_implies]
      omega
    · simp only [hanswers, false_implies, and_true]
      omega

end State

/-- Every counted listener gets its `END`, in every reachable state. -/
theorem Listener.endOk_of_reachable {confs : List Config} {count : Nat} {s : State}
    (hs : (coordination confs count).Reachable s) :
    ∀ l ∈ s.listeners, l.Sound ∧ l.EndOk s.controller := by
  refine hs.invariant (P := fun s => ∀ l ∈ s.listeners, l.Sound ∧ l.EndOk s.controller) ?_ ?_
  · intro l hl
    rw [List.eq_of_mem_replicate hl]
    exact ⟨.start, fun h => by cases h⟩
  · intro s a s' hinv h
    exact State.forall_listeners h
      (fun _ _ hl hmoves => ⟨hl.1.moves hmoves, hl.2.moves hl.1 hmoves⟩) hinv

/-- At the end of a run of the controller, with nothing in flight to the listeners, nobody is left
behind exactly when no more requests were sent than the controller reads. -/
theorem State.none_blocked_iff {confs : List Config} {count : Nat} {s : State}
    (hs : (coordination confs count).Reachable s) (hended : s.controller.loc = .ended)
    (hquiet : s.Quiet) :
    (∀ l ∈ s.listeners, l.loc = .terminated ∨ l.loc = .awaitHello) ↔
      total Listener.requests s.listeners ≤ quotaBefore confs confs.length := by
  have hinv := BarrierInv.of_reachable hs
  have hbalance := hinv.balance
  have hrequests := hinv.requests_add_outer
  rw [Controller.served_of_ended hinv.bounds hended] at hbalance
  have hqueued : total Listener.queued s.listeners = 0 ↔
      ∀ l ∈ s.listeners, l.loc = .terminated ∨ l.loc = .awaitHello := by
    rw [total_eq_zero]
    refine forall₂_congr fun l hl => ?_
    obtain ⟨hsound, hend⟩ := Listener.endOk_of_reachable hs l hl
    obtain ⟨hreply, hinbox⟩ := hquiet l hl
    constructor
    · -- a listener inside that is not queued has been counted, so it still has its `END` to read
      intro hq
      by_contra hcon
      obtain ⟨hterm, houter⟩ := not_or.mp hcon
      have hcounted : l.counted = 1 := by
        have := Listener.outer_add_queued_add_counted hsound.sync
        rw [hq, Listener.outer, if_neg houter] at this
        omega
      have hmem := hend hended hcounted hterm
      rcases hinbox with hwait | hinbox
      · -- it waits for a reply that is neither outstanding nor on its way
        have hbusy := hsound.sync.mpr hwait
        cases hreq : l.syncclient with
        | idle => exact hbusy hreq
        | requested => simp [Listener.queued, hreq] at hq
        | replied => exact hreply hreq
      · rw [hinbox] at hmem
        cases hmem
    · intro hloc
      have hidle : l.syncclient = .idle := by
        by_contra hbusy
        have hwait := hsound.sync.mp hbusy
        rcases hloc with hloc | hloc <;> rw [hloc] at hwait <;> cases hwait
      simp [Listener.queued, hidle]
  -- all who left the outer loop have sent one request; the quota of them was counted
  rw [← hqueued]
  omega

/-- As many listeners as the barriers read leave nobody behind. -/
theorem State.none_blocked_of_count_le {confs : List Config} {count : Nat} {s : State}
    (hs : (coordination confs count).Reachable s) (hended : s.controller.loc = .ended)
    (hquiet : s.Quiet) (hcount : count ≤ quotaBefore confs confs.length) :
    ∀ l ∈ s.listeners, l.loc = .terminated ∨ l.loc = .awaitHello := by
  refine (State.none_blocked_iff hs hended hquiet).mpr ?_
  have hrequests := (BarrierInv.of_reachable hs).requests_add_outer
  omega

/-- **Which runs leave no listener behind.** At the end of a run of the controller, with nothing in
flight to the listeners, every listener has terminated or is back in its outer loop exactly when
each HELLO of the run was answered while fewer requests had been sent than the controller reads. -/
theorem no_listener_blocked_iff {confs : List Config} {count : Nat} {run : List Action} {s : State}
    (hrun : (coordination confs count).exec (coordination confs count).init run = some s)
    (hended : s.controller.loc = .ended) (hquiet : s.Quiet) :
    (∀ l ∈ s.listeners, l.loc = .terminated ∨ l.loc = .awaitHello) ↔
      (coordination confs count).Along (State.AnswersInQuota confs)
        (coordination confs count).init run := by
  rw [State.none_blocked_iff (reachable_of_exec _ hrun) hended hquiet,
    State.along_answersInQuota_iff hrun]

/-- With one machine and two listeners the second one is left blocked in `s_recv(syncclient)`. -/
theorem surplus_listener_left_blocked :
    ¬ ∀ (conf : Config) (count : Nat), 1 ≤ conf.machines → conf.machines ≤ count →
      ∀ s, (coordination [conf] count).Reachable s → s.controller.loc = .ended → s.Quiet →
        ∀ l ∈ s.listeners, l.loc = .terminated ∨ l.loc = .awaitHello := by
  intro hclaim
  -- both listeners are subscribed in time, the second one answers when nobody counts any more
  obtain ⟨s, hs, hend⟩ := (coordination [.solo] 2).exists_of_exec_any
    (Listener.subscribeRun 1 ++ soloRun ++
      [.listener 1 .receive, .controller .iterate, .listener 0 .receive])
    (fun s => s.controller.loc = .ended ∧ s.Quiet ∧
      ∃ l ∈ s.listeners, l.loc = .awaitSync) (by decide)
  obtain ⟨hended, hquiet, l, hl, hloc⟩ := of_decide_eq_true hend
  have h := hclaim .solo 2 (by decide) (by decide) s (reachable_of_exec _ hs) hended hquiet l hl
  rw [hloc] at h
  rcases h with h | h <;> cases h

/-- With one machine and two listeners, of which the second one subscribes behind the iteration, the
first one terminates and the second one stays in its outer loop: it reads and ignores `END`. -/
theorem no_listener_blocked_late :
    ∃ s, (coordination [.solo] 2).Reachable s ∧ s.controller.loc = .ended ∧
      s.listeners.map Listener.loc = [.terminated, .awaitHello] ∧
      ∀ l ∈ s.listeners, l.loc = .terminated ∨ l.loc = .awaitHello := by
  obtain ⟨s, hs, hend⟩ := (coordination [.solo] 2).exists_of_exec_any
    (soloRun ++ Listener.subscribeRun 1 ++
      [.controller .iterate, .listener 0 .receive, .listener 1 .receive])
    (fun s => s.controller.loc = .ended ∧ s.Quiet ∧ total Listener.requests s.listeners = 1 ∧
      s.listeners.map Listener.loc = [.terminated, .awaitHello]) (by decide)
  obtain ⟨hended, hquiet, hrequests, hlocs⟩ := of_decide_eq_true hend
  refine ⟨s, reachable_of_exec _ hs, hended, hlocs,
    (no_listener_blocked_iff hs hended hquiet).mpr ?_⟩
  rw [State.along_answersInQuota_iff hs, hrequests]
  decide

end WsPerftester
