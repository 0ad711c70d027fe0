import WsPerftester.Coordination.Gathering
import WsPerftester.Coordination.Calls

/-! # The process barrier is passed

Fair executions, continued. Whatever a listener has in front of it uses up its work
(`Listener.work`), in which a launch outweighs the steps the new child has in front of it; a counted
listener in its first round can always go on (`Listener.errand`), and each child is counted after
the steps of `distance`, unless it exits before it has sent its request. With the first rounds
launched and everybody counted the barrier is full (`State.exists_missing`): so it is passed, if no
iteration asks for more processes than the ones before and no child is lost
(`process_barrier_passed`). -/

namespace WsPerftester

open TransitionSystem Population

/-! ## Work left to the listeners -/

/-- What a broadcast costs the listener that receives it: for each child of a `StartProcesses` it
launches and waits once. -/
def Broadcast.cost : Broadcast → Nat
  | .startProcesses n => 12 * n.toNat + 3
  | .helloListener | .helloSocket | .startWebsockets _ | .theEnd => 1

/-- Every broadcast costs something. -/
theorem Broadcast.one_le_cost (m : Broadcast) : 1 ≤ m.cost := by
  cases m <;> simp [cost]

namespace Listener

/-- What a listener has in front of it, with the notices it has queued. -/
def work (l : Listener) : Nat :=
  l.sink.length + l.subscriber.issued.length + total Broadcast.cost l.subscriber.inbox +
    match l.loc with
    | .awaitHello => 2
    | .awaitSync => 1
    | .awaitRequest | .terminated => 0
    | .launching processes launched => 10 * (processes - launched).toNat + 2 * processes.toNat + 2
    | .reaping unfinished => 2 * unfinished.toNat + 1

/-- Weighs the listeners that have a step in front of them nobody can keep them from: those that
have been counted and not started, and those that launch children. -/
def errand (l : Listener) : Nat :=
  match l.loc with
  | .launching _ _ => 1
  | .awaitSync | .awaitRequest => if l.counted = 1 ∧ l.starts = 0 then 1 else 0
  | .awaitHello | .reaping _ | .terminated => 0

/-- What is looked at of a listener in front of the process barrier. -/
def charge (l : Listener) : Nat × Nat := (l.errand, l.work)

variable {confs : List Config} {c c' : Controller} {l l' : Listener}

/-- **Whatever a listener does is work**, but for a `waitpid` that finds its children running; a
launch takes off more than eight. -/
theorem work_change {a : Act} (hact : l.Change a l') :
    (a = .reap .running ∧ l' = l) ∨ l'.work + 8 * a.launches < l.work := by
  cases hact with
  | running => exact .inl ⟨rfl, rfl⟩
  | subscribe hissued =>
      right
      simp only [work, hissued, List.length_cons, Act.launches]
      omega
  | ignore _ hin =>
      right
      have hcost := Broadcast.one_le_cost ‹_›
      simp only [work, hin, total_cons, Act.launches]
      omega
  | hello hloc hin | theEnd hloc hin | start hloc hin =>
      right
      simp only [work, hloc, hin, total_cons, Broadcast.cost, Act.launches]
      omega
  | synced hloc | launched hloc | launch hloc hmore | allReaped hloc =>
      right
      simp only [work, hloc, Act.launches]
      omega
  | error hloc hmore | child hloc hmore =>
      -- a child waited for counts twice, its notice once
      right
      simp only [work, hloc, sink_report, subscriber_report, loc_report, List.length_append,
        List.length_singleton, Act.launches]
      omega

/-- A broadcast that is not for listeners does not reach them. -/
theorem Sound.deliver_other (h : l.Sound) {m : Broadcast} (hm : m.command ∉ order) :
    l.deliver m = l := by
  have hnone : m.command ∉ l.subscriber.topics := fun hmem => hm (by
    rw [← h.inOrder.split]
    exact List.mem_append_left _ hmem)
  rw [Listener.deliver, Subscriber.deliver, if_neg hnone]
  split <;> rfl

/-- Whoever moves at the process barrier, a listener changes by its own actions only. -/
theorem Sound.moves_of_atProcesses {j : Nat} (h : l.Sound) (hat : c.AtProcesses j)
    (hat' : c'.AtProcesses j) (hmoves : Moves confs c l c' l') :
    l' = l ∨ ∃ a, l.act a = some l' := by
  obtain ⟨-, n, hloc⟩ := hat
  cases hmoves with
  | broadcast hact =>
      cases Controller.change_of_act hact with
      | helloSocket => exact .inl (h.deliver_other (by simp [Broadcast.command, order]))
      | startWebsockets =>
          obtain ⟨-, k, hk⟩ := hat'
          cases hk
      | theEnd hloc' | helloListener hloc' | startProcesses hloc' =>
          rw [hloc] at hloc'
          cases hloc'
  | served hcount =>
      obtain ⟨k, conf', hloc', -⟩ := Controller.countListener_eq_some hcount
      rw [hloc] at hloc'
      cases hloc'
  | drained htake =>
      obtain ⟨counters, conf', hloc', -⟩ := Controller.take_eq_some htake
      rw [hloc] at hloc'
      cases hloc'
  | moved hact => exact .inr ⟨_, hact⟩
  | silent | countListener | countProcess | taken | still => exact .inl rfl

/-- A listener on an errand can get on with it, and need not wait for its children. -/
theorem Sound.act_of_errand (h : l.Sound) (hcalled : l.Called c)
    (hloc : ∀ n, c.loc ≠ .syncListeners n) (herrand : l.errand ≠ 0) :
    (∀ unfinished, l.loc ≠ .reaping unfinished) ∧
      ∃ a, (∀ r, a ≠ .reap r) ∧ (l.act a).isSome = true := by
  unfold errand at herrand
  cases hplace : l.loc with
  | awaitSync =>
      simp only [hplace, ne_eq, ite_eq_right_iff, Classical.not_imp] at herrand
      obtain ⟨⟨hcounted, -⟩, -⟩ := herrand
      have hbusy := h.sync.mpr hplace
      refine ⟨by simp, .synced, by simp, ?_⟩
      cases hreply : l.syncclient with
      | idle => exact absurd hreply hbusy
      | requested => simp [counted, hreply] at hcounted
      | replied => simp [act, hplace, hreply]
  | awaitRequest =>
      simp only [hplace, ne_eq, ite_eq_right_iff, Classical.not_imp] at herrand
      obtain ⟨⟨hcounted, hstarts⟩, -⟩ := herrand
      have hcall := (hcalled hcounted hstarts).resolve_left (not_exists.mpr hloc)
      obtain ⟨m, inbox, hin⟩ : ∃ m inbox, l.subscriber.inbox = m :: inbox :=
        List.exists_cons_of_ne_nil fun hnil => hcall (by simp [firstCall, hnil])
      exact ⟨by simp, .receive, by simp, by simp [act, hplace, Subscriber.receive, hin]⟩
  | launching processes launched =>
      refine ⟨by simp, ?_⟩
      by_cases hmore : (launched : Int) < processes
      · exact ⟨.launch, by simp, by simp [act, hplace, hmore]⟩
      · exact ⟨.launched, by simp, by simp [act, hplace, hmore]⟩
  | awaitHello | reaping | terminated => simp [hplace] at herrand

/-- A counted listener without an errand has launched what it pledged. -/
theorem Pledges.pledge_eq_family (h : l.Pledges confs c) (hended : c.loc ≠ .ended)
    (hcounted : l.counted = 1) (herrand : l.errand = 0) (n : Nat) : l.pledge n = l.family := by
  have hstarts : l.starts ≠ 0 := by
    intro hzero
    cases hloc : l.loc with
    | awaitHello => simp [counted, hloc] at hcounted
    | awaitSync | awaitRequest => simp [errand, hloc, hcounted, hzero] at herrand
    | launching => exact (h.paced.launching _ _ hloc).1 hzero
    | reaping => exact h.paced.reaping _ hloc hzero
    | terminated => exact hended (h.endsLast (.inr hloc))
  rw [pledge, if_neg hstarts, family, present, outstanding]
  cases hloc : l.loc with
  | launching => simp [errand, hloc] at herrand
  | awaitHello | awaitSync | awaitRequest | reaping | terminated => rfl

end Listener

/-! ## Processes on their way to the barrier -/

namespace Process

/-- How far a process is from being counted. -/
def toBarrier (p : Process) : Nat :=
  distance (p.loc = .awaitHello) .helloSocket p.syncclient p.subscriber

/-- A process that has just been launched is seven steps away. -/
theorem toBarrier_start (i : Nat) : toBarrier { parent := i } = 7 := rfl

variable {confs : List Config} {j : Nat} {c c' : Controller} {p p' : Process}

/-- A process in its outer loop has no request queued. -/
theorem Sound.not_requested (h : p.Sound) (hloc : p.loc = .awaitHello) :
    p.syncclient ≠ .requested := by
  rw [h.silent (h.outside hloc)]
  simp

/-- What a process does takes it no farther away, unless it dies before its request. -/
theorem Sound.toBarrier_change (h : p.Sound) {a : Act} (hact : p.Change a p') :
    p'.lost ≠ 0 ∨ p'.toBarrier ≤ p.toBarrier := by
  cases hact with
  | subscribe hissued => exact .inr (distance_subscribe_le hissued)
  | hello hloc =>
      right
      show distance _ _ .requested _ ≤ _
      rw [distance_requested]
      exact le_trans (by omega) (two_le_distance _ _ hloc (h.not_requested hloc))
  | ignore hloc hin =>
      right
      rcases hloc with ⟨hloc, hm⟩ | ⟨hloc, -⟩
      · exact (distance_ignore hin hm hloc (h.not_requested hloc)).le
      · exact Nat.le_of_eq (by simp [toBarrier, distance, hloc])
  | synced hloc => exact .inr (by simp [toBarrier, distance])
  | start hloc | result hloc | exit hloc =>
      exact .inr (Nat.le_of_eq (by simp [toBarrier, distance, hloc]))
  | die =>
      by_cases hloc : p.loc = .awaitHello
      · exact .inl (by simp [lost, h.outside hloc])
      · exact .inr (Nat.le_of_eq (by simp [toBarrier, distance, hloc]))

/-- A HELLO takes no process farther away. -/
theorem toBarrier_deliver (p : Process) : (p.deliver .helloSocket).toBarrier ≤ p.toBarrier := by
  by_cases hexit : p.Exited
  · rw [deliver_of_exited hexit]
  · rw [deliver_of_running hexit]
    exact distance_deliver

/-- A process that has something to receive or to subscribe to can do it, -/
theorem act_of_toBarrier (hzero : p.toBarrier ≠ 0) (hone : p.toBarrier ≠ 1)
    (hthree : p.toBarrier ≠ 3) : ∃ a, a.ofMain = true ∧ (p.act a).isSome = true := by
  obtain ⟨hloc, -, hissued | hinbox⟩ := of_distance hzero hone hthree
  · obtain ⟨c, issued, hissued⟩ := List.exists_cons_of_ne_nil hissued
    exact ⟨.subscribe, rfl, by simp [act, Subscriber.subscribe, hissued]⟩
  · obtain ⟨m, inbox, hinbox⟩ := List.exists_cons_of_ne_nil hinbox
    exact ⟨.receive, rfl, by simp [act, hloc, Subscriber.receive, hinbox]⟩

/-- and whatever it does then, short of dying, brings it closer. -/
theorem toBarrier_lt (hzero : p.toBarrier ≠ 0) (hone : p.toBarrier ≠ 1) (hthree : p.toBarrier ≠ 3)
    {a : Act} (hok : a.ofMain = true) (hact : p.Change a p') : p'.toBarrier < p.toBarrier := by
  obtain ⟨hloc, hr, -⟩ := of_distance hzero hone hthree
  cases hact with
  | subscribe hissued => exact distance_subscribe hissued hloc hr
  | hello hloc =>
      show distance _ _ .requested _ < _
      rw [distance_requested]
      exact lt_of_lt_of_le (by omega) (two_le_distance _ _ hloc hr)
  | ignore hloc' hin =>
      rcases hloc' with ⟨-, hm⟩ | ⟨hloc', -⟩
      · exact distance_ignore hin hm hloc hr
      · rw [hloc] at hloc'
        cases hloc'
  | start h' | synced h' | result h' | exit h' =>
      rw [hloc] at h'
      cases h'
  | die => cases hok

/-- A process that waits for a HELLO is brought closer by the next one. -/
theorem Subscribed.toBarrier_hello (h : p.Subscribed) (hthree : p.toBarrier = 3) :
    (p.deliver .helloSocket).toBarrier < p.toBarrier := by
  obtain ⟨hloc, -⟩ := of_distance_eq_three hthree
  rw [deliver_of_running (by simp [Exited, hloc])]
  exact distance_hello h.inOrder (by simp [order, Broadcast.command]) hthree

end Process

namespace Controller

/-- The collection loop of iteration `j`. -/
def AtCollection (j : Nat) (c : Controller) : Prop :=
  c.iteration = j ∧ ∃ counters, c.loc = .collect counters

/-- What the controller has to do before it publishes `StartWebsockets`. -/
def toStart (conf : Config) (c : Controller) : Nat :=
  match c.loc with
  | .syncProcesses n => conf.finishedExpected.toNat - n + 1
  | .iterate | .syncListeners _ | .collect _ | .ended => 0

variable {confs : List Config} {conf : Config} {j : Nat} {c c' : Controller}

/-- The controller leaves the process barrier for the collection loop only, and gets closer to doing
so by whatever it does but sending HELLOs. -/
theorem AtProcesses.moves (h : c.AtProcesses j) (hconf : confs[j]? = some conf) {a : Action}
    (hmoves : c.Moves confs a c') :
    c'.AtCollection j ∨ (c'.AtProcesses j ∧ c'.toStart conf ≤ c.toStart conf ∧
      ((a = .controller .helloSocket ∧
          ∃ n, c.loc = .syncProcesses n ∧ (n : Int) < conf.finishedExpected) ∨
        (∃ i b, a = .listener i b) ∨ (∃ j b, a = .process j b) ∨
        c'.toStart conf < c.toStart conf)) := by
  obtain ⟨rfl, n, hloc⟩ := h
  cases hmoves with
  | acts hact =>
      cases change_of_act hact with
      | @helloSocket conf' k hloc' hconf' hmore =>
          obtain rfl := Option.some.inj (hconf.symm.trans hconf')
          exact .inr ⟨⟨rfl, n, hloc⟩, Nat.le_refl _, .inl ⟨rfl, k, hloc', hmore⟩⟩
      | startWebsockets => exact .inl ⟨rfl, _, rfl⟩
      | enter hloc' | theEnd hloc' | helloListener hloc' | startProcesses hloc' | finish hloc' =>
          rw [hloc] at hloc'
          cases hloc'
  | countsListener hcount =>
      obtain ⟨k, conf', hloc', -⟩ := countListener_eq_some hcount
      rw [hloc] at hloc'
      cases hloc'
  | countsProcess hcount =>
      obtain ⟨k, conf', hloc', hconf', hmore, rfl⟩ := countProcess_eq_some hcount
      obtain rfl := Option.some.inj (hconf.symm.trans hconf')
      have hlower : (c.goto (.syncProcesses (k + 1))).toStart conf < c.toStart conf := by
        simp only [toStart, goto, hloc']
        omega
      exact .inr ⟨⟨rfl, k + 1, rfl⟩, hlower.le, .inr (.inr (.inr hlower))⟩
  | takesListener htake | takesProcess htake =>
      obtain ⟨counters, conf', hloc', -⟩ := take_eq_some htake
      rw [hloc] at hloc'
      cases hloc'
  | listener => exact .inr ⟨⟨rfl, n, hloc⟩, Nat.le_refl _, .inr (.inl ⟨_, _, rfl⟩)⟩
  | process => exact .inr ⟨⟨rfl, n, hloc⟩, Nat.le_refl _, .inr (.inr (.inl ⟨_, _, rfl⟩))⟩

/-- In front of the process barrier the controller publishes HELLOs for processes only. -/
theorem AtProcesses.publishes (h : c.AtProcesses j) (h' : c'.AtProcesses j) {a : Act}
    {m : Broadcast} (hact : c.act confs a = some (c', some m)) : m = .helloSocket := by
  obtain ⟨-, n, hloc⟩ := h
  obtain ⟨-, n', hloc'⟩ := h'
  cases change_of_act hact with
  | helloSocket => rfl
  | startWebsockets => cases hloc'
  | theEnd h | helloListener h | startProcesses h =>
      rw [hloc] at h
      cases h

end Controller

/-- **Nobody takes a process farther away from its barrier** but its own death. -/
theorem Process.Sound.toBarrier_moves {confs : List Config} {j : Nat} {c c' : Controller}
    {p p' : Process} (h : p.Sound) (hat : c.AtProcesses j) (hat' : c'.AtProcesses j)
    {ok : Process.Act → Prop} (hmoves : Moves confs ok c p c' p') :
    p'.lost ≠ 0 ∨ p'.toBarrier ≤ p.toBarrier := by
  cases hmoves with
  | broadcast hact =>
      obtain rfl := hat.publishes hat' hact
      exact .inr p.toBarrier_deliver
  | served _ hreq =>
      right
      have hinside : p.loc ≠ .awaitHello := fun hloc => h.not_requested hloc hreq
      have hzero : toBarrier { p with syncclient := .replied } = 0 :=
        distance_inside hinside (by simp)
      omega
  | moved _ hact => exact h.toBarrier_change (change_of_act hact)
  | drained | reaped | silent | countListener | countProcess | taken | still =>
      exact .inr (Nat.le_refl _)

/-- The party expected to move in front of the process barrier: the controller when it can go on, a
listener on an errand, or the first process that has not been counted, or whoever it waits for. -/
def Party.atProcesses (view : Nat × List (Nat × Nat) × List Nat) : Party :=
  if view.1 ≤ 1 then .controller
  else match firstBusy (view.2.1.map (·.1)), firstBusy view.2.2 with
    | some i, _ => .listener i
    | none, none => .controller
    | none, some j =>
        if view.2.2[j]? = some 1 then .serveProcess j
        else if view.2.2[j]? = some 3 then .controller
        else .process j

namespace State

variable {confs : List Config} {conf : Config} {count j : Nat} {s s' : State}

/-- A child has exited before it has sent its request. -/
def ChildLost (s : State) : Prop := ∃ p ∈ s.processes, p.lost ≠ 0

/-- What is looked at in front of the process barrier. -/
def atProcesses (conf : Config) (s : State) : Nat × List (Nat × Nat) × List Nat :=
  (s.controller.toStart conf, s.listeners.map Listener.charge, s.processes.map Process.toBarrier)

/-- As long as the barrier waits and no child is lost, a listener is on an errand or a process has
not been counted. -/
theorem exists_missing (hconfs : ∀ conf ∈ confs, 0 ≤ conf.machines ∧ 0 ≤ conf.processes)
    (hfewer : ∀ j, childrenOf confs (j + 1) ≤ childrenOf confs j)
    (hs : (coordination confs count).Reachable s) (hlost : ¬ s.ChildLost)
    (hconf : confs[j]? = some conf) (hi : s.controller.iteration = j) {n : Nat}
    (hloc : s.controller.loc = .syncProcesses n) (hmore : (n : Int) < conf.finishedExpected)
    (herrands : firstBusy (s.listeners.map Listener.errand) = none) :
    firstBusy (s.processes.map Process.toBarrier) ≠ none := by
  intro hnone
  have hsound := sound_of_reachable hs
  have hpledged := pledged_le hconfs hfewer hs
  -- the children pledged have been launched
  have hlaunched : total (fun l => l.counted * l.pledge (childrenOf confs s.controller.iteration))
      s.listeners ≤ total Listener.family s.listeners := by
    refine total_le_total fun l hl => ?_
    rcases l.counted_cases with hcounted | hcounted
    · rw [hcounted, Nat.zero_mul]
      exact Nat.zero_le _
    · rw [hcounted, Nat.one_mul, (pledges_of_reachable hfewer hs l hl).pledge_eq_family
        (by simp [hloc]) hcounted (firstBusy_eq_none herrands _ (List.mem_map_of_mem hl))]
  rw [total_family_eq_length hs, ← processes_partition hs] at hlaunched
  -- whoever has been launched has been counted
  have hzero : ∀ p ∈ s.processes, p.toBarrier = 0 := fun p hp =>
    firstBusy_eq_none hnone _ (List.mem_map_of_mem hp)
  have hqueued : total Process.queued s.processes = 0 := total_eq_zero.mpr fun p hp => by
    unfold Process.queued
    rw [if_neg]
    intro hr
    have hone := hzero p hp
    rw [Process.toBarrier, hr, distance_requested] at hone
    cases hone
  have houter : total Process.outer s.processes = 0 := total_eq_zero.mpr fun p hp => by
    unfold Process.outer
    rw [if_neg]
    intro houtside
    have hlong := two_le_distance .helloSocket p.subscriber houtside
      ((hsound p hp).not_requested houtside)
    have hnear := hzero p hp
    unfold Process.toBarrier at hnear
    omega
  have hgone : total Process.lost s.processes = 0 := total_eq_zero.mpr fun p hp => by
    by_contra hne
    exact hlost ⟨p, hp, hne⟩
  have hexpected : expectedOf confs j = conf.finishedExpected.toNat := by
    rw [expectedOf, hconf, Option.map_some, Option.getD_some]
  simp only [Controller.pledged, hi, hloc, hexpected] at hpledged
  simp only [Controller.countedProcesses, hi, hloc] at hlaunched
  omega

/-- Who is expected to move, and why. -/
theorem atProcesses_cases (hconfs : ∀ conf ∈ confs, 0 ≤ conf.machines ∧ 0 ≤ conf.processes)
    (hfewer : ∀ j, childrenOf confs (j + 1) ≤ childrenOf confs j)
    (hs : (coordination confs count).Reachable s) (hlost : ¬ s.ChildLost)
    (hconf : confs[j]? = some conf) (hat : s.controller.AtProcesses j) :
    ∃ n, s.controller.loc = .syncProcesses n ∧
      ((Party.atProcesses (s.atProcesses conf) = .controller ∧
          ¬ (n : Int) < conf.finishedExpected) ∨
        ((n : Int) < conf.finishedExpected ∧
          ((∃ i l, s.listeners[i]? = some l ∧ l.errand ≠ 0 ∧
              Party.atProcesses (s.atProcesses conf) = .listener i) ∨
            ∃ k p, s.processes[k]? = some p ∧
              ((Party.atProcesses (s.atProcesses conf) = .serveProcess k ∧ p.toBarrier = 1) ∨
                (Party.atProcesses (s.atProcesses conf) = .controller ∧ p.toBarrier = 3) ∨
                (Party.atProcesses (s.atProcesses conf) = .process k ∧ p.toBarrier ≠ 0 ∧
                  p.toBarrier ≠ 1 ∧ p.toBarrier ≠ 3))))) := by
  obtain ⟨hi, n, hloc⟩ := hat
  refine ⟨n, hloc, ?_⟩
  by_cases hmore : (n : Int) < conf.finishedExpected
  · have hstart : ¬ s.controller.toStart conf ≤ 1 := by
      simp only [Controller.toStart, hloc]
      omega
    refine .inr ⟨hmore, ?_⟩
    have hcharges : (s.listeners.map Listener.charge).map (·.1) =
        s.listeners.map Listener.errand := by rw [List.map_map]; rfl
    simp only [Party.atProcesses, atProcesses, if_neg hstart, hcharges]
    cases herrands : firstBusy (s.listeners.map Listener.errand) with
    | some i =>
        obtain ⟨w, hw, hne⟩ := firstBusy_eq_some herrands
        obtain ⟨l, hl, rfl⟩ : ∃ l, s.listeners[i]? = some l ∧ l.errand = w := by
          simpa using hw
        exact .inl ⟨i, l, hl, hne, rfl⟩
    | none =>
        obtain ⟨k, hbusy⟩ := Option.ne_none_iff_exists'.mp
          (exists_missing hconfs hfewer hs hlost hconf hi hloc hmore herrands)
        obtain ⟨w, hw, hzero⟩ := firstBusy_eq_some hbusy
        obtain ⟨p, hat, rfl⟩ : ∃ p, s.processes[k]? = some p ∧ p.toBarrier = w := by
          simpa using hw
        refine .inr ⟨k, p, hat, ?_⟩
        simp only [hbusy, hw, Option.some.injEq]
        by_cases hone : p.toBarrier = 1
        · exact .inl ⟨by rw [if_pos hone], hone⟩
        · by_cases hthree : p.toBarrier = 3
          · exact .inr (.inl ⟨by rw [if_neg hone, if_pos hthree], hthree⟩)
          · exact .inr (.inr ⟨by rw [if_neg hone, if_neg hthree], hzero, hone, hthree⟩)
  · refine .inl ⟨?_, hmore⟩
    have hstart : s.controller.toStart conf ≤ 1 := by
      simp only [Controller.toStart, hloc]
      omega
    exact if_pos hstart

/-- A launch takes more off the work of the listeners than the new child has in front of it. -/
theorem work_launch {i : Nat} (h : s.step confs (.listener i .launch) = some s') :
    total Listener.work s'.listeners + 8 ≤ total Listener.work s.listeners ∧
      s'.processes = s.processes ++ [{ parent := i }] := by
  obtain ⟨l, l', hl, hact, rfl⟩ := step_listener.mp h
  have hset := total_set Listener.work l' hl
  have hwork := (Listener.work_change (Listener.change_of_act hact)).resolve_left (by simp)
  simp only [Listener.Act.launches] at hwork
  refine ⟨?_, rfl⟩
  show total _ (s.listeners.set i l') + 8 ≤ _
  omega

/-- Everybody but a listener that launches leaves the population of processes as it is. -/
theorem launched_or_length_eq {a : Action} (h : s.step confs a = some s') :
    (∃ i, a = .listener i .launch) ∨ s'.processes.length = s.processes.length := by
  rw [length_processes h]
  unfold launches
  split
  · next i => exact .inl ⟨i, rfl⟩
  · exact .inr rfl

/-- Somebody expected to move in front of the process barrier can do it. -/
theorem able_atProcesses (hconfs : ∀ conf ∈ confs, 0 ≤ conf.machines ∧ 0 ≤ conf.processes)
    (hfewer : ∀ j, childrenOf confs (j + 1) ≤ childrenOf confs j)
    (hs : (coordination confs count).Reachable s) (hlost : ¬ s.ChildLost)
    (hconf : confs[j]? = some conf) (hat : s.controller.AtProcesses j) :
    (Party.atProcesses (s.atProcesses conf)).Able confs count s := by
  have hhere : confs[s.controller.iteration]? = some conf := by rw [hat.1, hconf]
  obtain ⟨n, hloc, ⟨hparty, hdone⟩ | ⟨hmore, ⟨i, l, hl, hne, hparty⟩ |
    ⟨k, p, hpat, ⟨hparty, hone⟩ | ⟨hparty, -⟩ | ⟨hparty, hzero, hone, hthree⟩⟩⟩⟩ :=
    atProcesses_cases hconfs hfewer hs hlost hconf hat
  · rw [hparty]
    exact ⟨.controller .startWebsockets, ⟨_, rfl⟩,
      isSome_truthful_controller (by simp [Controller.act, hloc, hhere, hdone])⟩
  · rw [hparty]
    have hpledges := pledges_of_reachable hfewer hs l (List.mem_of_getElem? hl)
    obtain ⟨-, a, hreap, ha⟩ :=
      hpledges.sound.act_of_errand hpledges.called (by simp [hloc]) hne
    exact ⟨.listener i a, ⟨a, rfl⟩, isSome_truthful_listener hl hreap ha⟩
  · rw [hparty]
    have hcounts : s.controller.countProcess confs =
        some (s.controller.goto (.syncProcesses (n + 1))) := by
      simp [Controller.countProcess, hloc, hhere, hmore]
    exact ⟨.serveProcess k, rfl, isSome_truthful rfl
      (step_serveProcess.mpr ⟨p, _, hpat, hcounts, requested_of_distance hone, rfl⟩)⟩
  · rw [hparty]
    exact ⟨.controller .helloSocket, ⟨_, rfl⟩,
      isSome_truthful_controller (by simp [Controller.act, hloc, hhere, hmore])⟩
  · rw [hparty]
    obtain ⟨a, hok, ha⟩ := Process.act_of_toBarrier hzero hone hthree
    exact ⟨.process k a, ⟨a, hok, rfl⟩, isSome_truthful_process hpat ha⟩

/-- The steps in front of the process barrier. -/
def stepsToStart (view : Nat × List (Nat × Nat) × List Nat) : Nat :=
  view.1 + (total Prod.snd view.2.1 + view.2.2.sum)

/-- **Nobody gets farther away** from the process barrier, unless a child is lost. -/
theorem atProcesses_step (hs : (coordination confs count).Reachable s)
    (hconf : confs[j]? = some conf) (hat : s.controller.AtProcesses j) {a : Action}
    (h : s.step confs a = some s') :
    (s'.controller.AtCollection j ∨ s'.ChildLost) ∨ (s'.controller.AtProcesses j ∧
      (stepsToStart (s'.atProcesses conf) < stepsToStart (s.atProcesses conf) ∨
        s'.atProcesses conf = s.atProcesses conf)) := by
  rcases hat.moves hconf (controller_moves h) with hQ | ⟨hat', hle, -⟩
  · exact .inl (.inl hQ)
  by_cases hlost : s'.ChildLost
  · exact .inl (.inr hlost)
  refine .inr ⟨hat', ?_⟩
  simp only [stepsToStart, atProcesses]
  rcases launched_or_length_eq h with ⟨i, rfl⟩ | hlength
  · left
    obtain ⟨hwork, hnew⟩ := work_launch h
    rw [hnew, List.map_append, List.sum_append, List.map_singleton, List.sum_singleton,
      Process.toBarrier_start, total_map, total_map]
    show _ + (total Listener.work _ + _) < _ + (total Listener.work _ + _)
    omega
  have hlisteners := total_lt_or_map_eq (k := Listener.charge) (w := Prod.snd)
    (length_listeners h) fun i x y hx hy => by
      obtain ⟨y', hy', hmoves⟩ := listener_moves h i x hx
      obtain rfl := Option.some.inj (hy.symm.trans hy')
      rcases ((BarrierInv.of_reachable hs).sound x
        (List.mem_of_getElem? hx)).moves_of_atProcesses hat hat' hmoves with rfl | ⟨b, hact⟩
      · exact .inr rfl
      · rcases Listener.work_change (Listener.change_of_act hact) with ⟨-, rfl⟩ | hwork
        · exact .inr rfl
        · exact .inl (Nat.lt_of_le_of_lt (Nat.le_add_right _ _) hwork)
  have hprocesses := total_lt_or_map_eq (k := Process.toBarrier) (w := id) hlength
    fun k x y hx hy => by
      obtain ⟨y', hy', hmoves⟩ :=
        process_moves (A := fun _ => True) h (fun _ _ _ => trivial) k x hx
      obtain rfl := Option.some.inj (hy.symm.trans hy')
      exact Nat.lt_or_eq_of_le (((sound_of_reachable hs x
        (List.mem_of_getElem? hx)).toBarrier_moves hat hat' hmoves).resolve_left fun hgone =>
          hlost ⟨y, List.mem_of_getElem? hy, hgone⟩)
  rw [← total_map Prod.snd Listener.charge, ← total_map Prod.snd Listener.charge] at hlisteners
  exact weights_lt_or_eq (g := List.sum) hle hlisteners hprocesses

/-- A process that gets closer to its barrier is seen to. -/
theorem atProcesses_ne_of_process {k : Nat} {p p' : Process} (hp : s.processes[k]? = some p)
    (hp' : s'.processes[k]? = some p') (hlt : p'.toBarrier < p.toBarrier) :
    s'.atProcesses conf ≠ s.atProcesses conf :=
  fun hsame => map_ne_of_weight hp hp' (Nat.ne_of_lt hlt) (congrArg (fun view => view.2.2) hsame)

/-- A listener is seen to work. -/
theorem atProcesses_ne_of_listener {i : Nat} {l l' : Listener} (hl : s.listeners[i]? = some l)
    (hl' : s'.listeners[i]? = some l') (hlt : l'.work < l.work) :
    s'.atProcesses conf ≠ s.atProcesses conf :=
  fun hsame => map_ne_of_weight hl hl' (fun heq => Nat.ne_of_lt hlt (congrArg Prod.snd heq))
    (congrArg (fun view => view.2.1) hsame)

/-- The controller is seen to get closer to publishing `StartWebsockets`. -/
theorem atProcesses_ne_of_controller
    (hlt : s'.controller.toStart conf < s.controller.toStart conf) :
    s'.atProcesses conf ≠ s.atProcesses conf :=
  fun hsame => Nat.ne_of_lt hlt (congrArg Prod.fst hsame)

/-- **The party expected to move gets something closer.** -/
theorem atProcesses_ne_of_moves
    (hconfs : ∀ conf ∈ confs, 0 ≤ conf.machines ∧ 0 ≤ conf.processes)
    (hfewer : ∀ j, childrenOf confs (j + 1) ≤ childrenOf confs j)
    (hs : (coordination confs count).Reachable s) (hlost : ¬ s.ChildLost)
    (hconf : confs[j]? = some conf) (hat : s.controller.AtProcesses j) {a : Action}
    (h : s.step confs a = some s') (hmove : (Party.atProcesses (s.atProcesses conf)).Moves a) :
    s'.controller.AtCollection j ∨ s'.atProcesses conf ≠ s.atProcesses conf := by
  rcases hat.moves hconf (controller_moves h) with hQ | ⟨-, -, hwhy⟩
  · exact .inl hQ
  right
  obtain ⟨n, hloc, ⟨hparty, hdone⟩ | ⟨hmore, ⟨i, l, hl, hne, hparty⟩ |
    ⟨k, p, hpat, ⟨hparty, hone⟩ | ⟨hparty, hthree⟩ | ⟨hparty, hzero, hone, hthree⟩⟩⟩⟩ :=
    atProcesses_cases hconfs hfewer hs hlost hconf hat
  · rw [hparty] at hmove
    obtain ⟨b, rfl⟩ := hmove
    rcases hwhy with ⟨-, k, hk, hmore⟩ | ⟨_, _, hb⟩ | ⟨_, _, hb⟩ | hlower
    · rw [hk] at hloc
      cases hloc
      exact absurd hmore hdone
    · cases hb
    · cases hb
    · exact atProcesses_ne_of_controller hlower
  · rw [hparty] at hmove
    obtain ⟨b, rfl⟩ := hmove
    obtain ⟨x, x', hx, hact, rfl⟩ := step_listener.mp h
    obtain rfl := Option.some.inj (hl.symm.trans hx)
    have hpledges := pledges_of_reachable hfewer hs l (List.mem_of_getElem? hl)
    have hfree := (hpledges.sound.act_of_errand hpledges.called (by simp [hloc]) hne).1
    refine atProcesses_ne_of_listener hl
      (List.getElem?_set_self (List.getElem?_eq_some_iff.mp hl).1) ?_
    -- on its errand it does not wait for children
    rcases Listener.work_change (Listener.change_of_act hact) with ⟨rfl, -⟩ | hwork
    · cases Listener.change_of_act hact with
      | running hreaping => exact absurd hreaping (hfree _)
    · exact Nat.lt_of_le_of_lt (Nat.le_add_right _ _) hwork
  · rw [hparty] at hmove
    obtain rfl : a = .serveProcess k := hmove
    rcases hwhy with ⟨hb, -⟩ | ⟨_, _, hb⟩ | ⟨_, _, hb⟩ | hlower
    · cases hb
    · cases hb
    · cases hb
    · exact atProcesses_ne_of_controller hlower
  · rw [hparty] at hmove
    obtain ⟨b, rfl⟩ := hmove
    rcases hwhy with ⟨hb, -⟩ | ⟨_, _, hb⟩ | ⟨_, _, hb⟩ | hlower
    · -- the HELLO reaches the process that waits for one
      cases hb
      obtain ⟨c, m, hact, rfl⟩ := step_controller.mp h
      cases Controller.change_of_act hact
      have hp' : (s.processes.map (·.deliver .helloSocket))[k]? =
          some (p.deliver .helloSocket) := by simp [hpat]
      exact atProcesses_ne_of_process hpat hp'
        ((subscribed_of_reachable hs p (List.mem_of_getElem? hpat)).toBarrier_hello hthree)
    · cases hb
    · cases hb
    · exact atProcesses_ne_of_controller hlower
  · rw [hparty] at hmove
    obtain ⟨b, hok, rfl⟩ := hmove
    obtain ⟨x, x', hx, hact, rfl⟩ := step_process.mp h
    obtain rfl := Option.some.inj (hpat.symm.trans hx)
    exact atProcesses_ne_of_process hpat
      (List.getElem?_set_self (List.getElem?_eq_some_iff.mp hpat).1)
      (Process.toBarrier_lt hzero hone hthree hok (Process.change_of_act hact))

end State

/-- **The process barrier is passed.** In every fair execution over configurations none of which
asks for more processes than the ones before, the controller gets from the process barrier of an
iteration to its collection loop, or a child exits before it has sent its request. -/
theorem process_barrier_passed {confs : List Config} {count j : Nat} {conf : Config}
    (hconfs : ∀ conf ∈ confs, 0 ≤ conf.machines ∧ 0 ≤ conf.processes)
    (hfewer : ∀ j, childrenOf confs (j + 1) ≤ childrenOf confs j) (hconf : confs[j]? = some conf)
    (ρ : (truthful confs count).Execution) (hfair : FairToAll ρ) {n : Nat}
    (hat : (ρ.state n).controller.AtProcesses j) :
    ∃ m, n ≤ m ∧ ((ρ.state m).controller.AtCollection j ∨ (ρ.state m).ChildLost) := by
  refine ρ.eventually_of_view (E := Party.Able confs count)
    (fun party => ρ.responds_of_fair (hfair party)) (P := fun s => s.controller.AtProcesses j)
    (Q := fun s => s.controller.AtCollection j ∨ s.ChildLost) (State.atProcesses conf)
    State.stepsToStart Party.atProcesses ?_ ?_ ?_ hat
  · exact fun s hs hat hnot => State.able_atProcesses hconfs hfewer hs.of_restrict
      (fun hlost => hnot (.inr hlost)) hconf hat
  · exact fun s a s' hs hat _ h =>
      State.atProcesses_step hs.of_restrict hconf hat (truthful_step.mp h).2
  · exact fun s a s' hs hat hnot h hmove =>
      (State.atProcesses_ne_of_moves hconfs hfewer hs.of_restrict
        (fun hlost => hnot (.inr hlost)) hconf hat (truthful_step.mp h).2 hmove).imp_left .inl

end WsPerftester
