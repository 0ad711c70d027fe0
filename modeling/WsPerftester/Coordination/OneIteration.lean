import WsPerftester.Coordination.ListenerBarrier

/-! # One iteration of the controller

The invariants of a run over a single configuration. The controller publishes a fixed script to the
listeners and another one to the processes (`Controller.toListeners`, `Controller.toProcesses`),
with HELLOs in front of it only. `Listener.Obeys` says how far a listener has got with its script
and how its children and its `Finished` notices add up at each statement; `Process.Sound` is what
holds of a process even when it may die at any point, `Process.Obeys` what holds when none does.
`State.Obeys` collects what holds of every party by itself. -/

namespace WsPerftester

open TransitionSystem Population

/-! ## What the controller publishes -/

namespace Controller

/-- The places of the controller in a run over one configuration. -/
def Single (c : Controller) : Prop :=
  (c.iteration = 0 ∧ c.loc ≠ .ended) ∨ (c.iteration = 1 ∧ (c.loc = .iterate ∨ c.loc = .ended))

/-- What has been published to the listeners besides HELLOs. -/
def toListeners (conf : Config) (c : Controller) : List Broadcast :=
  match c.iteration, c.loc with
  | 0, .syncProcesses _ => [.startProcesses conf.processes]
  | 0, .collect _ => [.startProcesses conf.processes]
  | 0, _ => []
  | _, .ended => [.startProcesses conf.processes, .theEnd]
  | _, _ => [.startProcesses conf.processes]

/-- What has been published to the processes besides HELLOs. -/
def toProcesses (conf : Config) (c : Controller) : List Broadcast :=
  match c.iteration, c.loc with
  | 0, .collect _ => [.startWebsockets conf.websocketRequest]
  | 0, _ => []
  | _, _ => [.startWebsockets conf.websocketRequest]

/-- The part of a broadcast that belongs to the script of the listeners. -/
def listenerPart : Option Broadcast → List Broadcast
  | some (.startProcesses n) => [.startProcesses n]
  | some .theEnd => [.theEnd]
  | _ => []

/-- The part of a broadcast that belongs to the script of the processes. -/
def processPart : Option Broadcast → List Broadcast
  | some (.startWebsockets request) => [.startWebsockets request]
  | _ => []

/-- The script of the listeners is a prefix of the two broadcasts meant for them. -/
theorem toListeners_prefix_script (conf : Config) (c : Controller) :
    c.toListeners conf <+: [.startProcesses conf.processes, .theEnd] := by
  unfold toListeners
  split <;> simp

/-- The script of the processes has one broadcast at most. -/
theorem toProcesses_prefix_script (conf : Config) (c : Controller) :
    c.toProcesses conf <+: [.startWebsockets conf.websocketRequest] := by
  unfold toProcesses
  split <;> simp

variable {conf : Config} {c c' : Controller}

/-- Each broadcast to the listeners is the one the script has in its place. -/
theorem getElem?_toListeners {k : Nat} {m : Broadcast} (h : (c.toListeners conf)[k]? = some m) :
    [.startProcesses conf.processes, Broadcast.theEnd][k]? = some m := by
  obtain ⟨hk, rfl⟩ := List.getElem?_eq_some_iff.mp h
  exact List.prefix_iff_getElem?.mp (toListeners_prefix_script conf c) k hk

/-- HELLOs are not part of the script of the listeners. -/
theorem helloListener_notMem_toListeners : .helloListener ∉ c.toListeners conf := fun h => by
  simpa using (toListeners_prefix_script conf c).subset h

/-- The only broadcast to the processes. -/
theorem getElem?_toProcesses {k : Nat} {m : Broadcast} (h : (c.toProcesses conf)[k]? = some m) :
    [Broadcast.startWebsockets conf.websocketRequest][k]? = some m := by
  obtain ⟨hk, rfl⟩ := List.getElem?_eq_some_iff.mp h
  exact List.prefix_iff_getElem?.mp (toProcesses_prefix_script conf c) k hk

/-- HELLOs are not part of the script of the processes. -/
theorem helloSocket_notMem_toProcesses : .helloSocket ∉ c.toProcesses conf := fun h => by
  simpa using (toProcesses_prefix_script conf c).subset h

/-- The first iteration is that of the only configuration. -/
theorem Single.iteration_eq_zero {conf' : Config} (h : c.Single)
    (hconf : [conf][c.iteration]? = some conf') : c.iteration = 0 ∧ conf' = conf := by
  rcases h with ⟨hi, -⟩ | ⟨hi, -⟩
  · rw [hi] at hconf
    exact ⟨hi, by simpa [eq_comm] using hconf⟩
  · rw [hi] at hconf
    simp at hconf

/-- After the only configuration the controller is in its second iteration. -/
theorem Single.iteration_eq_one (h : c.Single) (hconf : [conf][c.iteration]? = none) :
    c.iteration = 1 := by
  rcases h with ⟨hi, -⟩ | ⟨hi, -⟩
  · rw [hi] at hconf
    simp at hconf
  · exact hi

/-- Within the body of the loop the controller is in its only iteration. -/
theorem Single.iteration_of_loc (h : c.Single) (hiterate : c.loc ≠ .iterate)
    (hended : c.loc ≠ .ended) : c.iteration = 0 := by
  rcases h with ⟨hi, -⟩ | ⟨-, hloc | hloc⟩
  · exact hi
  · exact absurd hloc hiterate
  · exact absurd hloc hended

/-- The collection loop is that of the only iteration. -/
theorem Single.iteration_of_collect (h : c.Single) {counters : Counters}
    (hloc : c.loc = .collect counters) : c.iteration = 0 :=
  h.iteration_of_loc (by simp [hloc]) (by simp [hloc])

/-- The controller stays within its one iteration. -/
theorem Single.act {a : Act} {m : Option Broadcast} (h : c.Single)
    (hact : c.act [conf] a = some (c', m)) : c'.Single := by
  cases change_of_act hact with
  | helloListener | helloSocket => exact h
  | theEnd hloc hconf => exact .inr ⟨h.iteration_eq_one hconf, .inr rfl⟩
  | finish hloc hconf => exact .inr ⟨by rw [(h.iteration_eq_zero hconf).1], .inl rfl⟩
  | enter hloc hconf | startProcesses hloc hconf | startWebsockets hloc hconf =>
      exact .inl ⟨(h.iteration_eq_zero hconf).1, by simp [goto]⟩

/-- The scripts grow by what is published, and HELLOs are published only before them. -/
theorem scripts_act {a : Act} {m : Option Broadcast} (h : c.Single)
    (hact : c.act [conf] a = some (c', m)) :
    c'.toListeners conf = c.toListeners conf ++ listenerPart m ∧
      c'.toProcesses conf = c.toProcesses conf ++ processPart m ∧
      (m = some .helloListener → c.toListeners conf = []) ∧
      (m = some .helloSocket → c.toProcesses conf = []) := by
  obtain ⟨iteration, loc⟩ := c
  cases change_of_act hact with
  | theEnd hloc hconf =>
      obtain rfl := h.iteration_eq_one hconf
      subst hloc
      simp [toListeners, toProcesses, goto, listenerPart, processPart]
  | helloListener hloc hconf | helloSocket hloc hconf | finish hloc hconf | enter hloc hconf
  | startProcesses hloc hconf | startWebsockets hloc hconf =>
      obtain ⟨rfl, rfl⟩ := h.iteration_eq_zero hconf
      subst hloc
      simp [toListeners, toProcesses, goto, listenerPart, processPart]

/-- Counting a listener publishes nothing. -/
theorem scripts_countListener (h : c.Single) (hcount : c.countListener [conf] = some c') :
    c'.Single ∧ c'.toListeners conf = c.toListeners conf ∧
      c'.toProcesses conf = c.toProcesses conf := by
  obtain ⟨n, conf', hloc, hconf, -, rfl⟩ := countListener_eq_some hcount
  obtain ⟨hi, rfl⟩ := h.iteration_eq_zero hconf
  exact ⟨.inl ⟨hi, by simp [goto]⟩, by simp [toListeners, goto, hi, hloc],
    by simp [toProcesses, goto, hi, hloc]⟩

/-- Counting a process publishes nothing. -/
theorem scripts_countProcess (h : c.Single) (hcount : c.countProcess [conf] = some c') :
    c'.Single ∧ c'.toListeners conf = c.toListeners conf ∧
      c'.toProcesses conf = c.toProcesses conf := by
  obtain ⟨n, conf', hloc, hconf, -, rfl⟩ := countProcess_eq_some hcount
  obtain ⟨hi, rfl⟩ := h.iteration_eq_zero hconf
  exact ⟨.inl ⟨hi, by simp [goto]⟩, by simp [toListeners, goto, hi, hloc],
    by simp [toProcesses, goto, hi, hloc]⟩

/-- Taking a message publishes nothing. -/
theorem scripts_take {m : Message} (h : c.Single) (htake : c.take [conf] m = some c') :
    c'.Single ∧ c'.toListeners conf = c.toListeners conf ∧
      c'.toProcesses conf = c.toProcesses conf := by
  obtain ⟨counters, conf', hloc, hconf, -, rfl⟩ := take_eq_some htake
  obtain ⟨hi, rfl⟩ := h.iteration_eq_zero hconf
  exact ⟨.inl ⟨hi, by simp [goto]⟩, by simp [toListeners, goto, hi, hloc],
    by simp [toProcesses, goto, hi, hloc]⟩

/-- **The controller stays within its one iteration throughout.** -/
theorem Single.moves {a : Action} (h : c.Single) (hmoves : c.Moves [conf] a c') : c'.Single := by
  cases hmoves with
  | acts hact => exact h.act hact
  | countsListener hcount => exact (scripts_countListener h hcount).1
  | countsProcess hcount => exact (scripts_countProcess h hcount).1
  | takesListener htake | takesProcess htake => exact (scripts_take h htake).1
  | listener | process => exact h

end Controller

/-! ## The listeners -/

namespace Listener

/-- Messages of its script a listener has handled. -/
def read (l : Listener) : Nat := l.starts + if l.loc = .terminated then 1 else 0

/-- What a listener has done when it is at a statement: it processes one `StartProcesses`, launches
`processes` children and reports each of them once. -/
def Stage (conf : Config) (l : Listener) : Prop :=
  match l.loc with
  | .awaitHello | .awaitSync => l.starts = 0 ∧ l.reported = 0
  | .awaitRequest => (l.starts = 0 ∧ l.reported = 0) ∨ (l.starts = 1 ∧ l.reported = conf.processes)
  | .launching processes launched =>
      processes = conf.processes ∧ launched ≤ conf.processes.toNat ∧ l.starts = 1 ∧ l.reported = 0
  | .reaping unfinished => l.starts = 1 ∧ 0 ≤ unfinished ∧ l.reported + unfinished = conf.processes
  | .terminated => l.starts = 1 ∧ l.reported = conf.processes

/-- How far a listener has got in a run over one configuration. -/
structure Obeys (conf : Config) (c : Controller) (l : Listener) : Prop where
  sound : l.Sound
  follows : l.subscriber.Follows order .helloListener (c.toListeners conf) (l.loc ≠ .awaitHello)
    l.read
  stage : l.Stage conf

variable {conf : Config} {c c' : Controller} {l l' : Listener}

/-- A listener has read nothing before it starts its children. -/
theorem read_of_loc (h : l.loc ≠ .terminated) : l.read = l.starts := by
  simp [read, h]

/-- A listener that has just been started obeys. -/
theorem Obeys.start (hscript : c.toListeners conf = []) : Obeys conf c {} where
  sound := .start
  follows := by
    rw [hscript]
    exact .start rfl (by simp)
  stage := ⟨rfl, rfl⟩

/-- The script as the controller has it is all that matters. -/
theorem Obeys.of_script (h : l.Obeys conf c) (hscript : c'.toListeners conf = c.toListeners conf) :
    l.Obeys conf c' :=
  ⟨h.sound, hscript ▸ h.follows, h.stage⟩

/-- A broadcast reaches the socket of a listener in the order of the script. -/
theorem follows_deliver {s : Subscriber} {script : List Broadcast} {joined : Prop} {read : Nat}
    (h : s.Follows order .helloListener script joined read) {m : Broadcast}
    (hello : m = .helloListener → script = []) :
    (s.deliver m).Follows order .helloListener (script ++ Controller.listenerPart (some m)) joined
      read := by
  cases m with
  | helloListener =>
      -- HELLOs are published in front of the script only
      obtain rfl := hello rfl
      exact h.deliver_hello
  | startProcesses n => exact h.deliver_next (by decide) rfl (by simp [Broadcast.command, order])
  | theEnd => exact h.deliver_next (by decide) rfl (by simp [Broadcast.command, order])
  | helloSocket | startWebsockets =>
      rw [h.deliver_other (by simp [Broadcast.command, order])]
      simpa [Controller.listenerPart] using h

/-- Publishing keeps a listener obeying. -/
theorem Obeys.broadcast (h : l.Obeys conf c) (hc : c.Single) {a : Controller.Act} {m : Broadcast}
    (hact : c.act [conf] a = some (c', some m)) : (l.deliver m).Obeys conf c' := by
  obtain ⟨hscript, -, hhello, -⟩ := Controller.scripts_act hc hact
  refine ⟨h.sound.deliver m, ?_, ?_⟩
  · by_cases hterm : l.loc = .terminated
    · -- it has handled both messages of the script, so nothing more can be published
      have hread : l.read = 2 := by
        have := h.stage
        simp only [Stage, hterm] at this
        simp [read, hterm, this.1]
      have hle := h.follows.read_le
      have hbound := (Controller.toListeners_prefix_script conf c').length_le
      rw [hscript, List.length_append] at hbound
      simp only [List.length_cons, List.length_nil] at hbound
      have hnil : Controller.listenerPart (some m) = [] := List.length_eq_zero_iff.mp (by omega)
      rw [hscript, hnil, List.append_nil, Listener.deliver, if_pos hterm]
      exact h.follows
    · rw [hscript, Listener.deliver, if_neg hterm]
      exact follows_deliver h.follows fun hm => hhello (by rw [hm])
  · unfold Listener.deliver
    split <;> exact h.stage

/-- The actions of a listener keep it obeying. -/
theorem Obeys.change (hp : 0 ≤ conf.processes) (h : l.Obeys conf c) {a : Act}
    (hact : l.Change a l') : l'.Obeys conf c := by
  have hsound := h.sound.change hact
  obtain ⟨-, hfollows, hstage⟩ := h
  cases hact with
  | subscribe hissued => exact ⟨hsound, hfollows.subscribe hissued, hstage⟩
  | hello hloc hin =>
      simp only [Stage, hloc] at hstage
      -- it joins: from here on its socket holds the unread rest of the script
      have hnext := hfollows.receive_hello (by decide) rfl
        Controller.helloListener_notMem_toListeners hin (Loc.awaitSync ≠ .awaitHello)
      exact ⟨hsound, hnext.cast Iff.rfl (by simp [read, hloc]), hstage⟩
  | @ignore m _ hloc hin =>
      rcases hloc with ⟨hloc, hm⟩ | ⟨hloc, hend, hstart⟩
      · exact ⟨hsound, hfollows.receive_outside (by simp [hloc]) hin hm, hstage⟩
      · by_cases hm : m = .helloListener
        · subst hm
          exact ⟨hsound, hfollows.receive_hello (by decide) rfl
            Controller.helloListener_notMem_toListeners hin _, hstage⟩
        · -- the script has nothing but the two messages the inner loop handles
          have hnext := (hfollows.receive_next (by simp [hloc]) hin hm).1
          have hmem :=
            (Controller.toListeners_prefix_script conf c).subset (List.mem_of_getElem? hnext)
          simp only [List.mem_cons, List.not_mem_nil, or_false] at hmem
          rcases hmem with hmem | hmem
          · exact absurd hmem (hstart _)
          · exact absurd hmem hend
  | theEnd hloc hin =>
      simp only [Stage, hloc] at hstage
      obtain ⟨hnext, hfollows⟩ := hfollows.receive_next (by simp [hloc]) hin (by simp)
      have hget := Controller.getElem?_toListeners hnext
      have hread : l.read = l.starts := read_of_loc (by simp [hloc])
      rcases hstage with ⟨hstarts, -⟩ | hstage
      · rw [hread, hstarts] at hget
        cases hget
      · exact ⟨hsound, hfollows.cast (by simp [hloc]) (by simp [read, hloc]), hstage⟩
  | start hloc hin =>
      simp only [Stage, hloc] at hstage
      obtain ⟨hnext, hfollows⟩ := hfollows.receive_next (by simp [hloc]) hin (by simp)
      have hget := Controller.getElem?_toListeners hnext
      have hread : l.read = l.starts := read_of_loc (by simp [hloc])
      rcases hstage with ⟨hstarts, hreported⟩ | ⟨hstarts, -⟩
      · rw [hread, hstarts] at hget
        obtain rfl : conf.processes = _ := by simpa using hget
        exact ⟨hsound, hfollows.cast (by simp [hloc]) (by simp [read, hloc]), rfl, by omega,
          by simp [hstarts], hreported⟩
      · rw [hread, hstarts] at hget
        cases hget
  | synced hloc hreply =>
      simp only [Stage, hloc] at hstage
      exact ⟨hsound, hfollows.cast (by simp [hloc]) (by simp [read, hloc]), .inl hstage⟩
  | launch hloc hmore =>
      simp only [Stage, hloc] at hstage
      obtain ⟨rfl, hle, hstage⟩ := hstage
      exact ⟨hsound, hfollows.cast (by simp [hloc]) (by simp [read, hloc]), rfl, by omega, hstage⟩
  | launched hloc hdone =>
      simp only [Stage, hloc] at hstage
      obtain ⟨rfl, -, hstarts, hreported⟩ := hstage
      exact ⟨hsound, hfollows.cast (by simp [hloc]) (by simp [read, hloc]), hstarts, hp,
        by simp [hreported]⟩
  | running hloc hmore => exact ⟨hsound, hfollows, hstage⟩
  | error hloc hmore | child hloc hmore =>
      -- either branch reports one child and counts it off
      simp only [Stage, hloc] at hstage
      obtain ⟨hstarts, -, hsum⟩ := hstage
      refine ⟨hsound, hfollows.cast (by simp [hloc]) (by simp [read, hloc]), hstarts, by omega, ?_⟩
      rw [reported_report]
      omega
  | allReaped hloc hdone =>
      simp only [Stage, hloc] at hstage
      obtain ⟨hstarts, hle, hsum⟩ := hstage
      exact ⟨hsound, hfollows.cast (by simp [hloc]) (by simp [read, hloc]),
        .inr ⟨hstarts, by simp only; omega⟩⟩

/-- **A listener obeys throughout.** -/
theorem Obeys.moves (hp : 0 ≤ conf.processes) (hc : c.Single) (h : l.Obeys conf c)
    (hmoves : Moves [conf] c l c' l') : l'.Obeys conf c' := by
  cases hmoves with
  | broadcast hact => exact h.broadcast hc hact
  | silent hact =>
      refine h.of_script ?_
      simpa [Controller.listenerPart] using (Controller.scripts_act hc hact).1
  | served hcount hreq =>
      have hscript := (Controller.scripts_countListener hc hcount).2.1
      exact ⟨h.sound.served hreq, hscript ▸ h.follows, h.stage⟩
  | countListener hcount => exact h.of_script (Controller.scripts_countListener hc hcount).2.1
  | countProcess hcount => exact h.of_script (Controller.scripts_countProcess hc hcount).2.1
  | drained htake =>
      have hscript := (Controller.scripts_take hc htake).2.1
      exact ⟨⟨h.sound.sync, h.sound.once, h.sound.inOrder, h.sound.joined⟩, hscript ▸ h.follows,
        h.stage⟩
  | taken htake => exact h.of_script (Controller.scripts_take hc htake).2.1
  | moved hact => exact h.change hp (change_of_act hact)
  | still => exact h

end Listener

/-! ## The processes -/

namespace Process

/-- Weighs the processes that live and have not sent their synchronisation request. -/
def outer (p : Process) : Nat := if p.loc = .awaitHello then 1 else 0

/-- Weighs the processes whose request is queued at `instance_syncservice`. -/
def queued (p : Process) : Nat := if p.syncclient = .requested then 1 else 0

/-- Weighs the processes the barrier has counted. -/
def counted (p : Process) : Nat := if p.requests = 0 ∨ p.syncclient = .requested then 0 else 1

/-- Weighs the processes that have exited before sending their request. -/
def lost (p : Process) : Nat := if p.requests = 0 ∧ p.loc ≠ .awaitHello then 1 else 0

/-- What holds of a process at any time, also when it dies. -/
structure Sound (p : Process) : Prop where
  once : p.requests ≤ 1
  outside : p.loc = .awaitHello → p.requests = 0
  silent : p.requests = 0 → p.syncclient = .idle
  /-- A process that never sent its request has not left its outer loop alive. -/
  gone : p.requests = 0 → p.loc = .awaitHello ∨ p.Exited
  waits : p.loc = .awaitSync → p.syncclient ≠ .idle

/-- A process is counted, queued, still to send its request, or lost. -/
theorem stages {p : Process} (h : p.Sound) : p.counted + p.queued + p.outer + p.lost = 1 := by
  unfold outer queued counted lost
  by_cases hloc : p.loc = .awaitHello
  · have hzero := h.outside hloc
    simp [hloc, hzero, h.silent hzero]
  · by_cases hzero : p.requests = 0
    · simp [hloc, hzero, h.silent hzero]
    · by_cases hreq : p.syncclient = .requested <;> simp [hloc, hzero, hreq]

variable {p p' : Process}

/-- A process that has exited has no socket any more. -/
theorem deliver_of_exited (h : p.Exited) (m : Broadcast) : p.deliver m = p := by
  obtain ⟨status, hloc⟩ := h
  simp [deliver, hloc]

/-- A running process has its socket served. -/
theorem deliver_of_running (h : ¬ p.Exited) (m : Broadcast) :
    p.deliver m = { p with subscriber := p.subscriber.deliver m } := by
  unfold deliver
  split
  · next status hloc => exact absurd ⟨status, hloc⟩ h
  · rfl

/-- Publishing changes the socket only. -/
theorem deliver_eq (p : Process) (m : Broadcast) :
    ∃ s, p.deliver m = { p with subscriber := s } := by
  by_cases h : p.Exited
  · exact ⟨p.subscriber, deliver_of_exited h m⟩
  · exact ⟨_, deliver_of_running h m⟩

/-- The actions of a process keep it sound. -/
theorem Sound.change (h : p.Sound) {a : Act} (hact : p.Change a p') : p'.Sound := by
  obtain ⟨honce, houtside, hsilent, hgone, hwaits⟩ := h
  cases hact with
  | subscribe | ignore => exact ⟨honce, houtside, hsilent, hgone, hwaits⟩
  | hello hloc => exact ⟨by simp [houtside hloc], by simp, by simp, by simp, by simp⟩
  | die => exact ⟨honce, by simp, hsilent, fun _ => .inr ⟨_, rfl⟩, by simp⟩
  | synced hloc =>
      -- a live process inside has sent its request, so there is nothing to show without one
      refine ⟨honce, by simp, fun _ => rfl, fun hzero => ?_, by simp⟩
      rcases hgone hzero with h | ⟨status, h⟩ <;> rw [hloc] at h <;> cases h
  | start hloc | result hloc | exit hloc =>
      refine ⟨honce, by simp, hsilent, fun hzero => ?_, by simp⟩
      rcases hgone hzero with h | ⟨status, h⟩ <;> rw [hloc] at h <;> cases h

/-- **A process is sound throughout.** -/
theorem Sound.moves {confs : List Config} {ok : Act → Prop} {c c' : Controller} (h : p.Sound)
    (hmoves : Moves confs ok c p c' p') : p'.Sound := by
  cases hmoves with
  | broadcast =>
      obtain ⟨s, hs⟩ := deliver_eq p _
      rw [hs]
      exact ⟨h.once, h.outside, h.silent, h.gone, h.waits⟩
  | served _ hreq =>
      refine ⟨h.once, h.outside, fun hzero => ?_, h.gone, by simp⟩
      rw [h.silent hzero] at hreq
      cases hreq
  | drained | reaped => exact ⟨h.once, h.outside, h.silent, h.gone, h.waits⟩
  | moved _ hact => exact h.change (change_of_act hact)
  | silent | countListener | countProcess | taken | still => exact h

/-- The actions of a process that is not killed. -/
def Act.survives : Act → Bool
  | .die _ => false
  | _ => true

/-- What a process that is never killed has done when it is at a statement: it processes one
`StartWebsockets` and pushes one `Result` for each of its `instances` clients. -/
def Stage (conf : Config) (p : Process) : Prop :=
  match p.loc with
  | .awaitHello => p.requests = 0 ∧ p.starts = 0 ∧ p.pushed = 0
  | .awaitSync | .awaitRequest => p.requests = 1 ∧ p.starts = 0 ∧ p.pushed = 0
  | .working instances reported =>
      instances = conf.instances ∧ p.requests = 1 ∧ p.starts = 1 ∧ p.pushed = reported ∧
        reported ≤ conf.instances.toNat
  | .exited _ => p.requests = 1 ∧ p.starts = 1 ∧ p.pushed = conf.instances.toNat

/-- How far a process has got in a run over one configuration in which nobody is killed. -/
structure Obeys (conf : Config) (c : Controller) (p : Process) : Prop where
  follows : p.subscriber.Follows order .helloSocket (c.toProcesses conf) (p.loc ≠ .awaitHello)
    p.starts
  stage : p.Stage conf

variable {conf : Config} {c c' : Controller}

/-- A process that has just been launched obeys. -/
theorem Obeys.start (hscript : c.toProcesses conf = []) (i : Nat) :
    Obeys conf c { parent := i } where
  follows := by
    rw [hscript]
    exact .start rfl (by simp)
  stage := ⟨rfl, rfl, rfl⟩

/-- The script as the controller has it is all that matters. -/
theorem Obeys.of_script (h : p.Obeys conf c) (hscript : c'.toProcesses conf = c.toProcesses conf) :
    p.Obeys conf c' :=
  ⟨hscript ▸ h.follows, h.stage⟩

/-- A broadcast reaches the socket of a process in the order of the script. -/
theorem follows_deliver {s : Subscriber} {script : List Broadcast} {joined : Prop} {read : Nat}
    (h : s.Follows order .helloSocket script joined read) {m : Broadcast}
    (hello : m = .helloSocket → script = []) :
    (s.deliver m).Follows order .helloSocket (script ++ Controller.processPart (some m)) joined
      read := by
  cases m with
  | helloSocket =>
      obtain rfl := hello rfl
      exact h.deliver_hello
  | startWebsockets n => exact h.deliver_next (by decide) rfl (by simp [Broadcast.command, order])
  | helloListener | startProcesses | theEnd =>
      rw [h.deliver_other (by simp [Broadcast.command, order])]
      simpa [Controller.processPart] using h

/-- Publishing keeps a process obeying. -/
theorem Obeys.broadcast (h : p.Obeys conf c) (hc : c.Single) {a : Controller.Act} {m : Broadcast}
    (hact : c.act [conf] a = some (c', some m)) : (p.deliver m).Obeys conf c' := by
  obtain ⟨-, hscript, -, hhello⟩ := Controller.scripts_act hc hact
  by_cases hexit : p.Exited
  · -- it has handled its only message, so nothing more can be published
    obtain ⟨status, hloc⟩ := hexit
    have hstage := h.stage
    simp only [Stage, hloc] at hstage
    have hle := h.follows.read_le
    have hbound := (Controller.toProcesses_prefix_script conf c').length_le
    rw [hscript, List.length_append] at hbound
    simp only [List.length_cons, List.length_nil] at hbound
    have hnil : Controller.processPart (some m) = [] := List.length_eq_zero_iff.mp (by omega)
    rw [deliver_of_exited ⟨status, hloc⟩]
    exact h.of_script (by rw [hscript, hnil, List.append_nil])
  · rw [deliver_of_running hexit]
    refine ⟨?_, h.stage⟩
    rw [hscript]
    exact follows_deliver h.follows fun hm => hhello (by rw [hm])

/-- The actions of a process that is not killed keep it obeying. -/
theorem Obeys.change (h : p.Obeys conf c) {a : Act} (hok : a.survives = true)
    (hact : p.Change a p') : p'.Obeys conf c := by
  obtain ⟨hfollows, hstage⟩ := h
  cases hact with
  | subscribe hissued => exact ⟨hfollows.subscribe hissued, hstage⟩
  | hello hloc hin =>
      simp only [Stage, hloc] at hstage
      exact ⟨hfollows.receive_hello (by decide) rfl Controller.helloSocket_notMem_toProcesses hin _,
        by simp [hstage.1], hstage.2⟩
  | @ignore m _ hloc hin =>
      rcases hloc with ⟨hloc, hm⟩ | ⟨hloc, hstart⟩
      · exact ⟨hfollows.receive_outside (by simp [hloc]) hin hm, hstage⟩
      · by_cases hm : m = .helloSocket
        · subst hm
          exact ⟨hfollows.receive_hello (by decide) rfl
            Controller.helloSocket_notMem_toProcesses hin _, hstage⟩
        · -- the script has nothing but the message the inner loop handles
          have hnext := (hfollows.receive_next (by simp [hloc]) hin hm).1
          have hmem :=
            (Controller.toProcesses_prefix_script conf c).subset (List.mem_of_getElem? hnext)
          exact absurd (List.mem_singleton.mp hmem) (hstart _)
  | start hloc hin =>
      simp only [Stage, hloc] at hstage
      obtain ⟨hrequests, hstarts, hpushed⟩ := hstage
      obtain ⟨hnext, hfollows⟩ := hfollows.receive_next (by simp [hloc]) hin (by simp)
      have hget := Controller.getElem?_toProcesses hnext
      rw [hstarts] at hget
      obtain rfl : conf.websocketRequest = _ := by simpa using hget
      exact ⟨hfollows.cast (by simp [hloc]) rfl, rfl, hrequests, by simp [hstarts], hpushed,
        Nat.zero_le _⟩
  | synced hloc =>
      simp only [Stage, hloc] at hstage
      exact ⟨hfollows.cast (by simp [hloc]) rfl, hstage⟩
  | result hloc hmore =>
      simp only [Stage, hloc] at hstage
      obtain ⟨rfl, hrequests, hstarts, hpushed, hle⟩ := hstage
      exact ⟨hfollows.cast (by simp [hloc]) rfl, rfl, hrequests, hstarts, by simp [hpushed],
        by omega⟩
  | exit hloc hdone =>
      simp only [Stage, hloc] at hstage
      obtain ⟨rfl, hrequests, hstarts, hpushed, hle⟩ := hstage
      exact ⟨hfollows.cast (by simp [hloc]) rfl, hrequests, hstarts, by simp only; omega⟩
  | die => cases hok

/-- **A process that is not killed obeys throughout.** -/
theorem Obeys.moves (hc : c.Single) (h : p.Obeys conf c)
    (hmoves : Moves [conf] (fun a => a.survives = true) c p c' p') : p'.Obeys conf c' := by
  cases hmoves with
  | broadcast hact => exact h.broadcast hc hact
  | silent hact =>
      refine h.of_script ?_
      simpa [Controller.processPart] using (Controller.scripts_act hc hact).2.1
  | served hcount hreq =>
      exact ⟨(Controller.scripts_countProcess hc hcount).2.2 ▸ h.follows, h.stage⟩
  | countListener hcount => exact h.of_script (Controller.scripts_countListener hc hcount).2.2
  | countProcess hcount => exact h.of_script (Controller.scripts_countProcess hc hcount).2.2
  | drained htake => exact ⟨(Controller.scripts_take hc htake).2.2 ▸ h.follows, h.stage⟩
  | taken htake => exact h.of_script (Controller.scripts_take hc htake).2.2
  | moved hok hact => exact h.change hok (change_of_act hact)
  | reaped => exact ⟨h.follows, h.stage⟩
  | still => exact h

end Process

/-! ## The joint state -/

namespace State

variable {conf : Config} {s s' : State}

/-- What holds of every party by itself. -/
structure Obeys (conf : Config) (s : State) : Prop where
  single : s.controller.Single
  listeners : ∀ l ∈ s.listeners, l.Obeys conf s.controller
  processes : ∀ p ∈ s.processes, p.Sound

/-- Every step keeps every party obeying. -/
theorem Obeys.step (hp : 0 ≤ conf.processes) (hs : s.Obeys conf) {a : Action}
    (h : s.step [conf] a = some s') : s'.Obeys conf where
  single := hs.single.moves (controller_moves h)
  listeners := forall_listeners h (fun _ _ hl hmoves => hl.moves hp hs.single hmoves) hs.listeners
  processes := forall_processes (A := fun _ => True) h (fun _ _ _ => trivial)
    (fun _ _ => ⟨by simp, by simp, by simp, by simp, by simp⟩)
    (fun _ _ hp hmoves => hp.moves hmoves) hs.processes

/-- **Every party obeys in every run over one configuration.** -/
theorem Obeys.of_reachable {count : Nat} (hp : 0 ≤ conf.processes)
    (hs : (coordination [conf] count).Reachable s) : s.Obeys conf := by
  refine hs.invariant ⟨?_, ?_, ?_⟩ fun s a s' hinv h => hinv.step hp h
  · exact .inl ⟨rfl, by simp [coordination]⟩
  · intro l hl
    rw [List.eq_of_mem_replicate hl]
    exact .start rfl
  · simp [coordination]

end State

end WsPerftester
