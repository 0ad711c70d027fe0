import WsPerftester.Lib.TransitionSystem
import WsPerftester.Lib.Population
import WsPerftester.Coordination.Changes

/-! # The coordinated system

One controller, a fixed set of listeners and the processes they launch, moving one at a time in any
order. A process is known by its position in `State.processes`, which also serves as its pid. The
inversion lemmas `step_controller`, `step_listener`, ... say once what each kind of step does; the
two rules `forall_listeners` and `forall_processes` reduce an invariant of every single party to its
own actions. -/

namespace WsPerftester

open TransitionSystem Population

/-- The joint state of all parties. -/
structure State where
  /-- The controller. -/
  controller : Controller := {}
  /-- The listeners. -/
  listeners : List Listener
  /-- The processes launched so far, in the order of their launch. -/
  processes : List Process := []
  deriving DecidableEq, Repr

/-- Who moves, and how. -/
inductive Action
  /-- The controller moves on its own. -/
  | controller (a : Controller.Act)
  /-- The listener barrier receives the request of listener `i` and replies. -/
  | serveListener (i : Nat)
  /-- The process barrier receives the request of process `j` and replies. -/
  | serveProcess (j : Nat)
  /-- The collection loop takes the next message of listener `i`. -/
  | takeListener (i : Nat)
  /-- The collection loop takes the next message of process `j`. -/
  | takeProcess (j : Nat)
  /-- Listener `i` moves. -/
  | listener (i : Nat) (a : Listener.Act)
  /-- Process `j` moves. -/
  | process (j : Nat) (a : Process.Act)
  deriving DecidableEq, Repr

namespace State

/-- The controller publishes `m`. -/
def publish (s : State) (m : Broadcast) : State :=
  { s with
    listeners := s.listeners.map (·.deliver m)
    processes := s.processes.map (·.deliver m) }

/-- The state after a step of the controller that may publish. -/
def controllerStep (s : State) (c : Controller) : Option Broadcast → State
  | none => { s with controller := c }
  | some m => { s.publish m with controller := c }

/-- Publishing leaves the controller where its step has taken it. -/
@[simp] theorem controller_controllerStep (s : State) (c : Controller) (m : Option Broadcast) :
    (s.controllerStep c m).controller = c := by
  cases m <;> rfl

/-- A step of the controller changes no weight of the listeners that publishing does not change. -/
theorem total_listeners_controllerStep {f : Listener → Nat} (hf : ∀ l m, f (l.deliver m) = f l)
    (s : State) (c : Controller) (m : Option Broadcast) :
    total f (s.controllerStep c m).listeners = total f s.listeners := by
  cases m with
  | none => rfl
  | some m =>
      rw [controllerStep, publish, total_map]
      exact total_congr fun l _ => hf l m

/-- A step of the controller changes no weight of the processes that publishing does not change. -/
theorem total_processes_controllerStep {f : Process → Nat} (hf : ∀ p m, f (p.deliver m) = f p)
    (s : State) (c : Controller) (m : Option Broadcast) :
    total f (s.controllerStep c m).processes = total f s.processes := by
  cases m with
  | none => rfl
  | some m =>
      rw [controllerStep, publish, total_map]
      exact total_congr fun p _ => hf p m

/-- Listener `i` changes to `l`. -/
def setListener (s : State) (i : Nat) (l : Listener) : State :=
  { s with listeners := s.listeners.set i l }

/-- Process `j` changes to `p`. -/
def setProcess (s : State) (j : Nat) (p : Process) : State :=
  { s with processes := s.processes.set j p }

/-- What an action of listener `i` does to the processes: it launches one, or the operating system
hands it the status of one that has exited. -/
def afterListener (i : Nat) (processes : List Process) : Listener.Act → List Process
  | .launch => processes ++ [{ parent := i }]
  | .reap (.child pid _) =>
      match processes[pid]? with
      | some p => processes.set pid { p with reaped := true }
      | none => processes
  | _ => processes

/-- The successor of a state under one action. -/
def step (confs : List Config) (s : State) : Action → Option State
  | .controller a =>
      (s.controller.act confs a).map fun (c, m) => s.controllerStep c m
  -- `syncservice.recv` and the reply, in one step: REP answers the request it has read
  | .serveListener i => do
      let l ← s.listeners[i]?
      let c ← s.controller.countListener confs
      if l.syncclient = .requested then
        some { s.setListener i { l with syncclient := .replied } with controller := c }
      else none
  | .serveProcess j => do
      let p ← s.processes[j]?
      let c ← s.controller.countProcess confs
      if p.syncclient = .requested then
        some { s.setProcess j { p with syncclient := .replied } with controller := c }
      else none
  | .takeListener i => do
      let l ← s.listeners[i]?
      let m ← l.sink.head?
      let c ← s.controller.take confs m
      some { s.setListener i { l with sink := l.sink.tail } with controller := c }
  | .takeProcess j => do
      let p ← s.processes[j]?
      let m ← p.sink.head?
      let c ← s.controller.take confs m
      some { s.setProcess j { p with sink := p.sink.tail } with controller := c }
  | .listener i a => do
      let l ← s.listeners[i]?
      let l' ← l.act a
      some { s.setListener i l' with processes := afterListener i s.processes a }
  | .process j a => do
      let p ← s.processes[j]?
      let p' ← p.act a
      some (s.setProcess j p')

end State

/-- A run of the controller over `confs` with `count` listeners. -/
def coordination (confs : List Config) (count : Nat) : TransitionSystem State Action where
  init := { listeners := List.replicate count {} }
  step := State.step confs

namespace State

variable {confs : List Config} {s s' : State}

/-! ## What each kind of step does -/

/-- A step of the controller. -/
theorem step_controller {a : Controller.Act} :
    s.step confs (.controller a) = some s' ↔
      ∃ c m, s.controller.act confs a = some (c, m) ∧ s' = s.controllerStep c m := by
  simp [step, eq_comm]

/-- A request of a listener is answered. -/
theorem step_serveListener {i : Nat} :
    s.step confs (.serveListener i) = some s' ↔
      ∃ l c, s.listeners[i]? = some l ∧ s.controller.countListener confs = some c ∧
        l.syncclient = .requested ∧
        s' = { s.setListener i { l with syncclient := .replied } with controller := c } := by
  simp only [step, Option.bind_eq_bind, Option.bind_eq_some_iff]
  constructor
  · rintro ⟨l, hl, c, hc, h⟩
    split at h
    · exact ⟨l, c, hl, hc, ‹_›, (Option.some.inj h).symm⟩
    · cases h
  · rintro ⟨l, c, hl, hc, hreq, rfl⟩
    exact ⟨l, hl, c, hc, by rw [if_pos hreq]⟩

/-- A request of a process is answered. -/
theorem step_serveProcess {j : Nat} :
    s.step confs (.serveProcess j) = some s' ↔
      ∃ p c, s.processes[j]? = some p ∧ s.controller.countProcess confs = some c ∧
        p.syncclient = .requested ∧
        s' = { s.setProcess j { p with syncclient := .replied } with controller := c } := by
  simp only [step, Option.bind_eq_bind, Option.bind_eq_some_iff]
  constructor
  · rintro ⟨p, hp, c, hc, h⟩
    split at h
    · exact ⟨p, c, hp, hc, ‹_›, (Option.some.inj h).symm⟩
    · cases h
  · rintro ⟨p, c, hp, hc, hreq, rfl⟩
    exact ⟨p, hp, c, hc, by rw [if_pos hreq]⟩

/-- A message of a listener is taken. -/
theorem step_takeListener {i : Nat} :
    s.step confs (.takeListener i) = some s' ↔
      ∃ l m sink c, s.listeners[i]? = some l ∧ l.sink = m :: sink ∧
        s.controller.take confs m = some c ∧
        s' = { s.setListener i { l with sink := sink } with controller := c } := by
  simp only [step, Option.bind_eq_bind, Option.bind_eq_some_iff]
  constructor
  · rintro ⟨l, hl, m, hm, c, hc, h⟩
    obtain ⟨sink, hsink⟩ := List.head?_eq_some_iff.mp hm
    exact ⟨l, m, sink, c, hl, hsink, hc, by simpa [hsink] using (Option.some.inj h).symm⟩
  · rintro ⟨l, m, sink, c, hl, hsink, hc, rfl⟩
    exact ⟨l, hl, m, by rw [hsink, List.head?_cons], c, hc, by rw [hsink, List.tail_cons]⟩

/-- A message of a process is taken. -/
theorem step_takeProcess {j : Nat} :
    s.step confs (.takeProcess j) = some s' ↔
      ∃ p m sink c, s.processes[j]? = some p ∧ p.sink = m :: sink ∧
        s.controller.take confs m = some c ∧
        s' = { s.setProcess j { p with sink := sink } with controller := c } := by
  simp only [step, Option.bind_eq_bind, Option.bind_eq_some_iff]
  constructor
  · rintro ⟨p, hp, m, hm, c, hc, h⟩
    obtain ⟨sink, hsink⟩ := List.head?_eq_some_iff.mp hm
    exact ⟨p, m, sink, c, hp, hsink, hc, by simpa [hsink] using (Option.some.inj h).symm⟩
  · rintro ⟨p, m, sink, c, hp, hsink, hc, rfl⟩
    exact ⟨p, hp, m, by rw [hsink, List.head?_cons], c, hc, by rw [hsink, List.tail_cons]⟩

/-- A step of a listener. -/
theorem step_listener {i : Nat} {a : Listener.Act} :
    s.step confs (.listener i a) = some s' ↔
      ∃ l l', s.listeners[i]? = some l ∧ l.act a = some l' ∧
        s' = { s.setListener i l' with processes := afterListener i s.processes a } := by
  simp only [step, Option.bind_eq_bind, Option.bind_eq_some_iff, Option.some.injEq]
  constructor
  · rintro ⟨l, hl, l', hl', rfl⟩
    exact ⟨l, l', hl, hl', rfl⟩
  · rintro ⟨l, l', hl, hl', rfl⟩
    exact ⟨l, hl, l', hl', rfl⟩

/-- A step of a process. -/
theorem step_process {j : Nat} {a : Process.Act} :
    s.step confs (.process j a) = some s' ↔
      ∃ p p', s.processes[j]? = some p ∧ p.act a = some p' ∧ s' = s.setProcess j p' := by
  simp only [step, Option.bind_eq_bind, Option.bind_eq_some_iff, Option.some.injEq]
  constructor
  · rintro ⟨p, hp, p', hp', rfl⟩
    exact ⟨p, p', hp, hp', rfl⟩
  · rintro ⟨p, p', hp, hp', rfl⟩
    exact ⟨p, hp, p', hp', rfl⟩

end State

/-! ## The run as one party sees it -/

/-- How one listener and the controller can change together in one step. -/
inductive Listener.Moves (confs : List Config) :
    Controller → Listener → Controller → Listener → Prop
  /-- The controller publishes. -/
  | broadcast {c c' : Controller} {l : Listener} {a : Controller.Act} {m : Broadcast}
      (h : c.act confs a = some (c', some m)) : Moves confs c l c' (l.deliver m)
  /-- The controller moves without publishing. -/
  | silent {c c' : Controller} {l : Listener} {a : Controller.Act}
      (h : c.act confs a = some (c', none)) : Moves confs c l c' l
  /-- The request of this listener is answered. -/
  | served {c c' : Controller} {l : Listener} (h : c.countListener confs = some c')
      (hreq : l.syncclient = .requested) : Moves confs c l c' { l with syncclient := .replied }
  /-- The request of another listener is answered. -/
  | countListener {c c' : Controller} {l : Listener} (h : c.countListener confs = some c') :
      Moves confs c l c' l
  /-- The request of a process is answered. -/
  | countProcess {c c' : Controller} {l : Listener} (h : c.countProcess confs = some c') :
      Moves confs c l c' l
  /-- A message of this listener is taken. -/
  | drained {c c' : Controller} {l : Listener} {m : Message} {sink : List Message}
      (h : c.take confs m = some c') (hsink : l.sink = m :: sink) :
      Moves confs c l c' { l with sink := sink }
  /-- A message of another party is taken. -/
  | taken {c c' : Controller} {l : Listener} {m : Message} (h : c.take confs m = some c') :
      Moves confs c l c' l
  /-- The listener itself moves. -/
  | moved {c : Controller} {l l' : Listener} {a : Listener.Act} (h : l.act a = some l') :
      Moves confs c l c l'
  /-- Somebody else moves. -/
  | still {c : Controller} {l : Listener} : Moves confs c l c l

/-- How one process and the controller can change together in one step, where processes take only
the actions that `ok` allows. -/
inductive Process.Moves (confs : List Config) (ok : Process.Act → Prop) :
    Controller → Process → Controller → Process → Prop
  /-- The controller publishes. -/
  | broadcast {c c' : Controller} {p : Process} {a : Controller.Act} {m : Broadcast}
      (h : c.act confs a = some (c', some m)) : Moves confs ok c p c' (p.deliver m)
  /-- The controller moves without publishing. -/
  | silent {c c' : Controller} {p : Process} {a : Controller.Act}
      (h : c.act confs a = some (c', none)) : Moves confs ok c p c' p
  /-- The request of this process is answered. -/
  | served {c c' : Controller} {p : Process} (h : c.countProcess confs = some c')
      (hreq : p.syncclient = .requested) : Moves confs ok c p c' { p with syncclient := .replied }
  /-- The request of another process is answered. -/
  | countProcess {c c' : Controller} {p : Process} (h : c.countProcess confs = some c') :
      Moves confs ok c p c' p
  /-- The request of a listener is answered. -/
  | countListener {c c' : Controller} {p : Process} (h : c.countListener confs = some c') :
      Moves confs ok c p c' p
  /-- A message of this process is taken. -/
  | drained {c c' : Controller} {p : Process} {m : Message} {sink : List Message}
      (h : c.take confs m = some c') (hsink : p.sink = m :: sink) :
      Moves confs ok c p c' { p with sink := sink }
  /-- A message of another party is taken. -/
  | taken {c c' : Controller} {p : Process} {m : Message} (h : c.take confs m = some c') :
      Moves confs ok c p c' p
  /-- The process itself moves. -/
  | moved {c : Controller} {p p' : Process} {a : Process.Act} (hok : ok a)
      (h : p.act a = some p') : Moves confs ok c p c p'
  /-- `waitpid` returns the process to its parent. -/
  | reaped {c : Controller} {p : Process} : Moves confs ok c p c { p with reaped := true }
  /-- Somebody else moves. -/
  | still {c : Controller} {p : Process} : Moves confs ok c p c p

/-- How the controller changes in a step. -/
inductive Controller.Moves (confs : List Config) (c : Controller) : Action → Controller → Prop
  /-- It moves on its own. -/
  | acts {c' : Controller} {a : Controller.Act} {m : Option Broadcast}
      (h : c.act confs a = some (c', m)) : Moves confs c (.controller a) c'
  /-- The listener barrier counts a request. -/
  | countsListener {c' : Controller} {i : Nat} (h : c.countListener confs = some c') :
      Moves confs c (.serveListener i) c'
  /-- The process barrier counts a request. -/
  | countsProcess {c' : Controller} {j : Nat} (h : c.countProcess confs = some c') :
      Moves confs c (.serveProcess j) c'
  /-- The collection loop takes a message of a listener. -/
  | takesListener {c' : Controller} {i : Nat} {m : Message} (h : c.take confs m = some c') :
      Moves confs c (.takeListener i) c'
  /-- The collection loop takes a message of a process. -/
  | takesProcess {c' : Controller} {j : Nat} {m : Message} (h : c.take confs m = some c') :
      Moves confs c (.takeProcess j) c'
  /-- A listener moves. -/
  | listener {i : Nat} {a : Listener.Act} : Moves confs c (.listener i a) c
  /-- A process moves. -/
  | process {j : Nat} {a : Process.Act} : Moves confs c (.process j a) c

/-- A weight of the listeners that nothing but their own actions changes. -/
structure Listener.OwnWeight (f : Listener → Nat) : Prop where
  deliver : ∀ l m, f (l.deliver m) = f l
  reply : ∀ l r, f { l with syncclient := r } = f l
  drain : ∀ l sink, f { l with sink := sink } = f l

/-- A weight of the processes that only their own actions and those of their parents change. -/
structure Process.OwnWeight (f : Process → Nat) : Prop where
  deliver : ∀ p m, f (p.deliver m) = f p
  reply : ∀ p r, f { p with syncclient := r } = f p
  drain : ∀ p sink, f { p with sink := sink } = f p

namespace State

variable {confs : List Config} {s s' : State}

/-- **The controller's view.** Every step changes the controller by one of its moves. -/
theorem controller_moves {a : Action} (h : s.step confs a = some s') :
    s.controller.Moves confs a s'.controller := by
  cases a with
  | controller a =>
      obtain ⟨c, m, hact, rfl⟩ := step_controller.mp h
      rw [controller_controllerStep]
      exact .acts hact
  | serveListener i =>
      obtain ⟨l, c, -, hc, -, rfl⟩ := step_serveListener.mp h
      exact .countsListener hc
  | serveProcess j =>
      obtain ⟨p, c, -, hc, -, rfl⟩ := step_serveProcess.mp h
      exact .countsProcess hc
  | takeListener i =>
      obtain ⟨l, m, sink, c, -, -, hc, rfl⟩ := step_takeListener.mp h
      exact .takesListener hc
  | takeProcess j =>
      obtain ⟨p, m, sink, c, -, -, hc, rfl⟩ := step_takeProcess.mp h
      exact .takesProcess hc
  | listener i a =>
      obtain ⟨l, l', -, -, rfl⟩ := step_listener.mp h
      exact .listener
  | process j a =>
      obtain ⟨p, p', -, -, rfl⟩ := step_process.mp h
      exact .process

/-- A weight that only the listeners change stays the same when somebody else moves. -/
theorem total_listeners_of_own {f : Listener → Nat} (hf : Listener.OwnWeight f) {a : Action}
    (h : s.step confs a = some s') (ha : ∀ i b, a ≠ .listener i b) :
    total f s'.listeners = total f s.listeners := by
  cases a with
  | controller a =>
      obtain ⟨c, m, -, rfl⟩ := step_controller.mp h
      exact total_listeners_controllerStep hf.deliver s c m
  | serveListener i =>
      obtain ⟨l, c, hl, -, -, rfl⟩ := step_serveListener.mp h
      exact total_set_of_eq hl (hf.reply l _)
  | serveProcess j =>
      obtain ⟨p, c, -, -, -, rfl⟩ := step_serveProcess.mp h
      rfl
  | takeListener i =>
      obtain ⟨l, m, sink, c, hl, -, -, rfl⟩ := step_takeListener.mp h
      exact total_set_of_eq hl (hf.drain l _)
  | takeProcess j =>
      obtain ⟨p, m, sink, c, -, -, -, rfl⟩ := step_takeProcess.mp h
      rfl
  | listener i b => exact absurd rfl (ha i b)
  | process j a =>
      obtain ⟨p, p', -, -, rfl⟩ := step_process.mp h
      rfl

/-- A weight that only the processes and their parents change stays the same when somebody else
moves. -/
theorem total_processes_of_own {f : Process → Nat} (hf : Process.OwnWeight f) {a : Action}
    (h : s.step confs a = some s') (hlistener : ∀ i b, a ≠ .listener i b)
    (hprocess : ∀ j b, a ≠ .process j b) : total f s'.processes = total f s.processes := by
  cases a with
  | controller a =>
      obtain ⟨c, m, -, rfl⟩ := step_controller.mp h
      exact total_processes_controllerStep hf.deliver s c m
  | serveListener i =>
      obtain ⟨l, c, -, -, -, rfl⟩ := step_serveListener.mp h
      rfl
  | serveProcess j =>
      obtain ⟨p, c, hp, -, -, rfl⟩ := step_serveProcess.mp h
      exact total_set_of_eq hp (hf.reply p _)
  | takeListener i =>
      obtain ⟨l, m, sink, c, -, -, -, rfl⟩ := step_takeListener.mp h
      rfl
  | takeProcess j =>
      obtain ⟨p, m, sink, c, hp, -, -, rfl⟩ := step_takeProcess.mp h
      exact total_set_of_eq hp (hf.drain p _)
  | listener i b => exact absurd rfl (hlistener i b)
  | process j b => exact absurd rfl (hprocess j b)

/-- Only the mover differs after a move of listener `i`. -/
private theorem listener_at_set {c : Controller} {i : Nat} {l l' : Listener}
    (hat : s.listeners[i]? = some l) (hmover : Listener.Moves confs s.controller l c l')
    (hothers : ∀ x, Listener.Moves confs s.controller x c x) (k : Nat) (x : Listener)
    (hx : s.listeners[k]? = some x) :
    ∃ y, (s.listeners.set i l')[k]? = some y ∧ Listener.Moves confs s.controller x c y := by
  by_cases hik : i = k
  · subst hik
    obtain rfl := Option.some.inj (hat.symm.trans hx)
    have hi := (List.getElem?_eq_some_iff.mp hat).1
    exact ⟨l', by rw [List.getElem?_set_self hi], hmover⟩
  · exact ⟨x, by rw [List.getElem?_set_ne hik, hx], hothers x⟩

/-- Only the mover differs after a move of process `j`. -/
private theorem process_at_set {ok : Process.Act → Prop} {c : Controller} {j : Nat}
    {p p' : Process} (hat : s.processes[j]? = some p)
    (hmover : Process.Moves confs ok s.controller p c p')
    (hothers : ∀ x, Process.Moves confs ok s.controller x c x) (k : Nat) (x : Process)
    (hx : s.processes[k]? = some x) :
    ∃ y, (s.processes.set j p')[k]? = some y ∧ Process.Moves confs ok s.controller x c y := by
  by_cases hjk : j = k
  · subst hjk
    obtain rfl := Option.some.inj (hat.symm.trans hx)
    have hj := (List.getElem?_eq_some_iff.mp hat).1
    exact ⟨p', by rw [List.getElem?_set_self hj], hmover⟩
  · exact ⟨x, by rw [List.getElem?_set_ne hjk, hx], hothers x⟩

/-- **A listener's view.** In every step each listener changes by one of its moves. -/
theorem listener_moves {a : Action} (h : s.step confs a = some s') (k : Nat) (x : Listener)
    (hx : s.listeners[k]? = some x) :
    ∃ y, s'.listeners[k]? = some y ∧ Listener.Moves confs s.controller x s'.controller y := by
  cases a with
  | controller a =>
      obtain ⟨c, m, hact, rfl⟩ := step_controller.mp h
      cases m with
      | none => exact ⟨x, hx, .silent hact⟩
      | some m =>
          exact ⟨x.deliver m, by simp [controllerStep, publish, hx], .broadcast hact⟩
  | serveListener i =>
      obtain ⟨l, c, hl, hc, hreq, rfl⟩ := step_serveListener.mp h
      exact listener_at_set hl (.served hc hreq) (fun _ => .countListener hc) k x hx
  | serveProcess j =>
      obtain ⟨p, c, -, hc, -, rfl⟩ := step_serveProcess.mp h
      exact ⟨x, hx, .countProcess hc⟩
  | takeListener i =>
      obtain ⟨l, m, sink, c, hl, hsink, hc, rfl⟩ := step_takeListener.mp h
      exact listener_at_set hl (.drained hc hsink) (fun _ => .taken hc) k x hx
  | takeProcess j =>
      obtain ⟨p, m, sink, c, -, -, hc, rfl⟩ := step_takeProcess.mp h
      exact ⟨x, hx, .taken hc⟩
  | listener i a =>
      obtain ⟨l, l', hl, hact, rfl⟩ := step_listener.mp h
      exact listener_at_set hl (.moved hact) (fun _ => .still) k x hx
  | process j a =>
      obtain ⟨p, p', -, -, rfl⟩ := step_process.mp h
      exact ⟨x, hx, .still⟩

/-- `waitpid` changes no process but the one it returns. -/
private theorem process_at_afterListener {ok : Process.Act → Prop} {c : Controller} (i : Nat)
    (a : Listener.Act) (k : Nat) (x : Process) (hx : s.processes[k]? = some x) :
    ∃ y, (afterListener i s.processes a)[k]? = some y ∧ Process.Moves confs ok c x c y := by
  have hstill : ∃ y, s.processes[k]? = some y ∧ Process.Moves confs ok c x c y := ⟨x, hx, .still⟩
  cases a with
  | launch =>
      exact ⟨x, by rw [afterListener, List.getElem?_append_left
        (List.getElem?_eq_some_iff.mp hx).1, hx], .still⟩
  | reap r =>
      cases r with
      | running | error => exact hstill
      | child pid status =>
          simp only [afterListener]
          split
          · next p hp =>
              by_cases hpk : pid = k
              · subst hpk
                obtain rfl := Option.some.inj (hp.symm.trans hx)
                have hlt := (List.getElem?_eq_some_iff.mp hp).1
                exact ⟨_, by rw [List.getElem?_set_self hlt], .reaped⟩
              · exact ⟨x, by rw [List.getElem?_set_ne hpk, hx], .still⟩
          · exact hstill
  | _ => exact hstill

/-- **A process's view.** In every step each process changes by one of its moves. -/
theorem process_moves {A : Process.Act → Prop} {a : Action} (h : s.step confs a = some s')
    (hok : ∀ j b, a = .process j b → A b) (k : Nat) (x : Process)
    (hx : s.processes[k]? = some x) :
    ∃ y, s'.processes[k]? = some y ∧ Process.Moves confs A s.controller x s'.controller y := by
  cases a with
  | controller a =>
      obtain ⟨c, m, hact, rfl⟩ := step_controller.mp h
      cases m with
      | none => exact ⟨x, hx, .silent hact⟩
      | some m =>
          exact ⟨x.deliver m, by simp [controllerStep, publish, hx], .broadcast hact⟩
  | serveListener i =>
      obtain ⟨l, c, -, hc, -, rfl⟩ := step_serveListener.mp h
      exact ⟨x, hx, .countListener hc⟩
  | serveProcess j =>
      obtain ⟨p, c, hp, hc, hreq, rfl⟩ := step_serveProcess.mp h
      exact process_at_set hp (.served hc hreq) (fun _ => .countProcess hc) k x hx
  | takeListener i =>
      obtain ⟨l, m, sink, c, -, -, hc, rfl⟩ := step_takeListener.mp h
      exact ⟨x, hx, .taken hc⟩
  | takeProcess j =>
      obtain ⟨p, m, sink, c, hp, hsink, hc, rfl⟩ := step_takeProcess.mp h
      exact process_at_set hp (.drained hc hsink) (fun _ => .taken hc) k x hx
  | listener i a =>
      obtain ⟨l, l', -, -, rfl⟩ := step_listener.mp h
      exact process_at_afterListener i a k x hx
  | process j a =>
      obtain ⟨p, p', hp, hact, rfl⟩ := step_process.mp h
      exact process_at_set hp (.moved (hok j a rfl) hact) (fun _ => .still) k x hx

/-- The listeners are the same machines throughout. -/
theorem length_listeners {a : Action} (h : s.step confs a = some s') :
    s'.listeners.length = s.listeners.length := by
  cases a with
  | controller a =>
      obtain ⟨c, m, -, rfl⟩ := step_controller.mp h
      cases m <;> simp [controllerStep, publish]
  | serveListener i =>
      obtain ⟨l, c, -, -, -, rfl⟩ := step_serveListener.mp h
      simp [setListener]
  | serveProcess j =>
      obtain ⟨p, c, -, -, -, rfl⟩ := step_serveProcess.mp h
      simp [setProcess]
  | takeListener i =>
      obtain ⟨l, m, sink, c, -, -, -, rfl⟩ := step_takeListener.mp h
      simp [setListener]
  | takeProcess j =>
      obtain ⟨p, m, sink, c, -, -, -, rfl⟩ := step_takeProcess.mp h
      simp [setProcess]
  | listener i a =>
      obtain ⟨l, l', -, -, rfl⟩ := step_listener.mp h
      simp [setListener]
  | process j a =>
      obtain ⟨p, p', -, -, rfl⟩ := step_process.mp h
      simp [setProcess]

/-- Processes join one at a time, when they are launched. -/
def launches : Action → Nat
  | .listener _ .launch => 1
  | _ => 0

/-- Processes join at the end and never leave. -/
theorem length_processes {a : Action} (h : s.step confs a = some s') :
    s'.processes.length = s.processes.length + launches a := by
  cases a with
  | controller a =>
      obtain ⟨c, m, -, rfl⟩ := step_controller.mp h
      cases m <;> simp [controllerStep, publish, launches]
  | serveListener i =>
      obtain ⟨l, c, -, -, -, rfl⟩ := step_serveListener.mp h
      rfl
  | serveProcess j =>
      obtain ⟨p, c, -, -, -, rfl⟩ := step_serveProcess.mp h
      simp [setProcess, launches]
  | takeListener i =>
      obtain ⟨l, m, sink, c, -, -, -, rfl⟩ := step_takeListener.mp h
      rfl
  | takeProcess j =>
      obtain ⟨p, m, sink, c, -, -, -, rfl⟩ := step_takeProcess.mp h
      simp [setProcess, launches]
  | listener i a =>
      obtain ⟨l, l', -, -, rfl⟩ := step_listener.mp h
      cases a with
      | launch => simp [afterListener, launches]
      | reap r =>
          cases r with
          | running | error => rfl
          | child pid status =>
              simp only [afterListener, launches]
              split <;> simp
      | _ => rfl
  | process j a =>
      obtain ⟨p, p', -, -, rfl⟩ := step_process.mp h
      simp [setProcess, launches]

/-- A process of the new state either moved or has just been launched. -/
theorem process_moved_or_launched {ok : Process.Act → Prop} {a : Action}
    (h : s.step confs a = some s') (hok : ∀ j b, a = .process j b → ok b) (k : Nat) (y : Process)
    (hy : s'.processes[k]? = some y) :
    (∃ x, s.processes[k]? = some x ∧ Process.Moves confs ok s.controller x s'.controller y) ∨
      ∃ i, a = .listener i .launch ∧ y = { parent := i } := by
  cases hx : s.processes[k]? with
  | some x =>
      obtain ⟨z, hz, hmoves⟩ := process_moves h hok k x hx
      obtain rfl := Option.some.inj (hy.symm.trans hz)
      exact .inl ⟨x, rfl, hmoves⟩
  | none =>
      -- a process that was not there before is the one just launched
      have hlen := length_processes h
      have hk := List.getElem?_eq_none_iff.mp hx
      have hk' := (List.getElem?_eq_some_iff.mp hy).1
      unfold launches at hlen
      split at hlen
      · next i =>
          obtain ⟨l, l', -, -, rfl⟩ := step_listener.mp h
          simp only [afterListener] at hy
          rw [List.getElem?_append_right hk] at hy
          exact .inr ⟨i, rfl, by simpa using List.mem_of_getElem? hy⟩
      · omega

/-- **Invariants of every listener.** What the moves of a single listener preserve holds of every
listener after a step. -/
theorem forall_listeners {P P' : Listener → Prop} {a : Action} (h : s.step confs a = some s')
    (hmoves : ∀ l l', P l → Listener.Moves confs s.controller l s'.controller l' → P' l')
    (hP : ∀ l ∈ s.listeners, P l) : ∀ l ∈ s'.listeners, P' l := by
  intro l' hl'
  obtain ⟨k, hk⟩ := List.mem_iff_getElem?.mp hl'
  have hlt : k < s.listeners.length := length_listeners h ▸ (List.getElem?_eq_some_iff.mp hk).1
  obtain ⟨y, hy, hmove⟩ := listener_moves h k _ (List.getElem?_eq_getElem hlt)
  obtain rfl := Option.some.inj (hk.symm.trans hy)
  exact hmoves _ _ (hP _ (List.getElem_mem hlt)) hmove

/-- **Invariants of every process.** What holds of a new process and is preserved by the moves of a
single process holds of every process after a step. -/
theorem forall_processes {P P' : Process → Prop} {A : Process.Act → Prop} {a : Action}
    (h : s.step confs a = some s') (hok : ∀ j b, a = .process j b → A b)
    (hnew : ∀ i, a = .listener i .launch → P' { parent := i })
    (hmoves : ∀ p p', P p → Process.Moves confs A s.controller p s'.controller p' → P' p')
    (hP : ∀ p ∈ s.processes, P p) : ∀ p ∈ s'.processes, P' p := by
  intro p' hp'
  obtain ⟨k, hk⟩ := List.mem_iff_getElem?.mp hp'
  rcases process_moved_or_launched h hok k p' hk with ⟨p, hp, hmove⟩ | ⟨i, ha, rfl⟩
  · exact hmoves _ _ (hP p (List.mem_of_getElem? hp)) hmove
  · exact hnew i ha

end State

end WsPerftester
