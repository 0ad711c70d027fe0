import WsPerftester.Lib.Observations
import WsPerftester.Coordination.ListenerBarrier

/-! # What the controller publishes in a run over any number of configurations

`State.published` observes the PUB socket. Whatever the listeners and the processes do, the
broadcasts of a run are those of the iterations one after the other, each in the order of the loop
body of `controller.cpp` (`IterationScript`), with those of the current iteration so far behind them
and `END` after the last iteration (`Controller.Script`). The rounds of a controller are the
iterations whose `StartProcesses` has been published. -/

namespace WsPerftester

open TransitionSystem

/-- What a step publishes. -/
def State.published (confs : List Config) (s : State) : Action → List Broadcast
  | .controller a => ((s.controller.act confs a).bind Prod.snd).toList
  | _ => []

/-- A step of the controller publishes what its action says. -/
theorem State.published_controller {confs : List Config} {s : State} {a : Controller.Act}
    {c : Controller} {m : Option Broadcast} (h : s.controller.act confs a = some (c, m)) :
    s.published confs (.controller a) = m.toList := by
  rw [published, h]
  rfl

/-- The broadcasts of one whole iteration: HELLOs to the listeners, `StartProcesses`, HELLOs to the
processes and `StartWebsockets`. -/
def IterationScript (conf : Config) (ms : List Broadcast) : Prop :=
  ∃ listenerHellos socketHellos, ms = List.replicate listenerHellos .helloListener ++
    .startProcesses conf.processes :: (List.replicate socketHellos .helloSocket ++
      [.startWebsockets conf.websocketRequest])

namespace Controller

/-- The broadcasts of the current iteration so far. -/
def CurrentScript (confs : List Config) (c : Controller) (ms : List Broadcast) : Prop :=
  match c.loc with
  | .iterate => ms = []
  | .syncListeners _ => ∃ listenerHellos, ms = List.replicate listenerHellos .helloListener
  | .syncProcesses _ => ∃ conf listenerHellos socketHellos, confs[c.iteration]? = some conf ∧
      ms = List.replicate listenerHellos .helloListener ++
        .startProcesses conf.processes :: List.replicate socketHellos .helloSocket
  | .collect _ => ∃ conf, confs[c.iteration]? = some conf ∧ IterationScript conf ms
  | .ended => ms = [.theEnd] ∧ confs.length ≤ c.iteration

/-- The broadcasts so far: one block for each iteration that is over, and the current one. -/
def Script (confs : List Config) (c : Controller) (ms : List Broadcast) : Prop :=
  ∃ done current, ms = done.flatten ++ current ∧
    List.Forall₂ IterationScript (confs.take c.iteration) done ∧ c.CurrentScript confs current

/-- Iterations whose `StartProcesses` has been published. -/
def rounds (c : Controller) : Nat :=
  c.iteration + match c.loc with
    | .syncProcesses _ | .collect _ => 1
    | .iterate | .syncListeners _ | .ended => 0

variable {confs : List Config} {c c' : Controller} {ms : List Broadcast}

/-- A move within an iteration extends the script of that iteration. -/
private theorem Script.within (h : c.Script confs ms) {loc : Loc} {more : List Broadcast}
    (hcurrent : ∀ current, c.CurrentScript confs current →
      (c.goto loc).CurrentScript confs (current ++ more)) :
    (c.goto loc).Script confs (ms ++ more) := by
  obtain ⟨done, current, rfl, hdone, hscript⟩ := h
  exact ⟨done, current ++ more, List.append_assoc .., hdone, hcurrent current hscript⟩

/-- An action of the controller extends the script by what it publishes. -/
theorem Script.act (h : c.Script confs ms) {a : Act} {m : Option Broadcast}
    (hact : c.act confs a = some (c', m)) : c'.Script confs (ms ++ m.toList) := by
  cases change_of_act hact with
  | enter hloc =>
      refine h.within fun current hcurrent => ?_
      simp only [CurrentScript, hloc] at hcurrent
      exact ⟨0, by simp [hcurrent]⟩
  | theEnd hloc hconf =>
      refine h.within fun current hcurrent => ?_
      simp only [CurrentScript, hloc] at hcurrent
      exact ⟨by simp [hcurrent], List.getElem?_eq_none_iff.mp hconf⟩
  | helloListener hloc =>
      show (c.goto c.loc).Script confs _
      refine h.within fun current hcurrent => ?_
      simp only [CurrentScript, goto, hloc] at hcurrent ⊢
      obtain ⟨k, rfl⟩ := hcurrent
      exact ⟨k + 1, by simp [List.replicate_succ']⟩
  | startProcesses hloc hconf =>
      refine h.within fun current hcurrent => ?_
      simp only [CurrentScript, hloc] at hcurrent
      obtain ⟨k, rfl⟩ := hcurrent
      exact ⟨_, k, 0, hconf, by simp⟩
  | helloSocket hloc =>
      show (c.goto c.loc).Script confs _
      refine h.within fun current hcurrent => ?_
      simp only [CurrentScript, goto, hloc] at hcurrent ⊢
      obtain ⟨conf, k, n, hconf, rfl⟩ := hcurrent
      exact ⟨conf, k, n + 1, hconf, by simp [List.replicate_succ']⟩
  | startWebsockets hloc hconf =>
      refine h.within fun current hcurrent => ?_
      simp only [CurrentScript, hloc] at hcurrent
      obtain ⟨conf, k, n, hconf', rfl⟩ := hcurrent
      obtain rfl := Option.some.inj (hconf.symm.trans hconf')
      exact ⟨_, hconf, k, n, by simp⟩
  | finish hloc hconf =>
      -- the block of the current iteration joins those that are over
      obtain ⟨done, current, rfl, hdone, hcurrent⟩ := h
      simp only [CurrentScript, hloc] at hcurrent
      obtain ⟨conf, hconf', hscript⟩ := hcurrent
      refine ⟨done ++ [current], [], by simp, ?_, rfl⟩
      rw [List.take_add_one, hconf', Option.toList_some]
      exact List.rel_append hdone (.cons hscript .nil)

/-- Counting a request and taking a message publish nothing. -/
private theorem Script.silent (h : c.Script confs ms) {loc : Loc}
    (hcurrent : ∀ current, c.CurrentScript confs current →
      (c.goto loc).CurrentScript confs current) : (c.goto loc).Script confs ms := by
  have hwithin : (c.goto loc).Script confs (ms ++ []) := h.within (by simpa using hcurrent)
  rwa [List.append_nil] at hwithin

/-- **Every step extends the script** by what it publishes. -/
theorem Script.step {s s' : State} {a : Action} (h : s.controller.Script confs ms)
    (hstep : s.step confs a = some s') :
    s'.controller.Script confs (ms ++ s.published confs a) := by
  have hmoves := State.controller_moves hstep
  generalize s'.controller = c' at hmoves ⊢
  cases hmoves with
  | acts hact =>
      rw [State.published_controller hact]
      exact h.act hact
  | countsListener hcount =>
      obtain ⟨n, conf, hloc, -, -, rfl⟩ := countListener_eq_some hcount
      show (s.controller.goto _).Script confs (ms ++ [])
      rw [List.append_nil]
      exact h.silent fun current hcurrent => by
        simpa only [CurrentScript, goto, hloc] using hcurrent
  | countsProcess hcount =>
      obtain ⟨n, conf, hloc, -, -, rfl⟩ := countProcess_eq_some hcount
      show (s.controller.goto _).Script confs (ms ++ [])
      rw [List.append_nil]
      exact h.silent fun current hcurrent => by
        simpa only [CurrentScript, goto, hloc] using hcurrent
  | takesListener htake | takesProcess htake =>
      obtain ⟨counters, conf, hloc, -, -, rfl⟩ := take_eq_some htake
      show (s.controller.goto _).Script confs (ms ++ [])
      rw [List.append_nil]
      exact h.silent fun current hcurrent => by
        simpa only [CurrentScript, goto, hloc] using hcurrent
  | listener | process =>
      show s.controller.Script confs (ms ++ [])
      rw [List.append_nil]
      exact h

end Controller

/-- **The broadcasts of a run.** For every list of configurations, every number of listeners and
every order of steps, what has been published is one block for each iteration that is over, the
initial part of the block of the current iteration, and `END` behind the last one. -/
theorem broadcasts_follow_script {confs : List Config} {count : Nat} {run : List Action} {s : State}
    (hrun : (coordination confs count).exec (coordination confs count).init run = some s) :
    s.controller.Script confs
      ((coordination confs count).observe (State.published confs) (coordination confs count).init
        run) :=
  observe_induction (g := fun _ _ => ([] : List Unit))
    (P := fun ms _ s => s.controller.Script confs ms) .init
    ⟨[], [], rfl, .nil, rfl⟩ (fun _ _ _ _ _ _ hscript hstep => hscript.step hstep) hrun

/-- Two iterations with two listeners, up to `END`: two blocks and `END`. -/
theorem broadcasts_follow_script_two_rounds :
    ∃ s ms, (coordination [.solo, .solo] 2).exec (coordination [.solo, .solo] 2).init
        (soloRun ++ secondRun ++ [.controller .iterate]) = some s ∧
      s.controller = ⟨2, .ended⟩ ∧ s.controller.Script [.solo, .solo] ms ∧
      ms = [.helloListener, .startProcesses 1, .helloSocket,
        .startWebsockets Config.solo.websocketRequest, .helloListener, .startProcesses 1,
        .helloSocket, .startWebsockets Config.solo.websocketRequest, .theEnd] := by
  obtain ⟨s, hs, hend⟩ := (coordination [.solo, .solo] 2).exists_of_exec_any
    (soloRun ++ secondRun ++ [.controller .iterate]) (fun s => s.controller = ⟨2, .ended⟩)
    (by decide)
  exact ⟨s, _, hs, of_decide_eq_true hend, broadcasts_follow_script hs, by decide⟩

end WsPerftester
