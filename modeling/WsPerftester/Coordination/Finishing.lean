import WsPerftester.Coordination.Filling

/-! # The collection loop is left

Fair executions, continued: behind its process barrier a counted process gets to its work, and from
there to its exit or its death if its `doTheWork` returns (`WorkEnds`); its parent waits for it and
reports it, and the report is taken (`Process.labour`). A process that is still to be counted, by
the barrier of a later iteration, holds up nobody. When every counted process has been waited for,
and what the listeners have pushed has been taken, the controller has read as many notices as the
iteration expects (`State.not_waiting_of_reaped`): so the collection loop is left, in every
iteration and whichever children die, if the work of each of them ends (`collection_finishes`). -/

namespace WsPerftester

open TransitionSystem Population

/-! ## What the processes have still to do -/

/-- The steps a broadcast takes the process that receives it: it is read, and a `StartWebsockets`
makes for the result of each client. -/
def Broadcast.clients : Broadcast → Nat
  | .startWebsockets request => request.instances.toNat + 1
  | .helloListener | .helloSocket | .startProcesses _ | .theEnd => 1

/-- Every broadcast is read. -/
theorem Broadcast.one_le_clients (m : Broadcast) : 1 ≤ m.clients := by
  cases m <;> simp [clients]

namespace Process

/-- What is left until a process has exited, if it is not killed before: its subscriptions, its
broadcasts, its reply, its clients. -/
def remaining (p : Process) : Nat :=
  p.subscriber.issued.length + total Broadcast.clients p.subscriber.inbox +
    match p.loc with
    | .awaitHello => 3
    | .awaitSync => 2
    | .awaitRequest => 1
    | .working instances reported => (instances - reported).toNat
    | .exited _ => 0

/-- What is left until a process has been waited for: the steps to its exit, the exit and the
`waitpid` of its parent. -/
def labour (p : Process) : Nat :=
  match p.loc with
  | .exited _ => if p.reaped then 0 else 1
  | .awaitHello | .awaitSync | .awaitRequest | .working _ _ => p.remaining + 2

/-- Whether a process is in `doTheWork`. -/
def atWork (p : Process) : Bool :=
  match p.loc with
  | .working _ _ => true
  | .awaitHello | .awaitSync | .awaitRequest | .exited _ => false

/-- What is looked at of a process in the collection loop. -/
structure Task where
  /-- Whose child it is. -/
  parent : Nat
  /-- Whether it has been counted. -/
  counted : Nat
  /-- Whether it is in `doTheWork`. -/
  atWork : Bool
  /-- What is left until it has been waited for. -/
  labour : Nat

/-- The task of a process. -/
def task (p : Process) : Task := ⟨p.parent, p.counted, p.atWork, p.labour⟩

/-- A process that has just been launched is seven steps from having been waited for. -/
theorem task_start (i : Nat) : task { parent := i } = ⟨i, 0, false, 7⟩ := rfl

variable {confs : List Config} {c c' : Controller} {p p' : Process}

/-- A process is counted or not. -/
theorem counted_cases (p : Process) : p.counted = 0 ∨ p.counted = 1 := by
  unfold counted
  split
  · exact .inl rfl
  · exact .inr rfl

/-- A process that has not exited has to exit and to be waited for. -/
theorem labour_of_running (hlive : ¬ p.Exited) : p.labour = p.remaining + 2 := by
  unfold labour
  split
  · exact absurd ⟨_, ‹_›⟩ hlive
  all_goals rfl

/-- An exited process is one step away from having been waited for, or has been. -/
theorem labour_of_exited (hexit : p.Exited) : p.labour = if p.reaped then 0 else 1 := by
  obtain ⟨status, hloc⟩ := hexit
  simp [labour, hloc]

/-- An exited process does not work any more. -/
theorem atWork_of_exited (hexit : p.Exited) : p.atWork = false := by
  obtain ⟨status, hloc⟩ := hexit
  simp [atWork, hloc]

/-- An exited process has nothing else in front of it. -/
theorem labour_le_one (hexit : p.Exited) : p.labour ≤ 1 := by
  rw [labour_of_exited hexit]
  split <;> simp

/-- What a running process does, short of exiting, brings it closer to its exit. -/
theorem remaining_change {a : Act} (hact : p.Change a p') (hlive' : ¬ p'.Exited) :
    p'.remaining < p.remaining := by
  cases hact with
  | subscribe hissued =>
      simp only [remaining, hissued, List.length_cons]
      omega
  | ignore _ hin =>
      have hread := Broadcast.one_le_clients ‹_›
      simp only [remaining, hin, total_cons]
      omega
  | hello hloc hin | start hloc hin =>
      simp only [remaining, hloc, hin, total_cons, Broadcast.clients]
      omega
  | synced hloc | result hloc hmore =>
      simp only [remaining, hloc]
      omega
  | exit | die => exact absurd ⟨_, rfl⟩ hlive'

/-- **Whatever a running process does is labour**, and its death saves it the rest. -/
theorem labour_lt (hlive : ¬ p.Exited) {a : Act} (hact : p.Change a p') :
    p'.labour < p.labour := by
  rw [labour_of_running hlive]
  by_cases hexit : p'.Exited
  · have := labour_le_one hexit
    omega
  · have := remaining_change hact hexit
    rw [labour_of_running hexit]
    omega

/-- What is left of a process that has exited is the `waitpid` of its parent. -/
theorem labour_of_act {a : Act} (hact : p.act a = some p') (hexit : p.Exited) :
    p'.labour = p.labour := by
  rw [labour_of_exited hexit, labour_of_exited (exited_of_act hact hexit).1, (sink_of_act hact).1]

/-- `waitpid` takes the last step of a process that has exited, and changes no other. -/
theorem task_reaped (p : Process) :
    (task { p with reaped := true }).labour < p.task.labour ∨
      task { p with reaped := true } = p.task := by
  by_cases hexit : p.Exited
  · have hexit' : Exited { p with reaped := true } := hexit
    simp only [task, labour_of_exited hexit, labour_of_exited hexit']
    cases hreaped : p.reaped with
    | false => exact .inl (by simp)
    | true => exact .inr (by simp [counted, atWork])
  · have hlive' : ¬ Exited { p with reaped := true } := hexit
    right
    simp only [task, labour_of_running hexit, labour_of_running hlive']
    rfl

/-- In the collection loop nobody adds to the task of a process. -/
theorem Sound.task_moves (h : p.Sound) {counters : Counters} (hloc : c.loc = .collect counters)
    {ok : Act → Prop} (hmoves : Moves confs ok c p c' p') :
    p'.task.labour < p.task.labour ∨ p'.task = p.task := by
  cases hmoves with
  | broadcast hact =>
      cases Controller.change_of_act hact with
      | theEnd h | helloListener h | startProcesses h | helloSocket h | startWebsockets h =>
          rw [hloc] at h
          cases h
  | served hcount =>
      obtain ⟨n, conf, h, -⟩ := Controller.countProcess_eq_some hcount
      rw [hloc] at h
      cases h
  | moved _ hact =>
      by_cases hexit : p.Exited
      · have hexit' := (exited_of_act hact hexit).1
        exact .inr (by rw [task, task, parent_of_act hact, h.counted_of_act hact,
          atWork_of_exited hexit, atWork_of_exited hexit', labour_of_act hact hexit])
      · exact .inl (labour_lt hexit (change_of_act hact))
  | reaped => exact p.task_reaped
  | drained | silent | countListener | countProcess | taken | still => exact .inr rfl

/-- A counted process that has not come to its work can go on. -/
theorem Sound.act_of_counted (h : p.Sound) (hcalled : p.Called c) {counters : Counters}
    (hloc : c.loc = .collect counters) (hcounted : p.counted = 1) (hlive : ¬ p.Exited)
    (hwork : p.atWork = false) : ∃ a, a.ofMain = true ∧ (p.act a).isSome = true := by
  have hasked : ¬ (p.requests = 0 ∨ p.syncclient = .requested) := fun hnot => by
    rw [counted, if_pos hnot] at hcounted
    cases hcounted
  obtain ⟨hsent, hreply⟩ := not_or.mp hasked
  cases hplace : p.loc with
  | awaitHello => exact absurd (h.outside hplace) hsent
  | awaitSync =>
      have hbusy := h.waits hplace
      cases hreq : p.syncclient with
      | idle => exact absurd hreq hbusy
      | requested => exact absurd hreq hreply
      | replied => exact ⟨.synced, rfl, by simp [act, hplace, hreq]⟩
  | awaitRequest =>
      obtain ⟨request, hmem⟩ :=
        (hcalled hcounted (.inr hplace)).resolve_left (by simp [hloc])
      obtain ⟨m, inbox, hin⟩ := List.exists_cons_of_ne_nil (List.ne_nil_of_mem hmem)
      exact ⟨.receive, rfl, by simp [act, hplace, Subscriber.receive, hin]⟩
  | working => simp [atWork, hplace] at hwork
  | exited status => exact absurd ⟨status, hplace⟩ hlive

/-- Whoever moves, a process keeps its parent. -/
theorem Moves.parent_eq {ok : Act → Prop} (hmoves : Moves confs ok c p c' p') :
    p'.parent = p.parent := by
  cases hmoves with
  | broadcast =>
      obtain ⟨s, hs⟩ := deliver_eq p _
      rw [hs]
  | moved _ hact => exact parent_of_act hact
  | drained | reaped | served | silent | countListener | countProcess | taken | still => rfl

end Process

/-! ## What the listeners have still to do -/

namespace Listener

/-- What is looked at of a listener in the collection loop: the notices queued and its work. -/
def burden (l : Listener) : Nat × Nat := (l.sink.length, l.work)

variable {confs : List Config} {c c' : Controller} {l l' : Listener}

/-- In the collection loop nobody adds to the burden of a listener. -/
theorem burden_moves {counters : Counters} (hloc : c.loc = .collect counters)
    (hmoves : Moves confs c l c' l') : l'.burden.2 < l.burden.2 ∨ l'.burden = l.burden := by
  cases hmoves with
  | broadcast hact =>
      cases Controller.change_of_act hact with
      | theEnd h | helloListener h | startProcesses h | helloSocket h | startWebsockets h =>
          rw [hloc] at h
          cases h
  | served hcount =>
      obtain ⟨n, conf, h, -⟩ := Controller.countListener_eq_some hcount
      rw [hloc] at h
      cases h
  | drained _ hsink =>
      left
      simp only [burden, work, hsink, List.length_cons]
      omega
  | moved hact =>
      rcases work_change (change_of_act hact) with ⟨-, rfl⟩ | hwork
      · exact .inr rfl
      · exact .inl (Nat.lt_of_le_of_lt (Nat.le_add_right _ _) hwork)
  | silent | countListener | countProcess | taken | still => exact .inr rfl

/-- A listener with children outstanding launches children or waits for them. -/
theorem loc_of_outstanding (h : l.outstanding ≠ 0) :
    (∃ processes launched, l.loc = .launching processes launched) ∨
      ∃ unfinished, l.loc = .reaping unfinished ∧ 0 < unfinished := by
  unfold outstanding at h
  split at h
  · exact .inl ⟨_, _, ‹_›⟩
  · exact .inr ⟨_, ‹_›, by omega⟩
  all_goals exact absurd rfl h

end Listener

/-! ## The collection loop -/

namespace Controller

/-- The head of the loop in front of iteration `j`, or in front of `END`. -/
def Arrived (j : Nat) (c : Controller) : Prop := c.iteration = j ∧ c.loc = .iterate

/-- Notices the controller waits for. -/
def toFinish (conf : Config) (c : Controller) : Nat :=
  match c.loc with
  | .collect counters => conf.finishedExpected.toNat - counters.finished
  | .iterate | .syncListeners _ | .syncProcesses _ | .ended => 0

variable {confs : List Config} {j : Nat} {c c' : Controller}

/-- The controller leaves the collection loop by itself only, and never waits for more. -/
theorem AtCollection.moves (h : c.AtCollection j) (conf : Config) {a : Action}
    (hmoves : c.Moves confs a c') :
    c'.Arrived (j + 1) ∨
      (c'.AtCollection j ∧ c'.toFinish conf ≤ c.toFinish conf ∧ ∀ b, a ≠ .controller b) := by
  obtain ⟨rfl, counters, hloc⟩ := h
  cases hmoves with
  | acts hact =>
      cases change_of_act hact with
      | finish => exact .inl ⟨rfl, rfl⟩
      | enter h | theEnd h | helloListener h | startProcesses h | helloSocket h
      | startWebsockets h =>
          rw [hloc] at h
          cases h
  | countsListener hcount =>
      obtain ⟨n, conf', h, -⟩ := countListener_eq_some hcount
      rw [hloc] at h
      cases h
  | countsProcess hcount =>
      obtain ⟨n, conf', h, -⟩ := countProcess_eq_some hcount
      rw [hloc] at h
      cases h
  | takesListener htake | takesProcess htake =>
      obtain ⟨counters', conf', h, -, -, rfl⟩ := take_eq_some htake
      have habsorb := counters'.finished_absorb ‹Message›
      refine .inr ⟨⟨rfl, _, rfl⟩, ?_, by simp⟩
      simp only [toFinish, goto, h]
      omega
  | listener | process => exact .inr ⟨⟨rfl, counters, hloc⟩, Nat.le_refl _, by simp⟩

end Controller

/-! ## Work that ends -/

/-- Whoever is in `doTheWork` exits some time: `doTheWork` returns, or the process is killed. -/
def WorkEnds {confs : List Config} {count : Nat} (ρ : (truthful confs count).Execution) : Prop :=
  ∀ (n j : Nat) (p : Process), (ρ.state n).processes[j]? = some p → p.atWork = true →
    ∃ m, n ≤ m ∧ ∃ p' : Process, (ρ.state m).processes[j]? = some p' ∧ p'.Exited

/-- Who is expected to get on in the collection loop: a party, or the work of a process. -/
inductive Helper
  | party (who : Party)
  | work (k : Nat)
  deriving DecidableEq, Repr

/-- The party can move, or the process is at work. -/
def Helper.Ready (confs : List Config) (count : Nat) : Helper → State → Prop
  | .party who, s => who.Able confs count s
  | .work k, s => ∃ p : Process, s.processes[k]? = some p ∧ p.atWork = true

/-- A move granted to the party, or anything the process does. -/
def Helper.Moves : Helper → Action → Prop
  | .party who, a => who.Moves a
  | .work k, a => ∃ b, a = .process k b

/-- A fair execution in which work ends gets on with everybody. -/
theorem WorkEnds.responds {confs : List Config} {count : Nat} {ρ : (truthful confs count).Execution}
    (hends : WorkEnds ρ) (hfair : FairToAll ρ) (helper : Helper) :
    ρ.Responds (helper.Ready confs count) helper.Moves := by
  cases helper with
  | party who => exact ρ.responds_of_fair (hfair who)
  | work k =>
      -- nobody is at work for ever
      refine ρ.responds_of_transient ?_ _
      rintro n ⟨p, hp, hwork⟩
      obtain ⟨m, hnm, p', hp', hexit⟩ := hends n k p hp hwork
      refine ⟨m, hnm, ?_⟩
      rintro ⟨q, hq, hwork'⟩
      obtain rfl := Option.some.inj (hq.symm.trans hp')
      rw [Process.atWork_of_exited hexit] at hwork'
      cases hwork'

/-- Who is expected to get on in the collection loop: the controller when it can leave it or take a
notice, a counted process that has not exited, or the parent of one that has. -/
def Helper.atCollection (view : Nat × List (Nat × Nat) × List Process.Task) : Helper :=
  if view.1 = 0 then .party .controller
  else match firstBusy (view.2.1.map (·.1)) with
    | some i => .party (.takeListener i)
    | none =>
        match firstBusy (view.2.2.map fun task => task.counted * (task.labour - 1)) with
        | some k =>
            if (view.2.2[k]?.map (·.atWork)).getD false then .work k else .party (.process k)
        | none =>
            match firstBusy (view.2.2.map fun task => task.counted * task.labour) with
            | some k => .party (.listener ((view.2.2.map (·.parent))[k]?.getD 0))
            | none => .party .controller

namespace State

variable {confs : List Config} {conf : Config} {count j : Nat} {s s' : State}

/-- What is looked at in the collection loop. -/
def atCollection (conf : Config) (s : State) : Nat × List (Nat × Nat) × List Process.Task :=
  (s.controller.toFinish conf, s.listeners.map Listener.burden, s.processes.map Process.task)

/-- Parents are listeners. -/
theorem parent_lt_of_reachable (hs : (coordination confs count).Reachable s) :
    ∀ p ∈ s.processes, p.parent < s.listeners.length := by
  refine hs.invariant (P := fun s => ∀ p ∈ s.processes, p.parent < s.listeners.length)
    (by simp [coordination]) ?_
  intro s a s' hinv hstep
  have h : s.step confs a = some s' := hstep
  rw [length_listeners h]
  refine forall_processes (A := fun _ => True) h (fun _ _ _ => trivial) ?_ ?_ hinv
  · rintro i rfl
    obtain ⟨l, l', hl, -, -⟩ := step_listener.mp h
    exact (List.getElem?_eq_some_iff.mp hl).1
  · intro p p' hlt hmoves
    rwa [hmoves.parent_eq]

/-- The parent of a child that was not waited for has children outstanding. -/
theorem outstanding_of_unreaped (hs : (truthful confs count).Reachable s) {p : Process}
    (hmem : p ∈ s.processes) (hreaped : p.reaped = false) :
    ∃ l, s.listeners[p.parent]? = some l ∧ l.outstanding ≠ 0 := by
  have hreach : (coordination confs count).Reachable s := hs.of_restrict
  obtain ⟨l, hl⟩ : ∃ l, s.listeners[p.parent]? = some l :=
    ⟨_, List.getElem?_eq_getElem (parent_lt_of_reachable hreach p hmem)⟩
  have hchildren := total_childOf_eq_family hreach _ _ hl
  have hreported := (TruthfulInv.of_reachable hs).reported _ _ hl
  -- this child has not been reported
  have hless : total (Process.waitedBy p.parent) s.processes <
      total (Process.childOf p.parent) s.processes := by
    have hle : ∀ q ∈ s.processes, Process.waitedBy p.parent q ≤ Process.childOf p.parent q := by
      intro q _
      by_cases hparent : q.parent = p.parent
      · simp only [Process.waitedBy, Process.childOf, hparent, true_and, if_true]
        split <;> simp
      · simp [Process.waitedBy, hparent]
    refine lt_of_le_of_ne (total_le_total hle) fun hsame => ?_
    have heq := eq_of_total_eq hle hsame p hmem
    simp [Process.waitedBy, Process.childOf, hreaped] at heq
  refine ⟨l, hl, ?_⟩
  unfold Listener.family at hchildren
  omega

/-- **With every counted process waited for and every notice taken** the controller waits no
more. -/
theorem not_waiting_of_reaped (hs : (truthful confs count).Reachable s)
    (hconf : confs[j]? = some conf) (hi : s.controller.iteration = j) {counters : Counters}
    (hloc : s.controller.loc = .collect counters) (hsinks : ∀ l ∈ s.listeners, l.sink = [])
    (hreaped : ∀ p ∈ s.processes, p.counted = 1 → p.reaped = true) :
    ¬ counters.Waiting conf.finishedExpected := by
  have hreach : (coordination confs count).Reachable s := hs.of_restrict
  have hcounted := total_counted_eq hreach
  have hwaited := (TruthfulInv.of_reachable hs).reaped
  have hbalance := (NoticesKept.of_reachable hreach).balance
  have hle : total Process.counted s.processes ≤ total Process.waited s.processes := by
    refine total_le_total fun p hmem => ?_
    rcases p.counted_cases with hzero | hone
    · rw [hzero]
      exact Nat.zero_le _
    · simp [hone, Process.waited, hreaped p hmem hone]
  have hqueued : total Listener.undelivered s.listeners = 0 :=
    total_eq_zero.mpr fun l hl => by simp [Listener.undelivered, hsinks l hl]
  have hexpected : expectedOf confs j = conf.finishedExpected.toNat := by
    rw [expectedOf, hconf, Option.map_some, Option.getD_some]
  simp only [Controller.countedProcesses, hi, hloc, hexpected] at hcounted
  simp only [Controller.takenNotices, hi, hloc] at hbalance
  rw [Counters.waiting_iff]
  omega

/-- Who is expected to get on, and why. -/
theorem atCollection_cases (hs : (truthful confs count).Reachable s) (hconf : confs[j]? = some conf)
    (hat : s.controller.AtCollection j) :
    ∃ counters, s.controller.loc = .collect counters ∧
      ((Helper.atCollection (s.atCollection conf) = .party .controller ∧
          ¬ counters.Waiting conf.finishedExpected) ∨
        (counters.Waiting conf.finishedExpected ∧
          ((∃ i l m sink, s.listeners[i]? = some l ∧ l.sink = m :: sink ∧
              Helper.atCollection (s.atCollection conf) = .party (.takeListener i)) ∨
            (∃ (k : Nat) (p : Process), s.processes[k]? = some p ∧ p.counted = 1 ∧ ¬ p.Exited ∧
              Helper.atCollection (s.atCollection conf) =
                if p.atWork then .work k else .party (.process k)) ∨
            ∃ (k : Nat) (p : Process), s.processes[k]? = some p ∧ p.Exited ∧ p.reaped = false ∧
              Helper.atCollection (s.atCollection conf) = .party (.listener p.parent)))) := by
  obtain ⟨hi, counters, hloc⟩ := hat
  refine ⟨counters, hloc, ?_⟩
  by_cases hmore : counters.Waiting conf.finishedExpected
  · have hfinish : s.controller.toFinish conf ≠ 0 := by
      rw [Counters.waiting_iff] at hmore
      simp only [Controller.toFinish, hloc]
      omega
    refine .inr ⟨hmore, ?_⟩
    simp only [Helper.atCollection, atCollection, if_neg hfinish, List.map_map]
    cases hsinks : firstBusy (s.listeners.map ((·.1) ∘ Listener.burden)) with
    | some i =>
        obtain ⟨w, hw, hne⟩ := firstBusy_eq_some hsinks
        obtain ⟨l, hl, rfl⟩ : ∃ l, s.listeners[i]? = some l ∧ l.sink.length = w := by
          simpa [Listener.burden] using hw
        obtain ⟨m, sink, hsink⟩ := List.exists_cons_of_length_pos (Nat.pos_of_ne_zero hne)
        exact .inl ⟨i, l, m, sink, hl, hsink, rfl⟩
    | none =>
        have hempty : ∀ l ∈ s.listeners, l.sink = [] := fun l hl =>
          List.eq_nil_of_length_eq_zero (firstBusy_eq_none hsinks _ (List.mem_map_of_mem hl))
        cases hworking : firstBusy (s.processes.map
            ((fun task : Process.Task => task.counted * (task.labour - 1)) ∘ Process.task)) with
        | some k =>
            obtain ⟨w, hw, hne⟩ := firstBusy_eq_some hworking
            obtain ⟨p, hpat, rfl⟩ : ∃ p, s.processes[k]? = some p ∧
                p.counted * (p.labour - 1) = w := by
              simpa [Process.task] using hw
            obtain ⟨hcounted, hlabour⟩ := Nat.mul_ne_zero_iff.mp hne
            refine .inr (.inl ⟨k, p, hpat, p.counted_cases.resolve_left hcounted, ?_,
              by simp [Process.task, hpat]⟩)
            exact fun hexit => hlabour (Nat.sub_eq_zero_of_le (Process.labour_le_one hexit))
        | none =>
            -- whoever has been counted has exited
            have hexited : ∀ p ∈ s.processes, p.counted = 1 → p.Exited := by
              intro p hmem hcounted
              by_contra hlive
              have hzero : p.counted * (p.labour - 1) = 0 :=
                firstBusy_eq_none hworking _ (List.mem_map_of_mem hmem)
              rw [hcounted, Process.labour_of_running hlive] at hzero
              omega
            cases hgone : firstBusy (s.processes.map
                ((fun task : Process.Task => task.counted * task.labour) ∘ Process.task)) with
            | some k =>
                obtain ⟨w, hw, hne⟩ := firstBusy_eq_some hgone
                obtain ⟨p, hpat, rfl⟩ : ∃ p, s.processes[k]? = some p ∧
                    p.counted * p.labour = w := by
                  simpa [Process.task] using hw
                obtain ⟨hcounted, hlabour⟩ := Nat.mul_ne_zero_iff.mp hne
                have hexit := hexited p (List.mem_of_getElem? hpat)
                  (p.counted_cases.resolve_left hcounted)
                refine .inr (.inr ⟨k, p, hpat, hexit, ?_, by simp [Process.task, hpat]⟩)
                by_contra hreaped
                rw [Process.labour_of_exited hexit, if_pos (Bool.eq_true_of_not_eq_false hreaped)]
                  at hlabour
                exact hlabour rfl
            | none =>
                -- then everything has been reported and taken
                refine absurd hmore (not_waiting_of_reaped hs hconf hi hloc hempty ?_)
                intro p hmem hcounted
                have hzero : p.counted * p.labour = 0 :=
                  firstBusy_eq_none hgone _ (List.mem_map_of_mem hmem)
                rw [hcounted, Process.labour_of_exited (hexited p hmem hcounted)] at hzero
                by_contra hnot
                simp [hnot] at hzero
  · refine .inl ⟨if_pos ?_, hmore⟩
    rw [Counters.waiting_iff] at hmore
    simp only [atCollection, Controller.toFinish, hloc]
    omega

/-- The parent of an exited child that was not waited for can get on: it launches children, or waits
for this one. -/
theorem able_parent (hs : (truthful confs count).Reachable s) {k : Nat} {p : Process}
    (hpat : s.processes[k]? = some p) (hexit : p.Exited) (hreaped : p.reaped = false) :
    (Party.listener p.parent).Able confs count s := by
  obtain ⟨status, hexit⟩ := hexit
  obtain ⟨l, hl, houtstanding⟩ := outstanding_of_unreaped hs (List.mem_of_getElem? hpat) hreaped
  rcases Listener.loc_of_outstanding houtstanding with ⟨processes, launched, hplace⟩ |
    ⟨unfinished, hplace, hmore⟩
  · by_cases hless : (launched : Int) < processes
    · exact ⟨.listener p.parent .launch, ⟨_, rfl⟩, isSome_truthful_listener hl (by simp)
        (by simp [Listener.act, hplace, hless])⟩
    · exact ⟨.listener p.parent .launched, ⟨_, rfl⟩, isSome_truthful_listener hl (by simp)
        (by simp [Listener.act, hplace, hless])⟩
  · have hmay : s.truthfulStep (.listener p.parent (.reap (.child k status))) = true :=
      decide_eq_true ⟨p, hpat, ⟨rfl, hreaped⟩, hexit⟩
    exact ⟨.listener p.parent (.reap (.child k status)), ⟨_, rfl⟩, isSome_truthful hmay
      (step_listener.mpr ⟨l, l.report unfinished status, hl,
        by simp only [Listener.act, hplace, if_pos hmore], rfl⟩)⟩

/-- Whoever is expected to get on in the collection loop can do it, or is at work. -/
theorem ready_atCollection (hs : (truthful confs count).Reachable s) (hconf : confs[j]? = some conf)
    (hat : s.controller.AtCollection j) :
    (Helper.atCollection (s.atCollection conf)).Ready confs count s := by
  have hreach : (coordination confs count).Reachable s := hs.of_restrict
  have hhere : confs[s.controller.iteration]? = some conf := by rw [hat.1, hconf]
  obtain ⟨counters, hloc, ⟨hhelper, hdone⟩ | ⟨hmore, ⟨i, l, m, sink, hl, hsink, hhelper⟩ |
    ⟨k, p, hpat, hcounted, hlive, hhelper⟩ | ⟨k, p, hpat, hexit, hreaped, hhelper⟩⟩⟩ :=
    atCollection_cases hs hconf hat
  · rw [hhelper]
    exact ⟨.controller .finish, ⟨_, rfl⟩,
      isSome_truthful_controller (by simp [Controller.act, hloc, hhere, hdone])⟩
  · rw [hhelper]
    have htake : s.controller.take confs m =
        some (s.controller.goto (.collect (counters.absorb m))) := by
      simp [Controller.take, hloc, hhere, hmore]
    exact ⟨.takeListener i, rfl, isSome_truthful rfl
      (step_takeListener.mpr ⟨l, m, sink, _, hl, hsink, htake, rfl⟩)⟩
  · rw [hhelper]
    cases hwork : p.atWork with
    | true => exact ⟨p, hpat, hwork⟩
    | false =>
        have hmem := List.mem_of_getElem? hpat
        obtain ⟨a, hok, ha⟩ := (sound_of_reachable hreach p hmem).act_of_counted
          (called_of_reachable hreach p hmem) hloc hcounted hlive hwork
        exact ⟨.process k a, ⟨a, hok, rfl⟩, isSome_truthful_process hpat ha⟩
  · rw [hhelper]
    exact able_parent hs hpat hexit hreaped

/-- The steps in front of the end of the collection loop. -/
def stepsToFinish (view : Nat × List (Nat × Nat) × List Process.Task) : Nat :=
  view.1 + (total Prod.snd view.2.1 + total Process.Task.labour view.2.2)

/-- **Nobody adds to what has to be done** in the collection loop. -/
theorem atCollection_step (hs : (coordination confs count).Reachable s)
    (hat : s.controller.AtCollection j) {a : Action} (h : s.step confs a = some s') :
    s'.controller.Arrived (j + 1) ∨ (s'.controller.AtCollection j ∧
      (stepsToFinish (s'.atCollection conf) < stepsToFinish (s.atCollection conf) ∨
        s'.atCollection conf = s.atCollection conf)) := by
  obtain ⟨-, counters, hloc⟩ := id hat
  rcases hat.moves conf (controller_moves h) with hQ | ⟨hat', hle, -⟩
  · exact .inl hQ
  refine .inr ⟨hat', ?_⟩
  simp only [stepsToFinish, atCollection]
  rcases launched_or_length_eq h with ⟨i, rfl⟩ | hlength
  · left
    obtain ⟨hwork, hnew⟩ := work_launch h
    rw [hnew, List.map_append, List.map_singleton, Process.task_start, total_append, total_cons,
      total_nil, total_map, total_map, total_map]
    show _ + (total Listener.work _ + (_ + (7 + 0))) < _ + (total Listener.work _ + _)
    omega
  have hlisteners := total_lt_or_map_eq (k := Listener.burden) (w := Prod.snd)
    (length_listeners h) fun i x y hx hy => by
      obtain ⟨y', hy', hmoves⟩ := listener_moves h i x hx
      obtain rfl := Option.some.inj (hy.symm.trans hy')
      exact Listener.burden_moves hloc hmoves
  have hprocesses := total_lt_or_map_eq (k := Process.task) (w := Process.Task.labour) hlength
    fun k x y hx hy => by
      obtain ⟨y', hy', hmoves⟩ :=
        process_moves (A := fun _ => True) h (fun _ _ _ => trivial) k x hx
      obtain rfl := Option.some.inj (hy.symm.trans hy')
      exact (sound_of_reachable hs x (List.mem_of_getElem? hx)).task_moves hloc hmoves
  rw [← total_map Prod.snd Listener.burden, ← total_map Prod.snd Listener.burden] at hlisteners
  rw [← total_map Process.Task.labour Process.task,
    ← total_map Process.Task.labour Process.task] at hprocesses
  exact weights_lt_or_eq hle hlisteners hprocesses

/-- A listener that gets rid of a burden is seen to. -/
theorem atCollection_ne_of_listener {i : Nat} {l l' : Listener} (hl : s.listeners[i]? = some l)
    (hl' : s'.listeners[i]? = some l') (hne : l'.burden ≠ l.burden) :
    s'.atCollection conf ≠ s.atCollection conf :=
  fun hsame => map_ne_of_weight hl hl' hne (congrArg (fun view => view.2.1) hsame)

/-- A process that does something before its exit is seen to. -/
theorem atCollection_ne_of_process {k : Nat} {p : Process} (hp : s.processes[k]? = some p)
    (hlive : ¬ p.Exited) {b : Process.Act} (h : s.step confs (.process k b) = some s') :
    s'.atCollection conf ≠ s.atCollection conf := by
  obtain ⟨x, x', hx, hact, rfl⟩ := step_process.mp h
  obtain rfl := Option.some.inj (hp.symm.trans hx)
  have hlabour := Process.labour_lt hlive (Process.change_of_act hact)
  intro hsame
  exact map_ne_of_weight hp (List.getElem?_set_self (List.getElem?_eq_some_iff.mp hp).1)
    (fun heq => Nat.ne_of_lt hlabour (congrArg Process.Task.labour heq))
    (congrArg (fun view => view.2.2) hsame)

/-- **Whoever is expected to get on changes something.** -/
theorem atCollection_ne_of_moves (hs : (truthful confs count).Reachable s)
    (hconf : confs[j]? = some conf) (hat : s.controller.AtCollection j) {a : Action}
    (h : (truthful confs count).step s a = some s')
    (hmove : (Helper.atCollection (s.atCollection conf)).Moves a) :
    s'.controller.Arrived (j + 1) ∨ s'.atCollection conf ≠ s.atCollection conf := by
  obtain ⟨hok, hstep⟩ := truthful_step.mp h
  rcases hat.moves conf (controller_moves hstep) with hQ | ⟨-, -, hother⟩
  · exact .inl hQ
  right
  obtain ⟨counters, hloc, ⟨hhelper, hdone⟩ | ⟨hmore, ⟨i, l, m, sink, hl, hsink, hhelper⟩ |
    ⟨k, p, hpat, -, hlive, hhelper⟩ | ⟨k, p, hpat, hexit, hreaped, hhelper⟩⟩⟩ :=
    atCollection_cases hs hconf hat
  · rw [hhelper] at hmove
    obtain ⟨b, rfl⟩ := hmove
    exact absurd rfl (hother b)
  · rw [hhelper] at hmove
    obtain rfl : a = .takeListener i := hmove
    obtain ⟨x, m', sink', c, hx, hsink', -, rfl⟩ := step_takeListener.mp hstep
    obtain rfl := Option.some.inj (hl.symm.trans hx)
    refine atCollection_ne_of_listener hl
      (List.getElem?_set_self (List.getElem?_eq_some_iff.mp hl).1) fun hsame => ?_
    have hlength := congrArg Prod.fst hsame
    simp [Listener.burden, hsink'] at hlength
  · rw [hhelper] at hmove
    -- at its work or on its way there, the process does something
    obtain ⟨b, rfl⟩ : ∃ b, a = .process k b := by
      cases hwork : p.atWork with
      | true =>
          rw [hwork] at hmove
          exact hmove
      | false =>
          rw [hwork] at hmove
          obtain ⟨b, -, hb⟩ := hmove
          exact ⟨b, hb⟩
    exact atCollection_ne_of_process hpat hlive hstep
  · rw [hhelper] at hmove
    obtain ⟨b, rfl⟩ := hmove
    obtain ⟨l, l', hl, hact, rfl⟩ := step_listener.mp hstep
    refine atCollection_ne_of_listener hl
      (List.getElem?_set_self (List.getElem?_eq_some_iff.mp hl).1) fun hsame => ?_
    rcases Listener.work_change (Listener.change_of_act hact) with ⟨rfl, -⟩ | hwork
    · -- a child of his has exited
      exact absurd hexit
        ((of_decide_eq_true hok).2 p (List.mem_of_getElem? hpat) ⟨rfl, hreaped⟩)
    · have hequal := congrArg Prod.snd hsame
      simp only [Listener.burden] at hequal
      omega

end State

/-- **The collection loop is left.** In every fair execution over any configurations, whichever
children die and whenever they do, the controller leaves the collection loop of an iteration for the
next one, if every process that is at work exits some time. -/
theorem collection_finishes {confs : List Config} {count j : Nat} {conf : Config}
    (hconf : confs[j]? = some conf) (ρ : (truthful confs count).Execution) (hfair : FairToAll ρ)
    (hends : WorkEnds ρ) {n : Nat} (hat : (ρ.state n).controller.AtCollection j) :
    ∃ m, n ≤ m ∧ (ρ.state m).controller.Arrived (j + 1) := by
  refine ρ.eventually_of_view (hends.responds hfair) (P := fun s => s.controller.AtCollection j)
    (Q := fun s => s.controller.Arrived (j + 1)) (State.atCollection conf) State.stepsToFinish
    Helper.atCollection ?_ ?_ ?_ hat
  · exact fun s hs hat _ => State.ready_atCollection hs hconf hat
  · exact fun s a s' hs hat _ h =>
      State.atCollection_step hs.of_restrict hat (truthful_step.mp h).2
  · exact fun s a s' hs hat _ h hmove => State.atCollection_ne_of_moves hs hconf hat h hmove

end WsPerftester
