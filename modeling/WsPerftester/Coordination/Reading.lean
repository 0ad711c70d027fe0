import WsPerftester.Lib.Observations
import WsPerftester.Coordination.Results

/-! # What the collection loop reads

The system lets the collection loop take whole messages, while the loop of `controller.cpp` calls
`s_recv` once for each frame. In a run over any number of configurations the messages taken since
the loop was entered determine its counters, and the frame reader started on their frames, whatever
arrives behind them and whether or not the previous loop has left a delimiter unread, reads exactly
these messages and leaves the loop (`collection_reads_taken`). The statistics texts pushed in a run
are those taken and those still queued, each as often as it was pushed (`texts_conserved`). -/

namespace WsPerftester

open TransitionSystem Population

/-! ## The frame reader on the messages it reads -/

/-- The guard of the loop holds whenever one of the messages is read. -/
def Counters.Reads (expected : Int) : Counters → List Message → Prop
  | _, [] => True
  | c, m :: ms => c.Waiting expected ∧ (c.absorb m).Reads expected ms

/-- One more message is read under the guard. -/
theorem Counters.reads_concat {expected : Int} {c : Counters} {ms : List Message} {m : Message} :
    c.Reads expected (ms ++ [m]) ↔
      c.Reads expected ms ∧ (ms.foldl absorb c).Waiting expected := by
  induction ms generalizing c with
  | nil => simp [Reads]
  | cons m' ms ih => rw [List.cons_append, Reads, Reads, ih, List.foldl_cons, and_assoc]

/-- **Frames of messages read under the guard.** At the head of the loop the frame reader consumes
them one after the other, up to at most one delimiter. -/
theorem Reader.collect_reads {expected : Int} {r : Reader} (hloc : r.loc = .status)
    (leftover : Bool) {ms : List Message} (hreads : r.counters.Reads expected ms)
    (rest : List Message) :
    ∃ leftover', collect expected r (boundary leftover (ms ++ rest)) =
      collect expected (r.afterMessages ms) (boundary leftover' rest) := by
  induction ms generalizing r leftover with
  | nil => exact ⟨leftover, by rw [afterMessages_nil, List.nil_append]⟩
  | cons m ms ih =>
      obtain ⟨hwait, hreads⟩ := hreads
      have hrunning : ¬ r.Exited expected := fun h => h.2 hwait
      obtain ⟨leftover', hcollect⟩ := ih (r := r.afterMessages [m]) hloc m.isFinished hreads
      have hunread : boundary false (m :: ms ++ rest) =
          m.frames ++ (ms ++ rest).flatMap Message.frames := rfl
      have hrest : (if m.isFinished then .delimiter :: (ms ++ rest).flatMap Message.frames
          else (ms ++ rest).flatMap Message.frames) = boundary m.isFinished (ms ++ rest) := by
        cases m.isFinished <;> rfl
      refine ⟨leftover', ?_⟩
      rw [collect_boundary hrunning hloc, hunread, collect_message hrunning hloc, hrest, hcollect,
        ← afterMessages_cons]

/-! ## The messages taken -/

namespace State

variable {confs : List Config} {s s' : State}

/-- The message the collection loop takes in a step. -/
def taken (s : State) : Action → List Message
  | .takeListener i => (s.listeners[i]?.bind (·.sink.head?)).toList
  | .takeProcess j => (s.processes[j]?.bind (·.sink.head?)).toList
  | _ => []

/-- Taking from a listener takes the message pushed first. -/
theorem taken_takeListener {i : Nat} {l : Listener} {m : Message} {sink : List Message}
    (hl : s.listeners[i]? = some l) (hsink : l.sink = m :: sink) :
    s.taken (.takeListener i) = [m] := by
  simp [taken, hl, hsink]

/-- Taking from a process takes the message pushed first. -/
theorem taken_takeProcess {j : Nat} {p : Process} {m : Message} {sink : List Message}
    (hp : s.processes[j]? = some p) (hsink : p.sink = m :: sink) :
    s.taken (.takeProcess j) = [m] := by
  simp [taken, hp, hsink]

end State

namespace Controller

/-- The loop over configuration number `iteration` has read `ms`, and is now left or not. -/
def HasRead (confs : List Config) (iteration : Nat) (ms : List Message) (c : Controller) : Prop :=
  iteration < c.iteration ∨ c.iteration = iteration ∧ ∃ conf, confs[iteration]? = some conf ∧
    c.loc = .collect (ms.foldl Counters.absorb {}) ∧
    Counters.Reads conf.finishedExpected {} ms

variable {confs : List Config} {iteration : Nat} {ms : List Message} {c c' : Controller}

/-- On its own the controller leaves the loop or does nothing. -/
theorem HasRead.act (h : c.HasRead confs iteration ms) {a : Act} {m : Option Broadcast}
    (hact : c.act confs a = some (c', m)) : c'.HasRead confs iteration ms := by
  rcases h with h | ⟨hi, conf, hconf, hloc, hreads⟩
  · left
    cases change_of_act hact with
    | finish => exact Nat.lt_succ_of_lt h
    | enter | theEnd | helloListener | startProcesses | helloSocket | startWebsockets => exact h
  · cases change_of_act hact with
    | finish => exact .inl (by simp [hi])
    | enter hloc' | theEnd hloc' | helloListener hloc' | startProcesses hloc' | helloSocket hloc'
    | startWebsockets hloc' => rw [hloc] at hloc'; cases hloc'

/-- The loop takes one more message. -/
theorem HasRead.take (h : c.HasRead confs iteration ms) {m : Message}
    (htake : c.take confs m = some c') : c'.HasRead confs iteration (ms ++ [m]) := by
  obtain ⟨counters, conf', hloc', hconf', hmore, rfl⟩ := take_eq_some htake
  rcases h with h | ⟨hi, conf, hconf, hloc, hreads⟩
  · exact .inl h
  · rw [hloc] at hloc'
    cases hloc'
    rw [hi, hconf] at hconf'
    cases hconf'
    refine .inr ⟨hi, _, hconf, ?_, Counters.reads_concat.mpr ⟨hreads, hmore⟩⟩
    rw [List.foldl_append]
    rfl

/-- Every step extends what has been read by what it takes. -/
theorem HasRead.step {s s' : State} (h : s.controller.HasRead confs iteration ms) {a : Action}
    (hstep : s.step confs a = some s') :
    s'.controller.HasRead confs iteration (ms ++ s.taken a) := by
  -- no barrier is being passed while the loop runs
  have hbarrier (n : Nat) (hloc : s.controller.loc = .syncListeners n ∨
      s.controller.loc = .syncProcesses n) : iteration < s.controller.iteration := by
    rcases h with h | ⟨-, conf, -, hcollect, -⟩
    · exact h
    · rw [hcollect] at hloc
      rcases hloc with hloc | hloc <;> cases hloc
  cases a with
  | controller a =>
      obtain ⟨c, m, hact, rfl⟩ := State.step_controller.mp hstep
      show HasRead confs iteration (ms ++ []) (s.controllerStep c m).controller
      rw [State.controller_controllerStep, List.append_nil]
      exact h.act hact
  | serveListener i =>
      obtain ⟨l, c, -, hc, -, rfl⟩ := State.step_serveListener.mp hstep
      obtain ⟨n, conf, hloc, -, -, rfl⟩ := countListener_eq_some hc
      exact .inl (hbarrier n (.inl hloc))
  | serveProcess j =>
      obtain ⟨p, c, -, hc, -, rfl⟩ := State.step_serveProcess.mp hstep
      obtain ⟨n, conf, hloc, -, -, rfl⟩ := countProcess_eq_some hc
      exact .inl (hbarrier n (.inr hloc))
  | takeListener i =>
      obtain ⟨l, m, sink, c, hl, hsink, hc, rfl⟩ := State.step_takeListener.mp hstep
      rw [State.taken_takeListener hl hsink]
      exact h.take hc
  | takeProcess j =>
      obtain ⟨p, m, sink, c, hp, hsink, hc, rfl⟩ := State.step_takeProcess.mp hstep
      rw [State.taken_takeProcess hp hsink]
      exact h.take hc
  | listener i a =>
      obtain ⟨l, l', -, -, rfl⟩ := State.step_listener.mp hstep
      show HasRead confs iteration (ms ++ []) s.controller
      rw [List.append_nil]
      exact h
  | process j a =>
      obtain ⟨p, p', -, -, rfl⟩ := State.step_process.mp hstep
      show HasRead confs iteration (ms ++ []) s.controller
      rw [List.append_nil]
      exact h

/-- **What the loop has read** is what has been taken since it was entered. -/
theorem hasRead_of_exec {count : Nat} {s₀ s : State} {conf : Config}
    (hs₀ : (coordination confs count).Reachable s₀) (hloc : s₀.controller.loc = .collect {})
    (hconf : confs[s₀.controller.iteration]? = some conf) {run : List Action}
    (hrun : (coordination confs count).exec s₀ run = some s) :
    s.controller.HasRead confs s₀.controller.iteration
      ((coordination confs count).observe State.taken s₀ run) := by
  refine observe_induction (f := State.taken) (g := State.taken)
    (P := fun ms _ s => s.controller.HasRead confs s₀.controller.iteration ms) hs₀ ?_ ?_ hrun
  · exact .inr ⟨rfl, conf, hconf, hloc, trivial⟩
  · intro ms _ t a t' _ h hstep
    exact h.step hstep

/-- At its exit the loop has read what the frame reader reads of the same messages. -/
theorem HasRead.collect {conf : Config} (h : c.HasRead confs c.iteration ms)
    (hconf : confs[c.iteration]? = some conf) {counters : Counters}
    (hloc : c.loc = .collect counters) (hexit : ¬ counters.Waiting conf.finishedExpected)
    (leftover : Bool) (rest : List Message) :
    counters = ms.foldl Counters.absorb {} ∧ ∃ leftover',
      Reader.collect conf.finishedExpected {} (Reader.boundary leftover (ms ++ rest)) =
        ({ loc := .status, counters := counters, parsed := ms.filterMap Message.stats? },
          Reader.boundary leftover' rest) := by
  rcases h with hlater | ⟨-, conf', hconf', hcollect, hreads⟩
  · omega
  · rw [hconf] at hconf'
    cases hconf'
    rw [hloc] at hcollect
    cases hcollect
    have hreader : ({} : Reader).loc = .status := rfl
    obtain ⟨leftover', hconsumed⟩ := Reader.collect_reads hreader leftover hreads rest
    refine ⟨rfl, leftover', ?_⟩
    -- the guard is false behind the last message taken
    rw [hconsumed, Reader.collect_of_exited ⟨rfl, hexit⟩]
    rfl

end Controller

/-- **The frame reader reads what the system takes.** In every run over any configurations, from the
entry of the collection loop up to its exit in the same iteration: the loop of `s_recv` calls on the
frames of the messages taken, before any other messages and after the delimiter the previous loop
may have left behind, counts and parses exactly these messages and leaves all later ones unread. -/
theorem collection_reads_taken {confs : List Config} {count : Nat} {s₀ s : State} {conf : Config}
    (hs₀ : (coordination confs count).Reachable s₀) (hentry : s₀.controller.loc = .collect {})
    (hconf : confs[s₀.controller.iteration]? = some conf) {run : List Action}
    (hrun : (coordination confs count).exec s₀ run = some s)
    (hsame : s.controller.iteration = s₀.controller.iteration) {counters : Counters}
    (hloc : s.controller.loc = .collect counters)
    (hexit : ¬ counters.Waiting conf.finishedExpected) (leftover : Bool) (rest : List Message) :
    ∃ leftover', Reader.collect conf.finishedExpected {} (Reader.boundary leftover
        ((coordination confs count).observe State.taken s₀ run ++ rest)) =
      ({ loc := .status
         counters := counters
         parsed := ((coordination confs count).observe State.taken s₀ run).filterMap
            Message.stats? }, Reader.boundary leftover' rest) := by
  have hread := Controller.hasRead_of_exec hs₀ hentry hconf hrun
  rw [← hsame] at hread hconf
  exact (hread.collect hconf hloc hexit leftover rest).2

/-- The loop of `soloRun` behind a delimiter and with a late result ahead of it. -/
theorem collection_reads_taken_solo : ∃ leftover', Reader.collect 1 {} (Reader.boundary true
      [.result "success 1 5 5 5 0 20", .finished "" "0", .result "late"]) =
    ({ counters := ⟨1, 0, 1⟩, parsed := ["success 1 5 5 5 0 20"] },
      Reader.boundary leftover' [.result "late"]) := by
  obtain ⟨s₀, hs₀, hentry⟩ := (coordination [.solo] 1).exists_of_exec_any (soloRun.take 19)
    (fun s => s.controller = ⟨0, .collect {}⟩ ∧
      ((coordination [.solo] 1).exec s ((soloRun.take 25).drop 19)).any (fun t =>
        t.controller = ⟨0, .collect ⟨1, 0, 1⟩⟩) ∧
      (coordination [.solo] 1).observe State.taken s ((soloRun.take 25).drop 19) =
        [.result "success 1 5 5 5 0 20", .finished "" "0"]) (by decide)
  obtain ⟨hcontroller₀, hend, htaken⟩ := of_decide_eq_true hentry
  obtain ⟨s, hrun, hcontroller⟩ := (Option.any_eq_true _ _).mp hend
  have hsame := of_decide_eq_true hcontroller
  have hconf : [Config.solo][s₀.controller.iteration]? = some Config.solo := by
    rw [hcontroller₀]; rfl
  have hread := collection_reads_taken (reachable_of_exec _ hs₀) (by rw [hcontroller₀]) hconf hrun
    (by rw [hsame, hcontroller₀]) (by rw [hsame]) (by decide) true [.result "late"]
  rw [htaken] at hread
  exact hread

/-! ## The statistics texts -/

/-- The statistics texts a process has pushed and the controller has not taken. -/
def Process.texts (p : Process) : List String := p.sink.filterMap Message.stats?

namespace State

variable {confs : List Config} {count : Nat} {s s' : State}

/-- The statistics text a process pushes in a step. -/
def pushedTexts (_ : State) : Action → List String
  | .process _ (.result stats) => [stats]
  | _ => []

/-- The statistics text the collection loop takes in a step. -/
def takenTexts (s : State) (a : Action) : List String := (s.taken a).filterMap Message.stats?

/-- The statistics texts that wait for the collection loop. -/
def queuedTexts (s : State) : List String := s.processes.flatMap Process.texts

/-- How often a text waits for the collection loop. -/
theorem count_queuedTexts (s : State) (stats : String) :
    s.queuedTexts.count stats = total (fun p => p.texts.count stats) s.processes := by
  rw [queuedTexts, List.count_flatMap]
  rfl

/-- Over any configurations the sinks of the listeners hold notices only. -/
theorem notices_of_reachable (hs : (coordination confs count).Reachable s) :
    ∀ l ∈ s.listeners, ∀ m ∈ l.sink, m.isFinished = true := by
  refine hs.invariant (P := fun s => ∀ l ∈ s.listeners, ∀ m ∈ l.sink, m.isFinished = true) ?_ ?_
  · intro l hl
    rw [List.eq_of_mem_replicate hl]
    intro m hm
    cases hm
  · intro s a s' hnotices h
    exact forall_listeners h (fun l l' hsink hmoves => Listener.notices_of_moves hmoves hsink)
      hnotices

/-- Publishing queues nothing. -/
theorem texts_deliver (p : Process) (m : Broadcast) : (p.deliver m).texts = p.texts := by
  rw [Process.texts, (Process.deliver_keeps p m).2.2.1, Process.texts]

/-- A text waits once more when it is pushed, and once less when it is taken. -/
theorem step_texts (hnotices : ∀ l ∈ s.listeners, ∀ m ∈ l.sink, m.isFinished = true) {a : Action}
    (h : s.step confs a = some s') (stats : String) :
    total (fun p => p.texts.count stats) s'.processes + (s.takenTexts a).count stats =
      total (fun p => p.texts.count stats) s.processes + (s.pushedTexts a).count stats := by
  cases a with
  | controller a =>
      obtain ⟨c, m, -, rfl⟩ := step_controller.mp h
      exact total_processes_controllerStep (fun p m => by rw [texts_deliver]) s c m
  | serveListener i =>
      obtain ⟨l, c, -, -, -, rfl⟩ := step_serveListener.mp h
      rfl
  | serveProcess j =>
      obtain ⟨p, c, hp, -, -, rfl⟩ := step_serveProcess.mp h
      exact total_set_of_eq hp rfl
  | takeListener i =>
      obtain ⟨l, m, sink, c, hl, hsink, -, rfl⟩ := step_takeListener.mp h
      -- a notice has no statistics
      have hnotice : m.isFinished = true := by
        apply hnotices l (List.mem_of_getElem? hl)
        rw [hsink]
        exact List.mem_cons_self
      have hnone : s.takenTexts (.takeListener i) = [] := by
        rw [takenTexts, taken_takeListener hl hsink]
        cases m with
        | finished => rfl
        | result => cases hnotice
      rw [hnone]
      rfl
  | takeProcess j =>
      obtain ⟨p, m, sink, c, hp, hsink, -, rfl⟩ := step_takeProcess.mp h
      have hset := total_set (fun p => p.texts.count stats) { p with sink := sink } hp
      have htexts : p.texts = [m].filterMap Message.stats? ++ sink.filterMap Message.stats? := by
        rw [Process.texts, hsink, ← List.filterMap_append, List.singleton_append]
      rw [htexts, List.count_append] at hset
      rw [takenTexts, taken_takeProcess hp hsink]
      show total _ (s.processes.set j _) + _ = total _ s.processes + 0
      simp only [Process.texts] at hset ⊢
      omega
  | listener i a =>
      obtain ⟨l, l', -, -, rfl⟩ := step_listener.mp h
      show total (fun p => p.texts.count stats) (afterListener i s.processes a) = _
      rw [total_afterListener fun _ => rfl]
      rfl
  | process j a =>
      obtain ⟨p, p', hp, hact, rfl⟩ := step_process.mp h
      cases Process.change_of_act hact with
      | @result instances reported text hloc hmore =>
          have hset := total_set (fun p => p.texts.count stats) { p with
            loc := .working instances (reported + 1)
            sink := p.sink ++ [.result text]
            pushed := p.pushed + 1 } hp
          have htexts : [Message.result text].filterMap Message.stats? = [text] := rfl
          simp only [Process.texts, List.filterMap_append, List.count_append, htexts] at hset
          show total _ (s.processes.set j _) + 0 = total _ s.processes + [text].count stats
          simp only [Process.texts]
          omega
      | subscribe | hello | ignore | start | synced | exit | die => exact total_set_of_eq hp rfl

/-- **No text is lost, duplicated or made up.** In every run the statistics texts pushed are those
taken and those still queued, each as often as it was pushed. -/
theorem texts_conserved {run : List Action}
    (hrun : (coordination confs count).exec (coordination confs count).init run = some s) :
    ((coordination confs count).observe pushedTexts (coordination confs count).init run).Perm
      ((coordination confs count).observe takenTexts (coordination confs count).init run ++
        s.queuedTexts) := by
  refine observe_induction (f := pushedTexts) (g := takenTexts)
    (P := fun pushed taken s => pushed.Perm (taken ++ s.queuedTexts)) .init (.refl _) ?_ hrun
  intro pushed taken s a s' hs hperm h
  rw [List.perm_iff_count] at hperm ⊢
  intro stats
  have hstep := step_texts (notices_of_reachable hs) h stats
  have hcount := hperm stats
  rw [List.count_append, count_queuedTexts] at hcount
  rw [List.count_append, List.count_append, List.count_append, count_queuedTexts]
  omega

end State

end WsPerftester
