import WsPerftester.Lib.Fairness
import WsPerftester.Coordination.ProcessBarrier

/-! # The two start barriers lose no start request

One iteration in which no process crashes. When `StartProcesses` is published, `machines` listeners
have been counted; each of them has the message in front of it or has handled it, and nobody else
launches a process (`State.ListenersStarted`). When `StartWebsockets` is published, the
`machines * processes` processes have been counted, and the same holds of them
(`State.ProcessesStarted`). A counted party that keeps moving whenever it can handles its message
in the end, by the rank `lag`: the reply and the HELLOs it has to receive before. -/

namespace WsPerftester

open TransitionSystem Population

/-! ## The phases of the controller -/

namespace Controller

variable {conf : Config} {c : Controller}

/-- Once something is published to the listeners, it starts with the `StartProcesses`. -/
theorem toListeners_of_ne_nil (h : c.toListeners conf ≠ []) :
    ∃ rest, c.toListeners conf = .startProcesses conf.processes :: rest ∧
      ∀ m ∈ rest, m = .theEnd := by
  unfold toListeners at h ⊢
  split <;> simp_all

/-- Once something is published to the processes, it is the `StartWebsockets`. -/
theorem toProcesses_of_ne_nil (h : c.toProcesses conf ≠ []) :
    c.toProcesses conf = [.startWebsockets conf.websocketRequest] := by
  unfold toProcesses at h ⊢
  split <;> simp_all

/-- The listener barrier never counts beyond `machines`. -/
theorem served_le_quota (hc : c.Single) (hbounds : c.WithinBounds [conf]) :
    c.served [conf] ≤ conf.quota := by
  obtain ⟨iteration, loc⟩ := c
  rcases hc with ⟨rfl, -⟩ | ⟨rfl, hloc⟩
  · have hle := hbounds conf rfl
    cases loc <;> simp_all [served]
  · rcases hloc with rfl | rfl <;> simp [served, quotaBefore]

/-- Once `StartProcesses` is published, `machines` listeners have been counted. -/
theorem served_of_started (hc : c.Single) (h : c.toListeners conf ≠ []) :
    c.served [conf] = conf.quota := by
  obtain ⟨iteration, loc⟩ := c
  rcases hc with ⟨rfl, -⟩ | ⟨rfl, hloc⟩
  · cases loc <;> simp_all [served, toListeners]
  · rcases hloc with rfl | rfl <;> simp [served, quotaBefore]

/-- Once `StartWebsockets` is published, `machines * processes` processes have been counted. -/
theorem servedProcesses_of_started (h : c.toProcesses conf ≠ []) :
    c.servedProcesses conf = conf.finishedExpected.toNat := by
  unfold toProcesses at h
  unfold servedProcesses
  split <;> simp_all

/-- The scripts become non-empty in the moves that publish the two start requests. -/
theorem scripts_moves {c' : Controller} (hc : c.Single) {a : Action}
    (hmoves : c.Moves [conf] a c') :
    (c'.toListeners conf ≠ [] ↔ c.toListeners conf ≠ [] ∨ a = .controller .startProcesses) ∧
    (c'.toProcesses conf ≠ [] ↔ c.toProcesses conf ≠ [] ∨ a = .controller .startWebsockets) := by
  cases hmoves with
  | acts hact =>
      obtain ⟨hlisteners, hprocesses, -, -⟩ := scripts_act hc hact
      rw [hlisteners, hprocesses]
      cases change_of_act hact with
      | theEnd hloc hconf =>
          -- `END` comes behind both start requests
          have hi := hc.iteration_eq_one hconf
          simp [toListeners, toProcesses, processPart, hi, hloc]
      | _ => simp [listenerPart, processPart]
  | countsListener hcount =>
      obtain ⟨-, hlisteners, hprocesses⟩ := scripts_countListener hc hcount
      simp [hlisteners, hprocesses]
  | countsProcess hcount =>
      obtain ⟨-, hlisteners, hprocesses⟩ := scripts_countProcess hc hcount
      simp [hlisteners, hprocesses]
  | takesListener htake | takesProcess htake =>
      obtain ⟨-, hlisteners, hprocesses⟩ := scripts_take hc htake
      simp [hlisteners, hprocesses]
  | listener | process => simp

end Controller

namespace State

variable {conf : Config} {count : Nat} {s s' : State}

/-- A start request has been published exactly when its script is not empty. -/
theorem published_iff (hp : 0 ≤ conf.processes) {run : List Action}
    (h : (coordination [conf] count).exec (coordination [conf] count).init run = some s) :
    (.controller .startProcesses ∈ run ↔ s.controller.toListeners conf ≠ []) ∧
      (.controller .startWebsockets ∈ run ↔ s.controller.toProcesses conf ≠ []) := by
  refine exec_induction (P := fun run s =>
    (Action.controller .startProcesses ∈ run ↔ s.controller.toListeners conf ≠ []) ∧
      (Action.controller .startWebsockets ∈ run ↔ s.controller.toProcesses conf ≠ [])) ?_ ?_ h
  · simp [coordination, Controller.toListeners, Controller.toProcesses]
  · intro run s a s' hrun ih hstep
    have hsingle := (Obeys.of_reachable hp (reachable_of_exec _ hrun)).single
    obtain ⟨hlisteners, hprocesses⟩ := Controller.scripts_moves hsingle (controller_moves hstep)
    rw [hlisteners, hprocesses, List.mem_append, List.mem_append, ih.1, ih.2, List.mem_singleton,
      List.mem_singleton]
    simp only [eq_comm, and_self]

end State

/-! ## Runs without crashes -/

/-- The actions with which no process crashes. -/
def Action.crashFree : Action → Bool
  | .process _ a => a.survives
  | _ => true

/-- A run over one configuration in which no process crashes. -/
def crashFree (conf : Config) (count : Nat) : TransitionSystem State Action :=
  (coordination [conf] count).restrict fun _ a => a.crashFree

/-- A step of such a run is a step in which nobody crashes. -/
theorem crashFree_step {conf : Config} {count : Nat} {s s' : State} {a : Action} :
    (crashFree conf count).step s a = some s' ↔
      a.crashFree = true ∧ s.step [conf] a = some s' :=
  restrict_step _

namespace State

variable {conf : Config} {count : Nat} {s s' : State}

/-- There are never more than `machines * processes` processes. -/
theorem length_processes_le (hm : 0 ≤ conf.machines) (hp : 0 ≤ conf.processes)
    (hs : (coordination [conf] count).Reachable s) :
    s.processes.length ≤ conf.finishedExpected.toNat := by
  have hchildren := children_balance hp hs
  have hserved := Controller.served_le_quota (Obeys.of_reachable hp hs).single
    (BarrierInv.of_reachable hs).bounds
  have hmul := Nat.mul_le_mul_right conf.processes.toNat hserved
  rw [Config.quota_mul_processes hm hp] at hmul
  omega

/-- Nothing is launched any more once `StartWebsockets` is published. -/
theorem toProcesses_of_launch (hm : 0 ≤ conf.machines) (hp : 0 ≤ conf.processes)
    (hs : (coordination [conf] count).Reachable s) {i : Nat}
    (h : s.step [conf] (.listener i .launch) = some s') : s'.controller.toProcesses conf = [] := by
  by_contra hne
  have hs' : (coordination [conf] count).Reachable s' := .step (a := .listener i .launch) hs h
  obtain ⟨l, l', -, -, hs'eq⟩ := step_listener.mp h
  have hsame : s'.controller = s.controller := by rw [hs'eq]; rfl
  -- every process that may exist has been counted before the new one joins
  have hle := length_processes_le hm hp hs'
  have hlen := length_processes h
  have hbalance := processes_balance hp hs
  rw [← hsame, Controller.servedProcesses_of_started hne] at hbalance
  simp only [launches] at hlen
  omega

/-- **Every process obeys in every run without crashes.** -/
theorem processes_obey (hm : 0 ≤ conf.machines) (hp : 0 ≤ conf.processes)
    (hs : (crashFree conf count).Reachable s) :
    ∀ p ∈ s.processes, p.Obeys conf s.controller := by
  refine hs.invariant_of (P := fun s => ∀ p ∈ s.processes, p.Obeys conf s.controller)
    (fun s hs => hs.of_restrict) ?_ ?_
  · simp [coordination, restrict]
  · intro s a s' hreach hinv h
    obtain ⟨hok, hstep⟩ := crashFree_step.mp h
    have hsingle := (Obeys.of_reachable hp hreach).single
    refine forall_processes (A := fun b => b.survives = true) hstep ?_ ?_ ?_ hinv
    · rintro j b rfl
      exact hok
    · rintro i rfl
      exact .start (toProcesses_of_launch hm hp hreach hstep) i
    · exact fun p p' hobeys hmoves => hobeys.moves hsingle hmoves

end State

/-! ## What holds once a start request is published -/

/-- The listeners once `StartProcesses` is published. -/
structure State.ListenersStarted (conf : Config) (s : State) : Prop where
  /-- `machines` listeners have been counted. -/
  machines : (total Listener.counted s.listeners : Int) = conf.machines
  /-- Each of them has sent one request, has the message in front of it or has processed it. -/
  counted : ∀ l ∈ s.listeners, l.counted = 1 →
    l.requests = 1 ∧ l.starts + l.subscriber.pending .startProcesses = 1
  /-- No other listener processes the message or launches a process. -/
  uncounted : ∀ i l, s.listeners[i]? = some l → l.counted ≠ 1 →
    l.starts = 0 ∧ ∀ p ∈ s.processes, p.parent ≠ i

/-- The processes once `StartWebsockets` is published. -/
structure State.ProcessesStarted (conf : Config) (s : State) : Prop where
  /-- There are `machines * processes` of them. -/
  processes : (s.processes.length : Int) = conf.machines * conf.processes
  /-- Each of them has been counted, has sent one request, and has the message in front of it or has
  processed it. -/
  counted : ∀ p ∈ s.processes, p.counted = 1 ∧ p.requests = 1 ∧
    p.starts + p.subscriber.pending .startWebsockets = 1

namespace Listener

variable {conf : Config} {c : Controller} {l : Listener}

/-- A counted listener has left its outer loop. -/
theorem loc_of_counted (h : l.counted = 1) : l.loc ≠ .awaitHello := fun hloc => by
  simp [counted, hloc] at h

/-- A listener processes at most one `StartProcesses`. -/
theorem Obeys.starts_le (h : l.Obeys conf c) : l.starts ≤ 1 := by
  have hstage := h.stage
  unfold Stage at hstage
  split at hstage <;> omega

/-- The message that starts a counted listener is in front of it until it is processed. -/
theorem Obeys.starts_add_pending (h : l.Obeys conf c) (hscript : c.toListeners conf ≠ [])
    (hcounted : l.counted = 1) : l.starts + l.subscriber.pending .startProcesses = 1 := by
  obtain ⟨rest, hrest, hend⟩ := Controller.toListeners_of_ne_nil hscript
  have hnone : rest.countP (fun m => m.command = .startProcesses) = 0 := by
    rw [List.countP_eq_zero]
    intro m hm
    simp [hend m hm, Broadcast.command]
  rw [h.follows.pending_eq (loc_of_counted hcounted) (by simp [Broadcast.command]), hrest]
  have hstage := h.stage
  have hle := h.starts_le
  by_cases hzero : l.starts = 0
  · -- nothing of the script has been read
    have hterm : l.loc ≠ .terminated := fun hloc => by simp [Stage, hloc, hzero] at hstage
    rw [read_of_loc hterm, hzero, List.drop_zero, List.countP_cons, hnone]
    simp [Broadcast.command]
  · -- the `StartProcesses` has been read, and only `END` can come behind it
    obtain ⟨k, hk⟩ : ∃ k, l.read = k + 1 := ⟨l.read - 1, by unfold read; omega⟩
    rw [hk, List.drop_succ_cons]
    have hdrop : (rest.drop k).countP (fun m => m.command = .startProcesses) = 0 := by
      have := (rest.drop_sublist k).countP_le (p := fun m => m.command = .startProcesses)
      omega
    omega

/-- A listener that has not been counted has started nobody. -/
theorem Obeys.starts_of_uncounted (h : l.Obeys conf c) (hcounted : l.counted ≠ 1) :
    l.starts = 0 ∧ l.children conf = 0 := by
  have hstage := h.stage
  have hbehind := h.sound.counted_eq_one
  cases hloc : l.loc with
  | awaitHello | awaitSync =>
      simp only [Stage, hloc] at hstage
      simp [children, hloc, hstage.1]
  | awaitRequest | launching | reaping | terminated =>
      exact absurd (hbehind (by simp [hloc]) (by simp [hloc])) hcounted

end Listener

namespace Process

variable {conf : Config} {c : Controller} {p : Process}

/-- A process processes at most one `StartWebsockets`. -/
theorem Obeys.starts_le (h : p.Obeys conf c) : p.starts ≤ 1 := by
  have hstage := h.stage
  unfold Stage at hstage
  split at hstage <;> omega

/-- A process that has sent its request has left its outer loop. -/
theorem Obeys.joined (h : p.Obeys conf c) (hcounted : p.counted = 1) :
    p.loc ≠ .awaitHello ∧ p.requests = 1 := by
  have hsent : p.requests ≠ 0 := fun hzero => by simp [counted, hzero] at hcounted
  have hstage := h.stage
  cases hloc : p.loc with
  | awaitHello =>
      simp only [Stage, hloc] at hstage
      exact absurd hstage.1 hsent
  | awaitSync | awaitRequest | exited =>
      simp only [Stage, hloc] at hstage
      exact ⟨by simp, hstage.1⟩
  | working =>
      simp only [Stage, hloc] at hstage
      exact ⟨by simp, hstage.2.1⟩

/-- The message that starts a counted process is in front of it until it is processed. -/
theorem Obeys.starts_add_pending (h : p.Obeys conf c) (hscript : c.toProcesses conf ≠ [])
    (hcounted : p.counted = 1) : p.starts + p.subscriber.pending .startWebsockets = 1 := by
  rw [h.follows.pending_eq (h.joined hcounted).1 (by simp [Broadcast.command]),
    Controller.toProcesses_of_ne_nil hscript]
  have hle := h.starts_le
  by_cases hzero : p.starts = 0
  · rw [hzero]
    simp [Broadcast.command]
  · have hone : p.starts = 1 := by omega
    rw [hone]
    simp

end Process

namespace State

variable {conf : Config} {count : Nat} {s : State}

/-- **What the first barrier guarantees.** -/
theorem listenersStarted (hm : 0 ≤ conf.machines) (hp : 0 ≤ conf.processes)
    (hs : (coordination [conf] count).Reachable s) (hscript : s.controller.toListeners conf ≠ []) :
    s.ListenersStarted conf := by
  have hobeys := Obeys.of_reachable hp hs
  have hbarrier := BarrierInv.of_reachable hs
  refine ⟨?_, fun l hl hcounted => ⟨?_, ?_⟩, fun i l hl hcounted => ?_⟩
  · rw [hbarrier.counted, Controller.served_of_started hobeys.single hscript, Config.quota]
    omega
  · have honce := (hobeys.listeners l hl).sound.once
    -- it has left the outer loop, which took exactly one request
    rw [Listener.outer, if_neg (Listener.loc_of_counted hcounted)] at honce
    exact honce
  · exact (hobeys.listeners l hl).starts_add_pending hscript hcounted
  · have hobeysl := hobeys.listeners l (List.mem_of_getElem? hl)
    obtain ⟨hstarts, hchildren⟩ := hobeysl.starts_of_uncounted hcounted
    -- a process with this parent would be one of its children
    refine ⟨hstarts, fun p hmem hparent => ?_⟩
    have htotal := (FamilyInv.of_reachable hp hs).children i l hl
    rw [hchildren, total_eq_zero] at htotal
    simpa [Process.childOf, hparent] using htotal p hmem

/-- **What the second barrier guarantees.** -/
theorem processesStarted (hm : 0 ≤ conf.machines) (hp : 0 ≤ conf.processes)
    (hs : (crashFree conf count).Reachable s) (hscript : s.controller.toProcesses conf ≠ []) :
    s.ProcessesStarted conf := by
  have hreach : (coordination [conf] count).Reachable s := hs.of_restrict
  have hle := length_processes_le hm hp hreach
  have hcounted := counted_of_reachable hp hreach
  have hbalance := processes_balance hp hreach
  rw [Controller.servedProcesses_of_started hscript] at hcounted hbalance
  have hexpected : ((conf.finishedExpected.toNat : Nat) : Int) = conf.machines * conf.processes :=
    Int.toNat_of_nonneg (Int.mul_nonneg hm hp)
  -- as many processes are counted as there are
  have hone : ∀ p ∈ s.processes, p.counted = 1 :=
    eq_of_total_eq (fun p _ => by unfold Process.counted; split <;> simp)
      (by rw [hcounted, total_one]; omega)
  refine ⟨by omega, fun p hmem => ⟨hone p hmem, ?_, ?_⟩⟩
  · exact ((processes_obey hm hp hs p hmem).joined (hone p hmem)).2
  · exact (processes_obey hm hp hs p hmem).starts_add_pending hscript (hone p hmem)

end State

/-! ## Progress of a counted party -/

namespace Listener

variable {conf : Config} {c c' : Controller} {l l' : Listener}

/-- What a counted listener has to receive before its `StartProcesses`: the reply and HELLOs. -/
def lag (l : Listener) : Nat :=
  (if l.loc = .awaitSync then 1 else 0) + l.subscriber.inbox.countP fun m => m = .helloListener

/-- A counted listener that has not started yet, after the publication. -/
structure Starting (conf : Config) (c : Controller) (l : Listener) : Prop where
  published : c.toListeners conf ≠ []
  counted : l.counted = 1
  waiting : l.starts = 0

/-- A starting listener waits for its reply or in the inner loop. -/
theorem Obeys.loc_of_starting (h : l.Obeys conf c) (hs : l.Starting conf c) :
    (l.loc = .awaitSync ∧ l.syncclient = .replied) ∨ l.loc = .awaitRequest := by
  have hstage := h.stage
  have hzero := hs.waiting
  cases hloc : l.loc with
  | awaitHello => exact absurd hloc (loc_of_counted hs.counted)
  | awaitSync =>
      have hbusy := h.sound.sync.mpr hloc
      have hreq : l.syncclient ≠ .requested := fun hreq => by simpa [counted, hreq] using hs.counted
      cases hreply : l.syncclient with
      | idle => exact absurd hreply hbusy
      | requested => exact absurd hreply hreq
      | replied => exact .inl ⟨rfl, rfl⟩
  | awaitRequest => exact .inr rfl
  | launching | reaping | terminated =>
      simp only [Stage, hloc] at hstage
      omega

/-- It has a message to receive: HELLOs and then its `StartProcesses`. -/
theorem Obeys.inbox_of_starting (h : l.Obeys conf c) (hs : l.Starting conf c) :
    ∃ hellos rest, l.subscriber.inbox =
      List.replicate hellos .helloListener ++ .startProcesses conf.processes :: rest := by
  obtain ⟨rest, hrest, -⟩ := Controller.toListeners_of_ne_nil hs.published
  obtain ⟨hellos, hin⟩ := h.follows.inbox_of_joined (loc_of_counted hs.counted)
  have hterm : l.loc ≠ .terminated := fun hloc => by
    have hstage := h.stage
    simp only [Stage, hloc] at hstage
    have := hs.waiting
    omega
  rw [read_of_loc hterm, hs.waiting, hrest, List.drop_zero] at hin
  exact ⟨hellos, rest, hin⟩

/-- It can always act. -/
theorem Obeys.act_of_starting (h : l.Obeys conf c) (hs : l.Starting conf c) :
    ∃ a, (l.act a).isSome = true := by
  rcases h.loc_of_starting hs with ⟨hloc, hreply⟩ | hloc
  · exact ⟨.synced, by simp [act, hloc, hreply]⟩
  · obtain ⟨hellos, rest, hin⟩ := h.inbox_of_starting hs
    cases hellos <;>
      exact ⟨.receive, by simp [act, hloc, Subscriber.receive, hin, List.replicate_succ]⟩

/-- Each of its actions brings it closer to its `StartProcesses`. -/
theorem Obeys.change_of_starting (h : l.Obeys conf c) (hs : l.Starting conf c) {a : Act}
    (hact : l.Change a l') : l'.starts = 1 ∨ (l'.starts = 0 ∧ l'.lag < l.lag) := by
  have hzero := hs.waiting
  have hplace := h.loc_of_starting hs
  have hmeet := h.inbox_of_starting hs
  cases hact with
  | subscribe hissued =>
      have := h.follows.subscribed (loc_of_counted hs.counted)
      rw [hissued] at this
      cases this
  | hello hloc => exact absurd hloc (loc_of_counted hs.counted)
  | @ignore m inbox hloc hin =>
      refine .inr ⟨hzero, ?_⟩
      obtain ⟨hellos, rest, hin'⟩ := hmeet
      rcases hloc with ⟨hloc, -⟩ | ⟨hloc, -, hstart⟩
      · exact absurd hloc (loc_of_counted hs.counted)
      · cases hellos with
        | zero =>
            rw [hin, List.replicate_zero, List.nil_append, List.cons.injEq] at hin'
            exact absurd hin'.1 (hstart _)
        | succ hellos =>
            -- it ignores one of the HELLOs that the rank counts
            rw [hin, List.replicate_succ, List.cons_append, List.cons.injEq] at hin'
            simp [lag, hin, hin'.1]
  | theEnd hloc hin =>
      -- the `END` comes behind the `StartProcesses`
      obtain ⟨hellos, rest, hin'⟩ := hmeet
      cases hellos <;> simp [hin, List.replicate_succ] at hin'
  | start => exact .inl (by simp [hzero])
  | synced hloc => exact .inr ⟨hzero, by simp [lag, hloc]⟩
  | launch hloc | launched hloc | running hloc | error hloc | child hloc | allReaped hloc =>
      simp [hloc] at hplace

/-- Nobody else delays it. -/
theorem Obeys.moves_of_starting (hc : c.Single) (h : l.Obeys conf c) (hs : l.Starting conf c)
    (hmoves : Moves [conf] c l c' l') :
    l'.starts = 1 ∨ (l'.starts = 0 ∧ l'.counted = 1 ∧ l'.lag ≤ l.lag) := by
  have hsame : l.starts = 1 ∨ (l.starts = 0 ∧ l.counted = 1 ∧ l.lag ≤ l.lag) :=
    .inr ⟨hs.waiting, hs.counted, Nat.le_refl _⟩
  cases hmoves with
  | @broadcast _ _ _ m hact =>
      -- a HELLO is not published after the `StartProcesses`
      have hhello : m ≠ .helloListener := fun hm =>
        hs.published ((Controller.scripts_act hc hact).2.2.1 (by rw [hm]))
      refine .inr ⟨?_, by simpa using hs.counted, ?_⟩
      · unfold Listener.deliver
        split <;> exact hs.waiting
      · unfold Listener.deliver Subscriber.deliver lag
        split
        · exact Nat.le_refl _
        · split <;> simp [hhello]
  | served _ hreq =>
      have := hs.counted
      simp [counted, hreq] at this
  | drained => exact hsame
  | moved hact =>
      rcases h.change_of_starting hs (change_of_act hact) with hone | ⟨hzero, hlt⟩
      · exact .inl hone
      · exact .inr ⟨hzero, (counted_of_act hact).trans hs.counted, hlt.le⟩
  | silent | countListener | countProcess | taken | still => exact hsame

end Listener

namespace Process

variable {conf : Config} {c c' : Controller} {p p' : Process}

/-- What a counted process has to receive before its `StartWebsockets`: the reply and HELLOs. -/
def lag (p : Process) : Nat :=
  (if p.loc = .awaitSync then 1 else 0) + p.subscriber.inbox.countP fun m => m = .helloSocket

/-- A counted process that has not started yet, after the publication. -/
structure Starting (conf : Config) (c : Controller) (p : Process) : Prop where
  published : c.toProcesses conf ≠ []
  counted : p.counted = 1
  waiting : p.starts = 0

/-- A starting process waits for its reply or in the inner loop. -/
theorem Obeys.loc_of_starting (h : p.Obeys conf c) (hsound : p.Sound) (hs : p.Starting conf c) :
    (p.loc = .awaitSync ∧ p.syncclient = .replied) ∨ p.loc = .awaitRequest := by
  have hstage := h.stage
  have hzero := hs.waiting
  cases hloc : p.loc with
  | awaitHello => exact absurd hloc (h.joined hs.counted).1
  | awaitSync =>
      have hbusy := hsound.waits hloc
      have hreq : p.syncclient ≠ .requested := fun hreq => by simpa [counted, hreq] using hs.counted
      cases hreply : p.syncclient with
      | idle => exact absurd hreply hbusy
      | requested => exact absurd hreply hreq
      | replied => exact .inl ⟨rfl, rfl⟩
  | awaitRequest => exact .inr rfl
  | working | exited =>
      simp only [Stage, hloc] at hstage
      omega

/-- It has a message to receive: HELLOs and then its `StartWebsockets`. -/
theorem Obeys.inbox_of_starting (h : p.Obeys conf c) (hs : p.Starting conf c) :
    ∃ hellos, p.subscriber.inbox =
      List.replicate hellos .helloSocket ++ [.startWebsockets conf.websocketRequest] := by
  obtain ⟨hellos, hin⟩ := h.follows.inbox_of_joined (h.joined hs.counted).1
  rw [hs.waiting, Controller.toProcesses_of_ne_nil hs.published, List.drop_zero] at hin
  exact ⟨hellos, hin⟩

/-- It can always act. -/
theorem Obeys.act_of_starting (h : p.Obeys conf c) (hsound : p.Sound) (hs : p.Starting conf c) :
    ∃ a, a.survives = true ∧ (p.act a).isSome = true := by
  rcases h.loc_of_starting hsound hs with ⟨hloc, hreply⟩ | hloc
  · exact ⟨.synced, rfl, by simp [act, hloc, hreply]⟩
  · obtain ⟨hellos, hin⟩ := h.inbox_of_starting hs
    cases hellos <;>
      exact ⟨.receive, rfl, by simp [act, hloc, Subscriber.receive, hin, List.replicate_succ]⟩

/-- Each of its actions brings it closer to its `StartWebsockets`. -/
theorem Obeys.change_of_starting (h : p.Obeys conf c) (hsound : p.Sound) (hs : p.Starting conf c)
    {a : Act} (hok : a.survives = true) (hact : p.Change a p') :
    p'.starts = 1 ∨ (p'.starts = 0 ∧ p'.lag < p.lag) := by
  have hzero := hs.waiting
  have houter := (h.joined hs.counted).1
  have hplace := h.loc_of_starting hsound hs
  have hmeet := h.inbox_of_starting hs
  cases hact with
  | subscribe hissued =>
      have := h.follows.subscribed houter
      rw [hissued] at this
      cases this
  | hello hloc => exact absurd hloc houter
  | @ignore m inbox hloc hin =>
      refine .inr ⟨hzero, ?_⟩
      obtain ⟨hellos, hin'⟩ := hmeet
      rcases hloc with ⟨hloc, -⟩ | ⟨hloc, hstart⟩
      · exact absurd hloc houter
      · cases hellos with
        | zero =>
            rw [hin, List.replicate_zero, List.nil_append, List.cons.injEq] at hin'
            exact absurd hin'.1 (hstart _)
        | succ hellos =>
            -- it ignores one of the HELLOs that the rank counts
            rw [hin, List.replicate_succ, List.cons_append, List.cons.injEq] at hin'
            simp [lag, hin, hin'.1]
  | start => exact .inl (by simp [hzero])
  | synced hloc => exact .inr ⟨hzero, by simp [lag, hloc]⟩
  | result hloc | exit hloc => simp [hloc] at hplace
  | die => cases hok

/-- Nobody else delays it. -/
theorem Obeys.moves_of_starting (hc : c.Single) (h : p.Obeys conf c) (hsound : p.Sound)
    (hs : p.Starting conf c) (hmoves : Moves [conf] (fun a => a.survives = true) c p c' p') :
    p'.starts = 1 ∨ (p'.starts = 0 ∧ p'.counted = 1 ∧ p'.lag ≤ p.lag) := by
  have hsame : p.starts = 1 ∨ (p.starts = 0 ∧ p.counted = 1 ∧ p.lag ≤ p.lag) :=
    .inr ⟨hs.waiting, hs.counted, Nat.le_refl _⟩
  cases hmoves with
  | @broadcast _ _ _ m hact =>
      -- a HELLO is not published after the `StartWebsockets`
      have hhello : m ≠ .helloSocket := fun hm =>
        hs.published ((Controller.scripts_act hc hact).2.2.2 (by rw [hm]))
      by_cases hexit : p.Exited
      · rw [deliver_of_exited hexit]
        exact hsame
      · rw [deliver_of_running hexit]
        refine .inr ⟨hs.waiting, hs.counted, ?_⟩
        unfold Subscriber.deliver lag
        split <;> simp [hhello]
  | served _ hreq =>
      have := hs.counted
      simp [counted, hreq] at this
  | drained | reaped => exact hsame
  | moved hok hact =>
      rcases h.change_of_starting hsound hs hok (change_of_act hact) with hone | ⟨hzero, hlt⟩
      · exact .inl hone
      · exact .inr ⟨hzero, (hsound.counted_of_act hact).trans hs.counted, hlt.le⟩
  | silent | countListener | countProcess | taken | still => exact hsame

end Process

/-! ## Fair executions -/

/-- The moves of listener `i`. -/
def Action.OfListener (i : Nat) (a : Action) : Prop := ∃ b, a = .listener i b

/-- The moves of process `j`. -/
def Action.OfProcess (j : Nat) (a : Action) : Prop := ∃ b, a = .process j b

section Fair

variable {conf : Config} {count : Nat} (ρ : (crashFree conf count).Execution)

/-- **A counted listener that keeps moving processes its `StartProcesses`.** -/
theorem listener_eventually_starts (hp : 0 ≤ conf.processes) {i : Nat}
    (hfair : ρ.Fair (Action.OfListener i)) {n : Nat} {l : Listener}
    (hl : (ρ.state n).listeners[i]? = some l)
    (hs : l.Starting conf (ρ.state n).controller) :
    ∃ m, n ≤ m ∧ ∃ l', (ρ.state m).listeners[i]? = some l' ∧ l'.starts = 1 := by
  refine ρ.eventually_of_rank hfair
    (P := fun s => ∃ l, s.listeners[i]? = some l ∧ l.Starting conf s.controller)
    (Q := fun s => ∃ l, s.listeners[i]? = some l ∧ l.starts = 1)
    (fun s => (s.listeners[i]?.map Listener.lag).getD 0) ?_ ?_ ⟨l, hl, hs⟩
  · -- it can always receive its reply or the next broadcast
    rintro s hreach ⟨l, hl, hs⟩ -
    have hobeys :=
      (State.Obeys.of_reachable hp hreach.of_restrict).listeners l (List.mem_of_getElem? hl)
    obtain ⟨a, ha⟩ := hobeys.act_of_starting hs
    obtain ⟨l', hact⟩ := Option.isSome_iff_exists.mp ha
    have hmove : s.step [conf] (.listener i a) =
        some { s.setListener i l' with processes := State.afterListener i s.processes a } :=
      State.step_listener.mpr ⟨l, l', hl, hact, rfl⟩
    have hstep : (crashFree conf count).step s (.listener i a) = some _ :=
      crashFree_step.mpr ⟨rfl, hmove⟩
    exact ⟨.listener i a, ⟨a, rfl⟩, by rw [hstep]; rfl⟩
  · rintro s a s' hreach ⟨l, hl, hs⟩ h
    obtain ⟨-, hstep⟩ := crashFree_step.mp h
    have hobeys := State.Obeys.of_reachable hp hreach.of_restrict
    have hobeysl := hobeys.listeners l (List.mem_of_getElem? hl)
    have hmove := State.controller_moves hstep
    have hpublished := (Controller.scripts_moves hobeys.single hmove).1.mpr (.inl hs.published)
    obtain ⟨l', hl', hmoves⟩ := State.listener_moves hstep i l hl
    rcases hobeysl.moves_of_starting hobeys.single hs hmoves with hone | ⟨hzero, hcounted, hle⟩
    · exact .inl ⟨l', hl', hone⟩
    · refine .inr ⟨⟨l', hl', hpublished, hcounted, hzero⟩, by simpa [hl, hl'] using hle, ?_⟩
      -- a move of its own: what the others do leaves the rank, this lowers it
      rintro ⟨b, rfl⟩
      obtain ⟨x, x', hx, hact, rfl⟩ := State.step_listener.mp hstep
      obtain rfl := Option.some.inj (hl.symm.trans hx)
      have hself := List.getElem?_set_self (a := x') (List.getElem?_eq_some_iff.mp hl).1
      obtain rfl : x' = l' := Option.some.inj (hself.symm.trans hl')
      rcases hobeysl.change_of_starting hs (Listener.change_of_act hact) with hone | ⟨-, hlt⟩
      · omega
      · simpa [hl, hl'] using hlt

/-- **A counted process that keeps moving processes its `StartWebsockets`.** -/
theorem process_eventually_starts (hm : 0 ≤ conf.machines) (hp : 0 ≤ conf.processes) {j : Nat}
    (hfair : ρ.Fair (Action.OfProcess j)) {n : Nat} {p : Process}
    (hp' : (ρ.state n).processes[j]? = some p)
    (hs : p.Starting conf (ρ.state n).controller) :
    ∃ m, n ≤ m ∧ ∃ p', (ρ.state m).processes[j]? = some p' ∧ p'.starts = 1 := by
  refine ρ.eventually_of_rank hfair
    (P := fun s => ∃ p, s.processes[j]? = some p ∧ p.Starting conf s.controller)
    (Q := fun s => ∃ p, s.processes[j]? = some p ∧ p.starts = 1)
    (fun s => (s.processes[j]?.map Process.lag).getD 0) ?_ ?_ ⟨p, hp', hs⟩
  · -- it can always receive its reply or the next broadcast
    rintro s hreach ⟨p, hat, hs⟩ -
    have hobeys := State.processes_obey hm hp hreach p (List.mem_of_getElem? hat)
    have hsound :=
      (State.Obeys.of_reachable hp hreach.of_restrict).processes p (List.mem_of_getElem? hat)
    obtain ⟨a, hok, ha⟩ := hobeys.act_of_starting hsound hs
    obtain ⟨p', hact⟩ := Option.isSome_iff_exists.mp ha
    have hmove : s.step [conf] (.process j a) = some (s.setProcess j p') :=
      State.step_process.mpr ⟨p, p', hat, hact, rfl⟩
    have hstep : (crashFree conf count).step s (.process j a) = some _ :=
      crashFree_step.mpr ⟨hok, hmove⟩
    exact ⟨.process j a, ⟨a, rfl⟩, by rw [hstep]; rfl⟩
  · rintro s a s' hreach ⟨p, hat, hs⟩ h
    obtain ⟨hfree, hstep⟩ := crashFree_step.mp h
    have hparties := State.Obeys.of_reachable hp hreach.of_restrict
    have hsound := hparties.processes p (List.mem_of_getElem? hat)
    have hobeys := State.processes_obey hm hp hreach p (List.mem_of_getElem? hat)
    have hmove := State.controller_moves hstep
    have hpublished := (Controller.scripts_moves hparties.single hmove).2.mpr (.inl hs.published)
    have hok : ∀ k b, a = .process k b → b.survives = true := by
      rintro k b rfl
      exact hfree
    obtain ⟨p', hat', hmoves⟩ :=
      State.process_moves (A := fun b => b.survives = true) hstep hok j p hat
    rcases hobeys.moves_of_starting hparties.single hsound hs hmoves with
      hone | ⟨hzero, hcounted, hle⟩
    · exact .inl ⟨p', hat', hone⟩
    · refine .inr ⟨⟨p', hat', hpublished, hcounted, hzero⟩, by simpa [hat, hat'] using hle, ?_⟩
      -- a move of its own: what the others do leaves the rank, this lowers it
      rintro ⟨b, rfl⟩
      obtain ⟨x, x', hx, hact, rfl⟩ := State.step_process.mp hstep
      obtain rfl := Option.some.inj (hat.symm.trans hx)
      have hself := List.getElem?_set_self (a := x') (List.getElem?_eq_some_iff.mp hat).1
      obtain rfl : x' = p' := Option.some.inj (hself.symm.trans hat')
      rcases hobeys.change_of_starting hsound hs hfree (Process.change_of_act hact) with
        hone | ⟨-, hlt⟩
      · omega
      · simpa [hat, hat'] using hlt

end Fair

/-- **The two start barriers lose no start request.** In every run of one iteration without crashes
and with any number of listeners: once `StartProcesses` has been published, `machines` listeners
have been counted, each after one request, and exactly these have the message in front of them or
have processed it; once `StartWebsockets` has been published, the same holds of `machines *
processes` processes. In every execution, a counted party that keeps moving when it can does process
its message. -/
theorem start_barriers_lose_nothing {conf : Config} {count : Nat} (hm : 0 ≤ conf.machines)
    (hp : 0 ≤ conf.processes) :
    (∀ run s, (crashFree conf count).exec (crashFree conf count).init run = some s →
      (.controller .startProcesses ∈ run → s.ListenersStarted conf) ∧
      (.controller .startWebsockets ∈ run → s.ProcessesStarted conf)) ∧
    ∀ (ρ : (crashFree conf count).Execution) (n : Nat),
      (ρ.label n = some (.controller .startProcesses) → ∀ i l,
        (ρ.state (n + 1)).listeners[i]? = some l → l.counted = 1 →
        ρ.Fair (Action.OfListener i) →
        ∃ m, n < m ∧ ∃ l', (ρ.state m).listeners[i]? = some l' ∧ l'.starts = 1) ∧
      (ρ.label n = some (.controller .startWebsockets) → ∀ j p,
        (ρ.state (n + 1)).processes[j]? = some p → ρ.Fair (Action.OfProcess j) →
        ∃ m, n < m ∧ ∃ p', (ρ.state m).processes[j]? = some p' ∧ p'.starts = 1) := by
  refine ⟨fun run s hrun => ?_, fun ρ n => ⟨fun hlabel i l hl hcounted hfair => ?_,
    fun hlabel j p hat hfair => ?_⟩⟩
  · have hfree : (coordination [conf] count).exec (coordination [conf] count).init run = some s :=
      exec_of_restrict _ hrun
    obtain ⟨hlisteners, hprocesses⟩ := State.published_iff hp hfree
    have hreach := reachable_of_exec _ hfree
    exact ⟨fun hmem => State.listenersStarted hm hp hreach (hlisteners.mp hmem),
      fun hmem => State.processesStarted hm hp (reachable_of_exec _ hrun) (hprocesses.mp hmem)⟩
  · have hstep := crashFree_step.mp (ρ.step_of_label hlabel)
    have hsingle := (State.Obeys.of_reachable hp (ρ.reachable n).of_restrict).single
    have hmove := State.controller_moves hstep.2
    have hpublished := (Controller.scripts_moves hsingle hmove).1.mpr (.inr rfl)
    by_cases hstarts : l.starts = 0
    · exact listener_eventually_starts ρ hp hfair hl ⟨hpublished, hcounted, hstarts⟩
    · have hle := ((State.Obeys.of_reachable hp (ρ.reachable (n + 1)).of_restrict).listeners l
        (List.mem_of_getElem? hl)).starts_le
      exact ⟨n + 1, by omega, l, hl, by omega⟩
  · have hstep := crashFree_step.mp (ρ.step_of_label hlabel)
    have hsingle := (State.Obeys.of_reachable hp (ρ.reachable n).of_restrict).single
    have hmove := State.controller_moves hstep.2
    have hpublished := (Controller.scripts_moves hsingle hmove).2.mpr (.inr rfl)
    have hstarted := State.processesStarted hm hp (ρ.reachable (n + 1)) hpublished
    have hcounted := (hstarted.counted p (List.mem_of_getElem? hat)).1
    by_cases hstarts : p.starts = 0
    · exact process_eventually_starts ρ hm hp hfair hat ⟨hpublished, hcounted, hstarts⟩
    · have hobeys := State.processes_obey hm hp (ρ.reachable (n + 1)) p (List.mem_of_getElem? hat)
      have hle := hobeys.starts_le
      exact ⟨n + 1, by omega, p, hat, by omega⟩

/-- One listener and one process go through both barriers. -/
theorem start_barriers_lose_nothing_solo :
    ∃ s, (crashFree .solo 1).exec (crashFree .solo 1).init soloRun = some s ∧
      s.ListenersStarted .solo ∧ s.ProcessesStarted .solo := by
  obtain ⟨s, hs, -⟩ := (crashFree .solo 1).exists_of_exec_any soloRun (fun _ => true) (by decide)
  obtain ⟨hlisteners, hprocesses⟩ :=
    (start_barriers_lose_nothing (by decide) (by decide)).1 soloRun s hs
  exact ⟨s, hs, hlisteners (by decide), hprocesses (by decide)⟩

end WsPerftester
