import WsPerftester.Coordination.Families

/-! # Whoever has been counted is called

A counted listener that has not started its first round has its `StartProcesses` in its socket from
the end of its barrier on (`Listener.Called`), and so has a counted process its `StartWebsockets`
(`Process.Called`), in whichever iteration they were counted. The `StartProcesses` a listener starts
with need not be that of the iteration it is counted in: one that answered a HELLO of an earlier
iteration has kept what was published since. As long as no iteration asks for more processes than
the ones before, the first rounds of the counted listeners are nevertheless enough for every barrier
passed so far (`pledged_le`). -/

namespace WsPerftester

open TransitionSystem Population

/-! ## Listeners -/

/-- The children a `StartProcesses` calls for. -/
def Broadcast.call : Broadcast → Option Nat
  | .startProcesses n => some n.toNat
  | .helloListener | .helloSocket | .startWebsockets _ | .theEnd => none

namespace Listener

/-- The first call in the socket of a listener. -/
def firstCall (l : Listener) : Option Nat := l.subscriber.inbox.findSome? Broadcast.call

/-- Children of the present round, launched or not, that have not been reported. -/
def present (l : Listener) : Nat :=
  match l.loc with
  | .launching processes _ => processes.toNat
  | .reaping unfinished => unfinished.toNat
  | .awaitHello | .awaitSync | .awaitRequest | .terminated => 0

/-- Children of the rounds started so far, or of the first round to come; `n` of them when it has
not been called yet. -/
def pledge (n : Nat) (l : Listener) : Nat :=
  if l.starts = 0 then l.firstCall.getD n else l.reported + l.present

/-- A counted listener that has not started anything has been called, once the barrier that counted
it has been passed. -/
def Called (c : Controller) (l : Listener) : Prop :=
  l.counted = 1 → l.starts = 0 → (∃ n, c.loc = .syncListeners n) ∨ l.firstCall ≠ none

/-- No call in the socket asks for fewer children than the present iteration has. -/
def Ample (confs : List Config) (c : Controller) (l : Listener) : Prop :=
  ∀ m ∈ l.subscriber.inbox, ∀ n, m.call = some n → childrenOf confs c.iteration ≤ n

variable {confs : List Config} {c c' : Controller} {l l' : Listener}

/-- A listener is counted or not. -/
theorem counted_cases (l : Listener) : l.counted = 0 ∨ l.counted = 1 := by
  unfold counted
  split
  · exact .inl rfl
  · exact .inr rfl

/-- Publishing starts nobody. -/
theorem starts_deliver (l : Listener) (m : Broadcast) : (l.deliver m).starts = l.starts := by
  unfold deliver
  split <;> rfl

/-- What is published is called last, if it is delivered at all. -/
theorem firstCall_deliver (l : Listener) (m : Broadcast) :
    (l.deliver m).firstCall = l.firstCall ∨
      (l.deliver m).firstCall = l.firstCall.or m.call := by
  unfold deliver Subscriber.deliver firstCall
  split
  · exact .inl rfl
  · split
    · right
      simp [List.findSome?_append, List.findSome?_cons]
      cases m.call <;> rfl
    · exact .inl rfl

/-- A call is not lost by what is published behind it. -/
theorem firstCall_deliver_ne_none (h : l.firstCall ≠ none) (m : Broadcast) :
    (l.deliver m).firstCall ≠ none := by
  rcases l.firstCall_deliver m with hsame | hor
  · rwa [hsame]
  · rw [hor]
    exact fun hnone => h (Option.or_eq_none_iff.mp hnone).1

/-- A call for as many children as are pledged anyway, or none, changes no pledge. -/
theorem pledge_deliver {n : Nat} (l : Listener) {m : Broadcast}
    (hm : m.call = none ∨ m.call = some n) : (l.deliver m).pledge n = l.pledge n := by
  have hpresent : (l.deliver m).present = l.present := by rw [present, present, loc_deliver]
  have hfirst : (l.deliver m).firstCall.getD n = l.firstCall.getD n := by
    rcases l.firstCall_deliver m with hsame | hor
    · rw [hsame]
    · rw [hor]
      rcases hm with hm | hm <;> cases l.firstCall <;> simp [hm]
  rw [pledge, pledge, starts_deliver, hfirst, (deliver_keeps l m).2, hpresent]

/-- **A `StartProcesses` calls every listener** that has left its outer loop. -/
theorem Sound.firstCall_startProcesses (h : l.Sound) (hloc : l.loc ≠ .awaitHello)
    (hterm : l.loc ≠ .terminated) (n : Int) : (l.deliver (.startProcesses n)).firstCall ≠ none := by
  rw [Listener.deliver, if_neg hterm, firstCall, h.inOrder.deliver_of_issued (h.joined hloc)]
  simp [order, Broadcast.command, Broadcast.call, List.findSome?_append]

/-- What a listener receives besides `StartProcesses` is no call. -/
theorem firstCall_of_inbox {m : Broadcast} {inbox : List Broadcast}
    (hin : l.subscriber.inbox = m :: inbox) (hm : m.call = none) :
    l.firstCall = inbox.findSome? Broadcast.call := by
  rw [firstCall, hin, List.findSome?_cons, hm]

/-- The broadcasts the inner loop ignores are no calls. -/
theorem call_of_ignored {m : Broadcast} (h : ∀ n, m ≠ .startProcesses n) : m.call = none := by
  cases m with
  | startProcesses n => exact absurd rfl (h n)
  | helloListener | helloSocket | startWebsockets | theEnd => rfl

/-- A listener leaves its call in its socket until it starts its round. -/
theorem Called.change {a : Act} (h : l.Called c) (hact : l.act a = some l') : l'.Called c := by
  intro hcounted hstarts
  rw [counted_of_act hact] at hcounted
  have hinside : l.loc ≠ .awaitHello := fun hloc => by simp [counted, hloc] at hcounted
  cases change_of_act hact with
  | hello hloc => exact absurd hloc hinside
  | start => cases hstarts
  | ignore hloc hin =>
      obtain ⟨-, -, hm⟩ := hloc.resolve_left fun h => hinside h.1
      have hcalled := h hcounted hstarts
      rwa [firstCall_of_inbox hin (call_of_ignored hm)] at hcalled
  | theEnd hloc hin =>
      have hcalled := h hcounted hstarts
      rwa [firstCall_of_inbox hin rfl] at hcalled
  | subscribe | running | synced | launch | launched | error | child | allReaped =>
      exact h hcounted hstarts

/-- **Every counted listener is called.** -/
theorem Called.moves (h : l.Called c) (hsound : l.Sound) (hend : l.EndsLast c)
    (hmoves : Moves confs c l c' l') : l'.Called c' := by
  -- outside the listener barrier the call is there already
  have hcalled : (∀ n, c.loc ≠ .syncListeners n) → l.counted = 1 → l.starts = 0 →
      l.firstCall ≠ none := fun hloc hcounted hstarts =>
    (h hcounted hstarts).resolve_left (not_exists.mpr hloc)
  cases hmoves with
  | broadcast hact =>
      intro hcounted hstarts
      rw [counted_deliver] at hcounted
      rw [starts_deliver] at hstarts
      cases Controller.change_of_act hact with
      | helloListener hloc => exact .inl ⟨_, hloc⟩
      | startProcesses hloc =>
          have hinside : l.loc ≠ .awaitHello := fun hloc => by simp [counted, hloc] at hcounted
          have hterm : l.loc ≠ .terminated := fun hterm => by
            have hended := hend (.inr hterm)
            rw [hloc] at hended
            cases hended
          exact .inr (hsound.firstCall_startProcesses hinside hterm _)
      | theEnd hloc | helloSocket hloc | startWebsockets hloc =>
          exact .inr (firstCall_deliver_ne_none
            (hcalled (by simp [hloc]) hcounted hstarts) _)
  | silent hact =>
      cases Controller.change_of_act hact with
      | enter => exact fun _ _ => .inl ⟨0, rfl⟩
      | finish hloc =>
          exact fun hcounted hstarts => .inr (hcalled (by simp [hloc]) hcounted hstarts)
  | served hcount | countListener hcount =>
      obtain ⟨n, conf, -, -, -, rfl⟩ := Controller.countListener_eq_some hcount
      exact fun _ _ => .inl ⟨n + 1, rfl⟩
  | countProcess hcount =>
      obtain ⟨n, conf, hloc, -⟩ := Controller.countProcess_eq_some hcount
      exact fun hcounted hstarts => .inr (hcalled (by simp [hloc]) hcounted hstarts)
  | drained htake | taken htake =>
      obtain ⟨counters, conf, hloc, -⟩ := Controller.take_eq_some htake
      exact fun hcounted hstarts => .inr (hcalled (by simp [hloc]) hcounted hstarts)
  | moved hact => exact h.change hact
  | still => exact h

/-- What a listener receives is in its socket no more. -/
theorem Ample.tail {m : Broadcast} {inbox : List Broadcast} (h : l.Ample confs c)
    (hin : l.subscriber.inbox = m :: inbox) :
    ∀ b ∈ inbox, ∀ n, b.call = some n → childrenOf confs c.iteration ≤ n :=
  fun b hb => h b (by rw [hin]; exact List.mem_cons_of_mem m hb)

/-- **Every call is for children enough**, when no iteration asks for more than the one before. -/
theorem Ample.moves (hfewer : ∀ j, childrenOf confs (j + 1) ≤ childrenOf confs j)
    (h : l.Ample confs c) (hmoves : Moves confs c l c' l') : l'.Ample confs c' := by
  cases hmoves with
  | broadcast hact =>
      rename_i m
      have hsame : c'.iteration = c.iteration := by
        cases Controller.change_of_act hact <;> rfl
      have hnew : ∀ n, m.call = some n → childrenOf confs c.iteration ≤ n := by
        intro n hn
        cases Controller.change_of_act hact with
        | startProcesses _ hconf =>
            cases hn
            rw [childrenOf, hconf]
            exact Nat.le_refl _
        | theEnd | helloListener | helloSocket | startWebsockets => cases hn
      intro b hb n hn
      rw [hsame]
      unfold deliver Subscriber.deliver at hb
      split at hb
      · exact h b hb n hn
      · split at hb
        · rcases List.mem_append.mp hb with hb | hb
          · exact h b hb n hn
          · exact hnew n (List.mem_singleton.mp hb ▸ hn)
        · exact h b hb n hn
  | silent hact =>
      cases Controller.change_of_act hact with
      | enter => exact h
      | finish => exact fun b hb n hn => le_trans (hfewer c.iteration) (h b hb n hn)
  | served hcount | countListener hcount =>
      obtain ⟨n, conf, -, -, -, rfl⟩ := Controller.countListener_eq_some hcount
      exact h
  | countProcess hcount =>
      obtain ⟨n, conf, -, -, -, rfl⟩ := Controller.countProcess_eq_some hcount
      exact h
  | drained htake | taken htake =>
      obtain ⟨counters, conf, -, -, -, rfl⟩ := Controller.take_eq_some htake
      exact h
  | moved hact =>
      cases change_of_act hact with
      | hello _ hin | ignore _ hin | theEnd _ hin | start _ hin => exact h.tail hin
      | subscribe | synced | launch | launched | running | error | child | allReaped => exact h
  | still => exact h

/-- What a listener pledges depends on its first call and its present round only. -/
theorem pledge_le_pledge {n : Nat} (hstarts : l'.starts = l.starts)
    (hcall : l'.firstCall = l.firstCall)
    (hround : l.reported + l.present ≤ l'.reported + l'.present) : l.pledge n ≤ l'.pledge n := by
  rw [pledge, pledge, hstarts, hcall]
  split
  · exact Nat.le_refl _
  · exact hround

/-- What a counted listener does breaks no pledge. -/
theorem pledge_of_act (n : Nat) (hcounted : l.counted = 1) {a : Act} (hact : l.act a = some l') :
    l.pledge n ≤ l'.pledge n := by
  have hinside : l.loc ≠ .awaitHello := fun hloc => by simp [counted, hloc] at hcounted
  cases change_of_act hact with
  | hello hloc => exact absurd hloc hinside
  | subscribe | running => exact Nat.le_refl _
  | ignore hloc hin =>
      obtain ⟨-, -, hm⟩ := hloc.resolve_left fun h => hinside h.1
      exact pledge_le_pledge rfl (firstCall_of_inbox hin (call_of_ignored hm)).symm (Nat.le_refl _)
  | theEnd hloc hin =>
      exact pledge_le_pledge rfl (firstCall_of_inbox hin rfl).symm (by simp [present, hloc])
  | start hloc hin =>
      -- the call at the head of the socket becomes the present round
      simp only [pledge, firstCall, hin, List.findSome?_cons, Broadcast.call, Option.getD_some,
        present, hloc, Nat.add_eq_zero_iff, Nat.one_ne_zero, and_false, if_false]
      split <;> omega
  | synced hloc | launch hloc | launched hloc =>
      exact pledge_le_pledge rfl rfl (by simp [present, hloc])
  | error hloc hmore | child hloc hmore =>
      -- a report leaves what is reported and what is not the same in all
      refine pledge_le_pledge rfl rfl ?_
      simp only [present, hloc, reported_report, loc_report]
      omega
  | allReaped hloc hdone =>
      refine pledge_le_pledge rfl rfl ?_
      simp only [present, hloc]
      omega

end Listener

namespace Controller

variable {confs : List Config} {c c' : Controller}

/-- Children the barriers passed so far count on: those of the listeners counted so far. -/
def pledged (confs : List Config) (c : Controller) : Nat :=
  (∑ j ∈ Finset.range c.iteration, expectedOf confs j) +
    match c.loc with
    | .syncListeners n => n * childrenOf confs c.iteration
    | .syncProcesses _ | .collect _ => expectedOf confs c.iteration
    | .iterate | .ended => 0

/-- What an iteration expects is its quota of listeners with its number of children each. -/
theorem expectedOf_eq (hconfs : ∀ conf ∈ confs, 0 ≤ conf.machines ∧ 0 ≤ conf.processes) {j : Nat}
    {conf : Config} (hconf : confs[j]? = some conf) :
    expectedOf confs j = conf.quota * childrenOf confs j := by
  obtain ⟨hm, hp⟩ := hconfs conf (List.mem_of_getElem? hconf)
  simp only [expectedOf, childrenOf, hconf, Option.map_some, Option.getD_some]
  exact (Config.quota_mul_processes hm hp).symm

/-- No action of the controller on its own changes what it counts on; it calls for the children of
its iteration, and enters another one only behind its barriers. -/
theorem pledged_act (hconfs : ∀ conf ∈ confs, 0 ≤ conf.machines ∧ 0 ≤ conf.processes)
    (h : c.WithinBounds confs) {a : Act} {m : Option Broadcast}
    (hact : c.act confs a = some (c', m)) :
    c'.pledged confs = c.pledged confs ∧
      (∀ b, m = some b → b.call = none ∨ b.call = some (childrenOf confs c.iteration)) ∧
      (c'.iteration = c.iteration ∨ (m = none ∧ ∀ n, c.loc ≠ .syncListeners n)) := by
  cases change_of_act hact with
  | helloListener | helloSocket => exact ⟨rfl, by rintro _ ⟨⟩; exact .inl rfl, .inl rfl⟩
  | enter hloc => exact ⟨by simp [pledged, goto, hloc], by simp, .inl rfl⟩
  | theEnd hloc | startWebsockets hloc =>
      exact ⟨by simp [pledged, goto, hloc], by rintro _ ⟨⟩; exact .inl rfl, .inl rfl⟩
  | startProcesses hloc hconf hdone =>
      -- the barrier was left with its counter exactly at `machines`
      have hle := h _ hconf
      simp only [hloc, Config.quota] at hle
      refine ⟨?_, ?_, .inl rfl⟩
      · simp only [pledged, goto, hloc, expectedOf_eq hconfs hconf, Config.quota]
        congr 2
        omega
      · rintro _ ⟨⟩
        exact .inr (by rw [Broadcast.call, childrenOf, hconf]; rfl)
  | finish hloc =>
      refine ⟨by simp [pledged, hloc, Finset.sum_range_succ], by simp, .inr ⟨rfl, by simp [hloc]⟩⟩

end Controller

/-- What holds of every listener when no iteration asks for more processes than the ones before. -/
structure Listener.Pledges (confs : List Config) (c : Controller) (l : Listener) : Prop where
  sound : l.Sound
  paced : l.Paced
  endsLast : l.EndsLast c
  called : l.Called c
  ample : l.Ample confs c

/-- It holds of every listener in every run. -/
theorem pledges_of_reachable {confs : List Config} {count : Nat} {s : State}
    (hfewer : ∀ j, childrenOf confs (j + 1) ≤ childrenOf confs j)
    (hs : (coordination confs count).Reachable s) :
    ∀ l ∈ s.listeners, l.Pledges confs s.controller := by
  refine hs.invariant (P := fun s => ∀ l ∈ s.listeners, l.Pledges confs s.controller) ?_ ?_
  · intro l hl
    rw [List.eq_of_mem_replicate hl]
    refine ⟨.start, ⟨fun _ => rfl, by simp, by simp⟩, ?_, ?_, ?_⟩
    · rintro (h | h) <;> cases h
    · intro hcounted
      cases hcounted
    · intro m hm
      cases hm
  · intro s a s' hinv h
    exact State.forall_listeners h (fun _ _ hl hmoves => ⟨hl.sound.moves hmoves,
      hl.paced.moves hmoves, hl.endsLast.moves hmoves,
      hl.called.moves hl.sound hl.endsLast hmoves, hl.ample.moves hfewer hmoves⟩) hinv

/-- **The pledges are enough.** When no iteration asks for more processes than the ones before, the
counted listeners launch, or are called to launch in their first rounds, as many children as the
barriers of all iterations so far count on. -/
theorem pledged_le {confs : List Config} {count : Nat} {s : State}
    (hconfs : ∀ conf ∈ confs, 0 ≤ conf.machines ∧ 0 ≤ conf.processes)
    (hfewer : ∀ j, childrenOf confs (j + 1) ≤ childrenOf confs j)
    (hs : (coordination confs count).Reachable s) :
    s.controller.pledged confs ≤
      total (fun l => l.counted * l.pledge (childrenOf confs s.controller.iteration))
        s.listeners := by
  refine hs.invariant_of (P := fun s => s.controller.pledged confs ≤
      total (fun l => l.counted * l.pledge (childrenOf confs s.controller.iteration)) s.listeners)
    (fun _ hs => And.intro (BarrierInv.of_reachable hs).bounds (pledges_of_reachable hfewer hs))
    ?_ ?_
  · simp [coordination, Controller.pledged]
  intro s a s' hinv hle hstep
  obtain ⟨hbounds, hpledges⟩ := hinv
  have h : s.step confs a = some s' := hstep
  cases a with
  | controller a =>
      obtain ⟨c, m, hact, rfl⟩ := State.step_controller.mp h
      obtain ⟨hsame, hcall, hiteration⟩ := Controller.pledged_act hconfs hbounds hact
      rw [State.controller_controllerStep, hsame]
      refine le_trans hle (Nat.le_of_eq ?_)
      rcases hiteration with hiteration | ⟨rfl, hloc⟩
      · rw [hiteration]
        cases m with
        | none => rfl
        | some b =>
            rw [State.controllerStep, State.publish, total_map]
            refine total_congr fun l _ => ?_
            rw [Listener.counted_deliver, l.pledge_deliver (hcall b rfl)]
      · -- behind its barriers everybody counted has been called
        refine total_congr fun l hl => ?_
        rcases l.counted_cases with hcounted | hcounted
        · rw [hcounted, Nat.zero_mul, Nat.zero_mul]
        · congr 1
          unfold Listener.pledge
          split
          · next hstarts =>
              obtain ⟨n, hn⟩ := Option.ne_none_iff_exists'.mp
                (((hpledges l hl).called hcounted hstarts).resolve_left (not_exists.mpr hloc))
              rw [hn, Option.getD_some, Option.getD_some]
          · rfl
  | serveListener i =>
      obtain ⟨l, c, hl, hc, hreq, rfl⟩ := State.step_serveListener.mp h
      obtain ⟨n, conf, hloc, -, -, rfl⟩ := Controller.countListener_eq_some hc
      have hl' := hpledges l (List.mem_of_getElem? hl)
      have hwait : l.loc = .awaitSync := hl'.sound.sync.mp (by simp [hreq])
      have hset := total_set
        (fun l => l.counted * l.pledge (childrenOf confs s.controller.iteration))
        { l with syncclient := .replied } hl
      have hbefore : l.counted = 0 := by simp [Listener.counted, hreq]
      have hafter : Listener.counted { l with syncclient := .replied } = 1 := by
        simp [Listener.counted, hwait]
      -- the listener that is counted is called for children enough, if it has been called
      have hnew : childrenOf confs s.controller.iteration ≤
          Listener.pledge (childrenOf confs s.controller.iteration)
            { l with syncclient := .replied } := by
        rw [Listener.pledge, if_pos (hl'.paced.idle (.inr hwait))]
        cases hcall : Listener.firstCall { l with syncclient := .replied } with
        | none => exact Nat.le_refl _
        | some k =>
            obtain ⟨b, hb, hk⟩ := List.exists_of_findSome?_eq_some hcall
            exact hl'.ample b hb k hk
      simp only [hbefore, hafter, Nat.zero_mul, Nat.one_mul] at hset
      simp only [Controller.pledged, hloc] at hle
      simp only [State.setListener, Controller.pledged, Controller.goto, Nat.add_mul, Nat.one_mul]
      omega
  | serveProcess j =>
      obtain ⟨p, c, -, hc, -, rfl⟩ := State.step_serveProcess.mp h
      obtain ⟨n, conf, hloc, -, -, rfl⟩ := Controller.countProcess_eq_some hc
      simpa [State.setProcess, Controller.pledged, Controller.goto, hloc] using hle
  | takeListener i =>
      obtain ⟨l, m, sink, c, hl, -, hc, rfl⟩ := State.step_takeListener.mp h
      obtain ⟨counters, conf, hloc, -, -, rfl⟩ := Controller.take_eq_some hc
      have hset := total_set_of_eq
        (f := fun l => l.counted * l.pledge (childrenOf confs s.controller.iteration))
        (y := { l with sink := sink }) hl rfl
      simpa [State.setListener, Controller.pledged, Controller.goto, hloc, hset] using hle
  | takeProcess j =>
      obtain ⟨p, m, sink, c, -, -, hc, rfl⟩ := State.step_takeProcess.mp h
      obtain ⟨counters, conf, hloc, -, -, rfl⟩ := Controller.take_eq_some hc
      simpa [State.setProcess, Controller.pledged, Controller.goto, hloc] using hle
  | listener i a =>
      obtain ⟨l, l', hl, hact, rfl⟩ := State.step_listener.mp h
      have hset := total_set
        (fun l => l.counted * l.pledge (childrenOf confs s.controller.iteration)) l' hl
      have hkept : l.counted * l.pledge (childrenOf confs s.controller.iteration) ≤
          l'.counted * l'.pledge (childrenOf confs s.controller.iteration) := by
        rw [Listener.counted_of_act hact]
        rcases l.counted_cases with hcounted | hcounted
        · rw [hcounted, Nat.zero_mul]
          exact Nat.zero_le _
        · exact Nat.mul_le_mul_left _ (Listener.pledge_of_act _ hcounted hact)
      show s.controller.pledged confs ≤
        total (fun l => l.counted * l.pledge (childrenOf confs s.controller.iteration))
          (s.listeners.set i l')
      omega
  | process j a =>
      obtain ⟨p, p', -, -, rfl⟩ := State.step_process.mp h
      exact hle

/-! ## Processes -/

namespace Process

/-- A counted process in front of its `StartWebsockets` has it in its socket, once the barrier that
counted it has been passed. -/
def Called (c : Controller) (p : Process) : Prop :=
  p.counted = 1 → p.loc = .awaitSync ∨ p.loc = .awaitRequest →
    (∃ n, c.loc = .syncProcesses n) ∨ ∃ request, .startWebsockets request ∈ p.subscriber.inbox

variable {confs : List Config} {c c' : Controller} {p p' : Process}

/-- Publishing moves nobody. -/
theorem loc_deliver (p : Process) (m : Broadcast) : (p.deliver m).loc = p.loc := by
  obtain ⟨s, hs⟩ := deliver_eq p m
  rw [hs]

/-- What is in a socket stays there when something is published. -/
theorem mem_deliver {b : Broadcast} (h : b ∈ p.subscriber.inbox) (m : Broadcast) :
    b ∈ (p.deliver m).subscriber.inbox := by
  by_cases hexit : p.Exited
  · rwa [deliver_of_exited hexit]
  · rw [deliver_of_running hexit]
    unfold Subscriber.deliver
    split
    · exact List.mem_append_left _ h
    · exact h

/-- A process leaves its `StartWebsockets` in its socket until it starts to work. -/
theorem Called.change (h : p.Called c) (hsound : p.Sound) {a : Act} (hact : p.act a = some p') :
    p'.Called c := by
  intro hcounted hplace
  have hbefore := hsound.counted_of_act hact
  cases change_of_act hact with
  | subscribe => exact h hcounted hplace
  | hello => simp [counted] at hcounted
  | ignore hloc hin =>
      obtain ⟨-, hm⟩ := hloc.resolve_left fun hloc => by simp [hloc.1] at hplace
      rcases h hcounted hplace with hbarrier | ⟨request, hmem⟩
      · exact .inl hbarrier
      · rw [hin, List.mem_cons] at hmem
        exact .inr ⟨request, hmem.resolve_left (Ne.symm (hm request))⟩
  | synced hloc => exact h (hbefore ▸ hcounted) (.inl hloc)
  | start | result | exit | die => simp at hplace

/-- **Every counted process is called.** -/
theorem Called.moves {ok : Act → Prop} (h : p.Called c) (hsound : p.Sound)
    (hsubscribed : p.Subscribed) (hmoves : Moves confs ok c p c' p') : p'.Called c' := by
  -- outside the process barrier the `StartWebsockets` is there already
  have hcalled : (∀ n, c.loc ≠ .syncProcesses n) → p.counted = 1 →
      p.loc = .awaitSync ∨ p.loc = .awaitRequest →
      ∃ request, .startWebsockets request ∈ p.subscriber.inbox := fun hloc hcounted hplace =>
    (h hcounted hplace).resolve_left (not_exists.mpr hloc)
  cases hmoves with
  | broadcast hact =>
      intro hcounted hplace
      rw [counted_deliver] at hcounted
      rw [loc_deliver] at hplace
      cases Controller.change_of_act hact with
      | helloSocket hloc => exact .inl ⟨_, hloc⟩
      | @startWebsockets conf =>
          have hlive : ¬ p.Exited := by
            rintro ⟨status, hstatus⟩
            simp [hstatus] at hplace
          have hissued := hsubscribed.joined (fun hloc => by simp [hloc] at hplace) hlive
          refine .inr ⟨conf.websocketRequest, ?_⟩
          rw [deliver_of_running hlive, hsubscribed.inOrder.deliver_of_issued hissued]
          simp [order, Broadcast.command]
      | theEnd hloc | helloListener hloc | startProcesses hloc =>
          obtain ⟨request, hmem⟩ := hcalled (by simp [hloc]) hcounted hplace
          exact .inr ⟨request, mem_deliver hmem _⟩
  | silent hact =>
      cases Controller.change_of_act hact with
      | enter hloc | finish hloc =>
          exact fun hcounted hplace => .inr (hcalled (by simp [hloc]) hcounted hplace)
  | served hcount | countProcess hcount =>
      obtain ⟨n, conf, -, -, -, rfl⟩ := Controller.countProcess_eq_some hcount
      exact fun _ _ => .inl ⟨n + 1, rfl⟩
  | countListener hcount =>
      obtain ⟨n, conf, hloc, -⟩ := Controller.countListener_eq_some hcount
      exact fun hcounted hplace => .inr (hcalled (by simp [hloc]) hcounted hplace)
  | drained htake | taken htake =>
      obtain ⟨counters, conf, hloc, -⟩ := Controller.take_eq_some htake
      exact fun hcounted hplace => .inr (hcalled (by simp [hloc]) hcounted hplace)
  | reaped | still => exact h
  | moved _ hact => exact h.change hsound hact

end Process

/-- Every counted process is called in every run. -/
theorem called_of_reachable {confs : List Config} {count : Nat} {s : State}
    (hs : (coordination confs count).Reachable s) : ∀ p ∈ s.processes, p.Called s.controller := by
  refine hs.invariant_of (P := fun s => ∀ p ∈ s.processes, p.Called s.controller)
    (Q := fun s => ∀ p ∈ s.processes, p.Sound ∧ p.Subscribed)
    (fun _ hs p hp => ⟨sound_of_reachable hs p hp, subscribed_of_reachable hs p hp⟩)
    (by simp [coordination]) ?_
  intro s a s' hparties hinv h
  have hboth : ∀ p ∈ s.processes, (p.Sound ∧ p.Subscribed) ∧ p.Called s.controller :=
    fun p hp => ⟨hparties p hp, hinv p hp⟩
  exact State.forall_processes (A := fun _ => True) h (fun _ _ _ => trivial)
    (fun _ _ hcounted => Nat.noConfusion hcounted)
    (fun _ _ hp hmoves => hp.2.moves hp.1.1 hp.1.2 hmoves) hboth

end WsPerftester
