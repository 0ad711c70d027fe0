import WsPerftester.Coordination.Deaths

/-! # The listener barrier is passed

Fair executions in which `waitpid` keeps its promise and children may be killed (`FairToAll`). What
they grant a process are its moves in `main`: `doTheWork` may take for ever. A party is measured by
how far it is from being counted (`distance`), past whatever earlier iterations have left in its
socket: nobody's step takes anybody farther away, and in every state one party can take a step that
brings somebody closer. So the listener barrier of an iteration is passed if there are listeners
enough for all iterations so far (`listener_barrier_passed`). -/

namespace WsPerftester

open TransitionSystem Population

/-! ## Who is expected to move -/

/-- The parties of a run, and the pairs of a party and the controller that exchange a message. -/
inductive Party
  | controller
  | listener (i : Nat)
  | process (j : Nat)
  | serveListener (i : Nat)
  | serveProcess (j : Nat)
  | takeListener (i : Nat)
  | takeProcess (j : Nat)
  deriving DecidableEq, Repr

/-- What a process does in `main`, or the network for it. `doTheWork`, which waits for the servers,
is not asked to return, and nobody is obliged to be killed. -/
def Process.Act.ofMain : Process.Act → Bool
  | .subscribe | .receive | .synced => true
  | .result _ | .exit | .die _ => false

/-- The moves a fair execution grants a party. -/
def Party.Moves : Party → Action → Prop
  | .controller, a => ∃ b, a = .controller b
  | .listener i, a => ∃ b, a = .listener i b
  | .process j, a => ∃ b, b.ofMain = true ∧ a = .process j b
  | .serveListener i, a => a = .serveListener i
  | .serveProcess j, a => a = .serveProcess j
  | .takeListener i, a => a = .takeListener i
  | .takeProcess j, a => a = .takeProcess j

/-- Every party keeps moving when it can. -/
def FairToAll {confs : List Config} {count : Nat} (ρ : (truthful confs count).Execution) : Prop :=
  ∀ party : Party, ρ.Fair party.Moves

/-- One of the moves granted to the party can be taken. -/
def Party.Able (confs : List Config) (count : Nat) (party : Party) (s : State) : Prop :=
  ∃ a, party.Moves a ∧ ((truthful confs count).step s a).isSome = true

section Enabled

variable {confs : List Config} {count : Nat} {s s' : State}

/-- A truthful step that can be taken is enabled. -/
theorem isSome_truthful {a : Action} (hok : s.truthfulStep a = true)
    (h : s.step confs a = some s') : ((truthful confs count).step s a).isSome = true := by
  rw [truthful_step.mpr ⟨hok, h⟩]
  rfl

/-- What the controller can do is enabled. -/
theorem isSome_truthful_controller {a : Controller.Act}
    (ha : (s.controller.act confs a).isSome = true) :
    ((truthful confs count).step s (.controller a)).isSome = true := by
  obtain ⟨⟨c, m⟩, hact⟩ := Option.isSome_iff_exists.mp ha
  exact isSome_truthful rfl (State.step_controller.mpr ⟨c, m, hact, rfl⟩)

/-- What a listener can do is enabled, if it is no `waitpid`. -/
theorem isSome_truthful_listener {i : Nat} {l : Listener} (hl : s.listeners[i]? = some l)
    {a : Listener.Act} (hreap : ∀ r, a ≠ .reap r) (ha : (l.act a).isSome = true) :
    ((truthful confs count).step s (.listener i a)).isSome = true := by
  obtain ⟨l', hact⟩ := Option.isSome_iff_exists.mp ha
  refine isSome_truthful ?_ (State.step_listener.mpr ⟨l, l', hl, hact, rfl⟩)
  unfold State.truthfulStep
  split
  · next heq =>
      cases heq
      exact absurd rfl (hreap _)
  · rfl

/-- What a process can do is enabled. -/
theorem isSome_truthful_process {j : Nat} {p : Process} (hp : s.processes[j]? = some p)
    {a : Process.Act} (ha : (p.act a).isSome = true) :
    ((truthful confs count).step s (.process j a)).isSome = true := by
  obtain ⟨p', hact⟩ := Option.isSome_iff_exists.mp ha
  exact isSome_truthful rfl (State.step_process.mpr ⟨p, p', hp, hact, rfl⟩)

end Enabled

/-- How many steps the messages of a socket are away from a HELLO that has been received, each of
them counted twice. Three if nothing is there: the HELLO has still to be sent. -/
def toHello (hello : Broadcast) : List Broadcast → Nat
  | [] => 3
  | m :: inbox => if m = hello then 2 else toHello hello inbox + 2

/-- How many steps a party is away from being counted by its barrier: subscriptions, what is in its
socket up to a HELLO, the request to be answered. -/
def distance (outside : Prop) [Decidable outside] (hello : Broadcast) (r : Req) (s : Subscriber) :
    Nat :=
  if r = .requested then 1
  else if outside then 2 * s.issued.length + toHello hello s.inbox
  else 0

section Distance

variable {outside : Prop} [Decidable outside] {hello : Broadcast} {r : Req} {s s' : Subscriber}

/-- A HELLO has to be received and answered. -/
theorem two_le_toHello (hello : Broadcast) (inbox : List Broadcast) : 2 ≤ toHello hello inbox := by
  cases inbox with
  | nil => simp [toHello]
  | cons m inbox =>
      rw [toHello]
      split <;> omega

/-- One more HELLO makes it no longer. -/
theorem toHello_append (hello : Broadcast) (inbox : List Broadcast) :
    toHello hello (inbox ++ [hello]) ≤ toHello hello inbox := by
  induction inbox with
  | nil => simp [toHello]
  | cons m inbox ih =>
      rw [List.cons_append, toHello, toHello]
      split
      · exact Nat.le_refl _
      · omega

/-- A message that is not the HELLO makes it longer. -/
theorem toHello_cons {m : Broadcast} (hm : m ≠ hello) (inbox : List Broadcast) :
    toHello hello (m :: inbox) = toHello hello inbox + 2 := by
  rw [toHello, if_neg hm]

/-- An empty socket is known by its distance. -/
theorem toHello_eq_three {inbox : List Broadcast} : toHello hello inbox = 3 ↔ inbox = [] := by
  cases inbox with
  | nil => simp [toHello]
  | cons m inbox =>
      have hlong := two_le_toHello hello inbox
      rw [toHello]
      split <;> simp
      omega

/-- A party whose request is queued is one step away. -/
@[simp] theorem distance_requested : distance outside hello .requested s = 1 := by
  simp [distance]

/-- A party inside that has been answered has been counted. -/
theorem distance_inside (hinside : ¬ outside) (hr : r ≠ .requested) :
    distance outside hello r s = 0 := by
  simp [distance, hinside, hr]

/-- A party outside has its subscriptions, its socket and its request in front of it. -/
theorem distance_outside (houtside : outside) (hr : r ≠ .requested) :
    distance outside hello r s = 2 * s.issued.length + toHello hello s.inbox := by
  simp [distance, houtside, hr]

/-- A party outside is at least two steps away. -/
theorem two_le_distance (hello : Broadcast) (s : Subscriber) (houtside : outside)
    (hr : r ≠ .requested) :
    2 ≤ distance outside hello r s := by
  have := two_le_toHello hello s.inbox
  rw [distance_outside houtside hr]
  omega

/-- A subscription that is processed brings a party outside closer. -/
theorem distance_subscribe {c : Command} {issued : List Command} (h : s.issued = c :: issued)
    (houtside : outside) (hr : r ≠ .requested) :
    distance outside hello r { s with issued := issued, topics := s.topics ++ [c] } <
      distance outside hello r s := by
  rw [distance_outside houtside hr, distance_outside houtside hr, h, List.length_cons]
  show 2 * issued.length + toHello hello s.inbox < 2 * (issued.length + 1) + toHello hello s.inbox
  omega

/-- Nobody's subscriptions take him farther away. -/
theorem distance_subscribe_le {c : Command} {issued : List Command} (h : s.issued = c :: issued) :
    distance outside hello r { s with issued := issued, topics := s.topics ++ [c] } ≤
      distance outside hello r s := by
  by_cases hr : r = .requested
  · rw [hr, distance_requested, distance_requested]
  · by_cases houtside : outside
    · exact (distance_subscribe h houtside hr).le
    · rw [distance_inside houtside hr, distance_inside houtside hr]

/-- What a party outside reads in front of its HELLO brings it closer. -/
theorem distance_ignore {m : Broadcast} {inbox : List Broadcast} (hin : s.inbox = m :: inbox)
    (hm : m ≠ hello) (houtside : outside) (hr : r ≠ .requested) :
    distance outside hello r { s with inbox := inbox } < distance outside hello r s := by
  rw [distance_outside houtside hr, distance_outside houtside hr, hin, toHello_cons hm]
  show 2 * s.issued.length + toHello hello inbox < _
  omega

/-- A HELLO that is published takes nobody farther away. -/
theorem distance_deliver : distance outside hello r (s.deliver hello) ≤
    distance outside hello r s := by
  unfold distance
  rw [Subscriber.issued_deliver]
  split
  · exact Nat.le_refl _
  · split
    · refine Nat.add_le_add_left ?_ _
      unfold Subscriber.deliver
      split
      · exact toHello_append hello s.inbox
      · exact Nat.le_refl _
    · exact Nat.le_refl _

/-- Whoever waits for a HELLO is subscribed, and has nothing in its socket. -/
theorem of_distance_eq_three (hthree : distance outside hello r s = 3) :
    outside ∧ r ≠ .requested ∧ s.issued = [] ∧ s.inbox = [] := by
  unfold distance at hthree
  split at hthree
  · cases hthree
  · next hr =>
      split at hthree
      · next houtside =>
          have hlong := two_le_toHello hello s.inbox
          have hissued : s.issued.length = 0 := by omega
          refine ⟨houtside, hr, List.eq_nil_of_length_eq_zero hissued, ?_⟩
          rwa [hissued, Nat.mul_zero, Nat.zero_add, toHello_eq_three] at hthree
      · cases hthree

/-- A HELLO that a subscribed party waits for brings it closer. -/
theorem distance_hello {order : List Command} (h : s.InOrder order) (hm : hello.command ∈ order)
    (hthree : distance outside hello r s = 3) :
    distance outside hello r (s.deliver hello) < distance outside hello r s := by
  obtain ⟨houtside, hr, hissued, hinbox⟩ := of_distance_eq_three hthree
  rw [h.deliver_of_issued hissued, if_pos hm, hthree, distance_outside houtside hr]
  simp [hissued, hinbox, toHello]

/-- Whoever is one step away has its request queued. -/
theorem requested_of_distance (hone : distance outside hello r s = 1) : r = .requested := by
  by_contra hr
  by_cases houtside : outside
  · have := two_le_distance hello s houtside hr
    omega
  · rw [distance_inside houtside hr] at hone
    cases hone

/-- Whoever is neither counted, nor queued, nor waiting for a HELLO to be sent, has something to
receive or to subscribe to. -/
theorem of_distance (hzero : distance outside hello r s ≠ 0) (hone : distance outside hello r s ≠ 1)
    (hthree : distance outside hello r s ≠ 3) :
    outside ∧ r ≠ .requested ∧ (s.issued ≠ [] ∨ s.inbox ≠ []) := by
  have hr : r ≠ .requested := fun hr => hone (by rw [hr, distance_requested])
  have houtside : outside := by
    by_contra hinside
    exact hzero (distance_inside hinside hr)
  refine ⟨houtside, hr, ?_⟩
  by_contra hnone
  obtain ⟨hissued, hinbox⟩ := not_or.mp hnone
  rw [distance_outside houtside hr, not_not.mp hissued, not_not.mp hinbox] at hthree
  exact hthree rfl

end Distance

/-! ## The listener barrier -/

namespace Listener

/-- How far a listener is from being counted. -/
def toBarrier (l : Listener) : Nat :=
  distance (l.loc = .awaitHello) .helloListener l.syncclient l.subscriber

variable {confs : List Config} {c c' : Controller} {l l' : Listener}

/-- A listener in its outer loop has no request queued. -/
theorem Sound.not_requested (h : l.Sound) (hloc : l.loc = .awaitHello) :
    l.syncclient ≠ .requested := by
  intro hreq
  have hwait := h.sync.mp (by simp [hreq])
  rw [hloc] at hwait
  cases hwait

/-- What a listener does takes it no farther away. -/
theorem Sound.toBarrier_change (h : l.Sound) {a : Act} (hact : l.Change a l') :
    l'.toBarrier ≤ l.toBarrier := by
  cases hact with
  | subscribe hissued => exact distance_subscribe_le hissued
  | hello hloc =>
      show distance _ _ .requested _ ≤ _
      rw [distance_requested]
      exact le_trans (by omega) (two_le_distance _ _ hloc (h.not_requested hloc))
  | ignore hloc hin =>
      rcases hloc with ⟨hloc, hm⟩ | ⟨hloc, -⟩
      · exact (distance_ignore hin hm hloc (h.not_requested hloc)).le
      · exact Nat.le_of_eq (by simp [toBarrier, distance, hloc])
  | running => exact Nat.le_refl _
  | synced hloc => simp [toBarrier, distance]
  | theEnd hloc | start hloc | launch hloc | launched hloc | error hloc | child hloc
  | allReaped hloc => exact Nat.le_of_eq (by simp [toBarrier, distance, hloc])

/-- A HELLO takes no listener farther away. -/
theorem toBarrier_deliver (l : Listener) : (l.deliver .helloListener).toBarrier ≤ l.toBarrier := by
  rw [toBarrier, loc_deliver, syncclient_deliver, deliver]
  split
  · exact Nat.le_refl _
  · exact distance_deliver

/-- A listener that has something to receive or to subscribe to can do it, -/
theorem act_of_toBarrier (hzero : l.toBarrier ≠ 0) (hone : l.toBarrier ≠ 1)
    (hthree : l.toBarrier ≠ 3) : ∃ a, (∀ r, a ≠ .reap r) ∧ (l.act a).isSome = true := by
  obtain ⟨hloc, -, hissued | hinbox⟩ := of_distance hzero hone hthree
  · obtain ⟨c, issued, hissued⟩ := List.exists_cons_of_ne_nil hissued
    exact ⟨.subscribe, by simp, by simp [act, Subscriber.subscribe, hissued]⟩
  · obtain ⟨m, inbox, hinbox⟩ := List.exists_cons_of_ne_nil hinbox
    exact ⟨.receive, by simp, by simp [act, hloc, Subscriber.receive, hinbox]⟩

/-- and whatever it does then brings it closer. -/
theorem toBarrier_lt (hzero : l.toBarrier ≠ 0) (hone : l.toBarrier ≠ 1) (hthree : l.toBarrier ≠ 3)
    {a : Act} (hact : l.Change a l') : l'.toBarrier < l.toBarrier := by
  obtain ⟨hloc, hr, -⟩ := of_distance hzero hone hthree
  cases hact with
  | subscribe hissued => exact distance_subscribe hissued hloc hr
  | hello hloc =>
      show distance _ _ .requested _ < _
      rw [distance_requested]
      exact lt_of_lt_of_le (by omega) (two_le_distance _ _ hloc hr)
  | ignore hloc' hin =>
      rcases hloc' with ⟨-, hm⟩ | ⟨hloc', -⟩
      · exact distance_ignore hin hm hloc hr
      · rw [hloc] at hloc'
        cases hloc'
  | theEnd h' | start h' | synced h' | launch h' | launched h' | running h' | error h' | child h'
  | allReaped h' =>
      rw [hloc] at h'
      cases h'

/-- A listener that waits for a HELLO is brought closer by the next one. -/
theorem Sound.toBarrier_hello (h : l.Sound) (hthree : l.toBarrier = 3) :
    (l.deliver .helloListener).toBarrier < l.toBarrier := by
  obtain ⟨hloc, -⟩ := of_distance_eq_three hthree
  rw [toBarrier, loc_deliver, syncclient_deliver, Listener.deliver, if_neg (by simp [hloc])]
  exact distance_hello h.inOrder (by simp [order, Broadcast.command]) hthree

end Listener

namespace Controller

/-- The listener barrier of iteration `j`, and the entry into it. -/
def AtListeners (j : Nat) (c : Controller) : Prop :=
  c.iteration = j ∧ (c.loc = .iterate ∨ ∃ n, c.loc = .syncListeners n)

/-- The process barrier of iteration `j`. -/
def AtProcesses (j : Nat) (c : Controller) : Prop := c.iteration = j ∧ ∃ n, c.loc = .syncProcesses n

/-- What the controller has to do before it publishes `StartProcesses`. -/
def toCall (conf : Config) (c : Controller) : Nat :=
  match c.loc with
  | .iterate => conf.quota + 2
  | .syncListeners n => conf.quota - n + 1
  | .syncProcesses _ | .collect _ | .ended => 0

variable {confs : List Config} {conf : Config} {j : Nat} {c c' : Controller}

/-- The controller leaves the listener barrier for the process barrier only, and gets closer to
doing so by whatever it does but sending HELLOs. -/
theorem AtListeners.moves (h : c.AtListeners j) (hconf : confs[j]? = some conf) {a : Action}
    (hmoves : c.Moves confs a c') :
    c'.AtProcesses j ∨ (c'.AtListeners j ∧ c'.toCall conf ≤ c.toCall conf ∧
      ((a = .controller .helloListener ∧
          ∃ n, c.loc = .syncListeners n ∧ (n : Int) < conf.machines) ∨
        (∃ i b, a = .listener i b) ∨ (∃ j b, a = .process j b) ∨
        c'.toCall conf < c.toCall conf)) := by
  obtain ⟨rfl, hplace⟩ := h
  cases hmoves with
  | acts hact =>
      cases change_of_act hact with
      | enter hloc =>
          exact .inr ⟨⟨rfl, .inr ⟨0, rfl⟩⟩, by simp [toCall, goto, hloc],
            .inr (.inr (.inr (by simp [toCall, goto, hloc])))⟩
      | theEnd _ hnone =>
          rw [hnone] at hconf
          cases hconf
      | @helloListener conf' n hloc hconf' hmore =>
          obtain rfl := Option.some.inj (hconf.symm.trans hconf')
          exact .inr ⟨⟨rfl, hplace⟩, Nat.le_refl _, .inl ⟨rfl, n, hloc, hmore⟩⟩
      | startProcesses => exact .inl ⟨rfl, 0, rfl⟩
      | helloSocket hloc | startWebsockets hloc | finish hloc => simp [hloc] at hplace
  | countsListener hcount =>
      obtain ⟨n, conf', hloc, hconf', hmore, rfl⟩ := countListener_eq_some hcount
      obtain rfl := Option.some.inj (hconf.symm.trans hconf')
      have hlower : (c.goto (.syncListeners (n + 1))).toCall conf < c.toCall conf := by
        simp only [toCall, goto, hloc, Config.quota]
        omega
      exact .inr ⟨⟨rfl, .inr ⟨n + 1, rfl⟩⟩, hlower.le, .inr (.inr (.inr hlower))⟩
  | countsProcess hcount =>
      obtain ⟨n, conf', hloc, -⟩ := countProcess_eq_some hcount
      simp [hloc] at hplace
  | takesListener htake | takesProcess htake =>
      obtain ⟨counters, conf', hloc, -⟩ := take_eq_some htake
      simp [hloc] at hplace
  | listener => exact .inr ⟨⟨rfl, hplace⟩, Nat.le_refl _, .inr (.inl ⟨_, _, rfl⟩)⟩
  | process => exact .inr ⟨⟨rfl, hplace⟩, Nat.le_refl _, .inr (.inr (.inl ⟨_, _, rfl⟩))⟩

/-- In front of the listener barrier the controller publishes HELLOs for listeners only. -/
theorem AtListeners.publishes (h : c.AtListeners j) (h' : c'.AtListeners j)
    {a : Act} {m : Broadcast} (hact : c.act confs a = some (c', some m)) : m = .helloListener := by
  obtain ⟨-, hplace⟩ := h
  obtain ⟨-, hplace'⟩ := h'
  cases change_of_act hact with
  | helloListener => rfl
  | theEnd | startProcesses => simp [goto] at hplace'
  | helloSocket hloc | startWebsockets hloc => simp [hloc] at hplace

end Controller

/-- **Nobody takes a listener farther away from its barrier.** -/
theorem Listener.Sound.toBarrier_moves {confs : List Config} {j : Nat} {c c' : Controller}
    {l l' : Listener} (h : l.Sound) (hat : c.AtListeners j) (hat' : c'.AtListeners j)
    (hmoves : Moves confs c l c' l') : l'.toBarrier ≤ l.toBarrier := by
  cases hmoves with
  | broadcast hact =>
      obtain rfl := hat.publishes hat' hact
      exact l.toBarrier_deliver
  | served _ hreq =>
      have hinside : l.loc ≠ .awaitHello := fun hloc => h.not_requested hloc hreq
      have hzero : toBarrier { l with syncclient := .replied } = 0 :=
        distance_inside hinside (by simp)
      omega
  | moved hact => exact h.toBarrier_change (change_of_act hact)
  | drained | silent | countListener | countProcess | taken | still => exact Nat.le_refl _

/-- The party expected to move in front of the listener barrier: the controller when it can go on,
else the first listener that has not been counted, or whoever it waits for. -/
def Party.atListeners (quota : Nat) (view : Nat × List Nat) : Party :=
  if view.1 = quota + 2 ∨ view.1 ≤ 1 then .controller
  else match firstBusy view.2 with
    | none => .controller
    | some i =>
        if view.2[i]? = some 1 then .serveListener i
        else if view.2[i]? = some 3 then .controller
        else .listener i

namespace State

variable {confs : List Config} {conf : Config} {count j : Nat} {s s' : State}

/-- What is looked at in front of the listener barrier. -/
def atListeners (conf : Config) (s : State) : Nat × List Nat :=
  (s.controller.toCall conf, s.listeners.map Listener.toBarrier)

/-- As long as the barrier waits and there are listeners enough, one of them has not been
counted. -/
theorem exists_uncounted (hs : (coordination confs count).Reachable s)
    (hcount : quotaBefore confs (j + 1) ≤ count) (hconf : confs[j]? = some conf)
    (hi : s.controller.iteration = j) {n : Nat} (hloc : s.controller.loc = .syncListeners n)
    (hmore : (n : Int) < conf.machines) :
    firstBusy (s.listeners.map Listener.toBarrier) ≠ none := by
  intro hnone
  have hinv := BarrierInv.of_reachable hs
  have hbalance := hinv.balance
  have hzero : ∀ l ∈ s.listeners, l.toBarrier = 0 := fun l hl =>
    firstBusy_eq_none hnone _ (List.mem_map_of_mem hl)
  -- whoever is at the barrier has been counted
  have houter : total Listener.outer s.listeners = 0 := total_eq_zero.mpr fun l hl => by
    unfold Listener.outer
    rw [if_neg]
    intro houtside
    have hlong := two_le_distance .helloListener l.subscriber houtside
      ((hinv.sound l hl).not_requested houtside)
    have hnear := hzero l hl
    unfold Listener.toBarrier at hnear
    omega
  have hqueued : total Listener.queued s.listeners = 0 := total_eq_zero.mpr fun l hl => by
    unfold Listener.queued
    rw [if_neg]
    intro hr
    have hone := hzero l hl
    rw [Listener.toBarrier, hr, distance_requested] at hone
    cases hone
  rw [quotaBefore_succ hconf, Config.quota] at hcount
  simp only [Controller.served, hi, hloc] at hbalance
  omega

/-- Who is expected to move, and why. -/
theorem atListeners_cases (hs : (coordination confs count).Reachable s)
    (hcount : quotaBefore confs (j + 1) ≤ count) (hconf : confs[j]? = some conf)
    (hat : s.controller.AtListeners j) :
    (Party.atListeners conf.quota (s.atListeners conf) = .controller ∧
      (s.controller.loc = .iterate ∨
        ∃ n, s.controller.loc = .syncListeners n ∧ ¬ (n : Int) < conf.machines)) ∨
    ∃ i l n, s.listeners[i]? = some l ∧ s.controller.loc = .syncListeners n ∧
      (n : Int) < conf.machines ∧
      ((Party.atListeners conf.quota (s.atListeners conf) = .serveListener i ∧ l.toBarrier = 1) ∨
        (Party.atListeners conf.quota (s.atListeners conf) = .controller ∧ l.toBarrier = 3) ∨
        (Party.atListeners conf.quota (s.atListeners conf) = .listener i ∧ l.toBarrier ≠ 0 ∧
          l.toBarrier ≠ 1 ∧ l.toBarrier ≠ 3)) := by
  obtain ⟨hi, hloc | ⟨n, hloc⟩⟩ := hat
  · exact .inl ⟨by simp [Party.atListeners, atListeners, Controller.toCall, hloc], .inl hloc⟩
  · by_cases hmore : (n : Int) < conf.machines
    · obtain ⟨i, hbusy⟩ :=
        Option.ne_none_iff_exists'.mp (exists_uncounted hs hcount hconf hi hloc hmore)
      obtain ⟨w, hw, hzero⟩ := firstBusy_eq_some hbusy
      obtain ⟨l, hl, rfl⟩ : ∃ l, s.listeners[i]? = some l ∧ l.toBarrier = w := by
        simpa using hw
      have hcall :
          ¬ (s.controller.toCall conf = conf.quota + 2 ∨ s.controller.toCall conf ≤ 1) := by
        simp only [Controller.toCall, hloc, Config.quota]
        omega
      refine .inr ⟨i, l, n, hl, hloc, hmore, ?_⟩
      simp only [Party.atListeners, atListeners, if_neg hcall, hbusy, hw, Option.some.injEq]
      by_cases hone : l.toBarrier = 1
      · exact .inl ⟨by rw [if_pos hone], hone⟩
      · by_cases hthree : l.toBarrier = 3
        · exact .inr (.inl ⟨by rw [if_neg hone, if_pos hthree], hthree⟩)
        · exact .inr (.inr ⟨by rw [if_neg hone, if_neg hthree], hzero, hone, hthree⟩)
    · refine .inl ⟨?_, .inr ⟨n, hloc, hmore⟩⟩
      have hcall : s.controller.toCall conf ≤ 1 := by
        simp only [Controller.toCall, hloc, Config.quota]
        omega
      simp [Party.atListeners, atListeners, hcall]

/-- A party whose weight has changed changes the view. -/
theorem map_ne_of_weight {α κ : Type} {f : α → κ} {agents agents' : List α} {i : Nat} {x y : α}
    (hx : agents[i]? = some x) (hy : agents'[i]? = some y) (hne : f y ≠ f x) :
    agents'.map f ≠ agents.map f := by
  intro hsame
  have hat := congrArg (·[i]?) hsame
  simp only [List.getElem?_map, hx, hy, Option.map_some, Option.some.injEq] at hat
  exact hne hat

/-- Somebody expected to move in front of the listener barrier can do it. -/
theorem able_atListeners (hs : (coordination confs count).Reachable s)
    (hcount : quotaBefore confs (j + 1) ≤ count) (hconf : confs[j]? = some conf)
    (hat : s.controller.AtListeners j) :
    (Party.atListeners conf.quota (s.atListeners conf)).Able confs count s := by
  have hhere : confs[s.controller.iteration]? = some conf := by rw [hat.1, hconf]
  rcases atListeners_cases hs hcount hconf hat with ⟨hparty, hloc⟩ |
    ⟨i, l, n, hl, hloc, hmore, ⟨hparty, hone⟩ | ⟨hparty, -⟩ | ⟨hparty, hzero, hone, hthree⟩⟩
  · rw [hparty]
    rcases hloc with hloc | ⟨n, hloc, hdone⟩
    · exact ⟨.controller .iterate, ⟨_, rfl⟩,
        isSome_truthful_controller (by simp only [Controller.act, hloc, hhere, Option.isSome])⟩
    · exact ⟨.controller .startProcesses, ⟨_, rfl⟩,
        isSome_truthful_controller (by simp [Controller.act, hloc, hhere, hdone])⟩
  · rw [hparty]
    have hcounts : s.controller.countListener confs =
        some (s.controller.goto (.syncListeners (n + 1))) := by
      simp [Controller.countListener, hloc, hhere, hmore]
    exact ⟨.serveListener i, rfl, isSome_truthful rfl
      (step_serveListener.mpr ⟨l, _, hl, hcounts, requested_of_distance hone, rfl⟩)⟩
  · rw [hparty]
    exact ⟨.controller .helloListener, ⟨_, rfl⟩,
      isSome_truthful_controller (by simp [Controller.act, hloc, hhere, hmore])⟩
  · rw [hparty]
    obtain ⟨a, hreap, ha⟩ := Listener.act_of_toBarrier hzero hone hthree
    exact ⟨.listener i a, ⟨a, rfl⟩, isSome_truthful_listener hl hreap ha⟩

/-- **Nobody gets farther away** from the listener barrier. -/
theorem atListeners_step (hs : (coordination confs count).Reachable s)
    (hconf : confs[j]? = some conf) (hat : s.controller.AtListeners j) {a : Action}
    (h : s.step confs a = some s') :
    s'.controller.AtProcesses j ∨ (s'.controller.AtListeners j ∧
      ((s'.atListeners conf).1 + (s'.atListeners conf).2.sum <
          (s.atListeners conf).1 + (s.atListeners conf).2.sum ∨
        s'.atListeners conf = s.atListeners conf)) := by
  rcases hat.moves hconf (controller_moves h) with hQ | ⟨hat', hle, -⟩
  · exact .inl hQ
  have hsound := (BarrierInv.of_reachable hs).sound
  refine .inr ⟨hat', ?_⟩
  have hlisteners := total_lt_or_map_eq (k := Listener.toBarrier) (w := id)
    (length_listeners h) fun i x y hx hy => by
      obtain ⟨y', hy', hmoves⟩ := listener_moves h i x hx
      obtain rfl := Option.some.inj (hy.symm.trans hy')
      exact Nat.lt_or_eq_of_le
        ((hsound x (List.mem_of_getElem? hx)).toBarrier_moves hat hat' hmoves)
  rcases hlisteners with hlower | hsame
  · exact .inl (Nat.add_lt_add_of_le_of_lt hle hlower)
  · rcases Nat.lt_or_eq_of_le hle with hlower | hequal
    · left
      simp only [atListeners, hsame]
      omega
    · exact .inr (Prod.ext hequal hsame)

/-- A listener that gets closer to its barrier is seen to. -/
theorem atListeners_ne_of_listener {i : Nat} {l l' : Listener} (hl : s.listeners[i]? = some l)
    (hl' : s'.listeners[i]? = some l') (hlt : l'.toBarrier < l.toBarrier) :
    s'.atListeners conf ≠ s.atListeners conf :=
  fun hsame => map_ne_of_weight hl hl' (Nat.ne_of_lt hlt) (congrArg Prod.snd hsame)

/-- The controller is seen to get closer to publishing `StartProcesses`. -/
theorem atListeners_ne_of_controller
    (hlt : s'.controller.toCall conf < s.controller.toCall conf) :
    s'.atListeners conf ≠ s.atListeners conf :=
  fun hsame => Nat.ne_of_lt hlt (congrArg Prod.fst hsame)

/-- **The party expected to move gets something closer.** -/
theorem atListeners_ne_of_moves (hs : (coordination confs count).Reachable s)
    (hcount : quotaBefore confs (j + 1) ≤ count) (hconf : confs[j]? = some conf)
    (hat : s.controller.AtListeners j) {a : Action} (h : s.step confs a = some s')
    (hmove : (Party.atListeners conf.quota (s.atListeners conf)).Moves a) :
    s'.controller.AtProcesses j ∨ s'.atListeners conf ≠ s.atListeners conf := by
  rcases hat.moves hconf (controller_moves h) with hQ | ⟨-, -, hwhy⟩
  · exact .inl hQ
  right
  rcases atListeners_cases hs hcount hconf hat with ⟨hparty, hloc⟩ |
    ⟨i, l, n, hl, hloc, hmore, ⟨hparty, hone⟩ | ⟨hparty, hthree⟩ | ⟨hparty, hzero, hone, hthree⟩⟩
  · rw [hparty] at hmove
    obtain ⟨b, rfl⟩ := hmove
    rcases hwhy with ⟨-, k, hk, hmore⟩ | ⟨_, _, hb⟩ | ⟨_, _, hb⟩ | hlower
    · rcases hloc with hloc | ⟨n, hloc, hdone⟩
      · rw [hk] at hloc
        cases hloc
      · rw [hk] at hloc
        cases hloc
        exact absurd hmore hdone
    · cases hb
    · cases hb
    · exact atListeners_ne_of_controller hlower
  · rw [hparty] at hmove
    obtain rfl : a = .serveListener i := hmove
    rcases hwhy with ⟨hb, -⟩ | ⟨_, _, hb⟩ | ⟨_, _, hb⟩ | hlower
    · cases hb
    · cases hb
    · cases hb
    · exact atListeners_ne_of_controller hlower
  · rw [hparty] at hmove
    obtain ⟨b, rfl⟩ := hmove
    rcases hwhy with ⟨hb, -⟩ | ⟨_, _, hb⟩ | ⟨_, _, hb⟩ | hlower
    · -- the HELLO reaches the listener that waits for one
      cases hb
      obtain ⟨c, m, hact, rfl⟩ := step_controller.mp h
      cases Controller.change_of_act hact
      have hl' : (s.listeners.map (·.deliver .helloListener))[i]? =
          some (l.deliver .helloListener) := by simp [hl]
      exact atListeners_ne_of_listener hl hl'
        (((BarrierInv.of_reachable hs).sound l (List.mem_of_getElem? hl)).toBarrier_hello hthree)
    · cases hb
    · cases hb
    · exact atListeners_ne_of_controller hlower
  · rw [hparty] at hmove
    obtain ⟨b, rfl⟩ := hmove
    obtain ⟨x, x', hx, hact, rfl⟩ := step_listener.mp h
    obtain rfl := Option.some.inj (hl.symm.trans hx)
    exact atListeners_ne_of_listener hl
      (List.getElem?_set_self (List.getElem?_eq_some_iff.mp hl).1)
      (Listener.toBarrier_lt hzero hone hthree (Listener.change_of_act hact))

end State

/-- **The listener barrier is passed.** In every fair execution with as many listeners as the
iterations so far have machines the controller gets from the listener barrier of an iteration to its
process barrier. -/
theorem listener_barrier_passed {confs : List Config} {count j : Nat} {conf : Config}
    (hconf : confs[j]? = some conf) (hcount : quotaBefore confs (j + 1) ≤ count)
    (ρ : (truthful confs count).Execution) (hfair : FairToAll ρ) {n : Nat}
    (hat : (ρ.state n).controller.AtListeners j) :
    ∃ m, n ≤ m ∧ (ρ.state m).controller.AtProcesses j := by
  refine ρ.eventually_of_view (E := Party.Able confs count)
    (fun party => ρ.responds_of_fair (hfair party)) (P := fun s => s.controller.AtListeners j)
    (Q := fun s => s.controller.AtProcesses j) (State.atListeners conf)
    (fun view => view.1 + view.2.sum) (Party.atListeners conf.quota) ?_ ?_ ?_ hat
  · exact fun s hs hat _ => State.able_atListeners hs.of_restrict hcount hconf hat
  · exact fun s a s' hs hat _ h =>
      State.atListeners_step hs.of_restrict hconf hat (truthful_step.mp h).2
  · exact fun s a s' hs hat _ h hmove =>
      State.atListeners_ne_of_moves hs.of_restrict hcount hconf hat (truthful_step.mp h).2 hmove

end WsPerftester
