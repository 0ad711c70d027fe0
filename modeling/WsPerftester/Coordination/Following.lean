import WsPerftester.Coordination.Script
import WsPerftester.Coordination.OneIteration

/-! # No broadcast is missed, in a run over any number of configurations

The HELLO that lets a party in is the first one published after its HELLO subscription was
processed. It may stay unread for a while, and other broadcasts are published meanwhile. From the
publication of that HELLO on, what the party receives and what is left in its socket is what was in
its socket, the HELLO, and everything published behind it that it subscribed to: nothing is lost,
duplicated or reordered (`Subscriber.Hears`), whatever the other parties do, also when processes are
killed. `Subscriber.Since` follows one socket from there on, through the reading of the HELLO. -/

namespace WsPerftester

open TransitionSystem Population

/-! ## One socket -/

namespace Subscriber

/-- While `published` was sent the party has received `heard`, and its socket has changed from `s`
to `s'`: both sides are the same messages in the same order. -/
def Hears (order : List Command) (heard published : List Broadcast) (s s' : Subscriber) : Prop :=
  heard ++ s'.inbox = s.inbox ++ published.filter (·.command ∈ order)

variable {order : List Command} {s s' s'' : Subscriber} {heard heard' published published' :
  List Broadcast}

/-- Nothing has happened. -/
theorem Hears.refl (order : List Command) (s : Subscriber) : Hears order [] [] s s := by
  simp [Hears]

/-- **One period after another.** -/
theorem Hears.trans (h : Hears order heard published s s')
    (h' : Hears order heard' published' s' s'') :
    Hears order (heard ++ heard') (published ++ published') s s'' := by
  show heard ++ heard' ++ s''.inbox = s.inbox ++ (published ++ published').filter _
  calc heard ++ heard' ++ s''.inbox = heard ++ (s'.inbox ++ published'.filter _) := by
        rw [List.append_assoc, h']
    _ = s.inbox ++ published.filter _ ++ published'.filter _ := by rw [← List.append_assoc, h]
    _ = s.inbox ++ (published ++ published').filter _ := by
        rw [List.append_assoc, List.filter_append]

/-- A socket with every subscription processed is sent what is published. -/
theorem Hears.deliver (h : s.InOrder order) (hissued : s.issued = []) (m : Broadcast) :
    Hears order [] [m] s (s.deliver m) := by
  show (s.deliver m).inbox = s.inbox ++ [m].filter _
  rw [h.deliver_of_issued hissued]
  split
  · next hmem => simp [hmem]
  · next hmem => simp [hmem]

/-- A message that is received leaves the socket. -/
theorem Hears.receive {m : Broadcast} {inbox : List Broadcast} (hin : s.inbox = m :: inbox) :
    Hears order [m] [] s { s with inbox := inbox } := by
  simp [Hears, hin]

/-- As long as the socket holds the same messages nothing has been received. -/
theorem Hears.still (h : s'.inbox = s.inbox) : Hears order [] [] s s' := by
  simp [Hears, h]

/-- What brings a message into a socket that does not hold it is its own delivery. -/
theorem eq_of_mem_deliver {hello m : Broadcast} (hunread : hello ∉ s.inbox)
    (hmem : hello ∈ (s.deliver m).inbox) :
    m = hello ∧ (s.deliver m).inbox = s.inbox ++ [hello] := by
  unfold deliver at hmem ⊢
  split at hmem
  · next htopic =>
      obtain rfl : hello = m :=
        List.mem_singleton.mp ((List.mem_append.mp hmem).resolve_left hunread)
      exact ⟨rfl, by rw [if_pos htopic]⟩
  · exact absurd hmem hunread

/-- **Since a HELLO was published** to a party with the socket `s`, it has received `heard` while
`published` was sent, its socket has become `s'`, and it has processed `starts` messages with the
command `start`. It is `outside` as long as it has not read that HELLO. -/
structure Since (order : List Command) (hello : Broadcast) (start : Command)
    (heard published : List Broadcast) (s s' : Subscriber) (outside : Prop) (starts : Nat) :
    Prop where
  hears : Hears order heard published { s with inbox := s.inbox ++ [hello] } s'
  waiting : outside → hello ∉ heard ∧ starts = 0
  /-- Inside it handles each `start` that it reads behind the HELLO. -/
  joined : ¬ outside → ∃ since, heard = s.inbox ++ hello :: since ∧
    starts = since.countP (·.command = start)

section Since

variable {hello : Broadcast} {start : Command} {outside outside' : Prop} {starts n : Nat}

/-- The HELLO has just been delivered. -/
theorem Since.delivered (h : s'.inbox = s.inbox ++ [hello]) (houtside : outside) :
    Since order hello start [] [] s s' outside 0 where
  hears := by simp [Hears, h]
  waiting _ := ⟨List.not_mem_nil, rfl⟩
  joined hinside := absurd houtside hinside

/-- Something happens while the HELLO is unread. -/
theorem Since.stay (h : Since order hello start heard published s s' outside starts)
    (houtside : outside) (houtside' : outside') (hhello : hello ∉ heard')
    (hnext : Hears order heard' published' s' s'') :
    Since order hello start (heard ++ heard') (published ++ published') s s'' outside' starts where
  hears := h.hears.trans hnext
  waiting _ := ⟨by simp [(h.waiting houtside).1, hhello], (h.waiting houtside).2⟩
  joined hinside := absurd houtside' hinside

/-- **The HELLO is read**, behind what the socket held before it. -/
theorem Since.enter (h : Since order hello start heard published s s' outside starts)
    (houtside : outside) (houtside' : ¬ outside') (hhello : hello ∉ s.inbox)
    {inbox : List Broadcast} (hin : s'.inbox = hello :: inbox) :
    Since order hello start (heard ++ [hello]) (published ++ []) s { s' with inbox := inbox }
      outside' starts := by
  obtain ⟨hunheard, hstarts⟩ := h.waiting houtside
  refine ⟨h.hears.trans (.receive hin), fun hout => absurd hout houtside', fun _ => ?_⟩
  have hstream : heard ++ hello :: inbox =
      s.inbox ++ hello :: published.filter (·.command ∈ order) := by
    rw [← hin, h.hears, List.append_assoc, List.singleton_append]
  -- the HELLO is the first one on both sides
  have hlen : heard.length = s.inbox.length := by
    have hidx := congrArg (List.idxOf hello) hstream
    simpa [List.idxOf_append, hunheard, hhello] using hidx
  exact ⟨[], by rw [List.append_inj_left hstream hlen], hstarts⟩

/-- Something happens to a party that has read the HELLO. -/
theorem Since.follow (h : Since order hello start heard published s s' outside starts)
    (hinside : ¬ outside) (hinside' : ¬ outside')
    (hnext : Hears order heard' published' s' s'')
    (hn : n = starts + heard'.countP (·.command = start)) :
    Since order hello start (heard ++ heard') (published ++ published') s s'' outside' n := by
  refine ⟨h.hears.trans hnext, fun hout => absurd hout hinside', fun _ => ?_⟩
  obtain ⟨since, hheard, hstarts⟩ := h.joined hinside
  refine ⟨since ++ heard', by simp [hheard], ?_⟩
  rw [hn, hstarts, List.countP_append]

/-- **What a party inside has read since** the HELLO and what it has left to read is what has been
published behind the HELLO. -/
theorem Since.read (h : Since order hello start heard published s s' outside starts)
    (hinside : ¬ outside) : ∃ since, heard = s.inbox ++ hello :: since ∧
      since ++ s'.inbox = published.filter (·.command ∈ order) ∧
      starts = since.countP (·.command = start) := by
  obtain ⟨since, hheard, hstarts⟩ := h.joined hinside
  refine ⟨since, hheard, ?_, hstarts⟩
  have hstream := h.hears
  rw [Hears, hheard] at hstream
  simpa using hstream

end Since

end Subscriber

/-! ## After the end -/

namespace Controller

variable {confs : List Config} {c c' : Controller}

/-- A controller that has ended does nothing more. -/
theorem not_act_of_ended (h : c.loc = .ended) (a : Act) : c.act confs a = none := by
  cases a <;> simp [act, h]

/-- `END` is published in the step that ends the controller. -/
theorem ended_of_theEnd {a : Act} (h : c.act confs a = some (c', some .theEnd)) :
    c'.loc = .ended := by
  cases change_of_act h
  rfl

end Controller

/-- A listener has `END` to read, or has read it, only when the controller has ended. -/
def Listener.EndsLast (c : Controller) (l : Listener) : Prop :=
  .theEnd ∈ l.subscriber.inbox ∨ l.loc = .terminated → c.loc = .ended

/-- What a listener does on its own brings no `END` into its socket. -/
theorem Listener.EndsLast.change {c : Controller} {l l' : Listener} {a : Act}
    (h : l.EndsLast c) (hact : l.Change a l') : l'.EndsLast c := by
  intro hl'
  apply h
  cases hact with
  | subscribe => exact hl'
  | hello hloc hin | start hloc hin =>
      left
      rw [hin]
      exact List.mem_cons_of_mem _ (hl'.resolve_right (by simp))
  | ignore hloc hin =>
      rcases hl' with hl' | hl'
      · left
        rw [hin]
        exact List.mem_cons_of_mem _ hl'
      · exact .inr hl'
  | theEnd hloc hin =>
      left
      rw [hin]
      exact List.mem_cons_self
  | running => exact hl'
  | synced | launch | launched | error | child | allReaped =>
      exact .inl (hl'.resolve_right (by simp))

/-- **`END` comes last.** -/
theorem Listener.EndsLast.moves {confs : List Config} {c c' : Controller} {l l' : Listener}
    (h : l.EndsLast c) (hmoves : Moves confs c l c' l') : l'.EndsLast c' := by
  -- a controller that has ended makes no move
  have hact : ∀ {a m}, c.act confs a = some (c', m) → c.loc ≠ .ended := by
    intro a m hact hended
    rw [Controller.not_act_of_ended hended] at hact
    cases hact
  cases hmoves with
  | broadcast ha =>
      rename_i m
      intro hl'
      by_cases hm : m = .theEnd
      · subst hm
        exact Controller.ended_of_theEnd ha
      · refine absurd (h ?_) (hact ha)
        rcases hl' with hl' | hl'
        · left
          unfold deliver Subscriber.deliver at hl'
          split at hl'
          · exact hl'
          · split at hl'
            · simpa [Ne.symm hm] using hl'
            · exact hl'
        · exact .inr (by simpa using hl')
  | silent ha => exact fun hl' => absurd (h hl') (hact ha)
  | served hc | countListener hc =>
      obtain ⟨n, conf, hloc, -, -, rfl⟩ := Controller.countListener_eq_some hc
      exact fun hl' => by simpa [hloc] using h hl'
  | countProcess hc =>
      obtain ⟨n, conf, hloc, -, -, rfl⟩ := Controller.countProcess_eq_some hc
      exact fun hl' => by simpa [hloc] using h hl'
  | drained hc | taken hc =>
      obtain ⟨counters, conf, hloc, -, -, rfl⟩ := Controller.take_eq_some hc
      exact fun hl' => by simpa [hloc] using h hl'
  | moved ha => exact h.change (change_of_act ha)
  | still => exact h

/-- `END` comes last in every run. -/
theorem endsLast_of_reachable {confs : List Config} {count : Nat} {s : State}
    (hs : (coordination confs count).Reachable s) : ∀ l ∈ s.listeners, l.EndsLast s.controller := by
  refine hs.invariant (P := fun s => ∀ l ∈ s.listeners, l.EndsLast s.controller) ?_ ?_
  · intro l hl
    rw [List.eq_of_mem_replicate hl]
    rintro (h | h) <;> cases h
  · intro s a s' hinv h
    exact State.forall_listeners h (fun _ _ hl hmoves => hl.moves hmoves) hinv

/-! ## Listeners -/

/-- No listener goes back to its outer loop. -/
theorem Listener.Change.inside {l l' : Listener} {a : Listener.Act} (h : l.Change a l')
    (hloc : l.loc ≠ .awaitHello) : l'.loc ≠ .awaitHello := by
  intro hloc'
  cases h with
  | subscribe | ignore | running => exact hloc hloc'
  | hello | theEnd | start | synced | launch | launched | error | child | allReaped => cases hloc'

namespace State

/-- What listener `i` receives in a step. -/
def heardByListener (i : Nat) (s : State) : Action → List Broadcast
  | .listener k .receive =>
      if k = i then (s.listeners[i]?.bind fun l => l.subscriber.inbox.head?).toList else []
  | _ => []

/-- What process `j` receives in a step. -/
def heardByProcess (j : Nat) (s : State) : Action → List Broadcast
  | .process k .receive =>
      if k = j then (s.processes[j]?.bind fun p => p.subscriber.inbox.head?).toList else []
  | _ => []

variable {confs : List Config} {s s' : State}

/-- In a step a listener is published to, or acts, or stays as it is but for a reply and a message
taken from it. -/
theorem listener_cases {a : Action} (h : s.step confs a = some s') {i : Nat} {l l' : Listener}
    (hl : s.listeners[i]? = some l) (hl' : s'.listeners[i]? = some l') :
    (∃ b c m, a = .controller b ∧ s.controller.act confs b = some (c, some m) ∧
      l' = l.deliver m) ∨
    (∃ b, a = .listener i b ∧ l.act b = some l') ∨
    (s.published confs a = [] ∧ (∀ b, a ≠ .listener i b) ∧
      ∃ r sink, l' = { l with syncclient := r, sink := sink }) := by
  have hsame : s.published confs a = [] → (∀ b, a ≠ .listener i b) → l' = l →
      (s.published confs a = [] ∧ (∀ b, a ≠ .listener i b) ∧
        ∃ r sink, l' = { l with syncclient := r, sink := sink }) :=
    fun hp ha hll => ⟨hp, ha, l.syncclient, l.sink, hll⟩
  cases a with
  | controller b =>
      obtain ⟨c, m, hact, rfl⟩ := step_controller.mp h
      cases m with
      | none =>
          refine .inr (.inr (hsame (published_controller hact) (by simp) ?_))
          exact Option.some.inj (hl'.symm.trans hl)
      | some m =>
          refine .inl ⟨b, c, m, rfl, hact, ?_⟩
          simpa [controllerStep, publish, hl, eq_comm] using hl'
  | serveListener k =>
      obtain ⟨x, c, hx, -, -, rfl⟩ := step_serveListener.mp h
      rcases getElem?_set_cases hl' with ⟨rfl, rfl⟩ | ⟨-, hl''⟩
      · obtain rfl := Option.some.inj (hl.symm.trans hx)
        exact .inr (.inr ⟨rfl, by simp, _, _, rfl⟩)
      · exact .inr (.inr (hsame rfl (by simp) (Option.some.inj (hl''.symm.trans hl))))
  | takeListener k =>
      obtain ⟨x, m, sink, c, hx, -, -, rfl⟩ := step_takeListener.mp h
      rcases getElem?_set_cases hl' with ⟨rfl, rfl⟩ | ⟨-, hl''⟩
      · obtain rfl := Option.some.inj (hl.symm.trans hx)
        exact .inr (.inr ⟨rfl, by simp, _, _, rfl⟩)
      · exact .inr (.inr (hsame rfl (by simp) (Option.some.inj (hl''.symm.trans hl))))
  | listener k b =>
      obtain ⟨x, x', hx, hact, rfl⟩ := step_listener.mp h
      rcases getElem?_set_cases hl' with ⟨rfl, rfl⟩ | ⟨hki, hl''⟩
      · obtain rfl := Option.some.inj (hl.symm.trans hx)
        exact .inr (.inl ⟨b, rfl, hact⟩)
      · exact .inr (.inr (hsame rfl (by simp [hki]) (Option.some.inj (hl''.symm.trans hl))))
  | serveProcess j =>
      obtain ⟨p, c, -, -, -, rfl⟩ := step_serveProcess.mp h
      exact .inr (.inr (hsame rfl (by simp) (Option.some.inj (hl'.symm.trans hl))))
  | takeProcess j =>
      obtain ⟨p, m, sink, c, -, -, -, rfl⟩ := step_takeProcess.mp h
      exact .inr (.inr (hsame rfl (by simp) (Option.some.inj (hl'.symm.trans hl))))
  | process j b =>
      obtain ⟨p, p', -, -, rfl⟩ := step_process.mp h
      exact .inr (.inr (hsame rfl (by simp) (Option.some.inj (hl'.symm.trans hl))))

/-- Nobody else receives on the socket of a listener. -/
theorem heardByListener_eq_nil {i : Nat} {a : Action} (h : ∀ b, a ≠ .listener i b) :
    s.heardByListener i a = [] := by
  unfold heardByListener
  split
  · rw [if_neg]
    rintro rfl
    exact h _ rfl
  · rfl

/-- A listener that receives gets the head of its socket. -/
theorem heardByListener_receive {i : Nat} {l : Listener} (hl : s.listeners[i]? = some l)
    {m : Broadcast} {inbox : List Broadcast} (hin : l.subscriber.inbox = m :: inbox) :
    s.heardByListener i (.listener i .receive) = [m] := by
  simp [heardByListener, hl, hin]

/-- A listener that acts receives the head of its socket, or nothing. -/
theorem heardByListener_act {i : Nat} {l l' : Listener} {b : Listener.Act}
    (hl : s.listeners[i]? = some l) (h : l.Change b l') (hhello : l.loc ≠ .awaitHello) :
    l.subscriber.Hears Listener.order (s.heardByListener i (.listener i b)) []
      l'.subscriber ∧
    l'.starts = l.starts +
      (s.heardByListener i (.listener i b)).countP (fun m => m.command = .startProcesses) := by
  cases h with
  | hello hloc => exact absurd hloc hhello
  | @ignore m _ hloc hin =>
      rw [heardByListener_receive hl hin]
      obtain ⟨-, -, hm⟩ := hloc.resolve_left fun h => hhello h.1
      have hother : m.command ≠ .startProcesses := by
        intro hcommand
        cases m with
        | startProcesses n => exact hm n rfl
        | _ => cases hcommand
      exact ⟨.receive hin, by simp [hother]⟩
  | theEnd hloc hin =>
      rw [heardByListener_receive hl hin]
      exact ⟨.receive hin, by simp [Broadcast.command]⟩
  | start hloc hin =>
      rw [heardByListener_receive hl hin]
      exact ⟨.receive hin, by simp [Broadcast.command]⟩
  | subscribe | synced | launch | launched | running | error | child | allReaped =>
      exact ⟨.still rfl, rfl⟩

end State

/-- What has happened to a listener while `published` was sent and it received `heard`. -/
structure Listener.Hears (heard published : List Broadcast) (l l' : Listener) : Prop where
  /-- It does not go back to its outer loop. -/
  inside : l'.loc ≠ .awaitHello
  subscriber : l.subscriber.Hears order heard published l'.subscriber
  /-- It processes every `StartProcesses` it receives. -/
  starts : l'.starts = l.starts + heard.countP (fun m => m.command = .startProcesses)

/-- **One step of a listener that has left its outer loop.** -/
theorem State.listener_hears {confs : List Config} {s s' : State} {a : Action}
    (h : s.step confs a = some s') {i : Nat} {l l' : Listener} (hl : s.listeners[i]? = some l)
    (hl' : s'.listeners[i]? = some l') (hsound : l.Sound) (hend : l.EndsLast s.controller)
    (hinside : l.loc ≠ .awaitHello) :
    l.Hears (s.heardByListener i a) (s.published confs a) l' := by
  rcases listener_cases h hl hl' with ⟨b, c, m, rfl, hact, rfl⟩ | ⟨b, rfl, hact⟩ |
    ⟨hpublished, hothers, r, sink, rfl⟩
  · -- a controller that publishes has not ended, so the listener has not terminated
    have hterm : l.loc ≠ .terminated := by
      intro hterm
      rw [Controller.not_act_of_ended (hend (.inr hterm))] at hact
      cases hact
    rw [published_controller hact, Listener.deliver, if_neg hterm]
    exact ⟨hinside, .deliver hsound.inOrder (hsound.joined hinside) m, rfl⟩
  · have hchange := Listener.change_of_act hact
    obtain ⟨hhears, hstarts⟩ := heardByListener_act hl hchange hinside
    exact ⟨hchange.inside hinside, hhears, hstarts⟩
  · rw [hpublished, heardByListener_eq_nil hothers]
    exact ⟨hinside, .still rfl, rfl⟩

/-- A listener the controller can still let in, or has let in: a HELLO is in its socket, or it has
left its outer loop. -/
def Listener.Invited (l : Listener) : Prop :=
  .helloListener ∈ l.subscriber.inbox ∨ l.loc ≠ .awaitHello

/-- The HELLO was the last subscription of an invited listener. -/
theorem Listener.Sound.issued_eq_nil {l : Listener} (h : l.Sound) (hinvited : l.Invited) :
    l.subscriber.issued = [] :=
  hinvited.elim (fun hmem => h.inOrder.issued_eq_nil (by decide) rfl hmem rfl) h.joined

namespace State

variable {confs : List Config} {s s' : State} {a : Action} {i : Nat} {l l' : Listener}

/-- **A listener is invited by a HELLO** that is published while it is in its outer loop. -/
theorem listener_invited (h : s.step confs a = some s') (hl : s.listeners[i]? = some l)
    (hl' : s'.listeners[i]? = some l') (hnot : ¬ l.Invited) (hinvited : l'.Invited) :
    a = .controller .helloListener ∧ l.loc = .awaitHello ∧
      .helloListener ∉ l.subscriber.inbox ∧
      l'.subscriber.inbox = l.subscriber.inbox ++ [.helloListener] ∧ l'.loc = l.loc ∧
      l'.starts = l.starts := by
  obtain ⟨hunread, hloc⟩ := not_or.mp hnot
  rw [not_not] at hloc
  rcases listener_cases h hl hl' with ⟨b, c, m, rfl, hact, rfl⟩ | ⟨b, rfl, hact⟩ |
    ⟨-, -, r, sink, rfl⟩
  · have hdeliver : l.deliver m = { l with subscriber := l.subscriber.deliver m } := by
      rw [Listener.deliver, if_neg (by simp [hloc])]
    have hmem : .helloListener ∈ (l.subscriber.deliver m).inbox := by
      rw [hdeliver] at hinvited
      exact hinvited.resolve_right (not_not.mpr hloc)
    obtain ⟨rfl, hinbox⟩ := Subscriber.eq_of_mem_deliver hunread hmem
    cases Controller.change_of_act hact with
    | helloListener =>
        rw [hdeliver]
        exact ⟨rfl, hloc, hunread, hinbox, rfl, rfl⟩
  · exfalso
    cases Listener.change_of_act hact with
    | subscribe => exact hnot hinvited
    | hello _ hin =>
        rw [hin] at hunread
        exact hunread List.mem_cons_self
    | ignore _ hin =>
        refine hnot (hinvited.imp_left fun hmem => ?_)
        rw [hin]
        exact List.mem_cons_of_mem _ hmem
    | theEnd hloc' | start hloc' | synced hloc' | launch hloc' | launched hloc' | running hloc'
    | error hloc' | child hloc' | allReaped hloc' =>
        rw [hloc] at hloc'
        cases hloc'
  · exact absurd hinvited hnot

/-- In `s` listener `i` was in its outer loop with no HELLO in its socket. Since a HELLO was
published there, it has received `heard` while `published` was sent, and it has come to its state in
`t`. -/
def ListenerSince (i : Nat) (s : State) (heard published : List Broadcast) (t : State) : Prop :=
  ∃ l l' n, s.listeners[i]? = some l ∧ l.loc = .awaitHello ∧
    .helloListener ∉ l.subscriber.inbox ∧ t.listeners[i]? = some l' ∧
    Subscriber.Since Listener.order .helloListener .startProcesses heard published l.subscriber
      l'.subscriber (l'.loc = .awaitHello) n ∧ l'.starts = l.starts + n

/-- The HELLO has just been published. -/
theorem listenerSince_start (h : s.step confs a = some s') (hl' : s'.listeners[i]? = some l')
    (hnot : ∀ l, s.listeners[i]? = some l → ¬ l.Invited) (hinvited : l'.Invited) :
    a = .controller .helloListener ∧ ListenerSince i s [] [] s' := by
  have hlt : i < s.listeners.length := length_listeners h ▸ (List.getElem?_eq_some_iff.mp hl').1
  have hl := List.getElem?_eq_getElem hlt
  obtain ⟨rfl, hloc, hhello, hinbox, hsame, hstarts⟩ :=
    listener_invited h hl hl' (hnot _ hl) hinvited
  exact ⟨rfl, _, l', 0, hl, hloc, hhello, hl', .delivered hinbox (hsame.trans hloc), hstarts⟩

/-- **One step since the HELLO**, before or after it is read. -/
theorem ListenerSince.step {t t' : State} {heard published : List Broadcast}
    (hsince : ListenerSince i s heard published t) (h : t.step confs a = some t')
    (hsound : ∀ l ∈ t.listeners, l.Sound) (hend : ∀ l ∈ t.listeners, l.EndsLast t.controller)
    (hinvited : ∀ l, t.listeners[i]? = some l → l.Invited) :
    ListenerSince i s (heard ++ t.heardByListener i a) (published ++ t.published confs a) t' := by
  obtain ⟨l₀, l, n, hl₀, hloc₀, hhello, hl, hsince, hstarts⟩ := hsince
  obtain ⟨l', hl', -⟩ := listener_moves h i l hl
  have hmem := List.mem_of_getElem? hl
  suffices hnext : ∃ n', Subscriber.Since Listener.order .helloListener .startProcesses
      (heard ++ t.heardByListener i a) (published ++ t.published confs a) l₀.subscriber
      l'.subscriber (l'.loc = .awaitHello) n' ∧ l'.starts = l₀.starts + n' by
    obtain ⟨n', hnext⟩ := hnext
    exact ⟨l₀, l', n', hl₀, hloc₀, hhello, hl', hnext⟩
  by_cases hloc : l.loc = .awaitHello
  · rcases listener_cases h hl hl' with ⟨b, c, m, rfl, hact, rfl⟩ | ⟨b, rfl, hact⟩ |
      ⟨hpublished, hothers, r, sink, rfl⟩
    · rw [published_controller hact, heardByListener_eq_nil (by simp), Listener.deliver,
        if_neg (by simp [hloc])]
      exact ⟨n, hsince.stay hloc hloc List.not_mem_nil (.deliver (hsound l hmem).inOrder
        ((hsound l hmem).issued_eq_nil (hinvited l hl)) m), hstarts⟩
    · show ∃ n', Subscriber.Since _ _ _ _ (published ++ []) _ _ _ n' ∧ _
      cases Listener.change_of_act hact with
      | subscribe => exact ⟨n, hsince.stay hloc hloc List.not_mem_nil (.still rfl), hstarts⟩
      | hello _ hin =>
          rw [heardByListener_receive hl hin]
          exact ⟨n, hsince.enter hloc (by simp) hhello hin, hstarts⟩
      | ignore hloc' hin =>
          rw [heardByListener_receive hl hin]
          obtain ⟨-, hm⟩ := hloc'.resolve_right (by simp [hloc])
          exact ⟨n, hsince.stay hloc hloc (by simpa using Ne.symm hm) (.receive hin), hstarts⟩
      | theEnd hloc' | start hloc' | synced hloc' | launch hloc' | launched hloc' | running hloc'
      | error hloc' | child hloc' | allReaped hloc' =>
          rw [hloc] at hloc'
          cases hloc'
    · rw [hpublished, heardByListener_eq_nil hothers]
      exact ⟨n, hsince.stay hloc hloc List.not_mem_nil (.still rfl), hstarts⟩
  · have hhears := listener_hears h hl hl' (hsound l hmem) (hend l hmem) hloc
    refine ⟨_, hsince.follow hloc hhears.inside hhears.subscriber rfl, ?_⟩
    rw [hhears.starts, hstarts, Nat.add_assoc]

end State

/-- **A listener misses nothing.** For every list of configurations, every number of listeners and
every order of steps, also with processes killed and `waitpid` failing: a listener that has left its
outer loop was let in by a HELLO that was published while it was there with no HELLO in its socket.
Since then it has received what its socket held before, that HELLO, and `since`; and `since` with
what is still in its socket is everything published behind that HELLO that it subscribed to, in
order. It has processed each `StartProcesses` of `since` once. -/
theorem listener_misses_nothing {confs : List Config} {count : Nat} {s' : State}
    {run : List Action}
    (hrun : (coordination confs count).exec (coordination confs count).init run = some s') {i : Nat}
    {l' : Listener} (hl' : s'.listeners[i]? = some l') (hinside : l'.loc ≠ .awaitHello) :
    ∃ before after s s₁ l since, run = before ++ .controller .helloListener :: after ∧
      (coordination confs count).exec (coordination confs count).init before = some s ∧
      s.step confs (.controller .helloListener) = some s₁ ∧
      (coordination confs count).exec s₁ after = some s' ∧
      s.listeners[i]? = some l ∧ l.loc = .awaitHello ∧
      .helloListener ∉ l.subscriber.inbox ∧
      (coordination confs count).observe (State.heardByListener i) s₁ after =
        l.subscriber.inbox ++ .helloListener :: since ∧
      since ++ l'.subscriber.inbox =
        ((coordination confs count).observe (State.published confs) s₁ after).filter
          (·.command ∈ Listener.order) ∧
      l'.starts = l.starts + since.countP (·.command = .startProcesses) := by
  have hsplit := observe_since (M := coordination confs count) (f := State.heardByListener i)
    (g := State.published confs) (J := fun s => ∃ l, s.listeners[i]? = some l ∧ l.Invited)
    (E := fun _ a _ => a = .controller .helloListener) (P := State.ListenerSince i) ?_ ?_ ?_ hrun
    ⟨l', hl', .inr hinside⟩
  · obtain ⟨before, a, after, s, s₁, rfl, hbefore, hstep, hafter, rfl, hsince⟩ := hsplit
    obtain ⟨l, x, n, hl, hloc, hhello, hx, hsince, hstarts⟩ := hsince
    obtain rfl := Option.some.inj (hl'.symm.trans hx)
    obtain ⟨since, hheard, hrest, rfl⟩ := hsince.read hinside
    exact ⟨before, after, s, s₁, l, since, rfl, hbefore, hstep, hafter, hl, hloc, hhello, hheard,
      hrest, hstarts⟩
  · rintro ⟨l, hl, hinvited⟩
    rw [List.eq_of_mem_replicate (List.mem_of_getElem? hl)] at hinvited
    rcases hinvited with hmem | hloc
    · cases hmem
    · exact hloc rfl
  · intro s a s' _ hstep hnot hJ
    obtain ⟨l', hl', hinvited⟩ := hJ
    exact State.listenerSince_start hstep hl' (fun l hl hinv => hnot ⟨l, hl, hinv⟩) hinvited
  · intro s heard published t a t' ht hJ _ hsince hstep
    obtain ⟨x, hx, hinvited⟩ := hJ
    refine hsince.step hstep (BarrierInv.of_reachable ht).sound (endsLast_of_reachable ht) ?_
    intro y hy
    rwa [← Option.some.inj (hx.symm.trans hy)]

/-- Of two listeners the second one reads its HELLO when the first one has been counted and
`StartProcesses` has been published. -/
def lateRun : List Action :=
  Listener.subscribeRun 0 ++ Listener.subscribeRun 1 ++
  [.controller .iterate, .controller .helloListener, .listener 0 .receive, .serveListener 0,
    .listener 0 .synced, .controller .startProcesses, .listener 1 .receive]

/-- The second listener of `lateRun` still has its `StartProcesses` to read. -/
theorem listener_misses_nothing_late :
    ∃ s' l', (coordination [.solo] 2).exec (coordination [.solo] 2).init lateRun = some s' ∧
      s'.listeners[1]? = some l' ∧ l'.loc = .awaitSync ∧
      ∃ before after s₁ since, lateRun = before ++ .controller .helloListener :: after ∧
        (coordination [.solo] 2).exec s₁ after = some s' ∧
        since ++ l'.subscriber.inbox = ((coordination [.solo] 2).observe
          (State.published [.solo]) s₁ after).filter (·.command ∈ Listener.order) := by
  obtain ⟨s', hs', hend⟩ := (coordination [.solo] 2).exists_of_exec_any lateRun
    (fun s' => ∃ l', s'.listeners[1]? = some l' ∧ l'.loc = .awaitSync) (by decide)
  obtain ⟨l', hl', hloc⟩ := of_decide_eq_true hend
  obtain ⟨before, after, s, s₁, l, since, hrun, -, -, hafter, -, -, -, -, hrest, -⟩ :=
    listener_misses_nothing hs' hl' (by simp [hloc])
  exact ⟨s', l', hs', hl', hloc, before, after, s₁, since, hrun, hafter, hrest⟩

/-! ## Processes -/

namespace Process

/-- A live process that has left its outer loop has all its subscriptions processed. -/
structure Subscribed (p : Process) : Prop where
  inOrder : p.subscriber.InOrder order
  joined : p.loc ≠ .awaitHello → ¬ p.Exited → p.subscriber.issued = []

/-- A process that has just been launched. -/
theorem Subscribed.start (i : Nat) : Subscribed { parent := i } :=
  ⟨⟨rfl, by simp⟩, by simp⟩

/-- Nobody comes back from having exited. -/
theorem Change.exited {p p' : Process} {a : Act} (h : p.Change a p') (hexit : p.Exited) :
    p'.Exited := by
  obtain ⟨status, hstatus⟩ := hexit
  cases h with
  | subscribe => exact ⟨status, hstatus⟩
  | hello hloc | start hloc | synced hloc | result hloc | exit hloc =>
      rw [hstatus] at hloc
      cases hloc
  | ignore => exact ⟨status, hstatus⟩
  | die => exact ⟨_, rfl⟩

/-- No process goes back to its outer loop. -/
theorem Change.inside {p p' : Process} {a : Act} (h : p.Change a p') (hloc : p.loc ≠ .awaitHello) :
    p'.loc ≠ .awaitHello := by
  intro hloc'
  cases h with
  | subscribe | ignore => exact hloc hloc'
  | hello | start | synced | result | exit | die => cases hloc'

variable {p p' : Process}

/-- The actions of a process keep its subscriptions in order. -/
theorem Subscribed.change (h : p.Subscribed) {a : Act} (hact : p.Change a p') : p'.Subscribed := by
  obtain ⟨hin, hjoined⟩ := h
  cases hact with
  | subscribe hissued =>
      refine ⟨hin.subscribe hissued, fun hloc hlive => ?_⟩
      have hnil := hjoined hloc hlive
      rw [hissued] at hnil
      cases hnil
  | hello hloc hinbox =>
      -- `HELLO_SOCKET` was its last subscription
      refine ⟨hin.receive hinbox, fun _ _ => ?_⟩
      exact hin.issued_eq_nil (by decide) rfl (by rw [hinbox]; exact List.mem_cons_self) rfl
  | ignore _ hinbox => exact ⟨hin.receive hinbox, hjoined⟩
  | start hloc hinbox =>
      exact ⟨hin.receive hinbox, fun _ _ => hjoined (by simp [hloc]) (by simp [Exited, hloc])⟩
  | synced hloc | result hloc =>
      exact ⟨hin, fun _ _ => hjoined (by simp [hloc]) (by simp [Exited, hloc])⟩
  | exit | die => exact ⟨hin, fun _ hlive => absurd ⟨_, rfl⟩ hlive⟩

/-- **The subscriptions of a process stay in order.** -/
theorem Subscribed.moves {confs : List Config} {ok : Act → Prop} {c c' : Controller}
    (h : p.Subscribed) (hmoves : Moves confs ok c p c' p') : p'.Subscribed := by
  cases hmoves with
  | broadcast =>
      by_cases hexit : p.Exited
      · rwa [deliver_of_exited hexit]
      · rw [deliver_of_running hexit]
        exact ⟨h.inOrder.deliver _, fun hloc _ => by
          simpa using h.joined hloc hexit⟩
  | served | drained | reaped => exact ⟨h.inOrder, h.joined⟩
  | moved _ hact => exact h.change (change_of_act hact)
  | silent | countListener | countProcess | taken | still => exact h

end Process

/-- The subscriptions of every process are in order in every run. -/
theorem subscribed_of_reachable {confs : List Config} {count : Nat} {s : State}
    (hs : (coordination confs count).Reachable s) : ∀ p ∈ s.processes, p.Subscribed := by
  refine hs.invariant (P := fun s => ∀ p ∈ s.processes, p.Subscribed) ?_ ?_
  · intro p hp
    cases hp
  · intro s a s' hinv h
    exact State.forall_processes (A := fun _ => True) h (fun _ _ _ => trivial)
      (fun i _ => .start i) (fun _ _ hp hmoves => hp.moves hmoves) hinv

namespace State

variable {confs : List Config} {s s' : State}

/-- What is done to process `j` in `afterListener` is at most to mark it as reaped. -/
private theorem afterListener_cases {i j : Nat} {b : Listener.Act} {p p' : Process}
    (hp : s.processes[j]? = some p) (hp' : (afterListener i s.processes b)[j]? = some p') :
    p' = p ∨ (∃ status, b = .reap (.child j status)) ∧ p' = { p with reaped := true } := by
  have hsame : s.processes[j]? = some p' →
      p' = p ∨ (∃ status, b = .reap (.child j status)) ∧ p' = { p with reaped := true } :=
    fun hp'' => .inl (Option.some.inj (hp''.symm.trans hp))
  have hlt := (List.getElem?_eq_some_iff.mp hp).1
  cases b with
  | launch =>
      rw [afterListener, List.getElem?_append_left hlt] at hp'
      exact hsame hp'
  | reap r =>
      cases r with
      | running | error => exact hsame hp'
      | child pid status =>
          simp only [afterListener] at hp'
          split at hp'
          · next q hq =>
              rcases getElem?_set_cases hp' with ⟨rfl, rfl⟩ | ⟨-, hp''⟩
              · obtain rfl := Option.some.inj (hq.symm.trans hp)
                exact .inr ⟨⟨status, rfl⟩, rfl⟩
              · exact hsame hp''
          · exact hsame hp'
  | subscribe | receive | synced | launched | allReaped => exact hsame hp'

/-- In a step a process is published to, or acts, or is reaped, or stays as it is but for a reply
and a message taken from it. -/
theorem process_cases {a : Action} (h : s.step confs a = some s') {j : Nat} {p p' : Process}
    (hp : s.processes[j]? = some p) (hp' : s'.processes[j]? = some p') :
    (∃ b c m, a = .controller b ∧ s.controller.act confs b = some (c, some m) ∧
      p' = p.deliver m) ∨
    (∃ b, a = .process j b ∧ p.act b = some p') ∨
    (∃ i status, a = .listener i (.reap (.child j status)) ∧ p' = { p with reaped := true }) ∨
    (s.published confs a = [] ∧ (∀ b, a ≠ .process j b) ∧
      ∃ r sink, p' = { p with syncclient := r, sink := sink }) := by
  have hsame : s.published confs a = [] → (∀ b, a ≠ .process j b) → p' = p →
      (s.published confs a = [] ∧ (∀ b, a ≠ .process j b) ∧
        ∃ r sink, p' = { p with syncclient := r, sink := sink }) :=
    fun hm ha hpp => ⟨hm, ha, p.syncclient, p.sink, hpp⟩
  cases a with
  | controller b =>
      obtain ⟨c, m, hact, rfl⟩ := step_controller.mp h
      cases m with
      | none =>
          refine .inr (.inr (.inr (hsame (published_controller hact) (by simp) ?_)))
          exact Option.some.inj (hp'.symm.trans hp)
      | some m =>
          refine .inl ⟨b, c, m, rfl, hact, ?_⟩
          simpa [controllerStep, publish, hp, eq_comm] using hp'
  | serveProcess k =>
      obtain ⟨x, c, hx, -, -, rfl⟩ := step_serveProcess.mp h
      rcases getElem?_set_cases hp' with ⟨rfl, rfl⟩ | ⟨-, hp''⟩
      · obtain rfl := Option.some.inj (hp.symm.trans hx)
        exact .inr (.inr (.inr ⟨rfl, by simp, _, _, rfl⟩))
      · exact .inr (.inr (.inr (hsame rfl (by simp) (Option.some.inj (hp''.symm.trans hp)))))
  | takeProcess k =>
      obtain ⟨x, m, sink, c, hx, -, -, rfl⟩ := step_takeProcess.mp h
      rcases getElem?_set_cases hp' with ⟨rfl, rfl⟩ | ⟨-, hp''⟩
      · obtain rfl := Option.some.inj (hp.symm.trans hx)
        exact .inr (.inr (.inr ⟨rfl, by simp, _, _, rfl⟩))
      · exact .inr (.inr (.inr (hsame rfl (by simp) (Option.some.inj (hp''.symm.trans hp)))))
  | process k b =>
      obtain ⟨x, x', hx, hact, rfl⟩ := step_process.mp h
      rcases getElem?_set_cases hp' with ⟨rfl, rfl⟩ | ⟨hkj, hp''⟩
      · obtain rfl := Option.some.inj (hp.symm.trans hx)
        exact .inr (.inl ⟨b, rfl, hact⟩)
      · exact .inr (.inr (.inr (hsame rfl (by simp [hkj]) (Option.some.inj (hp''.symm.trans hp)))))
  | serveListener k =>
      obtain ⟨l, c, -, -, -, rfl⟩ := step_serveListener.mp h
      exact .inr (.inr (.inr (hsame rfl (by simp) (Option.some.inj (hp'.symm.trans hp)))))
  | takeListener k =>
      obtain ⟨l, m, sink, c, -, -, -, rfl⟩ := step_takeListener.mp h
      exact .inr (.inr (.inr (hsame rfl (by simp) (Option.some.inj (hp'.symm.trans hp)))))
  | listener k b =>
      obtain ⟨l, l', -, -, rfl⟩ := step_listener.mp h
      rcases afterListener_cases hp hp' with rfl | ⟨⟨status, rfl⟩, rfl⟩
      · exact .inr (.inr (.inr (hsame rfl (by simp) rfl)))
      · exact .inr (.inr (.inl ⟨k, status, rfl, rfl⟩))

/-- Nobody else receives on the socket of a process. -/
theorem heardByProcess_eq_nil {j : Nat} {a : Action} (h : ∀ b, a ≠ .process j b) :
    s.heardByProcess j a = [] := by
  unfold heardByProcess
  split
  · rw [if_neg]
    rintro rfl
    exact h _ rfl
  · rfl

/-- A process that receives gets the head of its socket. -/
theorem heardByProcess_receive {j : Nat} {p : Process} (hp : s.processes[j]? = some p)
    {m : Broadcast} {inbox : List Broadcast} (hin : p.subscriber.inbox = m :: inbox) :
    s.heardByProcess j (.process j .receive) = [m] := by
  simp [heardByProcess, hp, hin]

/-- A process that acts receives the head of its socket, or nothing. -/
theorem heardByProcess_act {j : Nat} {p p' : Process} {b : Process.Act}
    (hp : s.processes[j]? = some p) (h : p.Change b p') (hhello : p.loc ≠ .awaitHello) :
    p.subscriber.Hears Process.order (s.heardByProcess j (.process j b)) [] p'.subscriber ∧
    p'.starts = p.starts +
      (s.heardByProcess j (.process j b)).countP (fun m => m.command = .startWebsockets) := by
  cases h with
  | hello hloc => exact absurd hloc hhello
  | @ignore m _ hloc hin =>
      rw [heardByProcess_receive hp hin]
      obtain ⟨-, hm⟩ := hloc.resolve_left fun h => hhello h.1
      have hother : m.command ≠ .startWebsockets := by
        intro hcommand
        cases m with
        | startWebsockets r => exact hm r rfl
        | _ => cases hcommand
      exact ⟨.receive hin, by simp [hother]⟩
  | start hloc hin =>
      rw [heardByProcess_receive hp hin]
      exact ⟨.receive hin, by simp [Broadcast.command]⟩
  | subscribe | synced | result | exit | die => exact ⟨.still rfl, rfl⟩

end State

/-- What has happened to a process while `published` was sent and it received `heard`. -/
structure Process.Hears (heard published : List Broadcast) (p p' : Process) : Prop where
  /-- It does not go back to its outer loop. -/
  inside : p'.loc ≠ .awaitHello
  subscriber : p.subscriber.Hears order heard published p'.subscriber
  /-- It processes every `StartWebsockets` it receives. -/
  starts : p'.starts = p.starts + heard.countP (fun m => m.command = .startWebsockets)

/-- **One step of a live process that has left its outer loop.** -/
theorem State.process_hears {confs : List Config} {s s' : State} {a : Action}
    (h : s.step confs a = some s') {j : Nat} {p p' : Process} (hp : s.processes[j]? = some p)
    (hp' : s'.processes[j]? = some p') (hsubscribed : p.Subscribed) (hinside : p.loc ≠ .awaitHello)
    (hlive : ¬ p.Exited) : p.Hears (s.heardByProcess j a) (s.published confs a) p' := by
  rcases process_cases h hp hp' with ⟨b, c, m, rfl, hact, rfl⟩ | ⟨b, rfl, hact⟩ |
    ⟨i, status, rfl, rfl⟩ | ⟨hpublished, hothers, r, sink, rfl⟩
  · rw [published_controller hact, Process.deliver_of_running hlive]
    exact ⟨hinside, .deliver hsubscribed.inOrder (hsubscribed.joined hinside hlive) m, rfl⟩
  · have hchange := Process.change_of_act hact
    obtain ⟨hhears, hstarts⟩ := heardByProcess_act hp hchange hinside
    exact ⟨hchange.inside hinside, hhears, hstarts⟩
  · exact ⟨hinside, .still rfl, rfl⟩
  · rw [hpublished, heardByProcess_eq_nil hothers]
    exact ⟨hinside, .still rfl, rfl⟩

/-- A process that is alive after a step was alive before it. -/
theorem State.live_of_step {confs : List Config} {s s' : State} {a : Action}
    (h : s.step confs a = some s') {j : Nat} {p p' : Process} (hp : s.processes[j]? = some p)
    (hp' : s'.processes[j]? = some p') (hlive : ¬ p'.Exited) : ¬ p.Exited := by
  intro hexit
  apply hlive
  rcases process_cases h hp hp' with ⟨b, c, m, rfl, -, rfl⟩ | ⟨b, rfl, hact⟩ |
    ⟨i, status, -, rfl⟩ | ⟨-, -, r, sink, rfl⟩
  · rwa [Process.deliver_of_exited hexit]
  · exact (Process.change_of_act hact).exited hexit
  · exact hexit
  · exact hexit

/-- A live process the controller can still let in, or has let in. -/
def Process.Invited (p : Process) : Prop :=
  ¬ p.Exited ∧ (.helloSocket ∈ p.subscriber.inbox ∨ p.loc ≠ .awaitHello)

/-- The HELLO was the last subscription of an invited process. -/
theorem Process.Subscribed.issued_eq_nil {p : Process} (h : p.Subscribed) (hinvited : p.Invited) :
    p.subscriber.issued = [] :=
  hinvited.2.elim (fun hmem => h.inOrder.issued_eq_nil (by decide) rfl hmem rfl)
    fun hloc => h.joined hloc hinvited.1

namespace State

variable {confs : List Config} {s s' : State} {a : Action} {j : Nat} {p p' : Process}

/-- **A process is invited by a HELLO** that is published while it is in its outer loop. -/
theorem process_invited (h : s.step confs a = some s') (hp : s.processes[j]? = some p)
    (hp' : s'.processes[j]? = some p') (hnot : ¬ p.Invited) (hinvited : p'.Invited) :
    a = .controller .helloSocket ∧ p.loc = .awaitHello ∧
      .helloSocket ∉ p.subscriber.inbox ∧
      p'.subscriber.inbox = p.subscriber.inbox ++ [.helloSocket] ∧ p'.loc = p.loc ∧
      p'.starts = p.starts := by
  obtain ⟨hlive', hinvited⟩ := hinvited
  have hlive := live_of_step h hp hp' hlive'
  obtain ⟨hunread, hloc⟩ := not_or.mp fun hor => hnot ⟨hlive, hor⟩
  rw [not_not] at hloc
  have hnone : ¬ (.helloSocket ∈ p.subscriber.inbox ∨ p.loc ≠ .awaitHello) :=
    not_or.mpr ⟨hunread, not_not.mpr hloc⟩
  rcases process_cases h hp hp' with ⟨b, c, m, rfl, hact, rfl⟩ | ⟨b, rfl, hact⟩ |
    ⟨i, status, rfl, rfl⟩ | ⟨-, -, r, sink, rfl⟩
  · have hmem : .helloSocket ∈ (p.subscriber.deliver m).inbox := by
      rw [Process.deliver_of_running hlive] at hinvited
      exact hinvited.resolve_right (not_not.mpr hloc)
    obtain ⟨rfl, hinbox⟩ := Subscriber.eq_of_mem_deliver hunread hmem
    cases Controller.change_of_act hact with
    | helloSocket =>
        rw [Process.deliver_of_running hlive]
        exact ⟨rfl, hloc, hunread, hinbox, rfl, rfl⟩
  · exfalso
    cases Process.change_of_act hact with
    | subscribe => exact hnone hinvited
    | hello _ hin =>
        rw [hin] at hunread
        exact hunread List.mem_cons_self
    | ignore _ hin =>
        refine hnone (hinvited.imp_left fun hmem => ?_)
        rw [hin]
        exact List.mem_cons_of_mem _ hmem
    | start hloc' | synced hloc' | result hloc' | exit hloc' =>
        rw [hloc] at hloc'
        cases hloc'
    | die => exact hlive' ⟨_, rfl⟩
  · exact absurd hinvited hnone
  · exact absurd hinvited hnone

/-- In `s` process `j` was in its outer loop with no HELLO in its socket. Since a HELLO was
published there, it has received `heard` while `published` was sent, and it has come to its state in
`t`. -/
def ProcessSince (j : Nat) (s : State) (heard published : List Broadcast) (t : State) : Prop :=
  ∃ p p' n, s.processes[j]? = some p ∧ p.loc = .awaitHello ∧
    .helloSocket ∉ p.subscriber.inbox ∧ t.processes[j]? = some p' ∧
    Subscriber.Since Process.order .helloSocket .startWebsockets heard published p.subscriber
      p'.subscriber (p'.loc = .awaitHello) n ∧ p'.starts = p.starts + n

/-- The HELLO has just been published. -/
theorem processSince_start (h : s.step confs a = some s') (hp' : s'.processes[j]? = some p')
    (hnot : ∀ p, s.processes[j]? = some p → ¬ p.Invited) (hinvited : p'.Invited) :
    a = .controller .helloSocket ∧ ProcessSince j s [] [] s' := by
  have hany : ∀ k b, a = .process k b → (fun _ : Process.Act => True) b := fun _ _ _ => trivial
  rcases process_moved_or_launched h hany j p' hp' with ⟨p, hp, -⟩ | ⟨i, -, rfl⟩
  · obtain ⟨rfl, hloc, hhello, hinbox, hsame, hstarts⟩ :=
      process_invited h hp hp' (hnot _ hp) hinvited
    exact ⟨rfl, p, p', 0, hp, hloc, hhello, hp', .delivered hinbox (hsame.trans hloc), hstarts⟩
  · -- a process that has just been launched is not invited
    rcases hinvited.2 with hmem | hloc
    · cases hmem
    · exact absurd rfl hloc

/-- **One step since the HELLO**, before or after it is read. -/
theorem ProcessSince.step {t t' : State} {heard published : List Broadcast}
    (hsince : ProcessSince j s heard published t) (h : t.step confs a = some t')
    (hsubscribed : ∀ p ∈ t.processes, p.Subscribed)
    (hinvited : ∀ p, t.processes[j]? = some p → p.Invited)
    (hlive' : ∀ p', t'.processes[j]? = some p' → ¬ p'.Exited) :
    ProcessSince j s (heard ++ t.heardByProcess j a) (published ++ t.published confs a) t' := by
  obtain ⟨p₀, p, n, hp₀, hloc₀, hhello, hp, hsince, hstarts⟩ := hsince
  obtain ⟨p', hp', -⟩ := process_moves (A := fun _ => True) h (fun _ _ _ => trivial) j p hp
  have hin := hsubscribed p (List.mem_of_getElem? hp)
  obtain ⟨hlive, -⟩ := hinvited p hp
  suffices hnext : ∃ n', Subscriber.Since Process.order .helloSocket .startWebsockets
      (heard ++ t.heardByProcess j a) (published ++ t.published confs a) p₀.subscriber
      p'.subscriber (p'.loc = .awaitHello) n' ∧ p'.starts = p₀.starts + n' by
    obtain ⟨n', hnext⟩ := hnext
    exact ⟨p₀, p', n', hp₀, hloc₀, hhello, hp', hnext⟩
  by_cases hloc : p.loc = .awaitHello
  · rcases process_cases h hp hp' with ⟨b, c, m, rfl, hact, rfl⟩ | ⟨b, rfl, hact⟩ |
      ⟨i, status, rfl, rfl⟩ | ⟨hpublished, hothers, r, sink, rfl⟩
    · rw [published_controller hact, heardByProcess_eq_nil (by simp),
        Process.deliver_of_running hlive]
      exact ⟨n, hsince.stay hloc hloc List.not_mem_nil
        (.deliver hin.inOrder (hin.issued_eq_nil (hinvited p hp)) m), hstarts⟩
    · show ∃ n', Subscriber.Since _ _ _ _ (published ++ []) _ _ _ n' ∧ _
      cases Process.change_of_act hact with
      | subscribe => exact ⟨n, hsince.stay hloc hloc List.not_mem_nil (.still rfl), hstarts⟩
      | hello _ hinbox =>
          rw [heardByProcess_receive hp hinbox]
          exact ⟨n, hsince.enter hloc (by simp) hhello hinbox, hstarts⟩
      | ignore hloc' hinbox =>
          rw [heardByProcess_receive hp hinbox]
          obtain ⟨-, hm⟩ := hloc'.resolve_right (by simp [hloc])
          exact ⟨n, hsince.stay hloc hloc (by simpa using Ne.symm hm) (.receive hinbox), hstarts⟩
      | start hloc' | synced hloc' | result hloc' | exit hloc' =>
          rw [hloc] at hloc'
          cases hloc'
      | die => exact absurd ⟨_, rfl⟩ (hlive' _ hp')
    · exact ⟨n, hsince.stay hloc hloc List.not_mem_nil (.still rfl), hstarts⟩
    · rw [hpublished, heardByProcess_eq_nil hothers]
      exact ⟨n, hsince.stay hloc hloc List.not_mem_nil (.still rfl), hstarts⟩
  · have hhears := process_hears h hp hp' hin hloc hlive
    refine ⟨_, hsince.follow hloc hhears.inside hhears.subscriber rfl, ?_⟩
    rw [hhears.starts, hstarts, Nat.add_assoc]

end State

/-- **A process misses nothing.** As `listener_misses_nothing`, for a listener-websocket process
that has left its outer loop and is alive. -/
theorem process_misses_nothing {confs : List Config} {count : Nat} {s' : State}
    {run : List Action}
    (hrun : (coordination confs count).exec (coordination confs count).init run = some s') {j : Nat}
    {p' : Process} (hp' : s'.processes[j]? = some p') (hinside : p'.loc ≠ .awaitHello)
    (hlive : ¬ p'.Exited) :
    ∃ before after s s₁ p since, run = before ++ .controller .helloSocket :: after ∧
      (coordination confs count).exec (coordination confs count).init before = some s ∧
      s.step confs (.controller .helloSocket) = some s₁ ∧
      (coordination confs count).exec s₁ after = some s' ∧
      s.processes[j]? = some p ∧ p.loc = .awaitHello ∧
      .helloSocket ∉ p.subscriber.inbox ∧
      (coordination confs count).observe (State.heardByProcess j) s₁ after =
        p.subscriber.inbox ++ .helloSocket :: since ∧
      since ++ p'.subscriber.inbox =
        ((coordination confs count).observe (State.published confs) s₁ after).filter
          (·.command ∈ Process.order) ∧
      p'.starts = p.starts + since.countP (·.command = .startWebsockets) := by
  have hsplit := observe_since (M := coordination confs count) (f := State.heardByProcess j)
    (g := State.published confs) (J := fun s => ∃ p, s.processes[j]? = some p ∧ p.Invited)
    (E := fun _ a _ => a = .controller .helloSocket) (P := State.ProcessSince j) ?_ ?_ ?_ hrun
    ⟨p', hp', hlive, .inr hinside⟩
  · obtain ⟨before, a, after, s, s₁, rfl, hbefore, hstep, hafter, rfl, hsince⟩ := hsplit
    obtain ⟨p, x, n, hp, hloc, hhello, hx, hsince, hstarts⟩ := hsince
    obtain rfl := Option.some.inj (hp'.symm.trans hx)
    obtain ⟨since, hheard, hrest, rfl⟩ := hsince.read hinside
    exact ⟨before, after, s, s₁, p, since, rfl, hbefore, hstep, hafter, hp, hloc, hhello, hheard,
      hrest, hstarts⟩
  · rintro ⟨p, hp, -⟩
    cases hp
  · intro s a s' _ hstep hnot hJ
    obtain ⟨p', hp', hinvited⟩ := hJ
    exact State.processSince_start hstep hp' (fun p hp hinv => hnot ⟨p, hp, hinv⟩) hinvited
  · intro s heard published t a t' ht hJ hJ' hsince hstep
    obtain ⟨x, hx, hinvited⟩ := hJ
    obtain ⟨x', hx', hinvited'⟩ := hJ'
    refine hsince.step hstep (subscribed_of_reachable ht) ?_ ?_
    · intro y hy
      rwa [← Option.some.inj (hx.symm.trans hy)]
    · intro y hy
      rw [← Option.some.inj (hx'.symm.trans hy)]
      exact hinvited'.1

/-- As `soloRun` until `StartWebsockets` has been published, with a second HELLO that is published
before the process reads the first one. -/
def secondHelloRun : List Action :=
  soloRun.take 15 ++ [.controller .helloSocket] ++ (soloRun.drop 15).take 5

/-- The process of `secondHelloRun` has read both HELLOs and still has its `StartWebsockets` to
read. -/
theorem process_misses_nothing_second_hello :
    ∃ s' p', (coordination [.solo] 1).exec (coordination [.solo] 1).init secondHelloRun = some s' ∧
      s'.processes[0]? = some p' ∧ p'.loc = .awaitRequest ∧
      ∃ before after s₁ since, secondHelloRun = before ++ .controller .helloSocket :: after ∧
        (coordination [.solo] 1).exec s₁ after = some s' ∧
        since ++ p'.subscriber.inbox = ((coordination [.solo] 1).observe
          (State.published [.solo]) s₁ after).filter (·.command ∈ Process.order) := by
  obtain ⟨s', hs', hend⟩ := (coordination [.solo] 1).exists_of_exec_any secondHelloRun
    (fun s' => ∃ p', s'.processes[0]? = some p' ∧ p'.loc = .awaitRequest) (by decide)
  obtain ⟨p', hp', hloc⟩ := of_decide_eq_true hend
  obtain ⟨before, after, s, s₁, p, since, hrun, -, -, hafter, -, -, -, -, hrest, -⟩ :=
    process_misses_nothing hs' hp' (by simp [hloc]) (by simp [Process.Exited, hloc])
  exact ⟨s', p', hs', hp', hloc, before, after, s₁, since, hrun, hafter, hrest⟩

end WsPerftester
