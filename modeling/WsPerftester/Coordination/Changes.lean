import WsPerftester.Coordination.Parties

/-! # What each action of a party does

The action functions of `Parties` read as relations, with one constructor for each branch of the
source that an action can take and with the guards of that branch as hypotheses. Invariants are
proved by cases on these relations and never unfold an action function. -/

namespace WsPerftester

/-- The branches of `listener.cpp`. -/
inductive Listener.Change (l : Listener) : Listener.Act → Listener → Prop
  | subscribe {c : Command} {issued : List Command} (h : l.subscriber.issued = c :: issued) :
      Change l .subscribe { l with
        subscriber :=
          { l.subscriber with issued := issued, topics := l.subscriber.topics ++ [c] } }
  | hello {inbox : List Broadcast} (hloc : l.loc = .awaitHello)
      (hin : l.subscriber.inbox = .helloListener :: inbox) :
      Change l .receive { l with
        loc := .awaitSync
        subscriber := { l.subscriber with inbox := inbox }
        syncclient := .requested
        requests := l.requests + 1 }
  | ignore {m : Broadcast} {inbox : List Broadcast}
      (hloc : (l.loc = .awaitHello ∧ m ≠ .helloListener) ∨
        (l.loc = .awaitRequest ∧ m ≠ .theEnd ∧ ∀ n, m ≠ .startProcesses n))
      (hin : l.subscriber.inbox = m :: inbox) :
      Change l .receive { l with subscriber := { l.subscriber with inbox := inbox } }
  | theEnd {inbox : List Broadcast} (hloc : l.loc = .awaitRequest)
      (hin : l.subscriber.inbox = .theEnd :: inbox) :
      Change l .receive { l with
        loc := .terminated
        subscriber := { l.subscriber with inbox := inbox } }
  | start {processes : Int} {inbox : List Broadcast} (hloc : l.loc = .awaitRequest)
      (hin : l.subscriber.inbox = .startProcesses processes :: inbox) :
      Change l .receive { l with
        loc := .launching processes 0
        subscriber := { l.subscriber with inbox := inbox }
        starts := l.starts + 1 }
  | synced (hloc : l.loc = .awaitSync) (hreply : l.syncclient = .replied) :
      Change l .synced { l with loc := .awaitRequest, syncclient := .idle }
  | launch {processes : Int} {launched : Nat} (hloc : l.loc = .launching processes launched)
      (hmore : (launched : Int) < processes) :
      Change l .launch { l with loc := .launching processes (launched + 1) }
  | launched {processes : Int} {launched : Nat} (hloc : l.loc = .launching processes launched)
      (hdone : ¬ (launched : Int) < processes) :
      Change l .launched { l with loc := .reaping processes }
  | running {unfinished : Int} (hloc : l.loc = .reaping unfinished) (hmore : 0 < unfinished) :
      Change l (.reap .running) l
  | error {unfinished status : Int} (hloc : l.loc = .reaping unfinished) (hmore : 0 < unfinished) :
      Change l (.reap (.error status)) (l.report unfinished status)
  | child {unfinished status : Int} {pid : Nat} (hloc : l.loc = .reaping unfinished)
      (hmore : 0 < unfinished) :
      Change l (.reap (.child pid status)) (l.report unfinished status)
  | allReaped {unfinished : Int} (hloc : l.loc = .reaping unfinished)
      (hdone : ¬ 0 < unfinished) :
      Change l .allReaped { l with loc := .awaitRequest }

/-- A received broadcast takes one of the branches of the two receiving loops. -/
private theorem Listener.change_of_receive {l : Listener} {m : Broadcast} {inbox : List Broadcast}
    (hloc : l.loc = .awaitHello ∨ l.loc = .awaitRequest) (hin : l.subscriber.inbox = m :: inbox) :
    l.Change .receive
      (handle { l with subscriber := { l.subscriber with inbox := inbox } } m) := by
  rcases hloc with hloc | hloc
  · by_cases hm : m = .helloListener
    · subst hm
      simpa only [handle, hloc] using Change.hello hloc hin
    · -- in the outer loop anything but the HELLO word falls through
      have hskip : handle { l with subscriber := { l.subscriber with inbox := inbox } } m =
          { l with subscriber := { l.subscriber with inbox := inbox } } := by
        cases m <;> simp_all [handle]
      rw [hskip]
      exact .ignore (.inl ⟨hloc, hm⟩) hin
  · cases m with
    | theEnd => simpa only [handle, hloc] using Change.theEnd hloc hin
    | startProcesses n => simpa only [handle, hloc] using Change.start hloc hin
    | _ =>
      simpa only [handle, hloc] using
        Change.ignore (.inr ⟨hloc, by simp, by simp⟩) hin

/-- **Every action of a listener is one of the branches.** -/
theorem Listener.change_of_act {l l' : Listener} {a : Listener.Act} (h : l.act a = some l') :
    l.Change a l' := by
  cases a with
  | subscribe =>
      simp only [act, Subscriber.subscribe] at h
      split at h
      · cases h
      · next hissued => cases h; exact .subscribe hissued
  | receive =>
      simp only [act, Subscriber.receive] at h
      split at h
      · next hloc =>
          split at h
          · cases h
          · next hin => cases h; exact change_of_receive hloc hin
      · cases h
  | synced =>
      simp only [act] at h
      split at h
      · next hloc => cases h; exact .synced hloc.1 hloc.2
      · cases h
  | launch =>
      simp only [act] at h
      split at h
      · next hloc =>
          split at h
          · next hmore => cases h; exact .launch hloc hmore
          · cases h
      · cases h
  | launched =>
      simp only [act] at h
      split at h
      · next hloc =>
          split at h
          · cases h
          · next hdone => cases h; exact .launched hloc hdone
      · cases h
  | reap r =>
      simp only [act] at h
      split at h
      · next hloc =>
          split at h
          · next hmore =>
              cases r with
              | running => cases h; exact .running hloc hmore
              | error status => cases h; exact .error hloc hmore
              | child pid status => cases h; exact .child hloc hmore
          · cases h
      · cases h
  | allReaped =>
      simp only [act] at h
      split at h
      · next hloc =>
          split at h
          · cases h
          · next hdone => cases h; exact .allReaped hloc hdone
      · cases h

/-- The branches of `listener-websocket.cpp`. -/
inductive Process.Change (p : Process) : Process.Act → Process → Prop
  | subscribe {c : Command} {issued : List Command} (h : p.subscriber.issued = c :: issued) :
      Change p .subscribe { p with
        subscriber :=
          { p.subscriber with issued := issued, topics := p.subscriber.topics ++ [c] } }
  | hello {inbox : List Broadcast} (hloc : p.loc = .awaitHello)
      (hin : p.subscriber.inbox = .helloSocket :: inbox) :
      Change p .receive { p with
        loc := .awaitSync
        subscriber := { p.subscriber with inbox := inbox }
        syncclient := .requested
        requests := p.requests + 1 }
  | ignore {m : Broadcast} {inbox : List Broadcast}
      (hloc : (p.loc = .awaitHello ∧ m ≠ .helloSocket) ∨
        (p.loc = .awaitRequest ∧ ∀ r, m ≠ .startWebsockets r))
      (hin : p.subscriber.inbox = m :: inbox) :
      Change p .receive { p with subscriber := { p.subscriber with inbox := inbox } }
  | start {request : WebsocketRequest} {inbox : List Broadcast} (hloc : p.loc = .awaitRequest)
      (hin : p.subscriber.inbox = .startWebsockets request :: inbox) :
      Change p .receive { p with
        loc := .working request.instances 0
        subscriber := { p.subscriber with inbox := inbox }
        starts := p.starts + 1 }
  | synced (hloc : p.loc = .awaitSync) (hreply : p.syncclient = .replied) :
      Change p .synced { p with loc := .awaitRequest, syncclient := .idle }
  | result {instances : Int} {reported : Nat} {stats : String}
      (hloc : p.loc = .working instances reported) (hmore : (reported : Int) < instances) :
      Change p (.result stats) { p with
        loc := .working instances (reported + 1)
        sink := p.sink ++ [.result stats]
        pushed := p.pushed + 1 }
  | exit {instances : Int} {reported : Nat} (hloc : p.loc = .working instances reported)
      (hdone : ¬ (reported : Int) < instances) :
      Change p .exit { p with loc := .exited 0 }
  | die {status : Int} (hloc : ¬ p.Exited) :
      Change p (.die status) { p with loc := .exited status }

/-- A received broadcast takes one of the branches of the two receiving loops. -/
private theorem Process.change_of_receive {p : Process} {m : Broadcast} {inbox : List Broadcast}
    (hloc : p.loc = .awaitHello ∨ p.loc = .awaitRequest) (hin : p.subscriber.inbox = m :: inbox) :
    p.Change .receive
      (handle { p with subscriber := { p.subscriber with inbox := inbox } } m) := by
  rcases hloc with hloc | hloc
  · by_cases hm : m = .helloSocket
    · subst hm
      simpa only [handle, hloc] using Change.hello hloc hin
    · -- in the outer loop anything but the HELLO word falls through
      have hskip : handle { p with subscriber := { p.subscriber with inbox := inbox } } m =
          { p with subscriber := { p.subscriber with inbox := inbox } } := by
        cases m <;> simp_all [handle]
      rw [hskip]
      exact .ignore (.inl ⟨hloc, hm⟩) hin
  · cases m with
    | startWebsockets r => simpa only [handle, hloc] using Change.start hloc hin
    | _ => simpa only [handle, hloc] using Change.ignore (.inr ⟨hloc, by simp⟩) hin

/-- **Every action of a process is one of the branches.** -/
theorem Process.change_of_act {p p' : Process} {a : Process.Act} (h : p.act a = some p') :
    p.Change a p' := by
  cases a with
  | subscribe =>
      simp only [act, Subscriber.subscribe] at h
      split at h
      · cases h
      · next hissued => cases h; exact .subscribe hissued
  | receive =>
      simp only [act, Subscriber.receive] at h
      split at h
      · next hloc =>
          split at h
          · cases h
          · next hin => cases h; exact change_of_receive hloc hin
      · cases h
  | synced =>
      simp only [act] at h
      split at h
      · next hloc => cases h; exact .synced hloc.1 hloc.2
      · cases h
  | result stats =>
      simp only [act] at h
      split at h
      · next hloc =>
          split at h
          · next hmore => cases h; exact .result hloc hmore
          · cases h
      · cases h
  | exit =>
      simp only [act] at h
      split at h
      · next hloc =>
          split at h
          · cases h
          · next hdone => cases h; exact .exit hloc hdone
      · cases h
  | die status =>
      simp only [act] at h
      split at h
      · cases h
      · next hloc => cases h; exact .die fun ⟨st, hst⟩ => hloc st hst

/-- The branches of `controller.cpp` that involve no other party, with what they publish. -/
inductive Controller.Change (confs : List Config) (c : Controller) :
    Controller.Act → Controller → Option Broadcast → Prop
  | enter {conf : Config} (hloc : c.loc = .iterate) (hconf : confs[c.iteration]? = some conf) :
      Change confs c .iterate (c.goto (.syncListeners 0)) none
  | theEnd (hloc : c.loc = .iterate) (hconf : confs[c.iteration]? = none) :
      Change confs c .iterate (c.goto .ended) (some .theEnd)
  | helloListener {conf : Config} {n : Nat} (hloc : c.loc = .syncListeners n)
      (hconf : confs[c.iteration]? = some conf) (hmore : (n : Int) < conf.machines) :
      Change confs c .helloListener c (some .helloListener)
  | startProcesses {conf : Config} {n : Nat} (hloc : c.loc = .syncListeners n)
      (hconf : confs[c.iteration]? = some conf) (hdone : ¬ (n : Int) < conf.machines) :
      Change confs c .startProcesses (c.goto (.syncProcesses 0))
        (some (.startProcesses conf.processes))
  | helloSocket {conf : Config} {n : Nat} (hloc : c.loc = .syncProcesses n)
      (hconf : confs[c.iteration]? = some conf) (hmore : (n : Int) < conf.finishedExpected) :
      Change confs c .helloSocket c (some .helloSocket)
  | startWebsockets {conf : Config} {n : Nat} (hloc : c.loc = .syncProcesses n)
      (hconf : confs[c.iteration]? = some conf) (hdone : ¬ (n : Int) < conf.finishedExpected) :
      Change confs c .startWebsockets (c.goto (.collect {}))
        (some (.startWebsockets conf.websocketRequest))
  | finish {conf : Config} {counters : Counters} (hloc : c.loc = .collect counters)
      (hconf : confs[c.iteration]? = some conf)
      (hdone : ¬ counters.Waiting conf.finishedExpected) :
      Change confs c .finish { iteration := c.iteration + 1, loc := .iterate } none

namespace Controller

variable {confs : List Config} {c c' : Controller}

/-- **Every action of the controller is one of the branches.** -/
theorem change_of_act {a : Controller.Act} {m : Option Broadcast}
    (h : c.act confs a = some (c', m)) : c.Change confs a c' m := by
  cases a with
  | iterate =>
      simp only [act] at h
      split at h
      · next hloc hconf => cases h; exact .enter hloc hconf
      · next hloc hconf => cases h; exact .theEnd hloc hconf
      · cases h
  | helloListener =>
      simp only [act] at h
      split at h
      · next hloc hconf =>
          split at h
          · next hmore => cases h; exact .helloListener hloc hconf hmore
          · cases h
      · cases h
  | startProcesses =>
      simp only [act] at h
      split at h
      · next hloc hconf =>
          split at h
          · cases h
          · next hdone => cases h; exact .startProcesses hloc hconf hdone
      · cases h
  | helloSocket =>
      simp only [act] at h
      split at h
      · next hloc hconf =>
          split at h
          · next hmore => cases h; exact .helloSocket hloc hconf hmore
          · cases h
      · cases h
  | startWebsockets =>
      simp only [act] at h
      split at h
      · next hloc hconf =>
          split at h
          · cases h
          · next hdone => cases h; exact .startWebsockets hloc hconf hdone
      · cases h
  | finish =>
      simp only [act] at h
      split at h
      · next hloc hconf =>
          split at h
          · cases h
          · next hdone => cases h; exact .finish hloc hconf hdone
      · cases h

/-- The listener barrier counts a request. -/
theorem countListener_eq_some (h : c.countListener confs = some c') :
    ∃ n conf, c.loc = .syncListeners n ∧ confs[c.iteration]? = some conf ∧
      (n : Int) < conf.machines ∧ c' = c.goto (.syncListeners (n + 1)) := by
  simp only [countListener] at h
  split at h
  · next hloc hconf =>
      split at h
      · next hmore => exact ⟨_, _, hloc, hconf, hmore, (Option.some.inj h).symm⟩
      · cases h
  · cases h

/-- The process barrier counts a request. -/
theorem countProcess_eq_some (h : c.countProcess confs = some c') :
    ∃ n conf, c.loc = .syncProcesses n ∧ confs[c.iteration]? = some conf ∧
      (n : Int) < conf.finishedExpected ∧ c' = c.goto (.syncProcesses (n + 1)) := by
  simp only [countProcess] at h
  split at h
  · next hloc hconf =>
      split at h
      · next hmore => exact ⟨_, _, hloc, hconf, hmore, (Option.some.inj h).symm⟩
      · cases h
  · cases h

/-- The collection loop takes a message. -/
theorem take_eq_some {m : Message} (h : c.take confs m = some c') :
    ∃ counters conf, c.loc = .collect counters ∧ confs[c.iteration]? = some conf ∧
      counters.Waiting conf.finishedExpected ∧ c' = c.goto (.collect (counters.absorb m)) := by
  simp only [take] at h
  split at h
  · next hloc hconf =>
      split at h
      · next hmore => exact ⟨_, _, hloc, hconf, hmore, (Option.some.inj h).symm⟩
      · cases h
  · cases h

end Controller

end WsPerftester
