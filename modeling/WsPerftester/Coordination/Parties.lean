import WsPerftester.Messages.Broadcasts
import WsPerftester.Messages.ResultStream

/-! # The parties of a test run

The three programs `controller.cpp`, `listener.cpp` and `listener-websocket.cpp` as state machines,
one action for each statement another party or the operating system can observe. Each party owns the
near end of its sockets: a `Subscriber` with the subscriptions the publisher has and has not
processed yet and the broadcasts delivered but unread, the state `Req` of its REQ socket, and the
queue of messages pushed to the sink that the controller has not taken yet. -/

namespace WsPerftester

/-! ## Sockets -/

/-- A SUB socket. The publisher processes the subscriptions in the order they were issued and
delivers every message that matches a processed one, in order. -/
structure Subscriber where
  /-- Subscriptions issued by `setsockopt`, not yet processed by the publisher, oldest first. -/
  issued : List Command
  /-- Subscriptions the publisher has processed. -/
  topics : List Command := []
  /-- Broadcasts delivered and not yet received. -/
  inbox : List Broadcast := []
  deriving DecidableEq, Repr

namespace Subscriber

/-- The publisher processes the oldest outstanding subscription. -/
def subscribe (s : Subscriber) : Option Subscriber :=
  match s.issued with
  | [] => none
  | c :: issued => some { s with issued := issued, topics := s.topics ++ [c] }

/-- The publisher sends `m`. -/
def deliver (s : Subscriber) (m : Broadcast) : Subscriber :=
  if m.command ∈ s.topics then { s with inbox := s.inbox ++ [m] } else s

/-- `s_recv(subscriber)` on a whole message. -/
def receive (s : Subscriber) : Option (Broadcast × Subscriber) :=
  match s.inbox with
  | [] => none
  | m :: inbox => some (m, { s with inbox := inbox })

end Subscriber

/-- A REQ socket, with the request it has at the REP socket of the controller. -/
inductive Req
  /-- No request is outstanding. -/
  | idle
  /-- The request is queued at the REP socket, or on its way there. -/
  | requested
  /-- The reply is at the REQ socket, or on its way there. -/
  | replied
  deriving DecidableEq, Repr

/-! ## The listener -/

/-- What `waitpid(0, &status, WNOHANG)` returns. -/
inductive WaitResult
  /-- `0`: no child has changed state. -/
  | running
  /-- `-1`, which leaves the variable `status` with whatever it held. -/
  | error (status : Int)
  /-- The pid of a child, with its status. -/
  | child (pid : Nat) (status : Int)
  deriving DecidableEq, Repr

/-- The statement of `listener.cpp` that is executed next. -/
inductive Listener.Loc
  /-- `s_recv(subscriber)` of the outer loop. -/
  | awaitHello
  /-- `s_recv(syncclient)`. -/
  | awaitSync
  /-- `s_recv(subscriber)` of the inner loop. -/
  | awaitRequest
  /-- The loop that starts the children; `launched` have been started. -/
  | launching (processes : Int) (launched : Nat)
  /-- The loop that waits for the children. -/
  | reaping (unfinished : Int)
  /-- `return 0`. -/
  | terminated
  deriving DecidableEq, Repr

/-- A listener. The last three fields record what it has done so far; no step reads them. -/
structure Listener where
  /-- The next statement. -/
  loc : Listener.Loc := .awaitHello
  /-- Its SUB socket: `StartProcesses`, `END` and, last, `HELLO_LISTENER`. -/
  subscriber : Subscriber := { issued := [.startProcesses, .theEnd, .helloListener] }
  /-- Its REQ socket to `syncservice`. -/
  syncclient : Req := .idle
  /-- Messages pushed and not yet taken by the controller. -/
  sink : List Message := []
  /-- Synchronisation requests sent. -/
  requests : Nat := 0
  /-- `StartProcesses` messages processed. -/
  starts : Nat := 0
  /-- `Finished` messages pushed. -/
  reported : Nat := 0
  deriving DecidableEq, Repr

/-- What a listener, or the network on its behalf, does next. -/
inductive Listener.Act
  /-- The publisher processes its next subscription. -/
  | subscribe
  /-- It receives a broadcast and handles it. -/
  | receive
  /-- It receives the reply to its synchronisation request. -/
  | synced
  /-- It starts one child. -/
  | launch
  /-- All children are started: `unfinished = processes`. -/
  | launched
  /-- It calls `waitpid` and handles the result. -/
  | reap (r : WaitResult)
  /-- No child is unfinished: back to the inner loop. -/
  | allReaped
  deriving DecidableEq, Repr

namespace Listener

/-- The body of the loops of `main` for one broadcast. In the outer loop the frames of a
`StartProcesses` fall through one by one, none of them being `HELLO_LISTENER`. -/
def handle (l : Listener) (m : Broadcast) : Listener :=
  match l.loc, m with
  | .awaitHello, .helloListener =>
      { l with loc := .awaitSync, syncclient := .requested, requests := l.requests + 1 }
  | .awaitRequest, .theEnd => { l with loc := .terminated }
  | .awaitRequest, .startProcesses processes =>
      { l with loc := .launching processes 0, starts := l.starts + 1 }
  -- in the inner loop a further `HELLO_LISTENER` is read and ignored
  | _, _ => l

/-- `--unfinished` and the four frames of a `Finished` message. -/
def report (l : Listener) (unfinished status : Int) : Listener :=
  { l with
    loc := .reaping (unfinished - 1)
    sink := l.sink ++ [.finished "" (toString status)]
    reported := l.reported + 1 }

section Report

variable (l : Listener) (unfinished status : Int)

@[simp] theorem loc_report : (l.report unfinished status).loc = .reaping (unfinished - 1) := rfl

@[simp] theorem subscriber_report : (l.report unfinished status).subscriber = l.subscriber := rfl

@[simp] theorem syncclient_report : (l.report unfinished status).syncclient = l.syncclient := rfl

@[simp] theorem requests_report : (l.report unfinished status).requests = l.requests := rfl

@[simp] theorem starts_report : (l.report unfinished status).starts = l.starts := rfl

@[simp] theorem reported_report : (l.report unfinished status).reported = l.reported + 1 := rfl

@[simp] theorem sink_report :
    (l.report unfinished status).sink = l.sink ++ [.finished "" (toString status)] := rfl

end Report

/-- One action of a listener. -/
def act (l : Listener) : Act → Option Listener
  | .subscribe => l.subscriber.subscribe.map fun s => { l with subscriber := s }
  | .receive =>
      if l.loc = .awaitHello ∨ l.loc = .awaitRequest then
        l.subscriber.receive.map fun (m, s) => { l with subscriber := s }.handle m
      else none
  | .synced =>
      if l.loc = .awaitSync ∧ l.syncclient = .replied then
        some { l with loc := .awaitRequest, syncclient := .idle }
      else none
  | .launch =>
      match l.loc with
      | .launching processes launched =>
          -- `for (int i = 0; i < processes; i++)`
          if (launched : Int) < processes then
            some { l with loc := .launching processes (launched + 1) }
          else none
      | _ => none
  | .launched =>
      match l.loc with
      | .launching processes launched =>
          if (launched : Int) < processes then none else some { l with loc := .reaping processes }
      | _ => none
  | .reap r =>
      match l.loc with
      | .reaping unfinished =>
          if 0 < unfinished then
            match r with
            -- `sleep(10)`, and the loop is entered again
            | .running => some l
            -- both other branches send `Finished`, whichever child it is about
            | .error status => some (l.report unfinished status)
            | .child _ status => some (l.report unfinished status)
          else none
      | _ => none
  | .allReaped =>
      match l.loc with
      | .reaping unfinished => if 0 < unfinished then none else some { l with loc := .awaitRequest }
      | _ => none

/-- The listener when the publisher sends `m`. A terminated process has no socket any more. -/
def deliver (l : Listener) (m : Broadcast) : Listener :=
  if l.loc = .terminated then l else { l with subscriber := l.subscriber.deliver m }

end Listener

/-! ## The listener-websocket process -/

/-- The statement of `listener-websocket.cpp` that is executed next. -/
inductive Process.Loc
  /-- `s_recv(subscriber)` of the outer loop. -/
  | awaitHello
  /-- `s_recv(syncclient)`. -/
  | awaitSync
  /-- `s_recv(subscriber)` of the inner loop. -/
  | awaitRequest
  /-- `doTheWork`; the results of `reported` clients have been sent. -/
  | working (instances : Int) (reported : Nat)
  /-- The process has exited with this status. -/
  | exited (status : Int)
  deriving DecidableEq, Repr

/-- A listener-websocket process. The last four fields record what has happened to it so far; no
step reads them. -/
structure Process where
  /-- The listener that launched it. -/
  parent : Nat
  /-- The next statement. -/
  loc : Process.Loc := .awaitHello
  /-- Its SUB socket: `StartWebsockets` and, last, `HELLO_SOCKET`. -/
  subscriber : Subscriber := { issued := [.startWebsockets, .helloSocket] }
  /-- Its REQ socket to `instance_syncservice`. -/
  syncclient : Req := .idle
  /-- Messages pushed and not yet taken by the controller. -/
  sink : List Message := []
  /-- Synchronisation requests sent. -/
  requests : Nat := 0
  /-- `StartWebsockets` messages processed. -/
  starts : Nat := 0
  /-- `Result` messages pushed. -/
  pushed : Nat := 0
  /-- Whether `waitpid` has returned it to its parent. -/
  reaped : Bool := false
  deriving DecidableEq, Repr

/-- What a process, or the network on its behalf, does next. -/
inductive Process.Act
  /-- The publisher processes its next subscription. -/
  | subscribe
  /-- It receives a broadcast and handles it. -/
  | receive
  /-- It receives the reply to its synchronisation request. -/
  | synced
  /-- It sends the result of one client. -/
  | result (stats : String)
  /-- Every client has reported: it exits with status 0. -/
  | exit
  /-- It exits at any other point: a crash, a failed `exec`, a caught exception. What it has handed
  to its sockets outlives it. -/
  | die (status : Int)
  deriving DecidableEq, Repr

namespace Process

/-- The body of the loops of `main` for one broadcast. -/
def handle (p : Process) (m : Broadcast) : Process :=
  match p.loc, m with
  | .awaitHello, .helloSocket =>
      { p with loc := .awaitSync, syncclient := .requested, requests := p.requests + 1 }
  | .awaitRequest, .startWebsockets request =>
      { p with loc := .working request.instances 0, starts := p.starts + 1 }
  -- in the inner loop a further `HELLO_SOCKET` is read and ignored
  | _, _ => p

/-- One action of a process. -/
def act (p : Process) : Act → Option Process
  | .subscribe => p.subscriber.subscribe.map fun s => { p with subscriber := s }
  | .receive =>
      if p.loc = .awaitHello ∨ p.loc = .awaitRequest then
        p.subscriber.receive.map fun (m, s) => { p with subscriber := s }.handle m
      else none
  | .synced =>
      if p.loc = .awaitSync ∧ p.syncclient = .replied then
        some { p with loc := .awaitRequest, syncclient := .idle }
      else none
  | .result stats =>
      match p.loc with
      | .working instances reported =>
          if (reported : Int) < instances then
            some { p with
              loc := .working instances (reported + 1)
              sink := p.sink ++ [.result stats]
              pushed := p.pushed + 1 }
          else none
      | _ => none
  | .exit =>
      match p.loc with
      | .working instances reported =>
          -- `doTheWork` returns behind its last client, and `main` with it
          if (reported : Int) < instances then none else some { p with loc := .exited 0 }
      | _ => none
  | .die status =>
      match p.loc with
      | .exited _ => none
      | _ => some { p with loc := .exited status }

/-- Whether the process has exited. -/
def Exited (p : Process) : Prop := ∃ status, p.loc = .exited status

/-- The process when the publisher sends `m`. -/
def deliver (p : Process) (m : Broadcast) : Process :=
  match p.loc with
  | .exited _ => p
  | _ => { p with subscriber := p.subscriber.deliver m }

end Process

/-! ## The controller -/

/-- Where the controller is within its loop over the configurations. -/
inductive Controller.Loc
  /-- The head of the loop. -/
  | iterate
  /-- The listener barrier; `subscribers` have been counted. -/
  | syncListeners (subscribers : Nat)
  /-- The process barrier; `processes` have been counted. -/
  | syncProcesses (processes : Nat)
  /-- The collection loop. -/
  | collect (counters : Counters)
  /-- `END` has been published. -/
  | ended
  deriving DecidableEq, Repr

/-- The controller. -/
structure Controller where
  /-- Index of the configuration of the current iteration. -/
  iteration : Nat := 0
  /-- Where it is. -/
  loc : Controller.Loc := .iterate
  deriving DecidableEq, Repr

/-- What the controller does on its own. -/
inductive Controller.Act
  /-- It enters the next iteration, or publishes `END` after the last one. -/
  | iterate
  /-- The listener barrier times out: it publishes `HELLO_LISTENER`. -/
  | helloListener
  /-- The listener barrier is passed: it publishes `StartProcesses`. -/
  | startProcesses
  /-- The process barrier times out: it publishes `HELLO_SOCKET`. -/
  | helloSocket
  /-- The process barrier is passed: it publishes `StartWebsockets`. -/
  | startWebsockets
  /-- The collection loop is left and the statistics are printed. -/
  | finish
  deriving DecidableEq, Repr

namespace Controller

/-- The controller at another place of the same iteration. -/
def goto (c : Controller) (loc : Controller.Loc) : Controller := { c with loc := loc }

/-- One action of the controller, with the broadcast it publishes. -/
def act (confs : List Config) (c : Controller) : Act → Option (Controller × Option Broadcast)
  | .iterate =>
      match c.loc, confs[c.iteration]? with
      -- `subscribers` starts at 0 in every iteration
      | .iterate, some _ => some (c.goto (.syncListeners 0), none)
      | .iterate, none => some (c.goto .ended, some .theEnd)
      | _, _ => none
  | .helloListener =>
      match c.loc, confs[c.iteration]? with
      | .syncListeners n, some conf =>
          if (n : Int) < conf.machines then some (c, some .helloListener) else none
      | _, _ => none
  | .startProcesses =>
      match c.loc, confs[c.iteration]? with
      | .syncListeners n, some conf =>
          if (n : Int) < conf.machines then none
          else some (c.goto (.syncProcesses 0), some (.startProcesses conf.processes))
      | _, _ => none
  | .helloSocket =>
      match c.loc, confs[c.iteration]? with
      | .syncProcesses n, some conf =>
          if (n : Int) < conf.finishedExpected then some (c, some .helloSocket) else none
      | _, _ => none
  | .startWebsockets =>
      match c.loc, confs[c.iteration]? with
      | .syncProcesses n, some conf =>
          if (n : Int) < conf.finishedExpected then none
          else some (c.goto (.collect {}), some (.startWebsockets conf.websocketRequest))
      | _, _ => none
  | .finish =>
      match c.loc, confs[c.iteration]? with
      | .collect counters, some conf =>
          -- the test of the loop is the only one: what is queued is not looked at
          if counters.Waiting conf.finishedExpected then none
          else some ({ iteration := c.iteration + 1, loc := .iterate }, none)
      | _, _ => none

/-- The listener barrier counts one synchronisation request. -/
def countListener (confs : List Config) (c : Controller) : Option Controller :=
  match c.loc, confs[c.iteration]? with
  | .syncListeners n, some conf =>
      if (n : Int) < conf.machines then some (c.goto (.syncListeners (n + 1))) else none
  | _, _ => none

/-- The process barrier counts one synchronisation request. -/
def countProcess (confs : List Config) (c : Controller) : Option Controller :=
  match c.loc, confs[c.iteration]? with
  | .syncProcesses n, some conf =>
      if (n : Int) < conf.finishedExpected then some (c.goto (.syncProcesses (n + 1))) else none
  | _, _ => none

/-- The collection loop takes one message. -/
def take (confs : List Config) (c : Controller) (m : Message) : Option Controller :=
  match c.loc, confs[c.iteration]? with
  | .collect counters, some conf =>
      if counters.Waiting conf.finishedExpected then some (c.goto (.collect (counters.absorb m)))
      else none
  | _, _ => none

end Controller

end WsPerftester
