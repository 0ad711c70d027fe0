import WsPerftester.Coordination.Parties
import WsPerftester.Lib.TextStream

/-! # Reading a request frame by frame

`Listener.handle` and `Process.handle` take a broadcast as a whole. The programs read it with one
`s_recv` per frame, each with its own positional list of what the frames mean, and extract the
numbers from their texts. `readRequest` is the inner loop of each program on the frames that arrive.
It agrees with `handle` message by message (`Listener.readRequest_frames`,
`Process.readRequest_frames`), so both programs stay on message boundaries, and what they decode is
what the controller encoded (`broadcasts_round_trip`). -/

namespace WsPerftester

open TextStream TextStream.InStream

/-! ## What arrives at a subscriber -/

namespace Subscriber

/-- The frames waiting at a subscriber, and those of the broadcasts published from now on. -/
def incoming (s : Subscriber) (published : List Broadcast) : List String :=
  (published.foldl deliver s).inbox.flatMap Broadcast.frames

/-- What is published reaches the subscribers of its topics, in order. -/
theorem inbox_foldl_deliver (s : Subscriber) (published : List Broadcast) :
    (published.foldl deliver s).inbox =
      s.inbox ++ published.filter fun m => m.command ∈ s.topics := by
  induction published generalizing s with
  | nil => simp
  | cons m published ih =>
      rw [List.foldl_cons, ih, deliver]
      by_cases hm : m.command ∈ s.topics
      · simp [hm]
      · simp [hm]

variable {s : Subscriber} (hs : s.inbox = [])
include hs

/-- The frames that arrive are those of the broadcasts the party has subscribed to. -/
theorem incoming_eq (published : List Broadcast) :
    s.incoming published =
      (published.filter fun m => m.command ∈ s.topics).flatMap Broadcast.frames := by
  rw [incoming, inbox_foldl_deliver, hs, List.nil_append]

/-- Broadcasts published one after the other arrive one after the other. -/
theorem incoming_append (published more : List Broadcast) :
    s.incoming (published ++ more) = s.incoming published ++ s.incoming more := by
  rw [incoming_eq hs, incoming_eq hs, incoming_eq hs, List.filter_append, List.flatMap_append]

/-- A broadcast the party has subscribed to arrives with all its frames. -/
theorem incoming_cons {m : Broadcast} (hm : m.command ∈ s.topics) (more : List Broadcast) :
    s.incoming (m :: more) = m.frames ++ s.incoming more := by
  rw [incoming_eq hs, incoming_eq hs, List.filter_cons_of_pos (by simpa using hm),
    List.flatMap_cons]

/-- **Message boundaries.** The next frame is the command of the next message. -/
theorem head?_incoming (published : List Broadcast) :
    (s.incoming published).head? =
      (published.find? fun m => m.command ∈ s.topics).map fun m => m.command.text := by
  rw [incoming_eq hs, ← List.head?_filter]
  cases published.filter fun m => m.command ∈ s.topics with
  | nil => rfl
  | cons m rest =>
      rw [List.flatMap_cons, List.head?_append, Broadcast.head?_frames]
      rfl

end Subscriber

/-! ## The listener -/

namespace Listener

/-- What makes a listener leave the reading part of its inner loop. -/
inductive Request
  /-- `END`. -/
  | finish
  /-- `StartProcesses`, with the number of processes to launch. -/
  | launch (processes : Int)
  deriving DecidableEq, Repr

/-- The request that a broadcast makes of a synchronised listener. -/
def request? : Broadcast → Option Request
  | .theEnd => some .finish
  | .startProcesses processes => some (.launch processes)
  | _ => none

/-- Where a request takes the listener. -/
def Request.loc : Request → Listener.Loc
  | .finish => .terminated
  | .launch processes => .launching processes 0

/-- `handle` follows the request. -/
theorem loc_handle {l : Listener} (hloc : l.loc = .awaitRequest) (m : Broadcast) :
    (l.handle m).loc = ((request? m).map Request.loc).getD .awaitRequest := by
  cases m <;> simp [handle, request?, Request.loc, hloc]

/-- The inner loop up to the next request, with the frames it leaves unread; `none` if it is blocked
in an `s_recv`. The variable `processes` is declared without a value; it holds `declared`. -/
def readRequest (declared : Int) : List String → Option (Request × List String)
  | [] => none
  | processingRequest :: frames =>
      if processingRequest = "END" then some (.finish, frames)
      else if processingRequest = "StartProcesses" then
        match frames with
        -- the delimiter is received before the number is extracted
        | req :: _ :: frames =>
            let ss : InStream := { chars := req.toList }
            some (.launch ((ss.getInt intMin intMax).1.getD declared), frames)
        | _ => none
      else readRequest declared frames

variable (declared : Int) (frames : List String)

/-- A message that makes no request is read and ignored. -/
theorem readRequest_ignored {m : Broadcast} (hm : request? m = none)
    (hcommand : m.command ≠ .startWebsockets) :
    readRequest declared (m.frames ++ frames) = readRequest declared frames := by
  cases m with
  | helloListener | helloSocket => simp [Broadcast.frames, readRequest]
  | startProcesses processes | theEnd => cases hm
  | startWebsockets request => exact absurd rfl hcommand

/-- `END` ends the loop. -/
theorem readRequest_theEnd :
    readRequest declared (Broadcast.theEnd.frames ++ frames) = some (.finish, frames) := rfl

/-- `StartProcesses` is read with its delimiter, and the number that was sent is extracted. -/
theorem readRequest_startProcesses {processes : Int} (h : IsInt processes) :
    readRequest declared ((Broadcast.startProcesses processes).frames ++ frames) =
      some (.launch processes, frames) := by
  have hcommand : ("StartProcesses" : String) ≠ "END" := by decide
  simp only [Broadcast.frames, readRequest, List.cons_append, List.nil_append, hcommand, if_true,
    if_false, getInt_self h.1 h.2, Option.getD_some]

/-- **The frame reader is in step with `handle`.** On the frames of a message the inner loop does
what `handle` does on the message, and leaves what comes behind the message. -/
theorem readRequest_frames {m : Broadcast} (hcommand : m.command ≠ .startWebsockets)
    (hint : ∀ processes, m = .startProcesses processes → IsInt processes) :
    readRequest declared (m.frames ++ frames) =
      match request? m with
      | some request => some (request, frames)
      | none => readRequest declared frames := by
  cases m with
  | helloListener | helloSocket => exact readRequest_ignored declared frames rfl hcommand
  | startProcesses processes => exact readRequest_startProcesses declared frames (hint _ rfl)
  | theEnd => exact readRequest_theEnd declared frames
  | startWebsockets request => exact absurd rfl hcommand

end Listener

/-! ## The process -/

/-- The limits of a `long`, as which a `bool` is read. -/
def longMin : Int := -9223372036854775808

/-- `LONG_MAX`. -/
def longMax : Int := 9223372036854775807

/-- What the controller can send: a word for the address, and values of `int`. -/
structure WebsocketRequest.Sendable (request : WebsocketRequest) : Prop where
  uri : isWord request.uri = true
  instances : IsInt request.instances
  interval : IsInt request.interval
  messages : IsInt request.messages
  messageLength : IsInt request.messageLength

/-- Every configuration can be sent, whatever the address. -/
theorem Config.sendable (conf : Config) {uri : String} (huri : isWord uri = true) :
    WebsocketRequest.Sendable { conf.websocketRequest with uri := uri } where
  uri := huri
  instances := conf.ints conf.instances (by simp)
  interval := conf.ints conf.interval (by simp)
  messages := conf.ints conf.messages (by simp)
  messageLength := conf.ints conf.messageLength (by simp)

namespace Process

/-- The `switch` over the index `i` of a parameter, on the text of its frame. A target whose
extraction assigns nothing keeps its value. -/
def assign (i : Nat) (text : String) (request : WebsocketRequest) : WebsocketRequest :=
  let ss : InStream := { chars := text.toList }
  match i with
  | 0 => { request with uri := ss.getWord.1.getD request.uri }
  | 1 => { request with instances := (ss.getInt intMin intMax).1.getD request.instances }
  | 2 => { request with sendMessages := (ss.getBool longMin longMax).1.getD request.sendMessages }
  | 3 =>
      { request with
        randomizedInterval := (ss.getBool longMin longMax).1.getD request.randomizedInterval }
  | 4 => { request with interval := (ss.getInt intMin intMax).1.getD request.interval }
  | 5 => { request with messages := (ss.getInt intMin intMax).1.getD request.messages }
  | 6 => { request with messageLength := (ss.getInt intMin intMax).1.getD request.messageLength }
  | _ => request

/-- The loop `for (int i = 0; i < param_count; i++)` from the index `i` on, with `remaining`
parameters to come. -/
def readParameters : Nat → Nat → WebsocketRequest → List String →
    Option (WebsocketRequest × List String)
  | _, 0, request, frames => some (request, frames)
  | _, _ + 1, _, [] => none
  | i, remaining + 1, request, text :: frames =>
      readParameters (i + 1) remaining (assign i text request) frames

/-- The inner loop up to the next request, with the frames it leaves unread; `none` if it is blocked
in an `s_recv`. The variables are declared without a value; they hold `declared`. -/
def readRequest (declared : WebsocketRequest) :
    List String → Option (WebsocketRequest × List String)
  | [] => none
  | processingRequest :: frames =>
      if processingRequest = "StartWebsockets" then
        match readParameters 0 7 declared frames with
        -- the empty delimiter
        | some (request, _ :: frames) => some (request, frames)
        | _ => none
      else readRequest declared frames

/-- The request that a broadcast makes of a synchronised process. -/
def request? : Broadcast → Option WebsocketRequest
  | .startWebsockets request => some request
  | _ => none

/-- `handle` follows the request. -/
theorem loc_handle {p : Process} (hloc : p.loc = .awaitRequest) (m : Broadcast) :
    (p.handle m).loc =
      ((request? m).map fun r => Loc.working r.instances 0).getD .awaitRequest := by
  cases m <;> simp [handle, request?, hloc]

end Process

/-- The text of a `bool` is read back. -/
theorem getBool_boolText (b : Bool) :
    getBool longMin longMax { chars := (Broadcast.boolText b).toList } =
      (some b, { chars := [] }) := by
  cases b <;> rfl

namespace Process

variable (declared : WebsocketRequest) (frames : List String)

/-- A message that makes no request is read and ignored. -/
theorem readRequest_ignored {m : Broadcast} (hm : request? m = none)
    (hcommand : m.command ≠ .startProcesses) :
    readRequest declared (m.frames ++ frames) = readRequest declared frames := by
  cases m with
  | helloListener | helloSocket | theEnd => simp [Broadcast.frames, readRequest]
  | startProcesses processes => exact absurd rfl hcommand
  | startWebsockets request => cases hm

/-- **Parameters round-trip.** The seven parameters are extracted from their own frames. -/
theorem readParameters_frames {request : WebsocketRequest} (h : request.Sendable) :
    readParameters 0 7 declared
        ([request.uri, toString request.instances, Broadcast.boolText request.sendMessages,
          Broadcast.boolText request.randomizedInterval, toString request.interval,
          toString request.messages, toString request.messageLength] ++ frames) =
      some (request, frames) := by
  simp only [readParameters, assign, List.cons_append, List.nil_append, getWord_self h.uri,
    getInt_self h.instances.1 h.instances.2, getInt_self h.interval.1 h.interval.2,
    getInt_self h.messages.1 h.messages.2, getInt_self h.messageLength.1 h.messageLength.2,
    getBool_boolText, Option.getD_some]

/-- `StartWebsockets` is read with its delimiter, and the request that was sent is extracted. -/
theorem readRequest_startWebsockets {request : WebsocketRequest} (h : request.Sendable) :
    readRequest declared ((Broadcast.startWebsockets request).frames ++ frames) =
      some (request, frames) := by
  have hparameters := readParameters_frames declared ("" :: frames) h
  rw [List.cons_append, List.cons_append, List.cons_append, List.cons_append, List.cons_append,
    List.cons_append, List.cons_append, List.nil_append] at hparameters
  simp only [Broadcast.frames, readRequest, List.cons_append, List.nil_append, if_true, hparameters]

/-- **The frame reader is in step with `handle`.** On the frames of a message the inner loop does
what `handle` does on the message, and leaves what comes behind the message. -/
theorem readRequest_frames {m : Broadcast} (hcommand : m.command ≠ .startProcesses)
    (hsendable : ∀ request, m = .startWebsockets request → request.Sendable) :
    readRequest declared (m.frames ++ frames) =
      match request? m with
      | some request => some (request, frames)
      | none => readRequest declared frames := by
  cases m with
  | helloListener | helloSocket | theEnd => exact readRequest_ignored declared frames rfl hcommand
  | startProcesses processes => exact absurd rfl hcommand
  | startWebsockets request =>
      exact readRequest_startWebsockets declared frames (hsendable request rfl)

end Process

/-! ## The round trip -/

/-- The two HELLOs. -/
def Broadcast.IsHello (m : Broadcast) : Prop := m = .helloListener ∨ m = .helloSocket

/-- A reader that ignores each HELLO ignores all of them. -/
theorem Broadcast.read_hellos {β : Type} {read : List String → β}
    (hread : ∀ m : Broadcast, m.IsHello → ∀ frames, read (m.frames ++ frames) = read frames)
    {ms : List Broadcast} (hms : ∀ m ∈ ms, m.IsHello) (frames : List String) :
    read (ms.flatMap Broadcast.frames ++ frames) = read frames := by
  induction ms with
  | nil => rfl
  | cons m ms ih =>
      rw [List.flatMap_cons, List.append_assoc, hread m (hms m List.mem_cons_self)]
      exact ih fun k hk => hms k (List.mem_cons_of_mem m hk)

/-- A synchronised listener reads and ignores a HELLO. -/
theorem Listener.readRequest_hello (declared : Int) (m : Broadcast) (hm : m.IsHello)
    (frames : List String) :
    readRequest declared (m.frames ++ frames) = readRequest declared frames := by
  rcases hm with rfl | rfl
  · exact readRequest_ignored declared frames rfl Command.noConfusion
  · exact readRequest_ignored declared frames rfl Command.noConfusion

/-- A synchronised process reads and ignores a HELLO. -/
theorem Process.readRequest_hello (declared : WebsocketRequest) (m : Broadcast) (hm : m.IsHello)
    (frames : List String) :
    readRequest declared (m.frames ++ frames) = readRequest declared frames := by
  rcases hm with rfl | rfl
  · exact readRequest_ignored declared frames rfl Command.noConfusion
  · exact readRequest_ignored declared frames rfl Command.noConfusion

/-- **Configuration broadcasts round-trip.** Behind any HELLOs, each of the two programs decodes
what the controller encoded, and its next `s_recv` is at the first frame of its next message. -/
theorem broadcasts_round_trip (conf : Config) (uri : String) (huri : isWord uri = true)
    (listener process : Subscriber) (hlistener : listener.inbox = [])
    (hprocess : process.inbox = []) (hstart : .startProcesses ∈ listener.topics)
    (hwork : .startWebsockets ∈ process.topics) (before after : List Broadcast)
    (hbefore : ∀ m ∈ before, m.IsHello) (processes : Int) (declared : WebsocketRequest) :
    Listener.readRequest processes
        (listener.incoming (before ++ .startProcesses conf.processes :: after)) =
      some (.launch conf.processes, listener.incoming after) ∧
    Process.readRequest declared (process.incoming
        (before ++ .startWebsockets { conf.websocketRequest with uri := uri } :: after)) =
      some ({ conf.websocketRequest with uri := uri }, process.incoming after) ∧
    ∀ s ∈ [listener, process], (s.incoming after).head? =
      (after.find? fun m => m.command ∈ s.topics).map fun m => m.command.text := by
  have hhellos (p : Broadcast → Bool) : ∀ m ∈ before.filter p, m.IsHello := fun m hm =>
    hbefore m (List.mem_of_mem_filter hm)
  refine ⟨?_, ?_, ?_⟩
  · have hints : IsInt conf.processes := conf.ints conf.processes (by simp)
    rw [Subscriber.incoming_append hlistener, Subscriber.incoming_eq hlistener before,
      Broadcast.read_hellos (Listener.readRequest_hello processes) (hhellos _)]
    rw [@Subscriber.incoming_cons _ hlistener (.startProcesses conf.processes) hstart]
    exact Listener.readRequest_startProcesses _ _ hints
  · rw [Subscriber.incoming_append hprocess, Subscriber.incoming_eq hprocess before,
      Broadcast.read_hellos (Process.readRequest_hello declared) (hhellos _)]
    rw [@Subscriber.incoming_cons _ hprocess (.startWebsockets _) hwork]
    exact Process.readRequest_startWebsockets _ _ (conf.sendable huri)
  · intro s hs
    have hinbox : s.inbox = [] := by
      rcases List.mem_pair.mp hs with rfl | rfl
      · exact hlistener
      · exact hprocess
    exact Subscriber.head?_incoming hinbox after

/-- The checked-in counts with a negative interval, which the source does not rule out. -/
def Config.negativeInterval : Config := { Config.default with interval := -5, ints := by decide }

/-- `broadcasts_round_trip` with two HELLOs in front and `END` behind. -/
theorem broadcasts_round_trip_negative :
    Listener.readRequest 0
        ["HELLO_LISTENER", "HELLO_LISTENER", "StartProcesses", "100", "", "END"] =
      some (.launch 100, ["END"]) ∧
    Process.readRequest ⟨"", 0, false, false, 0, 0, 0⟩
        ["StartWebsockets", "ws://localhost:9002", "75", "1", "1", "-5", "12", "240", ""] =
      some (⟨"ws://localhost:9002", 75, true, true, -5, 12, 240⟩, []) := by
  obtain ⟨hlistener, hprocess, -⟩ := broadcasts_round_trip .negativeInterval
    "ws://localhost:9002" rfl
    { issued := [], topics := [.startProcesses, .theEnd, .helloListener] }
    { issued := [], topics := [.startWebsockets, .helloSocket] } rfl rfl (by decide) (by decide)
    [.helloListener, .helloListener] [.theEnd] (by simp [Broadcast.IsHello]) 0
    ⟨"", 0, false, false, 0, 0, 0⟩
  exact ⟨hlistener, hprocess⟩

end WsPerftester
