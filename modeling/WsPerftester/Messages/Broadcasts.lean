import Mathlib.Data.List.Basic

/-! # Configurations and the controller's broadcasts

The configuration record of `controller.cpp` and the five messages the controller publishes on its
PUB socket. A subscription is a prefix filter on the first frame of a message; the first frame of
every broadcast is one of five command words, none of which is a prefix of another
(`Command.eq_of_prefix`), so a subscription to one word selects exactly the broadcasts that start
with that word. -/

namespace WsPerftester

/-- `INT_MIN` of the 32-bit `int` in which the source keeps every count. -/
def intMin : Int := -2147483648

/-- `INT_MAX`. -/
def intMax : Int := 2147483647

/-- The values of an `int`. -/
def IsInt (z : Int) : Prop := intMin ≤ z ∧ z ≤ intMax

instance (z : Int) : Decidable (IsInt z) := inferInstanceAs (Decidable (_ ∧ _))

/-- One entry of the array `conf` in `controller.cpp` (`bwBytes` is read by no live code). -/
structure Config where
  /-- Listeners that take part in the iteration. -/
  machines : Int
  /-- Processes each listener launches. -/
  processes : Int
  /-- Websocket clients in each process. -/
  instances : Int
  /-- Mean interval between two messages, in seconds. -/
  interval : Int
  /-- Messages each client sends before it closes. -/
  messages : Int
  /-- Length of the random payload in bytes. -/
  messageLength : Int
  /-- Whether to send messages once the connection is established, or only connect. -/
  sendMessages : Bool
  /-- Whether the interval is randomized. -/
  randomizedInterval : Bool
  /-- Every count is an `int`. -/
  ints : ∀ z ∈ [machines, processes, instances, interval, messages, messageLength], IsInt z
  deriving DecidableEq

namespace Config

/-- The values the constructor `config ()` assigns. -/
def default : Config where
  machines := 1
  processes := 100
  instances := 75
  interval := 60
  messages := 12
  messageLength := 240
  sendMessages := true
  randomizedInterval := true
  ints := by decide

/-- The configurations of the checked-in loop `for (iteration = 16; iteration < 17; ...)`, whose
only entry had `machines` set to `16 + 1`. -/
def checkedIn : List Config := [{ default with machines := 17, ints := by decide }]

/-- Number of `Finished` notices the collection loop waits for. The product is exact: where it
leaves the range of `int`, the behaviour of the program is undefined. -/
def finishedExpected (conf : Config) : Int := conf.machines * conf.processes

/-- The local `resultsExpected` of the controller. -/
def resultsExpected (conf : Config) : Int := conf.machines * conf.processes * conf.instances

end Config

/-- The parameters a `StartWebsockets` broadcast carries. -/
structure WebsocketRequest where
  /-- Address of the server under test. -/
  uri : String
  /-- Clients to create. -/
  instances : Int
  /-- Whether the clients are to send messages. -/
  sendMessages : Bool
  /-- Whether the interval is randomized. -/
  randomizedInterval : Bool
  /-- Mean interval. -/
  interval : Int
  /-- Messages per client. -/
  messages : Int
  /-- Payload length. -/
  messageLength : Int
  deriving DecidableEq, Repr

/-- The request the controller broadcasts for one configuration. -/
def Config.websocketRequest (conf : Config) : WebsocketRequest where
  uri := "wss://54.84.134.93:9002"
  instances := conf.instances
  sendMessages := conf.sendMessages
  randomizedInterval := conf.randomizedInterval
  interval := conf.interval
  messages := conf.messages
  messageLength := conf.messageLength

/-- The command words that open the controller's broadcasts and name the subscriptions. -/
inductive Command
  /-- Listeners launch their processes. -/
  | startProcesses
  /-- Listeners terminate. -/
  | theEnd
  /-- Listeners send their synchronisation request. -/
  | helloListener
  /-- Processes start their websocket clients. -/
  | startWebsockets
  /-- Processes send their synchronisation request. -/
  | helloSocket
  deriving DecidableEq, Repr

/-- The text of a command word. -/
def Command.text : Command → String
  | .startProcesses => "StartProcesses"
  | .theEnd => "END"
  | .helloListener => "HELLO_LISTENER"
  | .startWebsockets => "StartWebsockets"
  | .helloSocket => "HELLO_SOCKET"

/-- No command word is a prefix of another one: a subscription to a word matches that word only. -/
theorem Command.eq_of_prefix {c d : Command} (h : c.text.toList <+: d.text.toList) : c = d := by
  -- the test on characters decides the five words against each other
  rw [← List.isPrefixOf_iff_prefix] at h
  cases c <;> cases d <;> first | rfl | exact absurd h (by decide)

/-- The messages the controller publishes. -/
inductive Broadcast
  /-- Sent each time the listener barrier times out. -/
  | helloListener
  /-- The listener barrier is passed; `processes` is the number each listener launches. -/
  | startProcesses (processes : Int)
  /-- Sent each time the process barrier times out. -/
  | helloSocket
  /-- The process barrier is passed. -/
  | startWebsockets (request : WebsocketRequest)
  /-- The controller is about to exit. -/
  | theEnd
  deriving DecidableEq, Repr

namespace Broadcast

/-- The command word a broadcast starts with. -/
def command : Broadcast → Command
  | .helloListener => .helloListener
  | .startProcesses _ => .startProcesses
  | .helloSocket => .helloSocket
  | .startWebsockets _ => .startWebsockets
  | .theEnd => .theEnd

/-- The text `std::to_string` makes of a `bool`, which it promotes to `int`. -/
def boolText (b : Bool) : String := if b then "1" else "0"

/-- The frames of a broadcast, in the order of the `s_sendmore` calls. -/
def frames : Broadcast → List String
  | .helloListener => ["HELLO_LISTENER"]
  | .startProcesses processes => ["StartProcesses", toString processes, ""]
  | .helloSocket => ["HELLO_SOCKET"]
  | .startWebsockets request =>
      ["StartWebsockets", request.uri, toString request.instances, boolText request.sendMessages,
        boolText request.randomizedInterval, toString request.interval, toString request.messages,
        toString request.messageLength, ""]
  | .theEnd => ["END"]

/-- The first frame of a broadcast is its command word. -/
theorem head?_frames (m : Broadcast) : m.frames.head? = some m.command.text := by
  cases m <;> rfl

/-- A subscription to the word `c` selects a broadcast exactly when that word opens it. -/
theorem prefix_head_iff (c : Command) (m : Broadcast) :
    (∃ f, m.frames.head? = some f ∧ c.text.toList <+: f.toList) ↔ m.command = c := by
  rw [head?_frames]
  constructor
  · rintro ⟨f, hf, hpre⟩
    cases hf
    exact (Command.eq_of_prefix hpre).symm
  · rintro rfl
    exact ⟨_, rfl, List.prefix_refl _⟩

end Broadcast

end WsPerftester
