import WsPerftester.Coordination.Requests
import WsPerftester.Reports.Workload

/-! # Tests that only connect

The configuration has a flag `send_messages`, which the controller broadcasts and the process
decodes. `doTheWork` takes it as a parameter and hands it to no one: the clients send their messages
all the same (`connects_only_iff`). -/

namespace WsPerftester

/-- `doTheWork` on the parameters of a request: of these, the clients are given the number of
messages, the interval and the length. -/
def WebsocketRequest.doTheWork (request : WebsocketRequest) (stats : Client → String) :
    TransitionSystem Workload Workload.Act :=
  Workload.system request.instances request.messages stats

/-- No client of the process ever calls `send_message`. -/
def WebsocketRequest.SendsNothing (request : WebsocketRequest) (stats : Client → String) : Prop :=
  ∀ run w, (request.doTheWork stats).exec (request.doTheWork stats).init run = some w →
    ∀ s, some s ∈ w.clients → s.client.sends = []

namespace Config

/-- The configuration with `send_messages` off. -/
def connectOnly (conf : Config) : Config := { conf with sendMessages := false }

/-- Whatever a process decodes from the broadcast of the configuration, it sends nothing. -/
def ConnectsOnly (conf : Config) (stats : Client → String) : Prop :=
  ∀ declared request rest,
    Process.readRequest declared (Broadcast.startWebsockets conf.websocketRequest).frames =
      some (request, rest) → request.SendsNothing stats

/-- A process decodes what the controller has encoded. -/
theorem readRequest_websocketRequest (conf : Config) (declared : WebsocketRequest) :
    Process.readRequest declared (Broadcast.startWebsockets conf.websocketRequest).frames =
      some (conf.websocketRequest, []) := by
  have hsendable : conf.websocketRequest.Sendable := conf.sendable rfl
  have hread := Process.readRequest_startWebsockets declared [] hsendable
  rwa [List.append_nil] at hread

end Config

namespace Workload

variable {instances messages : Int} {stats : Client → String}

/-- A process with a single client follows the run of this client. -/
theorem exec_client {s s' : Links} {sink : List Message} {run : List Links.Act}
    (hrun : (Links.system .base messages 0).exec s run = some s') :
    (system instances messages stats).exec ⟨.running 1, [some s], sink⟩ (run.map (.client 0)) =
      some ⟨.running 1, [some s'], sink⟩ := by
  induction run generalizing s with
  | nil => cases hrun; rfl
  | cons a run ih =>
      obtain ⟨t, hstep, hrest⟩ := Option.bind_eq_some_iff.mp hrun
      have hstep : Links.step .base messages s a = some t := hstep
      have halive : s.client.loc ≠ .terminated := (Links.moves_of_step hstep).1.2
      have hfirst : (system instances messages stats).step ⟨.running 1, [some s], sink⟩
          (.client 0 a) = some ⟨.running 1, [some t], sink⟩ := by
        simp [system, step, killed, halive, Loc.joined, hstep]
      rw [List.map_cons, TransitionSystem.exec_cons, hfirst]
      exact ih hrest

/-- The connection is opened, and the client makes its first call of `send_message`. -/
def firstSend : List Links.Act :=
  [.thread .proceed, .opens .primary 1000000 false, .thread .proceed, .thread .proceed,
    .thread (.send 2000000 false false)]

/-- Every client with a message to send gets that far. -/
theorem exec_firstSend (hmessages : 0 < messages) :
    ∃ s, (Links.system .base messages 0).exec (Links.start 0) firstSend = some s ∧
      s.client.sends = [⟨2000000, .outstanding⟩] := by
  have hfirst : (Links.system .base messages 0).step (Links.start 0) (.thread .proceed) =
      some { client := { loc := .awake, mConStart := 0 } } := by
    simp [Links.system, Links.step, Links.start, Client.step, Client.proceed, Client.goto,
      Client.Act.isEvent, hmessages]
  have hrest : (((Links.system .base messages 0).exec
      { client := { loc := .awake, mConStart := 0 } } firstSend.tail).any fun s =>
        s.client.sends = [⟨2000000, .outstanding⟩]) = true := rfl
  obtain ⟨s, hexec, hsends⟩ := (Option.any_eq_true _ _).mp hrest
  refine ⟨s, ?_, of_decide_eq_true hsends⟩
  rw [firstSend, TransitionSystem.exec_cons, hfirst]
  exact hexec

/-- A process with a client and a message to send has a run in which it sends. -/
theorem exists_send (hinstances : 0 < instances) (hmessages : 0 < messages) :
    ∃ run w, (system instances messages stats).exec (system instances messages stats).init run =
      some w ∧ ∃ s, some s ∈ w.clients ∧ s.client.sends ≠ [] := by
  obtain ⟨s, hrun, hsends⟩ := exec_firstSend hmessages
  have hstart : (system instances messages stats).step {} (.run (some 0)) =
      some ⟨.running 1, [some (Links.start 0)], []⟩ := by
    simp [system, step, killed, hinstances]
  refine ⟨.run (some 0) :: firstSend.map (.client 0), ⟨.running 1, [some s], []⟩, ?_, s, by simp,
      ?_⟩
  · rw [TransitionSystem.exec_cons]
    show ((system instances messages stats).step {} (.run (some 0))).bind _ = _
    rw [hstart]
    exact exec_client hrun
  · rw [hsends]
    exact List.cons_ne_nil _ _

/-- Without instances there is no client. -/
theorem clients_of_nonpos {run : List Act} {w : Workload} (hrun :
    (system instances messages stats).exec (system instances messages stats).init run = some w)
    (hinstances : instances ≤ 0) : w.clients = [] := by
  have hinv := inv_of_exec hrun
  have hlength := hinv.length
  have hbound := hinv.bound
  refine List.eq_nil_of_length_eq_zero ?_
  cases hloc : w.loc <;> simp only [hloc, Loc.launched, Loc.position] at hlength hbound <;> omega

end Workload

/-- **When a test only connects.** There is no instance, or no message to send. -/
theorem connects_only_iff (conf : Config) (stats : Client → String) :
    conf.connectOnly.ConnectsOnly stats ↔ conf.instances ≤ 0 ∨ conf.messages ≤ 0 := by
  constructor
  · intro hconnects
    by_contra hnot
    obtain ⟨hinstances, hmessages⟩ : 0 < conf.instances ∧ 0 < conf.messages := by omega
    have hread := conf.connectOnly.readRequest_websocketRequest ⟨"", 0, false, false, 0, 0, 0⟩
    obtain ⟨run, w, hrun, s, hs, hsends⟩ := @Workload.exists_send _ _ stats hinstances hmessages
    exact hsends (hconnects _ _ _ hread run w hrun s hs)
  · intro hnone declared request rest hread run w hrun s hs
    have hdecoded := conf.connectOnly.readRequest_websocketRequest declared
    rw [hread] at hdecoded
    obtain ⟨rfl, rfl⟩ := Prod.mk.inj (Option.some.inj hdecoded)
    rcases hnone with hinstances | hmessages
    · rw [Workload.clients_of_nonpos hrun hinstances] at hs
      cases hs
    · have hw : (conf.connectOnly.websocketRequest.doTheWork stats).Reachable w :=
        TransitionSystem.reachable_of_exec _ hrun
      obtain ⟨conStart, hreachable⟩ := Workload.reachable_clients hw s hs
      have hbound := (Client.length_mStats_le (Links.reachable_client hreachable)).2
      have hmessages : conf.connectOnly.websocketRequest.messages ≤ 0 := hmessages
      exact List.eq_nil_of_length_eq_zero (by omega)

/-- The default configuration with `send_messages` off sends. -/
theorem connect_only_test_sends :
    ¬ Config.default.connectOnly.ConnectsOnly (Client.getStats wholeMillis 0) := by
  intro hconnects
  have hread := Config.default.connectOnly.readRequest_websocketRequest
    ⟨"", 0, false, false, 0, 0, 0⟩
  obtain ⟨run, w, hrun, s, hs, hsends⟩ := @Workload.exists_send 75 12
    (Client.getStats wholeMillis 0) (by decide) (by decide)
  exact hsends (hconnects _ _ _ hread run w hrun s hs)

end WsPerftester
