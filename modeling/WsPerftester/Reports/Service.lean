import WsPerftester.Client.Termination
import WsPerftester.Reports.Workload

/-! # A base client and the connection of a healthy server

A well-behaved server and network as the connection sees them: the connection is established, stays
open until the client closes it, and every message is echoed. The client among its connections then
goes through a run of `steady` (`Links.steady_client`), and each of its states names the party whose
move gets it on: the telemetry thread, the network that opens the connection, delivers an echo or
closes the connection, or the thread that runs the close handler. The rank counts what is left until
both threads have returned. -/

namespace WsPerftester

open TransitionSystem

namespace Links

/-! ## A healthy server -/

/-- What the server and the network allow: the client is served as in `steady`, no connection fails,
and none is closed before the client has started closing it. -/
def healthyStep (s : Links) : Act → Bool
  | .thread a => Client.steadyStep .base s.client a
  | .beginsClose _ | .closes _ => s.client.closeStarted
  | .fails _ => false
  | .opens _ _ _ | .handles _ | .releases _ => true

/-- A base client among its connections, with a healthy server. -/
def healthy (total conStart : Int) : TransitionSystem Links Act :=
  (system .base total conStart).restrict healthyStep

/-- A step of such a client is a move that the server allows. -/
theorem healthy_moves {total conStart : Int} {s s' : Links} {a : Act}
    (h : (healthy total conStart).step s a = some s') :
    s.healthyStep a = true ∧ s.Alive ∧ Moves .base total s a s' := by
  obtain ⟨hok, hstep⟩ := ((system .base total conStart).restrict_step).mp h
  exact ⟨hok, moves_of_step hstep⟩

/-- **The connection of a healthy server** is the only one; it connects until the client is opened,
and it closes only after the client has started to. -/
structure InService (s : Links) : Prop where
  alive : s.crashed = false
  single : s.signaling.phase = .absent
  connecting : s.primary.phase = .connecting ↔ s.client.mOpen = false
  created : s.primary.phase ≠ .failed ∧ s.primary.phase ≠ .absent
  closed : s.primary.phase = .closing ∨ s.primary.phase = .closed → s.client.closeStarted = true
  handled : s.primary.handled = true → s.primary.phase = .closed

namespace InService

variable {total conStart : Int} {s s' : Links} {a : Act}

/-- The connection that moves is the primary one. -/
theorem eq_primary (h : s.InService) {which : Which} (hphase : (s.link which).phase ≠ .absent) :
    which = .primary := by
  cases which with
  | primary => rfl
  | signaling => exact absurd h.single hphase

/-- A connection that is not closed has no close handler to run. -/
theorem unhandled (h : s.InService) (hphase : s.primary.phase ≠ .closed) :
    s.primary.handled = false := by
  by_contra hhandled
  exact hphase (h.handled (by simpa using hhandled))

/-- A connection that is no longer connecting has opened the client. -/
theorem opened (h : s.InService) (hphase : s.primary.phase ≠ .connecting) :
    s.client.mOpen = true := by
  by_contra hshut
  exact hphase (h.connecting.mpr (by simpa using hshut))

/-- Every step of a healthy server keeps the client in service. -/
theorem moves (h : s.InService) (hok : s.healthyStep a = true)
    (hmove : Moves .base total s a s') : s'.InService := by
  cases hmove with
  | @thread a c ha hstep =>
      have hmoves := Client.moves_of_step hstep
      have hopen : c.mOpen = s.client.mOpen := by
        refine Client.mOpen_moves hmoves fun now hnow => ?_
        rw [hnow] at ha
        cases ha
      refine ⟨h.alive, h.single, ?_, h.created, ?_, h.handled⟩
      · rw [hopen]
        exact h.connecting
      · intro hphase
        exact Client.closeStarted_moves hmoves (h.closed hphase)
  | @opens which now signalingError hphase =>
      obtain rfl := h.eq_primary (by rw [hphase]; simp)
      have hphase : s.primary.phase = .connecting := hphase
      have hunhandled := h.unhandled (by rw [hphase]; simp)
      exact ⟨h.alive, h.single, by simp [runOpen, setLink, Client.onOpen],
        by simp [runOpen, setLink], by simp [runOpen, setLink],
        by simp [runOpen, setLink, link, hunhandled]⟩
  | @beginsClose which hphase =>
      obtain rfl := h.eq_primary (by rw [hphase]; simp)
      have hphase : s.primary.phase = .opened := hphase
      have hunhandled := h.unhandled (by rw [hphase]; simp)
      have hopen := h.opened (by rw [hphase]; simp)
      exact ⟨h.alive, h.single, by simp [setLink, hopen], by simp [setLink], fun _ => hok,
        by simp [setLink, link, hunhandled]⟩
  | @closes which hphase =>
      obtain rfl := h.eq_primary (by rcases hphase with hphase | hphase <;> rw [hphase] <;> simp)
      have hphase : s.primary.phase = .opened ∨ s.primary.phase = .closing := hphase
      have hopen :=
        h.opened (by rcases hphase with hphase | hphase <;> rw [hphase] <;> simp)
      exact ⟨h.alive, h.single, by simp [setLink, hopen], by simp [setLink], fun _ => hok,
        fun _ => rfl⟩
  | fails => cases hok
  | @closeHandled which hfirst hphase =>
      obtain rfl := h.eq_primary (by rw [hphase]; simp)
      exact ⟨h.alive, h.single, h.connecting, h.created, h.closed, fun _ => hphase⟩
  | @failHandled which hfirst hphase =>
      obtain rfl := h.eq_primary (by rw [hphase]; simp)
      exact absurd hphase h.created.1
  | @releases which hreleased =>
      cases which with
      | primary => exact ⟨h.alive, h.single, h.connecting, h.created, h.closed, h.handled⟩
      | signaling => exact ⟨h.alive, h.single, h.connecting, h.created, h.closed, h.handled⟩

/-- The client of a healthy server is in service throughout. -/
theorem of_reachable (hs : (healthy total conStart).Reachable s) : s.InService := by
  refine hs.invariant ?_ fun s a s' h hstep => ?_
  · exact ⟨rfl, rfl, iff_of_true rfl rfl, by simp [healthy, system, restrict],
      by simp [healthy, system, restrict], by simp [healthy, system, restrict]⟩
  · obtain ⟨hok, -, hmove⟩ := healthy_moves hstep
    exact h.moves hok hmove

end InService

/-- **The connection only orders the handlers.** The client of a healthy server goes through a run
of `steady`. -/
theorem steady_client {total conStart : Int} {s : Links}
    (hs : (healthy total conStart).Reachable s) :
    (Client.steady .base total conStart).Reachable s.client := by
  refine hs.invariant_of (P := fun s => (Client.steady .base total conStart).Reachable s.client)
    (fun s hs => InService.of_reachable hs) .init fun s a s' hservice hc hstep => ?_
  obtain ⟨hok, ⟨-, halive⟩, hmove⟩ := healthy_moves hstep
  cases hmove with
  | @thread a c _ h => exact hc.step (restrict_step _ |>.mpr ⟨hok, h⟩)
  | @opens _ now _ _ =>
      rw [client_runOpen, client_setLink]
      refine .step (a := .onOpen now) hc (restrict_step _ |>.mpr ⟨rfl, ?_⟩)
      simp [Client.telemetry, Client.step, halive]
  | beginsClose | closes | fails | releases => rwa [client_setLink]
  | closeHandled _ hphase =>
      obtain rfl := hservice.eq_primary (by rw [hphase]; simp)
      refine .step (a := .onClose) hc (restrict_step _ |>.mpr ⟨hservice.closed (.inr hphase), ?_⟩)
      simp [Client.telemetry, Client.step, halive]
  | failHandled _ hphase =>
      obtain rfl := hservice.eq_primary (by rw [hphase]; simp)
      exact absurd hphase hservice.created.1

/-! ## Who moves the client on -/

/-- The parties a client and its connections depend on. -/
inductive Party
  /-- The telemetry thread. -/
  | thread
  /-- The network that establishes the primary connection. -/
  | opener
  /-- The network that delivers the echoes. -/
  | echoes
  /-- The network that closes a connection. -/
  | closer (which : Which)
  /-- The network thread of the client, which runs the close handler of a connection. -/
  | handler (which : Which)
  deriving DecidableEq

/-- The moves of a party. -/
def Party.moves : Party → Act → Prop
  | .thread, a => ∃ b, a = .thread b ∧ Client.Party.moves .thread b
  | .opener, a => ∃ now signalingError, a = .opens .primary now signalingError
  | .echoes, a => ∃ k now, a = .thread (.onMessage k now)
  | .closer which, a => a = .closes which
  | .handler which, a => a = .handles which

/-- A party of the client among those of its connections. -/
def ofClient : Client.Party → Party
  | .thread => .thread
  | .opener => .opener
  | .echoes => .echoes

section OfClient

variable {party : Client.Party}

/-- What the thread or the echoes do is done by the client. -/
theorem moves_of_thread {b : Client.Act} (h : (ofClient party).moves (.thread b)) :
    party.moves b := by
  cases party with
  | thread =>
      obtain ⟨b', hb, hmoves⟩ := h
      cases hb
      exact hmoves
  | opener =>
      obtain ⟨now, e, hb⟩ := h
      cases hb
  | echoes =>
      obtain ⟨k, now, hb⟩ := h
      cases hb
      exact ⟨k, now, rfl⟩

/-- What opens the connection opens the client. -/
theorem moves_of_opens {now : Int} {e : Bool}
    (h : (ofClient party).moves (.opens .primary now e)) : party.moves (.onOpen now) := by
  cases party with
  | opener => exact ⟨now, rfl⟩
  | thread =>
      obtain ⟨b, hb, -⟩ := h
      cases hb
  | echoes =>
      obtain ⟨k, t, hb⟩ := h
      cases hb

/-- The parties of the client release nothing. -/
theorem not_moves_releases (party : Client.Party) (which : Which) :
    ¬ (ofClient party).moves (.releases which) := by
  cases party <;> simp [ofClient, Party.moves]

end OfClient

/-- As long as the telemetry thread has not returned, the helpful party of the client has a move:
one of the client, or the opening of a connection on which the client is not open. -/
theorem exists_ofClient {kind : Client.Kind} {total conStart : Int} (hpos : 1 ≤ total) {c : Client}
    (hc : (Client.steady kind total conStart).Reachable c) (hloc : c.loc ≠ .finished) :
    (∃ b c', (ofClient c.helpful).moves (.thread b) ∧ b.isEvent = false ∧
      Client.steadyStep kind c b = true ∧ Client.step kind total c b = some c') ∨
    (c.mOpen = false ∧ ∀ now e, (ofClient c.helpful).moves (.opens .primary now e)) := by
  obtain ⟨b, hmoves, hsome⟩ := Client.exists_helpful hpos hc hloc
  obtain ⟨c', hc'⟩ := Option.isSome_iff_exists.mp hsome
  obtain ⟨hok, hstep⟩ := (restrict_step _).mp hc'
  have hstep : Client.step kind total c b = some c' := hstep
  cases hparty : c.helpful with
  | thread =>
      left
      rw [hparty] at hmoves
      refine ⟨b, c', ⟨b, rfl, hmoves⟩, ?_, hok, hstep⟩
      rcases hmoves with rfl | ⟨now, e₁, e₂, rfl⟩ | ⟨refused, rfl⟩ <;> rfl
  | opener =>
      right
      refine ⟨?_, fun now e => ⟨now, e, rfl⟩⟩
      by_contra hopen
      rw [Client.helpful, if_neg hopen] at hparty
      split at hparty <;> cases hparty
  | echoes =>
      left
      rw [hparty] at hmoves
      obtain ⟨k, now, rfl⟩ := hmoves
      exact ⟨.onMessage k now, c', ⟨k, now, rfl⟩, rfl, hok, hstep⟩

/-- The party whose move gets the client on: when its thread has returned, the one that gets the
connection nearer to its end. -/
def helpful (s : Links) : Party :=
  if s.client.loc ≠ .finished then ofClient s.client.helpful
  else match s.primary.phase with
    | .connecting => .opener
    | .closed => .handler .primary
    | _ => .closer .primary

/-- The steps of a connection until its close handler has run. -/
def stepsToEnd (l : Link) : Nat :=
  match l.phase with
  | .connecting => 4
  | .opened => 3
  | .closing => 2
  | .closed => if l.handled then 0 else 1
  | .absent | .failed => 0

/-- **The rank of a client and its connection.** -/
def rank (total : Int) (s : Links) : Nat :=
  if s.client.loc ≠ .finished then s.client.rank total + 5 else stepsToEnd s.primary

section Rank

variable {total conStart : Int} {s s' : Links} {a : Act}

/-- A connection is never far from its end. -/
theorem stepsToEnd_le (l : Link) : stepsToEnd l ≤ 4 := by
  unfold stepsToEnd
  split <;> first | omega | split <;> omega

/-- Both threads of a client in service have returned exactly when its rank is 0. -/
theorem over_iff_rank (h : s.InService) : s.Over ↔ s.rank total = 0 := by
  unfold Over rank
  by_cases hloc : s.client.loc = .finished
  · rw [if_neg (not_not.mpr hloc), and_iff_right hloc, Link.Settled, stepsToEnd]
    obtain ⟨hfailed, habsent⟩ := h.created
    cases hphase : s.primary.phase with
    | failed => exact absurd hphase hfailed
    | absent => exact absurd hphase habsent
    | closed => cases hhandled : s.primary.handled <;> simp
    | connecting | opened | closing => simp
  · rw [if_pos hloc]
    exact iff_of_false (fun h => hloc h.1) (by omega)

/-- A step brings the client nearer to its end, or leaves it to the same party to do so. -/
def Advances (total : Int) (s : Links) (a : Act) (s' : Links) : Prop :=
  s'.rank total < s.rank total ∨
    (s'.rank total = s.rank total ∧ s'.helpful = s.helpful ∧ ¬ s.helpful.moves a)

/-- What an unfinished client gains, its connection gains. -/
theorem advances_of_client {b : Client.Act} (hloc : s.client.loc ≠ .finished)
    (hclient : Client.Advances total s.client b s'.client)
    (hmoves : s.helpful.moves a → s.client.helpful.moves b) : s.Advances total a s' := by
  have hbefore : s.rank total = s.client.rank total + 5 := if_pos hloc
  have hle := stepsToEnd_le s'.primary
  by_cases hloc' : s'.client.loc = .finished
  · left
    rw [hbefore, rank, if_neg (not_not.mpr hloc')]
    omega
  · have hafter : s'.rank total = s'.client.rank total + 5 := if_pos hloc'
    rcases hclient with hfinished | hlower | ⟨hsame, hhelpful, hidle⟩
    · exact absurd hfinished hloc'
    · left
      omega
    · right
      refine ⟨by omega, ?_, fun hmove => hidle (hmoves hmove)⟩
      rw [helpful, helpful, if_pos hloc', if_pos hloc, hhelpful]

/-- A step that leaves the client and the state of its primary connection alone leaves it to the
same party. -/
theorem advances_of_same (hloc : s'.client.loc = s.client.loc)
    (hrank : s'.client.rank total = s.client.rank total)
    (hhelpful : s'.client.helpful = s.client.helpful) (hphase : s'.primary.phase = s.primary.phase)
    (hhandled : s'.primary.handled = s.primary.handled) (hidle : ¬ s.helpful.moves a) :
    s.Advances total a s' := by
  right
  refine ⟨?_, ?_, hidle⟩
  · rw [rank, rank, stepsToEnd, stepsToEnd, hloc, hrank, hphase, hhandled]
  · rw [helpful, helpful, hloc, hhelpful, hphase]

/-- When the thread has returned, only the connection moves, and gets nearer to its end. -/
theorem advances_of_finished (hservice : s.InService) (hcourse : Client.Course total s.client)
    (hloc : s.client.loc = .finished) (hok : s.healthyStep a = true)
    (hmove : Moves .base total s a s') : s.Advances total a s' := by
  -- the rank of such a client is that of its connection
  have hconnection (hloc' : s'.client.loc = .finished)
      (hlower : stepsToEnd s'.primary < stepsToEnd s.primary) : s.Advances total a s' := by
    left
    rwa [rank, rank, if_neg (not_not.mpr hloc'), if_neg (not_not.mpr hloc)]
  have hstarted : s.client.closeStarted = true := hcourse.closed.mpr hloc
  cases hmove with
  | @thread b c ha h =>
      have hidle : ¬ s.helpful.moves (.thread b) := by
        rw [helpful, if_neg (not_not.mpr hloc)]
        cases s.primary.phase <;> simp [Party.moves]
      cases Client.moves_of_step h with
      | discard => exact advances_of_same rfl rfl rfl rfl rfl hidle
      | flow hflow =>
          cases hflow with
          | enter hloc' | exhausted hloc' | stopped hloc' | blocked hloc' | ready hloc'
          | again hloc' | complete hloc' | giveUp hloc' =>
              rw [hloc] at hloc'
              cases hloc'
      | count hloc' | reset hloc' | fail hloc' | send hloc' | close hloc' =>
          rw [hloc] at hloc'
          cases hloc'
      | onOpen | onClose | onFail => cases ha
      | onMessage => simp [healthyStep, Client.steadyStep, hstarted] at hok
  | @opens which now signalingError hphase =>
      obtain rfl := hservice.eq_primary (by rw [hphase]; simp)
      have hphase : s.primary.phase = .connecting := hphase
      refine hconnection hloc ?_
      simp [runOpen, setLink, stepsToEnd, hphase]
  | @beginsClose which hphase =>
      obtain rfl := hservice.eq_primary (by rw [hphase]; simp)
      have hphase : s.primary.phase = .opened := hphase
      refine hconnection hloc ?_
      simp [setLink, stepsToEnd, hphase]
  | @closes which hphase =>
      obtain rfl := hservice.eq_primary (by rcases hphase with h | h <;> rw [h] <;> simp)
      have hphase : s.primary.phase = .opened ∨ s.primary.phase = .closing := hphase
      have hunhandled :=
        hservice.unhandled (by rcases hphase with h | h <;> rw [h] <;> simp)
      refine hconnection hloc ?_
      rcases hphase with hphase | hphase <;> simp [setLink, link, stepsToEnd, hphase, hunhandled]
  | fails => cases hok
  | @closeHandled which hfirst hphase =>
      obtain rfl := hservice.eq_primary (by rw [hphase]; simp)
      have hphase : s.primary.phase = .closed := hphase
      have hfirst : s.primary.handled = false := hfirst
      refine hconnection hloc ?_
      simp [setLink, link, stepsToEnd, hphase, hfirst]
  | @failHandled which hfirst hphase =>
      obtain rfl := hservice.eq_primary (by rw [hphase]; simp)
      exact absurd hphase hservice.created.1
  | @releases which hreleased =>
      have hidle : ¬ s.helpful.moves (.releases which) := by
        rw [helpful, if_neg (not_not.mpr hloc)]
        cases s.primary.phase <;> simp [Party.moves]
      cases which with
      | primary => exact advances_of_same rfl rfl rfl rfl rfl hidle
      | signaling => exact advances_of_same rfl rfl rfl rfl rfl hidle

/-- **Every step of a healthy server advances the client and its connection.** -/
theorem advances (hpos : 1 ≤ total) (hs : (healthy total conStart).Reachable s)
    (hstep : (healthy total conStart).step s a = some s') : s.Advances total a s' := by
  obtain ⟨hok, -, hmove⟩ := healthy_moves hstep
  have hservice := InService.of_reachable hs
  have hsteady := steady_client hs
  obtain ⟨hcourse, -⟩ := Client.steady_of_reachable hpos hsteady
  have hecho := Client.EchoInv.of_reachable hsteady.of_restrict
  have hcount := Client.CountInv.of_reachable hsteady.of_restrict
  by_cases hloc : s.client.loc = .finished
  · exact advances_of_finished hservice hcourse hloc hok hmove
  have hstarted : s.client.closeStarted = false := hcourse.not_closed hloc
  have hhelpful : s.helpful = ofClient s.client.helpful := if_pos hloc
  cases hmove with
  | @thread b c ha h =>
      refine advances_of_client (b := b) hloc (Client.advances hecho hcount hcourse hloc hok
        (Client.moves_of_step h)) fun hmoves => ?_
      rw [hhelpful] at hmoves
      exact moves_of_thread hmoves
  | @opens which now signalingError hphase =>
      obtain rfl := hservice.eq_primary (by rw [hphase]; simp)
      have hallowed : Client.steadyStep .base s.client (.onOpen now) = true := rfl
      refine advances_of_client (b := .onOpen now) hloc
        (Client.advances hecho hcount hcourse hloc hallowed .onOpen) fun hmoves => ?_
      rw [hhelpful] at hmoves
      exact moves_of_opens hmoves
  | @beginsClose which hphase | @closes which hphase =>
      have hok : s.client.closeStarted = true := hok
      rw [hstarted] at hok
      cases hok
  | fails => cases hok
  | @closeHandled which hfirst hphase =>
      obtain rfl := hservice.eq_primary (by rw [hphase]; simp)
      have hclosing := hservice.closed (.inr hphase)
      rw [hstarted] at hclosing
      cases hclosing
  | @failHandled which hfirst hphase =>
      obtain rfl := hservice.eq_primary (by rw [hphase]; simp)
      exact absurd hphase hservice.created.1
  | @releases which hreleased =>
      have hidle : ¬ s.helpful.moves (.releases which) := by
        rw [hhelpful]
        exact not_moves_releases _ which
      cases which with
      | primary => exact advances_of_same rfl rfl rfl rfl rfl hidle
      | signaling => exact advances_of_same rfl rfl rfl rfl rfl hidle

/-- The helpful party can always move. -/
theorem exists_helpful (hpos : 1 ≤ total) (hs : (healthy total conStart).Reachable s)
    (hnot : ¬ s.Over) :
    ∃ a, s.helpful.moves a ∧ ((healthy total conStart).step s a).isSome = true := by
  have hservice := InService.of_reachable hs
  have hsteady := steady_client hs
  obtain ⟨hcourse, -⟩ := Client.steady_of_reachable hpos hsteady
  have hend : s.client.loc ≠ .terminated := hcourse.place.2.2
  have hlives : (s.crashed || decide (s.client.loc = .terminated)) = false := by
    simp [hservice.alive, hend]
  -- a step of the system that the server allows
  have henabled (a : Act) (hok : s.healthyStep a = true)
      (hsome : (step .base total s a).isSome = true) :
      ((healthy total conStart).step s a).isSome = true := by
    obtain ⟨s', hs'⟩ := Option.isSome_iff_exists.mp hsome
    rw [healthy, (restrict_step _).mpr ⟨hok, hs'⟩]
    rfl
  by_cases hloc : s.client.loc = .finished
  · have hstarted : s.client.closeStarted = true := hcourse.closed.mpr hloc
    rw [helpful, if_neg (not_not.mpr hloc)]
    obtain ⟨hfailed, habsent⟩ := hservice.created
    cases hphase : s.primary.phase with
    | failed => exact absurd hphase hfailed
    | absent => exact absurd hphase habsent
    | connecting =>
        refine ⟨.opens .primary 0 false, ⟨0, false, rfl⟩, henabled _ rfl ?_⟩
        simp [step, hlives, link, hphase]
    | opened | closing =>
        refine ⟨.closes .primary, rfl, henabled _ hstarted ?_⟩
        simp [step, hlives, link, hphase]
    | closed =>
        have hunhandled : s.primary.handled = false := by
          by_contra hhandled
          exact hnot ⟨hloc, .inr ⟨.inl hphase, by simpa using hhandled⟩⟩
        refine ⟨.handles .primary, rfl, henabled _ rfl ?_⟩
        simp [step, hlives, link, hphase, hunhandled]
  · rw [helpful, if_pos hloc]
    rcases exists_ofClient hpos hsteady hloc with
      ⟨b, c, hmoves, hevent, hok, hstep⟩ | ⟨hshut, hopens⟩
    · refine ⟨.thread b, hmoves, henabled _ hok ?_⟩
      simp [step, hlives, hevent, hstep]
    · -- the client waits to be opened as long as the connection is connecting
      refine ⟨.opens .primary 0 false, hopens 0 false, henabled _ rfl ?_⟩
      simp [step, hlives, link, hservice.connecting.mpr hshut]

end Rank

end Links

end WsPerftester
