import WsPerftester.Client.Closing
import WsPerftester.Reports.Service

/-! # The plain client

`plain-client` runs one mobile client and waits for its two threads. The network thread runs until
`stop_perpetual` has been called and no connection is left, so it matters what `close` achieves: it
starts the closing handshake of the connections that are open, and ignores the error it gets for the
others. A signaling connection that is still connecting is thus left alone, opens later, and keeps
the network thread running for ever (`plain_client_returns_iff`). -/

namespace WsPerftester

open TransitionSystem

/-! ## A connection of a healthy server -/

/-- **A connection of a healthy server**, which is `asked` to close or not: it does not fail, and it
closes only when it has been asked to, which only an open connection is. -/
structure Link.Serves (l : Link) (asked : Bool) : Prop where
  unfailed : l.phase ≠ .failed
  begun : asked = true → l.phase ≠ .absent ∧ l.phase ≠ .connecting
  closed : l.phase = .closing ∨ l.phase = .closed → asked = true
  handled : l.handled = true → l.phase = .closed

namespace Link.Serves

variable {l : Link} {asked : Bool}

/-- A connection that is not closed has no close handler behind it. -/
theorem unhandled (h : l.Serves asked) (hphase : l.phase ≠ .closed) : l.handled = false := by
  by_contra hhandled
  exact hphase (h.handled (by simpa using hhandled))

/-- A connection that has not been asked is absent, connecting or open. -/
theorem of_not_asked (h : l.Serves false) :
    l.phase = .absent ∨ l.phase = .connecting ∨ l.phase = .opened := by
  cases hphase : l.phase with
  | absent => exact .inl rfl
  | connecting => exact .inr (.inl rfl)
  | opened => exact .inr (.inr rfl)
  | closing => cases h.closed (.inl hphase)
  | closed => cases h.closed (.inr hphase)
  | failed => exact absurd hphase h.unfailed

/-- It is established. -/
theorem opens (h : l.Serves asked) (hphase : l.phase = .connecting) :
    Link.Serves { l with phase := .opened } asked := by
  have hunhandled := h.unhandled (by rw [hphase]; simp)
  exact ⟨by simp, by simp, by simp, by simp [hunhandled]⟩

/-- It begins to close. -/
theorem closing (h : l.Serves asked) (hasked : asked = true) (hphase : l.phase = .opened) :
    Link.Serves { l with phase := .closing } asked := by
  have hunhandled := h.unhandled (by rw [hphase]; simp)
  exact ⟨by simp, by simp, fun _ => hasked, by simp [hunhandled]⟩

/-- It is closed. -/
theorem closes (hasked : asked = true) :
    Link.Serves { l with phase := .closed } asked :=
  ⟨by simp, by simp, fun _ => hasked, fun _ => rfl⟩

/-- Its close handler runs. -/
theorem handles (h : l.Serves asked) (hphase : l.phase = .closed) :
    Link.Serves { l with handled := true } asked :=
  ⟨h.unfailed, h.begun, h.closed, fun _ => hphase⟩

/-- Its object is released. -/
theorem releases (h : l.Serves asked) : Link.Serves { l with released := true } asked :=
  ⟨h.unfailed, h.begun, h.closed, h.handled⟩

/-- It is asked to close, if it is open. -/
theorem ask (h : l.Serves false) : l.Serves (decide (l.phase = .opened)) := by
  refine ⟨h.unfailed, fun hasked => ?_, fun hphase => ?_, h.handled⟩
  · rw [of_decide_eq_true hasked]
    simp
  · cases h.closed hphase

end Link.Serves

namespace Links

variable {s : Links} {l : Link} {asked : Which → Bool}

/-- A new state of a connection, and the old one of the other. -/
theorem link_setLink (s : Links) (l : Link) (which which' : Which) :
    (s.setLink l which).link which' = if which' = which then l else s.link which' := by
  cases which <;> cases which' <;> rfl

/-- Changing one connection, all still serve. -/
theorem serves_setLink (h : ∀ which, (s.link which).Serves (asked which)) {which : Which}
    (hl : l.Serves (asked which)) (which' : Which) :
    ((s.setLink l which).link which').Serves (asked which') := by
  rw [link_setLink]
  split
  · next heq => exact heq ▸ hl
  · exact h which'

end Links

/-! ## The client among its connections -/

/-- The client of `plain-client`, and which of its connections `close` has asked to close. -/
structure PlainClient where
  links : Links
  asked : Which → Bool := fun _ => false

namespace PlainClient

/-- What a step of the client leaves: when `close` is called, the connections that are open are
asked to close. -/
def after (s : PlainClient) (links : Links) : PlainClient where
  links := links
  asked := if links.client.closeStarted = s.links.client.closeStarted then s.asked
    else fun which => decide ((s.links.link which).phase = .opened)

/-- One step. -/
def step (total : Int) (s : PlainClient) (a : Links.Act) : Option PlainClient :=
  (Links.step .mobile total s.links a).map s.after

/-- **The plain client.** `total` is the number of messages, and `conStart` what `m_con_start`
holds, which the mobile client does not assign. -/
def system (total conStart : Int) : TransitionSystem PlainClient Links.Act where
  init := { links := { client := { mConStart := conStart } } }
  step := step total

/-- What healthy servers allow: the client is served as in `steady`, no connection fails, and none
is closed unless it has been asked to. -/
def healthyStep (s : PlainClient) : Links.Act → Bool
  | .thread a => Client.steadyStep .mobile s.links.client a
  | .beginsClose which | .closes which => s.asked which
  | .fails _ => false
  | .opens _ _ _ | .handles _ | .releases _ => true

/-- The plain client with healthy servers. -/
def healthy (total conStart : Int) : TransitionSystem PlainClient Links.Act :=
  (system total conStart).restrict healthyStep

/-- `wait` returns: the telemetry thread has returned, and the network thread has no connection
left. -/
def Joined (s : PlainClient) : Prop :=
  s.links.client.loc = .finished ∧ s.links.primary.Settled ∧ s.links.signaling.Settled

instance (s : PlainClient) : Decidable s.Joined := inferInstanceAs (Decidable (_ ∧ _ ∧ _))

variable {total conStart : Int} {s s' : PlainClient} {a : Links.Act}

/-- A step that does not call `close` asks nobody. -/
theorem after_of_same {links : Links}
    (h : links.client.closeStarted = s.links.client.closeStarted) :
    s.after links = ⟨links, s.asked⟩ := by
  rw [after, if_pos h]

/-- A step is a move of the client among its connections that the servers allow. -/
theorem healthy_moves (h : (healthy total conStart).step s a = some s') :
    s.healthyStep a = true ∧ s.links.Alive ∧
      ∃ links, Links.Moves .mobile total s.links a links ∧ s' = s.after links := by
  obtain ⟨hok, hstep⟩ := ((system total conStart).restrict_step).mp h
  obtain ⟨links, hlinks, hs'⟩ := Option.map_eq_some_iff.mp hstep
  obtain ⟨halive, hmove⟩ := Links.moves_of_step hlinks
  exact ⟨hok, halive, links, hmove, hs'.symm⟩

/-! ## In service -/

/-- **The plain client in service.** Its primary connection is connecting until the client is open,
the signaling one does not exist before, and only a client that has started closing has asked. -/
structure InService (s : PlainClient) : Prop where
  alive : s.links.crashed = false
  created : s.links.primary.phase ≠ .absent
  connecting : s.links.primary.phase = .connecting ↔ s.links.client.mOpen = false
  later : s.links.client.mOpen = false → s.links.signaling.phase = .absent
  asks : ∀ which, s.asked which = true → s.links.client.closeStarted = true
  serves : ∀ which, (s.links.link which).Serves (s.asked which)

namespace InService

/-- The client is in service with another state of a connection that is no longer connecting. -/
theorem setLink (h : s.InService) {which : Which} {l : Link}
    (hold : (s.links.link which).phase ≠ .absent ∧ (s.links.link which).phase ≠ .connecting)
    (hnew : l.phase ≠ .absent ∧ l.phase ≠ .connecting) (hl : l.Serves (s.asked which)) :
    (s.after (s.links.setLink l which)).InService := by
  rw [after_of_same (by rw [Links.client_setLink])]
  have hserves := Links.serves_setLink h.serves hl
  cases which with
  | primary =>
      refine ⟨h.alive, hnew.1, ?_, h.later, h.asks, hserves⟩
      exact iff_of_false hnew.2 fun hshut => hold.2 (h.connecting.mpr hshut)
  | signaling =>
      refine ⟨h.alive, h.created, h.connecting, fun hshut => ?_, h.asks, hserves⟩
      exact absurd (h.later hshut) hold.1

/-- Before the client starts closing, nothing has been asked. -/
theorem not_asked (h : s.InService) (hbefore : s.links.client.closeStarted = false)
    (which : Which) : s.asked which = false := by
  by_contra hasked
  have hstarted := h.asks which (by simpa using hasked)
  rw [hbefore] at hstarted
  cases hstarted

/-- A connection that has been asked to close is neither absent nor connecting. -/
theorem begun (h : s.InService) {which : Which} (hasked : s.asked which = true) :
    (s.links.link which).phase ≠ .absent ∧ (s.links.link which).phase ≠ .connecting :=
  (h.serves which).begun hasked

/-- A connection whose close handler has run is closed. -/
theorem begun_of_handled (h : s.InService) {which : Which}
    (hhandled : (s.links.link which).handled = true) :
    (s.links.link which).phase ≠ .absent ∧ (s.links.link which).phase ≠ .connecting := by
  rw [(h.serves which).handled hhandled]
  simp

/-- A step of the telemetry thread, or an echo, keeps the client in service. -/
theorem thread (h : s.InService) {b : Client.Act} {c : Client} (hb : b.isEvent = false)
    (hmove : Client.Moves .mobile total s.links.client b c) :
    (s.after { s.links with client := c }).InService := by
  have hopen : c.mOpen = s.links.client.mOpen := by
    refine Client.mOpen_moves hmove fun now hnow => ?_
    rw [hnow] at hb
    cases hb
  have hmono := Client.closeStarted_moves hmove
  by_cases hsame : c.closeStarted = s.links.client.closeStarted
  · rw [after_of_same hsame]
    exact ⟨h.alive, h.created, by rw [hopen]; exact h.connecting, by rw [hopen]; exact h.later,
      fun which hasked => hmono (h.asks which hasked), h.serves⟩
  · -- `close` has been called, for the first time
    rw [after, if_neg hsame]
    have hbefore : s.links.client.closeStarted = false := by
      by_contra hstarted
      have hstarted : s.links.client.closeStarted = true := by simpa using hstarted
      exact hsame (by rw [hmono hstarted, hstarted])
    have hafter : c.closeStarted = true := by
      rw [hbefore] at hsame
      simpa using hsame
    refine ⟨h.alive, h.created, by rw [hopen]; exact h.connecting, by rw [hopen]; exact h.later,
      fun _ _ => hafter, fun which => ?_⟩
    have hserves := h.serves which
    rw [h.not_asked hbefore which] at hserves
    exact hserves.ask

/-- A connection that opens keeps the client in service. -/
theorem opens (h : s.InService) {which : Which} (now : Int) (signalingError : Bool)
    (hphase : (s.links.link which).phase = .connecting) :
    (s.after (Links.runOpen .mobile now signalingError which
      (s.links.setLink { s.links.link which with phase := .opened } which))).InService := by
  rw [after_of_same (by rw [Links.client_runOpen, Links.client_setLink]; rfl)]
  have hopened := Links.serves_setLink h.serves ((h.serves which).opens hphase)
  cases which with
  | primary =>
      -- the signaling connection is created now, so it has not been asked
      have habsent := h.later (h.connecting.mp hphase)
      have hnot : s.asked .signaling = false := by
        by_contra hasked
        have hasked : s.asked .signaling = true := by simpa using hasked
        exact (h.begun hasked).1 habsent
      refine ⟨h.alive, by simp [Links.runOpen, Links.setLink], ?_, ?_, h.asks, ?_⟩
      · simp [Links.runOpen, Links.setLink, Client.onOpen]
      · simp [Links.runOpen, Client.onOpen]
      · intro which'
        cases which' with
        | primary => exact hopened .primary
        | signaling =>
            cases signalingError with
            | true => exact hopened .signaling
            | false =>
                show Link.Serves { phase := .connecting } (s.asked .signaling)
                rw [hnot]
                exact ⟨by simp, by simp, by simp, by simp⟩
  | signaling =>
      have hopen : s.links.client.mOpen = true := by
        by_contra hshut
        have hphase : s.links.signaling.phase = .connecting := hphase
        rw [h.later (by simpa using hshut)] at hphase
        cases hphase
      refine ⟨h.alive, h.created, ?_, by simp [Links.runOpen, Client.onOpen], h.asks, hopened⟩
      refine iff_of_false (fun hconnecting => ?_) (by simp [Links.runOpen, Client.onOpen])
      rw [h.connecting.mp hconnecting] at hopen
      cases hopen

/-- **Every step of healthy servers keeps the client in service.** -/
theorem step (h : s.InService) (hstep : (healthy total conStart).step s a = some s') :
    s'.InService := by
  obtain ⟨hok, -, links, hmove, rfl⟩ := healthy_moves hstep
  cases hmove with
  | thread hb hclient => exact h.thread hb (Client.moves_of_step hclient)
  | opens hphase => exact h.opens _ _ hphase
  | @beginsClose which hphase =>
      exact h.setLink (by rw [hphase]; simp) (by simp) ((h.serves which).closing hok hphase)
  | @closes which hphase =>
      exact h.setLink (h.begun hok) (by simp) (.closes hok)
  | fails => cases hok
  | @closeHandled which hfirst hphase =>
      have hbegun : (s.links.link which).phase ≠ .absent ∧
          (s.links.link which).phase ≠ .connecting := by
        rw [hphase]
        simp
      have hservice := h.setLink (l := { s.links.link which with handled := true }) hbegun hbegun
        ((h.serves which).handles hphase)
      cases which with
      | primary => exact hservice
      | signaling => exact hservice
  | failHandled _ hphase => exact absurd hphase (h.serves _).unfailed
  | @releases which hhandled =>
      have hbegun := h.begun_of_handled hhandled
      exact h.setLink (l := { s.links.link which with released := true }) hbegun hbegun
        (h.serves which).releases

/-- The plain client is in service throughout. -/
theorem of_reachable (hs : (healthy total conStart).Reachable s) : s.InService := by
  refine hs.invariant ⟨rfl, ?_, iff_of_true rfl rfl, fun _ => rfl, ?_, ?_⟩
    fun s a s' h hstep => h.step hstep
  · simp [healthy, system, restrict]
  · simp [healthy, system, restrict]
  · intro which
    cases which <;> constructor <;> simp [healthy, system, restrict, Links.link]

end InService

/-- **The connections only order the handlers.** The client goes through a run of `steady`. -/
theorem steady_client (hs : (healthy total conStart).Reachable s) :
    (Client.steady .mobile total conStart).Reachable s.links.client := by
  refine hs.invariant_of
    (P := fun s => (Client.steady .mobile total conStart).Reachable s.links.client)
    (fun s hs => InService.of_reachable hs) .init fun s a s' hservice hc hstep => ?_
  obtain ⟨hok, ⟨-, halive⟩, links, hmove, rfl⟩ := healthy_moves hstep
  show (Client.steady .mobile total conStart).Reachable links.client
  cases hmove with
  | @thread a c _ h => exact hc.step (restrict_step _ |>.mpr ⟨hok, h⟩)
  | @opens _ now _ _ =>
      rw [Links.client_runOpen, Links.client_setLink]
      refine .step (a := .onOpen now) hc (restrict_step _ |>.mpr ⟨rfl, ?_⟩)
      simp [Client.telemetry, Client.step, halive]
  | beginsClose | closes | fails | releases => rwa [Links.client_setLink]
  | closeHandled => exact hc
  | failHandled _ hphase => exact absurd hphase (hservice.serves _).unfailed

/-! ## What `close` achieves -/

/-- Every connection there is has been asked to close. -/
def Answered (s : PlainClient) : Prop :=
  s.links.client.closeStarted = true ∧
    ∀ which, s.asked which = true ∨ (s.links.link which).phase = .absent

/-- A connection is left that nobody has asked to close. -/
def Orphaned (s : PlainClient) : Prop :=
  s.links.client.closeStarted = true ∧ s.asked .signaling = false ∧
    s.links.signaling.phase ≠ .absent

/-- An orphaned client is not joined: the orphan neither closes nor fails. -/
theorem Orphaned.not_joined (h : s.Orphaned) (hservice : s.InService) : ¬ s.Joined := by
  obtain ⟨-, hasked, hphase⟩ := h
  rintro ⟨-, -, habsent | ⟨hclosed | hfailed, -⟩⟩
  · exact hphase habsent
  · have hserves := (hservice.serves .signaling).closed (.inr hclosed)
    rw [hasked] at hserves
    cases hserves
  · exact (hservice.serves .signaling).unfailed hfailed

/-- The client is open when it has started closing. -/
theorem mOpen_of_closing (hpos : 1 ≤ total) (hs : (healthy total conStart).Reachable s)
    (hloc : s.links.client.loc = .closing ∨ s.links.client.loc = .finished) :
    s.links.client.mOpen = true := by
  have hsteady := steady_client hs
  obtain ⟨hcourse, -⟩ := Client.steady_of_reachable hpos hsteady
  have hcount := (Client.CountInv.of_reachable hsteady.of_restrict).attempts
  have hall := hcourse.complete (.inr hloc)
  have hsending : s.links.client.loc ≠ .sending := by
    rcases hloc with hloc | hloc <;> rw [hloc] <;> simp
  rw [if_neg hsending] at hcount
  exact Client.mOpen_of_sends hsteady.of_restrict (by omega)

/-- **What `close` achieves.** It asks every connection there is to close, unless the signaling one
is still connecting. -/
theorem after_close (hpos : 1 ≤ total) (hs : (healthy total conStart).Reachable s) {refused : Bool}
    (hstep : (healthy total conStart).step s (.thread (.close refused)) = some s') :
    s.links.client.loc = .closing ∧
      (s.links.signaling.phase = .connecting → s'.Orphaned) ∧
      (s.links.signaling.phase ≠ .connecting → s'.Answered) := by
  obtain ⟨hok, -, links, hmove, rfl⟩ := healthy_moves hstep
  have hservice := InService.of_reachable hs
  obtain ⟨hcourse, -⟩ := Client.steady_of_reachable hpos (steady_client hs)
  cases hmove with
  | thread hb hclient =>
      cases Client.moves_of_step hclient with
      | close hloc =>
          have hbefore := hcourse.not_closed (by rw [hloc]; simp)
          have hafter : (s.links.client.close .mobile refused).closeStarted = true := rfl
          have hne : (s.links.client.close .mobile refused).closeStarted ≠
              s.links.client.closeStarted := by
            rw [hafter, hbefore]
            simp
          have hnot := hservice.not_asked hbefore
          rw [after, if_neg hne]
          refine ⟨hloc, fun hphase => ?_, fun hphase => ⟨rfl, fun which => ?_⟩⟩
          · have hphase' : (s.links.link .signaling).phase = .connecting := hphase
            exact ⟨rfl, by simp [hphase'], by rw [hphase]; simp⟩
          · have hserves := hservice.serves which
            rw [hnot which] at hserves
            have hstarted : (s.links.link which).phase ≠ .connecting := by
              cases which with
              | primary =>
                  intro hconnecting
                  have hopen := mOpen_of_closing hpos hs (.inl hloc)
                  rw [hservice.connecting.mp hconnecting] at hopen
                  cases hopen
              | signaling => exact hphase
            rcases hserves.of_not_asked with habsent | hconnecting | hopened
            · exact .inr habsent
            · exact absurd hconnecting hstarted
            · exact .inl (decide_eq_true hopened)

/-- Once the client has started closing, nothing more is asked, and no connection is created. -/
theorem step_of_closed (hpos : 1 ≤ total) (hs : (healthy total conStart).Reachable s)
    (hclosed : s.links.client.closeStarted = true)
    (hstep : (healthy total conStart).step s a = some s') :
    s'.links.client.closeStarted = true ∧ s'.asked = s.asked ∧
      ∀ which, (s'.links.link which).phase = .absent ↔ (s.links.link which).phase = .absent := by
  have hservice := InService.of_reachable hs
  obtain ⟨hcourse, -⟩ := Client.steady_of_reachable hpos (steady_client hs)
  have hopen := mOpen_of_closing hpos hs (.inr (hcourse.closed.mp hclosed))
  obtain ⟨hok, -, links, hmove, rfl⟩ := healthy_moves hstep
  -- a connection that is there stays there
  have hset {l : Link} {which : Which} (hold : (s.links.link which).phase ≠ .absent)
      (hnew : l.phase ≠ .absent) (which' : Which) :
      ((s.links.setLink l which).link which').phase = .absent ↔
        (s.links.link which').phase = .absent := by
    rw [Links.link_setLink]
    split
    · next heq => exact iff_of_false hnew (heq ▸ hold)
    · rfl
  have hresult (hsame : links.client.closeStarted = true)
      (hlinks : ∀ which, (links.link which).phase = .absent ↔
        (s.links.link which).phase = .absent) :
      (s.after links).links.client.closeStarted = true ∧ (s.after links).asked = s.asked ∧
        ∀ which, ((s.after links).links.link which).phase = .absent ↔
          (s.links.link which).phase = .absent := by
    rw [after_of_same (by rw [hsame, hclosed])]
    exact ⟨hsame, rfl, hlinks⟩
  cases hmove with
  | thread hb hclient =>
      exact hresult (Client.closeStarted_moves (Client.moves_of_step hclient) hclosed)
        fun which => by cases which <;> rfl
  | @opens which now signalingError hphase =>
      cases which with
      | primary =>
          rw [hservice.connecting.mp hphase] at hopen
          cases hopen
      | signaling => exact hresult hclosed (hset (by rw [hphase]; simp) (by simp))
  | @beginsClose which hphase =>
      exact hresult (by rw [Links.client_setLink, hclosed]) (hset (by rw [hphase]; simp) (by simp))
  | @closes which hphase =>
      exact hresult (by rw [Links.client_setLink, hclosed])
        (hset (hservice.begun hok).1 (by simp))
  | fails => cases hok
  | @closeHandled which hfirst hphase =>
      refine hresult hclosed ?_
      have hold : (s.links.link which).phase ≠ .absent := by rw [hphase]; simp
      have hlinks := hset (l := { s.links.link which with handled := true }) hold hold
      cases which with
      | primary => exact hlinks
      | signaling => exact hlinks
  | failHandled _ hphase => exact absurd hphase (hservice.serves _).unfailed
  | @releases which hhandled =>
      have hbegun := (hservice.begun_of_handled hhandled).1
      exact hresult (by rw [Links.client_setLink, hclosed]) (hset hbegun hbegun)

/-! ## The threads return -/

/-- A step of the client among its connections that the servers allow. -/
theorem isSome_step (conStart : Int) (hok : s.healthyStep a = true)
    (hsome : (Links.step .mobile total s.links a).isSome = true) :
    ((healthy total conStart).step s a).isSome = true := by
  obtain ⟨links, hlinks⟩ := Option.isSome_iff_exists.mp hsome
  have hstep : (system total conStart).step s a = some (s.after links) := by
    simp [system, step, hlinks]
  rw [healthy, (restrict_step _).mpr ⟨hok, hstep⟩]
  rfl

/-- Until the telemetry thread has returned, the helpful party of the client can move. -/
theorem exists_helpful (hpos : 1 ≤ total) (hs : (healthy total conStart).Reachable s)
    (hloc : s.links.client.loc ≠ .finished) :
    ∃ a, (Links.ofClient s.links.client.helpful).moves a ∧
      ((healthy total conStart).step s a).isSome = true := by
  have hservice := InService.of_reachable hs
  obtain ⟨hcourse, -⟩ := Client.steady_of_reachable hpos (steady_client hs)
  have hlives : (s.links.crashed || decide (s.links.client.loc = .terminated)) = false := by
    simp [hservice.alive, hcourse.place.2.2]
  rcases Links.exists_ofClient hpos (steady_client hs) hloc with
    ⟨b, c, hmoves, hevent, hok, hstep⟩ | ⟨hshut, hopens⟩
  · refine ⟨.thread b, hmoves, isSome_step _ hok ?_⟩
    simp [Links.step, hlives, hevent, hstep]
  · refine ⟨.opens .primary 0 false, hopens 0 false, isSome_step _ rfl ?_⟩
    simp [Links.step, hlives, Links.link, hservice.connecting.mpr hshut]

/-- **Every step of healthy servers advances the telemetry thread**, or leaves it to the same party
to do so. -/
theorem advances (hpos : 1 ≤ total) (hs : (healthy total conStart).Reachable s)
    (hloc : s.links.client.loc ≠ .finished)
    (hstep : (healthy total conStart).step s a = some s') :
    s'.links.client.loc = .finished ∨
      s'.links.client.rank total < s.links.client.rank total ∨
      (s'.links.client.rank total = s.links.client.rank total ∧
        s'.links.client.helpful = s.links.client.helpful ∧
        ¬ (Links.ofClient s.links.client.helpful).moves a) := by
  have hservice := InService.of_reachable hs
  have hsteady := steady_client hs
  obtain ⟨hcourse, -⟩ := Client.steady_of_reachable hpos hsteady
  have hecho := Client.EchoInv.of_reachable hsteady.of_restrict
  have hcount := Client.CountInv.of_reachable hsteady.of_restrict
  have hnot := hservice.not_asked (hcourse.not_closed hloc)
  have hunasked {which : Which} (hasked : s.asked which = true) : False := by
    rw [hnot which] at hasked
    cases hasked
  obtain ⟨hok, -, links, hmove, rfl⟩ := healthy_moves hstep
  cases hmove with
  | thread hb hclient =>
      rcases Client.advances hecho hcount hcourse hloc hok (Client.moves_of_step hclient) with
        hfinished | hlower | ⟨hsame, hhelpful, hidle⟩
      · exact .inl hfinished
      · exact .inr (.inl hlower)
      · exact .inr (.inr ⟨hsame, hhelpful, fun hmoves => hidle (Links.moves_of_thread hmoves)⟩)
  | @opens which now signalingError hphase =>
      have hallowed : Client.steadyStep .mobile s.links.client (.onOpen now) = true := rfl
      have hclient : (s.after (Links.runOpen .mobile now signalingError which
          (s.links.setLink { s.links.link which with phase := .opened } which))).links.client =
            s.links.client.onOpen now := by
        show (Links.runOpen .mobile now signalingError which _).client = _
        rw [Links.client_runOpen, Links.client_setLink]
      rw [hclient]
      rcases Client.advances hecho hcount hcourse hloc hallowed .onOpen with
        hfinished | hlower | ⟨hsame, hhelpful, hidle⟩
      · exact .inl hfinished
      · exact .inr (.inl hlower)
      · refine .inr (.inr ⟨hsame, hhelpful, fun hmoves => ?_⟩)
        cases which with
        | primary => exact hidle (Links.moves_of_opens hmoves)
        | signaling =>
            -- nobody waits for the signaling connection
            cases hparty : s.links.client.helpful <;> rw [hparty] at hmoves <;>
              simp [Links.ofClient, Links.Party.moves] at hmoves
  | beginsClose | closes => exact (hunasked hok).elim
  | fails => cases hok
  | closeHandled _ hphase => exact (hunasked ((hservice.serves _).closed (.inr hphase))).elim
  | failHandled _ hphase => exact absurd hphase (hservice.serves _).unfailed
  | releases hhandled =>
      exact (hunasked ((hservice.serves _).closed
        (.inr ((hservice.serves _).handled hhandled)))).elim

/-- **The telemetry thread returns.** -/
theorem telemetry_thread_returns (hpos : 1 ≤ total) (ρ : (healthy total conStart).Execution)
    (hfair : ∀ party : Links.Party, ρ.Fair party.moves) :
    ∃ n, (ρ.state n).links.client.loc = .finished := by
  obtain ⟨n, -, hn⟩ := ρ.eventually_of_helpful (P := fun _ => True)
    (Q := fun s => s.links.client.loc = .finished) hfair (fun s => s.links.client.rank total)
    (fun s => Links.ofClient s.links.client.helpful)
    (fun s hs _ hloc => exists_helpful hpos hs hloc)
    (fun s a s' hs _ hloc hstep => by
      rcases advances hpos hs hloc hstep with hfinished | hlower | ⟨hsame, hhelpful, hidle⟩
      · exact .inl hfinished
      · exact .inr ⟨trivial, .inl hlower⟩
      · exact .inr ⟨trivial, .inr ⟨hsame, by rw [hhelpful], hidle⟩⟩) (n := 0) trivial
  exact ⟨n, hn⟩

/-- A step in which the thread returns is a call of `close`. -/
theorem close_of_returns (hpos : 1 ≤ total) (hs : (healthy total conStart).Reachable s)
    (hbefore : s.links.client.loc ≠ .finished) (hafter : s'.links.client.loc = .finished)
    (hstep : (healthy total conStart).step s a = some s') :
    ∃ refused, a = .thread (.close refused) := by
  obtain ⟨hcourse, -⟩ := Client.steady_of_reachable hpos (steady_client hs)
  obtain ⟨-, -, links, hmove, rfl⟩ := healthy_moves hstep
  have hafter : links.client.loc = .finished := hafter
  have hsame (h : links.client.loc = s.links.client.loc) : False := hbefore (h ▸ hafter)
  cases hmove with
  | @thread b c hb hclient =>
      have hafter : c.loc = .finished := hafter
      have hmove := Client.moves_of_step hclient
      cases hthread : b.isThread with
      | false => exact (hsame (Client.place_moves hmove hthread).1).elim
      | true =>
          cases hmove with
          | close => exact ⟨_, rfl⟩
          | fail hloc => exact absurd hloc hcourse.place.1
          | flow hflow =>
              have hafter : _ = Client.Loc.finished := hafter
              cases hflow <;> cases hafter
          | count | reset => cases hafter
          | @send now e₁ e₂ =>
              simp only [Client.send] at hafter
              split at hafter <;> cases hafter
          | onOpen | onClose | onFail | onMessage | discard => cases hthread
  | opens =>
      rw [Links.client_runOpen, Links.client_setLink] at hsame
      exact (hsame rfl).elim
  | beginsClose | closes | fails | releases =>
      rw [Links.client_setLink] at hsame
      exact (hsame rfl).elim
  | closeHandled => exact (hsame rfl).elim
  | failHandled _ hphase =>
      exact absurd hphase ((InService.of_reachable hs).serves _).unfailed

/-- When the thread has returned, it has called `close`. -/
theorem exists_close (hpos : 1 ≤ total) (ρ : (healthy total conStart).Execution) {n : Nat}
    (hloc : (ρ.state n).links.client.loc = .finished) :
    ∃ k refused, ρ.label k = some (.thread (.close refused)) := by
  induction n with
  | zero =>
      rw [ρ.start] at hloc
      cases hloc
  | succ n ih =>
      by_cases hbefore : (ρ.state n).links.client.loc = .finished
      · exact ih hbefore
      · rcases ρ.next n with ⟨-, hsame⟩ | ⟨a, hlabel, hstep⟩
        · rw [hsame] at hloc
          exact absurd hloc hbefore
        · obtain ⟨refused, rfl⟩ := close_of_returns hpos (ρ.reachable n) hbefore hloc hstep
          exact ⟨n, refused, hlabel⟩

/-! ## The connections close -/

/-- A step gets a connection nearer to its end, or it is not a move of those who could do so. -/
theorem Answered.nearer (h : s.Answered) (hservice : s.InService)
    (hstep : (healthy total conStart).step s a = some s') (which : Which) :
    Links.stepsToEnd (s'.links.link which) < Links.stepsToEnd (s.links.link which) ∨
      ((s'.links.link which).phase = (s.links.link which).phase ∧
        (s'.links.link which).handled = (s.links.link which).handled ∧
        a ≠ .closes which ∧ a ≠ .handles which) := by
  obtain ⟨hok, -, links, hmove, rfl⟩ := healthy_moves hstep
  show Links.stepsToEnd (links.link which) < _ ∨
    ((links.link which).phase = _ ∧ (links.link which).handled = _ ∧ _)
  -- the connection that moves gets nearer to its end
  have hset {l : Link} {moved : Which}
      (hlower : Links.stepsToEnd l < Links.stepsToEnd (s.links.link moved))
      (hother : which ≠ moved → a ≠ .closes which ∧ a ≠ .handles which) :
      Links.stepsToEnd ((s.links.setLink l moved).link which) <
          Links.stepsToEnd (s.links.link which) ∨
        (((s.links.setLink l moved).link which).phase = (s.links.link which).phase ∧
          ((s.links.setLink l moved).link which).handled = (s.links.link which).handled ∧
          a ≠ .closes which ∧ a ≠ .handles which) := by
    rw [Links.link_setLink]
    split
    · next heq =>
        left
        rwa [heq]
    · next hne => exact .inr ⟨rfl, rfl, hother hne⟩
  cases hmove with
  | thread => cases which <;> exact .inr ⟨rfl, rfl, by simp, by simp⟩
  | @opens moved now signalingError hphase =>
      rcases h.2 moved with hasked | habsent
      · exact absurd hphase (hservice.begun hasked).2
      · rw [habsent] at hphase
        cases hphase
  | @beginsClose moved hphase =>
      exact hset (by simp [Links.stepsToEnd, hphase]) (by simp)
  | @closes moved hphase =>
      have hunhandled := (hservice.serves moved).unhandled (by
        rcases hphase with hphase | hphase <;> rw [hphase] <;> simp)
      refine hset ?_ fun hne => ⟨by simpa using hne.symm, by simp⟩
      rcases hphase with hphase | hphase <;> simp [Links.stepsToEnd, hphase, hunhandled]
  | fails => cases hok
  | @closeHandled moved hfirst hphase =>
      have hlower : Links.stepsToEnd { s.links.link moved with handled := true } <
          Links.stepsToEnd (s.links.link moved) := by
        simp [Links.stepsToEnd, hphase, hfirst]
      have hlinks := hset hlower fun hne => ⟨by simp, by simpa using hne.symm⟩
      cases moved <;> cases which <;> exact hlinks
  | failHandled _ hphase => exact absurd hphase (hservice.serves _).unfailed
  | @releases moved _ =>
      rw [Links.link_setLink]
      split
      · next heq => exact .inr ⟨by rw [heq], by rw [heq], by simp, by simp⟩
      · exact .inr ⟨rfl, rfl, by simp, by simp⟩

/-- What has been answered stays so. -/
theorem Answered.step (hpos : 1 ≤ total) (hs : (healthy total conStart).Reachable s)
    (h : s.Answered) (hstep : (healthy total conStart).step s a = some s') : s'.Answered := by
  obtain ⟨hclosed, hasked, habsent⟩ := step_of_closed hpos hs h.1 hstep
  refine ⟨hclosed, fun which => ?_⟩
  rw [hasked, habsent]
  exact h.2 which

/-- An orphan stays one. -/
theorem Orphaned.step (hpos : 1 ≤ total) (hs : (healthy total conStart).Reachable s)
    (h : s.Orphaned) (hstep : (healthy total conStart).step s a = some s') : s'.Orphaned := by
  obtain ⟨hstarted, hnot, hphase⟩ := h
  obtain ⟨hclosed, hasked, habsent⟩ := step_of_closed hpos hs hstarted hstep
  exact ⟨hclosed, by rw [hasked, hnot], mt (habsent .signaling).mp hphase⟩

/-- **An answered client loses its connections.** Each of them is settled in the end. -/
theorem settles (hpos : 1 ≤ total) (ρ : (healthy total conStart).Execution)
    (hfair : ∀ party : Links.Party, ρ.Fair party.moves) {n : Nat} (h : (ρ.state n).Answered)
    (which : Which) : ∃ m, n ≤ m ∧ ((ρ.state m).links.link which).Settled := by
  refine ρ.eventually_of_helpful (P := Answered) (Q := fun s => (s.links.link which).Settled) hfair
    (fun s => Links.stepsToEnd (s.links.link which))
    (fun s => if (s.links.link which).phase = .closed then .handler which else .closer which)
    (fun s hs hanswered hnot => ?_) (fun s a s' hs hanswered _ hstep => ?_) h
  · have hservice := InService.of_reachable hs
    obtain ⟨hcourse, -⟩ := Client.steady_of_reachable hpos (steady_client hs)
    have hlives : (s.links.crashed || decide (s.links.client.loc = .terminated)) = false := by
      simp [hservice.alive, hcourse.place.2.2]
    have hasked : s.asked which = true := (hanswered.2 which).resolve_right fun habsent =>
      hnot (.inl habsent)
    obtain ⟨habsent, hconnecting⟩ := hservice.begun hasked
    by_cases hclosed : (s.links.link which).phase = .closed
    · rw [if_pos hclosed]
      have hunhandled : (s.links.link which).handled = false := by
        by_contra hhandled
        exact hnot (.inr ⟨.inl hclosed, by simpa using hhandled⟩)
      refine ⟨.handles which, rfl, isSome_step _ rfl ?_⟩
      simp [Links.step, hlives, hclosed, hunhandled]
    · rw [if_neg hclosed]
      refine ⟨.closes which, rfl, isSome_step _ hasked ?_⟩
      have hunfailed := (hservice.serves which).unfailed
      have hphase : (s.links.link which).phase = .opened ∨
          (s.links.link which).phase = .closing := by
        cases hphase : (s.links.link which).phase with
        | opened => exact .inl rfl
        | closing => exact .inr rfl
        | absent => exact absurd hphase habsent
        | connecting => exact absurd hphase hconnecting
        | closed => exact absurd hphase hclosed
        | failed => exact absurd hphase hunfailed
      simp [Links.step, hlives, hphase]
  · refine .inr ⟨hanswered.step hpos hs hstep, ?_⟩
    rcases hanswered.nearer (.of_reachable hs) hstep which with
      hlower | ⟨hphase, hhandled, hcloses, hhandles⟩
    · exact .inl hlower
    · refine .inr ⟨?_, by rw [hphase], ?_⟩
      · unfold Links.stepsToEnd
        rw [hphase, hhandled]
      · split
        · exact hhandles
        · exact hcloses

/-- A connection that is settled stays so. -/
theorem Answered.settled_step (h : s.Answered) (hservice : s.InService)
    (hstep : (healthy total conStart).step s a = some s') {which : Which}
    (hsettled : (s.links.link which).Settled) : (s'.links.link which).Settled := by
  have hend : Links.stepsToEnd (s.links.link which) = 0 := by
    rcases hsettled with habsent | ⟨hclosed | hfailed, hhandled⟩
    · simp [Links.stepsToEnd, habsent]
    · simp [Links.stepsToEnd, hclosed, hhandled]
    · simp [Links.stepsToEnd, hfailed]
  rcases h.nearer hservice hstep which with hlower | ⟨hphase, hhandled, -⟩
  · omega
  · unfold Link.Settled
    rw [hphase, hhandled]
    exact hsettled

/-- **When the plain client returns.** In every fair execution with healthy servers, however the
threads interleave and however late connections open and echoes arrive, the telemetry thread
returns; `wait` returns exactly if the signaling connection is not still connecting when `close` is
called. -/
theorem plain_client_returns_iff {total conStart : Int} (hpos : 1 ≤ total)
    (ρ : (healthy total conStart).Execution) (hfair : ∀ party : Links.Party, ρ.Fair party.moves) :
    (∃ n, (ρ.state n).links.client.loc = .finished) ∧
      ((∃ n, (ρ.state n).Joined) ↔ ∀ n refused, ρ.label n = some (.thread (.close refused)) →
        (ρ.state n).links.signaling.phase ≠ .connecting) := by
  have hcourse (n : Nat) : Client.Course total (ρ.state n).links.client :=
    (Client.steady_of_reachable hpos (steady_client (ρ.reachable n))).1
  refine ⟨telemetry_thread_returns hpos ρ hfair, ?_, fun hlate => ?_⟩
  · rintro ⟨n, hjoined⟩ k refused hlabel hconnecting
    obtain ⟨hclosing, horphaned, -⟩ :=
      after_close hpos (ρ.reachable k) (ρ.step_of_label hlabel)
    rcases Nat.lt_or_ge k n with hkn | hnk
    · -- the orphan is still there when the client is joined
      have hlater := ρ.stays (fun s a s' hs h hstep => h.step hpos hs hstep) hkn
        (horphaned hconnecting)
      exact hlater.not_joined (.of_reachable (ρ.reachable n)) hjoined
    · -- a client that has been joined does not call `close` any more
      have hstarted := ρ.stays (P := fun s => s.links.client.closeStarted = true)
        (fun s a s' hs h hstep => (step_of_closed hpos hs h hstep).1) hnk
        ((hcourse n).closed.mpr hjoined.1)
      rw [(hcourse k).closed.mp hstarted] at hclosing
      cases hclosing
  · obtain ⟨n, hfinished⟩ := telemetry_thread_returns hpos ρ hfair
    obtain ⟨k, refused, hlabel⟩ := exists_close hpos ρ hfinished
    obtain ⟨-, -, hanswered⟩ := after_close hpos (ρ.reachable k) (ρ.step_of_label hlabel)
    have hanswered := hanswered (hlate k refused hlabel)
    have hstays {m m' : Nat} (hle : m ≤ m') (h : (ρ.state m).Answered) :
        (ρ.state m').Answered :=
      ρ.stays (fun s a s' hs h hstep => h.step hpos hs hstep) hle h
    -- first the primary connection, then the signaling one
    obtain ⟨m, hkm, hprimary⟩ := settles hpos ρ hfair hanswered .primary
    have hanswered := hstays hkm hanswered
    obtain ⟨m', hmm', hsignaling⟩ := settles hpos ρ hfair hanswered .signaling
    have hlast := ρ.stays (P := fun s => s.Answered ∧ (s.links.link .primary).Settled)
      (fun s a s' hs h hstep => ⟨h.1.step hpos hs hstep,
        h.1.settled_step (.of_reachable hs) hstep h.2⟩) hmm' ⟨hanswered, hprimary⟩
    exact ⟨m', (hcourse m').closed.mp hlast.1.1, hlast.2, hsignaling⟩

/-- Nobody moves a client on that has been joined. -/
theorem step_joined (hpos : 1 ≤ total) (hs : (healthy total conStart).Reachable s) (h : s.Joined)
    {party : Links.Party} (hmoves : party.moves a) : (healthy total conStart).step s a = none := by
  by_contra hsome
  obtain ⟨s', hstep⟩ := Option.ne_none_iff_exists'.mp hsome
  obtain ⟨hloc, hprimary, hsignaling⟩ := h
  have hsettled : ∀ which, (s.links.link which).Settled := fun which => by
    cases which with
    | primary => exact hprimary
    | signaling => exact hsignaling
  obtain ⟨hcourse, -⟩ := Client.steady_of_reachable hpos (steady_client hs)
  obtain ⟨hok, -, links, hmove, -⟩ := healthy_moves hstep
  cases party with
  | thread =>
      obtain ⟨b, rfl, hthread⟩ := hmoves
      cases hmove with
      | thread _ hclient =>
          rcases hthread with rfl | ⟨now, e₁, e₂, rfl⟩ | ⟨refused, rfl⟩ <;>
            simp [Client.step, Client.proceed, hloc] at hclient
  | echoes =>
      obtain ⟨k, now, rfl⟩ := hmoves
      simp [healthyStep, Client.steadyStep, hcourse.closed.mpr hloc] at hok
  | opener =>
      obtain ⟨now, e, rfl⟩ := hmoves
      cases hmove with
      | opens hphase => simpa [Link.Settled, hphase] using hsettled .primary
  | closer which =>
      cases hmoves
      cases hmove with
      | closes hphase =>
          rcases hphase with hphase | hphase <;> simpa [Link.Settled, hphase] using hsettled which
  | handler which =>
      cases hmoves
      cases hmove with
      | closeHandled hfirst hphase | failHandled hfirst hphase =>
          simpa [Link.Settled, hphase, hfirst] using hsettled which

/-- One message is sent and echoed, and the signaling connection opens in between. -/
def plainRun : List Links.Act :=
  [.thread .proceed, .opens .primary 2000000 false, .thread .proceed, .thread .proceed,
    .thread (.send 3000000 false false), .opens .signaling 4000000 false,
    .thread (.onMessage 0 9000000), .thread .proceed, .thread .proceed, .thread (.close false),
    .closes .signaling, .handles .signaling, .releases .signaling, .closes .primary,
    .handles .primary]

/-- `plain_client_returns_iff` for that client. -/
theorem plain_client_returns_echoed : ∃ ρ : (healthy 1 0).Execution,
    (∃ n, (ρ.state n).Joined) ∧ ∀ n refused, ρ.label n = some (.thread (.close refused)) →
      (ρ.state n).links.signaling.phase ≠ .connecting := by
  obtain ⟨s, hrun, hend⟩ := (healthy 1 0).exists_of_exec_any plainRun (fun s => s.Joined)
    (by decide)
  have hjoined : s.Joined := of_decide_eq_true hend
  have hreached : ((Execution.ofRun hrun).state plainRun.length).Joined := by
    rw [Execution.state_ofRun hrun (Nat.le_refl _)]
    exact hjoined
  refine ⟨.ofRun hrun, ⟨_, hreached⟩, ?_⟩
  apply (plain_client_returns_iff (by decide) (.ofRun hrun) fun party => ?_).2.mp ⟨_, hreached⟩
  apply Execution.fair_ofRun
  intro a hmoves
  exact step_joined (by decide) (reachable_of_exec _ hrun) hjoined hmoves

end PlainClient

end WsPerftester
