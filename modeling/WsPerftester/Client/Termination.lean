import WsPerftester.Client.Completion
import WsPerftester.Lib.Fairness

/-! # A client of a healthy server ends

The telemetry thread polls: while the connection is not open, or an echo is outstanding, it goes
round its loop without getting anywhere. Against a well-behaved server it nevertheless comes to the
end of `telemetry_loop` in every fair execution, in which the thread is not stopped for ever, the
connection opens and every outstanding echo arrives some time. The rank counts the messages that are
still to be sent; who lowers it changes with the state. -/

namespace WsPerftester

namespace Client

/-! ## The flag stands for an echo -/

/-- While the flag is up and the client has not started closing, an echo is outstanding. -/
def FlagInv (c : Client) : Prop :=
  c.mMessagePending = true → c.closeStarted = true ∨ ∃ k, c.Awaits k

/-- A move that leaves the calls alone and does not raise the flag keeps the invariant. -/
theorem FlagInv.of_eq {c c' : Client} (h : FlagInv c) (hsends : c'.sends = c.sends)
    (hpending : c'.mMessagePending = true → c.mMessagePending = true)
    (hclosed : c.closeStarted = true → c'.closeStarted = true) : FlagInv c' := by
  intro hflag
  rcases h (hpending hflag) with hstarted | ⟨k, hk⟩
  · exact .inl (hclosed hstarted)
  · refine .inr ⟨k, ?_⟩
    rw [Awaits, hsends]
    exact hk

/-- The end of the thread keeps the invariant. -/
theorem FlagInv.halts {c c' : Client} (h : FlagInv c) (hhalts : c.Halts c')
    (hclosed : c.closeStarted = true → c'.closeStarted = true) : FlagInv c' := by
  obtain ⟨loc, closed, -, rfl⟩ := hhalts
  exact h.of_eq rfl id hclosed

/-- A handler of a connection event keeps the invariant. -/
theorem FlagInv.signals {c c' : Client} (h : FlagInv c) (hsignals : c.Signals c') : FlagInv c' := by
  obtain ⟨isOpen, isDone, isFailed, setupTime, rfl⟩ := hsignals
  exact h.of_eq rfl id id

/-- Every step of a well-behaved environment keeps the flag standing for an echo. -/
theorem FlagInv.moves {kind : Kind} {total : Int} {c c' : Client} {a : Act} (h : FlagInv c)
    (hok : steadyStep kind c a = true) (hmove : Moves kind total c a c') : FlagInv c' := by
  have hclosed := closeStarted_moves hmove
  cases hmove with
  | flow _ | count _ => exact h.of_eq rfl id hclosed
  | reset _ => exact h.of_eq rfl (by simp) hclosed
  | fail _ => exact h.halts (halts_fail kind c) hclosed
  | close _ => exact h.halts (halts_close kind _ c) hclosed
  | onOpen => exact h.signals (signals_onOpen _ c)
  | onClose => exact h.signals (signals_onClose kind c)
  | onFail => exact h.signals (signals_onFail kind _ c)
  | @send now primaryError signalingError _ =>
      have herror : sendMessage kind primaryError signalingError = false := by
        simpa [steadyStep] using hok
      refine fun _ => .inr ⟨c.sends.length, ⟨now, .outstanding⟩, ?_, rfl⟩
      simp [Client.send, herror]
  | onMessage _ =>
      intro hflag
      simp [Client.settle, Client.onMessage] at hflag
  | discard _ hstarted => exact fun _ => .inl hstarted

/-! ## Who moves the client on -/

/-- The parties a client depends on. -/
inductive Party
  | thread
  | opener
  | echoes

/-- The moves of a party. -/
def Party.moves : Party → Act → Prop
  | .thread, a => a = .proceed ∨ (∃ now e₁ e₂, a = .send now e₁ e₂) ∨ ∃ refused, a = .close refused
  | .opener, a => ∃ now, a = .onOpen now
  | .echoes, a => ∃ k now, a = .onMessage k now

/-- The thread is in the part of the loop that goes round without getting on. -/
def Polling (c : Client) : Prop := c.loc = .loopHead ∨ c.loc = .awake ∨ c.loc = .retry

instance (c : Client) : Decidable c.Polling := inferInstanceAs (Decidable (_ ∨ _))

/-- The party whose move gets the client on. -/
def helpful (c : Client) : Party :=
  if c.mOpen = false then .opener
  else if c.mMessagePending = true ∧ c.Polling then .echoes
  else .thread

/-- The steps of the thread in one round, from each place, once nothing holds it up. -/
def stepsLeft (c : Client) : Nat :=
  match c.loc with
  -- behind a send the flag is up, which adds the round of waiting for the echo
  | .sending => 15
  | .retry => if c.mMessagePending then 10 else 9
  | .loopHead => if c.mMessagePending then 10 else 8
  | .awake => if c.mMessagePending then 10 else 7
  | .counting => 6
  | .sendFailed | .left | .failing => 3
  | .closing => 2
  | .finished | .terminated => 0

/-- **The rank of a client**: the messages still to be sent, and then the steps of the round. -/
def rank (total : Int) (c : Client) : Nat :=
  if c.mOpen = false then 20 * total.toNat + 30
  else 20 * (total.toNat - c.mCount) + c.stepsLeft

/-- A round is never longer than its longest part. -/
theorem stepsLeft_le (c : Client) : c.stepsLeft ≤ 15 := by
  unfold stepsLeft
  split <;> first | omega | split <;> omega

/-- A step brings the client nearer to its end, or leaves it to the same party to do so. -/
def Advances (total : Int) (c : Client) (a : Act) (c' : Client) : Prop :=
  c'.loc = .finished ∨ c'.rank total < c.rank total ∨
    (c'.rank total = c.rank total ∧ c'.helpful = c.helpful ∧ ¬ c.helpful.moves a)

/-- A step that changes neither the place nor the flags nor `m_count` leaves the client to the same
party. -/
theorem advances_of_same {total : Int} {c c' : Client} {a : Act} (hloc : c'.loc = c.loc)
    (hopen : c'.mOpen = c.mOpen) (hpending : c'.mMessagePending = c.mMessagePending)
    (hcount : c'.mCount = c.mCount) (ha : ¬ c.helpful.moves a) : Advances total c a c' := by
  refine .inr (.inr ⟨?_, ?_, ha⟩)
  · unfold rank stepsLeft
    rw [hloc, hopen, hpending, hcount]
  · have hpolling : c'.Polling ↔ c.Polling := by rw [Polling, Polling, hloc]
    simp only [helpful, hopen, hpending, hpolling]

/-- Before the connection is open, it is for `on_open` to get the client on. -/
theorem advances_of_not_open {kind : Kind} {total : Int} {c c' : Client} {a : Act}
    (hclosed : c.mOpen = false) (hmove : Moves kind total c a c') : Advances total c a c' := by
  have hrank : c.rank total = 20 * total.toNat + 30 := by rw [rank, if_pos hclosed]
  have hhelpful : c.helpful = .opener := by rw [helpful, if_pos hclosed]
  by_cases hopens : ∃ now, a = .onOpen now
  · obtain ⟨now, rfl⟩ := hopens
    cases hmove with
    | onOpen =>
        right
        left
        have hle := (c.onOpen now).stepsLeft_le
        have hopen : (c.onOpen now).mOpen ≠ false := by simp [Client.onOpen]
        rw [hrank, rank, if_neg hopen]
        omega
  · have hsame := mOpen_moves hmove fun now h => hopens ⟨now, h⟩
    rw [hclosed] at hsame
    right
    right
    rw [hrank, hhelpful, rank, helpful, if_pos hsame, if_pos hsame]
    exact ⟨rfl, rfl, hopens⟩

/-- The moves of the thread that only change the place advance an open client. -/
theorem advances_of_flow {total : Int} {c : Client} {loc : Loc} (hopen : c.mOpen = true)
    (hcourse : Course total c) (hflow : Flow total c loc) :
    Advances total c .proceed (c.goto loc) := by
  cases hflow with
  | enter hloc _ | again hloc =>
      cases hpending : c.mMessagePending with
      | true =>
          -- a round of polling gets nowhere: it is for the echo to arrive
          refine .inr (.inr ?_)
          simp [rank, helpful, stepsLeft, Polling, Party.moves, goto, hloc, hopen, hpending]
      | false =>
          refine .inr (.inl ?_)
          simp [rank, stepsLeft, goto, hloc, hopen, hpending]
  | blocked hloc hblocked =>
      have hpending : c.mMessagePending = true := by simpa [hopen] using hblocked
      refine .inr (.inr ?_)
      simp [rank, helpful, stepsLeft, Polling, Party.moves, goto, hloc, hopen, hpending]
  | exhausted hloc _ | stopped hloc _ =>
      refine .inr (.inl ?_)
      cases hpending : c.mMessagePending <;> simp [rank, stepsLeft, goto, hloc, hopen, hpending]
  | ready hloc _ _ hidle =>
      refine .inr (.inl ?_)
      simp [rank, stepsLeft, goto, hloc, hopen, hidle]
  | complete hloc _ =>
      refine .inr (.inl ?_)
      simp [rank, stepsLeft, goto, hloc, hopen]
  | giveUp hloc hne => exact absurd (hcourse.complete (.inl hloc)) hne

/-- An echo gets a polling client on; at the other places the thread needs no help. -/
theorem advances_of_onMessage {total : Int} {c : Client} {k : Nat} (hopen : c.mOpen = true)
    (hecho : EchoInv c) (hcourse : Course total c) (hnot : c.loc ≠ .finished) (hk : c.Awaits k)
    (now : Int) :
    Advances total c (.onMessage k now) ((c.onMessage now).settle k (.echoed now)) := by
  have hloud : ¬ Quiet c.sends := by
    obtain ⟨s, hs, hout⟩ := hk
    exact fun hquiet => hquiet s (List.mem_of_getElem? hs) hout
  have hpending : c.mMessagePending = true := by
    by_contra hidle
    exact hloud (hecho.quiet (.inl (by simpa using hidle)))
  have hattempt : ¬ c.Attempting := fun h => hloud (hecho.quiet (.inr h))
  have hplace := hcourse.place
  cases hloc : c.loc with
  | loopHead | awake | retry =>
      refine .inr (.inl ?_)
      simp [rank, stepsLeft, Client.settle, Client.onMessage, hloc, hopen, hpending]
  | left | closing =>
      -- behind the loop nobody looks at the flag any more
      refine .inr (.inr ?_)
      simp [rank, helpful, stepsLeft, Polling, Party.moves, Client.settle, Client.onMessage, hloc,
        hopen]
  | counting | sending | sendFailed => exact absurd (by simp [Attempting, hloc]) hattempt
  | failing => exact absurd hloc hplace.1
  | finished => exact absurd hloc hnot
  | terminated => exact absurd hloc hplace.2.2

/-- **Every step of a well-behaved environment advances the client.** -/
theorem advances {kind : Kind} {total : Int} {c c' : Client} {a : Act} (hecho : EchoInv c)
    (hcount : CountInv total c) (hcourse : Course total c) (hnot : c.loc ≠ .finished)
    (hok : steadyStep kind c a = true) (hmove : Moves kind total c a c') :
    Advances total c a c' := by
  cases hopen : c.mOpen with
  | false => exact advances_of_not_open hopen hmove
  | true =>
      cases hmove with
      | flow hflow => exact advances_of_flow hopen hcourse hflow
      | count hloc =>
          have hroom := hcount.room (.inr hloc)
          refine .inr (.inl ?_)
          simp only [rank, stepsLeft, hloc, hopen, Bool.true_eq_false, if_false]
          omega
      | reset hloc => exact absurd hloc hcourse.place.2.1
      | fail hloc => exact absurd hloc hcourse.place.1
      | @send now primaryError signalingError hloc =>
          have herror : sendMessage kind primaryError signalingError = false := by
            simpa [steadyStep] using hok
          refine .inr (.inl ?_)
          simp [rank, stepsLeft, Client.send, herror, hloc, hopen]
      | @close refused hloc =>
          have hrefused : refused = false := by simpa [steadyStep] using hok
          left
          rw [hrefused, close_accepted]
      | onOpen =>
          refine advances_of_same rfl (by simp [Client.onOpen, hopen]) rfl rfl ?_
          unfold helpful
          split_ifs <;> simp_all [Party.moves]
      | onClose =>
          have hnobody : ¬ c.helpful.moves .onClose := by cases c.helpful <;> simp [Party.moves]
          cases kind with
          | base => exact advances_of_same rfl rfl rfl rfl hnobody
          | mobile => exact advances_of_same rfl rfl rfl rfl hnobody
      | onFail => cases hok
      | onMessage hk => exact advances_of_onMessage hopen hecho hcourse hnot hk _
      | discard _ hclosed => exact absurd (hcourse.closed.mp hclosed) hnot

/-- What holds of a client whose server is well-behaved, with its flag. -/
theorem flagInv_of_reachable {kind : Kind} {total conStart : Int} {c : Client}
    (hc : (steady kind total conStart).Reachable c) : FlagInv c := by
  refine hc.invariant ?_ fun c a c' h hstep => ?_
  · intro hflag
    cases hflag
  · obtain ⟨hok, hmove⟩ := steady_moves hstep
    exact h.moves hok hmove

/-- The thread can proceed wherever it neither sends nor closes, until it has ended. -/
theorem isSome_proceed (kind : Kind) (total : Int) {c : Client} (hsending : c.loc ≠ .sending)
    (hclosing : c.loc ≠ .closing) (hfinished : c.loc ≠ .finished) (hend : c.loc ≠ .terminated) :
    (c.proceed kind total).isSome = true := by
  unfold proceed
  cases hloc : c.loc with
  | loopHead | retry | counting | sendFailed | left | failing => rfl
  | awake =>
      simp only
      split
      · rfl
      · split <;> rfl
  | sending => exact absurd hloc hsending
  | closing => exact absurd hloc hclosing
  | finished => exact absurd hloc hfinished
  | terminated => exact absurd hloc hend

/-- The helpful party can always move. -/
theorem exists_helpful {kind : Kind} {total conStart : Int} (hpos : 1 ≤ total) {c : Client}
    (hc : (steady kind total conStart).Reachable c) (hnot : c.loc ≠ .finished) :
    ∃ a, c.helpful.moves a ∧ ((steady kind total conStart).step c a).isSome = true := by
  obtain ⟨hcourse, -⟩ := steady_of_reachable hpos hc
  have hplace := hcourse.place
  have hunclosed := hcourse.not_closed hnot
  unfold helpful
  split_ifs with hopen hpolling
  · refine ⟨.onOpen 0, ⟨0, rfl⟩, ?_⟩
    simp [steady, telemetry, TransitionSystem.restrict, steadyStep, step, hplace.2.2]
  · -- the flag is up before the close, so there is an echo to deliver
    obtain ⟨k, hk⟩ := (flagInv_of_reachable hc hpolling.1).resolve_left (by simp [hunclosed])
    refine ⟨.onMessage k 0, ⟨k, 0, rfl⟩, ?_⟩
    simp [steady, telemetry, TransitionSystem.restrict, steadyStep, step, hplace.2.2, hk, hunclosed]
  · by_cases hsending : c.loc = .sending
    · refine ⟨.send 0 false false, .inr (.inl ⟨0, false, false, rfl⟩), ?_⟩
      have herror : sendMessage kind false false = false := by cases kind <;> rfl
      simp [steady, telemetry, TransitionSystem.restrict, steadyStep, step, hsending, herror]
    · by_cases hclosing : c.loc = .closing
      · refine ⟨.close false, .inr (.inr ⟨false, rfl⟩), ?_⟩
        simp [steady, telemetry, TransitionSystem.restrict, steadyStep, step, hclosing]
      · refine ⟨.proceed, .inl rfl, ?_⟩
        have hproceeds := isSome_proceed kind total hsending hclosing hnot hplace.2.2
        simp [steady, telemetry, TransitionSystem.restrict, steadyStep, step, hproceeds]

/-- **A client of a healthy server ends.** In every fair execution against a well-behaved server,
however late the connection opens and the echoes arrive, `telemetry_loop` returns. -/
theorem telemetry_loop_returns {kind : Kind} {total conStart : Int} (hpos : 1 ≤ total)
    (ρ : (steady kind total conStart).Execution) (hfair : ∀ party, ρ.Fair (Party.moves party)) :
    ∃ n, (ρ.state n).loc = .finished := by
  obtain ⟨n, -, hn⟩ := ρ.eventually_of_helpful (P := fun _ => True)
    (Q := fun c => c.loc = .finished) hfair (rank total) helpful
    (fun c hc _ hnot => exists_helpful hpos hc hnot)
    (fun c a c' hc _ hnot hstep => by
      obtain ⟨hok, hmove⟩ := steady_moves hstep
      obtain ⟨hcourse, -⟩ := steady_of_reachable hpos hc
      have hadvances := advances (.of_reachable hc.of_restrict) (.of_reachable hc.of_restrict)
        hcourse hnot hok hmove
      exact hadvances.imp_right fun h => ⟨trivial, h⟩) (n := 0) trivial
  exact ⟨n, hn⟩

end Client

end WsPerftester
