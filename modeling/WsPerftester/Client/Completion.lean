import WsPerftester.Client.Verdict

/-! # What becomes of the last echo

A server that does everything right: the connection opens, no send fails, the connection is neither
closed nor failed before the client closes it, and every message is echoed once, at any time. Under
`steady` every message but the last is protected by `m_message_pending`, so its echo is handled
before the next message is sent. Nothing but a fixed pause stands between the last send and the
close: the connection completes exactly in the runs in which the last echo arrives before the client
starts closing (`connection_completes_iff`). -/

namespace WsPerftester

namespace Client

/-! ## The echoes a run has delivered -/

/-- The echo of call `k` has been handled. -/
def Heard (c : Client) (k : Nat) : Prop := ∃ s ∈ c.sends[k]?, s.Echoed

/-- What has been heard of a call, once the call is known. -/
theorem heard_of_getElem? {c : Client} {k : Nat} {s : Send} (hs : c.sends[k]? = some s) :
    c.Heard k ↔ s.Echoed := by
  simp [Heard, hs]

/-- A step that leaves the calls alone and handles no echo leaves what has been heard. -/
theorem heard_of_sends_eq {c c' : Client} {a : Act} {k : Nat} (hsends : c'.sends = c.sends)
    (ha : ∀ now, a ≠ .onMessage k now) : c'.Heard k ↔ c.Heard k ∨ ∃ now, a = .onMessage k now := by
  simp [Heard, hsends, ha]

/-- A new call has not been heard of. -/
theorem heard_send (kind : Kind) (now : Int) (primaryError signalingError : Bool) (c : Client)
    (k : Nat) : (c.send kind now primaryError signalingError).Heard k ↔ c.Heard k := by
  unfold Heard Client.send
  by_cases hk : k < c.sends.length
  · rw [List.getElem?_append_left hk]
  · rw [List.getElem?_append_right (by omega), List.getElem?_singleton,
      List.getElem?_eq_none (by omega)]
    by_cases hlast : k - c.sends.length = 0
    · rw [if_pos hlast]
      split <;> simp [Send.Echoed]
    · rw [if_neg hlast]

/-- Settling a call changes what has been heard of that call only. -/
theorem heard_settle {c : Client} {j : Nat} (fate : Fate) (hj : c.Awaits j) (k : Nat) :
    (c.settle j fate).Heard k ↔ c.Heard k ∨ k = j ∧ ∃ received, fate = .echoed received := by
  obtain ⟨s, hs, hout⟩ := hj
  have hnot : ¬ s.Echoed := fun hechoed => hechoed.not_outstanding hout
  by_cases hk : k = j
  · subst hk
    have hsettled : (c.settle k fate).sends[k]? = some { s with fate := fate } := by
      rw [Client.settle, List.getElem?_modify_eq, Option.mem_def.mp hs]
      rfl
    rw [heard_of_getElem? hsettled, heard_of_getElem? hs]
    simp only [hnot, false_or, true_and]
    exact Iff.rfl
  · have hsame : (c.settle j fate).sends[k]? = c.sends[k]? := by
      rw [Client.settle, List.getElem?_modify_ne _ _ (Ne.symm hk)]
    simp [Heard, hsame, hk]

/-- **One step delivers the echo it says.** -/
theorem heard_moves {kind : Kind} {total : Int} {c c' : Client} {a : Act}
    (hmove : Moves kind total c a c') (k : Nat) :
    c'.Heard k ↔ c.Heard k ∨ ∃ now, a = .onMessage k now := by
  cases hmove with
  | flow _ | count _ | reset _ | onOpen => exact heard_of_sends_eq rfl (by simp)
  | fail _ => exact heard_of_sends_eq (halts_fail kind c).sends_eq (by simp)
  | close _ => exact heard_of_sends_eq (halts_close kind _ c).sends_eq (by simp)
  | onClose => exact heard_of_sends_eq (signals_onClose kind c).sends_eq (by simp)
  | onFail => exact heard_of_sends_eq (signals_onFail kind _ c).sends_eq (by simp)
  | send _ =>
      rw [heard_send]
      simp
  | @onMessage j now hj =>
      have hsame : (c.onMessage now).Heard k ↔ c.Heard k := Iff.rfl
      rw [heard_settle (c := c.onMessage now) _ hj, hsame]
      simp [eq_comm]
  | @discard j hj _ =>
      rw [heard_settle _ hj]
      simp

/-- **The echoes of a run.** The echo of a call has been handled exactly when the run delivered
it. -/
theorem heard_iff_mem {kind : Kind} {total conStart : Int} {run : List Act} {c : Client}
    (h : (telemetry kind total conStart).exec (telemetry kind total conStart).init run = some c)
    (k : Nat) : c.Heard k ↔ ∃ now, Act.onMessage k now ∈ run := by
  refine TransitionSystem.exec_induction
    (P := fun run c => c.Heard k ↔ ∃ now, .onMessage k now ∈ run) ?_ ?_ h
  · simp [Heard, telemetry]
  · intro run c a c' _ ih hstep
    rw [heard_moves (moves_of_step hstep), ih]
    constructor
    · rintro (⟨now, hmem⟩ | ⟨now, rfl⟩)
      · exact ⟨now, List.mem_append_left _ hmem⟩
      · exact ⟨now, List.mem_append_right _ List.mem_cons_self⟩
    · rintro ⟨now, hmem⟩
      rcases List.mem_append.mp hmem with hmem | hmem
      · exact .inl ⟨now, hmem⟩
      · exact .inr ⟨now, (List.mem_singleton.mp hmem).symm⟩

/-! ## A server that does everything right -/

/-- What a well-behaved server and network do: no send fails, the connection neither fails nor is
closed before the client closes it, the close is not refused, and no message is handed to the
handler once the client has started closing. -/
def steadyStep (kind : Kind) (c : Client) : Act → Bool
  | .send _ primaryError signalingError => !sendMessage kind primaryError signalingError
  | .close refused => !refused
  | .onClose => c.closeStarted
  | .onFail _ => false
  | .onMessage _ _ => !c.closeStarted
  | .proceed | .onOpen _ | .discard _ => true

/-- The client against such a server, whose echoes take as long as they take. -/
def steady (kind : Kind) (total conStart : Int) : TransitionSystem Client Act :=
  (telemetry kind total conStart).restrict (steadyStep kind)

/-- A step against such a server is a move that the server allows. -/
theorem steady_moves {kind : Kind} {total conStart : Int} {c c' : Client} {a : Act}
    (h : (steady kind total conStart).step c a = some c') :
    steadyStep kind c a = true ∧ Moves kind total c a c' := by
  obtain ⟨hok, hstep⟩ := ((telemetry kind total conStart).restrict_step).mp h
  exact ⟨hok, moves_of_step hstep⟩

/-- A close that is not refused. -/
theorem close_accepted (kind : Kind) (c : Client) :
    c.close kind false = { c with loc := .finished, closeStarted := true } := by
  cases kind <;> rfl

/-- **The course of a client** whose server is well-behaved: it leaves the loop only when every
message has been sent, and ends by closing the connection. -/
structure Course (total : Int) (c : Client) : Prop where
  unfailed : c.mFailed = false
  done : c.mDone = true → c.closeStarted = true
  closed : c.closeStarted = true ↔ c.loc = .finished
  complete : c.loc = .left ∨ c.loc = .closing ∨ c.loc = .finished → (c.mCount : Int) = total
  place : c.loc ≠ .failing ∧ c.loc ≠ .sendFailed ∧ c.loc ≠ .terminated

/-- The client starts closing with its last step. -/
theorem Course.not_closed {total : Int} {c : Client} (h : Course total c)
    (hloc : c.loc ≠ .finished) : c.closeStarted = false := by
  by_contra hclosed
  exact hloc (h.closed.mp (by simpa using hclosed))

/-- The moves that only change the place keep the course. -/
theorem Course.flow {total : Int} {c : Client} {loc : Loc} (h : Course total c)
    (hcount : CountInv total c) (hpos : 1 ≤ total) (hflow : Flow total c loc) :
    Course total (c.goto loc) := by
  have hbound := hcount.bound
  cases hflow with
  | enter hloc | blocked hloc | ready hloc | again hloc =>
      have hclosed := h.not_closed (by simp [hloc])
      exact ⟨h.unfailed, h.done, by simp [goto, hclosed], by simp [goto], by simp [goto]⟩
  | exhausted hloc hnot =>
      have hclosed := h.not_closed (by simp [hloc])
      refine ⟨h.unfailed, h.done, by simp [goto, hclosed], fun _ => ?_, by simp [goto]⟩
      -- the count never passes the total, so the loop is left with the two equal
      show (c.mCount : Int) = total
      omega
  | stopped hloc hdone =>
      -- the client closes before anyone else does
      have hclosed := h.not_closed (by simp [hloc])
      rw [h.done hdone] at hclosed
      cases hclosed
  | complete hloc heq =>
      have hclosed := h.not_closed (by simp [hloc])
      exact ⟨h.unfailed, h.done, by simp [goto, hclosed], fun _ => heq, by simp [goto]⟩
  | giveUp hloc hne => exact absurd (h.complete (.inl hloc)) hne

/-- **Every step of a well-behaved environment keeps the course.** -/
theorem Course.moves {kind : Kind} {total : Int} {c c' : Client} {a : Act} (h : Course total c)
    (hcount : CountInv total c) (hpos : 1 ≤ total) (hok : steadyStep kind c a = true)
    (hmove : Moves kind total c a c') : Course total c' := by
  cases hmove with
  | flow hflow => exact h.flow hcount hpos hflow
  | count hloc =>
      have hclosed := h.not_closed (by simp [hloc])
      exact ⟨h.unfailed, h.done, by simp [hclosed], by simp, by simp⟩
  | reset hloc => exact absurd hloc h.place.2.1
  | fail hloc => exact absurd hloc h.place.1
  | @send now primaryError signalingError hloc =>
      have hclosed := h.not_closed (by simp [hloc])
      have herror : sendMessage kind primaryError signalingError = false := by
        simpa [steadyStep] using hok
      exact ⟨h.unfailed, h.done, by simp [Client.send, herror, hclosed],
        by simp [Client.send, herror], by simp [Client.send, herror]⟩
  | @close refused hloc =>
      have hrefused : refused = false := by simpa [steadyStep] using hok
      rw [hrefused, close_accepted]
      exact ⟨h.unfailed, fun _ => rfl, by simp, fun _ => h.complete (.inr (.inl hloc)), by simp⟩
  | onOpen => exact ⟨h.unfailed, h.done, h.closed, h.complete, h.place⟩
  | onClose =>
      cases kind with
      | base => exact ⟨h.unfailed, fun _ => hok, h.closed, h.complete, h.place⟩
      | mobile => exact h
  | onFail => cases hok
  | onMessage | discard => exact ⟨h.unfailed, h.done, h.closed, h.complete, h.place⟩

/-- A message that was accepted, whose echo is neither outstanding nor discarded, has its echo. -/
theorem echoed_of_settled {s : Send} (haccepted : s.Accepted) (hkept : s.fate ≠ .discarded)
    (hout : ¬ s.Outstanding) : s.Echoed := by
  obtain ⟨start, fate⟩ := s
  cases fate with
  | refused => exact absurd rfl haccepted
  | outstanding => exact absurd rfl hout
  | echoed received => exact ⟨received, rfl⟩
  | discarded => exact absurd rfl hkept

/-- **The calls of a client** whose server is well-behaved: only the last one can be without its
echo, and only a client that is closing discards one. -/
structure Served (c : Client) : Prop where
  accepted : ∀ s ∈ c.sends, s.Accepted
  kept : c.closeStarted = false → ∀ s ∈ c.sends, s.fate ≠ .discarded
  earlier : ∀ s ∈ c.sends.dropLast, s.Echoed

/-- A move that leaves the calls alone keeps them served. -/
theorem Served.of_eq {c c' : Client} (h : Served c) (hsends : c'.sends = c.sends)
    (hclosed : c'.closeStarted = false → c.closeStarted = false) : Served c' where
  accepted := by rw [hsends]; exact h.accepted
  kept hc' := by rw [hsends]; exact h.kept (hclosed hc')
  earlier := by rw [hsends]; exact h.earlier

/-- A call that succeeds keeps the calls served: all earlier ones have their echo. -/
theorem Served.send {kind : Kind} {c : Client} (h : Served c) (hecho : EchoInv c)
    (hclosed : c.closeStarted = false) (hloc : c.loc = .sending)
    {primaryError signalingError : Bool}
    (herror : sendMessage kind primaryError signalingError = false) (now : Int) :
    Served (c.send kind now primaryError signalingError) := by
  have hsends : (c.send kind now primaryError signalingError).sends =
      c.sends ++ [⟨now, .outstanding⟩] := by simp [Client.send, herror]
  -- the flag is tested in front of a send, and while it is clear no echo is outstanding
  have hquiet : Quiet c.sends := hecho.quiet (.inr (.inr (.inl hloc)))
  refine ⟨?_, fun _ => ?_, ?_⟩
  · rw [hsends, List.forall_mem_append, List.forall_mem_singleton]
    exact ⟨h.accepted, by simp [Send.Accepted]⟩
  · rw [hsends, List.forall_mem_append, List.forall_mem_singleton]
    exact ⟨h.kept hclosed, by simp⟩
  · rw [hsends, List.dropLast_concat]
    intro s hs
    exact echoed_of_settled (h.accepted s hs) (h.kept hclosed s hs) (hquiet s hs)

/-- An echo that arrives keeps the calls served. -/
theorem Served.settle {c : Client} {k : Nat} (h : Served c) (hecho : EchoInv c) (hk : c.Awaits k)
    {fate : Fate} (haccepted : fate ≠ .refused)
    (hkept : c.closeStarted = false → fate ≠ .discarded) : Served (c.settle k fate) := by
  obtain ⟨earlier, -, hsends, hsettled⟩ := hecho.settle hk fate
  obtain ⟨hacceptedAll, hkeptAll, hearlier⟩ := h
  rw [hsends, List.forall_mem_append] at hacceptedAll
  rw [hsends, List.dropLast_concat] at hearlier
  refine ⟨?_, fun hclosed => ?_, ?_⟩
  · rw [hsettled, List.forall_mem_append, List.forall_mem_singleton]
    exact ⟨hacceptedAll.1, haccepted⟩
  · have hkeptBefore := hkeptAll hclosed
    rw [hsends, List.forall_mem_append] at hkeptBefore
    rw [hsettled, List.forall_mem_append, List.forall_mem_singleton]
    exact ⟨hkeptBefore.1, hkept hclosed⟩
  · rw [hsettled, List.dropLast_concat]
    exact hearlier

/-- A client that has started closing does not take it back. -/
theorem closeStarted_moves {kind : Kind} {total : Int} {c c' : Client} {a : Act}
    (hmove : Moves kind total c a c') (h : c.closeStarted = true) : c'.closeStarted = true := by
  cases hmove with
  | flow _ | count _ | reset _ | send _ | onOpen | onMessage _ | discard _ _ => exact h
  | fail _ => cases kind <;> simp [fail, close, goto, h]
  | @close refused _ => cases kind <;> cases refused <;> simp [close, goto, h]
  | onClose => cases kind <;> exact h
  | @onFail primaryGone => cases kind <;> cases primaryGone <;> exact h

/-- **Every step of a well-behaved environment keeps the calls served.** -/
theorem Served.moves {kind : Kind} {total : Int} {c c' : Client} {a : Act} (h : Served c)
    (hecho : EchoInv c) (hcourse : Course total c) (hok : steadyStep kind c a = true)
    (hmove : Moves kind total c a c') : Served c' := by
  have hback : c'.closeStarted = false → c.closeStarted = false := fun hc' =>
    Bool.eq_false_iff.mpr fun hc => by simp [closeStarted_moves hmove hc] at hc'
  cases hmove with
  | flow _ | count _ | reset _ | onOpen => exact h.of_eq rfl hback
  | fail _ => exact h.of_eq (halts_fail kind c).sends_eq hback
  | close _ => exact h.of_eq (halts_close kind _ c).sends_eq hback
  | onClose => exact h.of_eq (signals_onClose kind c).sends_eq hback
  | onFail => exact h.of_eq (signals_onFail kind _ c).sends_eq hback
  | send hloc =>
      have hclosed := hcourse.not_closed (by simp [hloc])
      exact h.send hecho hclosed hloc (by simpa [steadyStep] using hok) _
  | @onMessage k now hk =>
      -- the handler touches no call, so it is enough to settle the call of the echo
      have hsettled : Served (c.settle k (.echoed now)) := h.settle hecho hk (by simp) (by simp)
      exact hsettled.of_eq rfl id
  | discard hk hclosed =>
      exact h.settle hecho hk (by simp) fun hc => by simp [hclosed] at hc

/-- The course and the calls of a client whose server is well-behaved, in every reachable state. -/
theorem steady_of_reachable {kind : Kind} {total conStart : Int} (hpos : 1 ≤ total) {c : Client}
    (hc : (steady kind total conStart).Reachable c) : Course total c ∧ Served c := by
  refine TransitionSystem.Reachable.invariant_of (P := fun c => Course total c ∧ Served c)
    (Q := fun c => EchoInv c ∧ CountInv total c)
    (fun c hc => ⟨.of_reachable hc.of_restrict, .of_reachable hc.of_restrict⟩) ?_ ?_ hc
  · refine ⟨⟨rfl, by simp [telemetry, TransitionSystem.restrict], ?_, ?_, ?_⟩, ?_, ?_, ?_⟩
    all_goals simp [telemetry, TransitionSystem.restrict]
  · rintro c a c' ⟨hecho, hcount⟩ ⟨hcourse, hserved⟩ hstep
    obtain ⟨hok, hmove⟩ := steady_moves hstep
    exact ⟨hcourse.moves hcount hpos hok hmove, hserved.moves hecho hcourse hok hmove⟩

/-! ## The runs in which the connection completes -/

/-- Every echo has been handled. -/
def AllHeard (c : Client) : Prop := ∀ k < c.sends.length, c.Heard k

/-- If the last echo has been handled, all have. -/
theorem Served.allHeard {c : Client} (h : Served c) {k : Nat} (hk : c.sends.length = k + 1)
    (hlast : c.Heard k) : c.AllHeard := by
  intro i hi
  by_cases heq : i = k
  · rw [heq]
    exact hlast
  · have hearlier : i < c.sends.dropLast.length := by rw [List.length_dropLast]; omega
    have hget : c.sends[i]? = some c.sends.dropLast[i] := by
      rw [List.getElem_dropLast, List.getElem?_eq_getElem]
    rw [heard_of_getElem? hget]
    exact h.earlier _ (List.getElem_mem hearlier)

/-- Every echo has been handled exactly when every call is echoed. -/
theorem allHeard_iff (c : Client) : c.AllHeard ↔ ∀ s ∈ c.sends, s.Echoed := by
  rw [List.forall_mem_iff_getElem]
  refine forall_congr' fun k => forall_congr' fun hk => ?_
  exact heard_of_getElem? (List.getElem?_eq_getElem hk)

/-- The client closes with no echo outstanding. -/
def ClosesQuietly (c : Client) (a : Act) : Prop := (∃ refused, a = .close refused) → Quiet c.sends

/-- **What is settled when the client closes.** If every echo has been handled in the end, none was
outstanding when the client closed: a closing client handles no more. -/
theorem along_closesQuietly {kind : Kind} {total conStart : Int} {run : List Act} {c : Client}
    (h : (steady kind total conStart).exec (steady kind total conStart).init run = some c)
    (hall : c.closeStarted = true → c.AllHeard) :
    (steady kind total conStart).Along ClosesQuietly (steady kind total conStart).init run := by
  revert hall
  refine TransitionSystem.exec_induction
    (P := fun run c => (c.closeStarted = true → c.AllHeard) →
      (steady kind total conStart).Along ClosesQuietly (steady kind total conStart).init run)
    (fun _ => trivial) ?_ h
  intro run c a c' hrun ih hstep hall
  obtain ⟨hok, hmove⟩ := steady_moves hstep
  have hbefore : c.closeStarted = true → c.AllHeard := by
    intro hclosed k hk
    have hlength := length_sends_moves hmove
    have hlater := hall (closeStarted_moves hmove hclosed) k (by omega)
    rcases (heard_moves hmove k).mp hlater with hheard | ⟨now, rfl⟩
    · exact hheard
    · -- no handler runs for a client that is closing
      simp [steadyStep, hclosed] at hok
  refine (TransitionSystem.along_concat _ hrun).mpr ⟨ih hbefore, ?_⟩
  rintro ⟨refused, rfl⟩ s hs hout
  cases hmove with
  | close _ =>
      have hrefused : refused = false := by simpa [steadyStep] using hok
      have hclosed : (c.close kind refused).closeStarted = true := by rw [hrefused, close_accepted]
      have hechoed := (allHeard_iff _).mp (hall hclosed)
      rw [(halts_close kind refused c).sends_eq] at hechoed
      exact (hechoed s hs).not_outstanding hout

/-- **What a client of a healthy server owes its user**: it closes with no echo outstanding and
reports `success` with a sample for every message, and the controller counts the connection as
succeeded. -/
structure Completes {F : Type} [Add F] [Mul F] [IntCast F] (dbl : Doubles F)
    (declared : ResultLocals F) (unassigned : F) (kind : Kind) (conf : Config) (conStart : Int)
    (run : List Act) (c : Client) : Prop where
  quietly : (steady kind conf.messages conStart).Along ClosesQuietly
    (steady kind conf.messages conStart).init run
  success : c.verdict = "success"
  count : (c.mStats.length : Int) = conf.messages
  counted : ∀ a : Aggregates F, (a.addResult dbl declared conf.messages
    (c.getStats dbl unassigned)).connectionsSucceeded = a.connectionsSucceeded + 1

/-- **Completeness of `connectionsSucceeded`.** For every configuration with at least one message
and every run of a client against a well-behaved server up to the end of `telemetry_loop`, the
connection completes exactly when the echo of the last message is delivered before the client starts
closing. The echoes of all other messages may take as long as they like. -/
theorem connection_completes_iff {F : Type} [Add F] [Mul F] [IntCast F] (dbl : Doubles F)
    (declared : ResultLocals F) (unassigned : F) (kind : Kind) (conf : Config) (conStart : Int)
    (hmessages : 1 ≤ conf.messages) {run : List Act} {c : Client}
    (hrun : (steady kind conf.messages conStart).exec
      (steady kind conf.messages conStart).init run = some c)
    (hfinished : c.loc = .finished) :
    Completes dbl declared unassigned kind conf conStart run c ↔
      ∃ now, Act.onMessage (conf.messages.toNat - 1) now ∈ run := by
  have hreach := TransitionSystem.reachable_of_exec _ hrun
  obtain ⟨hcourse, hserved⟩ := steady_of_reachable hmessages hreach
  have hc := hreach.of_restrict
  have hattempts := (CountInv.of_reachable hc).attempts
  have hcomplete := hcourse.complete (.inr (.inr hfinished))
  have hlength : c.sends.length = (conf.messages.toNat - 1) + 1 := by
    simp only [hfinished, reduceCtorEq, if_false] at hattempts
    omega
  rw [← heard_iff_mem (TransitionSystem.exec_of_restrict _ hrun)]
  constructor
  · -- a sample for every message leaves no call without its echo, the last one included
    intro hcompletes
    obtain ⟨-, hechoed⟩ := echoed_of_length_mStats hc hcompletes.count
    exact (allHeard_iff c).mpr hechoed _ (by omega)
  · -- the earlier calls have their echo in any case, so now all of them have
    intro hlast
    have hall := hserved.allHeard hlength hlast
    have hcount : (c.mStats.length : Int) = conf.messages := by
      rw [(EchoInv.of_reachable hc).length_mStats, List.countP_eq_length.mpr]
      · omega
      · intro s hs
        exact decide_eq_true ((allHeard_iff c).mp hall s hs)
    have hsucceeds := (succeeds_getStats dbl declared unassigned conf.messages
      (isInt_length_mStats hc)).mpr ⟨hcourse.unfailed, hcount⟩
    refine ⟨along_closesQuietly hrun fun _ => hall, c.verdict_eq_success.mpr hcourse.unfailed,
      hcount, fun a => ?_⟩
    rw [Aggregates.connectionsSucceeded_addResult, if_pos hsucceeds]

/-- `connection_completes_iff` on `echoedRun`, whose only echo arrives before the close. -/
theorem connection_completes_echoed :
    ∃ c, Completes wholeMillis ⟨"", 0, 0, 0, 0, 0, 0⟩ 0 .base Config.oneMessage 0 echoedRun c := by
  obtain ⟨c, hrun, hfinished⟩ := (steady .base Config.oneMessage.messages 0).exists_of_exec_any
    echoedRun (fun c => c.loc = .finished) (by decide)
  exact ⟨c, (connection_completes_iff wholeMillis ⟨"", 0, 0, 0, 0, 0, 0⟩ 0 .base Config.oneMessage 0
    (by decide) hrun (of_decide_eq_true hfinished)).mpr ⟨9000000, by decide⟩⟩

/-- A client whose only echo takes longer than the pause in front of the close. -/
def lateEchoRun : List Act :=
  [.proceed, .onOpen 3000000, .proceed, .proceed, .send 4000000 false false, .proceed, .proceed,
    .close false, .discard 0, .onClose]

/-- **The last echo is cut off.** The server echoes the only message and closes nothing, but the
client closes first: its `Result` has no sample and the controller counts the connection as died. -/
theorem last_echo_cut_off :
    ∃ c, (steady .base Config.oneMessage.messages 0).exec
        (steady .base Config.oneMessage.messages 0).init lateEchoRun = some c ∧
      c.loc = .finished ∧ Quiet c.sends ∧ (∀ s ∈ c.sends, s.Accepted) ∧
      ¬ Completes wholeMillis ⟨"", 0, 0, 0, 0, 0, 0⟩ 0 .base Config.oneMessage 0 lateEchoRun c := by
  obtain ⟨c, hrun, hend⟩ := (steady .base Config.oneMessage.messages 0).exists_of_exec_any
    lateEchoRun (fun c => c.loc = .finished ∧ c.sends = [⟨4000000, .discarded⟩] ∧ c.mStats = [])
    (by decide)
  obtain ⟨hfinished, hsends, hstats⟩ := of_decide_eq_true hend
  refine ⟨c, hrun, hfinished, ?_, ?_, fun hcompletes => ?_⟩
  · rw [hsends]
    simp [Quiet, Send.Outstanding]
  · rw [hsends]
    simp [Send.Accepted]
  · have hcount := hcompletes.count
    rw [hstats] at hcount
    exact absurd hcount (by decide)

end Client

end WsPerftester
