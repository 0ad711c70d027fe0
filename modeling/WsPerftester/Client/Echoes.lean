import WsPerftester.Client.TelemetryClient

/-! # Every echo is measured against its own message

`m_start` is one variable for all messages, so a latency is right only if the echo that `on_message`
handles belongs to the message sent last. The test of `m_message_pending`, the send and the reset
after a failed send are three separate steps, between which any handler may run. `EchoInv` is the
invariant that holds across them: an outstanding echo belongs to the last call of `send_message`,
and there is none while the flag is down or while the thread is between the test and the end of its
attempt. `CountInv` relates `m_count` to the calls made. -/

namespace WsPerftester

namespace Client

/-! ## The calls of `send_message` -/

/-- No echo is outstanding. -/
def Quiet (sends : List Send) : Prop := ∀ s ∈ sends, ¬ s.Outstanding

/-- The echo of the last call is outstanding, no other, and the call was made at `start`. -/
def AwaitsLast (start : Int) (sends : List Send) : Prop :=
  ∃ earlier, Quiet earlier ∧ sends = earlier ++ [⟨start, .outstanding⟩]

/-- One more call leaves the calls quiet unless its own echo is outstanding. -/
theorem Quiet.concat {sends : List Send} {s : Send} (h : Quiet sends) (hs : ¬ s.Outstanding) :
    Quiet (sends ++ [s]) := by
  rw [Quiet, List.forall_mem_append, List.forall_mem_singleton]
  exact ⟨h, hs⟩

/-- Quiet calls have no outstanding echo to count. -/
theorem Quiet.countP_eq_zero {sends : List Send} (h : Quiet sends) :
    sends.countP (fun s => s.Outstanding) = 0 :=
  List.countP_eq_zero.mpr fun s hs => by simpa using h s hs

/-- An outstanding echo behind quiet calls is the last one. -/
theorem eq_length_of_awaits {c : Client} {k : Nat} {earlier : List Send} {last : Send}
    (hquiet : Quiet earlier) (hsends : c.sends = earlier ++ [last]) (h : c.Awaits k) :
    k = earlier.length := by
  obtain ⟨s, hs, hout⟩ := h
  rw [hsends, Option.mem_def, List.getElem?_append] at hs
  by_cases hk : k < earlier.length
  · rw [if_pos hk] at hs
    exact absurd hout (hquiet s (List.mem_of_getElem? hs))
  · rw [if_neg hk, List.getElem?_singleton] at hs
    split at hs
    · omega
    · cases hs

/-- Modifying the last element of a list. -/
theorem modify_concat {α : Type} (f : α → α) (xs : List α) (x : α) :
    (xs ++ [x]).modify xs.length f = xs ++ [f x] := by
  induction xs with
  | nil => rfl
  | cons y xs ih => rw [List.cons_append, List.length_cons, List.modify_succ_cons, ih]; rfl

/-- The end of the telemetry thread touches nothing but the place and `closeStarted`. -/
def Halts (c c' : Client) : Prop :=
  ∃ loc closed, (loc = .finished ∨ loc = .terminated) ∧
    c' = { c with loc := loc, closeStarted := closed }

/-- `close` ends the telemetry thread. -/
theorem halts_close (kind : Kind) (refused : Bool) (c : Client) :
    c.Halts (c.close kind refused) := by
  cases kind with
  | base =>
      cases refused with
      | false => exact ⟨.finished, true, .inl rfl, rfl⟩
      | true => exact ⟨.terminated, c.closeStarted, .inr rfl, rfl⟩
  | mobile => exact ⟨.finished, true, .inl rfl, rfl⟩

/-- `fail` ends the telemetry thread. -/
theorem halts_fail (kind : Kind) (c : Client) : c.Halts (c.fail kind) := by
  cases kind with
  | base => exact ⟨.finished, c.closeStarted, .inl rfl, rfl⟩
  | mobile => exact ⟨.finished, true, .inl rfl, rfl⟩

/-- The calls made are the same when the thread ends. -/
theorem Halts.sends_eq {c c' : Client} (h : c.Halts c') : c'.sends = c.sends := by
  obtain ⟨loc, closed, -, rfl⟩ := h
  rfl

/-- The handlers of connection events touch nothing but the flags and the setup time. -/
def Signals (c c' : Client) : Prop :=
  ∃ isOpen isDone isFailed setupTime, c' =
    { c with mOpen := isOpen, mDone := isDone, mFailed := isFailed, mSetupTime := setupTime }

/-- `on_open` is such a handler. -/
theorem signals_onOpen (now : Int) (c : Client) : c.Signals (c.onOpen now) :=
  ⟨true, c.mDone, c.mFailed, some (microseconds (now - c.mConStart)), rfl⟩

/-- `on_close` is such a handler. -/
theorem signals_onClose (kind : Kind) (c : Client) : c.Signals (c.onClose kind) := by
  cases kind with
  | base => exact ⟨c.mOpen, true, c.mFailed, c.mSetupTime, rfl⟩
  | mobile => exact ⟨c.mOpen, c.mDone, c.mFailed, c.mSetupTime, rfl⟩

/-- `on_fail` is such a handler. -/
theorem signals_onFail (kind : Kind) (primaryGone : Bool) (c : Client) :
    c.Signals (c.onFail kind primaryGone) := by
  have hbase : c.Signals c.baseOnFail := ⟨c.mOpen, true, true, c.mSetupTime, rfl⟩
  cases kind with
  | base => exact hbase
  | mobile =>
      cases primaryGone with
      | true => exact hbase
      | false => exact ⟨c.mOpen, c.mDone, c.mFailed, c.mSetupTime, rfl⟩

/-- The calls made are the same behind a handler. -/
theorem Signals.sends_eq {c c' : Client} (h : c.Signals c') : c'.sends = c.sends := by
  obtain ⟨isOpen, isDone, isFailed, setupTime, rfl⟩ := h
  rfl

/-- A call of `send_message`. -/
def Act.isSend : Act → Bool
  | .send _ _ _ => true
  | _ => false

/-- Calls are made one at a time and never forgotten. -/
theorem length_sends_moves {kind : Kind} {total : Int} {c c' : Client} {a : Act}
    (hmove : Moves kind total c a c') :
    c'.sends.length = c.sends.length + if a.isSend then 1 else 0 := by
  cases hmove with
  | flow _ | count _ | reset _ | onOpen => rfl
  | fail _ => rw [(halts_fail kind c).sends_eq]; rfl
  | close _ => rw [(halts_close kind _ c).sends_eq]; rfl
  | onClose => rw [(signals_onClose kind c).sends_eq]; rfl
  | onFail => rw [(signals_onFail kind _ c).sends_eq]; rfl
  | send _ => exact List.length_append
  | onMessage _ | discard _ _ => exact List.length_modify ..

/-! ## One outstanding echo -/

/-- The telemetry thread is between the test that lets it send and the end of its attempt. -/
def Attempting (c : Client) : Prop := c.loc = .counting ∨ c.loc = .sending ∨ c.loc = .sendFailed

/-- **The pending-message invariant.** -/
structure EchoInv (c : Client) : Prop where
  outstanding : Quiet c.sends ∨ AwaitsLast c.mStart c.sends
  quiet : c.mMessagePending = false ∨ c.Attempting → Quiet c.sends
  stats : c.mStats = c.sends.filterMap Send.latency

/-- A move that touches neither the calls nor the samples keeps the invariant, unless it lowers the
flag or begins an attempt. -/
theorem EchoInv.of_eq {c c' : Client} (h : EchoInv c) (hsends : c'.sends = c.sends)
    (hstart : c'.mStart = c.mStart) (hstats : c'.mStats = c.mStats)
    (hquiet : c'.mMessagePending = false ∨ c'.Attempting →
      c.mMessagePending = false ∨ c.Attempting) : EchoInv c' where
  outstanding := by rw [hsends, hstart]; exact h.outstanding
  quiet hc' := by rw [hsends]; exact h.quiet (hquiet hc')
  stats := by rw [hsends, hstats]; exact h.stats

/-- The thread does not attempt to send before it has seen the flag down. -/
theorem Flow.not_pending {total : Int} {c : Client} {loc : Loc} (h : Flow total c loc)
    (hloc : (c.goto loc).Attempting) : c.mMessagePending = false := by
  cases h with
  | ready _ _ _ hidle => exact hidle
  | _ => simp [Attempting, goto] at hloc

/-- The end of the telemetry thread keeps the invariant. -/
theorem EchoInv.halts {c c' : Client} (h : EchoInv c) (hhalts : c.Halts c') : EchoInv c' := by
  obtain ⟨loc, closed, hloc, rfl⟩ := hhalts
  refine h.of_eq rfl rfl rfl ?_
  rintro (hidle | hattempt)
  · exact .inl hidle
  · rcases hloc with rfl | rfl <;> simp [Attempting] at hattempt

/-- A handler of a connection event keeps the invariant. -/
theorem EchoInv.signals {c c' : Client} (h : EchoInv c) (hsignals : c.Signals c') : EchoInv c' := by
  obtain ⟨isOpen, isDone, isFailed, setupTime, rfl⟩ := hsignals
  exact h.of_eq rfl rfl rfl id

/-- An echo that arrives is the echo of the last call, and no other is outstanding. -/
theorem EchoInv.settle {c : Client} {k : Nat} (h : EchoInv c) (hk : c.Awaits k) (fate : Fate) :
    ∃ earlier, Quiet earlier ∧ c.sends = earlier ++ [⟨c.mStart, .outstanding⟩] ∧
      (c.settle k fate).sends = earlier ++ [⟨c.mStart, fate⟩] := by
  rcases h.outstanding with hquiet | ⟨earlier, hquiet, hsends⟩
  · obtain ⟨s, hs, hout⟩ := hk
    exact absurd hout (hquiet s (List.mem_of_getElem? hs))
  · refine ⟨earlier, hquiet, hsends, ?_⟩
    rw [eq_length_of_awaits hquiet hsends hk, Client.settle, hsends, modify_concat]

/-- Receiving an echo keeps the invariant: it is measured against its own message. -/
theorem EchoInv.onMessage {c : Client} {k : Nat} (h : EchoInv c) (hk : c.Awaits k) (now : Int) :
    EchoInv ((c.onMessage now).settle k (.echoed now)) := by
  obtain ⟨earlier, hquiet, hsends, hsettled⟩ := h.settle hk (.echoed now)
  have hsends' : ((c.onMessage now).settle k (.echoed now)).sends =
      earlier ++ [⟨c.mStart, .echoed now⟩] := hsettled
  have hquiet' : Quiet ((c.onMessage now).settle k (.echoed now)).sends := by
    rw [hsends']
    exact hquiet.concat (by simp [Send.Outstanding])
  refine ⟨.inl hquiet', fun _ => hquiet', ?_⟩
  -- `m_start` is the start of the call the echo belongs to
  show c.mStats ++ [microseconds (now - c.mStart)] = _
  rw [hsends', h.stats, hsends, List.filterMap_append, List.filterMap_append]
  simp [Send.latency]

/-- An echo that is discarded leaves no sample. -/
theorem EchoInv.discard {c : Client} {k : Nat} (h : EchoInv c) (hk : c.Awaits k) :
    EchoInv (c.settle k .discarded) := by
  obtain ⟨earlier, hquiet, hsends, hsettled⟩ := h.settle hk .discarded
  have hquiet' : Quiet (c.settle k .discarded).sends := by
    rw [hsettled]
    exact hquiet.concat (by simp [Send.Outstanding])
  refine ⟨.inl hquiet', fun _ => hquiet', ?_⟩
  show c.mStats = _
  rw [hsettled, h.stats, hsends, List.filterMap_append, List.filterMap_append]
  rfl

/-- Sending keeps the invariant: at that moment no echo is outstanding. -/
theorem EchoInv.send {kind : Kind} {c : Client} (h : EchoInv c) (hloc : c.loc = .sending)
    (now : Int) (primaryError signalingError : Bool) :
    EchoInv (c.send kind now primaryError signalingError) := by
  have hquiet : Quiet c.sends := h.quiet (.inr (.inr (.inl hloc)))
  by_cases herror : sendMessage kind primaryError signalingError = true
  · -- the flag stays up behind a refused call, but there is no echo to wait for
    have hrefused : Quiet (c.sends ++ [⟨now, .refused⟩]) :=
      hquiet.concat (by simp [Send.Outstanding])
    refine ⟨.inl ?_, fun _ => ?_, ?_⟩
    · simpa [Client.send, herror] using hrefused
    · simpa [Client.send, herror] using hrefused
    · simp [Client.send, herror, h.stats, Send.latency]
  · refine ⟨.inr ⟨c.sends, hquiet, ?_⟩, fun hidle => ?_, ?_⟩
    · simp [Client.send, herror]
    · simp [Client.send, herror, Attempting] at hidle
    · simp [Client.send, herror, h.stats, Send.latency]

/-- **Every move keeps the pending-message invariant.** -/
theorem EchoInv.moves {kind : Kind} {total : Int} {c c' : Client} {a : Act} (h : EchoInv c)
    (hmove : Moves kind total c a c') : EchoInv c' := by
  cases hmove with
  | flow hflow =>
      -- the thread begins an attempt only from the test that has seen the flag down
      refine h.of_eq rfl rfl rfl ?_
      rintro (hidle | hattempt)
      · exact .inl hidle
      · exact .inl (hflow.not_pending hattempt)
  | count hloc => exact h.of_eq rfl rfl rfl fun _ => .inr (.inl hloc)
  | reset hloc =>
      -- the reset cannot hide an echo: the attempt it belongs to has failed
      exact h.of_eq rfl rfl rfl fun _ => .inr (.inr (.inr hloc))
  | fail _ => exact h.halts (halts_fail kind c)
  | send hloc => exact h.send hloc _ _ _
  | close _ => exact h.halts (halts_close kind _ c)
  | onOpen => exact h.signals (signals_onOpen _ c)
  | onClose => exact h.signals (signals_onClose kind c)
  | onFail => exact h.signals (signals_onFail kind _ c)
  | onMessage hk => exact h.onMessage hk _
  | discard hk _ => exact h.discard hk

/-- The pending-message invariant holds in every reachable state. -/
theorem EchoInv.of_reachable {kind : Kind} {total conStart : Int} {c : Client}
    (hc : (telemetry kind total conStart).Reachable c) : EchoInv c := by
  refine reachable_induction ?_ (fun c a c' h hmove => h.moves hmove) hc
  have hnone : Quiet [] := fun s hs => nomatch hs
  exact ⟨.inl hnone, fun _ => hnone, rfl⟩

/-! ## The calls and `m_count` -/

/-- **The attempt invariant.** `m_count` runs ahead of the calls of `send_message` by the one the
thread is about to make, and stays within the number of messages to send. -/
structure CountInv (total : Int) (c : Client) : Prop where
  attempts : c.sends.length + (if c.loc = .sending then 1 else 0) = c.mCount
  room : c.loc = .awake ∨ c.loc = .counting → (c.mCount : Int) < total
  bound : c.mCount ≤ total.toNat

/-- A move that leaves the calls and `m_count` alone keeps the invariant, unless it enters the body
of the loop or the send. -/
theorem CountInv.of_eq {total : Int} {c c' : Client} (h : CountInv total c)
    (hsends : c'.sends.length = c.sends.length) (hcount : c'.mCount = c.mCount)
    (hsending : c'.loc = .sending ↔ c.loc = .sending)
    (hroom : c'.loc = .awake ∨ c'.loc = .counting → (c.mCount : Int) < total) :
    CountInv total c' where
  attempts := by simp only [hsends, hcount, hsending, h.attempts]
  room hc' := by rw [hcount]; exact hroom hc'
  bound := by rw [hcount]; exact h.bound

/-- A move that leaves the place, the number of calls and `m_count` alone keeps the invariant. -/
theorem CountInv.frame {total : Int} {c c' : Client} (h : CountInv total c)
    (hsends : c'.sends.length = c.sends.length) (hcount : c'.mCount = c.mCount)
    (hloc : c'.loc = c.loc) : CountInv total c' :=
  h.of_eq hsends hcount (by rw [hloc]) (by rw [hloc]; exact h.room)

/-- A handler of a connection event keeps the invariant. -/
theorem CountInv.signals {total : Int} {c c' : Client} (h : CountInv total c)
    (hsignals : c.Signals c') : CountInv total c' := by
  obtain ⟨isOpen, isDone, isFailed, setupTime, rfl⟩ := hsignals
  exact h.frame rfl rfl rfl

/-- The end of the telemetry thread keeps the invariant. -/
theorem CountInv.halts {total : Int} {c c' : Client} (h : CountInv total c) (hhalts : c.Halts c')
    (hloc : c.loc ≠ .sending) : CountInv total c' := by
  obtain ⟨loc, closed, hend, rfl⟩ := hhalts
  rcases hend with rfl | rfl
  · exact h.of_eq rfl rfl (by simp [hloc]) (by simp)
  · exact h.of_eq rfl rfl (by simp [hloc]) (by simp)

/-- Making the announced call keeps the invariant. -/
theorem CountInv.send {kind : Kind} {total : Int} {c : Client} (h : CountInv total c)
    (hloc : c.loc = .sending) (now : Int) (primaryError signalingError : Bool) :
    CountInv total (c.send kind now primaryError signalingError) := by
  have hattempts := h.attempts
  rw [if_pos hloc] at hattempts
  refine ⟨?_, ?_, h.bound⟩
  · by_cases herror : sendMessage kind primaryError signalingError = true
    · simpa [Client.send, herror] using hattempts
    · simpa [Client.send, herror] using hattempts
  · by_cases herror : sendMessage kind primaryError signalingError = true
    · simp [Client.send, herror]
    · simp [Client.send, herror]

/-- The moves of the thread that only change the place keep the invariant. -/
theorem CountInv.flow {total : Int} {c : Client} {loc : Loc} (h : CountInv total c)
    (hflow : Flow total c loc) : CountInv total (c.goto loc) := by
  cases hflow with
  | enter hloc hlt => exact h.of_eq rfl rfl (by simp [goto, hloc]) fun _ => hlt
  | ready hloc => exact h.of_eq rfl rfl (by simp [goto, hloc]) fun _ => h.room (.inl hloc)
  | exhausted hloc | stopped hloc | blocked hloc | again hloc | complete hloc | giveUp hloc =>
      exact h.of_eq rfl rfl (by simp [goto, hloc]) (by simp [goto])

/-- **Every move keeps the attempt invariant.** -/
theorem CountInv.moves {kind : Kind} {total : Int} {c c' : Client} {a : Act}
    (h : CountInv total c) (hmove : Moves kind total c a c') : CountInv total c' := by
  have hattempts := h.attempts
  cases hmove with
  | flow hflow => exact h.flow hflow
  | count hloc =>
      -- `m_count` goes up one step before the call it stands for
      have hroom := h.room (.inr hloc)
      rw [hloc] at hattempts
      refine ⟨?_, by simp, by simp only; omega⟩
      simpa using hattempts
  | reset hloc => exact h.of_eq rfl rfl (by simp [hloc]) (by simp)
  | fail hloc => exact h.halts (halts_fail kind c) (by simp [hloc])
  | send hloc => exact h.send hloc _ _ _
  | close hloc => exact h.halts (halts_close kind _ c) (by simp [hloc])
  | onOpen => exact h.signals (signals_onOpen _ c)
  | onClose => exact h.signals (signals_onClose kind c)
  | onFail => exact h.signals (signals_onFail kind _ c)
  | onMessage => exact h.frame (List.length_modify ..) rfl rfl
  | discard => exact h.frame (List.length_modify ..) rfl rfl

/-- The attempt invariant holds in every reachable state. -/
theorem CountInv.of_reachable {kind : Kind} {total conStart : Int} {c : Client}
    (hc : (telemetry kind total conStart).Reachable c) : CountInv total c := by
  refine reachable_induction ?_ (fun c a c' h hmove => h.moves hmove) hc
  exact ⟨rfl, by simp, Nat.zero_le _⟩

/-! ## What the samples say -/

/-- There are as many samples as echoed messages. -/
theorem EchoInv.length_mStats {c : Client} (h : EchoInv c) :
    c.mStats.length = c.sends.countP (fun s => s.Echoed) := by
  rw [h.stats, List.length_filterMap_eq_countP]
  apply List.countP_congr
  intro s _
  rw [decide_eq_true_iff, Send.echoed_iff]

/-- **Every latency sample belongs to its own message.** -/
theorem samples_belong (kind : Kind) (total conStart : Int) {c : Client}
    (hc : (telemetry kind total conStart).Reachable c) :
    c.sends.countP (fun s => s.Outstanding) ≤ 1 ∧
      (c.mMessagePending = false → c.sends.countP (fun s => s.Outstanding) = 0) ∧
      c.mStats = c.sends.filterMap Send.latency ∧
      c.mStats.length ≤ c.sends.countP (fun s => s.Accepted) ∧
      c.sends.countP (fun s => s.Accepted) ≤ c.mCount := by
  have hecho := EchoInv.of_reachable hc
  have hcount := CountInv.of_reachable hc
  refine ⟨?_, ?_, hecho.stats, ?_, ?_⟩
  · rcases hecho.outstanding with hquiet | ⟨earlier, hquiet, hsends⟩
    · rw [hquiet.countP_eq_zero]
      exact Nat.zero_le 1
    · rw [hsends, List.countP_append, hquiet.countP_eq_zero]
      simp [Send.Outstanding]
  · intro hidle
    exact (hecho.quiet (.inl hidle)).countP_eq_zero
  · rw [hecho.length_mStats]
    refine List.countP_mono_left fun s _ hechoed => ?_
    exact decide_eq_true (of_decide_eq_true hechoed).accepted
  · have hattempts := hcount.attempts
    have hle := List.countP_le_length (p := fun s => decide s.Accepted) (l := c.sends)
    omega

/-- A mobile client whose first send fails on both channels, while the second goes through on the
signaling one and is echoed after five milliseconds. -/
def signalingRun : List Act :=
  [.proceed, .onOpen 0, .proceed, .proceed, .send 1000000 true true, .proceed, .proceed, .proceed,
    .proceed, .send 2000000 true false, .onMessage 1 7000000]

/-- `samples_belong` at the end of `signalingRun`: the sample is measured against the second
send. -/
theorem samples_belong_signaling :
    ∃ c : Client, c.mStats = [5000] ∧ c.sends.countP (fun s => s.Outstanding) ≤ 1 ∧
      (c.mMessagePending = false → c.sends.countP (fun s => s.Outstanding) = 0) ∧
      c.mStats = c.sends.filterMap Send.latency ∧
      c.mStats.length ≤ c.sends.countP (fun s => s.Accepted) ∧
      c.sends.countP (fun s => s.Accepted) ≤ c.mCount := by
  obtain ⟨c, hrun, hstats⟩ := (telemetry .mobile 12 0).exists_of_exec_any signalingRun
    (fun c => c.mStats = [5000]) (by decide)
  exact ⟨c, of_decide_eq_true hstats,
    samples_belong .mobile 12 0 ((telemetry .mobile 12 0).reachable_of_exec hrun)⟩

end Client

end WsPerftester
