import WsPerftester.Client.Echoes

/-! # The verdict on a connection

`get_stats` turns the final state of a client into the text of its `Result`, from which the
controller decides whether the connection has succeeded. The decision rests on the word `success`,
which a connection closed early reports as well, and on the number of samples; that it is sound
follows from the pending-message invariant and the bound on the attempts. -/

namespace WsPerftester

/-- Doubles that happen to be whole numbers, printed and read as such. -/
def wholeMillis : Doubles Int where
  millis t := t.tdiv 1000
  min xs := xs.foldl (fun x y => if x ≤ y then x else y) (xs.headD 0)
  max xs := xs.foldl (fun x y => if x ≤ y then y else x) (xs.headD 0)
  mean xs := xs.foldl (· + ·) 0 / xs.length
  variance xs :=
    let mean : Int := xs.foldl (· + ·) 0 / xs.length
    xs.foldl (fun (y x : Int) => y + (x - mean) * (x - mean)) 0 / xs.length
  put := toString
  get := TextStream.InStream.getInt intMin intMax

/-- A configuration in which every client sends one message. -/
def Config.oneMessage : Config := { Config.default with messages := 1, ints := by decide }

namespace Client

variable {F : Type}

/-- The first word of `get_stats`. -/
def verdict (c : Client) : String :=
  if !c.mFailed then "success" else "fail" ++ if c.mOpen then "-opened" else ""

/-- `get_stats`; `unassigned` is what `m_setupTime` holds before `on_open` assigns it. -/
def getStats (dbl : Doubles F) (unassigned : F) (c : Client) : String :=
  statsText dbl c.verdict c.mStats ((c.mSetupTime.map dbl.millis).getD unassigned)

/-- The verdict says `success` exactly when `on_fail` has not been called. -/
theorem verdict_eq_success (c : Client) : c.verdict = "success" ↔ c.mFailed = false := by
  unfold verdict
  cases c.mFailed <;> cases c.mOpen <;> decide

/-- The verdict is one word. -/
theorem isWord_verdict (c : Client) : TextStream.isWord c.verdict = true := by
  unfold verdict
  cases c.mFailed <;> cases c.mOpen <;> rfl

variable (dbl : Doubles F) (declared : ResultLocals F) (unassigned : F) (messages : Int)

/-- **What the controller decides.** The text of a client succeeds when the client has not failed
and has a sample for every message. -/
theorem succeeds_getStats {c : Client} (hcount : IsInt c.mStats.length) :
    Aggregates.Succeeds dbl declared messages (c.getStats dbl unassigned) ↔
      c.mFailed = false ∧ (c.mStats.length : Int) = messages := by
  obtain ⟨htype, hread⟩ := readResult_statsText dbl declared
    ((c.mSetupTime.map dbl.millis).getD unassigned) c.isWord_verdict hcount
  rw [Aggregates.Succeeds, getStats, htype, hread, verdict_eq_success]

/-- A client never has more samples than messages to send. -/
theorem length_mStats_le {kind : Kind} {total conStart : Int} {c : Client}
    (hc : (telemetry kind total conStart).Reachable c) :
    c.mStats.length ≤ c.sends.length ∧ c.sends.length ≤ total.toNat := by
  have hcount := CountInv.of_reachable hc
  have hattempts := hcount.attempts
  have hbound := hcount.bound
  refine ⟨?_, by omega⟩
  rw [(EchoInv.of_reachable hc).length_mStats]
  exact List.countP_le_length

/-- The number of samples of a configured client is an `int`. -/
theorem isInt_length_mStats {kind : Kind} {conf : Config} {conStart : Int} {c : Client}
    (hc : (telemetry kind conf.messages conStart).Reachable c) : IsInt c.mStats.length := by
  have hmessages := conf.ints conf.messages (by simp)
  have hle := length_mStats_le hc
  unfold IsInt intMin intMax at hmessages ⊢
  omega

/-- A client with a sample for every message has had every message echoed. -/
theorem echoed_of_length_mStats {kind : Kind} {total conStart : Int} {c : Client}
    (hc : (telemetry kind total conStart).Reachable c) (hlength : (c.mStats.length : Int) = total) :
    (c.sends.length : Int) = total ∧ ∀ s ∈ c.sends, s.Echoed := by
  have hle := length_mStats_le hc
  -- samples ≤ calls ≤ messages, so all three are equal
  have hall : c.mStats.length = c.sends.length := by omega
  refine ⟨by omega, fun s hs => ?_⟩
  rw [(EchoInv.of_reachable hc).length_mStats, List.countP_eq_length] at hall
  exact of_decide_eq_true (hall s hs)

variable [Add F] [Mul F] [IntCast F]

/-- **Soundness of `connectionsSucceeded`.** Whenever the controller counts the `Result` of a client
as a success, the client has not failed, it has made one call of `send_message` for every configured
message, no call returned an error, and every message was echoed. -/
theorem connection_succeeded_sound (kind : Kind) (conf : Config) (conStart : Int) {c : Client}
    (hc : (telemetry kind conf.messages conStart).Reachable c) (a : Aggregates F)
    (hcounted : (a.addResult dbl declared conf.messages
      (c.getStats dbl unassigned)).connectionsSucceeded = a.connectionsSucceeded + 1) :
    c.mFailed = false ∧ (c.sends.length : Int) = conf.messages ∧
      (∀ s ∈ c.sends, s.Accepted) ∧ ∀ s ∈ c.sends, s.Echoed := by
  have hsucceeds : Aggregates.Succeeds dbl declared conf.messages (c.getStats dbl unassigned) := by
    by_contra hnot
    rw [Aggregates.connectionsSucceeded_addResult, if_neg hnot] at hcounted
    omega
  rw [succeeds_getStats dbl declared unassigned conf.messages (isInt_length_mStats hc)] at hsucceeds
  obtain ⟨hfailed, hlength⟩ := hsucceeds
  obtain ⟨hsends, hechoed⟩ := echoed_of_length_mStats hc hlength
  exact ⟨hfailed, hsends, fun s hs => (hechoed s hs).accepted, hechoed⟩

/-- A client whose only message is echoed five milliseconds after it was sent. -/
def echoedRun : List Act :=
  [.proceed, .onOpen 3000000, .proceed, .proceed, .send 4000000 false false, .onMessage 0 9000000,
    .proceed, .proceed, .close false, .onClose]

/-- `connection_succeeded_sound` at the end of `echoedRun`. -/
theorem connection_succeeded_sound_echoed :
    ∃ c : Client, c.mStats = [5000] ∧ c.mFailed = false ∧ (c.sends.length : Int) = 1 ∧
      (∀ s ∈ c.sends, s.Accepted) ∧ ∀ s ∈ c.sends, s.Echoed := by
  obtain ⟨c, hrun, hend⟩ := (telemetry .base Config.oneMessage.messages 0).exists_of_exec_any
    echoedRun (fun c => c.mStats = [5000] ∧ c.mFailed = false) (by decide)
  obtain ⟨hstats, hfailed⟩ := of_decide_eq_true hend
  have hc := (telemetry .base Config.oneMessage.messages 0).reachable_of_exec hrun
  have hsucceeds : Aggregates.Succeeds wholeMillis ⟨"", 0, 0, 0, 0, 0, 0⟩
      Config.oneMessage.messages (c.getStats wholeMillis 0) := by
    rw [succeeds_getStats _ _ _ _ (isInt_length_mStats hc), hstats]
    exact ⟨hfailed, rfl⟩
  refine ⟨c, hstats, connection_succeeded_sound wholeMillis ⟨"", 0, 0, 0, 0, 0, 0⟩ 0 .base
    Config.oneMessage 0 hc { meansum := 0, variancesum := 0 } ?_⟩
  rw [Aggregates.connectionsSucceeded_addResult, if_pos hsucceeds]

/-- **The totals of an iteration.** Over the `Result` messages of any clients, the controller counts
as successes those that have not failed and have a sample for every message. -/
theorem connectionsSucceeded_of_clients {kind : Kind} {conf : Config} {conStart : Int}
    {clients : List Client}
    (hclients : ∀ c ∈ clients, (telemetry kind conf.messages conStart).Reachable c)
    (a : Aggregates F) :
    ((clients.map (getStats dbl unassigned)).foldl
        (Aggregates.addResult dbl declared conf.messages) a).connectionsSucceeded =
      a.connectionsSucceeded +
        clients.countP fun c => c.mFailed = false ∧ (c.mStats.length : Int) = conf.messages := by
  rw [(Aggregates.foldl_addResult dbl declared conf.messages a _).1, List.countP_map]
  refine congrArg (a.connectionsSucceeded + ·) (List.countP_congr fun c hmem => ?_)
  rw [Function.comp_apply, decide_eq_true_iff, decide_eq_true_iff]
  exact succeeds_getStats dbl declared unassigned conf.messages
    (isInt_length_mStats (hclients c hmem))

end Client

end WsPerftester
