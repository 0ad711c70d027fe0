import WsPerftester.Coordination.Reading
import WsPerftester.Reports.Pooling

/-! # The statistics of an iteration, from the clients to the printed line

The processes push the reports of their clients, the system delivers them in any interleaving, and
the collection loop of an iteration reads some of them frame by frame, parses them and prints its
totals. In every run over any number of configurations each report is read in one iteration at most,
and the statistics of an iteration are exactly those of the clients whose reports were read in it
(`iteration_statistics`). -/

namespace WsPerftester

open TransitionSystem

variable {F : Type}

namespace Report

/-- The client has not failed and has had an echo for every message. -/
def Succeeded (messages : Int) (r : Report F) : Prop :=
  r.client.mFailed = false ∧ (r.client.mStats.length : Int) = messages

instance (messages : Int) (r : Report F) : Decidable (r.Succeeded messages) :=
  inferInstanceAs (Decidable (_ ∧ _))

/-- The report is transmitted exactly, and its number of samples is an `int`. -/
structure Sound (dbl : Doubles F) (r : Report F) : Prop extends r.Exact dbl where
  isInt : IsInt r.client.mStats.length

variable [Field F] {dbl : Doubles F}

/-- **The classification of the reports** in the order in which they are read. -/
theorem classified_addResults {received : List (Report F)}
    (hsound : ∀ r ∈ received, r.Sound dbl) (messages : Int) (declared : Nat → ResultLocals F)
    (a : Aggregates F) :
    (Aggregates.addResults dbl messages declared a
        (received.map (·.text dbl))).connectionsSucceeded =
        a.connectionsSucceeded + received.countP (·.Succeeded messages) ∧
      (Aggregates.addResults dbl messages declared a
        (received.map (·.text dbl))).connectionsDied =
        a.connectionsDied + received.countP (fun r => ¬ r.Succeeded messages) := by
  induction received generalizing declared a with
  | nil => exact ⟨rfl, rfl⟩
  | cons r received ih =>
      obtain ⟨hr, hreceived⟩ := List.forall_mem_cons.mp hsound
      obtain ⟨hsucceeded, hdied⟩ := ih hreceived (fun i => declared (i + 1))
        (a.addResult dbl (declared 0) messages (r.text dbl))
      have hverdict : Aggregates.Succeeds dbl (declared 0) messages (r.text dbl) ↔
          r.Succeeded messages :=
        Client.succeeds_getStats dbl (declared 0) r.unassigned messages hr.isInt
      rw [List.map_cons, Aggregates.addResults, hsucceeded, hdied,
        Aggregates.connectionsSucceeded_addResult, Aggregates.connectionsDied_addResult,
        List.countP_cons, List.countP_cons]
      by_cases h : r.Succeeded messages
      · rw [if_pos (hverdict.mpr h), if_pos (hverdict.mpr h)]
        simp only [h, decide_true, not_true_eq_false, decide_false, Bool.false_eq_true, if_true,
          if_false]
        omega
      · rw [if_neg (mt hverdict.mp h), if_neg (mt hverdict.mp h)]
        simp only [h, decide_true, not_false_eq_true, decide_false, Bool.false_eq_true, if_true,
          if_false]
        omega

/-- What the controller prints about the clients whose reports it has read. -/
structure Printed (dbl : Doubles F) (messages : Int) (received : List (Report F))
    (a : Aggregates F) : Prop where
  succeeded : a.connectionsSucceeded = received.countP (·.Succeeded messages)
  died : a.connectionsDied = received.countP (fun r => ¬ r.Succeeded messages)
  totalcount : a.totalcount = (received.flatMap (·.samples dbl)).length
  samples : a.samples = received.countP (·.Sampled dbl)
  mean : a.overallMean =
    (received.flatMap (·.samples dbl)).sum / (received.flatMap (·.samples dbl)).length

/-- The totals over the reports that are read. -/
theorem printed_totals [CharZero F] (hmean : ∀ xs, xs ≠ [] → dbl.mean xs = Samples.mean xs)
    {received : List (Report F)} (hsound : ∀ r ∈ received, r.Sound dbl) (messages : Int)
    (declared : Nat → ResultLocals F) {expected : Int} {leftover : Bool} {arrived : List Message}
    (hparsed : (Reader.collect expected {} (Reader.boundary leftover arrived)).1.parsed =
      received.map (·.text dbl)) :
    Printed dbl messages received (totals dbl messages declared expected leftover arrived) := by
  have hexact : ∀ r ∈ received, r.Exact dbl := fun r hr => (hsound r hr).toExact
  have hreceived : Received dbl received expected leftover arrived :=
    ⟨received, .refl received, hparsed⟩
  obtain ⟨hsucceeded, hdied⟩ := classified_addResults hsound messages declared .initial
  obtain ⟨hcount, hsamples⟩ := counts_totals messages declared hexact hreceived
  refine
    { succeeded := ?_
      died := ?_
      totalcount := hcount
      samples := hsamples
      mean := ?_ }
  · rw [totals, hparsed, hsucceeded]
    exact Nat.zero_add _
  · rw [totals, hparsed, hdied]
    exact Nat.zero_add _
  · rw [Aggregates.overallMean, meansum_totals messages hmean declared hexact hreceived, hcount,
      Int.cast_natCast]

end Report

/-- A list of messages with the results among them. -/
theorem Message.length_filterMap_stats (ms : List Message) :
    (ms.filterMap Message.stats?).length = ms.countP (fun m => !m.isFinished) := by
  induction ms with
  | nil => rfl
  | cons m ms ih =>
      cases m with
      | finished name status =>
          show (ms.filterMap stats?).length = _
          rw [ih, List.countP_cons_of_neg (by simp [isFinished])]
      | result stats =>
          show (ms.filterMap stats?).length + 1 = _
          rw [ih, List.countP_cons_of_pos (by simp [isFinished])]

/-- **The statistics of an iteration.** In every run over any configurations, when the collection
loop of an iteration is left: the reports pushed so far are those read in earlier iterations, those
read in this one and those still queued, and whatever else arrives, the controller has counted the
reports read in this iteration and prints their totals and the mean of their latencies. -/
theorem iteration_statistics [Field F] [CharZero F] {dbl : Doubles F}
    (hmean : ∀ xs, xs ≠ [] → dbl.mean xs = Samples.mean xs) {confs : List Config} {count : Nat}
    {before run : List Action} {s₀ s : State} {conf : Config}
    (hbefore : (coordination confs count).exec (coordination confs count).init before = some s₀)
    (hentry : s₀.controller.loc = .collect {})
    (hconf : confs[s₀.controller.iteration]? = some conf)
    (hrun : (coordination confs count).exec s₀ run = some s)
    (hsame : s.controller.iteration = s₀.controller.iteration) {counters : Counters}
    (hloc : s.controller.loc = .collect counters)
    (hexit : ¬ counters.Waiting conf.finishedExpected) {reports : List (Report F)}
    (hpushed : (coordination confs count).observe State.pushedTexts (coordination confs count).init
      (before ++ run) = reports.map (·.text dbl))
    (hsound : ∀ r ∈ reports, r.Sound dbl) (declared : Nat → ResultLocals F) (leftover : Bool)
    (rest : List Message) :
    ∃ earlier received queued, reports.Perm (earlier ++ received ++ queued) ∧
      earlier.map (·.text dbl) = (coordination confs count).observe State.takenTexts
        (coordination confs count).init before ∧
      queued.map (·.text dbl) = s.queuedTexts ∧ counters.resultsReceived = received.length ∧
      Report.Printed dbl conf.messages received
        (Report.totals dbl conf.messages declared conf.finishedExpected leftover
          ((coordination confs count).observe State.taken s₀ run ++ rest)) := by
  let M := coordination confs count
  have hwhole : M.exec M.init (before ++ run) = some s := by
    rw [M.exec_append, hbefore, Option.bind_some, hrun]
  -- the reports behind the texts taken and queued
  have hconserved : (reports.map (·.text dbl)).Perm
      (M.observe State.takenTexts M.init (before ++ run) ++ s.queuedTexts) :=
    hpushed ▸ State.texts_conserved hwhole
  obtain ⟨all, hall, hperm⟩ :=
    (congrFun₂ (List.eq_map_comp_perm fun r : Report F => r.text dbl) _ _).mpr hconserved.symm
  have hsplit : all.map (·.text dbl) = M.observe State.takenTexts M.init before ++
      M.observe State.takenTexts s₀ run ++ s.queuedTexts := by
    rw [← hall, M.observe_append State.takenTexts hbefore]
  obtain ⟨both, queued, rfl, hboth, hqueued⟩ := List.map_eq_append_iff.mp hsplit
  obtain ⟨earlier, received, rfl, hearlier, hreceived⟩ := List.map_eq_append_iff.mp hboth
  have hmem : ∀ r ∈ received, r.Sound dbl := by
    intro r hr
    apply hsound
    rw [← hperm.mem_iff]
    exact List.mem_append_left _ (List.mem_append_right _ hr)
  -- the frame reader parses the texts taken since the entry of the loop
  have htexts : M.observe State.takenTexts s₀ run =
      (M.observe State.taken s₀ run).filterMap Message.stats? :=
    M.observe_filterMap State.taken Message.stats? hrun
  have hread := Controller.hasRead_of_exec (M.reachable_of_exec hbefore) hentry hconf hrun
  rw [← hsame] at hread hconf
  obtain ⟨hcounters, leftover', hcollect⟩ := hread.collect hconf hloc hexit leftover rest
  refine ⟨earlier, received, queued, hperm.symm, hearlier, hqueued, ?_, ?_⟩
  · have hlength := congrArg List.length (hreceived.trans htexts)
    rw [List.length_map, Message.length_filterMap_stats] at hlength
    rw [hcounters, Counters.foldl_absorb, hlength]
    exact Nat.zero_add _
  · apply Report.printed_totals hmean hmem
    rw [hcollect, hreceived, htexts]

/-- One machine with one process for two clients, which send two messages each. -/
def Config.twoInstances : Config :=
  { Config.solo with instances := 2, messages := 2, ints := by decide }

/-- The iteration up to the entry of the collection loop. -/
def enterRun : List Action := soloRun.take 19

/-- From there to the exit of the loop. The process sends two results, of which one is read. -/
def collectRun (first second : String) : List Action :=
  [.process 0 .receive, .process 0 (.result first), .process 0 (.result second), .process 0 .exit,
    .listener 0 (.reap (.child 0 0)), .takeProcess 0, .takeListener 0]

/-- Whatever the clients report, the second report stays in the queue. -/
theorem collectRun_takes (first second : String) :
    ∃ s₀, (coordination [.twoInstances] 1).exec (coordination [.twoInstances] 1).init enterRun =
        some s₀ ∧
      s₀.controller = ⟨0, .collect {}⟩ ∧
      (coordination [.twoInstances] 1).observe State.taken s₀ (collectRun first second) =
        [.result first, .finished "" "0"] ∧
      ∃ s, (coordination [.twoInstances] 1).exec s₀ (collectRun first second) = some s ∧
        s.controller = ⟨0, .collect ⟨1, 0, 1⟩⟩ ∧ s.queuedTexts = [second] :=
  ⟨_, rfl, rfl, rfl, _, rfl, rfl, rfl⟩

/-- The report of an uneven client is read and printed, that of a client that has not been opened is
left in the queue. -/
theorem iteration_statistics_queued : ∃ r : Report Rat, r.samples rationalMillis = [1, 3] ∧
    ∀ declared leftover rest, Report.Printed rationalMillis 2 [r]
      (Report.totals rationalMillis 2 declared 1 leftover
        ([.result (r.text rationalMillis), .finished "" "0"] ++ rest)) := by
  obtain ⟨r, -, hsamples, hexact⟩ := exists_uneven
  have hlength : r.client.mStats.length = 2 := by
    rw [← List.length_map rationalMillis.millis]
    exact congrArg List.length hsamples
  let unopened : Report Rat := ⟨{ mConStart := 0 }, 0⟩
  have hsound : ∀ r' ∈ [r, unopened], r'.Sound rationalMillis :=
    List.forall_mem_cons.mpr ⟨{ hexact.toExact with isInt := by rw [hlength]; decide },
      List.forall_mem_singleton.mpr { exactVariance_unopened.toExact with isInt := by decide }⟩
  refine ⟨r, hsamples, fun declared leftover rest => ?_⟩
  -- the two reports have different texts, as they are read with different counts
  have hne : r.text rationalMillis ≠ unopened.text rationalMillis := by
    intro htext
    have hcount := hexact.count (declared 0)
    rw [htext, exactVariance_unopened.count, hsamples] at hcount
    cases hcount
  obtain ⟨s₀, hbefore, hentry, htaken, s, hrun, hexit, hqueue⟩ :=
    collectRun_takes (r.text rationalMillis) (unopened.text rationalMillis)
  obtain ⟨earlier, received, queued, hperm, hearlier, hqueued, -, hprinted⟩ :=
    iteration_statistics (fun xs _ => rfl) hbefore (by rw [hentry])
      (by rw [hentry]; rfl) hrun (by rw [hexit, hentry]) (by rw [hexit]) (by decide) rfl hsound
      declared leftover rest
  have hnone : earlier = [] := List.map_eq_nil_iff.mp hearlier
  rw [hnone, List.nil_append] at hperm
  rw [hqueue, List.map_eq_singleton_iff] at hqueued
  obtain ⟨x, rfl, hx⟩ := hqueued
  have hmem : x ∈ [r, unopened] := hperm.mem_iff.mpr (by simp)
  rcases List.mem_pair.mp hmem with rfl | rfl
  · exact absurd hx hne
  · -- the one left in the queue is the second one
    have hone : [r].Perm received := (List.perm_append_right_iff [unopened]).mp hperm
    rw [htaken, ← List.singleton_perm.mp hone] at hprinted
    exact hprinted

end WsPerftester
