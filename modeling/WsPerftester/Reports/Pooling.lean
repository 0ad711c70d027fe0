import Mathlib.Algebra.Order.Field.Rat
import Mathlib.Tactic.NormNum
import WsPerftester.Lib.Deviations
import WsPerftester.Messages.ResultStream
import WsPerftester.Reports.RoundTrip

/-! # The latency of an iteration

The controller pools the latencies of the connections from the count, the mean and the variance that
each of them reports. In exact arithmetic the overall mean is the mean of all echoes, in whatever
order the reports arrive (`overallMean_of_reports`). The variances are weighted as if they were
sample variances, but the accumulators compute population variances, so the overall variance is too
small as soon as the latencies of one connection differ (`overallVariance_iff`). -/

namespace WsPerftester

variable {F : Type}

/-- What a process knows about one of its clients when it prints the statistics; `unassigned` is
what the memory of `m_setupTime` holds if `on_open` has not been called. -/
structure Report (F : Type) where
  client : Client
  unassigned : F

namespace Report

/-- The text of the `Result`. -/
def text (dbl : Doubles F) (r : Report F) : String := r.client.getStats dbl r.unassigned

/-- The latencies. -/
def samples (dbl : Doubles F) (r : Report F) : List F := r.client.mStats.map dbl.millis

/-- The connection has had an echo. -/
def Sampled (dbl : Doubles F) (r : Report F) : Prop := r.samples dbl ≠ []

instance (dbl : Doubles F) (r : Report F) : Decidable (r.Sampled dbl) :=
  decidable_of_iff (¬ (r.samples dbl).isEmpty = true) (not_congr List.isEmpty_iff)

/-- Count and mean of the report are transmitted exactly. -/
structure Exact (dbl : Doubles F) (r : Report F) : Prop where
  count (declared : ResultLocals F) :
    (readResult dbl declared (r.text dbl)).count = (r.samples dbl).length
  mean (declared : ResultLocals F) (h : r.Sampled dbl) :
    (readResult dbl declared (r.text dbl)).mean = dbl.mean (r.samples dbl)

/-- So is the variance. -/
structure ExactVariance (dbl : Doubles F) (r : Report F) : Prop extends r.Exact dbl where
  variance (declared : ResultLocals F) (h : r.Sampled dbl) :
    (readResult dbl declared (r.text dbl)).variance = dbl.variance (r.samples dbl)

/-- Streams that print enough digits transmit exactly what is finite. -/
theorem exactVariance_of_readsBack {dbl : Doubles F} {finite : F → Prop}
    (hreads : dbl.ReadsBack finite id) {r : Report F} (hcount : IsInt r.client.mStats.length)
    (hsetup : finite ((r.client.mSetupTime.map dbl.millis).getD r.unassigned))
    (hstats : r.Sampled dbl → finite (dbl.min (r.samples dbl)) ∧ finite (dbl.max (r.samples dbl)) ∧
      finite (dbl.mean (r.samples dbl)) ∧ finite (dbl.variance (r.samples dbl))) :
    r.ExactVariance dbl := by
  have hread (declared : ResultLocals F) (h : r.Sampled dbl) :
      (readResult dbl declared (r.text dbl)).mean = dbl.mean (r.samples dbl) ∧
        (readResult dbl declared (r.text dbl)).variance = dbl.variance (r.samples dbl) := by
    obtain ⟨hmin, hmax, hmean, hvariance⟩ := hstats h
    rw [readResult_eq, text, Client.getStats, extractions_statsText declared hreads
      r.client.isWord_verdict hcount hmin hmax hmean hvariance hsetup]
    exact ⟨rfl, rfl⟩
  refine
    { count := fun declared => ?_
      mean := fun declared h => (hread declared h).1
      variance := fun declared h => (hread declared h).2 }
  rw [samples, List.length_map]
  exact (readResult_statsText dbl declared _ r.client.isWord_verdict hcount).2

end Report

namespace Aggregates

/-- Behind the classification, a text is accumulated. -/
theorem addResult_eq [Add F] [Mul F] [IntCast F] (dbl : Doubles F) (declared : ResultLocals F)
    (messages : Int) (a : Aggregates F) (stats : String) :
    ∃ died succeeded, a.addResult dbl declared messages stats =
      accumulate (readResult dbl declared stats)
        { a with
          setupStats := a.setupStats ++ [(readResult dbl declared stats).setup]
          connectionsDied := died
          connectionsSucceeded := succeeded } := by
  simp only [addResult, classify]
  split
  · exact ⟨_, _, rfl⟩
  · split
    · exact ⟨_, _, rfl⟩
    · exact ⟨_, _, rfl⟩

/-- Only a connection with an echo is accumulated. -/
theorem count_pos_iff {dbl : Doubles F} {r : Report F} (hexact : r.Exact dbl)
    (declared : ResultLocals F) :
    0 < (readResult dbl declared (r.text dbl)).count ↔ r.Sampled dbl := by
  rw [hexact.count declared, Int.natCast_pos, List.length_pos_iff, Report.Sampled]

variable [Field F] {dbl : Doubles F}

/-- What a report adds to the counts. -/
theorem counts_addResult {r : Report F} (hexact : r.Exact dbl) (declared : ResultLocals F)
    (messages : Int) (a : Aggregates F) :
    (a.addResult dbl declared messages (r.text dbl)).totalcount =
        a.totalcount + (r.samples dbl).length ∧
      (a.addResult dbl declared messages (r.text dbl)).samples =
        a.samples + if r.Sampled dbl then 1 else 0 := by
  obtain ⟨died, succeeded, hadd⟩ := addResult_eq dbl declared messages a (r.text dbl)
  rw [hadd, accumulate]
  by_cases h : r.Sampled dbl
  · rw [if_pos ((count_pos_iff hexact declared).mpr h), if_pos h, hexact.count declared]
    exact ⟨rfl, rfl⟩
  · rw [if_neg (mt (count_pos_iff hexact declared).mp h), if_neg h, not_not.mp h]
    exact ⟨(Int.add_zero _).symm, rfl⟩

/-- What a report adds to the sum of the means. -/
theorem meansum_addResult [CharZero F] (hmean : ∀ xs, xs ≠ [] → dbl.mean xs = Samples.mean xs)
    {r : Report F} (hexact : r.Exact dbl) (declared : ResultLocals F) (messages : Int)
    (a : Aggregates F) :
    (a.addResult dbl declared messages (r.text dbl)).meansum =
      a.meansum + (r.samples dbl).sum := by
  obtain ⟨died, succeeded, hadd⟩ := addResult_eq dbl declared messages a (r.text dbl)
  rw [hadd, accumulate]
  -- without an echo nothing is accumulated, and nothing is missing
  by_cases h : r.Sampled dbl
  · rw [if_pos ((count_pos_iff hexact declared).mpr h), hexact.count declared,
      hexact.mean declared h, hmean _ h, Int.cast_natCast, Samples.mean_mul_length h]
  · rw [if_neg (mt (count_pos_iff hexact declared).mp h), not_not.mp h, List.sum_nil, add_zero]

/-- What a report adds to the sum of the variances. -/
theorem variancesum_addResult (hvariance : ∀ xs, xs ≠ [] → dbl.variance xs = Samples.variance xs)
    {r : Report F} (hexact : r.ExactVariance dbl) (declared : ResultLocals F) (messages : Int)
    (a : Aggregates F) :
    (a.addResult dbl declared messages (r.text dbl)).variancesum =
      a.variancesum + (((r.samples dbl).length : F) - 1) * Samples.variance (r.samples dbl) := by
  obtain ⟨died, succeeded, hadd⟩ := addResult_eq dbl declared messages a (r.text dbl)
  rw [hadd, accumulate]
  -- the weight `count - 1` would belong to a sample variance
  by_cases h : r.Sampled dbl
  · rw [if_pos ((count_pos_iff hexact.toExact declared).mpr h), hexact.count declared,
      hexact.variance declared h, hvariance _ h, Int.cast_sub, Int.cast_natCast, Int.cast_one]
  · rw [if_neg (mt (count_pos_iff hexact.toExact declared).mp h), not_not.mp h,
      Samples.variance_nil, mul_zero, add_zero]

/-- The counts over the reports in the order of their arrival. -/
theorem counts_addResults {received : List (Report F)} (hexact : ∀ r ∈ received, r.Exact dbl)
    (messages : Int) (declared : Nat → ResultLocals F) (a : Aggregates F) :
    (addResults dbl messages declared a (received.map (·.text dbl))).totalcount =
        a.totalcount + (received.flatMap (·.samples dbl)).length ∧
      (addResults dbl messages declared a (received.map (·.text dbl))).samples =
        a.samples + received.countP (·.Sampled dbl) := by
  induction received generalizing declared a with
  | nil => exact ⟨(Int.add_zero _).symm, rfl⟩
  | cons r received ih =>
      obtain ⟨hr, hreceived⟩ := List.forall_mem_cons.mp hexact
      obtain ⟨hcount, hsamples⟩ := counts_addResult hr (declared 0) messages a
      obtain ⟨hcount', hsamples'⟩ := ih hreceived (fun i => declared (i + 1))
        (a.addResult dbl (declared 0) messages (r.text dbl))
      rw [List.map_cons, addResults, hcount', hsamples', hcount, hsamples, List.flatMap_cons,
        List.length_append, List.countP_cons]
      simp only [decide_eq_true_eq]
      constructor <;> omega

/-- A total to which each report adds its part, over the reports in the order of their arrival. -/
theorem sum_addResults (total : Aggregates F → F) (part : Report F → F) {messages : Int}
    {received : List (Report F)}
    (hstep : ∀ r ∈ received, ∀ declared a,
      total (addResult dbl declared messages a (r.text dbl)) = total a + part r)
    (declared : Nat → ResultLocals F) (a : Aggregates F) :
    total (addResults dbl messages declared a (received.map (·.text dbl))) =
      total a + (received.map part).sum := by
  induction received generalizing declared a with
  | nil => rw [List.map_nil, addResults, List.map_nil, List.sum_nil, add_zero]
  | cons r received ih =>
      obtain ⟨hr, hreceived⟩ := List.forall_mem_cons.mp hstep
      rw [List.map_cons, addResults, ih hreceived, hr, List.map_cons, List.sum_cons, add_assoc]

end Aggregates

namespace Report

variable (dbl : Doubles F) (messages : Int)

/-- The totals of an iteration in which the collection loop reads these messages. -/
def totals [Add F] [Mul F] [IntCast F] [Zero F] (declared : Nat → ResultLocals F) (expected : Int)
    (leftover : Bool) (arrived : List Message) : Aggregates F :=
  Aggregates.addResults dbl messages declared .initial
    (Reader.collect expected {} (Reader.boundary leftover arrived)).1.parsed

/-- The results the loop reads from the messages are those of the connections, in some order. -/
def Received (connections : List (Report F)) (expected : Int) (leftover : Bool)
    (arrived : List Message) : Prop :=
  ∃ received : List (Report F), received.Perm connections ∧
    (Reader.collect expected {} (Reader.boundary leftover arrived)).1.parsed =
      received.map (·.text dbl)

variable [Field F]

/-- The pooled variance: the squared deviations of all latencies, each from the mean of its own
connection, over the number of latencies less the number of connections that have one. -/
def pooledVariance (connections : List (Report F)) : F :=
  ((connections.map (·.samples dbl)).map Samples.deviations).sum /
    (((connections.flatMap (·.samples dbl)).length - connections.countP (·.Sampled dbl) : Int) : F)

variable {dbl} {connections : List (Report F)} {expected : Int} {leftover : Bool}
  {arrived : List Message}

/-- The counts of an iteration, in whatever order the results arrive and however they are
interleaved with `Finished` notices. -/
theorem counts_totals (declared : Nat → ResultLocals F) (hexact : ∀ r ∈ connections, r.Exact dbl)
    (hreceived : Received dbl connections expected leftover arrived) :
    (totals dbl messages declared expected leftover arrived).totalcount =
        (connections.flatMap (·.samples dbl)).length ∧
      (totals dbl messages declared expected leftover arrived).samples =
        connections.countP (·.Sampled dbl) := by
  obtain ⟨received, hperm, hparsed⟩ := hreceived
  obtain ⟨hcount, hsamples⟩ := Aggregates.counts_addResults
    (fun r hr => hexact r (hperm.mem_iff.mp hr)) messages declared .initial
  rw [totals, hparsed, hcount, hsamples, (hperm.flatMap_right (·.samples dbl)).length_eq,
    hperm.countP_eq]
  exact ⟨Int.zero_add _, Nat.zero_add _⟩

/-- The sum of the means of an iteration. -/
theorem meansum_totals [CharZero F] (hmean : ∀ xs, xs ≠ [] → dbl.mean xs = Samples.mean xs)
    (declared : Nat → ResultLocals F) (hexact : ∀ r ∈ connections, r.Exact dbl)
    (hreceived : Received dbl connections expected leftover arrived) :
    (totals dbl messages declared expected leftover arrived).meansum =
      (connections.flatMap (·.samples dbl)).sum := by
  obtain ⟨received, hperm, hparsed⟩ := hreceived
  have hsum := Aggregates.sum_addResults (·.meansum) (fun r => (r.samples dbl).sum)
    (fun r hr declared a => Aggregates.meansum_addResult hmean (hexact r (hperm.mem_iff.mp hr))
      declared messages a) declared .initial
  rw [totals, hparsed, hsum, (hperm.map _).sum_eq, List.flatMap, List.sum_flatten, List.map_map]
  exact zero_add _

/-- The sum of the variances of an iteration. -/
theorem variancesum_totals (hvariance : ∀ xs, xs ≠ [] → dbl.variance xs = Samples.variance xs)
    (declared : Nat → ResultLocals F) (hexact : ∀ r ∈ connections, r.ExactVariance dbl)
    (hreceived : Received dbl connections expected leftover arrived) :
    (totals dbl messages declared expected leftover arrived).variancesum =
      ((connections.map (·.samples dbl)).map fun xs =>
        ((xs.length : F) - 1) * Samples.variance xs).sum := by
  obtain ⟨received, hperm, hparsed⟩ := hreceived
  have hsum := Aggregates.sum_addResults (·.variancesum)
    (fun r => (((r.samples dbl).length : F) - 1) * Samples.variance (r.samples dbl))
    (fun r hr declared a => Aggregates.variancesum_addResult hvariance
      (hexact r (hperm.mem_iff.mp hr)) declared messages a) declared .initial
  rw [totals, hparsed, hsum, (hperm.map _).sum_eq, List.map_map]
  exact zero_add _

/-- **The mean latency is the mean over all echoes.** -/
theorem overallMean_of_reports [CharZero F]
    (hmean : ∀ xs, xs ≠ [] → dbl.mean xs = Samples.mean xs) (declared : Nat → ResultLocals F)
    (hexact : ∀ r ∈ connections, r.Exact dbl)
    (hreceived : Received dbl connections expected leftover arrived) :
    (totals dbl messages declared expected leftover arrived).overallMean =
      (connections.flatMap (·.samples dbl)).sum / (connections.flatMap (·.samples dbl)).length := by
  rw [Aggregates.overallMean, meansum_totals messages hmean declared hexact hreceived,
    (counts_totals messages declared hexact hreceived).1, Int.cast_natCast]

/-- What the controller prints as the variance. -/
theorem overallVariance_eq [CharZero F]
    (hvariance : ∀ xs, xs ≠ [] → dbl.variance xs = Samples.variance xs)
    (declared : Nat → ResultLocals F) (hexact : ∀ r ∈ connections, r.ExactVariance dbl)
    (hreceived : Received dbl connections expected leftover arrived) :
    (totals dbl messages declared expected leftover arrived).overallVariance =
      ((connections.map (·.samples dbl)).map fun xs =>
          ((xs.length : F) - 1) * Samples.variance xs).sum /
        (((connections.flatMap (·.samples dbl)).length - connections.countP (·.Sampled dbl) :
          Int) : F) := by
  obtain ⟨hcount, hsamples⟩ := counts_totals messages declared
    (fun r hr => (hexact r hr).toExact) hreceived
  rw [Aggregates.overallVariance, hcount, hsamples,
    variancesum_totals messages hvariance declared hexact hreceived]

/-- **When the printed variance is the pooled variance**: exactly if no connection has two different
latencies. -/
theorem overallVariance_iff [LinearOrder F] [IsStrictOrderedRing F]
    (hvariance : ∀ xs, xs ≠ [] → dbl.variance xs = Samples.variance xs)
    (declared : Nat → ResultLocals F) (hexact : ∀ r ∈ connections, r.ExactVariance dbl)
    (hreceived : Received dbl connections expected leftover arrived)
    (hsamples : (totals dbl messages declared expected leftover arrived).samples <
      (totals dbl messages declared expected leftover arrived).totalcount) :
    (totals dbl messages declared expected leftover arrived).overallVariance =
        pooledVariance dbl connections ↔
      ∀ r ∈ connections, Samples.Constant (r.samples dbl) := by
  obtain ⟨hcount, hconnections⟩ := counts_totals messages declared
    (fun r hr => (hexact r hr).toExact) hreceived
  rw [hcount, hconnections] at hsamples
  have hne : (((connections.flatMap (·.samples dbl)).length -
      connections.countP (·.Sampled dbl) : Int) : F) ≠ 0 := Int.cast_ne_zero.mpr (by omega)
  have hweights := Samples.sum_map_pred_length_mul_variance_iff (connections.map (·.samples dbl))
  rw [List.forall_mem_map] at hweights
  rw [overallVariance_eq messages hvariance declared hexact hreceived, pooledVariance,
    div_left_inj' hne]
  exact hweights

end Report

/-! ## Rational numbers -/

/-- Rational numbers, of which the whole ones are printed and read as such. -/
def rationalMillis : Doubles Rat where
  millis t := t / 1000
  min xs := xs.foldl min (xs.headD 0)
  max xs := xs.foldl max (xs.headD 0)
  mean := Samples.mean
  variance := Samples.variance
  put q := toString q.num
  get s := ((s.getInt intMin intMax).1.map Int.cast, (s.getInt intMin intMax).2)

/-- Whole numbers come back as they are. -/
theorem readsBack_rationalMillis :
    rationalMillis.ReadsBack (fun q => ∃ z : Int, IsInt z ∧ q = z) id where
  get_put {x blanks rest} hx hblanks hrest := by
    obtain ⟨z, hz, rfl⟩ := hx
    have hread := @TextStream.getInt_toString intMin intMax z blanks rest hblanks
      fun c hc => Whole.isDigit_of_isSpace (hrest c hc)
    rw [if_neg (Int.not_lt.mpr hz.1), if_neg (Int.not_lt.mpr hz.2)] at hread
    simp only [rationalMillis, Rat.num_intCast, hread]
    rfl

/-- A configuration in which every client sends two messages. -/
def Config.twoMessages : Config := { Config.default with messages := 2, ints := by decide }

/-- A client whose two messages are echoed after one and after three milliseconds. -/
def Client.unevenRun : List Client.Act :=
  [.proceed, .onOpen 3000000, .proceed, .proceed, .send 4000000 false false, .onMessage 0 5000000,
    .proceed, .proceed, .proceed, .send 6000000 false false, .onMessage 1 9000000, .proceed,
    .proceed, .close false, .onClose]

/-- The report of that client. -/
theorem exists_uneven : ∃ r : Report Rat,
    (Client.telemetry .base Config.twoMessages.messages 0).Reachable r.client ∧
      r.samples rationalMillis = [1, 3] ∧ r.ExactVariance rationalMillis := by
  let client := Client.telemetry .base Config.twoMessages.messages 0
  obtain ⟨c, hrun, hend⟩ := client.exists_of_exec_any Client.unevenRun
    (fun c => c.mStats = [1000, 3000] ∧ c.mSetupTime = some 3000) (by decide)
  obtain ⟨hstats, hsetup⟩ := of_decide_eq_true hend
  have hsamples : Report.samples rationalMillis ⟨c, 0⟩ = [1, 3] := by
    rw [Report.samples, hstats]
    norm_num [rationalMillis]
  refine ⟨⟨c, 0⟩, (Client.telemetry _ _ _).reachable_of_exec hrun, hsamples, ?_⟩
  refine Report.exactVariance_of_readsBack readsBack_rationalMillis ?_ ?_ fun _ => ?_
  · rw [hstats]
    decide
  · rw [hsetup]
    exact ⟨3, by decide, by norm_num [rationalMillis]⟩
  · rw [hsamples]
    refine ⟨⟨1, by decide, ?_⟩, ⟨3, by decide, ?_⟩, ⟨2, by decide, ?_⟩, ⟨1, by decide, ?_⟩⟩
    · norm_num [rationalMillis]
    · norm_num [rationalMillis]
    · norm_num [rationalMillis, Samples.mean]
    · norm_num [rationalMillis, Samples.variance, Samples.deviations, Samples.mean]

/-- A client that has not been opened has no samples to report. -/
theorem exactVariance_unopened : Report.ExactVariance rationalMillis ⟨{ mConStart := 0 }, 0⟩ :=
  Report.exactVariance_of_readsBack readsBack_rationalMillis (by decide)
    ⟨0, by decide, by norm_num⟩ fun h => absurd rfl h

namespace Report

/-- The result of one process with one client. -/
def oneResult (dbl : Doubles F) (r : Report F) : List Message :=
  [.result (r.text dbl), .finished "process-1" "0"]

/-- The controller has read it. -/
theorem received_oneResult (dbl : Doubles F) (r : Report F) :
    Received dbl [r] 1 false (oneResult dbl r) := ⟨[r], .refl _, rfl⟩

/-- An uneven client has had an echo. -/
theorem sampled_uneven {r : Report Rat} (hsamples : r.samples rationalMillis = [1, 3]) :
    r.Sampled rationalMillis := by
  rw [Sampled, hsamples]
  exact List.cons_ne_nil _ _

/-- There are more latencies than connections that have one. -/
theorem samples_lt_uneven (declared : Nat → ResultLocals Rat) {r : Report Rat}
    (hsamples : r.samples rationalMillis = [1, 3]) (hexact : r.Exact rationalMillis) :
    (totals rationalMillis 2 declared 1 false (oneResult rationalMillis r)).samples <
      (totals rationalMillis 2 declared 1 false (oneResult rationalMillis r)).totalcount := by
  obtain ⟨hcount, hconnections⟩ := counts_totals 2 declared (List.forall_mem_singleton.mpr hexact)
    (received_oneResult rationalMillis r)
  rw [hcount, hconnections, List.flatMap_singleton, hsamples]
  norm_num [sampled_uneven hsamples]

/-- The results of two processes with a client each, the second one ahead of the first. -/
def twoResults (dbl : Doubles F) (first second : Report F) : List Message :=
  [.result (second.text dbl), .finished "process-2" "0", .result (first.text dbl),
    .finished "process-1" "0"]

/-- The controller has read both. -/
theorem received_twoResults (dbl : Doubles F) (first second : Report F) :
    Received dbl [first, second] 2 false (twoResults dbl first second) :=
  ⟨[second, first], .swap first second [], rfl⟩

/-- `overallMean_of_reports` for an uneven client and one that has not been opened. -/
theorem overallMean_uneven : ∃ r : Report Rat, r.samples rationalMillis = [1, 3] ∧ ∀ declared,
    (totals rationalMillis 2 declared 2 false
      (twoResults rationalMillis r ⟨{ mConStart := 0 }, 0⟩)).overallMean = 2 := by
  obtain ⟨r, -, hsamples, hexact⟩ := exists_uneven
  refine ⟨r, hsamples, fun declared => ?_⟩
  have hboth : ∀ r' ∈ [r, ⟨{ mConStart := 0 }, 0⟩], r'.Exact rationalMillis :=
    List.forall_mem_cons.mpr ⟨hexact.toExact,
      List.forall_mem_singleton.mpr exactVariance_unopened.toExact⟩
  rw [overallMean_of_reports 2 (fun xs _ => rfl) declared hboth
    (received_twoResults rationalMillis r _), List.flatMap_cons, hsamples]
  norm_num [samples]

/-- The printed variance of an uneven client is half of the pooled one. -/
theorem overallVariance_too_small : ∃ r : Report Rat,
    (Client.telemetry .base Config.twoMessages.messages 0).Reachable r.client ∧
      r.samples rationalMillis = [1, 3] ∧ r.ExactVariance rationalMillis ∧
      pooledVariance rationalMillis [r] = 2 ∧ ∀ declared,
        (totals rationalMillis 2 declared 1 false (oneResult rationalMillis r)).samples <
            (totals rationalMillis 2 declared 1 false (oneResult rationalMillis r)).totalcount ∧
          (totals rationalMillis 2 declared 1 false
            (oneResult rationalMillis r)).overallVariance = 1 := by
  obtain ⟨r, hr, hsamples, hexact⟩ := exists_uneven
  have hsampled := sampled_uneven hsamples
  refine ⟨r, hr, hsamples, hexact, ?_, fun declared => ⟨?_, ?_⟩⟩
  · rw [pooledVariance, List.flatMap_singleton, List.map_singleton, hsamples]
    norm_num [hsampled, Samples.deviations, Samples.mean]
  · exact samples_lt_uneven declared hsamples hexact.toExact
  · rw [overallVariance_eq 2 (fun xs _ => rfl) declared (List.forall_mem_singleton.mpr hexact)
      (received_oneResult rationalMillis r), List.flatMap_singleton, List.map_singleton, hsamples]
    norm_num [hsampled, Samples.variance, Samples.deviations, Samples.mean]

/-- `overallVariance_iff` for an uneven client. -/
theorem overallVariance_uneven : ∃ r : Report Rat, r.samples rationalMillis = [1, 3] ∧ ∀ declared,
    (totals rationalMillis 2 declared 1 false (oneResult rationalMillis r)).overallVariance ≠
      pooledVariance rationalMillis [r] := by
  obtain ⟨r, -, hsamples, hexact⟩ := exists_uneven
  refine ⟨r, hsamples, fun declared heq => ?_⟩
  have hconstant := (overallVariance_iff 2 (fun xs _ => rfl) declared
    (List.forall_mem_singleton.mpr hexact) (received_oneResult rationalMillis r)
    (samples_lt_uneven declared hsamples hexact.toExact)).mp heq
  have hsame := hconstant r (List.mem_singleton_self r)
  rw [hsamples] at hsame
  exact absurd (hsame 1 (by simp) 3 (by simp)) (by norm_num)

end Report

end WsPerftester
