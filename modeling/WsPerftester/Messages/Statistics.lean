import WsPerftester.Messages.Broadcasts
import WsPerftester.Lib.TextStream

/-! # The statistics text of a Result and its evaluation by the controller

`get_stats` prints the verdict of a client and the statistics of its latency samples as one line of
words; the controller reads the line back with `operator>>` and adds it to the totals of the
iteration. `double` enters as an arbitrary type `F` with the operations of `Doubles`, so that all
results hold for every floating-point format. The verdict and the number of samples survive the trip
(`readResult_statsText`); they alone decide how the connection is counted
(`connectionsSucceeded_addResult`). -/

namespace WsPerftester

open TextStream TextStream.InStream

variable {F : Type}

/-- What the program uses of `double` besides addition and multiplication. -/
structure Doubles (F : Type) where
  /-- A number of microseconds divided by `1000.0`. -/
  millis : Int → F
  /-- `min` of an accumulator fed with these samples. -/
  min : List F → F
  /-- `max` of an accumulator. -/
  max : List F → F
  /-- `mean` of an accumulator. -/
  mean : List F → F
  /-- `variance` of an accumulator. -/
  variance : List F → F
  /-- `operator<<`. -/
  put : F → String
  /-- `operator>>`; `none` leaves the target as it was. -/
  get : InStream → Option F × InStream

/-- The line `get_stats` prints behind its verdict, for latency samples in microseconds. -/
def statsText (dbl : Doubles F) (verdict : String) (samples : List Int) (setupTime : F) : String :=
  let mStats := samples.map dbl.millis
  verdict ++ " " ++ toString mStats.length ++ " " ++ dbl.put (dbl.min mStats) ++ " " ++
    dbl.put (dbl.max mStats) ++ " " ++ dbl.put (dbl.mean mStats) ++ " " ++
    dbl.put (dbl.variance mStats) ++ " " ++ dbl.put setupTime

/-! ## Reading the text -/

/-- The local variables of the `Result` branch of the collection loop. -/
structure ResultLocals (F : Type) where
  /-- The verdict. -/
  type : String
  /-- The number of samples. -/
  count : Int
  min : F
  max : F
  mean : F
  variance : F
  setup : F

/-- The extractions from `stats`; a target whose extraction assigns nothing keeps the value it was
declared with, which is indeterminate for all but the string. -/
def readResult (dbl : Doubles F) (declared : ResultLocals F) (stats : String) : ResultLocals F :=
  let ss : InStream := { chars := stats.toList }
  let (type, ss) := ss.getWord
  let (count, ss) := ss.getInt intMin intMax
  -- what the doubles leave unread, or fail on, cannot touch the first two targets
  let (min, ss) := dbl.get ss
  let (max, ss) := dbl.get ss
  let (mean, ss) := dbl.get ss
  let (variance, ss) := dbl.get ss
  let (setup, _) := dbl.get ss
  { type := type.getD ""
    count := count.getD declared.count
    min := min.getD declared.min
    max := max.getD declared.max
    mean := mean.getD declared.mean
    variance := variance.getD declared.variance
    setup := setup.getD declared.setup }

/-- The verdict and the number of samples stand at the front of the line. -/
theorem toList_statsText (dbl : Doubles F) (verdict : String) (samples : List Int) (setupTime : F) :
    ∃ rest, (statsText dbl verdict samples setupTime).toList =
      verdict.toList ++ ' ' :: (Nat.toDigits 10 samples.length ++ ' ' :: rest) := by
  have hcount : (toString samples.length).toList = Nat.toDigits 10 samples.length :=
    Nat.toList_repr
  have hblank : " ".toList = [' '] := rfl
  let mStats := samples.map dbl.millis
  let rest := dbl.put (dbl.min mStats) ++ " " ++ dbl.put (dbl.max mStats) ++ " " ++
    dbl.put (dbl.mean mStats) ++ " " ++ dbl.put (dbl.variance mStats) ++ " " ++ dbl.put setupTime
  refine ⟨rest.toList, ?_⟩
  simp only [statsText, rest, mStats, List.length_map, String.toList_append, hblank, hcount,
    List.append_assoc, List.cons_append, List.nil_append]

/-- **The verdict and the count survive.** Whatever the statistics are and however they are printed,
the controller reads the verdict and the number of samples that the client had. -/
theorem readResult_statsText (dbl : Doubles F) (declared : ResultLocals F) {verdict : String}
    {samples : List Int} (setupTime : F) (hverdict : isWord verdict = true)
    (hcount : IsInt samples.length) :
    (readResult dbl declared (statsText dbl verdict samples setupTime)).type = verdict ∧
      (readResult dbl declared (statsText dbl verdict samples setupTime)).count =
        samples.length := by
  obtain ⟨rest, hrest⟩ := toList_statsText dbl verdict samples setupTime
  obtain ⟨hne, hword⟩ := isWord_iff.mp hverdict
  simp only [readResult, hrest, getWord_append hne hword, getInt_toDigits hcount.1 hcount.2,
    String.ofList_toList, Option.getD_some, and_self]

/-! ## The totals of an iteration -/

/-- The totals the controller keeps over the `Result` messages of an iteration. -/
structure Aggregates (F : Type) where
  connectionsDied : Nat := 0
  connectionsSucceeded : Nat := 0
  meansum : F
  variancesum : F
  totalcount : Int := 0
  samples : Nat := 0
  /-- The values fed to `setup_stats`, in order. -/
  setupStats : List F := []

namespace Aggregates

/-- The classification of a connection, for clients that were to send `messages` messages. -/
def classify (messages : Int) (r : ResultLocals F) (a : Aggregates F) : Aggregates F :=
  -- `count == conf[iteration].messages` decides between the other two branches
  if r.type ≠ "success" then { a with connectionsDied := a.connectionsDied + 1 }
  else if r.count = messages then { a with connectionsSucceeded := a.connectionsSucceeded + 1 }
  else { a with connectionsDied := a.connectionsDied + 1 }

variable (dbl : Doubles F) (declared : ResultLocals F) (messages : Int)

/-- Whether a `Result` counts as a success: the verdict says so and every message has its echo. -/
def Succeeds (stats : String) : Prop :=
  (readResult dbl declared stats).type = "success" ∧
    (readResult dbl declared stats).count = messages

instance (stats : String) : Decidable (Succeeds dbl declared messages stats) :=
  inferInstanceAs (Decidable (_ ∧ _))

/-- One test decides between the two totals. -/
theorem classify_readResult (a : Aggregates F) (stats : String) :
    a.classify messages (readResult dbl declared stats) =
      if Succeeds dbl declared messages stats then
        { a with connectionsSucceeded := a.connectionsSucceeded + 1 }
      else { a with connectionsDied := a.connectionsDied + 1 } := by
  unfold classify
  by_cases htype : (readResult dbl declared stats).type = "success"
  · rw [if_neg (not_not.mpr htype)]
    by_cases hcount : (readResult dbl declared stats).count = messages
    · rw [if_pos hcount, if_pos ⟨htype, hcount⟩]
    · rw [if_neg hcount, if_neg fun h => hcount h.2]
  · rw [if_pos htype, if_neg fun h => htype h.1]

variable [Add F] [Mul F] [IntCast F]

/-- The sums of the latency statistics, to which only connections with an echo contribute. -/
def accumulate (r : ResultLocals F) (a : Aggregates F) : Aggregates F :=
  if 0 < r.count then
    { a with
      meansum := a.meansum + r.mean * (r.count : F)
      totalcount := a.totalcount + r.count
      samples := a.samples + 1
      variancesum := a.variancesum + ((r.count - 1 : Int) : F) * r.variance }
  else a

/-- The `Result` branch of the collection loop on the text `stats`. -/
def addResult (a : Aggregates F) (stats : String) : Aggregates F :=
  let r := readResult dbl declared stats
  let a := { a with setupStats := a.setupStats ++ [r.setup] }
  (a.classify messages r).accumulate r

/-- The `Result` branches of an iteration on the texts in their order; `declared i` is what the
local variables hold when they are declared for the text number `i`. -/
def addResults (dbl : Doubles F) (messages : Int) :
    (Nat → ResultLocals F) → Aggregates F → List String → Aggregates F
  | _, a, [] => a
  | declared, a, stats :: results =>
      addResults dbl messages (fun i => declared (i + 1))
        (a.addResult dbl (declared 0) messages stats) results

/-- What the collection loop starts from. -/
def initial [Zero F] : Aggregates F := { meansum := 0, variancesum := 0 }

/-- `meansum/totalcount`. -/
def overallMean [Div F] (a : Aggregates F) : F := a.meansum / (a.totalcount : F)

/-- `variancesum/(totalcount-samples)`. -/
def overallVariance [Div F] (a : Aggregates F) : F :=
  a.variancesum / ((a.totalcount - a.samples : Int) : F)

/-- The sums of the statistics do not touch the classification. -/
@[simp] theorem connectionsSucceeded_accumulate (r : ResultLocals F) (a : Aggregates F) :
    (a.accumulate r).connectionsSucceeded = a.connectionsSucceeded := by
  unfold accumulate
  split <;> rfl

/-- The sums of the statistics do not touch the classification. -/
@[simp] theorem connectionsDied_accumulate (r : ResultLocals F) (a : Aggregates F) :
    (a.accumulate r).connectionsDied = a.connectionsDied := by
  unfold accumulate
  split <;> rfl

/-- A connection is counted as succeeded when its `Result` says so. -/
theorem connectionsSucceeded_addResult (a : Aggregates F) (stats : String) :
    (a.addResult dbl declared messages stats).connectionsSucceeded =
      a.connectionsSucceeded + if Succeeds dbl declared messages stats then 1 else 0 := by
  rw [addResult, connectionsSucceeded_accumulate, classify_readResult]
  split <;> rfl

/-- A connection is counted as died in all other cases. -/
theorem connectionsDied_addResult (a : Aggregates F) (stats : String) :
    (a.addResult dbl declared messages stats).connectionsDied =
      a.connectionsDied + if Succeeds dbl declared messages stats then 0 else 1 := by
  rw [addResult, connectionsDied_accumulate, classify_readResult]
  split <;> rfl

/-- **Every connection is counted once.** Over any sequence of `Result` messages the two totals grow
by the number of those that succeed and of those that do not. -/
theorem foldl_addResult (a : Aggregates F) (results : List String) :
    (results.foldl (addResult dbl declared messages) a).connectionsSucceeded =
        a.connectionsSucceeded + results.countP (fun s => Succeeds dbl declared messages s) ∧
      (results.foldl (addResult dbl declared messages) a).connectionsDied =
        a.connectionsDied + results.countP (fun s => ¬ Succeeds dbl declared messages s) := by
  induction results generalizing a with
  | nil => exact ⟨rfl, rfl⟩
  | cons stats results ih =>
      obtain ⟨hsucceeded, hdied⟩ := ih (a.addResult dbl declared messages stats)
      rw [List.foldl_cons, hsucceeded, hdied, connectionsSucceeded_addResult,
        connectionsDied_addResult, List.countP_cons, List.countP_cons]
      by_cases h : Succeeds dbl declared messages stats
      · simp only [h, if_true, decide_true, not_true_eq_false, decide_false, Bool.false_eq_true,
          if_false]
        omega
      · simp only [h, if_false, decide_false, not_false_eq_true, decide_true, Bool.false_eq_true,
          if_true]
        omega

end Aggregates

end WsPerftester
