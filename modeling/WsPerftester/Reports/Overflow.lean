import WsPerftester.Lib.Registers
import WsPerftester.Reports.Pooling

/-! # The integer totals of an iteration

The controller keeps `totalcount` and `samples` in variables of type `int`, while `Aggregates`
counts exactly. What the variables hold is left of the exact totals in 32 bits
(`after_readCounts`), and a stream of reports that the configuration allows may sum up to more than
`INT_MAX`. -/

namespace WsPerftester

open Register

/-- What is left of an integer in an `int`, where overflows wrap around. -/
def int32 (z : Int) : Int := wrap 4294967296 z

/-- An `int` is a register of 32 bits. -/
theorem isInt_iff_fits {z : Int} : IsInt z ↔ Fits 4294967296 z := by
  unfold IsInt intMin intMax Fits
  omega

/-- The values of an `int` are kept. -/
theorem int32_of_isInt {z : Int} (h : IsInt z) : int32 z = z := wrap_of_fits (isInt_iff_fits.mp h)

/-- Variables start from 0. -/
theorem int32_zero : int32 0 = 0 := int32_of_isInt (by decide)

/-- The expression `machines*processes*instances`, as the controller computes it. -/
def Config.intResultsExpected (conf : Config) : Int :=
  int32 (int32 (conf.machines * conf.processes) * conf.instances)

/-- It is exact when the product is an `int`, whatever the product of the first two factors is. -/
theorem Config.intResultsExpected_eq {conf : Config} (h : IsInt conf.resultsExpected) :
    conf.intResultsExpected = conf.resultsExpected := by
  rw [intResultsExpected, int32, int32, wrap_wrap_mul]
  exact int32_of_isInt h

/-- `totalcount` and `samples`. -/
structure IntTotals where
  totalcount : Int := 0
  samples : Int := 0
  deriving DecidableEq, Repr

namespace IntTotals

/-- The additions for one `Result`. -/
def add (t : IntTotals) (count : Int) : IntTotals :=
  if 0 < count then
    { totalcount := int32 (t.totalcount + count), samples := int32 (t.samples + 1) }
  else t

/-- The totals after the `Result`s with these counts. -/
def after (counts : List Int) : IntTotals := counts.foldl add {}

/-- The counts that the loop extracts from the texts of a stream. -/
def readCounts {F : Type} (dbl : Doubles F) : (Nat → ResultLocals F) → List String → List Int
  | _, [] => []
  | declared, stats :: results =>
      (readResult dbl (declared 0) stats).count ::
        readCounts dbl (fun i => declared (i + 1)) results

/-- **The variables and the exact totals.** Over any stream of texts `totalcount` and `samples` hold
what is left of the exact totals in 32 bits. -/
theorem after_readCounts {F : Type} [Add F] [Mul F] [IntCast F] [Zero F] (dbl : Doubles F)
    (messages : Int) (declared : Nat → ResultLocals F) (results : List String) :
    after (readCounts dbl declared results) =
      { totalcount :=
          int32 (Aggregates.addResults dbl messages declared .initial results).totalcount
        samples :=
          int32 (Aggregates.addResults dbl messages declared .initial results).samples } := by
  suffices h : ∀ a : Aggregates F, (readCounts dbl declared results).foldl add
      { totalcount := int32 a.totalcount, samples := int32 a.samples } =
        { totalcount := int32 (Aggregates.addResults dbl messages declared a results).totalcount
          samples := int32 (Aggregates.addResults dbl messages declared a results).samples } by
    have hinitial := h .initial
    rw [show (Aggregates.initial : Aggregates F).totalcount = 0 from rfl,
      show (((Aggregates.initial : Aggregates F).samples : Nat) : Int) = 0 from rfl,
      int32_zero] at hinitial
    exact hinitial
  intro a
  induction results generalizing declared a with
  | nil => rfl
  | cons stats results ih =>
      obtain ⟨died, succeeded, hadd⟩ :=
        Aggregates.addResult_eq dbl (declared 0) messages a stats
      rw [readCounts, List.foldl_cons, Aggregates.addResults, hadd, ← ih]
      congr 1
      rw [add, Aggregates.accumulate]
      split
      · simp only [int32, wrap_wrap_add]
        rfl
      · rfl

/-- The variables over counts that are not negative. -/
theorem after_eq {counts : List Int} (h : ∀ c ∈ counts, 0 ≤ c) :
    after counts =
      { totalcount := int32 (sum counts)
        samples := int32 (counts.countP fun c => 0 < c : Nat) } := by
  suffices hgen : ∀ z k : Int, counts.foldl add { totalcount := int32 z, samples := int32 k } =
      { totalcount := int32 (z + sum counts)
        samples := int32 (k + (counts.countP fun c => 0 < c : Nat)) } by
    have hzero := hgen 0 0
    rw [Int.zero_add, Int.zero_add, int32_zero] at hzero
    exact hzero
  intro z k
  induction counts generalizing z k with
  | nil => simp
  | cons c counts ih =>
      obtain ⟨hc, hcounts⟩ := List.forall_mem_cons.mp h
      rw [List.foldl_cons, add, List.countP_cons, sum_cons]
      by_cases hpos : 0 < c
      · rw [if_pos hpos, if_pos (decide_eq_true hpos)]
        simp only [int32, wrap_wrap_add] at ih ⊢
        rw [ih hcounts, Int.add_assoc, Int.add_assoc, Int.natCast_add, Int.natCast_one,
          Int.add_comm 1]
      · rw [if_neg hpos, if_neg (by simpa using hpos), ih hcounts, show c = 0 by omega,
          Int.zero_add, Nat.add_zero]

/-- The variables hold the exact totals at every point of the stream, and both denominators are what
they stand for: there is a latency to average over as soon as some count is positive, and no more
samples than latencies. -/
def Exact (counts : List Int) : Prop :=
  ∀ k, (after (counts.take k)).totalcount = sum (counts.take k) ∧
    ((∃ c ∈ counts.take k, 0 < c) → 0 < (after (counts.take k)).totalcount) ∧
    0 ≤ int32 ((after (counts.take k)).totalcount - (after (counts.take k)).samples)

/-- The totals are exact when their sum is an `int`. -/
theorem exact_of_isInt {counts : List Int} (h : ∀ c ∈ counts, 0 ≤ c)
    (hfits : ∀ k, IsInt (sum (counts.take k))) : Exact counts := by
  intro k
  have hnonneg : ∀ c ∈ counts.take k, 0 ≤ c := fun c hc => h c (List.mem_of_mem_take hc)
  have hsamples := countP_le_sum hnonneg
  have hsum := hfits k
  have hkept : IsInt ((counts.take k).countP fun c => 0 < c : Nat) :=
    ⟨by unfold intMin; omega, Int.le_trans hsamples hsum.2⟩
  have hdiff : IsInt (sum (counts.take k) - ((counts.take k).countP fun c => 0 < c : Nat)) := by
    unfold IsInt intMin intMax at hsum ⊢
    omega
  rw [after_eq hnonneg, int32_of_isInt hsum, int32_of_isInt hkept]
  refine ⟨rfl, ?_, ?_⟩
  · rintro ⟨c, hc, hpos⟩
    have hsome : 0 < (counts.take k).countP fun c => 0 < c :=
      List.countP_pos_iff.mpr ⟨c, hc, decide_eq_true hpos⟩
    dsimp only
    omega
  · rw [int32_of_isInt hdiff]
    omega

end IntTotals

/-- The totals are exact over every stream of at most `resultsExpected` reports of clients that were
to send `messages` messages each. -/
def Config.TotalsExact (conf : Config) : Prop :=
  ∀ counts : List Int, (counts.length : Int) ≤ conf.intResultsExpected →
    (∀ c ∈ counts, 0 ≤ c ∧ c ≤ conf.messages) → IntTotals.Exact counts

/-- **When the totals do not overflow.** All messages of the iteration together are counted by an
`int`. -/
theorem totals_exact_iff (conf : Config) (hfits : IsInt conf.resultsExpected) :
    conf.TotalsExact ↔
      (conf.resultsExpected.toNat : Int) * (conf.messages.toNat : Int) ≤ intMax := by
  rw [Config.TotalsExact, Config.intResultsExpected_eq hfits]
  have hsize := @accumulates_exactly_iff 4294967296 (by decide) conf.resultsExpected.toNat
    conf.messages.toNat (Int.natCast_nonneg _)
  have hnonneg : (0 : Int) ≤ (conf.resultsExpected.toNat : Int) * (conf.messages.toNat : Int) :=
    Int.mul_nonneg (Int.natCast_nonneg _) (Int.natCast_nonneg _)
  have hint : Fits 4294967296 (conf.resultsExpected.toNat * conf.messages.toNat) ↔
      (conf.resultsExpected.toNat : Int) * (conf.messages.toNat : Int) ≤ intMax := by
    rw [← isInt_iff_fits]
    exact ⟨fun h => h.2, fun h => ⟨by unfold intMin; omega, h⟩⟩
  constructor
  · intro hexact
    by_cases hpos : 0 < conf.resultsExpected ∧ 0 < conf.messages
    · rw [← hint, ← hsize]
      intro xs hlength hxs
      have hcounts : ∀ c ∈ xs, 0 ≤ c ∧ c ≤ conf.messages := fun c hc => by
        have := hxs c hc
        omega
      have htotal := (hexact xs (by omega) hcounts xs.length).1
      rw [List.take_length, IntTotals.after_eq fun c hc => (hcounts c hc).1] at htotal
      rw [accumulate_zero (by decide)]
      exact htotal
    · -- without a report or a message there is nothing to count
      have hzero : conf.resultsExpected.toNat = 0 ∨ conf.messages.toNat = 0 := by omega
      rcases hzero with hzero | hzero
      · rw [hzero, Int.natCast_zero, Int.zero_mul]
        decide
      · rw [hzero, Int.natCast_zero, Int.mul_zero]
        decide
  · intro hbound counts hlength hcounts
    refine IntTotals.exact_of_isInt (fun c hc => (hcounts c hc).1) fun k => ?_
    rw [isInt_iff_fits]
    refine fits_sum (Int.natCast_nonneg _) (hint.mpr hbound) ?_ ?_
    · rw [List.length_take]
      omega
    · intro c hc
      have := hcounts c (List.mem_of_mem_take hc)
      omega

/-- Two clients that send `INT_MAX` messages each. -/
def Config.twoClients : Config :=
  { Config.default with
    machines := 1, processes := 1, instances := 2, messages := 2147483647, ints := by decide }

/-- When both have reported all their messages, the total has wrapped around below 0. -/
theorem total_wraps :
    IsInt Config.twoClients.resultsExpected ∧
      IntTotals.after [2147483647, 2147483647] = { totalcount := -2, samples := 2 } ∧
      ¬ Config.twoClients.TotalsExact := by
  have hwrapped : IntTotals.after [2147483647, 2147483647] =
      { totalcount := -2, samples := 2 } := by decide
  refine ⟨by decide, hwrapped, fun hexact => ?_⟩
  have htotal := (hexact [2147483647, 2147483647] (by decide) (by decide) 2).1
  rw [List.take_of_length_le (by decide), hwrapped] at htotal
  exact absurd htotal (by decide)

/-- `totals_exact_iff` for the default configuration: 7500 clients with 12 messages each. -/
theorem totals_exact_default : Config.default.TotalsExact :=
  (totals_exact_iff .default (by decide)).mpr (by decide)

end WsPerftester
