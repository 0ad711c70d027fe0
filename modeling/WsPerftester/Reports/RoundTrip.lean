import WsPerftester.Client.Verdict

/-! # The report of a client, read back

`get_stats` writes seven words and the controller extracts seven targets from one stream. A finite
number is read back as the number it was printed as, but a stream that has failed on one word
assigns nothing any more: the mean of no samples is not a number, and it stands in front of the
variance and of the setup time. The report of a client arrives exactly if there is a sample
(`report_round_trips_iff`). -/

namespace WsPerftester

open TextStream TextStream.InStream

variable {F : Type}

/-! ## Printing and reading doubles -/

/-- A printed number that is `finite` is read back as what is left of it at the printed
precision. -/
structure Doubles.ReadsBack (dbl : Doubles F) (finite : F → Prop) (rounded : F → F) : Prop where
  get_put {x : F} {blanks rest : List Char} (hx : finite x)
    (hblanks : ∀ b ∈ blanks, isSpace b = true) (hrest : ∀ c ∈ rest.head?, isSpace c = true) :
    dbl.get { chars := blanks ++ ((dbl.put x).toList ++ rest) } =
      (some (rounded x), { chars := rest })

/-- The streams: besides reading finite numbers back, they fail on the others, and a stream that has
failed assigns nothing. -/
structure Doubles.Streams (dbl : Doubles F) (finite : F → Prop) (rounded : F → F) : Prop
    extends dbl.ReadsBack finite rounded where
  get_put_fail {x : F} {blanks rest : List Char} (hx : ¬ finite x)
    (hblanks : ∀ b ∈ blanks, isSpace b = true) (hrest : ∀ c ∈ rest.head?, isSpace c = true) :
    (dbl.get { chars := blanks ++ ((dbl.put x).toList ++ rest) }).2.fail = true
  get_of_fail {s : InStream} (hs : s.fail = true) : dbl.get s = (none, s)

/-- The accumulators: the statistics of a number of samples are finite, and of those of no samples
all but the mean. -/
structure Doubles.Accumulates (dbl : Doubles F) (finite : F → Prop) : Prop where
  finite_millis (t : Int) : finite (dbl.millis t)
  finite_min (samples : List Int) : finite (dbl.min (samples.map dbl.millis))
  finite_max (samples : List Int) : finite (dbl.max (samples.map dbl.millis))
  finite_mean {samples : List Int} (h : samples ≠ []) : finite (dbl.mean (samples.map dbl.millis))
  finite_variance (samples : List Int) : finite (dbl.variance (samples.map dbl.millis))
  not_finite_mean : ¬ finite (dbl.mean [])

/-! ## Reading the line -/

/-- The extractions of the `Result` branch, with the stream they leave behind. -/
def extractions (dbl : Doubles F) (declared : ResultLocals F) (stats : String) :
    ResultLocals F × InStream :=
  let ss : InStream := { chars := stats.toList }
  let (type, ss) := ss.getWord
  let (count, ss) := ss.getInt intMin intMax
  -- no extraction is checked, so a failure reaches every target behind it
  let (min, ss) := dbl.get ss
  let (max, ss) := dbl.get ss
  let (mean, ss) := dbl.get ss
  let (variance, ss) := dbl.get ss
  let (setup, ss) := dbl.get ss
  ({ type := type.getD ""
     count := count.getD declared.count
     min := min.getD declared.min
     max := max.getD declared.max
     mean := mean.getD declared.mean
     variance := variance.getD declared.variance
     setup := setup.getD declared.setup }, ss)

/-- `readResult` makes these extractions. -/
theorem readResult_eq (dbl : Doubles F) (declared : ResultLocals F) (stats : String) :
    readResult dbl declared stats = (extractions dbl declared stats).1 := rfl

/-- The rest of a line: each word behind a space. -/
def spaced : List String → List Char
  | [] => []
  | w :: ws => [' '] ++ (w.toList ++ spaced ws)

/-- The rest of a line starts with white space or is empty. -/
theorem isSpace_head_spaced (ws : List String) : ∀ c ∈ (spaced ws).head?, isSpace c = true := by
  cases ws with
  | nil => intro c hc; cases hc
  | cons w ws => intro c hc; cases hc; rfl

/-- No digit follows on a word of the line. -/
theorem isDigit_head_spaced (ws : List String) : ∀ c ∈ (spaced ws).head?, c.isDigit = false := by
  cases ws with
  | nil => intro c hc; cases hc
  | cons w ws => intro c hc; cases hc; rfl

/-- The space in front of a word. -/
theorem isSpace_mem_space : ∀ b ∈ [' '], isSpace b = true := by simp [isSpace_space]

/-- The line of `get_stats` as its verdict and six more words. -/
theorem toList_statsText_spaced (dbl : Doubles F) (verdict : String) (samples : List Int)
    (setupTime : F) :
    (statsText dbl verdict samples setupTime).toList = verdict.toList ++
      spaced [toString samples.length, dbl.put (dbl.min (samples.map dbl.millis)),
        dbl.put (dbl.max (samples.map dbl.millis)), dbl.put (dbl.mean (samples.map dbl.millis)),
        dbl.put (dbl.variance (samples.map dbl.millis)), dbl.put setupTime] := by
  have hblank : " ".toList = [' '] := rfl
  simp only [statsText, spaced, List.length_map, String.toList_append, hblank, List.append_assoc,
    List.append_nil]

section Reading

variable {dbl : Doubles F} {finite : F → Prop} {rounded : F → F}
variable {verdict : String} {samples : List Int} {setupTime : F}

/-- The count is extracted as far as it is an `int`. -/
theorem getInt_spaced (n : Nat) (ws : List String) :
    getInt intMin intMax { chars := spaced (toString n :: ws) } =
      if (n : Int) ≤ intMax then (some (n : Int), { chars := spaced ws })
      else (some intMax, { chars := spaced ws, fail := true }) := by
  have hread := @getInt_toString intMin intMax n [' '] (spaced ws) isSpace_mem_space
    (isDigit_head_spaced ws)
  rw [spaced, show toString n = toString (n : Int) from rfl, hread,
    if_neg (by unfold intMin; omega)]
  by_cases h : (n : Int) ≤ intMax
  · rw [if_neg (by omega), if_pos h]
  · rw [if_pos (by omega), if_neg h]

/-- The verdict is extracted first. -/
theorem getWord_spaced (hverdict : isWord verdict = true) (ws : List String) :
    getWord { chars := verdict.toList ++ spaced ws } = (some verdict, { chars := spaced ws }) := by
  obtain ⟨hne, hword⟩ := isWord_iff.mp hverdict
  have hread := @getWord_text [] verdict.toList (spaced ws) (by simp) hne hword
    (isSpace_head_spaced ws)
  rwa [String.ofList_toList, List.nil_append] at hread

/-- A finite number is extracted behind the words in front of it. -/
theorem get_spaced (hreads : dbl.ReadsBack finite rounded) {x : F} (hx : finite x)
    (ws : List String) :
    dbl.get { chars := spaced (dbl.put x :: ws) } = (some (rounded x), { chars := spaced ws }) :=
  hreads.get_put hx isSpace_mem_space (isSpace_head_spaced ws)

/-- **A line of finite numbers arrives.** -/
theorem extractions_statsText (declared : ResultLocals F)
    (hreads : dbl.ReadsBack finite rounded) (hverdict : isWord verdict = true)
    (hcount : IsInt samples.length)
    (hmin : finite (dbl.min (samples.map dbl.millis)))
    (hmax : finite (dbl.max (samples.map dbl.millis)))
    (hmean : finite (dbl.mean (samples.map dbl.millis)))
    (hvariance : finite (dbl.variance (samples.map dbl.millis))) (hsetup : finite setupTime) :
    extractions dbl declared (statsText dbl verdict samples setupTime) =
      ({ type := verdict
         count := samples.length
         min := rounded (dbl.min (samples.map dbl.millis))
         max := rounded (dbl.max (samples.map dbl.millis))
         mean := rounded (dbl.mean (samples.map dbl.millis))
         variance := rounded (dbl.variance (samples.map dbl.millis))
         setup := rounded setupTime }, { chars := [] }) := by
  simp only [extractions, toList_statsText_spaced, getWord_spaced hverdict, getInt_spaced,
    if_pos hcount.2, get_spaced hreads hmin, get_spaced hreads hmax, get_spaced hreads hmean,
    get_spaced hreads hvariance, get_spaced hreads hsetup, Option.getD_some]
  rfl

/-- **A mean that is not a number ends the line.** The variance and the setup time keep what they
were declared with. -/
theorem extractions_of_not_finite (declared : ResultLocals F) (setupTime : F)
    (hstreams : dbl.Streams finite rounded) (hverdict : isWord verdict = true)
    (hcount : IsInt samples.length)
    (hmin : finite (dbl.min (samples.map dbl.millis)))
    (hmax : finite (dbl.max (samples.map dbl.millis)))
    (hmean : ¬ finite (dbl.mean (samples.map dbl.millis))) :
    let read := extractions dbl declared (statsText dbl verdict samples setupTime)
    read.2.fail = true ∧ read.1.setup = declared.setup := by
  have hfail (ws : List String) :
      (dbl.get { chars := spaced (dbl.put (dbl.mean (samples.map dbl.millis)) :: ws) }).2.fail =
        true :=
    hstreams.get_put_fail hmean isSpace_mem_space (isSpace_head_spaced ws)
  -- the variance and the setup time are extracted from a stream that has failed
  simp only [extractions, toList_statsText_spaced, getWord_spaced hverdict, getInt_spaced,
    if_pos hcount.2, get_spaced hstreams.toReadsBack hmin, get_spaced hstreams.toReadsBack hmax,
    hstreams.get_of_fail (hfail _), hfail, Option.getD_none, and_self]

/-- A count that is no `int` fails the stream, which it stays. -/
theorem extractions_of_not_isInt (declared : ResultLocals F) (setupTime : F)
    (hstreams : dbl.Streams finite rounded) (hverdict : isWord verdict = true)
    (hcount : ¬ IsInt samples.length) :
    (extractions dbl declared (statsText dbl verdict samples setupTime)).2.fail = true := by
  have hlarge : ¬ (samples.length : Int) ≤ intMax := by
    intro hle
    exact hcount ⟨by unfold intMin; omega, hle⟩
  have hnone (cs : List Char) :
      dbl.get { chars := cs, fail := true } = (none, { chars := cs, fail := true }) :=
    hstreams.get_of_fail rfl
  simp only [extractions, toList_statsText_spaced, getWord_spaced hverdict, getInt_spaced,
    if_neg hlarge, hnone]

end Reading

/-! ## The report of a client -/

namespace Client

/-- The controller reads from the text of a client what the client wrote: no extraction fails, the
verdict, the count and the setup time are the client's, and so are the statistics if there is a
sample, up to the printed precision. -/
structure RoundTrips (dbl : Doubles F) (rounded : F → F) (c : Client) (setupTime : F)
    (read : ResultLocals F × InStream) : Prop where
  fail : read.2.fail = false
  type : read.1.type = c.verdict
  count : read.1.count = c.mStats.length
  setup : read.1.setup = rounded setupTime
  stats : 0 < c.mStats.length →
    read.1.min = rounded (dbl.min (c.mStats.map dbl.millis)) ∧
      read.1.max = rounded (dbl.max (c.mStats.map dbl.millis)) ∧
      read.1.mean = rounded (dbl.mean (c.mStats.map dbl.millis)) ∧
      read.1.variance = rounded (dbl.variance (c.mStats.map dbl.millis))

variable {dbl : Doubles F} {finite : F → Prop} {rounded : F → F}

/-- Without a sample the stream fails on the mean, and the setup time is not extracted. -/
theorem extractions_without_samples (hstreams : dbl.Streams finite rounded)
    (hstats : dbl.Accumulates finite) (declared : ResultLocals F) (unassigned : F) {c : Client}
    (hempty : c.mStats = []) :
    (extractions dbl declared (c.getStats dbl unassigned)).2.fail = true ∧
      (extractions dbl declared (c.getStats dbl unassigned)).1.setup = declared.setup := by
  have hcount : IsInt c.mStats.length := by
    rw [hempty]
    decide
  have hmean : ¬ finite (dbl.mean (c.mStats.map dbl.millis)) := by
    rw [hempty]
    exact hstats.not_finite_mean
  rw [getStats]
  exact extractions_of_not_finite declared _ hstreams c.isWord_verdict hcount (hstats.finite_min _)
    (hstats.finite_max _) hmean

/-- With a sample everything is extracted. -/
theorem report_round_trips (hstreams : dbl.Streams finite rounded)
    (hstats : dbl.Accumulates finite) (declared : ResultLocals F) (unassigned : F) {c : Client}
    {t : Int} (hsetup : c.mSetupTime = some t) (hne : c.mStats ≠ [])
    (hcount : IsInt c.mStats.length) :
    c.RoundTrips dbl rounded (dbl.millis t)
      (extractions dbl declared (c.getStats dbl unassigned)) := by
  have htext : c.getStats dbl unassigned = statsText dbl c.verdict c.mStats (dbl.millis t) := by
    rw [getStats, hsetup, Option.map_some, Option.getD_some]
  rw [htext, extractions_statsText declared hstreams.toReadsBack c.isWord_verdict hcount
    (hstats.finite_min _) (hstats.finite_max _) (hstats.finite_mean hne)
    (hstats.finite_variance _) (hstats.finite_millis t)]
  exact ⟨rfl, rfl, rfl, rfl, fun _ => ⟨rfl, rfl, rfl, rfl⟩⟩

/-- **When the report of a client arrives.** In every state of a client whose setup time has been
assigned, the controller reads what the client wrote exactly if there is a sample and the number of
samples is an `int`. -/
theorem report_round_trips_iff (hstreams : dbl.Streams finite rounded)
    (hstats : dbl.Accumulates finite) (declared : ResultLocals F) (unassigned : F) (c : Client)
    {t : Int} (hsetup : c.mSetupTime = some t) :
    c.RoundTrips dbl rounded (dbl.millis t)
        (extractions dbl declared (c.getStats dbl unassigned)) ↔
      c.mStats ≠ [] ∧ IsInt c.mStats.length := by
  constructor
  · intro hread
    have hok := hread.fail
    constructor
    · intro hempty
      rw [(extractions_without_samples hstreams hstats declared unassigned hempty).1] at hok
      cases hok
    · by_contra hlarge
      rw [getStats, extractions_of_not_isInt declared _ hstreams c.isWord_verdict hlarge] at hok
      cases hok
  · rintro ⟨hne, hcount⟩
    exact report_round_trips hstreams hstats declared unassigned hsetup hne hcount

end Client

/-! ## Whole numbers -/

/-- Doubles that print as whole numbers, and what else an accumulator starts with. -/
inductive Whole
  | number (z : Int)
  /-- `std::numeric_limits<double>::max()`. -/
  | largest
  /-- `std::numeric_limits<double>::lowest()`. -/
  | lowest
  | nan
  deriving DecidableEq

namespace Whole

/-- The nearest `int`. -/
def clamp (z : Int) : Whole := number (max intMin (min z intMax))

/-- `operator<<`. -/
def put : Whole → String
  | number z => toString z
  | largest => "1.79769e+308"
  | lowest => "-1.79769e+308"
  | nan => "-nan"

/-- `operator>>`. -/
def get (s : InStream) : Option Whole × InStream :=
  if s.getWord.1 = some "1.79769e+308" then (some largest, s.getWord.2)
  else if s.getWord.1 = some "-1.79769e+308" then (some lowest, s.getWord.2)
  else ((s.getInt intMin intMax).1.map number, (s.getInt intMin intMax).2)

/-- The whole part of a number. -/
def toInt : Whole → Int
  | number z => z
  | _ => 0

/-- The statistics of whole numbers, and of no numbers. -/
def doubles : Doubles Whole where
  millis t := clamp (t.tdiv 1000)
  min xs := if xs = [] then largest else clamp (wholeMillis.min (xs.map toInt))
  max xs := if xs = [] then lowest else clamp (wholeMillis.max (xs.map toInt))
  mean xs := if xs = [] then nan else clamp (wholeMillis.mean (xs.map toInt))
  variance xs := if xs = [] then number 0 else clamp (wholeMillis.variance (xs.map toInt))
  put := put
  get := get

instance : Zero Whole := ⟨number 0⟩

instance : IntCast Whole := ⟨clamp⟩

instance : Add Whole := ⟨fun x y => clamp (x.toInt + y.toInt)⟩

instance : Mul Whole := ⟨fun x y => clamp (x.toInt * y.toInt)⟩

/-- A number that is printed as such. -/
def Finite : Whole → Prop
  | number z => IsInt z
  | largest | lowest => True
  | nan => False

/-- The nearest `int` is finite. -/
theorem finite_clamp (z : Int) : (clamp z).Finite := by
  unfold clamp Finite IsInt intMin intMax
  omega

/-- A statistic is finite if it is so for no numbers. -/
theorem finite_statistic {empty : Whole} (xs : List Whole) (z : Int) (hempty : empty.Finite) :
    (if xs = [] then empty else clamp z).Finite := by
  split
  · exact hempty
  · exact finite_clamp z

/-- A printed integer has no point. -/
theorem toString_ne {z : Int} {w : String} (hw : '.' ∈ w.toList) : some (toString z) ≠ some w := by
  rintro h
  rw [← Option.some.inj h, toList_toString, List.mem_append] at hw
  rcases hw with hsign | hdigit
  · split at hsign
    · cases List.mem_singleton.mp hsign
    · cases hsign
  · cases isDigit_toDigits hdigit

/-- What is no extreme value is read as an integer. -/
theorem get_of_getWord {s : InStream} {w : Option String} {rest : InStream}
    (hs : s.getWord = (w, rest)) (hlargest : w ≠ some "1.79769e+308")
    (hlowest : w ≠ some "-1.79769e+308") :
    get s = ((s.getInt intMin intMax).1.map number, (s.getInt intMin intMax).2) := by
  rw [get, hs, if_neg hlargest, if_neg hlowest]

/-- White space is no digit. -/
theorem isDigit_of_isSpace {c : Char} (hc : isSpace c = true) : c.isDigit = false := by
  by_contra hdigit
  rw [(digit_ne (by simpa using hdigit)).1] at hc
  cases hc

section Streams

variable {blanks rest : List Char} (hblanks : ∀ b ∈ blanks, isSpace b = true)
  (hrest : ∀ c ∈ rest.head?, isSpace c = true)

include hblanks hrest

/-- A printed integer is read as by `getInt`. -/
theorem get_number (z : Int) :
    get { chars := blanks ++ ((toString z).toList ++ rest) } =
      if z < intMin then (some (number intMin), { chars := rest, fail := true })
      else if intMax < z then (some (number intMax), { chars := rest, fail := true })
      else (some (number z), { chars := rest }) := by
  have hword : getWord { chars := blanks ++ ((toString z).toList ++ rest) } =
      (some (toString z), { chars := rest }) := by
    have hread := getWord_text hblanks (w := (toString z).toList) ?_ ?_ hrest
    · rwa [String.ofList_toList] at hread
    · obtain ⟨c, cs, hcons, -⟩ := exists_cons_toString z
      rw [hcons]
      exact List.cons_ne_nil c cs
    · intro c hc
      rw [toList_toString, List.mem_append] at hc
      rcases hc with hsign | hdigit
      · split at hsign
        · cases List.mem_singleton.mp hsign
          rfl
        · cases hsign
      · exact (digit_ne (isDigit_toDigits hdigit)).1
  rw [get_of_getWord hword (toString_ne (by simp)) (toString_ne (by simp)),
    getInt_toString hblanks fun c hc => isDigit_of_isSpace (hrest c hc)]
  split
  · rfl
  · split <;> rfl

/-- The extreme values are read back. -/
theorem get_extreme {w : String} {x : Whole} (hw : isWord w = true)
    (hget : ∀ s rest, s.getWord = (some w, rest) → get s = (some x, rest)) :
    get { chars := blanks ++ (w.toList ++ rest) } = (some x, { chars := rest }) := by
  obtain ⟨hne, hword⟩ := isWord_iff.mp hw
  have hread := getWord_text hblanks hne hword hrest
  rw [String.ofList_toList] at hread
  exact hget _ _ hread

/-- What `0/0` prints as is no number. -/
theorem get_nan : (get { chars := blanks ++ ("-nan".toList ++ rest) }).2.fail = true := by
  obtain ⟨hne, hword⟩ := isWord_iff.mp (show isWord "-nan" = true from rfl)
  have hread := getWord_text hblanks hne hword hrest
  rw [String.ofList_toList] at hread
  have hskip : skipSpace { chars := blanks ++ ("-nan".toList ++ rest) } = "-nan".toList ++ rest :=
    @skipSpace_append blanks ("nan".toList ++ rest) '-' hblanks rfl
  -- a sign without digits
  rw [get_of_getWord hread (by simp) (by simp), getInt, if_neg (by simp), hskip]
  rfl

end Streams

/-- Whole numbers and the extreme values come back as they are. -/
theorem streams : doubles.Streams Finite id where
  get_put {x blanks rest} hx hblanks hrest := by
    cases x with
    | number z =>
        have hread := get_number hblanks hrest z
        rwa [if_neg (Int.not_lt.mpr hx.1), if_neg (Int.not_lt.mpr hx.2)] at hread
    | largest =>
        refine get_extreme hblanks hrest (w := "1.79769e+308") rfl fun s rest hs => ?_
        rw [get, hs, if_pos rfl]
        rfl
    | lowest =>
        refine get_extreme hblanks hrest (w := "-1.79769e+308") rfl fun s rest hs => ?_
        rw [get, hs, if_neg (by simp), if_pos rfl]
        rfl
    | nan => exact absurd hx id
  get_put_fail {x blanks rest} hx hblanks hrest := by
    cases x with
    | number z =>
        have hread := get_number hblanks hrest z
        by_cases hlo : z < intMin
        · rw [if_pos hlo] at hread
          exact congrArg (·.2.fail) hread
        · rw [if_neg hlo, if_pos (by
            by_contra hhi
            exact hx ⟨Int.not_lt.mp hlo, Int.not_lt.mp hhi⟩)] at hread
          exact congrArg (·.2.fail) hread
    | largest | lowest => exact absurd trivial hx
    | nan => exact get_nan hblanks hrest
  get_of_fail {s} hs := by
    have hword : s.getWord = (none, s) := by rw [getWord, if_pos hs]
    have hint : s.getInt intMin intMax = (none, s) := by rw [getInt, if_pos hs]
    rw [show doubles.get s = get s from rfl, get_of_getWord hword (by simp) (by simp), hint]
    rfl

/-- The mean of no numbers is no number. -/
theorem accumulates : doubles.Accumulates Finite where
  finite_millis t := finite_clamp _
  finite_min samples := finite_statistic _ _ trivial
  finite_max samples := finite_statistic _ _ trivial
  finite_mean {samples} h := by
    have hne : samples.map doubles.millis ≠ [] := mt List.map_eq_nil_iff.mp h
    rw [show doubles.mean (samples.map doubles.millis) = clamp _ from if_neg hne]
    exact finite_clamp _
  finite_variance samples := finite_statistic _ _ ⟨by decide, by decide⟩
  not_finite_mean := id

end Whole

namespace Client

/-- The connection opens after three milliseconds, and is closed before anything has been sent. -/
def unusedRun : List Act := [.proceed, .onOpen 3000000, .onClose, .proceed, .proceed, .proceed]

/-- The report of a client without a sample does not arrive. -/
theorem report_without_samples :
    ∃ c : Client, (telemetry .base 1 0).Reachable c ∧ c.mSetupTime = some 3000 ∧ c.mStats = [] ∧
      ∀ declared unassigned, ¬ c.RoundTrips Whole.doubles id (Whole.doubles.millis 3000)
        (extractions Whole.doubles declared (c.getStats Whole.doubles unassigned)) := by
  obtain ⟨c, hrun, hend⟩ := (telemetry .base 1 0).exists_of_exec_any unusedRun
    (fun c => c.mSetupTime = some 3000 ∧ c.mStats = []) (by decide)
  obtain ⟨hsetup, hstats⟩ := of_decide_eq_true hend
  refine ⟨c, (telemetry .base 1 0).reachable_of_exec hrun, hsetup, hstats, ?_⟩
  intro declared unassigned hread
  have hok := hread.fail
  rw [(extractions_without_samples Whole.streams Whole.accumulates declared unassigned hstats).1]
    at hok
  cases hok

/-- `report_round_trips_iff` at the end of `echoedRun`. -/
theorem report_round_trips_echoed :
    ∃ c : Client, c.mStats = [5000] ∧ ∀ declared unassigned,
      c.RoundTrips Whole.doubles id (Whole.doubles.millis 3000)
        (extractions Whole.doubles declared (c.getStats Whole.doubles unassigned)) := by
  obtain ⟨c, hrun, hend⟩ := (telemetry .base Config.oneMessage.messages 0).exists_of_exec_any
    echoedRun (fun c => c.mStats = [5000] ∧ c.mSetupTime = some 3000) (by decide)
  obtain ⟨hstats, hsetup⟩ := of_decide_eq_true hend
  refine ⟨c, hstats, fun declared unassigned => ?_⟩
  refine (report_round_trips_iff Whole.streams Whole.accumulates declared unassigned c
    hsetup).mpr ?_
  rw [hstats]
  decide

end Client

end WsPerftester
