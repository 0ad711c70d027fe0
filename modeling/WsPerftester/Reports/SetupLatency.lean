import WsPerftester.Reports.Pooling

/-! # The setup latency of an iteration

The controller feeds the setup time of every report to `setup_stats`. A client that has not been
opened has none, and from the report of a client without an echo none is extracted, so that the
local variable is fed with what the memory held. `setup_stats` sees the setup times of the opened
clients exactly if every client has been opened and has had an echo (`setup_measured_iff`). -/

namespace WsPerftester

variable {F : Type}

/-! ## What `on_open` has assigned -/

namespace Client

/-- The setup time assigned by a step. -/
def Act.assigns (conStart : Int) : Act → Option Int
  | .onOpen now => some (microseconds (now - conStart))
  | _ => none

/-- The setup time that a run leaves behind: `on_open` assigns it, the last time if it is called
again. -/
def assigned (conStart : Int) (run : List Act) : Option Int :=
  run.reverse.findSome? (Act.assigns conStart)

/-- Only `on_open` touches the setup time, and nothing the start of the connection. -/
theorem mSetupTime_moves {kind : Kind} {total : Int} {c c' : Client} {a : Act}
    (hmove : Moves kind total c a c') :
    c'.mConStart = c.mConStart ∧
      c'.mSetupTime = (a.assigns c.mConStart).or c.mSetupTime := by
  cases hmove with
  | flow _ | count _ | reset _ | send _ | onOpen | onMessage _ | discard _ _ => exact ⟨rfl, rfl⟩
  | fail _ => cases kind <;> exact ⟨rfl, rfl⟩
  | @close refused _ => cases kind <;> cases refused <;> exact ⟨rfl, rfl⟩
  | onClose => cases kind <;> exact ⟨rfl, rfl⟩
  | @onFail primaryGone => cases kind <;> cases primaryGone <;> exact ⟨rfl, rfl⟩

/-- A run ends with the setup time it has assigned. -/
theorem mSetupTime_of_exec {kind : Kind} {total conStart : Int} {run : List Act} {c : Client}
    (hrun :
      (telemetry kind total conStart).exec (telemetry kind total conStart).init run = some c) :
    c.mConStart = conStart ∧ c.mSetupTime = assigned conStart run := by
  refine TransitionSystem.exec_induction
    (P := fun run c => c.mConStart = conStart ∧ c.mSetupTime = assigned conStart run)
    ⟨rfl, rfl⟩ ?_ hrun
  rintro run c a c' - ⟨hstart, hsetup⟩ hstep
  obtain ⟨hstart', hsetup'⟩ := mSetupTime_moves (moves_of_step hstep)
  refine ⟨hstart'.trans hstart, ?_⟩
  rw [hsetup', hstart, hsetup, assigned, assigned, List.reverse_concat, List.findSome?_cons]
  cases a.assigns conStart with
  | none => rfl
  | some t => rfl

/-- Something is assigned exactly if the connection is opened. -/
theorem isSome_assigned_iff {conStart : Int} {run : List Act} :
    (assigned conStart run).isSome = true ↔ ∃ now, .onOpen now ∈ run := by
  rw [assigned, List.findSome?_isSome_iff]
  constructor
  · rintro ⟨a, ha, hassigns⟩
    cases a with
    | onOpen now => exact ⟨now, List.mem_reverse.mp ha⟩
    | proceed | send | close | onClose | onFail | onMessage | discard => cases hassigns
  · rintro ⟨now, hmem⟩
    exact ⟨.onOpen now, List.mem_reverse.mpr hmem, rfl⟩

end Client

/-- A client with the run that has led to it. -/
structure Session (kind : Client.Kind) (conf : Config) where
  conStart : Int
  run : List Client.Act
  client : Client
  hrun : (Client.telemetry kind conf.messages conStart).exec
    (Client.telemetry kind conf.messages conStart).init run = some client

namespace Session

variable {kind : Client.Kind} {conf : Config}

/-- The connection has been opened. -/
def Opened (s : Session kind conf) : Prop := ∃ now, .onOpen now ∈ s.run

/-- The setup time assigned by `on_open`. -/
def setupTime (s : Session kind conf) : Option Int := Client.assigned s.conStart s.run

/-- It is what the client ends with. -/
theorem mSetupTime_eq (s : Session kind conf) : s.client.mSetupTime = s.setupTime :=
  (Client.mSetupTime_of_exec s.hrun).2

/-- The number of echoes is an `int`. -/
theorem isInt_length (s : Session kind conf) : IsInt s.client.mStats.length :=
  Client.isInt_length_mStats ((Client.telemetry _ _ _).reachable_of_exec s.hrun)

end Session

/-! ## What is fed to `setup_stats` -/

namespace Aggregates

variable [Add F] [Mul F] [IntCast F] {dbl : Doubles F}

/-- Every `Result` is fed, whatever has been extracted from it. -/
theorem setupStats_addResult (declared : ResultLocals F) (messages : Int) (a : Aggregates F)
    (stats : String) :
    (a.addResult dbl declared messages stats).setupStats =
      a.setupStats ++ [(readResult dbl declared stats).setup] := by
  obtain ⟨died, succeeded, hadd⟩ := addResult_eq dbl declared messages a stats
  rw [hadd, accumulate]
  split
  · rfl
  · rfl

/-- The values fed by the reports in the order of their arrival. -/
theorem setupStats_addResults {messages : Int} {received : List (Report F)}
    {declared : Nat → ResultLocals F} (value : Report F → F)
    (hvalue : ∀ r ∈ received, ∀ i, (readResult dbl (declared i) (r.text dbl)).setup = value r)
    (a : Aggregates F) :
    (addResults dbl messages declared a (received.map (·.text dbl))).setupStats =
      a.setupStats ++ received.map value := by
  induction received generalizing declared a with
  | nil => exact (List.append_nil _).symm
  | cons r received ih =>
      obtain ⟨hr, hreceived⟩ := List.forall_mem_cons.mp hvalue
      rw [List.map_cons, addResults, ih fun r' hr' i => hreceived r' hr' (i + 1),
        setupStats_addResult, hr 0, List.map_cons, List.append_assoc]
      rfl

end Aggregates

namespace Report

variable {dbl : Doubles F} {finite : F → Prop} {rounded : F → F}

/-- From the report of an opened client its setup time is extracted, but only if it has had an
echo. -/
theorem setup_of_opened (hstreams : dbl.Streams finite rounded) (hstats : dbl.Accumulates finite)
    (declared : ResultLocals F) {r : Report F} {t : Int} (hcount : IsInt r.client.mStats.length)
    (hsetup : r.client.mSetupTime = some t) :
    (readResult dbl declared (r.text dbl)).setup =
      if r.client.mStats = [] then declared.setup else rounded (dbl.millis t) := by
  rw [readResult_eq, text]
  by_cases hempty : r.client.mStats = []
  · rw [if_pos hempty]
    exact (Client.extractions_without_samples hstreams hstats declared r.unassigned hempty).2
  · rw [if_neg hempty]
    exact ((Client.report_round_trips hstreams hstats declared r.unassigned hsetup hempty
      hcount).setup)

/-- As long as only results have arrived, the controller has read all of them. -/
theorem received_results (dbl : Doubles F) (reports : List (Report F)) :
    Received dbl reports 1 false (reports.map fun r => .result (r.text dbl)) := by
  obtain ⟨consumed, remaining, -, hms, hstate, -, hrest, -⟩ := Reader.collect_synchronised 1 false
    (reports.map fun r => Message.result (r.text dbl))
  have hresults : ∀ m ∈ consumed, m.isFinished = false := by
    intro m hm
    have hmem := List.mem_append_left remaining hm
    rw [← hms] at hmem
    obtain ⟨r, -, rfl⟩ := List.mem_map.mp hmem
    rfl
  have hclean : consumed.countP (·.isCleanExit) = 0 := by
    refine List.countP_eq_zero.mpr fun m hm => ?_
    have hresult := hresults m hm
    cases m with
    | finished name status => cases hresult
    | result stats => exact Bool.false_ne_true
  have hdied : consumed.countP (fun m => m.isFinished && !m.isCleanExit) = 0 := by
    refine List.countP_eq_zero.mpr fun m hm => ?_
    rw [hresults m hm, Bool.false_and]
    exact Bool.false_ne_true
  have hrunning : ¬ (Reader.collect 1 {} (Reader.boundary false
      (reports.map fun r => Message.result (r.text dbl)))).1.Exited 1 := by
    rw [hstate]
    rintro ⟨-, hover⟩
    refine hover ?_
    simp [Counters.Waiting, hclean, hdied]
  rw [hrest hrunning, List.append_nil] at hms
  refine ⟨reports, .refl _, ?_⟩
  rw [hstate, ← hms, List.filterMap_map]
  show reports.filterMap (fun r => some (r.text dbl)) = _
  rw [List.filterMap_eq_map']

end Report

/-- Filling the gaps of a list with `x` instead of `y` adds an `x` for each of them. -/
theorem count_map_ite {α β : Type} [DecidableEq β] {p : α → Prop} [DecidablePred p] {v : α → β}
    {x y : β} (hxy : x ≠ y) (l : List α) :
    (l.map fun s => if p s then x else v s).count x =
      (l.map fun s => if p s then y else v s).count x + l.countP p := by
  induction l with
  | nil => rfl
  | cons s l ih =>
      rw [List.map_cons, List.map_cons, List.count_cons, List.count_cons, List.countP_cons, ih]
      by_cases hs : p s
      · simp [hs, hxy.symm]
        omega
      · simp [hs]
        omega

namespace Session

variable [Add F] [Mul F] [IntCast F] [Zero F] {kind : Client.Kind} {conf : Config}

/-- `setup_stats` is fed with the setup times of the opened clients and with nothing else, up to the
printed precision: whatever memory that has not been assigned holds, in whatever order the results
arrive, and however they are interleaved with `Finished` notices. -/
def SetupMeasured (dbl : Doubles F) (rounded : F → F) (sessions : List (Session kind conf)) :
    Prop :=
  ∀ (reports : List (Report F)) (declared : Nat → ResultLocals F) (expected : Int)
    (leftover : Bool) (arrived : List Message),
    (reports.map (·.client)).Perm (sessions.map (·.client)) →
    Report.Received dbl reports expected leftover arrived →
    (Report.totals dbl conf.messages declared expected leftover arrived).setupStats.Perm
      ((sessions.filterMap (·.setupTime)).map fun t => rounded (dbl.millis t))

variable {dbl : Doubles F} {finite : F → Prop} {rounded : F → F}
  {sessions : List (Session kind conf)}

/-- The setup times of clients that have all been opened. -/
theorem filterMap_setupTime (hopened : ∀ s ∈ sessions, s.Opened) :
    sessions.filterMap (·.setupTime) = sessions.map (·.client.mSetupTime.getD 0) := by
  rw [← List.filterMap_eq_map]
  refine List.filterMap_congr fun s hs => ?_
  obtain ⟨t, ht⟩ := Option.isSome_iff_exists.mp (Client.isSome_assigned_iff.mpr (hopened s hs))
  rw [Function.comp_apply, mSetupTime_eq]
  exact (show s.setupTime = some t from ht) ▸ rfl

/-- Clients that have been opened and have had an echo are measured. -/
theorem setupMeasured_of_opened (hstreams : dbl.Streams finite rounded)
    (hstats : dbl.Accumulates finite)
    (hsessions : ∀ s ∈ sessions, s.Opened ∧ s.client.mStats ≠ []) :
    SetupMeasured dbl rounded sessions := by
  intro reports declared expected leftover arrived hclients ⟨received, hperm, hparsed⟩
  let value (c : Client) : F := rounded (dbl.millis (c.mSetupTime.getD 0))
  have hvalue : ∀ r ∈ received, ∀ i,
      (readResult dbl (declared i) (r.text dbl)).setup = value r.client := by
    intro r hr i
    have hmem : r.client ∈ sessions.map (·.client) :=
      hclients.mem_iff.mp (List.mem_map_of_mem (hperm.mem_iff.mp hr))
    obtain ⟨s, hs, hclient⟩ := List.mem_map.mp hmem
    obtain ⟨hopened, hechoed⟩ := hsessions s hs
    obtain ⟨t, ht⟩ := Option.isSome_iff_exists.mp (Client.isSome_assigned_iff.mpr hopened)
    have hsetup : r.client.mSetupTime = some t := by
      rw [← hclient, mSetupTime_eq]
      exact ht
    rw [Report.setup_of_opened hstreams hstats (declared i) (hclient ▸ s.isInt_length) hsetup,
      if_neg (hclient ▸ hechoed)]
    simp only [value, hsetup, Option.getD_some]
  rw [Report.totals, hparsed, Aggregates.setupStats_addResults (fun r => value r.client) hvalue]
  have hreceived := (hperm.map (·.client)).trans hclients
  have hvalues := hreceived.map value
  rw [List.map_map, List.map_map] at hvalues
  rw [filterMap_setupTime fun s hs => (hsessions s hs).1, List.map_map]
  exact hvalues

/-- What the local variables hold where the memory is filled with `x`. -/
def filledWith (x : F) : ResultLocals F :=
  { type := "", count := 0, min := x, max := x, mean := x, variance := x, setup := x }

/-- What is fed where all the memory is filled with `x`. -/
theorem perm_of_measured (hmeasured : SetupMeasured dbl rounded sessions) (x : F) :
    (sessions.map fun s =>
        (readResult dbl (filledWith x) (Report.text dbl ⟨s.client, x⟩)).setup).Perm
      ((sessions.filterMap (·.setupTime)).map fun t => rounded (dbl.millis t)) := by
  let reports : List (Report F) := sessions.map fun s => ⟨s.client, x⟩
  have hclients : (reports.map (·.client)).Perm (sessions.map (·.client)) := by
    rw [List.map_map]
    exact .refl _
  have hreceived := Report.received_results dbl reports
  have hfed := hmeasured reports (fun _ => filledWith x) 1 false _ hclients hreceived
  obtain ⟨received, hperm, hparsed⟩ := hreceived
  rw [Report.totals, hparsed, Aggregates.setupStats_addResults
    (fun r => (readResult dbl (filledWith x) (r.text dbl)).setup) fun r _ i => rfl] at hfed
  have hvalues := (hperm.map fun r => (readResult dbl (filledWith x) (r.text dbl)).setup).symm
  rw [List.map_map] at hvalues
  exact hvalues.trans hfed

/-- There are as many setup times as clients only if every client has been opened. -/
theorem opened_of_measured [Nonempty F] (hmeasured : SetupMeasured dbl rounded sessions) :
    ∀ s ∈ sessions, s.Opened := by
  obtain ⟨x⟩ := ‹Nonempty F›
  -- one value is fed for each client
  have hlength := (perm_of_measured hmeasured x).length_eq
  rw [List.length_map, List.length_map] at hlength
  intro s hs
  exact Client.isSome_assigned_iff.mp (List.filterMap_length_eq_length.mp hlength.symm s hs)

/-- What is fed does not depend on the memory only if every client has had an echo. -/
theorem echoed_of_measured [Nontrivial F] (hstreams : dbl.Streams finite rounded)
    (hstats : dbl.Accumulates finite) (hmeasured : SetupMeasured dbl rounded sessions) :
    ∀ s ∈ sessions, s.client.mStats ≠ [] := by
  classical
  have hopened := opened_of_measured hmeasured
  have hfed (x : F) : (sessions.map fun s => if s.client.mStats = [] then x
      else rounded (dbl.millis (s.client.mSetupTime.getD 0))).Perm
        ((sessions.filterMap (·.setupTime)).map fun t => rounded (dbl.millis t)) := by
    refine .trans (.of_eq (List.map_congr_left fun s hs => ?_)) (perm_of_measured hmeasured x)
    obtain ⟨t, ht⟩ := Option.isSome_iff_exists.mp (Client.isSome_assigned_iff.mpr (hopened s hs))
    have hsetup : s.client.mSetupTime = some t := s.mSetupTime_eq.trans ht
    rw [Report.setup_of_opened hstreams hstats _ s.isInt_length hsetup, hsetup, Option.getD_some]
    rfl
  -- the same values are fed whether the memory holds `x` or `y`
  obtain ⟨x, y, hxy⟩ := exists_pair_ne F
  have hcount := ((hfed x).trans (hfed y).symm).count_eq x
  rw [count_map_ite hxy, Nat.add_eq_left, List.countP_eq_zero] at hcount
  exact fun s hs hempty => hcount s hs (decide_eq_true hempty)

/-- **When the setup latency is measured over the opened connections**: exactly if every client has
been opened and has had an echo. -/
theorem setup_measured_iff [Nontrivial F] (hstreams : dbl.Streams finite rounded)
    (hstats : dbl.Accumulates finite) (sessions : List (Session kind conf)) :
    SetupMeasured dbl rounded sessions ↔
      ∀ s ∈ sessions, s.Opened ∧ s.client.mStats ≠ [] := by
  constructor
  · intro hmeasured s hs
    exact ⟨opened_of_measured hmeasured s hs, echoed_of_measured hstreams hstats hmeasured s hs⟩
  · exact setupMeasured_of_opened hstreams hstats

/-- The connection is refused. -/
def refusedRun : List Client.Act := [.proceed, .onFail true, .proceed, .proceed, .proceed]

/-- For a client that has never been opened, a setup time is fed all the same. -/
theorem setup_of_refused :
    ∃ s : Session .base Config.oneMessage, s.run = refusedRun ∧ s.setupTime = none ∧
      ¬ SetupMeasured Whole.doubles id [s] := by
  obtain ⟨c, hrun, -⟩ := (Client.telemetry .base Config.oneMessage.messages 0).exists_of_exec_any
    refusedRun (fun c => c.mFailed) (by decide)
  refine ⟨⟨0, refusedRun, c, hrun⟩, rfl, rfl, fun hmeasured => ?_⟩
  have hlength := (perm_of_measured hmeasured 0).length_eq
  exact Nat.one_ne_zero hlength

/-- `setup_measured_iff` for a client whose message has been echoed. -/
theorem setup_measured_echoed :
    ∃ s : Session .base Config.oneMessage, s.run = Client.echoedRun ∧ s.setupTime = some 3000 ∧
      SetupMeasured Whole.doubles id [s] := by
  obtain ⟨c, hrun, hend⟩ := (Client.telemetry .base Config.oneMessage.messages 0).exists_of_exec_any
    Client.echoedRun (fun c => c.mStats = [5000]) (by decide)
  have hstats : c.mStats = [5000] := of_decide_eq_true hend
  have : Nontrivial Whole := ⟨.nan, .largest, Whole.noConfusion⟩
  refine ⟨⟨0, Client.echoedRun, c, hrun⟩, rfl, rfl, ?_⟩
  refine (setup_measured_iff Whole.streams Whole.accumulates _).mpr
    (List.forall_mem_singleton.mpr ⟨⟨3000000, ?_⟩, ?_⟩)
  · show .onOpen 3000000 ∈ Client.echoedRun
    decide
  · rw [hstats]
    exact List.cons_ne_nil _ _

end Session

end WsPerftester
