import WsPerftester.Client.Links
import WsPerftester.Client.Verdict
import WsPerftester.Coordination.DoTheWork

/-! # The clients of one process

`doTheWork` runs its clients one after the other, waits for all of them and sends their results,
while the clients that have been run go about their connections. Two things keep it from its last
loop: a client whose `get_connection` has reported an error has no threads, but is waited for all
the same, and an exception in the telemetry thread of any client terminates the process
(`one_result_each_iff`). -/

namespace WsPerftester

/-- A base client as `run` starts it. -/
def Links.start (conStart : Int) : Links := { client := { mConStart := conStart } }

/-- Both threads of a client have returned: the telemetry thread is behind its loop, and the network
thread has no connection left. -/
def Links.Over (s : Links) : Prop := s.client.loc = .finished ∧ s.primary.Settled

instance (s : Links) : Decidable s.Over := inferInstanceAs (Decidable (_ ∧ _))

/-- The statement of `doTheWork` that is executed next. -/
inductive Workload.Loc
  /-- `clients[k]->run(uri)`. -/
  | running (k : Nat)
  /-- `clients[k]->wait()`. -/
  | joining (k : Nat)
  /-- The `Result` of client `k`. -/
  | reporting (k : Nat)
  /-- `doTheWork` has returned. -/
  | returned
  /-- A null pointer has been dereferenced. -/
  | crashed
  deriving DecidableEq, Repr

/-- A process at work: `clients` are those that have been run, `none` one without threads. -/
structure Workload where
  loc : Workload.Loc := .running 0
  clients : List (Option Links) := []
  sink : List Message := []
  deriving DecidableEq, Repr

/-- A step of the process. -/
inductive Workload.Act
  /-- `run` returns, with a start of the connection or because of an error of `get_connection`. -/
  | run (conStart : Option Int)
  /-- A step of client `k` or of its connection. -/
  | client (k : Nat) (a : Links.Act)
  /-- The next statement of `doTheWork` behind the second loop. -/
  | next
  deriving DecidableEq, Repr

namespace Workload

/-! ## The process -/

section Process

variable (instances messages : Int) (stats : Client → String)

/-- How many clients have been joined, so that they have no threads any more. -/
def Loc.joined : Loc → Nat
  | .running _ | .crashed => 0
  | .joining k => k
  | .reporting _ | .returned => instances.toNat

/-- A thread of some client has terminated the process. -/
def killed (w : Workload) : Bool :=
  w.clients.any fun con => con.any fun s => s.client.loc = .terminated

/-- The next statement of `doTheWork`; a join returns when the threads have. -/
def next (w : Workload) : Option Workload :=
  match w.loc with
  | .running k => if (k : Int) < instances then none else some { w with loc := .joining 0 }
  | .joining k =>
      if (k : Int) < instances then
        match w.clients[k]?.join with
        -- the thread pointers of this client are null
        | none => some { w with loc := .crashed }
        | some s => if s.Over then some { w with loc := .joining (k + 1) } else none
      else some { w with loc := .reporting 0 }
  | .reporting k =>
      if (k : Int) < instances then
        w.clients[k]?.join.map fun s =>
          { w with loc := .reporting (k + 1), sink := w.sink ++ [.result (stats s.client)] }
      else some { w with loc := .returned }
  | .returned | .crashed => none

/-- One step, of a process that is still alive. -/
def step (w : Workload) (a : Act) : Option Workload :=
  if w.killed || w.loc = .crashed then none
  else match a with
    | .run conStart =>
        match w.loc with
        | .running k =>
            if (k : Int) < instances then
              some { w with
                loc := .running (k + 1), clients := w.clients ++ [conStart.map Links.start] }
            else none
        | _ => none
    | .client k a =>
        if w.loc.joined instances ≤ k then
          (w.clients[k]?.join.bind fun s => Links.step .base messages s a).map fun s =>
            { w with clients := w.clients.set k (some s) }
        else none
    | .next => w.next instances stats

/-- **`doTheWork` among its clients.** `messages` is the number each client sends, and `stats` what
`get_stats` prints. -/
def system : TransitionSystem Workload Act where
  init := {}
  step := step instances messages stats

end Process

/-! ## What a step can do -/

/-- Everything that can happen in one step. -/
inductive Moves (instances messages : Int) (stats : Client → String) (w : Workload) :
    Act → Workload → Prop
  | run {k : Nat} {conStart : Option Int} (hloc : w.loc = .running k) (hk : (k : Int) < instances) :
      Moves instances messages stats w (.run conStart)
        { w with loc := .running (k + 1), clients := w.clients ++ [conStart.map Links.start] }
  | client {k : Nat} {a : Links.Act} {s s' : Links} (hjoined : w.loc.joined instances ≤ k)
      (hclient : w.clients[k]? = some (some s)) (h : Links.step .base messages s a = some s') :
      Moves instances messages stats w (.client k a)
        { w with clients := w.clients.set k (some s') }
  | allRun {k : Nat} (hloc : w.loc = .running k) (hk : ¬ (k : Int) < instances) :
      Moves instances messages stats w .next { w with loc := .joining 0 }
  | crash {k : Nat} (hloc : w.loc = .joining k) (hk : (k : Int) < instances)
      (hclient : w.clients[k]?.join = none) :
      Moves instances messages stats w .next { w with loc := .crashed }
  | join {k : Nat} {s : Links} (hloc : w.loc = .joining k) (hk : (k : Int) < instances)
      (hclient : w.clients[k]? = some (some s)) (hover : s.Over) :
      Moves instances messages stats w .next { w with loc := .joining (k + 1) }
  | allJoined {k : Nat} (hloc : w.loc = .joining k) (hk : ¬ (k : Int) < instances) :
      Moves instances messages stats w .next { w with loc := .reporting 0 }
  | report {k : Nat} {s : Links} (hloc : w.loc = .reporting k) (hk : (k : Int) < instances)
      (hclient : w.clients[k]? = some (some s)) :
      Moves instances messages stats w .next
        { w with loc := .reporting (k + 1), sink := w.sink ++ [.result (stats s.client)] }
  | allReported {k : Nat} (hloc : w.loc = .reporting k) (hk : ¬ (k : Int) < instances) :
      Moves instances messages stats w .next { w with loc := .returned }

/-- A statement of `doTheWork` moves as `Moves` says. -/
theorem moves_of_next {instances messages : Int} {stats : Client → String} {w w' : Workload}
    (h : w.next instances stats = some w') : Moves instances messages stats w .next w' := by
  unfold next at h
  split at h
  · next k hloc =>
      obtain ⟨hk, h⟩ := Option.ite_none_left_eq_some.mp h
      cases h
      exact .allRun hloc hk
  · next k hloc =>
      split at h
      · next hk =>
          split at h
          · next hclient => cases h; exact .crash hloc hk hclient
          · next s hclient =>
              obtain ⟨hover, h⟩ := Option.ite_none_right_eq_some.mp h
              cases h
              exact .join hloc hk (Option.join_eq_some_iff.mp hclient) hover
      · next hk => cases h; exact .allJoined hloc hk
  · next k hloc =>
      split at h
      · next hk =>
          obtain ⟨s, hclient, rfl⟩ := Option.map_eq_some_iff.mp h
          exact .report hloc hk (Option.join_eq_some_iff.mp hclient)
      · next hk => cases h; exact .allReported hloc hk
  all_goals cases h

/-- **Inversion of `step`.** A step is one of the moves of a living process. -/
theorem moves_of_step {instances messages : Int} {stats : Client → String} {w w' : Workload}
    {a : Act} (h : step instances messages stats w a = some w') :
    (w.killed = false ∧ w.loc ≠ .crashed) ∧ Moves instances messages stats w a w' := by
  obtain ⟨halive, h⟩ := Option.ite_none_left_eq_some.mp h
  refine ⟨by simpa using halive, ?_⟩
  cases a with
  | run conStart =>
      dsimp only at h
      split at h
      · next k hloc =>
          obtain ⟨hk, h⟩ := Option.ite_none_right_eq_some.mp h
          cases h
          exact .run hloc hk
      · cases h
  | client k a =>
      obtain ⟨hjoined, h⟩ := Option.ite_none_right_eq_some.mp h
      obtain ⟨s', hmoved, rfl⟩ := Option.map_eq_some_iff.mp h
      obtain ⟨s, hclient, hstep⟩ := Option.bind_eq_some_iff.mp hmoved
      exact .client hjoined (Option.join_eq_some_iff.mp hclient) hstep
  | next => exact moves_of_next h

/-! ## The clients -/

section Invariant

variable {instances messages : Int} {stats : Client → String} {w w' : Workload} {a : Act}

/-- How many clients have been run. -/
def Loc.launched (instances : Int) : Loc → Nat
  | .running k => k
  | _ => instances.toNat

/-- How many clients have been reported. -/
def Loc.reported (instances : Int) : Loc → Nat
  | .reporting k => k
  | .returned => instances.toNat
  | _ => 0

/-- The loop variable of the current loop. -/
def Loc.position : Loc → Nat
  | .running k | .joining k | .reporting k => k
  | .returned | .crashed => 0

/-- The results of clients, in order. -/
def results (stats : Client → String) (clients : List (Option Links)) : List Message :=
  clients.filterMap fun con => con.map fun s => .result (stats s.client)

/-- The clients joined so far are over, the results sent are theirs, and only a client without
threads makes the process crash. -/
structure Inv (instances : Int) (stats : Client → String) (w : Workload) : Prop where
  length : w.clients.length = w.loc.launched instances
  bound : w.loc.position ≤ instances.toNat
  done : ∀ j < w.loc.joined instances, ∃ s, w.clients[j]? = some (some s) ∧ s.Over
  sink : w.sink = results stats (w.clients.take (w.loc.reported instances))
  null : w.loc = .crashed → none ∈ w.clients

/-- A client is reported after it has been joined. -/
theorem Inv.reported_le (h : Inv instances stats w) :
    w.loc.reported instances ≤ w.loc.joined instances := by
  have hbound := h.bound
  cases hloc : w.loc <;> simp_all [Loc.position, Loc.reported, Loc.joined]

/-- In the loop that runs the clients, none has been joined or reported. -/
theorem Inv.at_running {k : Nat} (h : Inv instances stats w) (hloc : w.loc = .running k) :
    w.clients.length = k ∧ k ≤ instances.toNat ∧ w.sink = [] := by
  obtain ⟨hlength, hbound, -, hsink, -⟩ := h
  rw [hloc] at hlength hbound hsink
  exact ⟨hlength, hbound, hsink⟩

/-- In the loop that joins them, those in front of the loop variable are over. -/
theorem Inv.at_joining {k : Nat} (h : Inv instances stats w) (hloc : w.loc = .joining k) :
    w.clients.length = instances.toNat ∧ k ≤ instances.toNat ∧
      (∀ j < k, ∃ s, w.clients[j]? = some (some s) ∧ s.Over) ∧ w.sink = [] := by
  obtain ⟨hlength, hbound, hdone, hsink, -⟩ := h
  rw [hloc] at hlength hbound hdone hsink
  exact ⟨hlength, hbound, hdone, hsink⟩

/-- In the last loop all are over, and those in front of the loop variable have been reported. -/
theorem Inv.at_reporting {k : Nat} (h : Inv instances stats w) (hloc : w.loc = .reporting k) :
    w.clients.length = instances.toNat ∧ k ≤ instances.toNat ∧
      (∀ j < instances.toNat, ∃ s, w.clients[j]? = some (some s) ∧ s.Over) ∧
      w.sink = results stats (w.clients.take k) := by
  obtain ⟨hlength, hbound, hdone, hsink, -⟩ := h
  rw [hloc] at hlength hbound hdone hsink
  exact ⟨hlength, hbound, hdone, hsink⟩

/-- Every step keeps the invariant. -/
theorem Inv.moves (h : Inv instances stats w) (hmove : Moves instances messages stats w a w') :
    Inv instances stats w' := by
  cases hmove with
  | @run k conStart hloc hk =>
      obtain ⟨hlength, hbound, hsink⟩ := h.at_running hloc
      exact {
        length := by rw [List.length_append, hlength]; rfl
        bound := by show k + 1 ≤ instances.toNat; omega
        done := fun j hj => absurd hj (Nat.not_lt_zero j)
        sink := hsink
        null := fun hcrash => by cases hcrash }
  | @client k a s s' hjoined hclient _ =>
      have hlength : (w.clients.set k (some s')).length = w.loc.launched instances := by
        rw [List.length_set, h.length]
      refine ⟨hlength, h.bound, fun j hj => ?_, ?_, fun hcrash => ?_⟩
      · -- a client that has been joined does not move
        have hne : k ≠ j := Nat.ne_of_gt (Nat.lt_of_lt_of_le hj hjoined)
        rw [List.getElem?_set_ne hne]
        exact h.done j hj
      · show w.sink = _
        rw [List.take_set_of_le (Nat.le_trans h.reported_le hjoined)]
        exact h.sink
      · obtain ⟨j, hj⟩ := List.mem_iff_getElem?.mp (h.null hcrash)
        have hne : k ≠ j := by
          rintro rfl
          rw [hclient] at hj
          cases hj
        exact List.mem_iff_getElem?.mpr ⟨j, by rw [List.getElem?_set_ne hne, hj]⟩
  | @allRun k hloc hk =>
      obtain ⟨hlength, hbound, hsink⟩ := h.at_running hloc
      exact {
        length := by show w.clients.length = instances.toNat; omega
        bound := Nat.zero_le _
        done := fun j hj => absurd hj (Nat.not_lt_zero j)
        sink := hsink
        null := fun hcrash => by cases hcrash }
  | @crash k hloc hk hclient =>
      obtain ⟨hlength, -, -, hsink⟩ := h.at_joining hloc
      refine ⟨hlength, Nat.zero_le _, fun j hj => absurd hj (Nat.not_lt_zero j), hsink, fun _ => ?_⟩
      have hlt : k < w.clients.length := by omega
      rw [List.getElem?_eq_getElem hlt] at hclient
      exact (show w.clients[k] = none from hclient) ▸ List.getElem_mem hlt
  | @join k s hloc hk hclient hover =>
      obtain ⟨hlength, hbound, hdone, hsink⟩ := h.at_joining hloc
      refine ⟨hlength, ?_, fun j hj => ?_, hsink, fun hcrash => by cases hcrash⟩
      · show k + 1 ≤ instances.toNat
        omega
      · rcases Nat.lt_succ_iff_lt_or_eq.mp hj with hj | rfl
        · exact hdone j hj
        · exact ⟨s, hclient, hover⟩
  | @allJoined k hloc hk =>
      obtain ⟨hlength, hbound, hdone, hsink⟩ := h.at_joining hloc
      -- the loop variable has reached the number of clients
      obtain rfl : k = instances.toNat := by omega
      exact ⟨hlength, Nat.zero_le _, hdone, hsink, fun hcrash => by cases hcrash⟩
  | @report k s hloc hk hclient =>
      obtain ⟨hlength, hbound, hdone, hsink⟩ := h.at_reporting hloc
      refine ⟨hlength, ?_, hdone, ?_, fun hcrash => by cases hcrash⟩
      · show k + 1 ≤ instances.toNat
        omega
      · simp [Loc.reported, results, List.take_add_one, hclient, hsink]
  | @allReported k hloc hk =>
      obtain ⟨hlength, hbound, hdone, hsink⟩ := h.at_reporting hloc
      obtain rfl : k = instances.toNat := by omega
      exact ⟨hlength, Nat.zero_le _, hdone, hsink, fun hcrash => by cases hcrash⟩

/-- The invariant of a run. -/
theorem inv_of_exec {run : List Act} (hrun :
    (system instances messages stats).exec (system instances messages stats).init run = some w) :
    Inv instances stats w := by
  refine ((system instances messages stats).reachable_of_exec hrun).invariant
    (P := Inv instances stats) ?_ fun w a w' h hstep => h.moves (moves_of_step hstep).2
  exact ⟨rfl, Nat.zero_le _, fun j hj => absurd hj (Nat.not_lt_zero j), rfl, fun h => by cases h⟩

end Invariant

/-! ## What keeps `doTheWork` from its last loop -/

section Events

variable {instances messages : Int} {stats : Client → String} {w w' : Workload} {a : Act}

/-- Only a refused close takes the process down. -/
theorem terminated_iff_close {c c' : Client} {b : Client.Act}
    (hmove : Client.Moves .base messages c b c') (halive : c.loc ≠ .terminated) :
    c'.loc = .terminated ↔ b = .close true := by
  cases hmove with
  | flow hflow => cases hflow <;> simp [Client.goto]
  | count | reset | fail => simp [Client.fail, Client.goto]
  | @send now primaryError signalingError =>
      cases primaryError <;> simp [Client.send, Client.sendMessage]
  | @close refused => cases refused <;> simp [Client.close, Client.goto]
  | onOpen | onClose | onFail => exact iff_of_false halive Client.Act.noConfusion
  | onMessage | discard => exact iff_of_false halive Client.Act.noConfusion

/-- The same for a client among its connections. -/
theorem terminated_links_iff {s s' : Links} {b : Links.Act}
    (h : Links.step .base messages s b = some s') :
    s'.client.loc = .terminated ↔ b = .thread (.close true) := by
  obtain ⟨⟨-, halive⟩, hmove⟩ := Links.moves_of_step h
  by_cases hb : ∃ c, b = .thread c
  · obtain ⟨c, rfl⟩ := hb
    cases hmove with
    | thread _ hstep =>
        rw [terminated_iff_close (Client.moves_of_step hstep) halive, Links.Act.thread.injEq]
  · rw [Links.loc_moves hmove fun c hc => hb ⟨c, hc⟩]
    exact iff_of_false halive fun hc => hb ⟨_, hc⟩

/-- A terminated client has a place in the list. -/
theorem killed_iff :
    w.killed = true ↔
      ∃ (k : Nat) (s : Links), w.clients[k]? = some (some s) ∧ s.client.loc = .terminated := by
  simp only [killed, List.any_eq_true, Option.any_eq_true, decide_eq_true_eq]
  constructor
  · rintro ⟨con, hmem, s, rfl, hs⟩
    obtain ⟨k, hk⟩ := List.mem_iff_getElem?.mp hmem
    exact ⟨k, s, hk, hs⟩
  · rintro ⟨k, s, hk, hs⟩
    exact ⟨some s, List.mem_of_getElem? hk, s, rfl, hs⟩

/-- A refused close of some client. -/
def Act.IsRefusedClose (a : Act) : Prop := ∃ k, a = .client k (.thread (.close true))

/-- A living process is killed by a refused close. -/
theorem killed_moves (halive : w.killed = false)
    (hmove : Moves instances messages stats w a w') : w'.killed = true ↔ a.IsRefusedClose := by
  have hsame (hclients : w'.clients = w.clients) (ha : ¬ a.IsRefusedClose) :
      w'.killed = true ↔ a.IsRefusedClose := by
    rw [killed, hclients, ← killed, halive]
    exact iff_of_false Bool.false_ne_true ha
  cases hmove with
  | @run k conStart =>
      -- a client is not terminated when it is started
      refine iff_of_false ?_ (by simp [Act.IsRefusedClose])
      rw [killed, List.any_append, ← killed, halive]
      cases conStart <;> simp [Links.start]
  | @client k b s s' _ hclient hstep =>
      have hothers : ∀ (j : Nat) (t : Links), w.clients[j]? = some (some t) →
          t.client.loc ≠ .terminated := by
        intro j t hj ht
        rw [killed_iff.mpr ⟨j, t, hj, ht⟩] at halive
        cases halive
      have hlt : k < w.clients.length := (List.getElem?_eq_some_iff.mp hclient).1
      rw [killed_iff, show (Act.client k b).IsRefusedClose ↔ b = .thread (.close true) by
        simp [Act.IsRefusedClose], ← terminated_links_iff hstep]
      constructor
      · rintro ⟨j, t, hj, ht⟩
        by_cases hjk : k = j
        · subst hjk
          rw [List.getElem?_set_self hlt] at hj
          cases hj
          exact ht
        · rw [List.getElem?_set_ne hjk] at hj
          exact absurd ht (hothers j t hj)
      · exact fun ht => ⟨k, s', List.getElem?_set_self hlt, ht⟩
  | allRun | crash | join | allJoined | report | allReported =>
      exact hsame rfl (by simp [Act.IsRefusedClose])

/-- A client without threads is one whose `get_connection` has reported an error. -/
theorem none_mem_moves (hmove : Moves instances messages stats w a w') :
    none ∈ w'.clients ↔ none ∈ w.clients ∨ a = .run none := by
  cases hmove with
  | @run k conStart => cases conStart <;> simp
  | @client k b s s' _ hclient _ =>
      have hlt : k < w.clients.length := (List.getElem?_eq_some_iff.mp hclient).1
      rw [or_iff_left Act.noConfusion, List.mem_iff_getElem?, List.mem_iff_getElem?]
      refine exists_congr fun j => ?_
      by_cases hjk : k = j
      · rw [← hjk, List.getElem?_set_self hlt, hclient]
        simp
      · rw [List.getElem?_set_ne hjk]
  | allRun | crash | join | allJoined | report | allReported =>
      exact (or_iff_left Act.noConfusion).symm

/-- **The clients are clients.** What a client of the process does is a run of its own among its
connections. -/
theorem reachable_clients (hw : (system instances messages stats).Reachable w) :
    ∀ s, some s ∈ w.clients →
      ∃ conStart, (Links.system .base messages conStart).Reachable s := by
  refine hw.invariant (P := fun w => ∀ s, some s ∈ w.clients →
    ∃ conStart, (Links.system .base messages conStart).Reachable s) (by simp [system])
    fun w a w' ih hstep s hs => ?_
  have hmove : Moves instances messages stats w a w' := (moves_of_step hstep).2
  cases hmove with
  | @run k conStart =>
      rcases List.mem_append.mp hs with hs | hs
      · exact ih s hs
      · obtain ⟨t, -, rfl⟩ := Option.map_eq_some_iff.mp (List.mem_singleton.mp hs).symm
        exact ⟨t, .init⟩
  | client _ hclient hmoved =>
      rcases List.mem_or_eq_of_mem_set hs with hs | hs
      · exact ih s hs
      · obtain ⟨conStart, hreachable⟩ := ih _ (List.mem_of_getElem? hclient)
        rw [Option.some.inj hs]
        exact ⟨conStart, hreachable.step hmoved⟩
  | allRun | crash | join | allJoined | report | allReported => exact ih s hs

/-- What the state tells about the steps so far. -/
theorem events_of_exec {run : List Act} (hrun :
    (system instances messages stats).exec (system instances messages stats).init run = some w) :
    (none ∈ w.clients ↔ .run none ∈ run) ∧ (w.killed = true ↔ ∃ a ∈ run, a.IsRefusedClose) := by
  refine TransitionSystem.exec_induction (P := fun run w => (none ∈ w.clients ↔ .run none ∈ run) ∧
    (w.killed = true ↔ ∃ a ∈ run, a.IsRefusedClose)) ?_ ?_ hrun
  · exact ⟨by simp [system], by simp [system, killed]⟩
  · rintro run w a w' - ⟨hnone, hkilled⟩ hstep
    obtain ⟨⟨halive, -⟩, hmove⟩ := moves_of_step hstep
    rw [halive] at hkilled
    have hbefore : ¬ ∃ a ∈ run, a.IsRefusedClose := fun h => Bool.false_ne_true (hkilled.mpr h)
    constructor
    · rw [none_mem_moves hmove, hnone, List.mem_append, List.mem_singleton, eq_comm]
    · rw [killed_moves halive hmove]
      constructor
      · exact fun ha => ⟨a, by simp, ha⟩
      · rintro ⟨b, hb, hclose⟩
        rcases List.mem_append.mp hb with hb | hb
        · exact absurd ⟨b, hb, hclose⟩ hbefore
        · exact List.mem_singleton.mp hb ▸ hclose

end Events

/-! ## One result for each client -/

section Results

variable {instances messages : Int} {stats : Client → String} {w : Workload}

/-- The statements of `doTheWork` up to its return. -/
def Loc.left (instances : Int) : Loc → Nat
  | .running _ => 2 * instances.toNat + 3
  | .joining k => instances.toNat - k + instances.toNat + 2
  | .reporting k => instances.toNat - k + 1
  | .returned | .crashed => 0

/-- Every client has been run with a connection, and both its threads have returned. -/
def AllOver (instances : Int) (w : Workload) : Prop :=
  w.clients.length = instances.toNat ∧ ∀ con ∈ w.clients, ∃ s, con = some s ∧ s.Over

/-- `doTheWork` has returned, every client had its threads, and the messages handed to the sink are
one `Result` for each client, in order. -/
def OneResultEach (instances : Int) (stats : Client → String) (w : Workload) : Prop :=
  w.loc = .returned ∧ ∃ finals : List Links, finals.length = instances.toNat ∧
    w.clients = finals.map some ∧ w.sink = finals.map fun s => .result (stats s.client)

/-- Clients that are over have done no harm. -/
theorem AllOver.harmless (hall : w.AllOver instances) :
    none ∉ w.clients ∧ w.killed = false := by
  constructor
  · intro hnone
    obtain ⟨s, hs, -⟩ := hall.2 none hnone
    cases hs
  · by_contra hnot
    obtain ⟨k, s, hk, hs⟩ := killed_iff.mp (by simpa using hnot)
    obtain ⟨t, ht, hfinished, -⟩ := hall.2 _ (List.mem_of_getElem? hk)
    cases ht
    rw [hs] at hfinished
    cases hfinished

/-- `doTheWork` returns only behind all clients. -/
theorem Inv.allOver (hinv : Inv instances stats w) (hloc : w.loc = .returned) :
    w.AllOver instances := by
  have hlength := hinv.length
  have hdone := hinv.done
  rw [hloc] at hlength hdone
  refine ⟨hlength, fun con hmem => ?_⟩
  obtain ⟨j, hj⟩ := List.mem_iff_getElem?.mp hmem
  obtain ⟨s, hs, hover⟩ := hdone j (Nat.lt_of_lt_of_eq (List.getElem?_eq_some_iff.mp hj).1 hlength)
  exact ⟨s, Option.some.inj (hj.symm.trans hs), hover⟩

/-- A list without `none` is a list of values. -/
theorem exists_eq_map_some {α : Type} {xs : List (Option α)} (h : none ∉ xs) :
    ∃ ys : List α, xs = ys.map some := by
  induction xs with
  | nil => exact ⟨[], rfl⟩
  | cons x xs ih =>
      obtain ⟨ys, rfl⟩ := ih fun hmem => h (List.mem_cons_of_mem x hmem)
      cases x with
      | none => exact absurd List.mem_cons_self h
      | some y => exact ⟨y :: ys, rfl⟩

/-- When it returns it has sent one result for each client. -/
theorem Inv.oneResultEach (hinv : Inv instances stats w) (hloc : w.loc = .returned) :
    w.OneResultEach instances stats := by
  have hall := hinv.allOver hloc
  obtain ⟨finals, hfinals⟩ := exists_eq_map_some hall.harmless.1
  have hsink := hinv.sink
  rw [hloc, show Loc.returned.reported instances = w.clients.length from hall.1.symm,
    List.take_length, hfinals, results, List.filterMap_map] at hsink
  refine ⟨hloc, finals, by rw [← hall.1, hfinals, List.length_map], hfinals, ?_⟩
  rw [hsink]
  exact congrFun List.filterMap_eq_map _

/-- A statement of `doTheWork` leaves the clients alone and brings it nearer to its end. -/
theorem moves_next {w' : Workload} (hbound : w.loc.position ≤ instances.toNat)
    (hmove : Moves instances messages stats w .next w') :
    w'.clients = w.clients ∧ w'.loc.left instances < w.loc.left instances := by
  cases hmove with
  | allRun hloc | crash hloc | join hloc | allJoined hloc | report hloc | allReported hloc =>
      rw [hloc] at hbound ⊢
      refine ⟨rfl, ?_⟩
      simp only [Loc.left, Loc.position] at hbound ⊢
      omega

/-- Once all clients are over, no statement of `doTheWork` has to wait. -/
theorem exists_next (hinv : Inv instances stats w) (hall : w.AllOver instances)
    (hloc : w.loc ≠ .returned) : ∃ w', step instances messages stats w .next = some w' := by
  obtain ⟨hnone, hkilled⟩ := hall.harmless
  have hcrashed : w.loc ≠ .crashed := fun h => hnone (hinv.null h)
  obtain ⟨hlength, hover⟩ := hall
  have hclient (k : Nat) (hk : (k : Int) < instances) :
      ∃ s, w.clients[k]?.join = some s ∧ s.Over := by
    have hlt : k < w.clients.length := by omega
    obtain ⟨s, hs, hdone⟩ := hover _ (List.getElem_mem hlt)
    exact ⟨s, by rw [List.getElem?_eq_getElem hlt, hs]; rfl, hdone⟩
  rw [step, if_neg (by simp [hkilled, hcrashed])]
  show ∃ w', next instances stats w = some w'
  cases hw : w.loc with
  | running k =>
      have hrun : w.clients.length = k := (hinv.at_running hw).1
      refine ⟨{ w with loc := .joining 0 }, ?_⟩
      simp only [next, hw]
      rw [if_neg (by omega)]
  | joining k =>
      by_cases hk : (k : Int) < instances
      · obtain ⟨s, hs, hdone⟩ := hclient k hk
        exact ⟨{ w with loc := .joining (k + 1) }, by simp only [next, hw, hs, if_pos hk,
          if_pos hdone]⟩
      · exact ⟨{ w with loc := .reporting 0 }, by simp only [next, hw, if_neg hk]⟩
  | reporting k =>
      by_cases hk : (k : Int) < instances
      · obtain ⟨s, hs, -⟩ := hclient k hk
        refine ⟨{ w with
          loc := .reporting (k + 1), sink := w.sink ++ [.result (stats s.client)] }, ?_⟩
        simp only [next, hw, hs, if_pos hk, Option.map_some]
      · exact ⟨{ w with loc := .returned }, by simp only [next, hw, if_neg hk]⟩
  | returned => exact absurd hw hloc
  | crashed => exact absurd hw hcrashed

/-- Left to itself, it returns. -/
theorem exists_returned (hinv : Inv instances stats w) (hall : w.AllOver instances) :
    ∃ m w', (system instances messages stats).exec w (List.replicate m .next) = some w' ∧
      w'.OneResultEach instances stats := by
  induction hleft : w.loc.left instances using Nat.strong_induction_on generalizing w with
  | _ left ih =>
      by_cases hloc : w.loc = .returned
      · exact ⟨0, w, rfl, hinv.oneResultEach hloc⟩
      · obtain ⟨t, hstep⟩ := @exists_next instances messages stats w hinv hall hloc
        have hmove : Moves instances messages stats w .next t := (moves_of_step hstep).2
        obtain ⟨hclients, hlt⟩ := moves_next hinv.bound hmove
        obtain ⟨m, w', hrest, hend⟩ := ih _ (hleft ▸ hlt) (hinv.moves hmove)
          (by rwa [AllOver, hclients]) rfl
        refine ⟨m + 1, w', ?_, hend⟩
        rw [List.replicate_succ, TransitionSystem.exec_cons]
        exact Option.bind_eq_some_iff.mpr ⟨t, hstep, hrest⟩

/-- Every instance has had its outcome: it has no threads, or they have returned, or one of them has
terminated the process; or the process has crashed. -/
def Ended (instances : Int) (w : Workload) : Prop :=
  w.killed = true ∨ w.loc = .crashed ∨
    w.clients.length = instances.toNat ∧ ∀ s, some s ∈ w.clients → s.Over

/-- **When every instance yields a result.** Every instance has been given a connection, and no
client has been refused its close. -/
theorem one_result_each_iff (instances messages : Int) (stats : Client → String) {run : List Act}
    {w : Workload} (hrun :
      (system instances messages stats).exec (system instances messages stats).init run = some w)
    (hended : w.Ended instances) :
    (∃ m w', (system instances messages stats).exec w (List.replicate m .next) = some w' ∧
      w'.OneResultEach instances stats) ↔
    .run none ∉ run ∧ ∀ k, .client k (.thread (.close true)) ∉ run := by
  obtain ⟨hnone, hkilled⟩ := events_of_exec hrun
  constructor
  · rintro ⟨m, w', hrest, hloc, -⟩
    have hwhole : (system instances messages stats).exec (system instances messages stats).init
        (run ++ List.replicate m .next) = some w' := by
      rw [TransitionSystem.exec_append, hrun]
      exact hrest
    obtain ⟨hnone', hkilled'⟩ := events_of_exec hwhole
    obtain ⟨hthreads, halive⟩ := ((inv_of_exec hwhole).allOver hloc).harmless
    refine ⟨fun h => hthreads (hnone'.mpr (List.mem_append_left _ h)), fun k h => ?_⟩
    rw [hkilled'.mpr ⟨_, List.mem_append_left _ h, k, rfl⟩] at halive
    cases halive
  · rintro ⟨hconnected, hclosed⟩
    have hinv := inv_of_exec hrun
    have hthreads : none ∉ w.clients := fun h => hconnected (hnone.mp h)
    rcases hended with hdead | hcrashed | ⟨hlength, hover⟩
    · obtain ⟨a, ha, k, rfl⟩ := hkilled.mp hdead
      exact absurd ha (hclosed k)
    · exact absurd (hinv.null hcrashed) hthreads
    · refine exists_returned hinv ⟨hlength, fun con hmem => ?_⟩
      cases con with
      | none => exact absurd hmem hthreads
      | some s => exact ⟨s, rfl, hover s hmem⟩

end Results

/-- Client `k` sends its only message, receives the echo and closes the connection. -/
def completedRun (k : Nat) : List Act :=
  [.thread .proceed, .opens .primary 2000000 false, .thread .proceed, .thread .proceed,
    .thread (.send 3000000 false false), .thread (.onMessage 0 9000000), .thread .proceed,
    .thread .proceed, .thread (.close false), .closes .primary, .handles .primary].map (.client k)

/-- The first of two instances gets no connection, the second one completes. -/
def refusedRun : List Act := [.run none, .run (some 0)] ++ completedRun 1 ++ [.next, .next]

/-- `wait` on the first client crashes the process, and the result of the second one is lost. -/
theorem healthy_result_lost :
    ∃ w : Workload, (system 2 1 (Client.getStats wholeMillis 0)).exec {} refusedRun = some w ∧
      w.loc = .crashed ∧ w.sink = [] ∧ (∃ s : Links, w.clients = [none, some s] ∧ s.Over) ∧
      ¬ ∃ m w', (system 2 1 (Client.getStats wholeMillis 0)).exec w (List.replicate m .next) =
        some w' ∧ w'.OneResultEach 2 (Client.getStats wholeMillis 0) := by
  obtain ⟨w, hrun, hend⟩ := (system 2 1 (Client.getStats wholeMillis 0)).exists_of_exec_any
    refusedRun (fun w => w.loc = .crashed ∧ w.sink = [] ∧ w.clients.length = 2 ∧
      w.clients[0]? = some none ∧ (w.clients[1]?.join.any fun s => s.Over)) (by decide)
  obtain ⟨hloc, hsink, hlength, hnull, hover⟩ := of_decide_eq_true hend
  obtain ⟨s, hs, hdone⟩ := (Option.any_eq_true _ _).mp hover
  refine ⟨w, hrun, hloc, hsink, ⟨s, ?_, of_decide_eq_true hdone⟩, ?_⟩
  · obtain ⟨con, con', hclients⟩ := List.length_eq_two.mp hlength
    rw [hclients] at hnull hs ⊢
    rw [Option.some.inj hnull, show con' = some s from hs]
  · rintro ⟨m, w', hrest, hreturned, -⟩
    cases m with
    | zero =>
        cases hrest
        rw [hloc] at hreturned
        cases hreturned
    | succ m =>
        -- a crashed process makes no step
        obtain ⟨t, hstep, -⟩ := Option.bind_eq_some_iff.mp hrest
        have hstep : step 2 1 (Client.getStats wholeMillis 0) w .next = some t := hstep
        exact (moves_of_step hstep).1.2 hloc

/-- Client `k` cannot connect, and its telemetry thread notices. -/
def failedRun (k : Nat) : List Act :=
  [.thread .proceed, .fails .primary, .handles .primary, .thread .proceed, .thread .proceed,
    .thread .proceed].map (.client k)

/-- Of two instances the first one cannot connect and the second one completes; both report. -/
theorem one_result_each_mixed :
    ∃ w : Workload, w.clients.map (·.map fun s => s.client.mFailed) = [some true, some false] ∧
      ∃ m w', (system 2 1 (Client.getStats wholeMillis 0)).exec w (List.replicate m .next) =
        some w' ∧ w'.OneResultEach 2 (Client.getStats wholeMillis 0) := by
  obtain ⟨w, hrun, hend⟩ := (system 2 1 (Client.getStats wholeMillis 0)).exists_of_exec_any
    ([.run (some 0), .run (some 0)] ++ failedRun 0 ++ completedRun 1)
    (fun w => w.clients.map (·.map fun s => s.client.mFailed) = [some true, some false] ∧
      w.clients.length = 2 ∧ w.clients.all fun con => con.all fun s : Links => decide s.Over)
    (by decide)
  obtain ⟨hverdicts, hlength, hover⟩ := of_decide_eq_true hend
  have hended : w.Ended 2 := .inr (.inr ⟨hlength, fun s hs =>
    of_decide_eq_true (List.all_eq_true.mp hover _ hs)⟩)
  refine ⟨w, hverdicts, (one_result_each_iff 2 1 _ hrun hended).mpr ⟨by decide, fun k hk => ?_⟩⟩
  simp [failedRun, completedRun] at hk

/-! ## The loops of `doTheWork` -/

section Loops

variable {instances messages : Int} {stats : Client → String} {w : Workload}

/-- What the loops meet with in a run that has led to `w`. -/
def surroundings (stats : Client → String) (w : Workload) : Surroundings where
  throws _ _ := false
  refused k := w.clients[k]?.join.isNone
  stats k := (w.clients[k]?.join.map fun s => stats s.client).getD ""

/-- **The interleaved run agrees with the loops.** A process that has returned or crashed has handed
to the sink what `doTheWork` hands to it, and has crashed exactly if `doTheWork` does. -/
theorem sink_eq_doTheWork {run : List Act} (hrun :
    (system instances messages stats).exec (system instances messages stats).init run = some w)
    (hstopped : w.loc = .returned ∨ w.loc = .crashed) :
    (((w.surroundings stats).ending instances).1 = .error .nullPointer ↔ w.loc = .crashed) ∧
      ((w.surroundings stats).ending instances).2.sink = w.sink.map Message.frames := by
  have hinv := inv_of_exec hrun
  have hquiet := ((w.surroundings stats).doTheWork_quiet (fun _ _ => rfl) instances).ending rfl
  rcases hstopped with hloc | hloc
  · -- every client has its threads, so no join meets a null pointer
    obtain ⟨-, finals, hlength, hclients, hsink⟩ := hinv.oneResultEach hloc
    have haccepted : ∀ k < instances.toNat, (w.surroundings stats).refused k = false := by
      intro k hk
      simp [surroundings, hclients, hlength, hk]
    rcases hquiet with ⟨v, hend, -, hv⟩ | ⟨e, v, -, -, ⟨k, hk, hrefused⟩, -⟩
    · rw [Surroundings.ending, hend, hloc]
      refine ⟨by simp, hv.trans ?_⟩
      rw [hsink, Surroundings.results, ← hlength, List.map_map]
      refine List.ext_getElem (by simp) fun k hk hk' => ?_
      simp only [List.length_map, List.length_range] at hk
      simp [surroundings, hclients, hk]
    · rw [haccepted k hk] at hrefused
      cases hrefused
  · obtain ⟨k, hk⟩ := List.mem_iff_getElem?.mp (hinv.null hloc)
    have hlength := hinv.length
    have hsink := hinv.sink
    rw [hloc] at hlength hsink
    have hlt : k < instances.toNat :=
      Nat.lt_of_lt_of_eq (List.getElem?_eq_some_iff.mp hk).1 hlength
    have hrefused : (w.surroundings stats).refused k = true := by simp [surroundings, hk]
    rcases hquiet with ⟨v, -, hall, -⟩ | ⟨e, v, hend, rfl, -, hv⟩
    · rw [hall k hlt] at hrefused
      cases hrefused
    · rw [Surroundings.ending, hend, hloc, hsink]
      exact ⟨by simp, hv⟩

end Loops

end Workload

end WsPerftester
