import WsPerftester.Lib.Population
import WsPerftester.Reports.Service

/-! # `doTheWork` returns

A process whose clients all get a connection to a healthy server. Each of its clients then goes
through a run of `Links.healthy` of its own, so the process neither crashes nor is terminated, and
the clients move on independently of each other. As long as `doTheWork` waits in `wait`, the helpful
party is one of the client it waits for; otherwise it is the main thread. Hence every fair execution
comes to the end of `doTheWork`, with one result for each client (`work_returns`). -/

namespace WsPerftester

open TransitionSystem Population

namespace Workload

/-- What the environment of a process allows: every `run` gets a connection, and every client is
served by a healthy server. -/
def healthyStep (w : Workload) : Act → Bool
  | .run conStart => conStart.isSome
  | .client k a => w.clients[k]?.join.any fun s => s.healthyStep a
  | .next => true

/-- `doTheWork` among clients of a healthy server. -/
def healthy (instances messages : Int) (stats : Client → String) : TransitionSystem Workload Act :=
  (system instances messages stats).restrict healthyStep

section Healthy

variable {instances messages : Int} {stats : Client → String} {w w' : Workload} {a : Act}

/-- A step of such a process is a move that its environment allows. -/
theorem healthy_moves (h : (healthy instances messages stats).step w a = some w') :
    w.healthyStep a = true ∧ Moves instances messages stats w a w' := by
  obtain ⟨hok, hstep⟩ := ((system instances messages stats).restrict_step).mp h
  exact ⟨hok, (moves_of_step hstep).2⟩

/-- Every client has its threads, and is served by a healthy server. -/
def Served (messages : Int) (w : Workload) : Prop :=
  ∀ con ∈ w.clients, ∃ s conStart, con = some s ∧ (Links.healthy messages conStart).Reachable s

/-- **The clients are served.** What a client of the process does is a run of its own. -/
theorem served_of_reachable (hw : (healthy instances messages stats).Reachable w) :
    w.Served messages := by
  refine hw.invariant (P := Served messages) (by simp [Served, healthy, system, restrict]) ?_
  intro w a w' hserved h
  obtain ⟨hok, hmove⟩ := healthy_moves h
  cases hmove with
  | @run k conStart =>
      obtain ⟨t, rfl⟩ := Option.isSome_iff_exists.mp hok
      intro con hcon
      rcases List.mem_append.mp hcon with hcon | hcon
      · exact hserved con hcon
      · rw [List.mem_singleton.mp hcon]
        exact ⟨Links.start t, t, rfl, .init⟩
  | @client k b s s' _ hclient hstep =>
      have hallowed : s.healthyStep b = true := by simpa [healthyStep, hclient] using hok
      apply forall_set hserved
      obtain ⟨t, conStart, ht, hreach⟩ := hserved _ (List.mem_of_getElem? hclient)
      cases ht
      exact ⟨s', conStart, rfl, hreach.step ((restrict_step _).mpr ⟨hallowed, hstep⟩)⟩
  | allRun | crash | join | allJoined | report | allReported => exact hserved

/-- What holds of a process at work. -/
theorem inv_of_reachable (hw : (healthy instances messages stats).Reachable w) :
    Inv instances stats w := by
  obtain ⟨run, hrun⟩ := (hw.of_restrict : (system instances messages stats).Reachable w).exists_exec
  exact inv_of_exec hrun

/-- The process lives: no client has terminated it, and none is without threads. -/
theorem Served.lives (hpos : 1 ≤ messages) (hserved : w.Served messages)
    (hinv : Inv instances stats w) : w.killed = false ∧ w.loc ≠ .crashed := by
  constructor
  · by_contra hkilled
    obtain ⟨k, s, hk, hend⟩ := killed_iff.mp (by simpa using hkilled)
    obtain ⟨t, conStart, ht, hreach⟩ := hserved _ (List.mem_of_getElem? hk)
    cases ht
    obtain ⟨hcourse, -⟩ := Client.steady_of_reachable hpos (Links.steady_client hreach)
    exact hcourse.place.2.2 hend
  · intro hcrashed
    obtain ⟨s, conStart, hs, -⟩ := hserved none (hinv.null hcrashed)
    cases hs

/-! ## Who moves the process on -/

/-- The parties of a process at work. -/
inductive Party
  /-- The thread that executes `doTheWork`. -/
  | main
  /-- A party of one of the clients. -/
  | client (k : Nat) (party : Links.Party)

/-- The moves of a party. -/
def Party.moves : Party → Act → Prop
  | .main, a => a = .next ∨ ∃ conStart, a = .run (some conStart)
  | .client k party, a => ∃ b, a = .client k b ∧ party.moves b

/-- The client that `doTheWork` waits for. -/
def waitsFor (w : Workload) : Option (Nat × Links) :=
  match w.loc with
  | .joining k => (w.clients[k]?.join.filter fun s => !decide s.Over).map fun s => (k, s)
  | _ => none

/-- The party whose move gets the process on. -/
def helpful (w : Workload) : Party :=
  match w.waitsFor with
  | some (k, s) => .client k s.helpful
  | none => .main

/-- What a client has left to do. -/
def toDo (messages : Int) (con : Option Links) : Nat := con.elim 0 (Links.rank messages)

/-- **The rank of a process**: what its clients have left to do, those it has still to run included,
and the statements of `doTheWork`. -/
def rank (instances messages : Int) (w : Workload) : Nat :=
  total (toDo messages) w.clients +
    (instances.toNat - w.clients.length) * (20 * messages.toNat + 36) + w.loc.left instances

/-- A client that has just been started. -/
theorem toDo_start (conStart : Int) :
    toDo messages (some (Links.start conStart)) = 20 * messages.toNat + 35 := rfl

/-- The client `doTheWork` waits for. -/
theorem waitsFor_eq_some {k : Nat} {s : Links} :
    w.waitsFor = some (k, s) ↔
      w.loc = .joining k ∧ w.clients[k]? = some (some s) ∧ ¬ s.Over := by
  unfold waitsFor
  cases hloc : w.loc with
  | joining j =>
      simp only [Option.map_eq_some_iff, Option.filter_eq_some_iff, Option.join_eq_some_iff]
      constructor
      · rintro ⟨t, ⟨hclient, hover⟩, hpair⟩
        cases hpair
        exact ⟨rfl, hclient, by simpa using hover⟩
      · rintro ⟨hjk, hclient, hover⟩
        cases hjk
        exact ⟨s, ⟨hclient, by simpa using hover⟩, rfl⟩
  | running | reporting | returned | crashed => simp

/-- A step of a client does not change whom `doTheWork` waits for, unless it is that client. -/
theorem waitsFor_set {k : Nat} {s s' : Links} (hclient : w.clients[k]? = some (some s))
    (hover : s'.Over ↔ s.Over) :
    ({ w with clients := w.clients.set k (some s') } : Workload).waitsFor =
      if w.waitsFor = some (k, s) then some (k, s') else w.waitsFor := by
  have hlt : k < w.clients.length := (List.getElem?_eq_some_iff.mp hclient).1
  cases hloc : w.loc with
  | joining j =>
      by_cases hjk : k = j
      · subst hjk
        by_cases hdone : s.Over
        · have hdone' := hover.mpr hdone
          simp [waitsFor, hloc, hclient, List.getElem?_set_self hlt, Option.filter, hdone, hdone']
        · have hdone' := mt hover.mp hdone
          simp [waitsFor, hloc, hclient, List.getElem?_set_self hlt, Option.filter, hdone, hdone']
      · have hother : w.waitsFor ≠ some (k, s) := by
          intro hwait
          obtain ⟨hjoining, -, -⟩ := waitsFor_eq_some.mp hwait
          rw [hloc] at hjoining
          cases hjoining
          exact hjk rfl
        rw [if_neg hother]
        simp [waitsFor, hloc, List.getElem?_set_ne hjk]
  | running | reporting | returned | crashed => simp [waitsFor, hloc]

/-- **Every step of a healthy environment advances the process.** -/
theorem advances (hpos : 1 ≤ messages) (hw : (healthy instances messages stats).Reachable w)
    (hstep : (healthy instances messages stats).step w a = some w') :
    w'.rank instances messages < w.rank instances messages ∨
      (w'.rank instances messages = w.rank instances messages ∧ w'.helpful = w.helpful ∧
        ¬ w.helpful.moves a) := by
  obtain ⟨hok, hmove⟩ := healthy_moves hstep
  have hserved := served_of_reachable hw
  have hinv : Inv instances stats w := inv_of_reachable hw
  cases a with
  | run conStart =>
      left
      cases hmove with
      | @run k _ hloc hk =>
          obtain ⟨t, rfl⟩ := Option.isSome_iff_exists.mp hok
          have hlength := (hinv.at_running hloc).1
          obtain ⟨left, hleft⟩ : ∃ left, instances.toNat - k = left + 1 :=
            ⟨instances.toNat - k - 1, by omega⟩
          have hleft' : instances.toNat - (k + 1) = left := by omega
          have hone : total (toDo messages) [some (Links.start t)] =
            20 * messages.toNat + 35 := toDo_start t
          simp only [rank, total_append, List.length_append, List.length_singleton, hlength,
            Option.map_some, hone, hleft, hleft', hloc, Loc.left, Nat.succ_mul]
          omega
  | next =>
      left
      obtain ⟨hclients, hleft⟩ := moves_next hinv.bound hmove
      simp only [rank, hclients]
      omega
  | client k b =>
      cases hmove with
      | @client _ _ s s' _ hclient hclientStep =>
          have hallowed : s.healthyStep b = true := by simpa [healthyStep, hclient] using hok
          obtain ⟨t, conStart, ht, hreach⟩ := hserved _ (List.mem_of_getElem? hclient)
          cases ht
          have hhealthy : (Links.healthy messages conStart).step s b = some s' :=
            (restrict_step _).mpr ⟨hallowed, hclientStep⟩
          have htotal := total_set (toDo messages) (some s') hclient
          have hbefore : toDo messages (some s) = s.rank messages := rfl
          have hafter : toDo messages (some s') = s'.rank messages := rfl
          have hlength : (w.clients.set k (some s')).length = w.clients.length :=
            List.length_set
          rcases Links.advances hpos hreach hhealthy with hlower | ⟨hsame, hhelpful, hidle⟩
          · left
            simp only [rank, hlength]
            omega
          · right
            have hover : s'.Over ↔ s.Over := by
              rw [Links.over_iff_rank (.of_reachable (hreach.step hhealthy)),
                Links.over_iff_rank (.of_reachable hreach), hsame]
            refine ⟨?_, ?_, ?_⟩
            · simp only [rank, hlength]
              omega
            · rw [helpful, waitsFor_set hclient hover, helpful]
              by_cases hwait : w.waitsFor = some (k, s)
              · rw [if_pos hwait, hwait]
                show Party.client k s'.helpful = Party.client k s.helpful
                rw [hhelpful]
              · rw [if_neg hwait]
            · -- `doTheWork` waits for the main thread, for another client, or for this one
              intro hmoves
              rw [helpful] at hmoves
              cases hwait : w.waitsFor with
              | none =>
                  rw [hwait] at hmoves
                  rcases hmoves with hnext | ⟨t, hrun⟩
                  · cases hnext
                  · cases hrun
              | some waited =>
                  obtain ⟨j, t⟩ := waited
                  rw [hwait] at hmoves
                  obtain ⟨c, hc, hmoves⟩ := hmoves
                  cases hc
                  obtain ⟨-, ht, -⟩ := waitsFor_eq_some.mp hwait
                  rw [hclient] at ht
                  cases ht
                  exact hidle hmoves

/-- Every client that has been run has its threads. -/
theorem Served.client (hserved : w.Served messages) {k : Nat} (hk : k < w.clients.length) :
    ∃ s conStart, w.clients[k]? = some (some s) ∧
      (Links.healthy messages conStart).Reachable s := by
  obtain ⟨s, conStart, hs, hreach⟩ := hserved _ (List.getElem_mem hk)
  exact ⟨s, conStart, by rw [List.getElem?_eq_getElem hk, hs], hreach⟩

/-- The main thread can move when it waits for nobody. -/
theorem exists_main (hserved : w.Served messages) (hinv : Inv instances stats w)
    (hwait : w.waitsFor = none) (hreturned : w.loc ≠ .returned) (hcrashed : w.loc ≠ .crashed) :
    (∃ k, w.loc = .running k ∧ (k : Int) < instances) ∨
      (w.next instances stats).isSome = true := by
  cases hloc : w.loc with
  | running k =>
      by_cases hk : (k : Int) < instances
      · exact .inl ⟨k, rfl, hk⟩
      · right
        simp [next, hloc, hk]
  | joining k =>
      right
      by_cases hk : (k : Int) < instances
      · have hlength := (hinv.at_joining hloc).1
        obtain ⟨s, conStart, hclient, -⟩ := hserved.client (k := k) (by omega)
        have hover : s.Over := by
          by_contra hnot
          rw [waitsFor_eq_some.mpr ⟨hloc, hclient, hnot⟩] at hwait
          cases hwait
        simp [next, hloc, hk, hclient, hover]
      · simp [next, hloc, hk]
  | reporting k =>
      right
      by_cases hk : (k : Int) < instances
      · have hlength := (hinv.at_reporting hloc).1
        obtain ⟨s, conStart, hclient, -⟩ := hserved.client (k := k) (by omega)
        simp [next, hloc, hk, hclient]
      · simp [next, hloc, hk]
  | returned => exact absurd hloc hreturned
  | crashed => exact absurd hloc hcrashed

/-- The helpful party can always move. -/
theorem exists_helpful (hpos : 1 ≤ messages) (hw : (healthy instances messages stats).Reachable w)
    (hreturned : w.loc ≠ .returned) :
    ∃ a, w.helpful.moves a ∧ ((healthy instances messages stats).step w a).isSome = true := by
  have hserved := served_of_reachable hw
  have hinv := inv_of_reachable hw
  obtain ⟨hkilled, hcrashed⟩ := hserved.lives hpos hinv
  -- a step of the process that its environment allows
  have henabled (a : Act) (hok : w.healthyStep a = true)
      (hsome : (step instances messages stats w a).isSome = true) :
      ((healthy instances messages stats).step w a).isSome = true := by
    obtain ⟨w', hw'⟩ := Option.isSome_iff_exists.mp hsome
    rw [healthy, (restrict_step _).mpr ⟨hok, hw'⟩]
    rfl
  rw [helpful]
  cases hwait : w.waitsFor with
  | none =>
      rcases exists_main hserved hinv hwait hreturned hcrashed with ⟨k, hloc, hk⟩ | hnext
      · refine ⟨.run (some 0), .inr ⟨0, rfl⟩, henabled _ rfl ?_⟩
        simp [step, hkilled, hloc, hk]
      · refine ⟨.next, .inl rfl, henabled _ rfl ?_⟩
        simpa [step, hkilled, hcrashed] using hnext
  | some waited =>
      obtain ⟨k, s⟩ := waited
      obtain ⟨hloc, hclient, hover⟩ := waitsFor_eq_some.mp hwait
      obtain ⟨t, conStart, ht, hreach⟩ := hserved _ (List.mem_of_getElem? hclient)
      cases ht
      obtain ⟨b, hmoves, hsome⟩ := Links.exists_helpful hpos hreach hover
      obtain ⟨s', hs'⟩ := Option.isSome_iff_exists.mp hsome
      obtain ⟨hok, hstep⟩ := (restrict_step _).mp hs'
      have hstep : Links.step .base messages s b = some s' := hstep
      have hallowed : w.healthyStep (.client k b) = true := by
        simpa [healthyStep, hclient] using hok
      refine ⟨.client k b, ⟨b, rfl, hmoves⟩, henabled _ hallowed ?_⟩
      simp [step, hkilled, hloc, Loc.joined, hclient, hstep]

/-- A client of a healthy server that is over has sent all its messages, and all but the last one
have been echoed. -/
def Complete (messages : Int) (s : Links) : Prop :=
  s.client.verdict = "success" ∧ (s.client.sends.length : Int) = messages ∧
    (∀ m ∈ s.client.sends, m.Accepted) ∧ ∀ m ∈ s.client.sends.dropLast, m.Echoed

/-- It is complete. -/
theorem complete_of_over {conStart : Int} {s : Links} (hpos : 1 ≤ messages)
    (hs : (Links.healthy messages conStart).Reachable s) (hover : s.Over) :
    Complete messages s := by
  have hsteady := Links.steady_client hs
  obtain ⟨hcourse, hserved⟩ := Client.steady_of_reachable hpos hsteady
  have hcount := (Client.CountInv.of_reachable hsteady.of_restrict).attempts
  have hall := hcourse.complete (.inr (.inr hover.1))
  rw [if_neg (by rw [hover.1]; simp)] at hcount
  exact ⟨s.client.verdict_eq_success.mpr hcourse.unfailed, by omega, hserved.accepted,
    hserved.earlier⟩

end Healthy

/-- **`doTheWork` returns.** In every fair execution of a process whose clients get connections to a
healthy server, however the threads interleave and however late connections open and echoes arrive,
`doTheWork` returns, and it has then sent one `Result` for each client, in order, of a client that
has succeeded in sending all its messages. -/
theorem work_returns {instances messages : Int} {stats : Client → String} (hpos : 1 ≤ messages)
    (ρ : (healthy instances messages stats).Execution)
    (hfair : ∀ party : Party, ρ.Fair party.moves) :
    ∃ n, (ρ.state n).loc = .returned ∧ ∃ finals : List Links,
      finals.length = instances.toNat ∧ (∀ s ∈ finals, Complete messages s) ∧
      (ρ.state n).sink = finals.map fun s => .result (stats s.client) := by
  obtain ⟨n, -, hn⟩ := ρ.eventually_of_helpful (P := fun _ => True)
    (Q := fun w => w.loc = .returned) hfair (rank instances messages) helpful
    (fun w hw _ hnot => exists_helpful hpos hw hnot)
    (fun w a w' hw _ _ hstep => .inr ⟨trivial, advances hpos hw hstep⟩) (n := 0) trivial
  have hreach := ρ.reachable n
  have hinv := inv_of_reachable hreach
  obtain ⟨-, hover⟩ := hinv.allOver hn
  obtain ⟨-, finals, hlength, hclients, hsink⟩ := hinv.oneResultEach hn
  refine ⟨n, hn, finals, hlength, fun s hs => ?_, hsink⟩
  have hmem : some s ∈ (ρ.state n).clients := by
    rw [hclients]
    exact List.mem_map_of_mem hs
  obtain ⟨t, ht, hdone⟩ := hover _ hmem
  obtain ⟨u, conStart, hu, hserver⟩ := served_of_reachable hreach _ hmem
  cases ht
  cases hu
  exact complete_of_over hpos hserver hdone

/-- Nothing moves once `doTheWork` has returned. -/
theorem step_returned {instances messages : Int} {stats : Client → String} {w : Workload}
    (hw : (healthy instances messages stats).Reachable w) (hloc : w.loc = .returned) (a : Act) :
    (healthy instances messages stats).step w a = none := by
  by_contra hsome
  obtain ⟨w', hstep⟩ := Option.ne_none_iff_exists'.mp hsome
  have hlength := (inv_of_reachable hw).length
  rw [hloc] at hlength
  cases (healthy_moves hstep).2 with
  | run hloc' | allRun hloc' | crash hloc' | join hloc' | allJoined hloc' | report hloc'
  | allReported hloc' =>
      rw [hloc] at hloc'
      cases hloc'
  | @client k b s s' hjoined hclient _ =>
      -- all clients have been joined
      rw [hloc] at hjoined
      have hlt := (List.getElem?_eq_some_iff.mp hclient).1
      exact absurd hjoined (Nat.not_le.mpr (Nat.lt_of_lt_of_eq hlt hlength))

/-- One client whose only message is echoed, to the end of `doTheWork`. -/
def returningRun : List Act :=
  .run (some 0) :: completedRun 0 ++ [.next, .next, .next, .next, .next]

/-- `work_returns` for that client. -/
theorem work_returns_completed :
    ∃ ρ : (healthy 1 1 (Client.getStats wholeMillis 0)).Execution, ∃ n,
      (ρ.state n).loc = .returned ∧ ∃ finals : List Links, finals.length = 1 ∧
        (∀ s ∈ finals, Complete 1 s) ∧ (ρ.state n).sink =
          finals.map fun s => .result (Client.getStats wholeMillis 0 s.client) := by
  obtain ⟨w, hrun, hend⟩ := (healthy 1 1 (Client.getStats wholeMillis 0)).exists_of_exec_any
    returningRun (fun w => w.loc = .returned) (by decide)
  have hreach := reachable_of_exec _ hrun
  refine ⟨.ofRun hrun, work_returns (by decide) (.ofRun hrun) fun party => ?_⟩
  apply Execution.fair_ofRun
  intro a _
  exact step_returned hreach (of_decide_eq_true hend) a

end Workload

end WsPerftester
