import WsPerftester.Coordination.Ending

/-! # Listeners that never terminate

Over several iterations `END` is published while the listeners of the earlier ones have children
nobody will count: each `StartProcesses` starts them again, but a process barrier counts
`machines * processes` children of its own iteration only. As long as none of these children is
killed, no `waitpid` returns them, and what their listeners owe is never pushed
(`State.surplus_le_owed`): one of the listeners waits for ever (`listener_never_terminates`). -/

namespace WsPerftester

open TransitionSystem Population

/-! ## Nothing comes behind `END` -/

namespace Listener

/-- No broadcast comes behind `END` in a socket, and a terminated listener has read them all. -/
structure Closing (l : Listener) : Prop where
  last : .theEnd ∉ l.subscriber.inbox.dropLast
  read : l.loc = .terminated → l.subscriber.inbox = []

variable {confs : List Config} {c c' : Controller} {l l' : Listener}

/-- A broadcast that is read leaves those behind it as they are. -/
theorem Closing.tail {m : Broadcast} {inbox : List Broadcast} (h : l.Closing)
    (hin : l.subscriber.inbox = m :: inbox) : .theEnd ∉ inbox.dropLast := by
  have hlast := h.last
  rw [hin] at hlast
  cases inbox with
  | nil => simp
  | cons b inbox =>
      rw [List.dropLast_cons_cons] at hlast
      exact fun hmem => hlast (List.mem_cons_of_mem m hmem)

/-- What a listener reads and does keeps `END` last. -/
theorem Closing.change {a : Act} (h : l.Closing) (hact : l.Change a l') : l'.Closing := by
  cases hact with
  | subscribe | running => exact ⟨h.last, h.read⟩
  | hello _ hin | start _ hin => exact ⟨h.tail hin, by simp⟩
  | ignore hloc hin =>
      refine ⟨h.tail hin, fun hterm => ?_⟩
      rcases hloc with ⟨hloc, -⟩ | ⟨hloc, -⟩ <;> simp [hloc] at hterm
  | @theEnd inbox hloc hin =>
      refine ⟨h.tail hin, fun _ => ?_⟩
      -- anything behind it would have it in front of the last
      by_contra hmore
      have hlast := h.last
      rw [hin, List.dropLast_cons_of_ne_nil hmore] at hlast
      exact hlast List.mem_cons_self
  | synced | launch | launched | error | child | allReaped => exact ⟨h.last, by simp⟩

/-- **`END` is the last broadcast in every socket.** -/
theorem Closing.moves (h : l.Closing) (hend : l.EndsLast c) (hmoves : Moves confs c l c' l') :
    l'.Closing := by
  cases hmoves with
  | broadcast hact =>
      -- with `END` in its socket the controller would have ended
      have hnone : .theEnd ∉ l.subscriber.inbox := fun hmem => by
        rw [Controller.not_act_of_ended (hend (.inl hmem))] at hact
        cases hact
      unfold deliver Subscriber.deliver
      split
      · exact h
      · next hterm =>
          refine ⟨?_, fun hterm' => absurd hterm' hterm⟩
          split
          · rwa [List.dropLast_concat]
          · exact h.last
  | served | drained => exact ⟨h.last, h.read⟩
  | moved hact => exact h.change (change_of_act hact)
  | silent | countListener | countProcess | taken | still => exact h

/-- A terminated listener owes nothing. -/
theorem Closing.owed_eq_zero (h : l.Closing) (hterm : l.loc = .terminated) : l.owed = 0 := by
  simp [owed, hterm, h.read hterm]

end Listener

/-- `END` is the last broadcast in every socket, in every run. -/
theorem closing_of_reachable {confs : List Config} {count : Nat} {s : State}
    (hs : (coordination confs count).Reachable s) : ∀ l ∈ s.listeners, l.Closing := by
  refine hs.invariant_of (P := fun s => ∀ l ∈ s.listeners, l.Closing)
    (fun _ hs => endsLast_of_reachable hs) ?_ ?_
  · intro l hl
    rw [List.eq_of_mem_replicate hl]
    exact ⟨by simp, by simp⟩
  · intro s a s' hend hinv h
    have hboth : ∀ l ∈ s.listeners, l.EndsLast s.controller ∧ l.Closing :=
      fun l hl => ⟨hend l hl, hinv l hl⟩
    exact State.forall_listeners h (fun _ _ hl hmoves => hl.2.moves hl.1 hmoves) hboth

/-! ## What is owed behind `END` -/

namespace State

variable {confs : List Config} {count : Nat} {s : State}

/-- `END` is published behind all iterations. -/
theorem length_le_of_ended (hs : (coordination confs count).Reachable s)
    (hended : s.controller.loc = .ended) : confs.length ≤ s.controller.iteration := by
  have hbounds := (BarrierInv.of_reachable hs).bounds
  refine List.getElem?_eq_none_iff.mp ?_
  cases hconf : confs[s.controller.iteration]? with
  | none => rfl
  | some conf => exact (by simpa [hended] using hbounds conf hconf)

/-- When only counted children have exited, no more have been reported than have been counted. -/
theorem total_reported_le (hs : (truthful confs count).Reachable s)
    (hlive : ∀ p ∈ s.processes, p.counted = 0 → ¬ p.Exited) :
    total Listener.reported s.listeners ≤ s.controller.countedProcesses confs := by
  have hinv := TruthfulInv.of_reachable hs
  rw [← hinv.reaped, ← total_counted_eq hs.of_restrict]
  refine total_le_total fun p hmem => ?_
  unfold Process.waited
  split
  · next hreaped =>
      rcases p.counted_cases with hcounted | hcounted
      · exact absurd (hinv.exited p hmem hreaped) (hlive p hmem hcounted)
      · exact Nat.le_of_eq hcounted.symm
  · exact Nat.zero_le _

/-- **The surplus is owed for ever.** When `END` has been published and only counted children have
exited, the counted listeners owe at least the notices of the children that listeners of earlier
iterations were told to launch beyond what the collection loops waited for. -/
theorem surplus_le_owed (hconfs : ∀ conf ∈ confs, 0 ≤ conf.machines ∧ 0 ≤ conf.processes)
    (hs : (truthful confs count).Reachable s) (hended : s.controller.loc = .ended)
    (hlive : ∀ p ∈ s.processes, p.counted = 0 → ¬ p.Exited) :
    surplus confs confs.length ≤ total (fun l => l.counted * l.owed) s.listeners := by
  have hreach : (coordination confs count).Reachable s := hs.of_restrict
  have hpromised := promised_le hreach
  have hpromises := total_promises_le s.listeners
  have hreported := total_reported_le hs hlive
  have hsurplus : surplus confs confs.length ≤ surplus confs s.controller.iteration :=
    Finset.sum_le_sum_of_subset (Finset.range_mono (length_le_of_ended hreach hended))
  rw [promised_eq hconfs] at hpromised
  simp only [Controller.rounds, Controller.countedProcesses, hended, Nat.add_zero]
    at hpromised hreported
  omega

/-- Then one of them has not terminated. -/
theorem exists_not_terminated (hconfs : ∀ conf ∈ confs, 0 ≤ conf.machines ∧ 0 ≤ conf.processes)
    (hsurplus : 0 < surplus confs confs.length) (hs : (truthful confs count).Reachable s)
    (hended : s.controller.loc = .ended)
    (hlive : ∀ p ∈ s.processes, p.counted = 0 → ¬ p.Exited) :
    ∃ l ∈ s.listeners, l.counted = 1 ∧ l.loc ≠ .terminated := by
  by_contra hnone
  have hle := surplus_le_owed hconfs hs hended hlive
  have hzero : total (fun l => l.counted * l.owed) s.listeners = 0 :=
    total_eq_zero.mpr fun l hl => by
      rcases l.counted_cases with hcounted | hcounted
      · rw [hcounted, Nat.zero_mul]
      · have hterm : l.loc = .terminated := by
          by_contra hterm
          exact hnone ⟨l, hl, hcounted, hterm⟩
        rw [(closing_of_reachable hs.of_restrict l hl).owed_eq_zero hterm, Nat.mul_zero]
  omega

end State

/-- **A listener never terminates.** In every execution over configurations of which one with
processes comes behind one with machines, as soon as `END` has been published and as long as no
child exits that has not been counted: there is a listener, and it has been counted, that has not
terminated and never will. -/
theorem listener_never_terminates {confs : List Config} {count : Nat}
    (hconfs : ∀ conf ∈ confs, 0 ≤ conf.machines ∧ 0 ≤ conf.processes)
    (hsurplus : 0 < surplus confs confs.length) (ρ : (truthful confs count).Execution) {n : Nat}
    (hended : (ρ.state n).controller.loc = .ended)
    (hlive : ∀ m, n ≤ m → ∀ p ∈ (ρ.state m).processes, p.counted = 0 → ¬ p.Exited) :
    ∃ i : Nat, ∀ m, n ≤ m →
      ∃ l, (ρ.state m).listeners[i]? = some l ∧ l.counted = 1 ∧ l.loc ≠ .terminated := by
  by_contra hnever
  -- otherwise every listener gets done at some time, and then all of them are
  have hreached : ∀ i, i < count → ∃ m, n ≤ m ∧ (ρ.state m).controller.loc = .ended ∧
      ∀ l, (ρ.state m).listeners[i]? = some l → l.counted = 1 → l.loc = .terminated := by
    intro i _
    by_contra hnot
    refine hnever ⟨i, fun m hnm => ?_⟩
    by_contra hnone
    exact hnot ⟨m, hnm, ended_stays ρ hnm hended, fun l hl hcounted => by
      by_contra hterm
      exact hnone ⟨l, hl, hcounted, hterm⟩⟩
  obtain ⟨m, hnm, hdone⟩ := ρ.eventually_forall_lt
    (P := fun i s => s.controller.loc = .ended ∧
      ∀ l, s.listeners[i]? = some l → l.counted = 1 → l.loc = .terminated)
    (fun i s a s' _ hdone h => terminated_step (truthful_step.mp h).2 hdone) hreached
  have hlength := (BarrierInv.of_reachable (ρ.reachable m).of_restrict).length
  obtain ⟨l, hl, hcounted, hterm⟩ := State.exists_not_terminated hconfs hsurplus (ρ.reachable m)
    (ended_stays ρ hnm hended) (hlive m hnm)
  obtain ⟨i, hi⟩ := List.mem_iff_getElem?.mp hl
  have hlt := (List.getElem?_eq_some_iff.mp hi).1
  exact hterm ((hdone i (by omega)).2 l hi hcounted)

/-- In two iterations of one machine with one process each, the first listener waits for a second
child that was never counted. -/
theorem listener_never_terminates_two_rounds :
    ∃ ρ : (truthful [.solo, .solo] 2).Execution, ∃ n i : Nat,
      (ρ.state n).controller.loc = .ended ∧ ∀ m, n ≤ m →
        ∃ l, (ρ.state m).listeners[i]? = some l ∧ l.counted = 1 ∧ l.loc ≠ .terminated := by
  obtain ⟨s, hs, hend⟩ := (truthful [.solo, .solo] 2).exists_of_exec_any
    (soloRun ++ secondRun ++ [.controller .iterate])
    (fun s => s.controller.loc = .ended ∧ ∀ p ∈ s.processes, p.counted = 0 → ¬ p.Exited)
    (by decide)
  obtain ⟨hended, hlive⟩ := of_decide_eq_true hend
  have hrest := fun {m : Nat} => TransitionSystem.Execution.state_ofRun hs (n := m)
  obtain ⟨i, hi⟩ := listener_never_terminates (by decide) (by decide)
    (TransitionSystem.Execution.ofRun hs) (by rw [hrest (Nat.le_refl _)]; exact hended)
    fun m hnm => by rw [hrest hnm]; exact hlive
  exact ⟨_, _, i, by rw [hrest (Nat.le_refl _)]; exact hended, hi⟩

end WsPerftester
