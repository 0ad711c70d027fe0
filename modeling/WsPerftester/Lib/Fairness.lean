import Mathlib.Data.Nat.Init
import WsPerftester.Lib.TransitionSystem

/-! # Fair executions

Infinite executions of a transition system, in which nobody may move for a while, and weak fairness
towards a set of labels: labels of the set are not enabled for ever without one of them being taken.
More generally an execution responds to a condition with a set of labels (`Responds`): it does not
meet the condition for ever without taking one of them, be it that it is fair, be it that the
condition always ends (`responds_of_transient`). `eventually_of_responses` is the rule for liveness
by a rank with several such responses, of which each state names the one that lowers the rank;
`eventually_of_helpful` is the case of fair parties and `eventually_of_rank` that of one party. -/

universe u v

namespace TransitionSystem

variable {σ : Type u} {α : Type v}

/-- An infinite execution; `label n = none` means that nobody moves at time `n`. -/
structure Execution (M : TransitionSystem σ α) where
  /-- The state at each time. -/
  state : Nat → σ
  /-- The label taken at each time. -/
  label : Nat → Option α
  start : state 0 = M.init
  next : ∀ n, (label n = none ∧ state (n + 1) = state n) ∨
    ∃ a, label n = some a ∧ M.step (state n) a = some (state (n + 1))

namespace Execution

variable {M : TransitionSystem σ α} (ρ : M.Execution)

/-- Every state of an execution is reachable. -/
theorem reachable (n : Nat) : M.Reachable (ρ.state n) := by
  induction n with
  | zero => rw [ρ.start]; exact .init
  | succ n ih =>
      rcases ρ.next n with ⟨-, hsame⟩ | ⟨a, -, hstep⟩
      · rw [hsame]; exact ih
      · exact .step ih hstep

/-- The step taken when a label is. -/
theorem step_of_label {n : Nat} {a : α} (h : ρ.label n = some a) :
    M.step (ρ.state n) a = some (ρ.state (n + 1)) := by
  rcases ρ.next n with ⟨hnone, -⟩ | ⟨b, hb, hstep⟩
  · rw [h] at hnone
    cases hnone
  · rw [h] at hb
    cases hb
    exact hstep

/-- **Stability.** What every step keeps is never lost again. -/
theorem stays {P : σ → Prop}
    (hstep : ∀ s a s', M.Reachable s → P s → M.step s a = some s' → P s') {n m : Nat} (hnm : n ≤ m)
    (hP : P (ρ.state n)) : P (ρ.state m) := by
  induction m, hnm using Nat.le_induction with
  | base => exact hP
  | succ m _ ih =>
      rcases ρ.next m with ⟨-, hsame⟩ | ⟨a, -, h⟩
      · rw [hsame]
        exact ih
      · exact hstep _ a _ (ρ.reachable m) ih h

/-- Finitely many stable properties, each of which is reached, hold together in the end. -/
theorem eventually_forall_lt {P : Nat → σ → Prop}
    (hstep : ∀ i s a s', M.Reachable s → P i s → M.step s a = some s' → P i s') {n k : Nat}
    (hreached : ∀ i, i < k → ∃ m, n ≤ m ∧ P i (ρ.state m)) :
    ∃ m, n ≤ m ∧ ∀ i, i < k → P i (ρ.state m) := by
  induction k with
  | zero => exact ⟨n, Nat.le_refl n, fun i hi => absurd hi (Nat.not_lt_zero i)⟩
  | succ k ih =>
      obtain ⟨m, hnm, hall⟩ := ih fun i hi => hreached i (by omega)
      obtain ⟨m', hnm', hlast⟩ := hreached k (by omega)
      refine ⟨max m m', by omega, fun i hi => ?_⟩
      rcases Nat.lt_succ_iff_lt_or_eq.mp hi with hi | rfl
      · exact ρ.stays (hstep i) (Nat.le_max_left m m') (hall i hi)
      · exact ρ.stays (hstep i) (Nat.le_max_right m m') hlast

/-- Weak fairness: if from some time on a label of `A` is always enabled, one is taken. -/
def Fair (A : α → Prop) : Prop :=
  ∀ n, (∀ m, n ≤ m → ∃ a, A a ∧ (M.step (ρ.state m) a).isSome = true) →
    ∃ m, n ≤ m ∧ ∃ a, A a ∧ ρ.label m = some a

/-- If from some time on `E` always holds, a label of `A` is taken. -/
def Responds (E : σ → Prop) (A : α → Prop) : Prop :=
  ∀ n, (∀ m, n ≤ m → E (ρ.state m)) → ∃ m, n ≤ m ∧ ∃ a, A a ∧ ρ.label m = some a

/-- A fair execution responds to labels that are enabled. -/
theorem responds_of_fair {A : α → Prop} (h : ρ.Fair A) :
    ρ.Responds (fun s => ∃ a, A a ∧ (M.step s a).isSome = true) A := h

/-- An execution responds in any way to what never lasts. -/
theorem responds_of_transient {E : σ → Prop}
    (hends : ∀ n, E (ρ.state n) → ∃ m, n ≤ m ∧ ¬ E (ρ.state m)) (A : α → Prop) :
    ρ.Responds E A := by
  intro n hlasts
  obtain ⟨m, hnm, hover⟩ := hends n (hlasts n (Nat.le_refl n))
  exact absurd (hlasts m hnm) hover

/-- The execution that takes a finite run and then rests. -/
def ofRun {run : List α} {s : σ} (h : M.exec M.init run = some s) : M.Execution where
  state n := (M.exec M.init (run.take n)).getD s
  label n := run[n]?
  start := rfl
  next := by
    intro n
    by_cases hn : n < run.length
    · right
      refine ⟨run[n], List.getElem?_eq_getElem hn, ?_⟩
      have hsplit : M.exec M.init (run.take (n + 1) ++ run.drop (n + 1)) = some s := by
        rw [List.take_append_drop]
        exact h
      rw [exec_append, List.take_succ_eq_append_getElem hn] at hsplit
      obtain ⟨t', hlonger, -⟩ := Option.bind_eq_some_iff.mp hsplit
      obtain ⟨t, hshorter, hstep⟩ := M.exec_concat.mp hlonger
      rw [List.take_succ_eq_append_getElem hn, hlonger, hshorter]
      exact hstep
    · left
      rw [List.take_of_length_le (by omega), List.take_of_length_le (by omega)]
      exact ⟨List.getElem?_eq_none (by omega), rfl⟩

/-- At its end it rests where the run has led. -/
theorem state_ofRun {run : List α} {s : σ} (h : M.exec M.init run = some s) {n : Nat}
    (hn : run.length ≤ n) : (ofRun h).state n = s := by
  show (M.exec M.init (run.take n)).getD s = s
  rw [List.take_of_length_le hn, h]
  rfl

/-- It is fair when nothing is left to do. -/
theorem fair_ofRun {run : List α} {s : σ} (h : M.exec M.init run = some s) {A : α → Prop}
    (hquiet : ∀ a, A a → M.step s a = none) : (ofRun h).Fair A := by
  intro n henabled
  obtain ⟨a, hA, hsome⟩ := henabled (max n run.length) (Nat.le_max_left n run.length)
  rw [state_ofRun h (Nat.le_max_right n run.length), hquiet a hA] at hsome
  cases hsome

/-- **Progress by responses.** In every state before `Q` one of the conditions `E` holds, the
helpful one. Every step reaches `Q`, or keeps `P` and lowers the rank, or keeps `P`, the rank and
the helpful condition, and is no response to it. Then `P` leads to `Q`. -/
theorem eventually_of_responses {ι : Type} {E : ι → σ → Prop} {A : ι → α → Prop}
    (hresponds : ∀ i, ρ.Responds (E i) (A i)) {P Q : σ → Prop} (rank : σ → Nat) (helpful : σ → ι)
    (hholds : ∀ s, M.Reachable s → P s → ¬ Q s → E (helpful s) s)
    (hstep : ∀ s a s', M.Reachable s → P s → ¬ Q s → M.step s a = some s' →
      Q s' ∨ (P s' ∧ (rank s' < rank s ∨
        (rank s' = rank s ∧ helpful s' = helpful s ∧ ¬ A (helpful s) a))))
    {n : Nat} (hP : P (ρ.state n)) : ∃ m, n ≤ m ∧ Q (ρ.state m) := by
  -- on the rank: as long as it stays the same, the same condition holds and gets no response
  induction hrank : rank (ρ.state n) using Nat.strongRecOn generalizing n with
  | ind r ih =>
      by_contra hnever
      -- a state of lower rank would lead to `Q`, so the rank stays where it is
      have hnot : ∀ m, n ≤ m → ¬ Q (ρ.state m) := fun m hm hQ => hnever ⟨m, hm, hQ⟩
      have hlower : ∀ m, n ≤ m → P (ρ.state m) → ¬ rank (ρ.state m) < r := by
        intro m hm hPm hless
        obtain ⟨k, hk, hQ⟩ := ih _ hless hPm rfl
        exact hnot k (by omega) hQ
      have hstay : ∀ m, n ≤ m → P (ρ.state m) ∧ rank (ρ.state m) = r ∧
          helpful (ρ.state m) = helpful (ρ.state n) := by
        intro m hm
        induction m, hm using Nat.le_induction with
        | base => exact ⟨hP, hrank, rfl⟩
        | succ m hm ihm =>
            obtain ⟨hPm, hrankm, hhelpful⟩ := ihm
            rcases ρ.next m with ⟨-, hsame⟩ | ⟨a, -, ha⟩
            · rw [hsame]
              exact ⟨hPm, hrankm, hhelpful⟩
            · rcases hstep _ a _ (ρ.reachable m) hPm (hnot m hm) ha with hQ | ⟨hP', hless | hkept⟩
              · exact absurd hQ (hnot (m + 1) (by omega))
              · exact absurd (hrankm ▸ hless) (hlower (m + 1) (by omega) hP')
              · exact ⟨hP', hkept.1.trans hrankm, hkept.2.1.trans hhelpful⟩
      -- then the same condition holds for ever, and the execution responds to it
      obtain ⟨m, hm, a, hA, hlabel⟩ := hresponds (helpful (ρ.state n)) n fun m hm => by
        rw [← (hstay m hm).2.2]
        exact hholds _ (ρ.reachable m) (hstay m hm).1 (hnot m hm)
      have htaken := ρ.step_of_label hlabel
      obtain ⟨hPm, hrankm, hhelpful⟩ := hstay m hm
      rcases hstep _ a _ (ρ.reachable m) hPm (hnot m hm) htaken with hQ | ⟨hP', hless | hkept⟩
      · exact hnot (m + 1) (by omega) hQ
      · exact hlower (m + 1) (by omega) hP' (hrankm ▸ hless)
      · exact hkept.2.2 (hhelpful ▸ hA)

/-- **Progress by helpful moves.** In every state before `Q` one fair party is helpful and can move.
Every step reaches `Q`, or keeps `P` and lowers the rank, or keeps `P`, the rank and the helpful
party, and is not the move of that party. Then `P` leads to `Q`. -/
theorem eventually_of_helpful {ι : Type} {A : ι → α → Prop} (hfair : ∀ i, ρ.Fair (A i))
    {P Q : σ → Prop} (rank : σ → Nat) (helpful : σ → ι)
    (henabled : ∀ s, M.Reachable s → P s → ¬ Q s →
      ∃ a, A (helpful s) a ∧ (M.step s a).isSome = true)
    (hstep : ∀ s a s', M.Reachable s → P s → ¬ Q s → M.step s a = some s' →
      Q s' ∨ (P s' ∧ (rank s' < rank s ∨
        (rank s' = rank s ∧ helpful s' = helpful s ∧ ¬ A (helpful s) a))))
    {n : Nat} (hP : P (ρ.state n)) : ∃ m, n ≤ m ∧ Q (ρ.state m) :=
  ρ.eventually_of_responses (fun i => ρ.responds_of_fair (hfair i)) rank helpful henabled hstep hP

/-- **Progress by a view.** Rank and helpful condition are read off a view of the state. Every step
before `Q` lowers the rank or leaves the view as it is, and the responses to the helpful condition
change the view. Then `P` leads to `Q`. -/
theorem eventually_of_view {ι : Type} {ν : Type} {E : ι → σ → Prop} {A : ι → α → Prop}
    (hresponds : ∀ i, ρ.Responds (E i) (A i)) {P Q : σ → Prop} (view : σ → ν) (rank : ν → Nat)
    (helpful : ν → ι)
    (hholds : ∀ s, M.Reachable s → P s → ¬ Q s → E (helpful (view s)) s)
    (hkeep : ∀ s a s', M.Reachable s → P s → ¬ Q s → M.step s a = some s' →
      Q s' ∨ (P s' ∧ (rank (view s') < rank (view s) ∨ view s' = view s)))
    (hhelp : ∀ s a s', M.Reachable s → P s → ¬ Q s → M.step s a = some s' →
      A (helpful (view s)) a → Q s' ∨ view s' ≠ view s)
    {n : Nat} (hP : P (ρ.state n)) : ∃ m, n ≤ m ∧ Q (ρ.state m) := by
  refine ρ.eventually_of_responses hresponds (fun s => rank (view s)) (fun s => helpful (view s))
    hholds (fun s a s' hs hPs hQs ha => ?_) hP
  rcases hkeep s a s' hs hPs hQs ha with hQ | ⟨hP', hlower | hsame⟩
  · exact .inl hQ
  · exact .inr ⟨hP', .inl hlower⟩
  · by_cases hmove : A (helpful (view s)) a
    · -- a helpful move that changes nothing has reached `Q`
      exact .inl ((hhelp s a s' hs hPs hQs ha hmove).resolve_right fun hne => hne hsame)
    · exact .inr ⟨hP', .inr ⟨by rw [hsame], by rw [hsame], hmove⟩⟩

/-- **Progress by a rank.** As long as `Q` has not been reached, some fair label is enabled; every
step reaches `Q` or keeps `P` without raising the rank, and the fair labels lower it. Then `P` leads
to `Q`. -/
theorem eventually_of_rank {A : α → Prop} (hfair : ρ.Fair A) {P Q : σ → Prop} (rank : σ → Nat)
    (henabled : ∀ s, M.Reachable s → P s → ¬ Q s → ∃ a, A a ∧ (M.step s a).isSome = true)
    (hstep : ∀ s a s', M.Reachable s → P s → M.step s a = some s' →
      Q s' ∨ (P s' ∧ rank s' ≤ rank s ∧ (A a → rank s' < rank s)))
    {n : Nat} (hP : P (ρ.state n)) : ∃ m, n ≤ m ∧ Q (ρ.state m) := by
  refine ρ.eventually_of_helpful (A := fun _ : Unit => A) (fun _ => hfair) rank (fun _ => ())
    henabled (fun s a s' hs hPs _ ha => ?_) hP
  rcases hstep s a s' hs hPs ha with hQ | ⟨hP', hle, hlt⟩
  · exact .inl hQ
  · by_cases hless : rank s' < rank s
    · exact .inr ⟨hP', .inl hless⟩
    · exact .inr ⟨hP', .inr ⟨by omega, rfl, fun hA => hless (hlt hA)⟩⟩

end Execution

end TransitionSystem
