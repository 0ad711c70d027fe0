import Mathlib.Data.List.Induction

/-! # Transition systems with labelled steps

A system is an initial state together with a partial step function: every nondeterministic choice
(who moves, what the environment delivers) is made by the label, and `none` means that the label is
not enabled. Runs are lists of labels, executed by `exec`; `Reachable` is the inductive closure used
by invariant proofs. `restrict` keeps only the labels an assumption on the environment allows, and
`Along` and `Sometime` say that every step, or some step, of one given run meets a condition on the
state it starts from. -/

universe u v

/-- A labelled transition system whose labels resolve all nondeterminism. -/
structure TransitionSystem (σ : Type u) (α : Type v) where
  /-- The state every run starts from. -/
  init : σ
  /-- The state after one label, or `none` where the label is not enabled. -/
  step : σ → α → Option σ

namespace TransitionSystem

variable {σ : Type u} {α : Type v} (M : TransitionSystem σ α)

/-- The states some run leads to. -/
inductive Reachable : σ → Prop
  /-- The initial state is reachable. -/
  | init : Reachable M.init
  /-- One enabled label leads from a reachable state to a reachable state. -/
  | step {s s' : σ} {a : α} (hs : Reachable s) (h : M.step s a = some s') : Reachable s'

/-- **Invariant rule.** What holds initially and is preserved by every step holds in every
reachable state. -/
theorem Reachable.invariant {M : TransitionSystem σ α} {P : σ → Prop} (hinit : P M.init)
    (hstep : ∀ s a s', P s → M.step s a = some s' → P s') {s : σ} (hs : M.Reachable s) : P s := by
  induction hs with
  | init => exact hinit
  | step _ h ih => exact hstep _ _ _ ih h

/-- **Relative invariant rule.** As `Reachable.invariant`, where the step may use an invariant `Q`
that has been established before. -/
theorem Reachable.invariant_of {M : TransitionSystem σ α} {P Q : σ → Prop}
    (hQ : ∀ s, M.Reachable s → Q s) (hinit : P M.init)
    (hstep : ∀ s a s', Q s → P s → M.step s a = some s' → P s') {s : σ} (hs : M.Reachable s) :
    P s := by
  induction hs with
  | init => exact hinit
  | step hs h ih => exact hstep _ _ _ (hQ _ hs) ih h

/-! ## Runs -/

/-- Execute a list of labels from a state. -/
def exec : σ → List α → Option σ
  | s, [] => some s
  | s, a :: run => (M.step s a).bind fun s' => exec s' run

/-- The empty run stays where it is. -/
@[simp] theorem exec_nil (s : σ) : M.exec s [] = some s := rfl

/-- A run that starts with `a` takes the step of `a` first. -/
theorem exec_cons (s : σ) (a : α) (run : List α) :
    M.exec s (a :: run) = (M.step s a).bind fun s' => M.exec s' run := rfl

/-- Two runs one after the other. -/
theorem exec_append (s : σ) (run₁ run₂ : List α) :
    M.exec s (run₁ ++ run₂) = (M.exec s run₁).bind fun s' => M.exec s' run₂ := by
  -- on the first run, from any state it starts from
  induction run₁ generalizing s with
  | nil => rfl
  | cons a run ih =>
      rw [List.cons_append, exec_cons, exec_cons]
      cases h : M.step s a with
      | none => rfl
      | some s' => exact ih s'

/-- A run with one more label at its end. -/
theorem exec_concat {s s' : σ} {run : List α} {a : α} :
    M.exec s (run ++ [a]) = some s' ↔ ∃ t, M.exec s run = some t ∧ M.step t a = some s' := by
  simp [exec_append, exec_cons, Option.bind_eq_some_iff]

/-- Running from a reachable state stays among the reachable states. -/
theorem Reachable.exec {M : TransitionSystem σ α} {s s' : σ} {run : List α} (hs : M.Reachable s)
    (h : M.exec s run = some s') : M.Reachable s' := by
  induction run generalizing s with
  | nil => cases h; exact hs
  | cons a run ih =>
      obtain ⟨t, ht, hrun⟩ := Option.bind_eq_some_iff.mp h
      exact ih (.step hs ht) hrun

/-- A run from the initial state ends in a reachable state. -/
theorem reachable_of_exec {s : σ} {run : List α} (h : M.exec M.init run = some s) :
    M.Reachable s :=
  Reachable.init.exec h

/-- A reachable state is the end of some run. -/
theorem Reachable.exists_exec {M : TransitionSystem σ α} {s : σ} (hs : M.Reachable s) :
    ∃ run, M.exec M.init run = some s := by
  induction hs with
  | init => exact ⟨[], rfl⟩
  | @step s s' a _ h ih =>
      obtain ⟨run, hrun⟩ := ih
      exact ⟨run ++ [a], by rw [exec_append, hrun, Option.bind_some, exec_cons, h]; rfl⟩

/-- A run whose end passes a test, found by evaluation. -/
theorem exists_of_exec_any (run : List α) (p : σ → Bool)
    (h : (M.exec M.init run).any p = true) : ∃ s, M.exec M.init run = some s ∧ p s = true :=
  (Option.any_eq_true p _).mp h

/-! ## Assumptions on the environment -/

/-- The same system with only the labels that `ok` allows in each state. -/
def restrict (ok : σ → α → Bool) : TransitionSystem σ α where
  init := M.init
  step s a := if ok s a then M.step s a else none

/-- A step of the restricted system is an allowed step of the system. -/
theorem restrict_step {ok : σ → α → Bool} {s s' : σ} {a : α} :
    (M.restrict ok).step s a = some s' ↔ ok s a = true ∧ M.step s a = some s' := by
  simp [restrict]

/-- Restricting the environment makes no new state reachable. -/
theorem Reachable.of_restrict {M : TransitionSystem σ α} {ok : σ → α → Bool} {s : σ}
    (hs : (M.restrict ok).Reachable s) : M.Reachable s := by
  induction hs with
  | init => exact .init
  | step _ h ih => exact .step ih (M.restrict_step.mp h).2

/-- A weaker restriction leaves more states reachable. -/
theorem Reachable.restrict_mono {M : TransitionSystem σ α} {ok ok' : σ → α → Bool}
    (hok : ∀ s a, ok s a = true → ok' s a = true) {s : σ} (hs : (M.restrict ok).Reachable s) :
    (M.restrict ok').Reachable s := by
  induction hs with
  | init => exact .init
  | step _ h ih =>
      obtain ⟨hallowed, hstep⟩ := M.restrict_step.mp h
      exact .step ih (M.restrict_step.mpr ⟨hok _ _ hallowed, hstep⟩)

/-- A run of the restricted system is a run of the system. -/
theorem exec_of_restrict {ok : σ → α → Bool} {s s' : σ} {run : List α}
    (h : (M.restrict ok).exec s run = some s') : M.exec s run = some s' := by
  induction run generalizing s with
  | nil => exact h
  | cons a run ih =>
      obtain ⟨t, ht, hrun⟩ := Option.bind_eq_some_iff.mp h
      rw [exec_cons, (M.restrict_step.mp ht).2]
      exact ih hrun

/-! ## Conditions met along a run -/

/-- Every step of the run from `s` meets `C` in the state it is taken from. -/
def Along (C : σ → α → Prop) : σ → List α → Prop
  | _, [] => True
  | s, a :: run => C s a ∧ ∀ s', M.step s a = some s' → Along C s' run

/-- The empty run meets every condition. -/
@[simp] theorem along_nil (C : σ → α → Prop) (s : σ) : M.Along C s [] := trivial

/-- A run with one more label meets `C` when the run does and its last step does. -/
theorem along_concat {C : σ → α → Prop} {s t : σ} {run : List α} {a : α}
    (h : M.exec s run = some t) : M.Along C s (run ++ [a]) ↔ M.Along C s run ∧ C t a := by
  induction run generalizing s with
  | nil => cases h; simp [Along]
  | cons b run ih =>
      obtain ⟨s', hb, hrun⟩ := Option.bind_eq_some_iff.mp h
      have htail : ∀ u, M.step s b = some u → u = s' := fun u hu =>
        Option.some.inj (hu.symm.trans hb)
      -- the run is deterministic, so the tail starts from `s'` only
      constructor
      · rintro ⟨hC, hnext⟩
        have hlast := (ih hrun).mp (hnext s' hb)
        exact ⟨⟨hC, fun u hu => htail u hu ▸ hlast.1⟩, hlast.2⟩
      · rintro ⟨⟨hC, hnext⟩, hlast⟩
        refine ⟨hC, fun u hu => ?_⟩
        rw [htail u hu]
        exact (ih hrun).mpr ⟨hnext s' hb, hlast⟩

/-- Some step of the run from `s` meets `C` in the state it is taken from. -/
def Sometime (C : σ → α → Prop) (s : σ) (run : List α) : Prop :=
  ¬ M.Along (fun s a => ¬ C s a) s run

/-- No step of the empty run meets a condition. -/
@[simp] theorem not_sometime_nil (C : σ → α → Prop) (s : σ) : ¬ M.Sometime C s [] :=
  not_not.mpr trivial

/-- A run with one more label meets `C` sometime when the run does or its last step does. -/
theorem sometime_concat {C : σ → α → Prop} {s t : σ} {run : List α} {a : α}
    (h : M.exec s run = some t) : M.Sometime C s (run ++ [a]) ↔ M.Sometime C s run ∨ C t a := by
  rw [Sometime, Sometime, M.along_concat h, not_and_or, not_not]

/-- **Run rule.** What holds of the empty run and is preserved by one more label holds of every
run from the initial state, together with the state it leads to. -/
theorem exec_induction {M : TransitionSystem σ α} {P : List α → σ → Prop} (hinit : P [] M.init)
    (hstep : ∀ run s a s', M.exec M.init run = some s → P run s → M.step s a = some s' →
      P (run ++ [a]) s') {run : List α} {s : σ} (h : M.exec M.init run = some s) : P run s := by
  -- on the run from its end: `P` may speak of the labels taken so far
  induction run using List.reverseRecOn generalizing s with
  | nil => cases h; exact hinit
  | append_singleton run a ih =>
      obtain ⟨t, ht, ha⟩ := M.exec_concat.mp h
      exact hstep run t a s ht (ih ht) ha

end TransitionSystem
