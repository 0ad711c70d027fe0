import WsPerftester.Lib.TransitionSystem

/-! # What is observed along a run

An observer `f` reads off each step what it is interested in: the messages a party sends, those it
receives. `observe f` is everything it has seen of a run, in the order of the steps. The
observations of a run followed by another one are those of the first followed by those of the second
(`observe_append`), so a relation between several observers and the end of the run is proved one
step at a time: from the start of the run on (`observe_induction`), or from the step on that brought
about what holds at its end (`observe_since`). -/

universe u v w

namespace TransitionSystem

variable {σ : Type u} {α : Type v} {β γ : Type w} (M : TransitionSystem σ α)

/-- What `f` sees of each step of a run from `s`, in the order of the steps. -/
def observe (f : σ → α → List β) : σ → List α → List β
  | _, [] => []
  | s, a :: run => f s a ++ ((M.step s a).map fun s' => observe f s' run).getD []

variable (f : σ → α → List β)

/-- Nothing is seen of the empty run. -/
@[simp] theorem observe_nil (s : σ) : M.observe f s [] = [] := rfl

/-- The first step is seen first. -/
theorem observe_cons {s s' : σ} {a : α} (h : M.step s a = some s') (run : List α) :
    M.observe f s (a :: run) = f s a ++ M.observe f s' run := by
  simp [observe, h]

/-- **Two runs one after the other** are seen one after the other. -/
theorem observe_append {s t : σ} {run₁ : List α} (h : M.exec s run₁ = some t) (run₂ : List α) :
    M.observe f s (run₁ ++ run₂) = M.observe f s run₁ ++ M.observe f t run₂ := by
  induction run₁ generalizing s with
  | nil => cases h; rfl
  | cons a run₁ ih =>
      obtain ⟨s', ha, hrun⟩ := Option.bind_eq_some_iff.mp h
      rw [List.cons_append, M.observe_cons f ha, M.observe_cons f ha, ih hrun, List.append_assoc]

/-- The last step is seen last. -/
theorem observe_concat {s t : σ} {run : List α} (h : M.exec s run = some t) {a : α}
    (ha : (M.step t a).isSome = true) :
    M.observe f s (run ++ [a]) = M.observe f s run ++ f t a := by
  obtain ⟨t', ht'⟩ := Option.isSome_iff_exists.mp ha
  rw [M.observe_append f h, M.observe_cons f ht', observe_nil, List.append_nil]

/-- An observer that picks from what another one sees picks from everything it has seen. -/
theorem observe_filterMap (g : β → Option γ) {s t : σ} {run : List α}
    (h : M.exec s run = some t) :
    M.observe (fun s a => (f s a).filterMap g) s run = (M.observe f s run).filterMap g := by
  induction run generalizing s with
  | nil => rfl
  | cons a run ih =>
      obtain ⟨s', ha, hrun⟩ := Option.bind_eq_some_iff.mp h
      rw [M.observe_cons _ ha, M.observe_cons f ha, List.filterMap_append, ih hrun]

variable {M f}

/-- **History rule.** A relation between what two observers have seen and the state reached holds of
every run from a reachable state when it holds before the run and every step keeps it. -/
theorem observe_induction {g : σ → α → List γ} {P : List β → List γ → σ → Prop} {s : σ}
    (hs : M.Reachable s) (hstart : P [] [] s)
    (hstep : ∀ bs gs t a t', M.Reachable t → P bs gs t → M.step t a = some t' →
      P (bs ++ f t a) (gs ++ g t a) t')
    {run : List α} {t : σ} (h : M.exec s run = some t) :
    P (M.observe f s run) (M.observe g s run) t := by
  -- on the run from its end: the last step is seen last
  induction run using List.reverseRecOn generalizing t with
  | nil => cases h; exact hstart
  | append_singleton run a ih =>
      obtain ⟨u, hu, ha⟩ := M.exec_concat.mp h
      have hsome : (M.step u a).isSome = true := by rw [ha]; rfl
      rw [M.observe_concat f hu hsome, M.observe_concat g hu hsome]
      exact hstep _ _ u a t (hs.exec hu) (ih hu) ha

/-- **Since-rule.** Where `J` holds at the end of a run but not at its start, some step of the run
has brought it about. Let `E` describe such a step and `P` relate its first state, what the
observers have seen since and the state reached; then the run splits at a step with `E`, and `P`
holds of the part behind it. -/
theorem observe_since {g : σ → α → List γ} {J : σ → Prop} {E : σ → α → σ → Prop}
    {P : σ → List β → List γ → σ → Prop} (hinit : ¬ J M.init)
    (henter : ∀ s a s', M.Reachable s → M.step s a = some s' → ¬ J s → J s' →
      E s a s' ∧ P s [] [] s')
    (hstep : ∀ s bs gs t a t', M.Reachable t → J t → J t' → P s bs gs t → M.step t a = some t' →
      P s (bs ++ f t a) (gs ++ g t a) t')
    {run : List α} {t : σ} (h : M.exec M.init run = some t) (hJ : J t) :
    ∃ before a after s s₁, run = before ++ a :: after ∧ M.exec M.init before = some s ∧
      M.step s a = some s₁ ∧ M.exec s₁ after = some t ∧ E s a s₁ ∧
      P s (M.observe f s₁ after) (M.observe g s₁ after) t := by
  -- on the run from its end: its last step brings `J` about, or `J` held before it
  induction run using List.reverseRecOn generalizing t with
  | nil =>
      cases h
      exact absurd hJ hinit
  | append_singleton run a ih =>
      obtain ⟨u, hu, ha⟩ := M.exec_concat.mp h
      have hreach := M.reachable_of_exec hu
      by_cases hJu : J u
      · obtain ⟨before, b, after, s, s₁, rfl, hbefore, hb, hafter, hE, hP⟩ := ih hu hJu
        have hsome : (M.step u a).isSome = true := by rw [ha]; rfl
        refine ⟨before, b, after ++ [a], s, s₁, by simp, hbefore, hb,
          M.exec_concat.mpr ⟨u, hafter, ha⟩, hE, ?_⟩
        rw [M.observe_concat f hafter hsome, M.observe_concat g hafter hsome]
        exact hstep s _ _ u a t hreach hJu hJ hP ha
      · obtain ⟨hE, hP⟩ := henter u a t hreach ha hJu hJ
        exact ⟨run, a, [], u, t, rfl, hu, ha, rfl, hE, hP⟩

end TransitionSystem
