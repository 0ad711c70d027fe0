import Mathlib

/-! # Code that changes a state and may end early

`Leads P x Q R` is the Hoare triple of code `x` on a state that may also throw: from a state that
meets `P` it ends normally in one that meets `Q`, or throws some `e` in one that meets `R e`. The
rules are those of consequence, of sequencing and of counted loops, whose invariant is indexed by
the number of rounds made; `Leads.ending` says what a triple means for one run. -/

namespace EarlyExit

open Std.Do

variable {ε σ : Type}

/-- The loop `for (int k = 0; k < n; k++)` around `f`. -/
def forRange (n : Nat) (f : Nat → ExceptT ε (StateM σ) Unit) : ExceptT ε (StateM σ) Unit := do
  for k in List.range n do f k

/-- The Hoare triple of code that may end early. -/
def Leads (P : σ → Prop) (x : ExceptT ε (StateM σ) Unit) (Q : σ → Prop) (R : ε → σ → Prop) : Prop :=
  ⦃fun s => ⌜P s⌝⦄ x ⦃post⟨fun _ s => ⌜Q s⌝, fun e s => ⌜R e s⌝⟩⦄

namespace Leads

variable {P P' Q Q' S : σ → Prop} {R R' : ε → σ → Prop} {x y : ExceptT ε (StateM σ) Unit}

/-- **One run.** A run from a state that meets the precondition ends as the triple says. -/
theorem ending (h : Leads P x Q R) {s : σ} (hs : P s) :
    (∃ s', x.run.run s = (.ok (), s') ∧ Q s') ∨ ∃ e s', x.run.run s = (.error e, s') ∧ R e s' := by
  have hrun := h s hs
  rcases hend : x.run.run s with ⟨ending, s'⟩
  simp only [wp, PredTrans.apply_pushExcept, PredTrans.apply_pushArg, hend] at hrun
  cases ending with
  | ok u => exact .inl ⟨s', rfl, hrun⟩
  | error e => exact .inr ⟨e, s', rfl, hrun⟩

/-- A triple is what it says about the runs from each state. -/
theorem of_state (h : ∀ s₀, P s₀ → Leads (fun s => s = s₀) x Q R) : Leads P x Q R :=
  fun s hs => h s hs s rfl

/-- **Consequence.** -/
theorem mono (h : Leads P x Q R) (hP : ∀ s, P' s → P s) (hQ : ∀ s, Q s → Q' s)
    (hR : ∀ e s, R e s → R' e s) : Leads P' x Q' R' := by
  intro s hs
  refine (wp x).mono _ _ ?_ s (h s (hP s hs))
  exact ⟨fun _ s => hQ s, fun e s => hR e s, trivial⟩

/-- **Sequencing.** -/
theorem seq (hx : Leads P x Q R) (hy : Leads Q y S R) : Leads P (do x; y) S R :=
  Triple.bind x (fun _ => y) hx fun _ => hy

/-! ## Counted loops -/

/-- In front of the element `cur` of `0, 1, …, n - 1` there are `cur` elements. -/
theorem eq_length_of_range {n cur : Nat} {before after : List Nat}
    (h : List.range n = before ++ cur :: after) : cur = before.length ∧ cur < n := by
  have hmem : cur ∈ List.range n := by
    rw [h]
    exact List.mem_append_right before List.mem_cons_self
  have hget : (List.range n)[before.length]? = some cur := by
    rw [h, List.getElem?_append_right (Nat.le_refl _), Nat.sub_self, List.getElem?_cons_zero]
  obtain ⟨hlt, hcur⟩ := List.getElem?_eq_some_iff.mp hget
  rw [List.getElem_range] at hcur
  exact ⟨hcur.symm, List.mem_range.mp hmem⟩

/-- **Counted loops.** If round `k` leads from `I k` to `I (k + 1)`, the loop leads from `I 0` to
`I n`. -/
theorem forRange {n : Nat} {f : Nat → ExceptT ε (StateM σ) Unit} {I : Nat → σ → Prop}
    (hround : ∀ k < n, Leads (I k) (f k) (I (k + 1)) R) :
    Leads (I 0) (EarlyExit.forRange n f) (I n) R := by
  have hloop := @Spec.forIn_list Nat PUnit (ExceptT ε (StateM σ)) (.except ε (.arg σ .pure)) _ _
    (List.range n) PUnit.unit (fun k _ => do f k; pure (.yield PUnit.unit))
    post⟨fun (xs, _) s => ⌜I xs.prefix.length s⌝, fun e s => ⌜R e s⌝⟩ ?_
  · simpa [Leads, EarlyExit.forRange] using hloop
  · -- the cursor stands in front of the element that counts the rounds made
    intro before cur after h _
    obtain ⟨rfl, hlt⟩ := eq_length_of_range h
    refine Triple.bind _ _ (hround before.length hlt) fun _ => Triple.pure _ ?_
    simp

end Leads

end EarlyExit
