import Mathlib.Algebra.BigOperators.Ring.List
import Mathlib.Algebra.Order.BigOperators.Group.List
import Mathlib.Algebra.Order.Field.Basic
import Mathlib.Tactic.Ring

/-! # Means and variances of groups of samples

The mean, the squared deviations and the population variance of a list over a field, and what
becomes of them when the lists are the groups of a larger collection. The mean of a group, weighted
with its size, is the sum of its samples (`mean_mul_length`). The population variance, weighted with
one less than the size, falls short of the squared deviations by the variance itself, so the sum
over all groups is right only if every group is constant (`sum_map_pred_length_mul_variance_iff`).
-/

namespace Samples

variable {K : Type*} [Field K]

/-- The mean. -/
def mean (xs : List K) : K := xs.sum / xs.length

/-- The sum of the squared deviations from the mean. -/
def deviations (xs : List K) : K := (xs.map fun x => (x - mean xs) * (x - mean xs)).sum

/-- The population variance. -/
def variance (xs : List K) : K := deviations xs / xs.length

/-- All samples are the same. -/
def Constant (xs : List K) : Prop := ∀ x ∈ xs, ∀ y ∈ xs, x = y

/-- No samples do not deviate. -/
@[simp] theorem deviations_nil : deviations ([] : List K) = 0 := rfl

/-- No samples do not vary. -/
@[simp] theorem variance_nil : variance ([] : List K) = 0 := by
  rw [variance, deviations_nil, zero_div]

section CharZero

variable [CharZero K]

/-- The size of a group of samples is not zero. -/
theorem length_ne_zero {xs : List K} (h : xs ≠ []) : (xs.length : K) ≠ 0 :=
  Nat.cast_ne_zero.mpr fun hlength => h (List.length_eq_zero_iff.mp hlength)

/-- The mean, weighted with the number of samples, is their sum. -/
theorem mean_mul_length {xs : List K} (h : xs ≠ []) : mean xs * xs.length = xs.sum :=
  div_mul_cancel₀ _ (length_ne_zero h)

/-- The mean of equal samples is each of them. -/
theorem mean_of_constant {xs : List K} (h : Constant xs) {x : K} (hx : x ∈ xs) : mean xs = x := by
  have hsum : xs.sum = xs.length * x := by
    rw [List.sum_eq_card_nsmul xs x fun y hy => h y hy x hx, nsmul_eq_mul]
  rw [mean, hsum, mul_div_cancel_left₀ _ (length_ne_zero (List.ne_nil_of_mem hx))]

/-- One less than the size times the variance falls short of the squared deviations. -/
theorem pred_length_mul_variance (xs : List K) :
    ((xs.length : K) - 1) * variance xs = deviations xs - variance xs := by
  by_cases h : xs = []
  · rw [h, variance_nil, deviations_nil, mul_zero, sub_zero]
  · rw [sub_mul, one_mul, variance, mul_div_cancel₀ _ (length_ne_zero h)]

/-- Over a collection of groups. -/
theorem sum_map_pred_length_mul_variance (groups : List (List K)) :
    (groups.map fun xs => ((xs.length : K) - 1) * variance xs).sum =
      (groups.map deviations).sum - (groups.map variance).sum := by
  induction groups with
  | nil => rw [List.map_nil, List.map_nil, List.map_nil, List.sum_nil, sub_zero]
  | cons xs groups ih =>
      rw [List.map_cons, List.map_cons, List.map_cons, List.sum_cons, List.sum_cons, List.sum_cons,
        ih, pred_length_mul_variance]
      ring

end CharZero

section Order

variable [LinearOrder K] [IsStrictOrderedRing K]

/-- No squared deviation is negative. -/
theorem deviation_nonneg (xs : List K) {d : K}
    (hd : d ∈ xs.map fun x => (x - mean xs) * (x - mean xs)) : 0 ≤ d := by
  obtain ⟨x, -, rfl⟩ := List.mem_map.mp hd
  exact mul_self_nonneg _

/-- Nor is their sum. -/
theorem deviations_nonneg (xs : List K) : 0 ≤ deviations xs :=
  List.sum_nonneg fun _ hd => deviation_nonneg xs hd

/-- A variance is not negative. -/
theorem variance_nonneg (xs : List K) : 0 ≤ variance xs :=
  div_nonneg (deviations_nonneg xs) (Nat.cast_nonneg _)

/-- Samples that do not deviate are all equal to their mean. -/
theorem eq_mean_of_deviations {xs : List K} (h : deviations xs = 0) {x : K} (hx : x ∈ xs) :
    x = mean xs := by
  have hzero := List.all_zero_of_le_zero_le_of_sum_eq_zero (fun _ hd => deviation_nonneg xs hd) h
    (List.mem_map.mpr ⟨x, hx, rfl⟩)
  exact sub_eq_zero.mp (mul_self_eq_zero.mp hzero)

/-- Samples vary unless they are all the same. -/
theorem variance_eq_zero_iff (xs : List K) : variance xs = 0 ↔ Constant xs := by
  constructor
  · intro h x hx y hy
    have hdeviations : deviations xs = 0 :=
      (div_eq_zero_iff.mp h).resolve_right (length_ne_zero (List.ne_nil_of_mem hx))
    rw [eq_mean_of_deviations hdeviations hx, eq_mean_of_deviations hdeviations hy]
  · intro h
    have hzero : deviations xs = 0 := by
      refine List.sum_eq_zero fun d hd => ?_
      obtain ⟨x, hx, rfl⟩ := List.mem_map.mp hd
      rw [mean_of_constant h hx, sub_self, zero_mul]
    rw [variance, hzero, zero_div]

/-- **The wrong weight.** One less than the size is the weight of the population variance only where
no group varies. -/
theorem sum_map_pred_length_mul_variance_iff (groups : List (List K)) :
    (groups.map fun xs => ((xs.length : K) - 1) * variance xs).sum =
        (groups.map deviations).sum ↔
      ∀ xs ∈ groups, Constant xs := by
  have hnonneg : ∀ v ∈ groups.map variance, 0 ≤ v := by
    intro v hv
    obtain ⟨xs, -, rfl⟩ := List.mem_map.mp hv
    exact variance_nonneg xs
  rw [sum_map_pred_length_mul_variance, sub_eq_self]
  constructor
  · intro hsum xs hxs
    have hzero := List.all_zero_of_le_zero_le_of_sum_eq_zero hnonneg hsum
      (List.mem_map.mpr ⟨xs, hxs, rfl⟩)
    exact (variance_eq_zero_iff xs).mp hzero
  · intro hconstant
    refine List.sum_eq_zero fun v hv => ?_
    obtain ⟨xs, hxs, rfl⟩ := List.mem_map.mp hv
    exact (variance_eq_zero_iff xs).mpr (hconstant xs hxs)

end Order

end Samples
