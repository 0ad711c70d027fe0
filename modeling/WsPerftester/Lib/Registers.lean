import Mathlib.Data.List.Basic

/-! # Sums in a register

A signed register of `m` values holds an integer up to a multiple of `m`, as the representative
around 0. Additions in the register give the representative of the exact sum, so that overflows on
the way do no harm as long as the sum fits. `accumulates_exactly_iff` says how large the register
has to be for the sums of all lists of bounded length whose elements are bounded. -/

namespace Register

/-- What a register of `m` values holds after an integer has been stored. -/
def wrap (m : Nat) (z : Int) : Int := z.bmod m

/-- The values a register can hold. -/
def Fits (m : Nat) (z : Int) : Prop := -((m : Int) / 2) ≤ z ∧ z < ((m : Int) + 1) / 2

/-- The exact sum. -/
def sum (xs : List Int) : Int := xs.foldr (· + ·) 0

/-- The register after the elements of a list have been added to it one after the other. -/
def accumulate (m : Nat) (r : Int) (xs : List Int) : Int := xs.foldl (fun r x => wrap m (r + x)) r

variable {m : Nat}

/-- A register can hold what it holds. -/
theorem fits_wrap (hm : 0 < m) (z : Int) : Fits m (wrap m z) := ⟨Int.le_bmod hm, Int.bmod_lt hm⟩

/-- What fits is stored as it is. -/
theorem wrap_of_fits {z : Int} (h : Fits m z) : wrap m z = z := Int.bmod_eq_of_le h.1 h.2

/-- Only what fits is stored as it is. -/
theorem wrap_eq_iff (hm : 0 < m) {z : Int} : wrap m z = z ↔ Fits m z :=
  ⟨fun h => h ▸ fits_wrap hm z, wrap_of_fits⟩

/-- An addition in the register. -/
theorem wrap_wrap_add (z x : Int) : wrap m (wrap m z + x) = wrap m (z + x) := Int.bmod_add_bmod

/-- A multiplication in the register. -/
theorem wrap_wrap_mul (z x : Int) : wrap m (wrap m z * x) = wrap m (z * x) := Int.bmod_mul_bmod

@[simp] theorem sum_nil : sum [] = 0 := rfl

@[simp] theorem sum_cons (x : Int) (xs : List Int) : sum (x :: xs) = x + sum xs := rfl

/-- **Additions wrap once.** The register holds what is left of the exact sum. -/
theorem accumulate_eq (z : Int) (xs : List Int) :
    accumulate m (wrap m z) xs = wrap m (z + sum xs) := by
  induction xs generalizing z with
  | nil => rw [sum_nil, Int.add_zero]; rfl
  | cons x xs ih =>
      have hfirst : accumulate m (wrap m z) (x :: xs) = accumulate m (wrap m (z + x)) xs := by
        rw [← wrap_wrap_add]
        rfl
      rw [hfirst, ih, sum_cons, Int.add_assoc]

/-! ## How large the register has to be -/

/-- The sum of bounded elements. -/
theorem sum_bounds {b : Int} {xs : List Int} (h : ∀ x ∈ xs, 0 ≤ x ∧ x ≤ b) :
    0 ≤ sum xs ∧ sum xs ≤ xs.length * b := by
  induction xs with
  | nil => simp
  | cons x xs ih =>
      obtain ⟨hx, hxs⟩ := List.forall_mem_cons.mp h
      obtain ⟨hnonneg, hle⟩ := ih hxs
      rw [sum_cons, List.length_cons, Int.natCast_add, Int.natCast_one, Int.add_mul, Int.one_mul]
      omega

/-- The bound is reached. -/
theorem sum_replicate (n : Nat) (b : Int) : sum (List.replicate n b) = n * b := by
  induction n with
  | zero => simp
  | succ n ih =>
      rw [List.replicate_succ, sum_cons, ih, Int.natCast_add, Int.natCast_one, Int.add_mul,
        Int.one_mul, Int.add_comm]

/-- The positive elements are no more than their sum. -/
theorem countP_le_sum {xs : List Int} (h : ∀ x ∈ xs, 0 ≤ x) :
    ((xs.countP fun x => 0 < x : Nat) : Int) ≤ sum xs := by
  induction xs with
  | nil => exact Int.le_refl 0
  | cons x xs ih =>
      obtain ⟨hx, hxs⟩ := List.forall_mem_cons.mp h
      have hrest := ih hxs
      rw [List.countP_cons, sum_cons]
      by_cases hpos : 0 < x
      · rw [if_pos (decide_eq_true hpos)]
        omega
      · rw [if_neg (by simpa using hpos)]
        omega

/-- A register that can hold `n * b` can hold the sum of `n` elements between 0 and `b`. -/
theorem fits_sum {n : Nat} {b : Int} (hb : 0 ≤ b) (hfits : Fits m (n * b)) {xs : List Int}
    (hlength : xs.length ≤ n) (hxs : ∀ x ∈ xs, 0 ≤ x ∧ x ≤ b) : Fits m (sum xs) := by
  obtain ⟨hnonneg, hle⟩ := sum_bounds hxs
  have hbound : (xs.length : Int) * b ≤ n * b :=
    Int.mul_le_mul_of_nonneg_right (Int.ofNat_le.mpr hlength) hb
  exact ⟨by omega, Int.lt_of_le_of_lt (Int.le_trans hle hbound) hfits.2⟩

/-- An empty register holds what is left of the sum. -/
theorem accumulate_zero (hm : 0 < m) (xs : List Int) : accumulate m 0 xs = wrap m (sum xs) := by
  have hzero : wrap m 0 = 0 := wrap_of_fits ⟨by omega, by omega⟩
  have heq := @accumulate_eq m 0 xs
  rwa [hzero, Int.zero_add] at heq

/-- **The size of the register.** It holds the sums of all lists of at most `n` elements between 0
and `b` exactly if it can hold `n * b`. -/
theorem accumulates_exactly_iff (hm : 0 < m) {n : Nat} {b : Int} (hb : 0 ≤ b) :
    (∀ xs : List Int, xs.length ≤ n → (∀ x ∈ xs, 0 ≤ x ∧ x ≤ b) → accumulate m 0 xs = sum xs) ↔
      Fits m (n * b) := by
  constructor
  · intro h
    have hall := h (List.replicate n b) (Nat.le_of_eq List.length_replicate) fun x hx => by
      rw [List.eq_of_mem_replicate hx]
      exact ⟨hb, Int.le_refl b⟩
    rw [accumulate_zero hm, sum_replicate] at hall
    exact (wrap_eq_iff hm).mp hall
  · intro hfits xs hlength hxs
    rw [accumulate_zero hm]
    exact wrap_of_fits (fits_sum hb hfits hlength hxs)

end Register
