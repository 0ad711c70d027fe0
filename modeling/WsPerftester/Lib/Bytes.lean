import Mathlib.Data.List.Basic

/-! # Words stored byte by byte

A loop that fills an array block by block, and what the blocks tell about the words they were cut
from: a word cut into `n` bytes at distances of `s` bits can be recovered from them up to its bit
`s * (n - 1) + 8`, and no further (`bytes_eq_iff`). With `s = 8` that is the whole word; with a
smaller distance the bytes overlap and the high bits are lost. -/

namespace Bytes

/-! ## Filling an array -/

section Fill

variable {α : Type*}

/-- `for (j = 0; j < n; j++) xs[offset + j] = v(j)`. -/
def fill (n offset : Nat) (v : Nat → α) (xs : List α) : List α :=
  (List.range n).foldl (fun xs j => xs.set (offset + j) (v j)) xs

/-- `m` blocks of `n` elements each, one after the other. -/
def fillBlocks (m n : Nat) (v : Nat → Nat → α) (xs : List α) : List α :=
  (List.range m).foldl (fun xs k => fill n (n * k) (v k) xs) xs

theorem fill_succ (n offset : Nat) (v : Nat → α) (xs : List α) :
    fill (n + 1) offset v xs = (fill n offset v xs).set (offset + n) (v n) := by
  rw [fill, List.range_succ, List.foldl_append]
  rfl

theorem fillBlocks_succ (m n : Nat) (v : Nat → Nat → α) (xs : List α) :
    fillBlocks (m + 1) n v xs = fill n (n * m) (v m) (fillBlocks m n v xs) := by
  rw [fillBlocks, List.range_succ, List.foldl_append]
  rfl

@[simp] theorem length_fill (n offset : Nat) (v : Nat → α) (xs : List α) :
    (fill n offset v xs).length = xs.length := by
  induction n with
  | zero => rfl
  | succ n ih => rw [fill_succ, List.length_set, ih]

@[simp] theorem length_fillBlocks (m n : Nat) (v : Nat → Nat → α) (xs : List α) :
    (fillBlocks m n v xs).length = xs.length := by
  induction m with
  | zero => rfl
  | succ m ih => rw [fillBlocks_succ, length_fill, ih]

/-- Filling a range leaves the rest as it is. -/
theorem getElem?_fill (n offset : Nat) (v : Nat → α) {xs : List α} {i : Nat} (hi : i < xs.length) :
    (fill n offset v xs)[i]? =
      if offset ≤ i ∧ i < offset + n then some (v (i - offset)) else xs[i]? := by
  induction n with
  | zero => rw [if_neg (by omega)]; rfl
  | succ n ih =>
      rw [fill_succ]
      by_cases hlast : offset + n = i
      · subst hlast
        rw [List.getElem?_set_self (by rwa [length_fill]), if_pos (by omega),
          Nat.add_sub_cancel_left]
      · rw [List.getElem?_set_ne hlast, ih]
        by_cases hrange : offset ≤ i ∧ i < offset + n
        · rw [if_pos hrange, if_pos (by omega)]
        · rw [if_neg hrange, if_neg (by omega)]

/-- The elements of the blocks. -/
theorem getElem?_fillBlocks {m n : Nat} (v : Nat → Nat → α) {xs : List α} {k j : Nat} (hk : k < m)
    (hj : j < n) (hlength : n * m ≤ xs.length) :
    (fillBlocks m n v xs)[n * k + j]? = some (v k j) := by
  -- on the blocks filled so far: the last one or an earlier one
  induction m with
  | zero => exact absurd hk (Nat.not_lt_zero k)
  | succ m ih =>
      have hblock : n * k + n ≤ n * (m + 1) := by
        rw [← Nat.mul_succ]
        exact Nat.mul_le_mul_left n hk
      rw [fillBlocks_succ, getElem?_fill _ _ _ (by rw [length_fillBlocks]; omega)]
      rcases Nat.lt_succ_iff_lt_or_eq.mp hk with hlt | rfl
      · have hbefore : n * k + n ≤ n * m := by
          rw [← Nat.mul_succ]
          exact Nat.mul_le_mul_left n hlt
        rw [if_neg (by omega)]
        exact ih hlt (Nat.le_trans (Nat.mul_le_mul_left n (Nat.le_succ m)) hlength)
      · rw [if_pos (by omega), Nat.add_sub_cancel_left]

/-- **Arrays filled by blocks** are equal when all their elements are. -/
theorem fillBlocks_eq_iff {m n : Nat} {v v' : Nat → Nat → α} {xs ys : List α}
    (hxs : xs.length = n * m) (hys : ys.length = n * m) :
    fillBlocks m n v xs = fillBlocks m n v' ys ↔ ∀ k < m, ∀ j < n, v k j = v' k j := by
  constructor
  · intro heq k hk j hj
    have hx := getElem?_fillBlocks v hk hj (Nat.le_of_eq hxs.symm)
    rw [heq, getElem?_fillBlocks v' hk hj (Nat.le_of_eq hys.symm)] at hx
    exact (Option.some.inj hx).symm
  · intro hall
    refine List.ext_getElem? fun i => ?_
    rcases Nat.lt_or_ge i (n * m) with hi | hi
    · have hn : 0 < n := Nat.pos_of_ne_zero fun h => by simp [h] at hi
      have hk : i / n < m := Nat.div_lt_of_lt_mul hi
      have hj : i % n < n := Nat.mod_lt i hn
      rw [← Nat.div_add_mod i n, getElem?_fillBlocks v hk hj (Nat.le_of_eq hxs.symm),
        getElem?_fillBlocks v' hk hj (Nat.le_of_eq hys.symm), hall _ hk _ hj]
    · rw [List.getElem?_eq_none (by rw [length_fillBlocks, hxs]; exact hi),
        List.getElem?_eq_none (by rw [length_fillBlocks, hys]; exact hi)]

end Fill

/-! ## The bytes of a word -/

section Words

variable {w : Nat}

/-- The byte of a word that starts at bit `k`. -/
def byteAt (x : BitVec w) (k : Nat) : BitVec 8 := (x >>> k).setWidth 8

/-- Masking with `0xFF` in front of the truncation changes nothing. -/
theorem setWidth_and_mask (x : BitVec 64) : (x &&& 0xFF#64).setWidth 8 = x.setWidth 8 := by
  have hmask : ∀ i < 8, (0xFF#64).getLsbD i = true := by decide
  refine BitVec.eq_of_getLsbD_eq fun i hi => ?_
  rw [BitVec.getLsbD_setWidth, BitVec.getLsbD_setWidth, BitVec.getLsbD_and, hmask i hi,
    Bool.and_true]

/-- The bits of a byte are bits of the word. -/
theorem byteAt_eq_iff {x y : BitVec w} {k : Nat} :
    byteAt x k = byteAt y k ↔ ∀ i < 8, x.getLsbD (k + i) = y.getLsbD (k + i) := by
  constructor
  · intro h i hi
    have hbit := congrArg (fun b : BitVec 8 => b.getLsbD i) h
    simpa [byteAt, BitVec.getLsbD_setWidth, BitVec.getLsbD_ushiftRight, hi] using hbit
  · intro h
    refine BitVec.eq_of_getLsbD_eq fun i hi => ?_
    simpa [byteAt, BitVec.getLsbD_setWidth, BitVec.getLsbD_ushiftRight, hi] using h i hi

/-- **What the bytes tell about the word.** The `n` bytes of a word at distances of `s` bits are
those of another one exactly if the words agree up to the end of the last byte. -/
theorem bytes_eq_iff {x y : BitVec w} {s n : Nat} (hs : 0 < s) (hs' : s ≤ 8) (hn : 0 < n) :
    (∀ j < n, byteAt x (s * j) = byteAt y (s * j)) ↔
      x.setWidth (s * (n - 1) + 8) = y.setWidth (s * (n - 1) + 8) := by
  have hbits : x.setWidth (s * (n - 1) + 8) = y.setWidth (s * (n - 1) + 8) ↔
      ∀ i < s * (n - 1) + 8, x.getLsbD i = y.getLsbD i := by
    constructor
    · intro h i hi
      have hbit := congrArg (fun b : BitVec (s * (n - 1) + 8) => b.getLsbD i) h
      simpa [BitVec.getLsbD_setWidth, hi] using hbit
    · intro h
      refine BitVec.eq_of_getLsbD_eq fun i hi => ?_
      simpa [BitVec.getLsbD_setWidth, hi] using h i hi
  rw [hbits]
  constructor
  · intro h i hi
    -- the byte that covers the bit is the last one, or starts less than `s` bits before it
    by_cases hlast : s * (n - 1) ≤ i
    · have hbit := byteAt_eq_iff.mp (h (n - 1) (by omega)) (i - s * (n - 1)) (by omega)
      rwa [Nat.add_sub_cancel' hlast] at hbit
    · have hj : i / s < n - 1 := Nat.div_lt_of_lt_mul (by omega)
      have hrest : i % s < s := Nat.mod_lt i hs
      have hbit := byteAt_eq_iff.mp (h (i / s) (by omega)) (i % s) (by omega)
      rwa [Nat.div_add_mod] at hbit
  · intro h j hj
    refine byteAt_eq_iff.mpr fun i hi => h _ ?_
    have hle : s * j ≤ s * (n - 1) := Nat.mul_le_mul_left s (by omega)
    omega

end Words

end Bytes
