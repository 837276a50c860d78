import Mathlib.Algebra.GroupWithZero.Nat
import Mathlib.Data.Nat.ModEq

/-!
# Sponge.Lib.OnesComplement

Ones'-complement arithmetic with the largest number `M`: addition carries the
overflow around, so a sum is determined by its residue modulo `M`, except that
the residue zero has two representations, `0` and `M`.  `reduce M n` is the one
that summing up to `n` leads to.  A sum *verifies* when it is `M`, all ones.
-/

namespace Sponge

namespace OnesComplement

/-- Addition with end-around carry. -/
def add (M x y : Nat) : Nat := if x + y ≤ M then x + y else x + y - M

/-- The number from `0` to `M` that stands for `n`; only zero gives zero. -/
def reduce (M n : Nat) : Nat := if n = 0 then 0 else (n - 1) % M + 1

/-- The sum of `ws`, starting from `c`. -/
def sum (M c : Nat) (ws : List Nat) : Nat := ws.foldl (add M) (reduce M c)

variable {M : Nat}

/-- The result is in range. -/
theorem reduce_le (hM : 0 < M) (n : Nat) : reduce M n ≤ M := by
  unfold reduce
  split
  · exact Nat.zero_le _
  · exact Nat.mod_lt _ hM

/-- Only zero becomes zero. -/
theorem reduce_eq_zero {n : Nat} : reduce M n = 0 ↔ n = 0 := by
  unfold reduce
  split <;> simp_all

/-- The remainder is kept. -/
theorem reduce_mod (n : Nat) : reduce M n % M = n % M := by
  unfold reduce
  split
  · next h => rw [h]
  · rw [Nat.mod_add_mod, Nat.sub_add_cancel (by omega)]

/-- In range, nothing is reduced. -/
theorem reduce_of_le {n : Nat} (h : n ≤ M) : reduce M n = n := by
  unfold reduce
  split
  · next h0 => exact h0.symm
  · rw [Nat.mod_eq_of_lt (by omega)]
    omega

/-- Residue and being zero determine the representation. -/
theorem reduce_congr {m n : Nat} (hmod : m % M = n % M) (hzero : m = 0 ↔ n = 0) :
    reduce M m = reduce M n := by
  by_cases hm : m = 0
  · rw [hm, hzero.mp hm]
  · have hn : n ≠ 0 := fun h => hm (hzero.mpr h)
    have hpred : m - 1 ≡ n - 1 [MOD M] := by
      apply Nat.ModEq.add_right_cancel' 1
      rw [Nat.sub_add_cancel (by omega), Nat.sub_add_cancel (by omega)]
      exact hmod
    rw [reduce, reduce, if_neg hm, if_neg hn, hpred]

/-- Adding representations represents the sum. -/
theorem add_reduce (hM : 0 < M) (m n : Nat) :
    add M (reduce M m) (reduce M n) = reduce M (m + n) := by
  have hm := reduce_le hM m
  have hn := reduce_le hM n
  have hmod : (reduce M m + reduce M n) % M = (m + n) % M := by
    rw [Nat.add_mod, reduce_mod, reduce_mod, ← Nat.add_mod]
  unfold add
  split
  · next hle =>
      rw [← reduce_of_le hle]
      refine reduce_congr hmod ?_
      rw [Nat.add_eq_zero_iff, Nat.add_eq_zero_iff, reduce_eq_zero, reduce_eq_zero]
  · next hgt =>
      rw [← reduce_of_le (by omega : reduce M m + reduce M n - M ≤ M)]
      refine reduce_congr ?_ ?_
      · rw [← hmod]
        exact (Nat.mod_eq_sub_mod (by omega)).symm
      · have hne : m + n ≠ 0 := by
          intro h0
          have hm0 : reduce M m = 0 := reduce_eq_zero.mpr (by omega)
          have hn0 : reduce M n = 0 := reduce_eq_zero.mpr (by omega)
          omega
        exact iff_of_false (by omega) hne

/-- A sum of words represents their sum as numbers. -/
theorem sum_eq_reduce (hM : 0 < M) (c : Nat) {ws : List Nat} (h : ∀ w ∈ ws, w ≤ M) :
    sum M c ws = reduce M (c + ws.sum) := by
  unfold sum
  induction ws generalizing c with
  | nil => simp
  | cons w ws ih =>
      rw [List.forall_mem_cons] at h
      have hadd : add M (reduce M c) w = reduce M (c + w) := by
        rw [← add_reduce hM, reduce_of_le h.1]
      rw [List.foldl_cons, hadd, ih _ h.2, List.sum_cons, Nat.add_assoc]

/-- Adding the high part of a number to its low part changes nothing. -/
theorem reduce_div_add_mod (n : Nat) : reduce M (n / (M + 1) + n % (M + 1)) = reduce M n := by
  have hsplit := Nat.div_add_mod n (M + 1)
  refine reduce_congr ?_ ?_
  · have hn : n = M * (n / (M + 1)) + (n / (M + 1) + n % (M + 1)) := by
      rw [← Nat.add_assoc, ← Nat.succ_mul]
      exact hsplit.symm
    conv => rhs; rw [hn]
    rw [Nat.mul_add_mod]
  · constructor
    · intro h0
      obtain ⟨hdiv, hrem⟩ := Nat.add_eq_zero_iff.mp h0
      rw [hdiv, hrem] at hsplit
      omega
    · intro h0
      rw [h0]
      simp

/-- The complement of a sum makes the total verify. -/
theorem reduce_add_complement (hM : 0 < M) (n : Nat) : reduce M (n + (M - reduce M n)) = M := by
  have hle := reduce_le hM n
  have hmod : (n + (M - reduce M n)) % M = M % M := by
    rw [Nat.add_mod, ← reduce_mod n, ← Nat.add_mod, Nat.add_sub_of_le hle]
  have hzero : n + (M - reduce M n) = 0 ↔ M = 0 := by
    refine iff_of_false (fun h0 => ?_) (by omega)
    have hn : reduce M n = 0 := reduce_eq_zero.mpr (by omega)
    omega
  rw [reduce_congr hmod hzero, reduce_of_le (Nat.le_refl M)]

end OnesComplement

end Sponge
