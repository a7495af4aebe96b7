import Mathlib.Algebra.BigOperators.Group.List.Basic
import Mathlib.Algebra.Ring.Nat

/-!
This module contains sharing an amount out by weight, each share rounded down.
-/

namespace Arith

def share (amount total weight : Nat) : Nat :=
  amount * weight / total

@[simp]
theorem share_zero (amount total : Nat) : share amount total 0 = 0 := by
  simp [share]

theorem mul_sum_share_le (amount total : Nat) (weights : List Nat)
    : total * (weights.map (share amount total)).sum ≤ amount * weights.sum := by
  induction weights with
  | nil => simp
  | cons weight weights ih =>
    have hle := Nat.mul_div_le (amount * weight) total
    rw [List.map_cons, List.sum_cons, List.sum_cons, Nat.mul_add, Nat.mul_add, share]
    omega

theorem sum_share_le {amount total : Nat} {weights : List Nat} (hpos : 0 < total)
    (h : weights.sum ≤ total) : (weights.map (share amount total)).sum ≤ amount := by
  have hle := mul_sum_share_le amount total weights
  have hmul := Nat.mul_le_mul_left amount h
  rw [Nat.mul_comm amount total] at hmul
  exact Nat.le_of_mul_le_mul_left (Nat.le_trans hle hmul) hpos

theorem sum_share_lt {amount total : Nat} {weights : List Nat} (hamount : 0 < amount)
    (h : weights.sum < total) : (weights.map (share amount total)).sum < amount := by
  have hle := mul_sum_share_le amount total weights
  have hmul := Nat.mul_lt_mul_of_pos_left h hamount
  rw [Nat.mul_comm amount total] at hmul
  exact Nat.lt_of_mul_lt_mul_left (Nat.lt_of_le_of_lt hle hmul)

end Arith
