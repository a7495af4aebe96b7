import Mathlib.Algebra.Order.BigOperators.Group.Finset
import Mathlib.Data.Nat.Cast.Order.Ring
import Mathlib.Order.Interval.Finset.Nat

/-!
This module contains the reduction of a uniform draw below `b` to a uniform value below `s` by one
multiplication: the quotient of `x * s` by `b` is the value, and a draw whose remainder is too small
is rejected.
-/

namespace Arith

namespace MultiplyShift

variable (b s : Nat)

def value (x : Nat) : Nat :=
  x * s / b

def Accepted (x : Nat) : Prop :=
  b % s ≤ x * s % b

instance : DecidablePred (Accepted b s) :=
  fun x => inferInstanceAs (Decidable (b % s ≤ x * s % b))

variable {b s}

theorem value_lt {x : Nat} (hx : x < b) (hs : 0 < s) : value b s x < s := by
  rw [value, Nat.div_lt_iff_lt_mul (by omega), Nat.mul_comm s b]
  exact Nat.mul_lt_mul_of_pos_right hx hs

/-- The draws that give a value have their products in one interval, and its length is a multiple
of `s`. -/
theorem accepted_iff {x j : Nat} (hb : 0 < b)
    : Accepted b s x ∧ value b s x = j ↔
        j * b + b % s ≤ x * s ∧ x * s < j * b + b % s + s * (b / s) := by
  have hlength : b % s + s * (b / s) = b := Nat.mod_add_div b s
  have hmod := Nat.mod_add_div (x * s) b
  rw [Nat.add_assoc, hlength, value, Accepted]
  constructor
  . rintro ⟨haccepted, rfl⟩
    have hlt := Nat.mod_lt (x * s) hb
    rw [Nat.mul_comm (x * s / b)]
    omega
  . rintro ⟨hle, hlt⟩
    have hvalue : x * s / b = j := by
      apply Nat.div_eq_of_lt_le
      . omega
      . rw [Nat.succ_mul]
        exact hlt
    rw [hvalue, Nat.mul_comm b j] at hmod
    exact ⟨by omega, hvalue⟩

theorem le_mul_iff {x n : Nat} (hs : 0 < s) : n ≤ x * s ↔ (n + (s - 1)) / s ≤ x := by
  rw [Nat.div_le_iff_le_mul_add_pred hs, Nat.mul_comm s x]
  omega

theorem card_value {j : Nat} (hs : 0 < s) (hb : 0 < b) (hj : j < s)
    : ((Finset.range b).filter fun x => Accepted b s x ∧ value b s x = j).card = b / s := by
  let first := (j * b + b % s + (s - 1)) / s
  have hdraws : (Finset.range b).filter (fun x => Accepted b s x ∧ value b s x = j) =
      Finset.Ico first (first + b / s) := by
    ext x
    rw [Finset.mem_filter, Finset.mem_range, Finset.mem_Ico, accepted_iff hb, le_mul_iff hs]
    have hend : x * s < j * b + b % s + s * (b / s) ↔ x < first + b / s := by
      rw [← Nat.not_le, le_mul_iff hs, ← Nat.not_le]
      have hsum : j * b + b % s + s * (b / s) + (s - 1) =
          j * b + b % s + (s - 1) + s * (b / s) := by omega
      rw [hsum, Nat.add_mul_div_left _ _ hs]
    rw [hend]
    constructor
    . rintro ⟨_, h⟩
      exact h
    . intro h
      refine ⟨?_, h⟩
      have hlt := hend.mpr h.2
      rw [Nat.add_assoc, Nat.mod_add_div, ← Nat.succ_mul] at hlt
      have hle : (j + 1) * b ≤ s * b := Nat.mul_le_mul_right b hj
      rw [Nat.mul_comm s b] at hle
      exact lt_of_mul_lt_mul_right (Nat.lt_of_lt_of_le hlt hle) (Nat.zero_le s)
  rw [hdraws, Nat.card_Ico, Nat.add_sub_cancel_left]

theorem card_rejected (hs : 0 < s) (hb : 0 < b)
    : ((Finset.range b).filter fun x => ¬ Accepted b s x).card = b % s := by
  have haccepted : ((Finset.range b).filter (Accepted b s)).card = s * (b / s) := by
    have hmaps : Set.MapsTo (value b s) ((Finset.range b).filter (Accepted b s))
        (Finset.range s) := by
      intro x hx
      have hx := Finset.mem_filter.mp hx
      exact Finset.mem_coe.mpr (Finset.mem_range.mpr (value_lt (Finset.mem_range.mp hx.1) hs))
    rw [Finset.card_eq_sum_card_fiberwise hmaps]
    have hfiber : ∀ j ∈ Finset.range s,
        (((Finset.range b).filter (Accepted b s)).filter fun x => value b s x = j).card =
          b / s := by
      intro j hj
      rw [Finset.filter_filter]
      exact card_value hs hb (Finset.mem_range.mp hj)
    rw [Finset.sum_const_nat hfiber, Finset.card_range]
  have hsplit := Finset.card_filter_add_card_filter_not (s := Finset.range b) (Accepted b s)
  rw [haccepted, Finset.card_range] at hsplit
  have hdiv := Nat.mod_add_div b s
  omega

end MultiplyShift

end Arith
