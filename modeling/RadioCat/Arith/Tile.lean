import Mathlib.Algebra.Ring.Nat

/-!
This module contains the division of `count` things into `parts` parts of consecutive things, as
even as rounding down allows: part `i` starts at `tile count parts i`.
-/

namespace Arith

def tile (count parts i : Nat) : Nat :=
  i * count / parts

section

variable {count parts : Nat}

theorem tile_zero : tile count parts 0 = 0 := by
  rw [tile, Nat.zero_mul, Nat.zero_div]

theorem tile_parts (hparts : 0 < parts) : tile count parts parts = count :=
  Nat.mul_div_cancel_left count hparts

theorem tile_mono {i j : Nat} (h : i ≤ j) : tile count parts i ≤ tile count parts j :=
  Nat.div_le_div_right (Nat.mul_le_mul_right count h)

theorem tile_lt {i : Nat} (hi : i < parts) (hcount : 0 < count) : tile count parts i < count := by
  apply Nat.div_lt_of_lt_mul
  exact Nat.mul_lt_mul_of_pos_right hi hcount

theorem tile_succ (hparts : 0 < parts) (h : parts ≤ count) (i : Nat)
    : tile count parts i + 1 ≤ tile count parts (i + 1) := by
  unfold tile
  rw [← Nat.add_div_right _ hparts, Nat.succ_mul]
  apply Nat.div_le_div_right
  omega

theorem exists_tile {k : Nat} (hk : k < count) (hparts : 0 < parts)
    : ∃ i < parts, tile count parts i ≤ k ∧ k < tile count parts (i + 1) := by
  have hcount : 0 < count := by omega
  have hle : (k + 1) * parts ≤ count * parts := Nat.mul_le_mul_right parts hk
  have hpos : 0 < (k + 1) * parts := Nat.mul_pos (Nat.succ_pos k) hparts
  -- the last part that starts before the end of `k`
  have hlast := Nat.div_add_mod ((k + 1) * parts - 1) count
  have hmod := Nat.mod_lt ((k + 1) * parts - 1) hcount
  generalize ((k + 1) * parts - 1) / count = i at hlast
  have hbelow : i * count < (k + 1) * parts := by
    rw [Nat.mul_comm]
    omega
  have habove : (k + 1) * parts ≤ (i + 1) * count := by
    rw [Nat.succ_mul i, Nat.mul_comm i]
    omega
  refine ⟨i, ?_, ?_, ?_⟩
  . apply Nat.lt_of_mul_lt_mul_right (a := count)
    rw [Nat.mul_comm parts]
    omega
  . apply Nat.le_of_lt_succ
    exact Nat.div_lt_of_lt_mul (Nat.mul_comm (k + 1) parts ▸ hbelow)
  . exact (Nat.le_div_iff_mul_le hparts).mpr habove

end

end Arith
