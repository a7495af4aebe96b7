import Mathlib.Algebra.Order.BigOperators.Group.Finset
import Mathlib.Tactic.Abel

/-!
This module contains assignments of rows to columns at the least cost, and the prices of rows and
columns that show that no other assignment costs less.
-/

universe u v w

namespace Assign

variable {ρ : Type u} {κ : Type v} {M : Type w} [AddCommGroup M]

/-- What is left of a cost when the row and the column have paid their prices. -/
def reduced (a : ρ → κ → M) (u : ρ → M) (v : κ → M) (r : ρ) (k : κ) : M :=
  a r k - u r - v k

section optimal

variable [Fintype ρ] [Fintype κ] {a : ρ → κ → M} {u : ρ → M} {v : κ → M}

theorem sum_prices (σ : ρ ≃ κ) : ∑ r, (u r + v (σ r)) = ∑ r, u r + ∑ k, v k := by
  rw [Finset.sum_add_distrib, Equiv.sum_comp σ v]

variable [PartialOrder M] [IsOrderedAddMonoid M]

theorem sum_le_of_tight (feasible : ∀ r k, 0 ≤ reduced a u v r k) (σ : ρ ≃ κ)
    (tight : ∀ r, reduced a u v r (σ r) = 0) (τ : ρ ≃ κ)
    : ∑ r, a r (σ r) ≤ ∑ r, a r (τ r) := by
  have hpaid : ∀ r, a r (σ r) = u r + v (σ r) := by
    intro r
    have hzero := tight r
    rw [reduced, sub_sub, sub_eq_zero] at hzero
    exact hzero
  have hle : ∀ r, u r + v (τ r) ≤ a r (τ r) := by
    intro r
    have hnonneg := feasible r (τ r)
    rw [reduced, sub_sub, sub_nonneg] at hnonneg
    exact hnonneg
  calc ∑ r, a r (σ r)
      = ∑ r, (u r + v (σ r)) := Finset.sum_congr rfl fun r _ => hpaid r
    _ = ∑ r, (u r + v (τ r)) := by rw [sum_prices, sum_prices]
    _ ≤ ∑ r, a r (τ r) := Finset.sum_le_sum fun r _ => hle r

end optimal

section shift

/-- The rows of the columns `seen` pay `d` more, and the columns pay `d` less. -/
structure Shifted (p : κ → ρ) (seen : List κ) (d : M) (u : ρ → M) (v : κ → M) (u' : ρ → M)
    (v' : κ → M) : Prop where
  row : ∀ j ∈ seen, u' (p j) = u (p j) + d
  otherRow : ∀ r, (∀ j ∈ seen, p j ≠ r) → u' r = u r
  column : ∀ k ∈ seen, v' k = v k - d
  otherColumn : ∀ k ∉ seen, v' k = v k

variable {p : κ → ρ} {seen : List κ} {d : M} {u u' : ρ → M} {v v' : κ → M} {a : ρ → κ → M}

theorem Shifted.reduced_inside (h : Shifted p seen d u v u' v') {j k : κ} (hj : j ∈ seen)
    (hk : k ∈ seen)
    : reduced a u' v' (p j) k = reduced a u v (p j) k := by
  simp only [reduced, h.row j hj, h.column k hk]
  abel

theorem Shifted.reduced_leaving (h : Shifted p seen d u v u' v') {j k : κ} (hj : j ∈ seen)
    (hk : k ∉ seen)
    : reduced a u' v' (p j) k = reduced a u v (p j) k - d := by
  simp only [reduced, h.row j hj, h.otherColumn k hk]
  abel

theorem Shifted.reduced_entering (h : Shifted p seen d u v u' v') {r : ρ} {k : κ}
    (hr : ∀ j ∈ seen, p j ≠ r) (hk : k ∈ seen)
    : reduced a u' v' r k = reduced a u v r k + d := by
  simp only [reduced, h.otherRow r hr, h.column k hk]
  abel

theorem Shifted.reduced_outside (h : Shifted p seen d u v u' v') {r : ρ} {k : κ}
    (hr : ∀ j ∈ seen, p j ≠ r) (hk : k ∉ seen)
    : reduced a u' v' r k = reduced a u v r k := by
  simp only [reduced, h.otherRow r hr, h.otherColumn k hk]

theorem Shifted.refl : Shifted p [] d u v u v :=
  ⟨nofun, fun _ _ => rfl, nofun, fun _ _ => rfl⟩

theorem Shifted.concat [DecidableEq ρ] [DecidableEq κ] (h : Shifted p seen d u v u' v') {j : κ}
    (hrow : ∀ k ∈ seen, p k ≠ p j) (hfresh : j ∉ seen)
    : Shifted p (seen ++ [j]) d u v (Function.update u' (p j) (u (p j) + d))
        (Function.update v' j (v j - d)) := by
  refine ⟨?_, ?_, ?_, ?_⟩
  . intro k hk
    rcases List.mem_append.mp hk with hk | hk
    . rw [Function.update_of_ne (hrow k hk)]
      exact h.row k hk
    . rw [List.mem_singleton.mp hk, Function.update_self]
  . intro r hr
    rw [Function.update_of_ne (hr j (by simp)).symm]
    exact h.otherRow r fun k hk => hr k (List.mem_append_left _ hk)
  . intro k hk
    rcases List.mem_append.mp hk with hk | hk
    . rw [Function.update_of_ne (ne_of_mem_of_not_mem hk hfresh)]
      exact h.column k hk
    . rw [List.mem_singleton.mp hk, Function.update_self]
  . intro k hk
    rw [List.mem_append, List.mem_singleton, not_or] at hk
    rw [Function.update_of_ne hk.2]
    exact h.otherColumn k hk.1

theorem Shifted.of_mem_iff {seen' : List κ} (h : Shifted p seen d u v u' v')
    (hmem : ∀ k, k ∈ seen' ↔ k ∈ seen)
    : Shifted p seen' d u v u' v' where
  row j hj := h.row j ((hmem j).mp hj)
  otherRow r hr := h.otherRow r fun j hj => hr j ((hmem j).mpr hj)
  column k hk := h.column k ((hmem k).mp hk)
  otherColumn k hk := h.otherColumn k fun hseen => hk ((hmem k).mpr hseen)

end shift

end Assign
