import Mathlib.Data.List.Induction
import Mathlib.Data.List.Nodup

/-!
This module contains counted loops whose turns may fail, and tables that are kept in one list, row
after row, as such loops fill them.
-/

universe u v w

namespace Arith

section loops

variable {σ : Type u} {I : Nat → σ → Prop} {s : σ}

/-- The rule for a loop that counts from `a`: `I k` holds after `k` turns. -/
theorem foldlM_range' {f : σ → Nat → Option σ} (a n : Nat) (start : I 0 s)
    (step : ∀ k s, k < n → I k s → ∃ s', f s (a + k) = some s' ∧ I (k + 1) s')
    : ∃ s', (List.range' a n).foldlM f s = some s' ∧ I n s' := by
  induction n with
  | zero => exact ⟨s, rfl, start⟩
  | succ n ih =>
    rcases ih (fun k s hk => step k s (by omega)) with ⟨mid, hmid, hI⟩
    rcases step n mid (by omega) hI with ⟨last, hlast, hI'⟩
    refine ⟨last, ?_, hI'⟩
    rw [List.range'_concat, List.foldlM_append, hmid, Nat.one_mul]
    simpa using hlast

theorem foldl_range' {f : σ → Nat → σ} (a n : Nat) (start : I 0 s)
    (step : ∀ k s, k < n → I k s → I (k + 1) (f s (a + k)))
    : I n ((List.range' a n).foldl f s) := by
  induction n with
  | zero => exact start
  | succ n ih =>
    rw [List.range'_concat, List.foldl_append, Nat.one_mul]
    exact step n _ (by omega) (ih fun k s hk => step k s (by omega))

variable {α : Type v} {l : List α} {J : List α → σ → Prop}

/-- The rule for a loop over a list without repetitions: `J done` holds after the items `done`. -/
theorem foldlM_nodup {f : σ → α → Option σ} (hl : l.Nodup) (start : J [] s)
    (step : ∀ done x s, done.Nodup → x ∉ done → J done s →
      ∃ s', f s x = some s' ∧ J (done ++ [x]) s')
    : ∃ s', l.foldlM f s = some s' ∧ J l s' := by
  induction l using List.reverseRecOn with
  | nil => exact ⟨s, rfl, start⟩
  | append_singleton done x ih =>
    rw [← List.concat_eq_append, List.nodup_concat] at hl
    rcases hl with ⟨hx, hdone⟩
    rcases ih hdone with ⟨mid, hmid, hJ⟩
    rcases step done x mid hdone hx hJ with ⟨last, hlast, hJ'⟩
    refine ⟨last, ?_, hJ'⟩
    rw [List.foldlM_append, hmid]
    simpa using hlast

theorem foldl_nodup {f : σ → α → σ} (hl : l.Nodup) (start : J [] s)
    (step : ∀ done x s, done.Nodup → x ∉ done → J done s → J (done ++ [x]) (f s x))
    : J l (l.foldl f s) := by
  induction l using List.reverseRecOn with
  | nil => exact start
  | append_singleton done x ih =>
    rw [← List.concat_eq_append, List.nodup_concat] at hl
    rcases hl with ⟨hx, hdone⟩
    rw [List.foldl_append]
    exact step done x _ hdone hx (ih hdone)

theorem mapM_eq_some {β : Type w} {f : α → Option β} {g : α → β} (h : ∀ x ∈ l, f x = some (g x))
    : l.mapM f = some (l.map g) := by
  induction l with
  | nil => rfl
  | cons x l ih =>
    rw [List.mapM_cons, h x List.mem_cons_self, ih fun y hy => h y (List.mem_cons_of_mem x hy)]
    rfl

end loops

section tables

variable {α : Type u} [Inhabited α]

def cell (d : List α) (w i j : Nat) : α :=
  d.getD (i * w + j) default

theorem index_inj {w i j i' j' : Nat} (hj : j < w) (hj' : j' < w) (h : i * w + j = i' * w + j')
    : i = i' ∧ j = j' := by
  have hmod := congrArg (· % w) h
  simp only [Nat.mul_add_mod_of_lt hj, Nat.mul_add_mod_of_lt hj'] at hmod
  have hmul : i * w = i' * w := by omega
  exact ⟨Nat.eq_of_mul_eq_mul_right (by omega) hmul, hmod⟩

theorem index_lt {w n i j : Nat} (hi : i < n) (hj : j < w) : i * w + j < n * w := by
  have hle : (i + 1) * w ≤ n * w := Nat.mul_le_mul_right w hi
  rw [Nat.add_mul, Nat.one_mul] at hle
  omega

theorem cell_set {d : List α} {w n i j i' j' : Nat} {a : α} (hlength : d.length = n * w)
    (hi : i < n) (hj : j < w) (hj' : j' < w)
    : cell (d.set (i * w + j) a) w i' j' = if i = i' ∧ j = j' then a else cell d w i' j' := by
  have hlt := index_lt hi hj
  unfold cell
  simp only [List.getD_eq_getElem?_getD, List.getElem?_set]
  by_cases hindex : i * w + j = i' * w + j'
  . rw [if_pos hindex, if_pos (by omega), if_pos (index_inj hj hj' hindex), Option.getD_some]
  . have hne : ¬ (i = i' ∧ j = j') := by
      rintro ⟨rfl, rfl⟩
      exact hindex rfl
    rw [if_neg hindex, if_neg hne]

theorem cell_foldl_set {d : List α} {w rows : Nat} (hlength : d.length = rows * w) {n : Nat}
    {row col : Nat → Nat} {a : Nat → α} (hrow : ∀ k < n, row k < rows) (hcol : ∀ k < n, col k < w)
    (hinj : ∀ k k', row k = row k' → col k = col k' → k = k')
    : let d' := (List.range' 0 n).foldl (fun d k => d.set (row k * w + col k) (a k)) d
      d'.length = rows * w ∧ (∀ k < n, cell d' w (row k) (col k) = a k) ∧
        ∀ i j, j < w → (∀ k < n, ¬ (row k = i ∧ col k = j)) → cell d' w i j = cell d w i j := by
  apply foldl_range' (I := fun m d' => m ≤ n → d'.length = rows * w ∧
    (∀ k < m, cell d' w (row k) (col k) = a k) ∧
    ∀ i j, j < w → (∀ k < m, ¬ (row k = i ∧ col k = j)) → cell d' w i j = cell d w i j)
  . intro _
    exact ⟨hlength, nofun, fun _ _ _ _ => rfl⟩
  . intro m d' hm hd' hle
    rcases hd' (by omega) with ⟨hlength', hset, hkept⟩
    rw [Nat.zero_add]
    refine ⟨by rw [List.length_set, hlength'], ?_, ?_⟩
    . intro k hk
      rw [cell_set hlength' (hrow m hm) (hcol m hm) (hcol k (by omega))]
      split
      next heq => rw [hinj m k heq.1 heq.2]
      next hne =>
        apply hset k
        rcases Nat.lt_or_eq_of_le (Nat.le_of_lt_succ hk) with hlt | rfl
        . exact hlt
        . exact absurd ⟨rfl, rfl⟩ hne
    . intro i j hj hfresh
      rw [cell_set hlength' (hrow m hm) (hcol m hm) hj, if_neg (hfresh m (by omega))]
      exact hkept i j hj fun k hk => hfresh k (by omega)
  . exact Nat.le_refl n

end tables

end Arith
