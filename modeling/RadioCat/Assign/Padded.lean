import Mathlib.Algebra.BigOperators.Group.Finset.Basic
import Mathlib.Data.Fintype.BigOperators
import Mathlib.Tactic.Abel

/-!
This module contains matchings that may leave rows and columns out, at a cost for each one that is
left out, as assignments of a square matrix: every row has a column of its own that stands for being
left out, and every column such a row.
-/

universe u v w

namespace Assign

variable {ι : Type u} {κ : Type v} {M : Type w}

def OneToOne (f : ι → Option κ) : Prop :=
  ∀ i i' k, f i = some k → f i' = some k → i = i'

theorem OneToOne.filter {f : ι → Option κ} (h : OneToOne f) (ok : ι → κ → Bool)
    : OneToOne fun i => (f i).filter (ok i) := by
  intro i i' k hi hi'
  exact h i i' k (Option.filter_eq_some_iff.mp hi).1 (Option.filter_eq_some_iff.mp hi').1

def ofEquiv (σ : ι ⊕ κ ≃ κ ⊕ ι) (i : ι) : Option κ :=
  (σ (.inl i)).getLeft?

theorem oneToOne_ofEquiv (σ : ι ⊕ κ ≃ κ ⊕ ι) : OneToOne (ofEquiv σ) := by
  intro i i' k hi hi'
  rw [ofEquiv, Sum.getLeft?_eq_some_iff] at hi hi'
  exact Sum.inl_injective (σ.injective (hi.trans hi'.symm))

section extend

variable {f : ι → Option κ}

open Classical in
/-- A row that is left out goes to its own column, and the rest of the columns are handed round. -/
noncomputable def extend (f : ι → Option κ) : ι ⊕ κ → κ ⊕ ι
  | .inl i => (f i).elim (.inr i) .inl
  | .inr k => if hk : ∃ i, f i = some k then .inr hk.choose else .inl k

theorem extend_inr_cases (f : ι → Option κ) (k : κ)
    : (∃ i, f i = some k ∧ extend f (.inr k) = .inr i) ∨
      (∀ i, f i ≠ some k) ∧ extend f (.inr k) = .inl k := by
  by_cases hk : ∃ i, f i = some k
  . exact .inl ⟨hk.choose, hk.choose_spec, dif_pos hk⟩
  . exact .inr ⟨fun i hi => hk ⟨i, hi⟩, dif_neg hk⟩

theorem extend_inl_ne_inr (f : ι → Option κ) (i : ι) (k : κ)
    : extend f (.inl i) ≠ extend f (.inr k) := by
  rw [extend]
  rcases extend_inr_cases f k with ⟨i', hi', hk⟩ | ⟨hnone, hk⟩
  . rw [hk]
    cases hi : f i with
    | none =>
      rintro heq
      rw [← Sum.inr_injective heq, hi] at hi'
      cases hi'
    | some k' => exact Sum.inl_ne_inr
  . rw [hk]
    cases hi : f i with
    | none => exact Sum.inr_ne_inl
    | some k' =>
      rintro heq
      exact hnone i (hi.trans (congrArg some (Sum.inl_injective heq)))

theorem extend_injective (h : OneToOne f) : Function.Injective (extend f) := by
  rintro (i | k) (i' | k') heq
  . rw [extend, extend] at heq
    cases hi : f i with
    | none =>
      cases hi' : f i' with
      | none =>
        rw [hi, hi'] at heq
        exact congrArg _ (Sum.inr_injective heq)
      | some k' =>
        rw [hi, hi'] at heq
        exact absurd heq Sum.inr_ne_inl
    | some k =>
      cases hi' : f i' with
      | none =>
        rw [hi, hi'] at heq
        exact absurd heq Sum.inl_ne_inr
      | some k' =>
        rw [hi, hi'] at heq
        have hk : k = k' := Sum.inl_injective heq
        rw [h i i' k hi (hi'.trans (congrArg some hk.symm))]
  . exact absurd heq (extend_inl_ne_inr f i k')
  . exact absurd heq.symm (extend_inl_ne_inr f i' k)
  . rcases extend_inr_cases f k with ⟨i, hi, hk⟩ | ⟨-, hk⟩
    . rcases extend_inr_cases f k' with ⟨i', hi', hk'⟩ | ⟨-, hk'⟩
      . rw [hk, hk'] at heq
        rw [Sum.inr_injective heq, hi'] at hi
        exact congrArg _ (Option.some.inj hi).symm
      . rw [hk, hk'] at heq
        exact absurd heq Sum.inr_ne_inl
    . rcases extend_inr_cases f k' with ⟨i', hi', hk'⟩ | ⟨-, hk'⟩
      . rw [hk, hk'] at heq
        exact absurd heq Sum.inl_ne_inr
      . rw [hk, hk'] at heq
        exact congrArg _ (Sum.inl_injective heq)

variable [Fintype ι] [Fintype κ]

theorem exists_ofEquiv (h : OneToOne f) : ∃ σ : ι ⊕ κ ≃ κ ⊕ ι, ofEquiv σ = f := by
  have hbijective : Function.Bijective (extend f) := by
    apply (Fintype.bijective_iff_injective_and_card _).mpr
    exact ⟨extend_injective h, Fintype.card_congr (Equiv.sumComm ι κ)⟩
  refine ⟨Equiv.ofBijective _ hbijective, ?_⟩
  funext i
  rw [ofEquiv, Equiv.ofBijective_apply, extend]
  cases f i <;> rfl

end extend

variable [Fintype ι] [Fintype κ] [DecidableEq κ] [AddCommGroup M]
variable {d : ι → κ → M} {a : ι → M} {b : κ → M} {f : ι → Option κ}

def matchingCost (d : ι → κ → M) (a : ι → M) (b : κ → M) (f : ι → Option κ) : M :=
  ∑ i, (f i).elim (a i) (d i) + ∑ k, if ∃ i, f i = some k then 0 else b k

theorem sum_matched (h : OneToOne f)
    : ∑ i, (f i).elim 0 b = ∑ k, if ∃ i, f i = some k then b k else 0 := by
  have hrow : ∀ i, (f i).elim 0 b = ∑ k, if f i = some k then b k else 0 := by
    intro i
    cases f i with
    | none => simp
    | some k => simp
  have hcolumn : ∀ k, (∑ i, if f i = some k then b k else 0) =
      if ∃ i, f i = some k then b k else 0 := by
    intro k
    split
    next hk =>
      rcases hk with ⟨i, hi⟩
      rw [Finset.sum_eq_single i]
      . rw [if_pos hi]
      . intro i' _ hne
        rw [if_neg fun hi' => hne (h i' i k hi' hi)]
      . intro hnot
        exact absurd (Finset.mem_univ i) hnot
    next hk =>
      apply Finset.sum_eq_zero
      intro i _
      rw [if_neg fun hi => hk ⟨i, hi⟩]
  calc ∑ i, (f i).elim 0 b
      = ∑ i, ∑ k, (if f i = some k then b k else 0) := Finset.sum_congr rfl fun i _ => hrow i
    _ = ∑ k, ∑ i, (if f i = some k then b k else 0) := Finset.sum_comm
    _ = ∑ k, (if ∃ i, f i = some k then b k else 0) := Finset.sum_congr rfl fun k _ => hcolumn k

theorem matchingCost_eq (h : OneToOne f)
    : matchingCost d a b f = ∑ i, (f i).elim (a i) (fun k => d i k - b k) + ∑ k, b k := by
  have hsplit : ∀ k, b k = (if ∃ i, f i = some k then b k else 0) +
      if ∃ i, f i = some k then 0 else b k := by
    intro k
    split <;> simp
  have hrow : ∀ i, (f i).elim (a i) (d i) =
      (f i).elim (a i) (fun k => d i k - b k) + (f i).elim 0 b := by
    intro i
    cases f i <;> simp
  rw [matchingCost, Finset.sum_congr rfl fun i _ => hrow i, Finset.sum_add_distrib,
    sum_matched h, add_assoc, ← Finset.sum_add_distrib, Finset.sum_congr rfl fun k _ => hsplit k]

theorem matchingCost_filter {ok : ι → κ → Bool} (h : OneToOne f)
    (hd : ∀ i k, ok i k = false → d i k = a i + b k)
    : matchingCost d a b (fun i => (f i).filter (ok i)) = matchingCost d a b f := by
  rw [matchingCost_eq h, matchingCost_eq (h.filter ok)]
  congr 1
  apply Finset.sum_congr rfl
  intro i _
  cases f i with
  | none => rfl
  | some k =>
    cases hok : ok i k with
    | true => simp [Option.filter_some, hok]
    | false => simp [Option.filter_some, hok, hd i k hok]

section padded

def padded (d : ι → κ → M) (a : ι → M) (b : κ → M) : ι ⊕ κ → κ ⊕ ι → M
  | .inl i, .inl k => d i k
  | .inl i, .inr _ => a i
  | .inr _, .inl k => b k
  | .inr _, .inr _ => 0

theorem sum_padded (σ : ι ⊕ κ ≃ κ ⊕ ι)
    : ∑ r, padded d a b r (σ r) = matchingCost d a b (ofEquiv σ) := by
  -- what the columns cost when they are left out
  let g : κ ⊕ ι → M := Sum.elim b 0
  have hrow : ∀ i, padded d a b (.inl i) (σ (.inl i)) =
      (ofEquiv σ i).elim (a i) (fun k => d i k - b k) + g (σ (.inl i)) := by
    intro i
    unfold ofEquiv
    cases σ (.inl i) <;> simp [padded, g]
  have hcolumn : ∀ k, padded d a b (.inr k) (σ (.inr k)) = g (σ (.inr k)) := by
    intro k
    cases σ (.inr k) <;> simp [padded, g]
  have hall : ∑ i, g (σ (.inl i)) + ∑ k, g (σ (.inr k)) = ∑ k, b k := by
    rw [← Fintype.sum_sum_type fun r => g (σ r), Equiv.sum_comp σ g, Fintype.sum_sum_type]
    simp [g]
  rw [Fintype.sum_sum_type, Finset.sum_congr rfl fun i _ => hrow i,
    Finset.sum_congr rfl fun k _ => hcolumn k, Finset.sum_add_distrib, add_assoc, hall,
    matchingCost_eq (oneToOne_ofEquiv σ)]

end padded

end Assign
