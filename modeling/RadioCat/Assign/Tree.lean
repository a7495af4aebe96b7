import RadioCat.Assign.Dual
import Mathlib.Order.Lattice

/-!
This module contains the search for a path along which one more row can be assigned: the tree of
columns that tight costs lead to, how it grows, and how the assignment moves along a path of it.
-/

universe u v w

namespace Assign

variable {ρ : Type u} {κ : Type v}

section grown

/-- Each column has its parent `way k` further down the list, by a link that is tight. The column
`root` stands for the row that has none yet. -/
inductive Grown (root : κ) (way : κ → κ) (tight : κ → κ → Prop) : List κ → Prop where
  | root : Grown root way tight [root]
  | grow {k : κ} {seen : List κ} (fresh : k ∉ seen) (parent : way k ∈ seen)
    (link : tight (way k) k) (rest : Grown root way tight seen) : Grown root way tight (k :: seen)

variable {root : κ} {way way' : κ → κ} {tight tight' : κ → κ → Prop} {seen : List κ}

theorem Grown.root_mem (h : Grown root way tight seen) : root ∈ seen := by
  induction h with
  | root => exact List.mem_singleton_self root
  | grow _ _ _ _ ih => exact List.mem_cons_of_mem _ ih

theorem Grown.nodup (h : Grown root way tight seen) : seen.Nodup := by
  induction h with
  | root => exact List.nodup_singleton root
  | grow fresh _ _ _ ih => exact List.nodup_cons.mpr ⟨fresh, ih⟩

theorem Grown.congr (h : Grown root way tight seen) (hway : ∀ k ∈ seen, way' k = way k)
    (htight : ∀ j ∈ seen, ∀ k ∈ seen, tight j k → tight' j k)
    : Grown root way' tight' seen := by
  induction h with
  | root => exact .root
  | @grow k seen fresh parent link rest ih =>
    have hsame := hway k List.mem_cons_self
    have hlink := htight _ (List.mem_cons_of_mem _ parent) k List.mem_cons_self link
    apply Grown.grow fresh (hsame ▸ parent) (hsame ▸ hlink)
    apply ih
    . intro k hk
      exact hway k (List.mem_cons_of_mem _ hk)
    . intro j hj k hk
      exact htight j (List.mem_cons_of_mem _ hj) k (List.mem_cons_of_mem _ hk)

theorem Grown.exists_rest (h : Grown root way tight seen) {k : κ} (hk : k ∈ seen) (hroot : k ≠ root)
    : ∃ rest, rest.length < seen.length ∧ rest ⊆ seen ∧ k ∉ rest ∧ way k ∈ rest ∧
        tight (way k) k ∧ Grown root way tight rest := by
  induction h with
  | root => exact absurd (List.mem_singleton.mp hk) hroot
  | @grow k' seen fresh parent link rest ih =>
    rcases List.mem_cons.mp hk with rfl | hk
    . exact ⟨seen, Nat.lt_succ_self _, List.subset_cons_self _ _, fresh, parent, link, rest⟩
    . rcases ih hk with ⟨rest', hlength, hsubset, hk'⟩
      exact ⟨rest', Nat.lt_succ_of_lt hlength, List.subset_cons_of_subset _ hsubset, hk'⟩

end grown

section holed

/-- The rows are assigned to the columns other than `hole`, which is kept out of account. A column
whose row is `free` has none. -/
structure Holed (free : ρ) (rows : ρ → Prop) (fits : ρ → κ → Prop) (root hole : κ) (p : κ → ρ)
    : Prop where
  inj : ∀ j ≠ hole, ∀ k ≠ hole, p j ≠ free → p j = p k → j = k
  onto : ∀ r ≠ free, (rows r ↔ ∃ j ≠ hole, p j = r)
  fits : ∀ k ≠ hole, k ≠ root → fits (p k) k

variable [DecidableEq κ] {free : ρ} {rows : ρ → Prop} {fits : ρ → κ → Prop} {root hole : κ}
variable {p : κ → ρ}

theorem Holed.move (h : Holed free rows fits root hole p) {k : κ} (hk : k ≠ hole)
    (hfits : fits (p k) hole)
    : Holed free rows fits root k (Function.update p hole (p k)) := by
  have hupdate : ∀ j ≠ hole, Function.update p hole (p k) j = p j :=
    fun j hj => Function.update_of_ne hj _ p
  refine ⟨?_, ?_, ?_⟩
  . intro j hj j' hj' hfree heq
    by_cases hjhole : j = hole
    . subst hjhole
      by_cases hsame : j' = j
      . exact hsame.symm
      . rw [Function.update_self] at hfree heq
        rw [hupdate j' hsame] at heq
        exact absurd (h.inj k hk j' hsame hfree heq).symm hj'
    . rw [hupdate j hjhole] at hfree heq
      by_cases hsame : j' = hole
      . subst hsame
        rw [Function.update_self] at heq
        exact absurd (h.inj j hjhole k hk hfree heq) hj
      . rw [hupdate j' hsame] at heq
        exact h.inj j hjhole j' hsame hfree heq
  . intro r hr
    rw [h.onto r hr]
    constructor
    . rintro ⟨j, hj, rfl⟩
      by_cases hsame : j = k
      . exact ⟨hole, hk.symm, by rw [Function.update_self, hsame]⟩
      . exact ⟨j, hsame, hupdate j hj⟩
    . rintro ⟨j, hj, rfl⟩
      by_cases hsame : j = hole
      . exact ⟨k, hk, by rw [hsame, Function.update_self]⟩
      . exact ⟨j, hsame, (hupdate j hsame).symm⟩
  . intro j hj hroot
    by_cases hsame : j = hole
    . rw [hsame, Function.update_self]
      exact hfits
    . rw [hupdate j hsame]
      exact h.fits j hsame hroot

end holed

section search

variable {M : Type w} [AddCommGroup M] [LinearOrder M]

/-- A column that has a row pays with it for their cost, and one that has none pays nothing. -/
def Paid (a : ρ → κ → M) (free : ρ) (u : ρ → M) (v : κ → M) (r : ρ) (k : κ) : Prop :=
  (r ≠ free → reduced a u v r k = 0) ∧ (r = free → v k = 0)

/-- The prices while some of the rows are assigned. -/
structure Prices (a : ρ → κ → M) (root : κ) (free : ρ) (p : κ → ρ) (u : ρ → M) (v : κ → M)
    : Prop where
  paid : ∀ k ≠ root, Paid a free u v (p k) k
  feasible : ∀ j ≠ root, p j ≠ free → ∀ k ≠ root, 0 ≤ reduced a u v (p j) k
  nonpos : ∀ k ≠ root, v k ≤ 0

/-- The tree of the columns `seen`. For every other column, `minv` is the least that a row of the
tree has left to pay for it, and `way` is the column of that row. Where all have more to pay than
`mark`, `minv` is what the new row has left of it. -/
structure Tree (a : ρ → κ → M) (mark : M) (root : κ) (free : ρ) (p : κ → ρ) (u : ρ → M)
    (v minv : κ → M) (way : κ → κ) (seen : List κ) : Prop extends Prices a root free p u v where
  grown : Grown root way (fun j k => reduced a u v (p j) k = 0) seen
  taken : ∀ j ∈ seen, p j ≠ free
  least : ∀ k ∉ seen, ∀ j ∈ seen, minv k ≤ reduced a u v (p j) k
  reached : ∀ k ∉ seen,
    way k ∈ seen ∧ minv k = reduced a u v (p (way k)) k ∨ minv k = mark - u (p root)

/-- The prices suit the new row as well. -/
def Rooted (a : ρ → κ → M) (root : κ) (p : κ → ρ) (u : ρ → M) (v : κ → M) : Prop :=
  ∀ k ≠ root, 0 ≤ reduced a u v (p root) k

variable {a : ρ → κ → M} {root : κ} {free : ρ} {p : κ → ρ} {u u' : ρ → M} {v v' minv minv' : κ → M}
variable {way way' : κ → κ} {seen : List κ} {d mark : M}

theorem Prices.start (h : Prices a root free p u v) (htaken : p root ≠ free)
    (hminv : ∀ k ≠ root, minv k = min (mark - u (p root)) (reduced a u v (p root) k))
    (hway : ∀ k ≠ root, reduced a u v (p root) k < mark - u (p root) → way k = root)
    : Tree a mark root free p u v minv way [root] := by
  refine ⟨h, .root, ?_, ?_, ?_⟩
  . intro j hj
    rw [List.mem_singleton.mp hj]
    exact htaken
  . intro k hk j hj
    rw [List.mem_singleton.mp hj]
    exact (hminv k (List.mem_singleton.not.mp hk)).trans_le (min_le_right _ _)
  . intro k hk
    have hroot := List.mem_singleton.not.mp hk
    rw [hminv k hroot]
    by_cases hlt : reduced a u v (p root) k < mark - u (p root)
    . rw [hway k hroot hlt]
      exact .inl ⟨List.mem_singleton_self root, min_eq_right hlt.le⟩
    . exact .inr (min_eq_left (not_lt.mp hlt))

theorem Tree.scan (h : Tree a mark root free p u v minv way seen) {j : κ} (hfresh : j ∉ seen)
    (hknown : minv j ≠ mark - u (p root)) (hzero : minv j = 0) (htaken : p j ≠ free)
    (hkept : ∀ k ∈ j :: seen, way' k = way k)
    (hminv : ∀ k ∉ j :: seen, minv' k = min (minv k) (reduced a u v (p j) k))
    (hway : ∀ k ∉ j :: seen, way' k = if reduced a u v (p j) k < minv k then j else way k)
    : Tree a mark root free p u v minv' way' (j :: seen) := by
  rcases (h.reached j hfresh).resolve_right hknown with ⟨hparent, hattained⟩
  have hgrown := Grown.grow hfresh hparent (hattained.symm.trans hzero) h.grown
  refine ⟨h.toPrices, hgrown.congr hkept (fun _ _ _ _ htight => htight), ?_, ?_, ?_⟩
  . intro j' hj'
    rcases List.mem_cons.mp hj' with rfl | hj'
    . exact htaken
    . exact h.taken j' hj'
  . intro k hk j' hj'
    rw [hminv k hk]
    rcases List.mem_cons.mp hj' with rfl | hj'
    . exact min_le_right _ _
    . exact (min_le_left _ _).trans (h.least k (List.not_mem_of_not_mem_cons hk) j' hj')
  . intro k hk
    rw [hminv k hk, hway k hk]
    split
    next hlt => exact .inl ⟨List.mem_cons_self, min_eq_right hlt.le⟩
    next hle =>
      rw [min_eq_left (not_lt.mp hle)]
      exact (h.reached k (List.not_mem_of_not_mem_cons hk)).imp_left
        (And.imp_left (List.mem_cons_of_mem _))

theorem Tree.minv_nonneg (h : Tree a mark root free p u v minv way seen)
    (hrooted : Rooted a root p u v) (hmark : 0 ≤ mark - u (p root)) {k : κ} (hk : k ∉ seen)
    : 0 ≤ minv k := by
  have hroot : k ≠ root := by
    rintro rfl
    exact hk h.grown.root_mem
  rcases h.reached k hk with ⟨hmem, hattained⟩ | hunknown
  case inr => exact hunknown ▸ hmark
  rw [hattained]
  by_cases hway : way k = root
  . rw [hway]
    exact hrooted k hroot
  . exact h.feasible _ hway (h.taken _ hmem) k hroot

theorem Prices.congr {p' : κ → ρ} (h : Prices a root free p u v) (hp : ∀ k ≠ root, p' k = p k)
    : Prices a root free p' u v := by
  refine ⟨?_, ?_, h.nonpos⟩
  . intro k hk
    rw [hp k hk]
    exact h.paid k hk
  . intro j hj
    rw [hp j hj]
    exact h.feasible j hj

theorem Prices.reassign {p' : κ → ρ} (h : Prices a root free p u v) (hrooted : Rooted a root p u v)
    (hrows : ∀ j ≠ root, p' j ≠ free → ∃ k, p k = p' j)
    (hpaid : ∀ k ≠ root, Paid a free u v (p' k) k)
    : Prices a root free p' u v := by
  refine ⟨hpaid, ?_, h.nonpos⟩
  intro j hj hfree k hk
  rcases hrows j hj hfree with ⟨j', hj'⟩
  rw [← hj'] at hfree ⊢
  by_cases hroot : j' = root
  . rw [hroot]
    exact hrooted k hk
  . exact h.feasible j' hroot hfree k hk

variable [IsOrderedAddMonoid M]

/-- Until the tree is more than its root, the new row need not suit the prices, and what the shift
is may be negative. -/
theorem Tree.shift_nonneg (h : Tree a mark root free p u v minv way seen)
    (hinj : ∀ j k, p j ≠ free → p j = p k → j = k) (hshifted : Shifted p seen d u v u' v')
    (hle : ∀ k ∉ seen, d ≤ minv k)
    (hgrown : ∀ k ∈ seen, k ≠ root → 0 ≤ d ∧ Rooted a root p u v)
    : ∀ j, p j ≠ free → ∀ k ≠ root, 0 ≤ reduced a u' v' (p j) k := by
  intro j hfree k hk
  by_cases hj : j ∈ seen
  . by_cases hkseen : k ∈ seen
    . rw [hshifted.reduced_inside hj hkseen]
      by_cases hroot : j = root
      . rw [hroot]
        exact (hgrown k hkseen hk).2 k hk
      . exact h.feasible j hroot hfree k hk
    . rw [hshifted.reduced_leaving hj hkseen, sub_nonneg]
      exact (hle k hkseen).trans (h.least k hkseen j hj)
  . have hother : ∀ j' ∈ seen, p j' ≠ p j := by
      intro j' hj' heq
      exact hj (hinj j j' hfree heq.symm ▸ hj')
    have hroot : j ≠ root := by
      rintro rfl
      exact hj h.grown.root_mem
    have hnonneg := h.feasible j hroot hfree k hk
    by_cases hkseen : k ∈ seen
    . rw [hshifted.reduced_entering hother hkseen]
      exact add_nonneg hnonneg (hgrown k hkseen hk).1
    . rw [hshifted.reduced_outside hother hkseen]
      exact hnonneg

theorem Tree.shift (h : Tree a mark root free p u v minv way seen)
    (hinj : ∀ j k, p j ≠ free → p j = p k → j = k) (hshifted : Shifted p seen d u v u' v')
    (hle : ∀ k ∉ seen, d ≤ minv k) (hminv : ∀ k ∉ seen, minv' k = minv k - d)
    (hgrown : ∀ k ∈ seen, k ≠ root → 0 ≤ d ∧ Rooted a root p u v)
    : Tree a mark root free p u' v' minv' way seen ∧ Rooted a root p u' v' := by
  have hnonneg := h.shift_nonneg hinj hshifted hle hgrown
  refine ⟨⟨⟨?_, fun j _ => hnonneg j, ?_⟩, ?_, h.taken, ?_, ?_⟩, ?_⟩
  . intro k hk
    refine ⟨?_, ?_⟩
    . intro hfree
      have hpaid := (h.paid k hk).1 hfree
      by_cases hkseen : k ∈ seen
      . rw [hshifted.reduced_inside hkseen hkseen, hpaid]
      . have hother : ∀ j ∈ seen, p j ≠ p k := by
          intro j hj heq
          exact hkseen (hinj k j hfree heq.symm ▸ hj)
        rw [hshifted.reduced_outside hother hkseen, hpaid]
    . intro hfree
      rw [hshifted.otherColumn k fun hkseen => h.taken k hkseen hfree]
      exact (h.paid k hk).2 hfree
  . intro k hk
    by_cases hkseen : k ∈ seen
    . rw [hshifted.column k hkseen]
      exact sub_nonpos.mpr ((h.nonpos k hk).trans (hgrown k hkseen hk).1)
    . rw [hshifted.otherColumn k hkseen]
      exact h.nonpos k hk
  . apply h.grown.congr (fun _ _ => rfl)
    intro j hj k hk htight
    rw [hshifted.reduced_inside hj hk, htight]
  . intro k hk j hj
    rw [hminv k hk, hshifted.reduced_leaving hj hk]
    exact sub_le_sub_right (h.least k hk j hj) d
  . intro k hk
    rw [hminv k hk]
    rcases h.reached k hk with ⟨hmem, hattained⟩ | hunknown
    . rw [hshifted.reduced_leaving hmem hk, hattained]
      exact .inl ⟨hmem, rfl⟩
    . rw [hunknown, hshifted.row root h.grown.root_mem, sub_sub]
      exact .inr rfl
  . exact hnonneg root (h.taken root h.grown.root_mem)

end search

end Assign
