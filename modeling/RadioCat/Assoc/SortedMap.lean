import Mathlib.Algebra.BigOperators.Group.List.Basic
import Mathlib.Algebra.Group.Hom.Defs
import Mathlib.Algebra.Ring.Nat
import Mathlib.Order.Lattice

/-!
This module contains finite maps as lists of entries in the order of their keys. Maps into a
commutative monoid are added entry by entry, which makes them a commutative monoid again.
-/

universe u v

namespace Assoc

structure SortedMap (κ : Type u) (α : Type v) [LinearOrder κ] where
  entries : List (κ × α)
  sorted : entries.Pairwise fun e e' => e.1 < e'.1

namespace SortedMap

variable {κ : Type u} {α : Type v} [LinearOrder κ]

instance [DecidableEq α] : DecidableEq (SortedMap κ α) :=
  fun m m' => decidable_of_iff (m.entries = m'.entries) (by cases m; cases m'; simp)

def empty : SortedMap κ α := ⟨[], .nil⟩

def lookup (k : κ) : List (κ × α) → Option α
  | [] => none
  | e :: entries => if e.1 = k then some e.2 else lookup k entries

def get? (m : SortedMap κ α) (k : κ) : Option α :=
  lookup k m.entries

/-- The entry of a key is changed, from the default where there is none. -/
def upsertEntries (k : κ) (default : α) (f : α → α) : List (κ × α) → List (κ × α)
  | [] => [(k, f default)]
  | e :: entries =>
    if k < e.1 then
      (k, f default) :: e :: entries
    else if e.1 = k then
      (e.1, f e.2) :: entries
    else
      e :: upsertEntries k default f entries

theorem mem_upsertEntries {k : κ} {default : α} {f : α → α} {entries : List (κ × α)} {e : κ × α}
    (h : e ∈ upsertEntries k default f entries)
    : e = (k, f default) ∨ e ∈ entries ∨ ∃ a, (k, a) ∈ entries ∧ e = (k, f a) := by
  fun_induction upsertEntries k default f entries
  case case1 => exact .inl (List.mem_singleton.mp h)
  case case2 e' entries hlt =>
    rcases List.mem_cons.mp h with rfl | hmem
    . exact .inl rfl
    . exact .inr (.inl hmem)
  case case3 e' entries hlt heq =>
    rcases List.mem_cons.mp h with rfl | hmem
    . subst heq
      exact .inr (.inr ⟨e'.2, List.mem_cons_self, rfl⟩)
    . exact .inr (.inl (List.mem_cons_of_mem e' hmem))
  case case4 e' entries hlt heq ih =>
    rcases List.mem_cons.mp h with rfl | hmem
    . exact .inr (.inl List.mem_cons_self)
    . rcases ih hmem with hnew | hold | ⟨a, ha, hupdated⟩
      . exact .inl hnew
      . exact .inr (.inl (List.mem_cons_of_mem e' hold))
      . exact .inr (.inr ⟨a, List.mem_cons_of_mem e' ha, hupdated⟩)

theorem sorted_upsertEntries (k : κ) (default : α) (f : α → α) {entries : List (κ × α)}
    (h : entries.Pairwise fun e e' => e.1 < e'.1)
    : (upsertEntries k default f entries).Pairwise fun e e' => e.1 < e'.1 := by
  fun_induction upsertEntries k default f entries
  case case1 => exact List.pairwise_singleton _ _
  case case2 e entries hlt =>
    rw [List.pairwise_cons]
    refine ⟨?_, h⟩
    intro e' he'
    rcases List.mem_cons.mp he' with rfl | hmem
    . exact hlt
    . exact lt_trans hlt ((List.pairwise_cons.mp h).1 e' hmem)
  case case3 e entries hlt heq => exact List.pairwise_cons.mpr (List.pairwise_cons.mp h)
  case case4 e entries hlt heq ih =>
    rw [List.pairwise_cons] at h ⊢
    refine ⟨?_, ih h.2⟩
    intro e' he'
    have hk : e.1 < k := lt_of_le_of_ne (not_lt.mp hlt) heq
    rcases mem_upsertEntries he' with rfl | hmem | ⟨a, -, rfl⟩
    . exact hk
    . exact h.1 e' hmem
    . exact hk

def upsert (m : SortedMap κ α) (k : κ) (default : α) (f : α → α) : SortedMap κ α :=
  ⟨upsertEntries k default f m.entries, sorted_upsertEntries k default f m.sorted⟩

theorem lookup_of_lt {k : κ} {entries : List (κ × α)} (h : ∀ e ∈ entries, k < e.1)
    : lookup k entries = none := by
  induction entries with
  | nil => rfl
  | cons e entries ih =>
    rw [List.forall_mem_cons] at h
    rw [lookup, if_neg (ne_of_gt h.1)]
    exact ih h.2

theorem mem_iff_lookup {k : κ} {a : α} {entries : List (κ × α)}
    (h : entries.Pairwise fun e e' => e.1 < e'.1)
    : (k, a) ∈ entries ↔ lookup k entries = some a := by
  induction entries with
  | nil => simp [lookup]
  | cons e entries ih =>
    rw [List.pairwise_cons] at h
    rw [List.mem_cons, ih h.2, lookup]
    split
    next hk =>
      rw [lookup_of_lt (by simpa [hk] using h.1), Option.some.injEq]
      simp [Prod.ext_iff, hk, eq_comm]
    next hk =>
      have hne : (k, a) ≠ e := by
        rintro rfl
        exact hk rfl
      simp [hne]

theorem mem_entries_iff {m : SortedMap κ α} {k : κ} {a : α}
    : (k, a) ∈ m.entries ↔ m.get? k = some a := by
  exact mem_iff_lookup m.sorted

theorem ext {m m' : SortedMap κ α} (h : ∀ k, m.get? k = m'.get? k) : m = m' := by
  have hmem : ∀ e, e ∈ m.entries ↔ e ∈ m'.entries := by
    rintro ⟨k, a⟩
    rw [mem_entries_iff, mem_entries_iff, h]
  have hnodup : ∀ m : SortedMap κ α, m.entries.Nodup := by
    intro m
    apply m.sorted.imp
    rintro e _ hlt rfl
    exact lt_irrefl _ hlt
  have hperm := (List.perm_ext_iff_of_nodup (hnodup m) (hnodup m')).mpr hmem
  have hentries : m.entries = m'.entries := by
    apply List.Perm.eq_of_pairwise _ m.sorted m'.sorted hperm
    intro e e' _ _ hlt hgt
    exact absurd hgt (lt_asymm hlt)
  cases m
  cases m'
  cases hentries
  rfl

theorem lookup_upsertEntries (k : κ) (default : α) (f : α → α) {entries : List (κ × α)}
    (h : entries.Pairwise fun e e' => e.1 < e'.1) (k' : κ)
    : lookup k' (upsertEntries k default f entries) =
        if k = k' then some (f ((lookup k entries).getD default)) else lookup k' entries := by
  fun_induction upsertEntries k default f entries
  case case1 => simp [lookup]
  case case2 e entries hlt =>
    have hnone : lookup k (e :: entries) = none := by
      apply lookup_of_lt
      rw [List.forall_mem_cons]
      exact ⟨hlt, fun e' he' => lt_trans hlt ((List.pairwise_cons.mp h).1 e' he')⟩
    rw [lookup, hnone]
    rfl
  case case3 e entries hlt heq =>
    simp only [lookup, heq, if_true, Option.getD_some]
    split <;> rfl
  case case4 e entries hlt heq ih =>
    rw [lookup, ih (List.pairwise_cons.mp h).2, lookup, lookup, if_neg heq]
    by_cases hk : k = k'
    . subst hk
      rw [if_neg heq]
      simp only [if_true]
    . simp only [hk, if_false]

theorem get?_upsert (m : SortedMap κ α) (k : κ) (default : α) (f : α → α) (k' : κ)
    : (m.upsert k default f).get? k' =
        if k = k' then some (f ((m.get? k).getD default)) else m.get? k' := by
  exact lookup_upsertEntries k default f m.sorted k'

instance : Zero (SortedMap κ α) := ⟨empty⟩

theorem get?_zero (k : κ) : (0 : SortedMap κ α).get? k = none := rfl

def single (k : κ) (a : α) : SortedMap κ α := ⟨[(k, a)], List.pairwise_singleton _ _⟩

theorem get?_single (k : κ) (a : α) (k' : κ)
    : (single k a).get? k' = if k = k' then some a else none := by
  rfl

section add

variable [AddCommMonoid α]


/-- The entries of one map are added to the other, one after the other. -/
instance : Add (SortedMap κ α) where
  add m m' := m'.entries.foldl (fun m e => m.upsert e.1 0 (· + e.2)) m

theorem get?_foldl_upsert {entries : List (κ × α)} (h : entries.Pairwise fun e e' => e.1 < e'.1)
    (m : SortedMap κ α) (k : κ)
    : (entries.foldl (fun m e => m.upsert e.1 0 (· + e.2)) m).get? k =
        (m.get? k).merge (· + ·) (lookup k entries) := by
  induction entries generalizing m with
  | nil => simp [lookup]
  | cons e entries ih =>
    rw [List.pairwise_cons] at h
    rw [List.foldl_cons, ih h.2, get?_upsert, lookup]
    split
    next hk =>
      rw [lookup_of_lt (by simpa [hk] using h.1), ← hk]
      cases m.get? e.1 with
      | none => simp
      | some a => simp
    next => rfl

theorem get?_add (m m' : SortedMap κ α) (k : κ)
    : (m + m').get? k = (m.get? k).merge (· + ·) (m'.get? k) := by
  exact get?_foldl_upsert m'.sorted m k

instance : AddCommMonoid (SortedMap κ α) where
  nsmul := nsmulRec
  add_assoc m m' m'' := by
    apply ext
    intro k
    simp only [get?_add]
    exact Std.Associative.assoc _ _ _
  zero_add m := by
    apply ext
    intro k
    rw [get?_add, get?_zero, Option.merge_none_left]
  add_zero m := by
    apply ext
    intro k
    rw [get?_add, get?_zero, Option.merge_none_right]
  add_comm m m' := by
    apply ext
    intro k
    rw [get?_add, get?_add]
    exact Std.Commutative.comm _ _

theorem upsert_eq_add_single (m : SortedMap κ α) (k : κ) (a : α)
    : m.upsert k 0 (· + a) = m + single k a := by
  rfl

theorem forall_get?_add {p : α → Prop} (hp : ∀ a b, p a → p b → p (a + b)) {m m' : SortedMap κ α}
    (h : ∀ k, ∀ a ∈ m.get? k, p a) (h' : ∀ k, ∀ a ∈ m'.get? k, p a)
    : ∀ k, ∀ a ∈ (m + m').get? k, p a := by
  intro k a ha
  rw [get?_add] at ha
  have hk := h k
  have hk' := h' k
  cases hm : m.get? k with
  | none =>
    rw [hm, Option.merge_none_left] at ha
    exact hk' a ha
  | some b =>
    rw [hm] at ha hk
    cases hm' : m'.get? k with
    | none =>
      rw [hm', Option.merge_none_right] at ha
      exact hk a ha
    | some b' =>
      rw [hm'] at ha hk'
      cases ha
      exact hp b b' (hk b rfl) (hk' b' rfl)

variable {β : Type*} [AddCommMonoid β]

theorem sum_upsertEntries (φ : α →+ β) (k : κ) (a : α) (entries : List (κ × α))
    : ((upsertEntries k 0 (· + a) entries).map fun e => φ e.2).sum =
        (entries.map fun e => φ e.2).sum + φ a := by
  fun_induction upsertEntries k 0 (· + a) entries
  case case1 => simp
  case case2 e entries hlt =>
    rw [List.map_cons, List.sum_cons, zero_add, add_comm]
  case case3 e entries hlt heq =>
    rw [List.map_cons, List.map_cons, List.sum_cons, List.sum_cons, map_add, add_right_comm]
  case case4 e entries hlt heq ih =>
    rw [List.map_cons, List.map_cons, List.sum_cons, List.sum_cons, ih, add_assoc]

/-- A measure of the entries, summed over the map. -/
def sum (φ : α →+ β) : SortedMap κ α →+ β where
  toFun m := (m.entries.map fun e => φ e.2).sum
  map_zero' := rfl
  map_add' m m' := by
    change ((m'.entries.foldl (fun m e => m.upsert e.1 0 (· + e.2)) m).entries.map _).sum = _
    induction m'.entries generalizing m with
    | nil => rw [List.foldl_nil, List.map_nil, List.sum_nil, add_zero]
    | cons e entries ih =>
      rw [List.foldl_cons, ih, List.map_cons, List.sum_cons, ← add_assoc]
      exact congrArg (· + _) (sum_upsertEntries φ e.1 e.2 m.entries)

theorem sum_single (φ : α →+ β) (k : κ) (a : α) : sum φ (single k a) = φ a := by
  exact add_zero (φ a)

end add

end SortedMap

end Assoc
