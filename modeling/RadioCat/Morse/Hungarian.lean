import Mathlib.Algebra.Order.Group.Abs
import Mathlib.Algebra.Order.Ring.Int
import Mathlib.Data.Fin.VecNotation
import Mathlib.Data.Fintype.EquivFin
import Mathlib.Data.List.FinRange
import RadioCat.Arith.Checked
import RadioCat.Arith.Loop
import RadioCat.Assign.Tree

/-!
This module contains the Hungarian algorithm with prices that the scoring of a pileup assigns copied
words with.
-/

namespace Morse

open Arith Assign

namespace Hungarian

/-- What stands for a price that is not known yet. -/
def inf : Int := (2 ^ 63 - 1) / 4

variable {n : Nat}

/-- The tables have a place for each row or column and one before them. In `p`, the first place is
for the row that is being assigned, and a column whose row is `0` has none. -/
structure Solver (n : Nat) where
  u : Fin (n + 1) → Int
  v : Fin (n + 1) → Int
  p : Fin (n + 1) → Fin (n + 1)
  way : Fin (n + 1) → Fin (n + 1)

structure Search (n : Nat) extends Solver n where
  minv : Fin (n + 1) → Int
  used : Fin (n + 1) → Bool

structure Scan (n : Nat) where
  minv : Fin (n + 1) → Int
  way : Fin (n + 1) → Fin (n + 1)
  delta : Int
  j1 : Fin (n + 1)

/-- `cur` is what the row of `j0` has left to pay for the column `j`. -/
def Scan.improve (b : Scan n) (j0 j : Fin (n + 1)) (cur : Int) : Scan n :=
  if cur < b.minv j then
    { b with
      minv := Function.update b.minv j cur
      way := Function.update b.way j j0 }
  else
    b

def Scan.choose (b : Scan n) (j : Fin (n + 1)) : Scan n :=
  if b.minv j < b.delta then { b with delta := b.minv j, j1 := j } else b

section defs

variable (cost : Fin n → Fin n → Int)

/-- `cost[i - 1][j - 1]`. An index before the start stops the program. -/
def entry (i : Fin (n + 1)) (j : Fin n) : Option Int :=
  Fin.cases none (fun i => some (cost i j)) i

def scanColumn (s : Search n) (j0 : Fin (n + 1)) (b : Scan n) (j : Fin n) : Option (Scan n) :=
  if s.used j.succ then
    return b
  else do
    let owed ← withinSigned 64 ((← entry cost (s.p j0) j) - s.u (s.p j0))
    let cur ← withinSigned 64 (owed - s.v j.succ)
    return (b.improve j0 j.succ cur).choose j.succ

def shiftColumn (delta : Int) (s : Search n) (j : Fin (n + 1)) : Option (Search n) :=
  if s.used j then do
    let paid ← withinSigned 64 (s.u (s.p j) + delta)
    let owed ← withinSigned 64 (s.v j - delta)
    return { s with
      u := Function.update s.u (s.p j) paid
      v := Function.update s.v j owed }
  else do
    let left ← withinSigned 64 (s.minv j - delta)
    return { s with minv := Function.update s.minv j left }

/-- A turn of the search: the column `j0` is used up, and the next one is chosen. -/
def round (s : Search n) (j0 : Fin (n + 1)) : Option (Search n × Fin (n + 1)) := do
  let s := { s with used := Function.update s.used j0 true }
  let b ← (List.finRange n).foldlM (scanColumn cost s j0) ⟨s.minv, s.way, inf, 0⟩
  let s ← (List.finRange (n + 1)).foldlM (shiftColumn b.delta)
    { s with minv := b.minv, way := b.way }
  return (s, b.j1)

/-- Every turn uses up a column, except that the first one may have to be taken again. -/
def search : Nat → Search n → Fin (n + 1) → Option (Search n × Fin (n + 1))
  | 0, _, _ => none
  | fuel + 1, s, j0 => do
    let (s, j0) ← round cost s j0
    if s.p j0 = 0 then return (s, j0) else search fuel s j0

def augment (way : Fin (n + 1) → Fin (n + 1))
    : Nat → (Fin (n + 1) → Fin (n + 1)) → Fin (n + 1) → Option (Fin (n + 1) → Fin (n + 1))
  | 0, _, _ => none
  | fuel + 1, p, j0 =>
    let j1 := way j0
    let p := Function.update p j0 (p j1)
    if j1 = 0 then some p else augment way fuel p j1

def phase (s : Solver n) (i : Fin n) : Option (Solver n) := do
  let s := { s with p := Function.update s.p 0 i.succ }
  let (t, j0) ← search cost (n + 1) { s with minv := fun _ => inf, used := fun _ => false } 0
  let p ← augment t.way (n + 1) t.p j0
  return { t.toSolver with p := p }

end defs

def start : Solver n where
  u := fun _ => 0
  v := fun _ => 0
  p := fun _ => 0
  way := fun _ => 0

def answer (p : Fin (n + 1) → Fin (n + 1)) : Fin n → Fin n :=
  (List.finRange n).foldl
    (fun ans j => Fin.cases ans (fun i => Function.update ans i j) (p j.succ))
    fun i => ⟨0, i.pos⟩

end Hungarian

namespace Hungarian

section proofs

variable {n : Nat} {cost : Fin n → Fin n → Int} {s t : Search n} {j0 : Fin (n + 1)}

/-- The matrix with a row and a column before the others. -/
def matrix (cost : Fin n → Fin n → Int) (i j : Fin (n + 1)) : Int :=
  Fin.cases 0 (fun i => Fin.cases 0 (cost i) j) i

theorem entry_of_ne {i : Fin (n + 1)} (hi : i ≠ 0) (j : Fin n)
    : entry cost i j = some (matrix cost i j.succ) := by
  cases i using Fin.cases with
  | zero => exact absurd rfl hi
  | succ i => rfl

/-- What a row has left to pay for a column. -/
abbrev left (cost : Fin n → Fin n → Int) (s : Search n) (i j : Fin (n + 1)) : Int :=
  reduced (matrix cost) s.u s.v i j

section scan

variable (b : Scan n) (j0 j : Fin (n + 1)) (cur : Int)

@[simp]
theorem improve_minv
    : (b.improve j0 j cur).minv = Function.update b.minv j (min (b.minv j) cur) := by
  unfold Scan.improve
  split
  next hlt => rw [min_eq_right hlt.le]
  next hle => rw [min_eq_left (not_lt.mp hle), Function.update_eq_self]

@[simp]
theorem improve_way
    : (b.improve j0 j cur).way =
        Function.update b.way j (if cur < b.minv j then j0 else b.way j) := by
  unfold Scan.improve
  split
  next => rfl
  next => rw [Function.update_eq_self]

@[simp]
theorem improve_delta : (b.improve j0 j cur).delta = b.delta := by
  unfold Scan.improve
  split <;> rfl

@[simp]
theorem improve_j1 : (b.improve j0 j cur).j1 = b.j1 := by
  unfold Scan.improve
  split <;> rfl

@[simp]
theorem choose_minv : (b.choose j).minv = b.minv := by
  unfold Scan.choose
  split <;> rfl

@[simp]
theorem choose_way : (b.choose j).way = b.way := by
  unfold Scan.choose
  split <;> rfl

theorem choose_delta_le : (b.choose j).delta ≤ b.delta ∧ (b.choose j).delta ≤ b.minv j := by
  unfold Scan.choose
  split
  next hlt => exact ⟨hlt.le, le_refl _⟩
  next hle => exact ⟨le_refl _, not_lt.mp hle⟩

theorem choose_cases
    : (b.choose j).j1 = j ∧ (b.choose j).delta = b.minv j ∨
      (b.choose j).j1 = b.j1 ∧ (b.choose j).delta = b.delta := by
  unfold Scan.choose
  split
  next => exact .inl ⟨rfl, rfl⟩
  next => exact .inr ⟨rfl, rfl⟩

end scan

/-- What the scan of the row of `j0` has come to after the columns `tried`. -/
structure Scanned (cost : Fin n → Fin n → Int) (s : Search n) (j0 : Fin (n + 1))
    (tried : List (Fin (n + 1))) (b : Scan n) : Prop where
  minv : ∀ k ∈ tried, b.minv k = min (s.minv k) (left cost s (s.p j0) k)
  way : ∀ k ∈ tried, b.way k = if left cost s (s.p j0) k < s.minv k then j0 else s.way k
  least : ∀ k ∈ tried, b.delta ≤ b.minv k
  chosen : b.j1 ∈ tried ∧ b.delta = b.minv b.j1 ∨ b.delta = inf
  otherMinv : ∀ k ∉ tried, b.minv k = s.minv k
  otherWay : ∀ k ∉ tried, b.way k = s.way k

theorem Scanned.concat {tried : List (Fin (n + 1))} {b : Scan n}
    (h : Scanned cost s j0 tried b) {j : Fin (n + 1)} (hj : j ∉ tried)
    : Scanned cost s j0 (tried ++ [j])
        ((b.improve j0 j (left cost s (s.p j0) j)).choose j) := by
  have hother : ∀ k ∈ tried, k ≠ j := fun k hk => ne_of_mem_of_not_mem hk hj
  have hle := choose_delta_le (b.improve j0 j (left cost s (s.p j0) j)) j
  rw [improve_delta] at hle
  refine ⟨?_, ?_, ?_, ?_, ?_, ?_⟩
  . intro k hk
    rw [choose_minv, improve_minv, h.otherMinv j hj]
    rcases List.mem_append.mp hk with hk | hk
    . rw [Function.update_of_ne (hother k hk), h.minv k hk]
    . rw [List.mem_singleton.mp hk, Function.update_self]
  . intro k hk
    rw [choose_way, improve_way, h.otherMinv j hj, h.otherWay j hj]
    rcases List.mem_append.mp hk with hk | hk
    . rw [Function.update_of_ne (hother k hk), h.way k hk]
    . rw [List.mem_singleton.mp hk, Function.update_self]
  . intro k hk
    rw [choose_minv]
    rcases List.mem_append.mp hk with hk | hk
    . rw [improve_minv, Function.update_of_ne (hother k hk)]
      exact hle.1.trans (h.least k hk)
    . rw [List.mem_singleton.mp hk]
      exact hle.2
  . rw [choose_minv]
    rcases choose_cases (b.improve j0 j (left cost s (s.p j0) j)) j with ⟨hj1, hd⟩ | ⟨hj1, hd⟩
    . rw [hj1, hd]
      exact .inl ⟨by simp, rfl⟩
    . rw [hj1, hd, improve_j1, improve_delta, improve_minv]
      rcases h.chosen with ⟨hmem, hchosen⟩ | hinf
      . rw [Function.update_of_ne (hother _ hmem)]
        exact .inl ⟨List.mem_append_left _ hmem, hchosen⟩
      . exact .inr hinf
  . intro k hk
    rw [List.mem_append, List.mem_singleton, not_or] at hk
    rw [choose_minv, improve_minv, Function.update_of_ne hk.2]
    exact h.otherMinv k hk.1
  . intro k hk
    rw [List.mem_append, List.mem_singleton, not_or] at hk
    rw [choose_way, improve_way, Function.update_of_ne hk.2]
    exact h.otherWay k hk.1

/-- The columns that a scan looks at. -/
def unused (s : Search n) (l : List (Fin n)) : List (Fin (n + 1)) :=
  (l.map Fin.succ).filter fun k => !s.used k

theorem mem_unused {k : Fin (n + 1)}
    : k ∈ unused s (List.finRange n) ↔ k ≠ 0 ∧ s.used k = false := by
  simp only [unused, List.mem_filter, List.mem_map, List.mem_finRange, true_and,
    Bool.not_eq_true']
  rw [Fin.exists_succ_eq]

def InWord (x : Int) : Prop :=
  -2 ^ 63 ≤ x ∧ x < 2 ^ 63

theorem InWord.within {x : Int} (h : InWord x) : withinSigned 64 x = some x :=
  withinSigned_of_lt h.1 h.2

theorem scan_spec (hrow : s.p j0 ≠ 0)
    (howed : ∀ k ≠ 0, s.used k = false → InWord (matrix cost (s.p j0) k - s.u (s.p j0)))
    (hleft : ∀ k ≠ 0, s.used k = false → InWord (left cost s (s.p j0) k))
    : ∃ b, (List.finRange n).foldlM (scanColumn cost s j0) ⟨s.minv, s.way, inf, 0⟩ = some b ∧
        Scanned cost s j0 (unused s (List.finRange n)) b := by
  apply foldlM_nodup (J := fun done b => Scanned cost s j0 (unused s done) b)
    (List.nodup_finRange n)
  . exact ⟨nofun, nofun, nofun, .inr rfl, fun _ _ => rfl, fun _ _ => rfl⟩
  . intro done j b _ hj h
    unfold scanColumn
    cases hused : s.used j.succ with
    | true =>
      refine ⟨b, if_pos rfl, ?_⟩
      simpa [unused, hused] using h
    | false =>
      have hne : j.succ ≠ 0 := Fin.succ_ne_zero j
      have hcur : matrix cost (s.p j0) j.succ - s.u (s.p j0) - s.v j.succ =
          left cost s (s.p j0) j.succ := rfl
      rw [if_neg Bool.false_ne_true, entry_of_ne hrow]
      simp only [Option.pure_def, Option.bind_eq_bind, Option.bind_some,
        (howed _ hne hused).within, hcur, (hleft _ hne hused).within]
      refine ⟨_, rfl, ?_⟩
      have hsplit : unused s (done ++ [j]) = unused s done ++ [j.succ] := by
        simp [unused, hused]
      rw [hsplit]
      apply h.concat
      simp [unused, hj]

/-- What the shift has come to after the columns `done`. -/
structure Shifting (delta : Int) (s : Search n) (done : List (Fin (n + 1))) (t : Search n)
    : Prop where
  shifted : Shifted s.p (done.filter (s.used ·)) delta s.u s.v t.u t.v
  minv : ∀ k ∈ done, s.used k = false → t.minv k = s.minv k - delta
  otherMinv : ∀ k ∉ done, t.minv k = s.minv k
  p : t.p = s.p
  way : t.way = s.way
  used : t.used = s.used

theorem shift_spec {delta : Int}
    (hinj : ∀ j k, s.used j = true → s.used k = true → s.p j = s.p k → j = k)
    (hu : ∀ j, s.used j = true → InWord (s.u (s.p j) + delta))
    (hv : ∀ j, s.used j = true → InWord (s.v j - delta))
    (hminv : ∀ j, s.used j = false → InWord (s.minv j - delta))
    : ∃ t, (List.finRange (n + 1)).foldlM (shiftColumn delta) s = some t ∧
        Shifting delta s (List.finRange (n + 1)) t := by
  apply foldlM_nodup (J := Shifting delta s) (List.nodup_finRange (n + 1))
  . exact ⟨Shifted.refl, nofun, fun _ _ => rfl, rfl, rfl, rfl⟩
  . intro done j t _ hj h
    unfold shiftColumn
    rw [h.used, h.p]
    cases hused : s.used j with
    | true =>
      have hfresh : j ∉ done.filter (s.used ·) := fun hmem => hj (List.mem_filter.mp hmem).1
      have hrow : ∀ k ∈ done.filter (s.used ·), s.p k ≠ s.p j := by
        intro k hk heq
        have hkused := (List.mem_filter.mp hk).2
        exact hfresh (hinj k j hkused hused heq ▸ hk)
      rw [if_pos rfl, h.shifted.otherRow _ hrow, h.shifted.otherColumn j hfresh,
        (hu j hused).within, (hv j hused).within]
      refine ⟨_, rfl, ?_, ?_, ?_, rfl, h.way, rfl⟩
      . rw [List.filter_append, List.filter_singleton, hused]
        exact h.shifted.concat hrow hfresh
      . intro k hk hkused
        rcases List.mem_append.mp hk with hk | hk
        . exact h.minv k hk hkused
        . rw [List.mem_singleton.mp hk, hused] at hkused
          cases hkused
      . intro k hk
        exact h.otherMinv k fun hmem => hk (List.mem_append_left _ hmem)
    | false =>
      rw [if_neg Bool.false_ne_true, h.otherMinv j hj, (hminv j hused).within]
      refine ⟨_, rfl, ?_, ?_, ?_, h.p, h.way, rfl⟩
      . rw [List.filter_append, List.filter_singleton, hused, cond_false, List.append_nil]
        exact h.shifted
      . intro k hk hkused
        rcases List.mem_append.mp hk with hk | hk
        . exact (Function.update_of_ne (ne_of_mem_of_not_mem hk hj) _ _).trans
            (h.minv k hk hkused)
        . rw [List.mem_singleton.mp hk]
          exact Function.update_self j _ _
      . intro k hk
        rw [List.mem_append, List.mem_singleton, not_or] at hk
        exact (Function.update_of_ne hk.2 _ _).trans (h.otherMinv k hk.1)

/-- How far the costs may lie apart. A column without a row then has less than `inf` left to pay,
and the price of the place before the columns, which is a sum of `n` prices of rows, fits the
word. -/
structure Bounds (cost : Fin n → Fin n → Int) (lo hi : Int) : Prop where
  le : ∀ i j, lo ≤ cost i j
  ge : ∀ i j, cost i j ≤ hi
  spread : hi - lo < inf
  reach : hi < inf
  sum : n * max |lo| |hi| < 2 ^ 63

/-- What holds of the rows of the columns while one more row looks for its column. -/
structure Entered (p : Fin (n + 1) → Fin (n + 1)) : Prop where
  inj : ∀ j k, p j ≠ 0 → p j = p k → j = k
  root : p 0 ≠ 0
  free : ∃ f ≠ 0, p f = 0

section bounds

variable {lo hi : Int} {p : Fin (n + 1) → Fin (n + 1)} {u v : Fin (n + 1) → Int}

theorem Bounds.matrix (hb : Bounds cost lo hi) {i j : Fin (n + 1)} (hi0 : i ≠ 0) (hj0 : j ≠ 0)
    : lo ≤ matrix cost i j ∧ matrix cost i j ≤ hi := by
  rcases Fin.exists_succ_eq.mpr hi0 with ⟨i, rfl⟩
  rcases Fin.exists_succ_eq.mpr hj0 with ⟨j, rfl⟩
  exact ⟨hb.le i j, hb.ge i j⟩

theorem within_max_abs (lo hi : Int) : -max |lo| |hi| ≤ lo ∧ hi ≤ max |lo| |hi| := by
  refine ⟨?_, (le_abs_self hi).trans (le_max_right |lo| |hi|)⟩
  exact (neg_le_neg (le_max_left |lo| |hi|)).trans (neg_abs_le lo)

theorem Bounds.range (hb : Bounds cost lo hi) {k : Fin (n + 1)} (hk : k ≠ 0)
    : lo ≤ hi ∧ -2 ^ 63 < lo ∧ hi - lo < 2305843009213693951 ∧ hi < 2305843009213693951 := by
  have hentry := hb.matrix hk hk
  have hn : 1 ≤ (n : Int) := by
    have hlt := k.isLt
    have hpos := Fin.pos_iff_ne_zero.mpr hk
    rw [Fin.lt_def, Fin.val_zero] at hpos
    omega
  have hmul : max |lo| |hi| ≤ n * max |lo| |hi| :=
    le_mul_of_one_le_left (le_max_of_le_left (abs_nonneg lo)) hn
  have htop := within_max_abs lo hi
  have hsum := hb.sum
  exact ⟨hentry.1.trans hentry.2, by omega, hb.spread, hb.reach⟩

theorem Entered.row_le (hp : Entered p) (hb : Bounds cost lo hi)
    (h : Prices (matrix cost) 0 0 p u v) {k : Fin (n + 1)} (hk : k ≠ 0) (hrow : p k ≠ 0)
    : lo ≤ u (p k) ∧ u (p k) ≤ hi := by
  rcases hp.free with ⟨f, hf, hfree⟩
  have hpaid := (h.paid k hk).1 hrow
  have hfeasible := h.feasible k hk hrow f hf
  have hzero := (h.paid f hf).2 hfree
  have hnonpos := h.nonpos k hk
  have hcost := hb.matrix hrow hk
  have hcost' := hb.matrix hrow hf
  simp only [reduced] at hpaid hfeasible
  omega

theorem Entered.column_le (hp : Entered p) (hb : Bounds cost lo hi)
    (h : Prices (matrix cost) 0 0 p u v) {k : Fin (n + 1)} (hk : k ≠ 0)
    : lo - hi ≤ v k ∧ v k ≤ 0 := by
  refine ⟨?_, h.nonpos k hk⟩
  by_cases hrow : p k = 0
  . have hrange := hb.range hk
    rw [(h.paid k hk).2 hrow]
    omega
  . have hpaid := (h.paid k hk).1 hrow
    have hcost := hb.matrix hrow hk
    have hle := hp.row_le hb h hk hrow
    simp only [reduced] at hpaid
    omega

theorem Entered.left_le (hp : Entered p) (hb : Bounds cost lo hi)
    (h : Prices (matrix cost) 0 0 p u v) {i k : Fin (n + 1)} (hi0 : i ≠ 0) (hk : k ≠ 0)
    (hpaid : lo ≤ u i ∧ u i ≤ hi ∨ u i = 0)
    : InWord (matrix cost i k - u i) ∧ InWord (reduced (matrix cost) u v i k) ∧
      (v k = 0 → reduced (matrix cost) u v i k < inf) := by
  have hcost := hb.matrix hi0 hk
  have hcolumn := hp.column_le hb h hk
  have hrange := hb.range hk
  have hinf : inf = 2305843009213693951 := rfl
  simp only [InWord, reduced, hinf]
  omega

end bounds

section rounds

variable {lo hi base delta : Int} {p : Fin (n + 1) → Fin (n + 1)} {seen : List (Fin (n + 1))}
variable {j1 : Fin (n + 1)}

/-- What holds after a turn of the search. The rows that are not assigned have paid nothing. -/
structure Grew (cost : Fin n → Fin n → Int) (lo base : Int) (p : Fin (n + 1) → Fin (n + 1))
    (seen : List (Fin (n + 1))) (j1 : Fin (n + 1)) (s : Search n) : Prop where
  tree : Tree (matrix cost) inf 0 0 p s.u s.v s.minv s.way seen
  rooted : Rooted (matrix cost) 0 p s.u s.v
  low : lo ≤ s.u (p 0)
  base : s.v 0 + s.u (p 0) = base
  idle : ∀ i ≠ 0, (∀ j, p j ≠ i) → s.u i = 0
  same : s.p = p
  used : ∀ k, s.used k = true ↔ k ∈ seen
  fresh : j1 ∉ seen
  zero : s.minv j1 = 0

/-- What a scan leaves to the shift after it. -/
structure Chosen (cost : Fin n → Fin n → Int) (lo base : Int) (p : Fin (n + 1) → Fin (n + 1))
    (seen : List (Fin (n + 1))) (j1 : Fin (n + 1)) (delta : Int) (s : Search n) : Prop where
  tree : Tree (matrix cost) inf 0 0 p s.u s.v s.minv s.way seen
  low : lo ≤ s.u (p 0) + delta
  base : s.v 0 + s.u (p 0) = base
  idle : ∀ i ≠ 0, (∀ j, p j ≠ i) → s.u i = 0
  same : s.p = p
  used : ∀ k, s.used k = true ↔ k ∈ seen
  fresh : j1 ∉ seen
  least : ∀ k ∉ seen, delta ≤ s.minv k
  attained : s.minv j1 = delta
  grown : ∀ k ∈ seen, k ≠ 0 → 0 ≤ delta ∧ Rooted (matrix cost) 0 p s.u s.v

theorem Chosen.row_le (h : Chosen cost lo base p seen j1 delta s) (hp : Entered p)
    (hb : Bounds cost lo hi) {j : Fin (n + 1)} (hj : j ∈ seen)
    : lo ≤ s.u (p j) + delta ∧ s.u (p j) + delta ≤ hi := by
  rcases hp.free with ⟨f, hf, hfree⟩
  have hseen : f ∉ seen := fun hmem => h.tree.taken f hmem hfree
  have hleast := (h.least f hseen).trans (h.tree.least f hseen j hj)
  have hzero := (h.tree.paid f hf).2 hfree
  have hcost := hb.matrix (h.tree.taken j hj) hf
  simp only [reduced] at hleast
  refine ⟨?_, by omega⟩
  by_cases hroot : j = 0
  . rw [hroot]
    exact h.low
  . have hrow := hp.row_le hb h.tree.toPrices hroot (h.tree.taken j hj)
    have hdelta := (h.grown j hj hroot).1
    omega

theorem Chosen.column_inWord (h : Chosen cost lo base p seen j1 delta s) (hp : Entered p)
    (hb : Bounds cost lo hi) (hbase : -2 ^ 63 ≤ base - hi ∧ base - lo < 2 ^ 63)
    {j : Fin (n + 1)} (hj : j ∈ seen)
    : InWord (s.v j - delta) := by
  have hrow := h.row_le hp hb hj
  unfold InWord
  by_cases hroot : j = 0
  . have hsum := h.base
    rw [hroot] at hrow ⊢
    omega
  . have htaken := h.tree.taken j hj
    have hpaid := (h.tree.paid j hroot).1 htaken
    have hcost := hb.matrix htaken hroot
    have hrange := hb.range hroot
    have hnonpos := h.tree.nonpos j hroot
    have hdelta := (h.grown j hj hroot).1
    simp only [reduced] at hpaid
    omega

theorem Chosen.minv_inWord (h : Chosen cost lo base p seen j1 delta s) (hp : Entered p)
    (hb : Bounds cost lo hi) {k : Fin (n + 1)} (hk : k ∉ seen)
    : InWord (s.minv k - delta) := by
  have hroot : k ≠ 0 := (ne_of_mem_of_not_mem h.tree.grown.root_mem hk).symm
  have hleast := h.least k hk
  have hcolumn := hp.column_le hb h.tree.toPrices hroot
  have hrange := hb.range hroot
  unfold InWord
  rcases h.tree.reached k hk with ⟨hmem, hattained⟩ | hunknown
  . have hrow := h.row_le hp hb hmem
    have hcost := hb.matrix (h.tree.taken _ hmem) hroot
    simp only [reduced] at hattained
    omega
  . -- the new row has more to pay than `inf`, so that no cost is very low
    have hmem := h.tree.grown.root_mem
    have hrow := h.row_le hp hb hmem
    have hcost := hb.matrix (h.tree.taken 0 hmem) hroot
    have hleft := h.tree.least k hk 0 hmem
    have hinf : inf = 2305843009213693951 := rfl
    simp only [reduced] at hleft
    omega

theorem Chosen.shift (h : Chosen cost lo base p seen j1 delta s) (hp : Entered p)
    (hb : Bounds cost lo hi) (hbase : -2 ^ 63 ≤ base - hi ∧ base - lo < 2 ^ 63)
    : ∃ t, (List.finRange (n + 1)).foldlM (shiftColumn delta) s = some t ∧
        Grew cost lo base p seen j1 t := by
  have hunused : ∀ k, s.used k = false ↔ k ∉ seen := by
    intro k
    rw [← h.used k, Bool.not_eq_true]
  have hspec : ∃ t, (List.finRange (n + 1)).foldlM (shiftColumn delta) s = some t ∧
      Shifting delta s (List.finRange (n + 1)) t := by
    apply shift_spec
    . intro j k hj _ heq
      rw [h.same] at heq
      exact hp.inj j k (h.tree.taken j ((h.used j).mp hj)) heq
    . intro j hj
      have hrange := hb.range hp.root
      have hrow := h.row_le hp hb ((h.used j).mp hj)
      rw [h.same]
      unfold InWord
      omega
    . intro j hj
      exact h.column_inWord hp hb hbase ((h.used j).mp hj)
    . intro j hj
      exact h.minv_inWord hp hb ((hunused j).mp hj)
  rcases hspec with ⟨t, ht, hshifting⟩
  have hshifted : Shifted p seen delta s.u s.v t.u t.v := by
    rw [← h.same]
    apply hshifting.shifted.of_mem_iff
    intro k
    simp [h.used k]
  have hminv : ∀ k ∉ seen, t.minv k = s.minv k - delta := by
    intro k hk
    exact hshifting.minv k (List.mem_finRange k) ((hunused k).mpr hk)
  rcases h.tree.shift hp.inj hshifted h.least hminv h.grown with ⟨htree, hrooted⟩
  have hroot := h.tree.grown.root_mem
  refine ⟨t, ht, hshifting.way ▸ htree, hrooted, ?_, ?_, ?_, ?_, ?_, h.fresh, ?_⟩
  . rw [hshifted.row 0 hroot]
    exact h.low
  . rw [hshifted.row 0 hroot, hshifted.column 0 hroot, ← h.base]
    omega
  . intro i hi hnone
    rw [hshifted.otherRow i fun j _ => hnone j]
    exact h.idle i hi hnone
  . rw [hshifting.p, h.same]
  . rw [hshifting.used]
    exact h.used
  . rw [hminv j1 h.fresh, h.attained, Int.sub_self]

theorem scan_chosen (hp : Entered p) (hb : Bounds cost lo hi)
    (hprices : Prices (matrix cost) 0 0 p s.u s.v) (hsame : s.p = p) (hrow : p j0 ≠ 0)
    (hpaid : lo ≤ s.u (p j0) ∧ s.u (p j0) ≤ hi ∨ s.u (p j0) = 0)
    (hfree : ∃ f ≠ 0, p f = 0 ∧ s.used f = false)
    : ∃ b, (List.finRange n).foldlM (scanColumn cost s j0) ⟨s.minv, s.way, inf, 0⟩ = some b ∧
        Scanned cost s j0 (unused s (List.finRange n)) b ∧
        b.j1 ∈ unused s (List.finRange n) ∧ b.delta = b.minv b.j1 := by
  subst hsame
  have hleft : ∀ k ≠ 0, InWord (matrix cost (s.p j0) k - s.u (s.p j0)) ∧
      InWord (left cost s (s.p j0) k) ∧ (s.v k = 0 → left cost s (s.p j0) k < inf) :=
    fun k hk => hp.left_le hb hprices hrow hk hpaid
  rcases scan_spec hrow (fun k hk _ => (hleft k hk).1) (fun k hk _ => (hleft k hk).2.1)
    with ⟨b, hscan, hscanned⟩
  refine ⟨b, hscan, hscanned, ?_⟩
  rcases hscanned.chosen with hchosen | hinf
  . exact hchosen
  . -- a column is left, and what is left to pay for it is known
    rcases hfree with ⟨f, hf, hnone, hunused⟩
    have hmem := mem_unused.mpr ⟨hf, hunused⟩
    have hlt := ((hscanned.least f hmem).trans_eq (hscanned.minv f hmem)).trans
      (min_le_right _ _) |>.trans_lt ((hleft f hf).2.2 ((hprices.paid f hf).2 hnone))
    rw [hinf] at hlt
    exact absurd hlt (lt_irrefl _)

/-- The state in which a turn scans. -/
def marked (s : Search n) (j0 : Fin (n + 1)) : Search n :=
  { s with used := Function.update s.used j0 true }

theorem used_marked (hused : ∀ k, s.used k = true ↔ k ∈ seen) (j0 k : Fin (n + 1))
    : (marked s j0).used k = true ↔ k ∈ j0 :: seen := by
  simp only [marked, Function.update_apply, List.mem_cons, ← hused k]
  split
  next hk => simp [hk]
  next hk => simp [hk]

theorem mem_unused_marked (hused : ∀ k, s.used k = true ↔ k ∈ seen) (hroot : 0 ∈ j0 :: seen)
    {k : Fin (n + 1)}
    : k ∈ unused (marked s j0) (List.finRange n) ↔ k ∉ j0 :: seen := by
  rw [mem_unused, ← used_marked hused j0 k, Bool.not_eq_true, and_iff_right_iff_imp]
  rintro hk rfl
  rw [(used_marked hused j0 0).mpr hroot] at hk
  cases hk

theorem Chosen.round {b : Scan n}
    (h : Chosen cost lo base p seen b.j1 b.delta
      { marked s j0 with minv := b.minv, way := b.way })
    (hscan : (List.finRange n).foldlM (scanColumn cost (marked s j0) j0) ⟨s.minv, s.way, inf, 0⟩ =
      some b)
    (hp : Entered p) (hb : Bounds cost lo hi)
    (hbase : -2 ^ 63 ≤ base - hi ∧ base - lo < 2 ^ 63)
    : ∃ t j1, round cost s j0 = some (t, j1) ∧ Grew cost lo base p seen j1 t := by
  rcases h.shift hp hb hbase with ⟨t, ht, hgrew⟩
  refine ⟨t, b.j1, ?_, hgrew⟩
  unfold Hungarian.round
  simp only [marked] at hscan ht
  simp [hscan, ht]

theorem Grew.row_lt (h : Grew cost lo base p seen j0 s) (hp : Entered p) (hb : Bounds cost lo hi)
    : s.u (p 0) < inf := by
  rcases hp.free with ⟨f, hf, hfree⟩
  have hrooted := h.rooted f hf
  have hcost := hb.matrix hp.root hf
  have hreach := hb.reach
  rw [reduced, (h.tree.paid f hf).2 hfree] at hrooted
  omega

theorem Grew.round (h : Grew cost lo base p seen j0 s) (hp : Entered p) (hb : Bounds cost lo hi)
    (hbase : -2 ^ 63 ≤ base - hi ∧ base - lo < 2 ^ 63) (hrow : p j0 ≠ 0)
    : ∃ t j1, round cost s j0 = some (t, j1) ∧ Grew cost lo base p (j0 :: seen) j1 t := by
  have hroot := List.mem_cons_of_mem j0 h.tree.grown.root_mem
  have hj0 : j0 ≠ 0 := (ne_of_mem_of_not_mem h.tree.grown.root_mem h.fresh).symm
  have hunused := fun k => mem_unused_marked (k := k) h.used hroot
  have hfree : ∃ f ≠ 0, p f = 0 ∧ (marked s j0).used f = false := by
    rcases hp.free with ⟨f, hf, hfree⟩
    refine ⟨f, hf, hfree, (mem_unused.mp ((hunused f).mpr ?_)).2⟩
    rintro (_ | ⟨_, hmem⟩)
    . exact hrow hfree
    . exact h.tree.taken f hmem hfree
  rcases scan_chosen (s := marked s j0) hp hb h.tree.toPrices h.same hrow
    (.inl (hp.row_le hb h.tree.toPrices hj0 hrow)) hfree with ⟨b, hscan, hscanned, hj1, hdelta⟩
  have hp0 : (marked s j0).p j0 = p j0 := congrFun h.same j0
  have hlt := h.row_lt hp hb
  have htree : Tree (matrix cost) inf 0 0 p s.u s.v b.minv b.way (j0 :: seen) := by
    apply h.tree.scan h.fresh _ h.zero hrow
    . intro k hk
      exact hscanned.otherWay k fun hmem => (hunused k).mp hmem hk
    . intro k hk
      rw [hscanned.minv k ((hunused k).mpr hk), hp0]
      rfl
    . intro k hk
      rw [hscanned.way k ((hunused k).mpr hk), hp0]
      rfl
    . rw [h.zero]
      omega
  have hnonneg := htree.minv_nonneg h.rooted (by omega) ((hunused b.j1).mp hj1)
  apply Chosen.round _ hscan hp hb hbase
  refine ⟨htree, ?_, h.base, h.idle, h.same, used_marked h.used j0, (hunused b.j1).mp hj1, ?_,
    hdelta.symm, ?_⟩
  . have hlow := h.low
    rw [hdelta]
    show lo ≤ s.u (p 0) + b.minv b.j1
    omega
  . intro k hk
    exact hscanned.least k ((hunused k).mpr hk)
  . intro k _ _
    exact ⟨hdelta ▸ hnonneg, h.rooted⟩

theorem round_start (hprices : Prices (matrix cost) 0 0 p s.u s.v) (hp : Entered p)
    (hb : Bounds cost lo hi) (hsame : s.p = p) (hidle : ∀ i ≠ 0, (∀ j ≠ 0, p j ≠ i) → s.u i = 0)
    (hbase : -2 ^ 63 ≤ s.v 0 - hi ∧ s.v 0 - lo < 2 ^ 63) (hminv : ∀ k, s.minv k = inf)
    (hused : ∀ k, s.used k = false)
    : ∃ t j1, round cost s 0 = some (t, j1) ∧ Grew cost lo (s.v 0) p [0] j1 t := by
  have hmem : ∀ k, s.used k = true ↔ k ∈ [] := by
    intro k
    simp [hused k]
  have hzero : s.u (p 0) = 0 := by
    apply hidle _ hp.root
    intro j hj heq
    exact hj (hp.inj 0 j hp.root heq.symm).symm
  have hunused := fun k => mem_unused_marked (k := k) hmem (List.mem_singleton_self 0)
  have hfree : ∃ f ≠ 0, p f = 0 ∧ (marked s 0).used f = false := by
    rcases hp.free with ⟨f, hf, hfree⟩
    exact ⟨f, hf, hfree, (mem_unused.mp ((hunused f).mpr (List.mem_singleton.not.mpr hf))).2⟩
  rcases scan_chosen (s := marked s 0) hp hb hprices hsame hp.root (.inr hzero) hfree
    with ⟨b, hscan, hscanned, hj1, hdelta⟩
  have hp0 : (marked s 0).p 0 = p 0 := congrFun hsame 0
  have hleft : ∀ k ≠ 0, b.minv k
      = min (inf - s.u (p 0)) (reduced (matrix cost) s.u s.v (p 0) k) := by
    intro k hk
    rw [hscanned.minv k ((hunused k).mpr (List.mem_singleton.not.mpr hk)), hp0, hzero, Int.sub_zero,
      ← hminv k]
    rfl
  have hway : ∀ k ≠ 0, reduced (matrix cost) s.u s.v (p 0) k < inf - s.u (p 0) → b.way k = 0 := by
    intro k hk hlt
    rw [hscanned.way k ((hunused k).mpr (List.mem_singleton.not.mpr hk)), hp0]
    rw [hzero, Int.sub_zero, ← hminv k] at hlt
    exact if_pos hlt
  have htree := hprices.start hp.root hleft hway
  apply Chosen.round _ hscan hp hb hbase
  refine ⟨htree, ?_, ?_, ?_, hsame, used_marked hmem 0, (hunused b.j1).mp hj1, ?_, hdelta.symm, ?_⟩
  . have hne := (mem_unused.mp hj1).1
    have hcost := hb.matrix hp.root hne
    have hcolumn := hprices.nonpos b.j1 hne
    have hreach := hb.reach
    rw [hdelta, hleft b.j1 hne, reduced]
    show lo ≤ s.u (p 0) + _
    omega
  . show s.v 0 + s.u (p 0) = s.v 0
    rw [hzero, Int.add_zero]
  . intro i hi hnone
    exact hidle i hi fun j _ => hnone j
  . intro k hk
    exact hscanned.least k ((hunused k).mpr hk)
  . intro k hk hne
    exact absurd (List.mem_singleton.mp hk) hne

theorem Grew.length_lt (h : Grew cost lo base p seen j0 s) (hp : Entered p) (hrow : p j0 ≠ 0)
    : seen.length + 1 ≤ n := by
  rcases hp.free with ⟨f, -, hfree⟩
  have hnodup : (f :: j0 :: seen).Nodup := by
    refine List.nodup_cons.mpr ⟨?_, List.nodup_cons.mpr ⟨h.fresh, h.tree.grown.nodup⟩⟩
    rintro (_ | ⟨_, hmem⟩)
    . exact hrow hfree
    . exact h.tree.taken f hmem hfree
  have hcard := hnodup.length_le_card
  rw [Fintype.card_fin, List.length_cons, List.length_cons] at hcard
  omega

/-- The search goes on until it comes to a column without a row. -/
theorem Grew.search {fuel : Nat} (h : Grew cost lo base p seen j0 s) (hp : Entered p)
    (hb : Bounds cost lo hi) (hbase : -2 ^ 63 ≤ base - hi ∧ base - lo < 2 ^ 63)
    (hfuel : n ≤ seen.length + fuel)
    : ∃ t j1 seen', (if s.p j0 = 0 then some (s, j0) else search cost fuel s j0) = some (t, j1) ∧
        Grew cost lo base p seen' j1 t ∧ p j1 = 0 := by
  induction fuel generalizing seen j0 s with
  | zero =>
    have hfree : p j0 = 0 := by
      by_contra hrow
      have hlt := h.length_lt hp hrow
      omega
    exact ⟨s, j0, seen, if_pos (by rw [h.same, hfree]), h, hfree⟩
  | succ fuel ih =>
    by_cases hfree : p j0 = 0
    . refine ⟨s, j0, seen, if_pos (by rw [h.same, hfree]), h, hfree⟩
    . rcases h.round hp hb hbase hfree with ⟨t, j1, hround, hgrew⟩
      rcases ih hgrew (by rw [List.length_cons]; omega) with ⟨t', j', seen', hsearch, hfound⟩
      refine ⟨t', j', seen', ?_, hfound⟩
      rw [if_neg (by rw [h.same]; exact hfree), Hungarian.search, hround]
      exact hsearch

end rounds

section augment

variable {way row p : Fin (n + 1) → Fin (n + 1)} {rows : Fin (n + 1) → Prop}
variable {fits : Fin (n + 1) → Fin (n + 1) → Prop}

theorem augment_holed {fuel : Nat} {seen : List (Fin (n + 1))} {hole : Fin (n + 1)}
    (hgrown : Grown 0 way (fun j k => fits (row j) k) seen) (hsame : ∀ j ∈ seen, p j = row j)
    (hfresh : hole ∉ seen) (hparent : way hole ∈ seen) (hlink : fits (row (way hole)) hole)
    (h : Holed 0 rows fits 0 hole p) (hfuel : seen.length ≤ fuel)
    : ∃ p', augment way fuel p hole = some p' ∧ Holed 0 rows fits 0 0 p' := by
  induction fuel generalizing seen hole p with
  | zero =>
    have hpos := List.length_pos_of_mem hparent
    omega
  | succ fuel ih =>
    have hmoved := h.move (ne_of_mem_of_not_mem hparent hfresh)
      (by rw [hsame _ hparent]; exact hlink)
    unfold augment
    by_cases hroot : way hole = 0
    . rw [hroot] at hmoved
      exact ⟨_, by simp [hroot], hmoved⟩
    . rcases hgrown.exists_rest hparent hroot
        with ⟨rest, hlength, hsubset, hfresh', hparent', hlink', hgrown'⟩
      simp only [if_neg hroot]
      apply ih hgrown' _ hfresh' hparent' hlink' hmoved (by omega)
      intro j hj
      rw [Function.update_of_ne (ne_of_mem_of_not_mem (hsubset hj) hfresh)]
      exact hsame j (hsubset hj)

end augment

section phases

variable {lo hi : Int} {done : List (Fin n)} {s : Solver n}

/-- What holds when the rows `done` are assigned. -/
structure Assigned (cost : Fin n → Fin n → Int) (lo hi : Int) (done : List (Fin n)) (s : Solver n)
    : Prop where
  holed : Holed 0 (fun i => ∃ r ∈ done, r.succ = i) (Paid (matrix cost) 0 s.u s.v) 0 0 s.p
  prices : Prices (matrix cost) 0 0 s.p s.u s.v
  idle : ∀ i ≠ 0, (∀ j ≠ 0, s.p j ≠ i) → s.u i = 0
  base : |s.v 0| ≤ done.length * max |lo| |hi|

theorem assigned_start : Assigned cost lo hi [] start := by
  refine ⟨⟨?_, ?_, ?_⟩, ⟨?_, ?_, ?_⟩, fun _ _ _ => rfl, ?_⟩
  . intro j _ k _ hne
    exact absurd rfl hne
  . intro i hi
    constructor
    . rintro ⟨r, hr, -⟩
      cases hr
    . rintro ⟨j, -, hj⟩
      exact absurd hj.symm hi
  . intro k _ _
    exact ⟨fun hne => absurd rfl hne, fun _ => rfl⟩
  . intro k _
    exact ⟨fun hne => absurd rfl hne, fun _ => rfl⟩
  . intro j _ hne
    exact absurd rfl hne
  . intro k _
    exact le_refl 0
  . simp [start]

theorem Assigned.exists_free (h : Assigned cost lo hi done s) (hlength : done.length < n)
    : ∃ f ≠ 0, s.p f = 0 := by
  by_contra hno
  have hnone : ∀ k ≠ 0, s.p k ≠ 0 := fun k hk hfree => hno ⟨k, hk, hfree⟩
  have hnodup : ((List.finRange n).map fun k => s.p k.succ).Nodup := by
    apply (List.nodup_finRange n).map
    intro j k heq
    apply Fin.succ_injective n
    exact h.holed.inj _ (Fin.succ_ne_zero j) _ (Fin.succ_ne_zero k)
      (hnone _ (Fin.succ_ne_zero j)) heq
  have hsubset : ((List.finRange n).map fun k => s.p k.succ) ⊆ done.map Fin.succ := by
    intro i hi
    rcases List.mem_map.mp hi with ⟨k, -, rfl⟩
    have hne := Fin.succ_ne_zero k
    exact List.mem_map.mpr ((h.holed.onto _ (hnone _ hne)).mpr ⟨_, hne, rfl⟩)
  have hle := (List.subperm_of_subset hnodup hsubset).length_le
  rw [List.length_map, List.length_map, List.length_finRange] at hle
  omega

variable {r : Fin n}

theorem Assigned.entered (h : Assigned cost lo hi done s) (hr : r ∉ done)
    (hlength : done.length < n)
    : Entered (Function.update s.p 0 r.succ) := by
  have hother : ∀ k ≠ 0, Function.update s.p 0 r.succ k = s.p k :=
    fun k hk => Function.update_of_ne hk _ _
  have hnew : ∀ k ≠ 0, s.p k ≠ r.succ := by
    intro k hk heq
    rcases (h.holed.onto _ (Fin.succ_ne_zero r)).mpr ⟨k, hk, heq⟩ with ⟨r', hr', hsucc⟩
    exact hr (Fin.succ_injective n hsucc ▸ hr')
  refine ⟨?_, ?_, ?_⟩
  . intro j k hj heq
    by_cases hj0 : j = 0
    . subst hj0
      by_cases hk0 : k = 0
      . exact hk0.symm
      . rw [Function.update_self, hother k hk0] at heq
        exact absurd heq.symm (hnew k hk0)
    . rw [hother j hj0] at hj heq
      by_cases hk0 : k = 0
      . rw [hk0, Function.update_self] at heq
        exact absurd heq (hnew j hj0)
      . rw [hother k hk0] at heq
        exact h.holed.inj j hj0 k hk0 hj heq
  . rw [Function.update_self]
    exact Fin.succ_ne_zero r
  . rcases h.exists_free hlength with ⟨f, hf, hfree⟩
    exact ⟨f, hf, by rw [hother f hf, hfree]⟩

theorem Assigned.holed_at (h : Assigned cost lo hi done s) {hole : Fin (n + 1)}
    {fits : Fin (n + 1) → Fin (n + 1) → Prop} (hp : Entered (Function.update s.p 0 r.succ))
    (hhole : Function.update s.p 0 r.succ hole = 0)
    (hfits : ∀ k ≠ 0, fits (Function.update s.p 0 r.succ k) k)
    : Holed 0 (fun i => ∃ r' ∈ done ++ [r], r'.succ = i) fits 0 hole
        (Function.update s.p 0 r.succ) := by
  have hother : ∀ k ≠ 0, Function.update s.p 0 r.succ k = s.p k :=
    fun k hk => Function.update_of_ne hk _ _
  refine ⟨fun j _ k _ => hp.inj j k, ?_, fun k _ => hfits k⟩
  intro i hi
  have hne : ∀ j, Function.update s.p 0 r.succ j = i → j ≠ hole := by
    rintro j hj rfl
    exact hi (hj.symm.trans hhole)
  constructor
  . rintro ⟨r', hr', hsucc⟩
    rcases List.mem_append.mp hr' with hr' | hr'
    . rcases (h.holed.onto i hi).mp ⟨r', hr', hsucc⟩ with ⟨j, hj, hrow⟩
      have hrow' := (hother j hj).trans hrow
      exact ⟨j, hne j hrow', hrow'⟩
    . rw [List.mem_singleton.mp hr'] at hsucc
      have hrow' := (Function.update_self 0 r.succ s.p).trans hsucc
      exact ⟨0, hne 0 hrow', hrow'⟩
  . rintro ⟨j, -, hrow⟩
    by_cases hj : j = 0
    . rw [hj, Function.update_self] at hrow
      exact ⟨r, by simp, hrow⟩
    . rw [hother j hj] at hrow
      rcases (h.holed.onto i hi).mpr ⟨j, hj, hrow⟩ with ⟨r', hr', hsucc⟩
      exact ⟨r', List.mem_append_left _ hr', hsucc⟩

theorem Assigned.base_le (h : Assigned cost lo hi done s) (hb : Bounds cost lo hi)
    (hlength : done.length < n)
    : -2 ^ 63 ≤ s.v 0 - hi ∧ s.v 0 - lo < 2 ^ 63 := by
  have hbase := abs_le.mp h.base
  have htop := within_max_abs lo hi
  have hle : ((done.length : Int) + 1) * max |lo| |hi| ≤ n * max |lo| |hi| := by
    apply mul_le_mul_of_nonneg_right _ (le_max_of_le_left (abs_nonneg lo))
    omega
  have hsum := hb.sum
  rw [add_mul, one_mul] at hle
  omega

theorem Assigned.search (h : Assigned cost lo hi done s) (hb : Bounds cost lo hi) (hr : r ∉ done)
    (hlength : done.length < n)
    : ∃ t hole seen,
        search cost (n + 1)
          ⟨{ s with p := Function.update s.p 0 r.succ }, fun _ => inf, fun _ => false⟩ 0 =
          some (t, hole) ∧
        Grew cost lo (s.v 0) (Function.update s.p 0 r.succ) seen hole t ∧
        Function.update s.p 0 r.succ hole = 0 := by
  have hp := h.entered hr hlength
  have hother : ∀ k ≠ 0, Function.update s.p 0 r.succ k = s.p k :=
    fun k hk => Function.update_of_ne hk _ _
  have hbase := h.base_le hb hlength
  have hidle : ∀ i ≠ 0, (∀ j ≠ 0, Function.update s.p 0 r.succ j ≠ i) → s.u i = 0 := by
    intro i hi hnone
    exact h.idle i hi fun j hj hrow => hnone j hj ((hother j hj).trans hrow)
  rcases round_start (s := ⟨{ s with p := Function.update s.p 0 r.succ }, fun _ => inf,
    fun _ => false⟩) (h.prices.congr hother) hp hb rfl hidle hbase (fun _ => rfl) (fun _ => rfl)
    with ⟨t, j0, hround, hgrew⟩
  rcases hgrew.search hp hb hbase (Nat.le_add_left n 1) with ⟨t', hole, seen, hsearch, hfound⟩
  refine ⟨t', hole, seen, ?_, hfound⟩
  rw [Hungarian.search, hround]
  exact hsearch

/-- The rows move along the path, and the hole comes to the place before the columns. -/
theorem Grew.augment {base : Int} {p : Fin (n + 1) → Fin (n + 1)} {seen : List (Fin (n + 1))}
    {hole : Fin (n + 1)} {t : Search n} {rows : Fin (n + 1) → Prop}
    (h : Grew cost lo base p seen hole t) (hlt : t.u (p 0) < inf)
    (hholed : Holed 0 rows (Paid (matrix cost) 0 t.u t.v) 0 hole p)
    : ∃ p', augment t.way (n + 1) p hole = some p' ∧
        Holed 0 rows (Paid (matrix cost) 0 t.u t.v) 0 0 p' := by
  have hpaid : ∀ j ∈ seen, ∀ k, reduced (matrix cost) t.u t.v (p j) k = 0 →
      Paid (matrix cost) 0 t.u t.v (p j) k := by
    intro j hj k hzero
    exact ⟨fun _ => hzero, fun hfree => absurd hfree (h.tree.taken j hj)⟩
  have hknown : t.minv hole ≠ inf - t.u (p 0) := by
    rw [h.zero]
    omega
  rcases (h.tree.reached hole h.fresh).resolve_right hknown with ⟨hparent, hattained⟩
  have hgrown := h.tree.grown.congr (fun _ _ => rfl) fun j hj k _ => hpaid j hj k
  have hlink := hpaid _ hparent hole (hattained.symm.trans h.zero)
  have hlength := h.tree.grown.nodup.length_le_card
  rw [Fintype.card_fin] at hlength
  exact augment_holed hgrown (fun _ _ => rfl) h.fresh hparent hlink hholed hlength

theorem Grew.base_le {base top : Int} {p : Fin (n + 1) → Fin (n + 1)} {seen : List (Fin (n + 1))}
    {hole : Fin (n + 1)} {t : Search n} (h : Grew cost lo base p seen hole t)
    (hb : Bounds cost lo hi) (hroot : p 0 ≠ 0) (hhole : p hole = 0) (hbase : |base| ≤ top)
    : |t.v 0| ≤ top + max |lo| |hi| := by
  have hne : hole ≠ 0 := by
    rintro rfl
    exact hroot hhole
  have hrooted := h.rooted hole hne
  have hzero := (h.tree.paid hole hne).2 hhole
  have hcost := hb.matrix hroot hne
  have hlow := h.low
  have hsum := h.base
  have htop := within_max_abs lo hi
  have hbase' := abs_le.mp hbase
  rw [reduced, hzero] at hrooted
  exact abs_le.mpr ⟨by omega, by omega⟩

theorem Assigned.phase (h : Assigned cost lo hi done s) (hb : Bounds cost lo hi)
    (hnodup : done.Nodup) (hr : r ∉ done)
    : ∃ t, phase cost s r = some t ∧ Assigned cost lo hi (done ++ [r]) t := by
  have hlength : done.length < n := by
    have hcard := (List.nodup_cons.mpr ⟨hr, hnodup⟩).length_le_card
    rwa [Fintype.card_fin, List.length_cons] at hcard
  have hp := h.entered hr hlength
  rcases h.search hb hr hlength with ⟨t, hole, seen, hsearch, hgrew, hhole⟩
  have hbefore := h.holed_at hp hhole hgrew.tree.paid
  rcases hgrew.augment (hgrew.row_lt hp hb) hbefore with ⟨p', haugment, hafter⟩
  have hrows : ∀ j ≠ 0, p' j ≠ 0 → ∃ k, Function.update s.p 0 r.succ k = p' j := by
    intro j hj hrow
    rcases (hbefore.onto _ hrow).mp ((hafter.onto _ hrow).mpr ⟨j, hj, rfl⟩) with ⟨k, -, hk⟩
    exact ⟨k, hk⟩
  refine ⟨{ t.toSolver with p := p' }, ?_, hafter, ?_, ?_, ?_⟩
  . unfold Hungarian.phase
    simp [hsearch, hgrew.same, haugment]
  . exact hgrew.tree.toPrices.reassign hgrew.rooted hrows fun k hk => hafter.fits k hk hk
  . intro i hi hnone
    apply hgrew.idle i hi
    intro j hj
    have hne : j ≠ hole := by
      rintro rfl
      exact hi (hj.symm.trans hhole)
    rcases (hafter.onto i hi).mp ((hbefore.onto i hi).mpr ⟨j, hne, hj⟩) with ⟨k, hk, hrow⟩
    exact hnone k hk hrow
  . rw [List.length_append, List.length_singleton, Nat.cast_add, add_mul, Nat.cast_one, one_mul]
    exact hgrew.base_le hb hp.root hhole h.base

end phases

theorem answer_eq {p : Fin (n + 1) → Fin (n + 1)}
    (hinj : ∀ j k : Fin n, p j.succ ≠ 0 → p j.succ = p k.succ → j = k) {i j : Fin n}
    (hj : p j.succ = i.succ)
    : answer p i = j := by
  have hwritten : ∀ i, ∀ j ∈ List.finRange n, p j.succ = i.succ → answer p i = j := by
    unfold answer
    apply foldl_nodup (J := fun done (ans : Fin n → Fin n) =>
      ∀ i : Fin n, ∀ j ∈ done, p j.succ = i.succ → ans i = j) (List.nodup_finRange n)
    . intro i j hj
      cases hj
    . intro done k ans _ _ h i j hj hrow
      cases hk : p k.succ using Fin.cases with
      | zero =>
        rcases List.mem_append.mp hj with hj | hj
        . exact h i j hj hrow
        . rw [List.mem_singleton.mp hj, hk] at hrow
          exact absurd hrow.symm (Fin.succ_ne_zero i)
      | succ i' =>
        by_cases hi : i = i'
        . subst hi
          have hne : p k.succ ≠ 0 := by
            rw [hk]
            exact Fin.succ_ne_zero i
          rw [Fin.cases_succ, Function.update_self]
          exact hinj k j hne (hk.trans hrow.symm)
        . rw [Fin.cases_succ, Function.update_of_ne hi]
          rcases List.mem_append.mp hj with hj | hj
          . exact h i j hj hrow
          . rw [List.mem_singleton.mp hj, hk] at hrow
            exact absurd (Fin.succ_injective n hrow).symm hi
  exact hwritten i j (List.mem_finRange j) hj

theorem Assigned.row_answer {lo hi : Int} {s : Solver n}
    (h : Assigned cost lo hi (List.finRange n) s) (i : Fin n)
    : s.p (answer s.p i).succ = i.succ := by
  have hinj : ∀ j k : Fin n, s.p j.succ ≠ 0 → s.p j.succ = s.p k.succ → j = k := by
    intro j k hne heq
    exact Fin.succ_injective n
      (h.holed.inj _ (Fin.succ_ne_zero j) _ (Fin.succ_ne_zero k) hne heq)
  rcases (h.holed.onto _ (Fin.succ_ne_zero i)).mp ⟨i, List.mem_finRange i, rfl⟩
    with ⟨k, hk, hki⟩
  rcases Fin.exists_succ_eq.mpr hk with ⟨j, rfl⟩
  rw [answer_eq hinj hki, hki]

end proofs

end Hungarian

/-- The matrix is square, and the answer has a column for each row. -/
def hungarian {n : Nat} (cost : Fin n → Fin n → Int) : Option (Fin n → Fin n) := do
  let s ← (List.finRange n).foldlM (Hungarian.phase cost) Hungarian.start
  return Hungarian.answer s.p

theorem Hungarian.Bounds.solved {n : Nat} {cost : Fin n → Fin n → Int} {lo hi : Int}
    (hb : Bounds cost lo hi)
    : ∃ σ : Equiv.Perm (Fin n), hungarian cost = some σ ∧
        ∀ τ : Equiv.Perm (Fin n), ∑ i, cost i (σ i) ≤ ∑ i, cost i (τ i) := by
  rcases foldlM_nodup (J := Assigned cost lo hi) (List.nodup_finRange n) assigned_start
    (fun done r s hdone hr h => h.phase hb hdone hr) with ⟨s, hphases, hassigned⟩
  have hrow := hassigned.row_answer
  have hinj : Function.Injective (answer s.p) := by
    intro i i' heq
    apply Fin.succ_injective n
    rw [← hrow i, heq, hrow i']
  refine ⟨Equiv.ofBijective _ (Finite.injective_iff_bijective.mp hinj), ?_, ?_⟩
  . simp [hungarian, hphases]
  . apply sum_le_of_tight (u := fun i : Fin n => s.u i.succ) (v := fun j : Fin n => s.v j.succ)
    . intro i j
      have hfeasible := hassigned.prices.feasible _ (Fin.succ_ne_zero (answer s.p i))
      rw [hrow i] at hfeasible
      exact hfeasible (Fin.succ_ne_zero i) _ (Fin.succ_ne_zero j)
    . intro i
      have hpaid := (hassigned.prices.paid _ (Fin.succ_ne_zero (answer s.p i))).1
      rw [hrow i] at hpaid
      exact hpaid (Fin.succ_ne_zero i)

/-- The assignment is the cheapest one for costs between `lo` and `hi` that stay below the mark for
unknown prices. -/
theorem hungarian_optimal {n : Nat} (cost : Fin n → Fin n → Int) (lo hi : Int)
    (hle : ∀ i j, lo ≤ cost i j) (hge : ∀ i j, cost i j ≤ hi)
    (hspread : hi - lo < Hungarian.inf) (hreach : hi < Hungarian.inf)
    (hsum : n * max |lo| |hi| < 2 ^ 63)
    : ∃ σ : Equiv.Perm (Fin n), hungarian cost = some σ ∧
        ∀ τ : Equiv.Perm (Fin n), ∑ i, cost i (σ i) ≤ ∑ i, cost i (τ i) :=
  Hungarian.Bounds.solved ⟨hle, hge, hspread, hreach, hsum⟩

/-- Both rows want the second column, and the second one gives way. -/
theorem hungarian_optimal_two
    : let cost : Fin 2 → Fin 2 → Int := ![![4, 1], ![-7, -9]]
      hungarian cost = some ![1, 0] ∧
        ∃ σ : Equiv.Perm (Fin 2), hungarian cost = some σ ∧
          ∀ τ : Equiv.Perm (Fin 2), ∑ i, cost i (σ i) ≤ ∑ i, cost i (τ i) := by
  refine ⟨by decide +kernel, ?_⟩
  exact hungarian_optimal _ (-9) 4 (by decide) (by decide) (by decide) (by decide) (by decide)

/-- Costs as large as the mark for unknown prices. Nothing overflows, but the second row takes the
two columns to cost it the same, and the dearer assignment is returned. -/
theorem hungarian_inf
    : let cost : Fin 2 → Fin 2 → Int := ![![0, 0], ![Hungarian.inf, Hungarian.inf + 10]]
      ∃ ans, hungarian cost = some ans ∧
        ∃ τ : Equiv.Perm (Fin 2), ∑ i, cost i (τ i) < ∑ i, cost i (ans i) := by
  refine ⟨![0, 1], by decide +kernel, Equiv.swap 0 1, by decide +kernel⟩

end Morse
