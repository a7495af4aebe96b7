import RadioCat.Arith.Checked
import RadioCat.Arith.Loop
import RadioCat.Edit.Script
import RadioCat.Morse.Codec

/-!
This module contains the alignment of a copy with what was sent: a table of edit distances, the
steps that are traced back through it, and the units that insertions are charged to.
-/

namespace Morse

open Arith

inductive SpacePolicy where
  | score
  | ignore
  deriving DecidableEq, Repr

structure ScoreOptions where
  spaces : SpacePolicy
  foldEquivalents : Bool
  deriving DecidableEq, Repr

inductive AlignOp where
  | matched (expected : Token)
  | substitution (expected copied : Token)
  | deletion (expected : Token)
  | insertion (copied : Token) (attributedTo : Option Nat)
  deriving DecidableEq, Repr

structure Alignment where
  expected : List Token
  ops : List AlignOp
  deriving DecidableEq, Repr

structure Score where
  expected : Nat
  matched : Nat
  substitutions : Nat
  deletions : Nat
  insertions : Nat
  deriving DecidableEq, Repr

def prepare (units : List Token) (opts : ScoreOptions) : List Token :=
  (units.filter fun u => !(opts.spaces = .ignore && u = .wordSpace)).map fun u =>
    if opts.foldEquivalents then canonical u else u

/-! The cells of the table are words of 32 bits. A sum that does not fit one stops the program, and
so does an index before the start. -/

section table

variable (x y : List Token)

def mismatch (i j : Nat) : Nat :=
  if x[i]? = y[j]? then 0 else 1

def sweepCell (i : Nat) (d : List Nat) (j : Nat) : Option (List Nat) := do
  let w := y.length + 1
  let sub ← within 32 (cell d w (i - 1) (j - 1) + mismatch x y (i - 1) (j - 1))
  let del ← within 32 (cell d w (i - 1) j + 1)
  let ins ← within 32 (cell d w i (j - 1) + 1)
  return d.set (i * w + j) (min (min sub del) ins)

def sweepRow (d : List Nat) (i : Nat) : Option (List Nat) :=
  (List.range' 1 y.length).foldlM (sweepCell x y i) d

/-- The first column and then the first row count up. -/
def borders : List Nat :=
  let w := y.length + 1
  let d := List.replicate ((x.length + 1) * w) 0
  let d := (List.range' 0 (x.length + 1)).foldl (fun d i => d.set (i * w) (i % 2 ^ 32)) d
  (List.range' 0 (y.length + 1)).foldl (fun d j => d.set j (j % 2 ^ 32)) d

def distances : Option (List Nat) :=
  (List.range' 1 x.length).foldlM (sweepRow x y) (borders x y)

variable (d : List Nat)

def isDiagonal (i j : Nat) : Option Bool :=
  let w := y.length + 1
  if 0 < i ∧ 0 < j then do
    let before ← within 32 (cell d w (i - 1) (j - 1) + mismatch x y (i - 1) (j - 1))
    return cell d w i j = before
  else
    return false

def isDeletion (i j : Nat) : Option Bool :=
  let w := y.length + 1
  if 0 < i then do
    let before ← within 32 (cell d w (i - 1) j + 1)
    return cell d w i j = before
  else
    return false

/-- A turn of the trace: diagonal, then deletion, then insertion. -/
def turn (i j : Nat) : Option (AlignOp × Nat × Nat) := do
  if ← isDiagonal x y d i j then
    let expected ← x[i - 1]?
    let copied ← y[j - 1]?
    let op := if expected = copied then .matched expected else .substitution expected copied
    return (op, i - 1, j - 1)
  else if ← isDeletion y d i j then
    return (.deletion (← x[i - 1]?), i - 1, j)
  else if j = 0 then
    none
  else
    return (.insertion (← y[j - 1]?) none, i, j - 1)

/-- The steps in the order in which they are pushed, which is from the end. -/
def trace (fuel i j : Nat) : Option (List AlignOp) :=
  if i = 0 ∧ j = 0 then
    some []
  else
    match fuel with
    | 0 => none
    | fuel + 1 => do
      let (op, i, j) ← turn x y d i j
      return op :: (← trace fuel i j)

end table

section attribution

def AlignOp.isInsertion : AlignOp → Bool
  | .insertion .. => true
  | _ => false

def AlignOp.isSubstitution : AlignOp → Bool
  | .substitution .. => true
  | _ => false

/-- The expected index of each step that is not an insertion, and the last one before each step. -/
def indices (ops : List AlignOp) (k : Nat) : List (Option Nat × Option Nat) :=
  match ops with
  | [] => []
  | op :: ops =>
    let before := if k = 0 then none else some (k - 1)
    if op.isInsertion then
      (none, before) :: indices ops k
    else
      (some k, before) :: indices ops (k + 1)

variable (ops : List AlignOp)

def idxOf (p : Nat) : Option Nat :=
  ((indices ops 0)[p]?.map Prod.fst).join

def before (p : Nat) : Option Nat :=
  ((indices ops 0)[p]?.map Prod.snd).join

/-- A neighbouring substitution first, else the preceding unit, else the following one. -/
def target (p : Nat) : Option Nat :=
  let isSub := fun q => (ops[q]?.map AlignOp.isSubstitution).getD false
  let prev := (List.range p).reverse.find? fun q => (idxOf ops q).isSome
  let next := (List.range' (p + 1) (ops.length - (p + 1))).find? fun q => (idxOf ops q).isSome
  match prev, next with
  | some a, some b =>
    if isSub a then idxOf ops a else if isSub b then idxOf ops b else idxOf ops a
  | some a, none => idxOf ops a
  | none, some b => idxOf ops b
  | none, none => none

def attributeInsertions (n : Nat) : List AlignOp :=
  ops.mapIdx fun p op =>
    match op with
    | .insertion copied _ => .insertion copied (((target ops p).or (before ops p)).filter (· < n))
    | op => op

end attribution

def alignUnits (expected copied : List Token) (opts : ScoreOptions) : Option Alignment := do
  let x := prepare expected opts
  let y := prepare copied opts
  let d ← distances x y
  let ops ← trace x y d (x.length + y.length) x.length y.length
  return { expected := x, ops := attributeInsertions ops.reverse x.length }

def Alignment.score (a : Alignment) : Score where
  expected := a.expected.length
  matched := a.ops.countP fun op => op matches .matched _
  substitutions := a.ops.countP fun op => op matches .substitution _ _
  deletions := a.ops.countP fun op => op matches .deletion _
  insertions := a.ops.countP fun op => op matches .insertion _ _

/-- The steps as an edit script. -/
def AlignOp.toOp : AlignOp → Edit.Op Token
  | .matched expected => .keep expected
  | .substitution expected copied => .replace expected copied
  | .deletion expected => .delete expected
  | .insertion copied _ => .insert copied

/-! The table holds the distances of what comes before. -/

section table

variable {x y : List Token}

def dist (x y : List Token) (i j : Nat) : Nat :=
  Edit.distance (x.take i) (y.take j)

theorem dist_zero_left {j : Nat} (hj : j ≤ y.length) : dist x y 0 j = j := by
  simp [dist, hj]

theorem dist_zero_right {i : Nat} (hi : i ≤ x.length) : dist x y i 0 = i := by
  simp [dist, hi]

theorem dist_le (i j : Nat) : dist x y i j ≤ i + j := by
  have hle := Edit.distance_le_add (x.take i) (y.take j)
  have hi := List.length_take_le i x
  have hj := List.length_take_le j y
  rw [dist]
  omega

theorem weight_pair_getElem {i j : Nat} (hi : i < x.length) (hj : j < y.length)
    : (Edit.pair x[i] y[j]).weight = mismatch x y i j := by
  rw [Edit.weight_pair, mismatch]
  simp [hi, hj]

theorem dist_succ {i j : Nat} (hi : i < x.length) (hj : j < y.length)
    : dist x y (i + 1) (j + 1) =
        min (min (dist x y i j + mismatch x y i j) (dist x y i (j + 1) + 1))
          (dist x y (i + 1) j + 1) := by
  have hconcat := Edit.distance_concat (x.take i) x[i] (y.take j) y[j]
  rw [List.take_append_getElem hi, List.take_append_getElem hj, weight_pair_getElem hi hj]
    at hconcat
  exact hconcat

/-- The rows up to `k` are filled, and the first column is. -/
structure Rows (x y : List Token) (k : Nat) (d : List Nat) : Prop where
  length : d.length = (x.length + 1) * (y.length + 1)
  filled : ∀ i ≤ k, ∀ j ≤ y.length, cell d (y.length + 1) i j = dist x y i j
  column : ∀ i ≤ x.length, cell d (y.length + 1) i 0 = i

/-- The rows before `i` are filled, and row `i` up to column `k`. -/
structure Cells (x y : List Token) (i k : Nat) (d : List Nat) : Prop where
  length : d.length = (x.length + 1) * (y.length + 1)
  above : ∀ i' < i, ∀ j ≤ y.length, cell d (y.length + 1) i' j = dist x y i' j
  filled : ∀ j ≤ k, cell d (y.length + 1) i j = dist x y i j
  column : ∀ i ≤ x.length, cell d (y.length + 1) i 0 = i

theorem mismatch_le (i j : Nat) : mismatch x y i j ≤ 1 := by
  unfold mismatch
  split <;> omega

theorem sweepCell_eq {i k : Nat} {d : List Nat} (h : Cells x y (i + 1) k d) (hi : i < x.length)
    (hk : k < y.length) (hsize : x.length + y.length < 2 ^ 32)
    : sweepCell x y (i + 1) d (1 + k) =
        some (d.set ((i + 1) * (y.length + 1) + (k + 1)) (dist x y (i + 1) (k + 1))) := by
  have hsub := dist_le (x := x) (y := y) i k
  have hdel := dist_le (x := x) (y := y) i (k + 1)
  have hins := dist_le (x := x) (y := y) (i + 1) k
  have hmismatch := mismatch_le (x := x) (y := y) i k
  rw [sweepCell, Nat.add_comm 1 k]
  simp only [Nat.add_sub_cancel]
  rw [h.above i (by omega) k (by omega), h.above i (by omega) (k + 1) (by omega),
    h.filled k (by omega), within_of_lt (by omega), within_of_lt (by omega),
    within_of_lt (by omega), dist_succ hi hk]
  rfl

theorem Cells.step {i k : Nat} {d : List Nat} (h : Cells x y (i + 1) k d) (hi : i < x.length)
    (hk : k < y.length)
    : Cells x y (i + 1) (k + 1)
        (d.set ((i + 1) * (y.length + 1) + (k + 1)) (dist x y (i + 1) (k + 1))) := by
  have hset : ∀ i' j, j < y.length + 1 →
      cell (d.set ((i + 1) * (y.length + 1) + (k + 1)) (dist x y (i + 1) (k + 1)))
          (y.length + 1) i' j =
        if i + 1 = i' ∧ k + 1 = j then dist x y (i + 1) (k + 1)
        else cell d (y.length + 1) i' j := by
    intro i' j hj
    exact cell_set h.length (Nat.succ_lt_succ hi) (Nat.succ_lt_succ hk) hj
  constructor
  . rw [List.length_set]
    exact h.length
  . intro i' hi' j hj
    rw [hset i' j (by omega), if_neg (by omega)]
    exact h.above i' hi' j hj
  . intro j hj
    rw [hset (i + 1) j (by omega)]
    split
    next heq => rw [← heq.2]
    next hne => exact h.filled j (by omega)
  . intro i' hi'
    rw [hset i' 0 (by omega), if_neg (by omega)]
    exact h.column i' hi'

theorem sweepRow_rows {k : Nat} {d : List Nat} (h : Rows x y k d) (hk : k < x.length)
    (hsize : x.length + y.length < 2 ^ 32)
    : ∃ d', sweepRow x y d (1 + k) = some d' ∧ Rows x y (k + 1) d' := by
  have hstart : Cells x y (k + 1) 0 d := by
    refine ⟨h.length, fun i hi => h.filled i (by omega), ?_, h.column⟩
    intro j hj
    rw [Nat.le_zero.mp hj, dist_zero_right (by omega)]
    exact h.column (k + 1) (by omega)
  rw [Nat.add_comm 1 k]
  rcases foldlM_range' (I := Cells x y (k + 1)) 1 y.length hstart
    (fun j d hj hcells => ⟨_, sweepCell_eq hcells hk hj hsize, hcells.step hk hj⟩) with
    ⟨d', hd', hcells⟩
  refine ⟨d', hd', hcells.length, ?_, hcells.column⟩
  intro i hi j hj
  rcases Nat.lt_or_eq_of_le hi with hlt | rfl
  . exact hcells.above i hlt j hj
  . exact hcells.filled j hj

theorem cell_borders
    : (borders x y).length = (x.length + 1) * (y.length + 1) ∧
      (∀ j ≤ y.length, cell (borders x y) (y.length + 1) 0 j = j % 2 ^ 32) ∧
      ∀ i ≤ x.length, cell (borders x y) (y.length + 1) i 0 = i % 2 ^ 32 := by
  have hcolumn := cell_foldl_set (a := fun i => i % 2 ^ 32) (n := x.length + 1)
    (d := List.replicate ((x.length + 1) * (y.length + 1)) 0) List.length_replicate
    (fun i hi => hi) (fun i _ => Nat.succ_pos y.length) (fun i i' h _ => h)
  have hrow := cell_foldl_set (a := fun j => j % 2 ^ 32) (n := y.length + 1) hcolumn.1
    (fun j _ => Nat.succ_pos x.length) (fun j hj => hj) (fun j j' _ h => h)
  simp only [Nat.zero_mul, Nat.zero_add, Nat.add_zero] at hcolumn hrow
  rcases hrow with ⟨hlength, hset, hkept⟩
  refine ⟨hlength, fun j hj => hset j (Nat.lt_succ_of_le hj), ?_⟩
  intro i hi
  cases i with
  | zero => exact hset 0 (Nat.succ_pos _)
  | succ i =>
    rw [borders, hkept (i + 1) 0 (Nat.succ_pos _) (by simp)]
    exact hcolumn.2.1 (i + 1) (by omega)

theorem borders_rows (hsize : x.length + y.length < 2 ^ 32) : Rows x y 0 (borders x y) := by
  rcases cell_borders (x := x) (y := y) with ⟨hlength, hrow, hcolumn⟩
  refine ⟨hlength, ?_, ?_⟩
  . intro i hi j hj
    rw [Nat.le_zero.mp hi, dist_zero_left hj, hrow j hj]
    exact Nat.mod_eq_of_lt (by omega)
  . intro i hi
    rw [hcolumn i hi]
    exact Nat.mod_eq_of_lt (by omega)

theorem distances_rows (hsize : x.length + y.length < 2 ^ 32)
    : ∃ d, distances x y = some d ∧ Rows x y x.length d := by
  exact foldlM_range' 1 x.length (borders_rows hsize)
    fun k d hk hrows => sweepRow_rows hrows hk hsize

section trace

variable {d : List Nat}

theorem isDiagonal_succ {i j : Nat} (h : Rows x y x.length d)
    (hsize : x.length + y.length < 2 ^ 32) (hi : i < x.length) (hj : j < y.length)
    : isDiagonal x y d (i + 1) (j + 1) =
        some (decide (dist x y (i + 1) (j + 1) = dist x y i j + mismatch x y i j)) := by
  have hle := dist_le (x := x) (y := y) i j
  have hmismatch := mismatch_le (x := x) (y := y) i j
  rw [isDiagonal, if_pos ⟨Nat.succ_pos i, Nat.succ_pos j⟩]
  simp only [Nat.add_sub_cancel]
  rw [h.filled i (by omega) j (by omega), h.filled (i + 1) (by omega) (j + 1) (by omega),
    within_of_lt (by omega)]
  rfl

theorem isDeletion_succ {i j : Nat} (h : Rows x y x.length d)
    (hsize : x.length + y.length < 2 ^ 32) (hi : i < x.length) (hj : j ≤ y.length)
    : isDeletion y d (i + 1) j = some (decide (dist x y (i + 1) j = dist x y i j + 1)) := by
  have hle := dist_le (x := x) (y := y) i j
  rw [isDeletion, if_pos (Nat.succ_pos i)]
  simp only [Nat.add_sub_cancel]
  rw [h.filled i (by omega) j hj, h.filled (i + 1) (by omega) j hj, within_of_lt (by omega)]
  rfl

/-- A turn of the trace takes the last units that it spells, and pays for them what they cost. -/
structure Turns (x y : List Token) (i j : Nat) (op : AlignOp) (i' j' : Nat) : Prop where
  row : i' ≤ i
  column : j' ≤ j
  shorter : i' + j' < i + j
  source : x.take i = x.take i' ++ op.toOp.source
  target : y.take j = y.take j' ++ op.toOp.target
  cost : dist x y i j = dist x y i' j' + op.toOp.weight

theorem Turns.diagonal {i j : Nat} (hi : i < x.length) (hj : j < y.length)
    (hcost : dist x y (i + 1) (j + 1) = dist x y i j + mismatch x y i j)
    : Turns x y (i + 1) (j + 1)
        (if x[i] = y[j] then .matched x[i] else .substitution x[i] y[j]) i j := by
  have hpair : AlignOp.toOp (if x[i] = y[j] then .matched x[i] else .substitution x[i] y[j]) =
      Edit.pair x[i] y[j] := by
    unfold Edit.pair
    split <;> rfl
  refine ⟨by omega, by omega, by omega, ?_, ?_, ?_⟩
  . rw [hpair, Edit.source_pair, List.take_append_getElem hi]
  . rw [hpair, Edit.target_pair, List.take_append_getElem hj]
  . rw [hpair, weight_pair_getElem hi hj, hcost]

theorem Turns.deletion {i j : Nat} (hi : i < x.length)
    (hcost : dist x y (i + 1) j = dist x y i j + 1)
    : Turns x y (i + 1) j (.deletion x[i]) i j := by
  refine ⟨by omega, by omega, by omega, ?_, ?_, hcost⟩
  . exact (List.take_append_getElem hi).symm
  . exact (List.append_nil _).symm

theorem Turns.insertion {i j : Nat} (hj : j < y.length)
    (hcost : dist x y i (j + 1) = dist x y i j + 1)
    : Turns x y i (j + 1) (.insertion y[j] none) i j := by
  refine ⟨by omega, by omega, by omega, ?_, ?_, hcost⟩
  . exact (List.append_nil _).symm
  . exact (List.take_append_getElem hj).symm

theorem turn_turns {i j : Nat} (h : Rows x y x.length d) (hsize : x.length + y.length < 2 ^ 32)
    (hi : i ≤ x.length) (hj : j ≤ y.length) (hpos : 0 < i + j)
    : ∃ op i' j', turn x y d i j = some (op, i', j') ∧ Turns x y i j op i' j' := by
  cases i with
  | zero =>
    cases j with
    | zero => cases hpos
    | succ j =>
      refine ⟨_, _, _, ?_, Turns.insertion hj ?_⟩
      . simp [turn, isDiagonal, isDeletion, List.getElem?_eq_getElem hj]
      . rw [dist_zero_left hj, dist_zero_left (by omega)]
  | succ i =>
    cases j with
    | zero =>
      have hdeletion := isDeletion_succ h hsize hi hj
      have hcost : dist x y (i + 1) 0 = dist x y i 0 + 1 := by
        rw [dist_zero_right hi, dist_zero_right (by omega)]
      refine ⟨_, _, _, ?_, Turns.deletion hi hcost⟩
      rw [hcost, decide_eq_true rfl] at hdeletion
      simp [turn, isDiagonal, hdeletion, List.getElem?_eq_getElem hi]
    | succ j =>
      have hdiagonal := isDiagonal_succ h hsize hi hj
      have hdeletion := isDeletion_succ h hsize hi hj
      have hmin := dist_succ hi hj
      by_cases hcost : dist x y (i + 1) (j + 1) = dist x y i j + mismatch x y i j
      . refine ⟨_, _, _, ?_, Turns.diagonal hi hj hcost⟩
        rw [decide_eq_true hcost] at hdiagonal
        simp [turn, hdiagonal, List.getElem?_eq_getElem hi, List.getElem?_eq_getElem hj]
      . rw [decide_eq_false hcost] at hdiagonal
        by_cases hcost' : dist x y (i + 1) (j + 1) = dist x y i (j + 1) + 1
        . refine ⟨_, _, _, ?_, Turns.deletion hi hcost'⟩
          rw [decide_eq_true hcost'] at hdeletion
          simp [turn, hdiagonal, hdeletion, List.getElem?_eq_getElem hi]
        . refine ⟨_, _, _, ?_, Turns.insertion hj (by omega)⟩
          rw [decide_eq_false hcost'] at hdeletion
          simp [turn, hdiagonal, hdeletion, List.getElem?_eq_getElem hj]

theorem trace_start {fuel i j : Nat} (hzero : i = 0 ∧ j = 0)
    : trace x y d fuel i j = some [] ∧ Edit.Spells [] (x.take i) (y.take j) ∧
        0 = dist x y i j := by
  refine ⟨?_, ?_, ?_⟩
  . unfold trace
    rw [if_pos hzero]
  . rw [hzero.1, hzero.2]
    exact Edit.Spells.nil
  . rw [hzero.1, hzero.2, dist_zero_left (Nat.zero_le _)]

theorem trace_spells (h : Rows x y x.length d) (hsize : x.length + y.length < 2 ^ 32)
    {fuel i j : Nat} (hi : i ≤ x.length) (hj : j ≤ y.length) (hfuel : i + j ≤ fuel)
    : ∃ ops, trace x y d fuel i j = some ops ∧
        Edit.Spells (ops.reverse.map AlignOp.toOp) (x.take i) (y.take j) ∧
        Edit.weight (ops.reverse.map AlignOp.toOp) = dist x y i j := by
  induction fuel generalizing i j with
  | zero => exact ⟨[], trace_start (by omega)⟩
  | succ fuel ih =>
    by_cases hzero : i = 0 ∧ j = 0
    . exact ⟨[], trace_start hzero⟩
    . rcases turn_turns h hsize hi hj (by omega) with ⟨op, i', j', hturn, hturns⟩
      have hrow := hturns.row
      have hcolumn := hturns.column
      have hshorter := hturns.shorter
      rcases ih (i := i') (j := j') (by omega) (by omega) (by omega) with
        ⟨ops, hops, hspells, hweight⟩
      refine ⟨op :: ops, ?_, ?_, ?_⟩
      . rw [trace, if_neg hzero]
        simp [hturn, hops]
      . rw [List.reverse_cons, List.map_append, hturns.source, hturns.target]
        exact hspells.concat op.toOp
      . rw [List.reverse_cons, List.map_append, Edit.weight_append, hweight, hturns.cost]
        simp

end trace

end table

section attribution

variable {ops : List AlignOp}

def AlignOp.isExpected (op : AlignOp) : Bool :=
  !op.isInsertion

theorem map_fst_indices (ops : List AlignOp) (k p : Nat)
    : (indices ops k)[p]?.map Prod.fst =
        ops[p]?.map fun op =>
          if op.isExpected then some (k + (ops.take p).countP AlignOp.isExpected) else none := by
  induction ops generalizing k p with
  | nil => rfl
  | cons op ops ih =>
    cases hop : op.isInsertion with
    | true =>
      cases p with
      | zero => simp [indices, AlignOp.isExpected, hop]
      | succ p =>
        rw [indices, if_pos hop, List.getElem?_cons_succ, ih]
        simp [AlignOp.isExpected, hop]
    | false =>
      cases p with
      | zero => simp [indices, AlignOp.isExpected, hop]
      | succ p =>
        rw [indices, if_neg (by simp [hop]), List.getElem?_cons_succ, ih]
        simp [AlignOp.isExpected, hop, Nat.add_comm, Nat.add_left_comm]

theorem idxOf_eq {p : Nat} (hp : p < ops.length)
    : idxOf ops p =
        if ops[p].isExpected then some ((ops.take p).countP AlignOp.isExpected) else none := by
  rw [idxOf, map_fst_indices, List.getElem?_eq_getElem hp]
  simp

theorem idxOf_lt {p t : Nat} (hp : p < ops.length) (h : idxOf ops p = some t)
    : t < ops.countP AlignOp.isExpected := by
  rw [idxOf_eq hp] at h
  split at h
  next hexpected =>
    cases h
    have hle := (List.take_sublist (p + 1) ops).countP_le (p := AlignOp.isExpected)
    rw [← List.take_append_getElem hp, List.countP_append, List.countP_singleton,
      if_pos hexpected] at hle
    omega
  next => cases h

theorem target_eq {p q : Nat} (hq : q < ops.length) (hne : q ≠ p) (hsome : (idxOf ops q).isSome)
    : ∃ a t, a < ops.length ∧ idxOf ops a = some t ∧ target ops p = some t := by
  have hfound : ∀ {l : List Nat} {a : Nat}, l.find? (fun q => (idxOf ops q).isSome) = some a →
      ∃ t, idxOf ops a = some t := by
    intro l a ha
    have hsome := List.find?_some ha
    exact Option.isSome_iff_exists.mp hsome
  have hlt : ∀ {a t : Nat}, idxOf ops a = some t → a < ops.length := by
    intro a t ha
    by_contra hge
    rw [idxOf, map_fst_indices, List.getElem?_eq_none (by omega)] at ha
    cases ha
  have hgiven : ∃ a t, idxOf ops a = some t ∧ target ops p = some t := by
    unfold target
    dsimp only
    cases hprev : (List.range p).reverse.find? fun q => (idxOf ops q).isSome with
    | some a =>
      rcases hfound hprev with ⟨t, ht⟩
      cases hnext : (List.range' (p + 1) (ops.length - (p + 1))).find?
        fun q => (idxOf ops q).isSome with
      | none => exact ⟨a, t, ht, ht⟩
      | some b =>
        rcases hfound hnext with ⟨t', ht'⟩
        dsimp only
        split
        next => exact ⟨a, t, ht, ht⟩
        next =>
          split
          next => exact ⟨b, t', ht', ht'⟩
          next => exact ⟨a, t, ht, ht⟩
    | none =>
      cases hnext : (List.range' (p + 1) (ops.length - (p + 1))).find?
        fun q => (idxOf ops q).isSome with
      | some b =>
        rcases hfound hnext with ⟨t, ht⟩
        exact ⟨b, t, ht, ht⟩
      | none =>
        exfalso
        rw [List.find?_eq_none] at hprev hnext
        rcases Nat.lt_or_gt_of_ne hne with hbefore | hafter
        . exact hprev q (by simpa using hbefore) hsome
        . exact hnext q (by rw [List.mem_range'_1]; omega) hsome
  rcases hgiven with ⟨a, t, ha, htarget⟩
  exact ⟨a, t, hlt ha, ha, htarget⟩

theorem attributed_iff {n : Nat} (hn : ops.countP AlignOp.isExpected = n) {copied : Token}
    {attributedTo : Option Nat}
    (h : .insertion copied attributedTo ∈ attributeInsertions ops n)
    : (∃ k < n, attributedTo = some k) ↔ 0 < n := by
  constructor
  . rintro ⟨k, hk, -⟩
    omega
  . intro hpos
    rw [attributeInsertions, List.mem_mapIdx] at h
    rcases h with ⟨p, hp, heq⟩
    rw [← hn, List.countP_pos_iff] at hpos
    rcases hpos with ⟨op, hop, hexpected⟩
    rcases List.getElem_of_mem hop with ⟨q, hq, rfl⟩
    have hinsertion : ops[p].isExpected = false := by
      cases hp' : ops[p] <;> simp_all [AlignOp.isExpected, AlignOp.isInsertion]
    have hne : q ≠ p := by
      rintro rfl
      rw [hinsertion] at hexpected
      cases hexpected
    have hsome : (idxOf ops q).isSome := by
      rw [idxOf_eq hq, if_pos hexpected]
      rfl
    rcases target_eq hq hne hsome with ⟨a, t, ha, hidx, htarget⟩
    have ht := idxOf_lt ha hidx
    rw [hn] at ht
    refine ⟨t, ht, ?_⟩
    cases hp' : ops[p] with
    | insertion copied' attributedTo' =>
      simp only [hp', htarget, AlignOp.insertion.injEq] at heq
      rw [← heq.2]
      simp [ht]
    | _ => simp [hp'] at heq

theorem map_toOp_attributeInsertions (ops : List AlignOp) (n : Nat)
    : (attributeInsertions ops n).map AlignOp.toOp = ops.map AlignOp.toOp := by
  apply List.ext_getElem
  . simp [attributeInsertions]
  . intro p hp hp'
    simp only [attributeInsertions, List.getElem_map, List.getElem_mapIdx]
    split <;> simp_all [AlignOp.toOp]

theorem length_source (ops : List AlignOp)
    : ((ops.map AlignOp.toOp).flatMap Edit.Op.source).length =
        ops.countP AlignOp.isExpected := by
  induction ops with
  | nil => rfl
  | cons op ops ih =>
    cases op <;>
      simp [ih, AlignOp.toOp, Edit.Op.source, AlignOp.isExpected, AlignOp.isInsertion]

end attribution

def Score.errors (s : Score) : Nat :=
  s.substitutions + s.deletions + s.insertions

theorem errors_score (a : Alignment)
    : a.score.errors = Edit.weight (a.ops.map AlignOp.toOp) := by
  rw [Score.errors, Alignment.score]
  dsimp only
  induction a.ops with
  | nil => rfl
  | cons op ops ih =>
    cases op <;> simp [AlignOp.toOp, Edit.Op.weight, ← ih] <;> omega

theorem length_prepare_le (units : List Token) (opts : ScoreOptions)
    : (prepare units opts).length ≤ units.length := by
  rw [prepare, List.length_map]
  exact List.length_filter_le _ _

theorem prepare_prepare (units : List Token) (opts : ScoreOptions)
    : prepare (prepare units opts) opts = prepare units opts := by
  have hkept : ∀ u ∈ prepare units opts, (opts.spaces = .ignore && u = .wordSpace) = false := by
    intro u hu
    rcases List.mem_map.mp hu with ⟨t, ht, rfl⟩
    have hfilter := (List.mem_filter.mp ht).2
    cases opts.foldEquivalents <;> simpa [canonical_eq_wordSpace, imp_iff_not_or] using hfilter
  have hsame : ∀ u ∈ prepare units opts, (if opts.foldEquivalents then canonical u else u) = u := by
    intro u hu
    rcases List.mem_map.mp hu with ⟨t, -, rfl⟩
    cases opts.foldEquivalents <;> simp [canonical_canonical]
  generalize prepare units opts = l at *
  rw [prepare, List.filter_eq_self.mpr fun u hu => by rw [hkept u hu]; rfl]
  conv_rhs => rw [← List.map_id l]
  exact List.map_congr_left hsame

/-- What an alignment of `y` with `x` is to be. -/
structure Aligns (a : Alignment) (x y : List Token) : Prop where
  expected : a.expected = x
  spells : Edit.Spells (a.ops.map AlignOp.toOp) x y
  errors : a.score.errors = Edit.distance x y
  attributed : ∀ copied attributedTo, .insertion copied attributedTo ∈ a.ops →
    ((∃ k < x.length, attributedTo = some k) ↔ x ≠ [])

theorem alignUnits_aligns {expected copied : List Token} (opts : ScoreOptions)
    (hsize : expected.length + copied.length < 2 ^ 32)
    : ∃ a, alignUnits expected copied opts = some a ∧
        Aligns a (prepare expected opts) (prepare copied opts) := by
  have he := length_prepare_le expected opts
  have hc := length_prepare_le copied opts
  rw [alignUnits]
  generalize prepare expected opts = x at *
  generalize prepare copied opts = y at *
  rcases distances_rows (x := x) (y := y) (by omega) with ⟨d, hd, hrows⟩
  rcases trace_spells hrows (by omega) (Nat.le_refl x.length) (Nat.le_refl y.length)
    (Nat.le_refl _) with ⟨ops, hops, hspells, hweight⟩
  rw [List.take_length, List.take_length] at hspells
  refine ⟨{ expected := x, ops := attributeInsertions ops.reverse x.length }, ?_, rfl, ?_, ?_, ?_⟩
  . simp [hd, hops]
  . rw [map_toOp_attributeInsertions]
    exact hspells
  . rw [errors_score, map_toOp_attributeInsertions, hweight, dist, List.take_length,
      List.take_length]
  . intro copied attributedTo hmem
    have hcount := length_source ops.reverse
    rw [hspells.source] at hcount
    rw [attributed_iff hcount.symm hmem, List.length_pos_iff]

/-- The first column of the table counts modulo the word, and the trace adds one to the largest
number of a word. -/
theorem alignUnits_of_length {expected : List Token} {opts : ScoreOptions} {k : Nat}
    (hk : k + 1 = 2 ^ 32) (hlength : (prepare expected opts).length = k + 1)
    : alignUnits expected [] opts = none := by
  have hnil : prepare [] opts = [] := rfl
  rw [alignUnits, hnil]
  generalize prepare expected opts = x at *
  have hdistances : distances x [] = some (borders x []) := by
    rcases foldlM_range' (I := fun _ d => d = borders x []) (f := sweepRow x []) 1 x.length rfl
      (fun k d _ hd => ⟨d, rfl, hd⟩) with ⟨d, hd, rfl⟩
    exact hd
  have hcell := (cell_borders (x := x) (y := [])).2.2 k (by omega)
  have hdeletion : isDeletion [] (borders x []) (k + 1) 0 = none := by
    rw [isDeletion, if_pos (Nat.succ_pos k), Nat.add_sub_cancel, hcell,
      within_of_le (by rw [Nat.mod_eq_of_lt (by omega), hk])]
    rfl
  have hdiagonal : isDiagonal x [] (borders x []) (k + 1) 0 = some false := by
    rw [isDiagonal, if_neg (by simp)]
    rfl
  have hturn : turn x [] (borders x []) (k + 1) 0 = none := by
    simp [turn, hdiagonal, hdeletion]
  have htrace : trace x [] (borders x []) (k + 1) (k + 1) 0 = none := by
    rw [trace, if_neg (by simp), hturn]
    rfl
  simp [hdistances, hlength, htrace]

/-- The steps of an alignment spell both texts with as few changes as any script, and an insertion
is charged to a unit that was sent, if there is one. -/
theorem alignUnits_optimal (expected copied : List Token) (opts : ScoreOptions)
    (hsize : expected.length + copied.length < 2 ^ 32)
    : ∃ a, alignUnits expected copied opts = some a ∧ a.expected = prepare expected opts ∧
        Edit.Spells (a.ops.map AlignOp.toOp) (prepare expected opts) (prepare copied opts) ∧
        (∀ script, Edit.Spells script (prepare expected opts) (prepare copied opts) →
          a.score.errors ≤ Edit.weight script) ∧
        ∀ copied attributedTo, .insertion copied attributedTo ∈ a.ops →
          ((∃ k < a.expected.length, attributedTo = some k) ↔ a.expected ≠ []) := by
  rcases alignUnits_aligns opts hsize with ⟨a, ha, haligns⟩
  refine ⟨a, ha, haligns.expected, haligns.spells, ?_, ?_⟩
  . intro script hscript
    rw [haligns.errors]
    exact Edit.distance_le hscript
  . rw [haligns.expected]
    exact haligns.attributed

/-- `N` copied as `ET` is one mistake about `N`. -/
theorem alignUnits_optimal_split
    : let opts : ScoreOptions := ⟨.score, true⟩
      let expected : List Token := [.char 'A', .char 'N']
      let copied : List Token := [.char 'a', .char 'E', .char 'T']
      alignUnits expected copied opts =
          some ⟨expected, [.matched (.char 'A'), .insertion (.char 'E') (some 1),
            .substitution (.char 'N') (.char 'T')]⟩ ∧
        ∃ a, alignUnits expected copied opts = some a ∧ a.expected = prepare expected opts ∧
          Edit.Spells (a.ops.map AlignOp.toOp) (prepare expected opts) (prepare copied opts) ∧
          (∀ script, Edit.Spells script (prepare expected opts) (prepare copied opts) →
            a.score.errors ≤ Edit.weight script) ∧
          ∀ copied attributedTo, .insertion copied attributedTo ∈ a.ops →
            ((∃ k < a.expected.length, attributedTo = some k) ↔ a.expected ≠ []) := by
  refine ⟨by decide +kernel, ?_⟩
  exact alignUnits_optimal _ _ _ (by decide)

end Morse
