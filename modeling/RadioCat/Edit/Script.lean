import Mathlib.Algebra.BigOperators.Group.List.Basic
import Mathlib.Algebra.Ring.Nat

/-!
This module contains edit scripts, which turn one list into another item by item, and the edit
distance, which is the least number of changes that such a script makes.
-/

universe u

namespace Edit

variable {α : Type u}

inductive Op (α : Type u) where
  | keep (a : α)
  | replace (a b : α)
  | delete (a : α)
  | insert (b : α)
  deriving DecidableEq, Repr

namespace Op

def source : Op α → List α
  | .keep a | .replace a _ | .delete a => [a]
  | .insert _ => []

def target : Op α → List α
  | .keep a => [a]
  | .replace _ b | .insert b => [b]
  | .delete _ => []

def weight : Op α → Nat
  | .keep _ => 0
  | _ => 1

end Op

def weight (ops : List (Op α)) : Nat :=
  (ops.map Op.weight).sum

structure Spells (ops : List (Op α)) (xs ys : List α) : Prop where
  source : ops.flatMap Op.source = xs
  target : ops.flatMap Op.target = ys

@[simp]
theorem weight_nil : weight ([] : List (Op α)) = 0 := rfl

@[simp]
theorem weight_cons (op : Op α) (ops : List (Op α))
    : weight (op :: ops) = op.weight + weight ops := by
  simp [weight]

@[simp]
theorem weight_append (ops ops' : List (Op α))
    : weight (ops ++ ops') = weight ops + weight ops' := by
  simp [weight]

theorem Spells.nil : Spells ([] : List (Op α)) [] [] := ⟨rfl, rfl⟩

section

variable {ops ops' : List (Op α)} {xs xs' ys ys' : List α}

theorem Spells.append (h : Spells ops xs ys) (h' : Spells ops' xs' ys')
    : Spells (ops ++ ops') (xs ++ xs') (ys ++ ys') := by
  constructor
  . rw [List.flatMap_append, h.source, h'.source]
  . rw [List.flatMap_append, h.target, h'.target]

theorem Spells.single (op : Op α) : Spells [op] op.source op.target := by
  constructor
  . simp
  . simp

theorem Spells.concat (h : Spells ops xs ys) (op : Op α)
    : Spells (ops ++ [op]) (xs ++ op.source) (ys ++ op.target) := by
  exact h.append (Spells.single op)

end

theorem spells_inserts (ys : List α) : Spells (ys.map .insert) [] ys := by
  induction ys with
  | nil => exact Spells.nil
  | cons y ys ih => exact (Spells.single (.insert y)).append ih

theorem spells_deletes (xs : List α) : Spells (xs.map .delete) xs [] := by
  induction xs with
  | nil => exact Spells.nil
  | cons x xs ih => exact (Spells.single (.delete x)).append ih

theorem weight_map_one {f : α → Op α} (h : ∀ a, (f a).weight = 1) (l : List α)
    : weight (l.map f) = l.length := by
  induction l with
  | nil => rfl
  | cons a l ih =>
    rw [List.map_cons, weight_cons, h, ih, List.length_cons, Nat.add_comm]

variable [DecidableEq α]

/-- The change that pairing two items costs. -/
def pair (x y : α) : Op α :=
  if x = y then .keep x else .replace x y

@[simp]
theorem source_pair (x y : α) : (pair x y).source = [x] := by
  unfold pair
  split <;> rfl

@[simp]
theorem target_pair (x y : α) : (pair x y).target = [y] := by
  unfold pair
  split
  next h => rw [h]; rfl
  next => rfl

theorem weight_pair (x y : α) : (pair x y).weight = if x = y then 0 else 1 := by
  unfold pair
  split <;> rfl

def distance : List α → List α → Nat
  | [], ys => ys.length
  | _ :: xs, [] => xs.length + 1
  | x :: xs, y :: ys =>
    min (min (distance xs ys + (pair x y).weight) (distance xs (y :: ys) + 1))
      (distance (x :: xs) ys + 1)

@[simp]
theorem distance_nil_left (ys : List α) : distance [] ys = ys.length := by
  rw [distance]

@[simp]
theorem distance_nil_right (xs : List α) : distance xs [] = xs.length := by
  cases xs with
  | nil => exact distance_nil_left []
  | cons x xs => rw [distance, List.length_cons]

theorem distance_cons_left (x : α) (xs ys : List α)
    : distance (x :: xs) ys ≤ distance xs ys + 1 := by
  cases ys with
  | nil => simp
  | cons y ys =>
    rw [distance]
    omega

theorem distance_cons_right (xs : List α) (y : α) (ys : List α)
    : distance xs (y :: ys) ≤ distance xs ys + 1 := by
  cases xs with
  | nil => simp
  | cons x xs =>
    rw [distance]
    omega

theorem distance_cons_cons (x : α) (xs : List α) (y : α) (ys : List α)
    : distance (x :: xs) (y :: ys) ≤ distance xs ys + (pair x y).weight := by
  rw [distance]
  omega

theorem distance_le {ops : List (Op α)} {xs ys : List α} (h : Spells ops xs ys)
    : distance xs ys ≤ weight ops := by
  induction ops generalizing xs ys with
  | nil =>
    rw [← h.source, ← h.target]
    simp
  | cons op ops ih =>
    have hrest := ih ⟨rfl, rfl⟩
    rw [← h.source, ← h.target, List.flatMap_cons, List.flatMap_cons, weight_cons]
    generalize ops.flatMap Op.source = xs at *
    generalize ops.flatMap Op.target = ys at *
    cases op with
    | keep a =>
      have hle := distance_cons_cons a xs a ys
      rw [weight_pair, if_pos rfl] at hle
      change distance (a :: xs) (a :: ys) ≤ 0 + weight ops
      omega
    | replace a b =>
      have hle := distance_cons_cons a xs b ys
      rw [weight_pair] at hle
      change distance (a :: xs) (b :: ys) ≤ 1 + weight ops
      split at hle <;> omega
    | delete a =>
      have hle := distance_cons_left a xs ys
      change distance (a :: xs) ys ≤ 1 + weight ops
      omega
    | insert b =>
      have hle := distance_cons_right xs b ys
      change distance xs (b :: ys) ≤ 1 + weight ops
      omega

theorem exists_spells (xs ys : List α)
    : ∃ ops, Spells ops xs ys ∧ weight ops = distance xs ys := by
  fun_induction distance xs ys
  case case1 ys => exact ⟨ys.map .insert, spells_inserts ys, weight_map_one (fun _ => rfl) ys⟩
  case case2 x xs =>
    exact ⟨(x :: xs).map .delete, spells_deletes _, weight_map_one (fun _ => rfl) (x :: xs)⟩
  case case3 x xs y ys ih₁ ih₂ ih₃ =>
    rcases ih₁ with ⟨both, hboth, hweight₁⟩
    rcases ih₂ with ⟨left, hleft, hweight₂⟩
    rcases ih₃ with ⟨right, hright, hweight₃⟩
    have hcases : ∀ a b c : Nat,
        min (min a b) c = a ∨ min (min a b) c = b ∨ min (min a b) c = c := by
      omega
    rcases hcases (distance xs ys + (pair x y).weight) (distance xs (y :: ys) + 1)
      (distance (x :: xs) ys + 1) with heq | heq | heq
    . refine ⟨pair x y :: both, ?_, ?_⟩
      . have h := (Spells.single (pair x y)).append hboth
        rwa [source_pair, target_pair] at h
      . rw [weight_cons, hweight₁, heq, Nat.add_comm]
    . refine ⟨.delete x :: left, (Spells.single (.delete x)).append hleft, ?_⟩
      rw [weight_cons, hweight₂, heq, Nat.add_comm]
      rfl
    . refine ⟨.insert y :: right, (Spells.single (.insert y)).append hright, ?_⟩
      rw [weight_cons, hweight₃, heq, Nat.add_comm]
      rfl

theorem distance_concat_le (xs ys : List α) (op : Op α)
    : distance (xs ++ op.source) (ys ++ op.target) ≤ distance xs ys + op.weight := by
  rcases exists_spells xs ys with ⟨ops, hops, hweight⟩
  have hle := distance_le (hops.concat op)
  rw [weight_append, weight_cons, weight_nil, hweight] at hle
  exact hle

theorem distance_concat (xs : List α) (x : α) (ys : List α) (y : α)
    : distance (xs ++ [x]) (ys ++ [y]) =
        min (min (distance xs ys + (pair x y).weight) (distance xs (ys ++ [y]) + 1))
          (distance (xs ++ [x]) ys + 1) := by
  apply Nat.le_antisymm
  . have hboth := distance_concat_le xs ys (pair x y)
    have hleft := distance_concat_le xs (ys ++ [y]) (.delete x)
    have hright := distance_concat_le (xs ++ [x]) ys (.insert y)
    rw [source_pair, target_pair] at hboth
    simp only [Op.source, Op.target, Op.weight, List.append_nil] at hleft hright
    omega
  . rcases exists_spells (xs ++ [x]) (ys ++ [y]) with ⟨ops, hops, hweight⟩
    rcases List.eq_nil_or_concat' ops with rfl | ⟨init, op, rfl⟩
    . have hnil := hops.source
      simp at hnil
    . have hsource := hops.source
      have htarget := hops.target
      rw [List.flatMap_append, List.flatMap_singleton] at hsource htarget
      rw [weight_append, weight_cons, weight_nil] at hweight
      rw [← hweight]
      -- What is left of the script is one for the lists without their last items.
      cases op with
      | keep a =>
        rcases List.append_singleton_inj.mp hsource with ⟨hxs, hx⟩
        rcases List.append_singleton_inj.mp htarget with ⟨hys, hy⟩
        have hle := distance_le ⟨hxs, hys⟩
        rw [weight_pair, if_pos (hx.symm.trans hy)]
        omega
      | replace a b =>
        rcases List.append_singleton_inj.mp hsource with ⟨hxs, -⟩
        rcases List.append_singleton_inj.mp htarget with ⟨hys, -⟩
        have hle := distance_le ⟨hxs, hys⟩
        have hone : (Op.replace a b).weight = 1 := rfl
        rw [weight_pair]
        split <;> omega
      | delete a =>
        rcases List.append_singleton_inj.mp hsource with ⟨hxs, -⟩
        rw [Op.target, List.append_nil] at htarget
        have hle := distance_le ⟨hxs, htarget⟩
        have hone : (Op.delete a).weight = 1 := rfl
        omega
      | insert b =>
        rcases List.append_singleton_inj.mp htarget with ⟨hys, -⟩
        rw [Op.source, List.append_nil] at hsource
        have hle := distance_le ⟨hsource, hys⟩
        have hone : (Op.insert b).weight = 1 := rfl
        omega

theorem distance_le_add (xs ys : List α) : distance xs ys ≤ xs.length + ys.length := by
  have hle := distance_le ((spells_deletes xs).append (spells_inserts ys))
  rw [List.append_nil, List.nil_append, weight_append, weight_map_one (fun _ => rfl),
    weight_map_one (fun _ => rfl)] at hle
  exact hle

end Edit
