import Mathlib.Algebra.BigOperators.Group.List.Basic
import Mathlib.Algebra.Ring.Nat

/-!
This module contains machine arithmetic with overflow checks: an operation whose exact result does
not fit the word has no result.
-/

namespace Arith

variable {w : Nat}

def checked (w n : Nat) : Option (BitVec w) :=
  if n < 2 ^ w then some (BitVec.ofNat w n) else none

/-- A result that has to fit a word, left as a number. -/
def within (w n : Nat) : Option Nat :=
  if n < 2 ^ w then some n else none

def withinSigned (w : Nat) (x : Int) : Option Int :=
  if -2 ^ (w - 1) ≤ x ∧ x < 2 ^ (w - 1) then some x else none

def checkedAdd (a b : BitVec w) : Option (BitVec w) :=
  checked w (a.toNat + b.toNat)

def checkedMul (a b : BitVec w) : Option (BitVec w) :=
  checked w (a.toNat * b.toNat)

def checkedSub (a b : BitVec w) : Option (BitVec w) :=
  if b.toNat ≤ a.toNat then some (a - b) else none

def checkedSum (l : List (BitVec w)) : Option (BitVec w) :=
  l.foldlM checkedAdd 0#w

theorem checked_of_lt {n : Nat} (h : n < 2 ^ w) : checked w n = some (BitVec.ofNat w n) := by
  exact if_pos h

theorem checked_of_le {n : Nat} (h : 2 ^ w ≤ n) : checked w n = none := by
  exact if_neg (Nat.not_lt.mpr h)

theorem within_of_lt {n : Nat} (h : n < 2 ^ w) : within w n = some n := by
  exact if_pos h

theorem within_of_le {n : Nat} (h : 2 ^ w ≤ n) : within w n = none := by
  exact if_neg (Nat.not_lt.mpr h)

theorem withinSigned_of_lt {x : Int} (hle : -2 ^ (w - 1) ≤ x) (hlt : x < 2 ^ (w - 1))
    : withinSigned w x = some x := by
  exact if_pos ⟨hle, hlt⟩

theorem checked_toNat (a : BitVec w) : checked w a.toNat = some a := by
  rw [checked_of_lt a.isLt, BitVec.ofNat_toNat, BitVec.setWidth_eq]

theorem checked_eq_some_iff {n : Nat} {a : BitVec w} : checked w n = some a ↔ a.toNat = n := by
  constructor
  . intro h
    unfold checked at h
    split at h
    next hlt =>
      rw [← Option.some.inj h, BitVec.toNat_ofNat, Nat.mod_eq_of_lt hlt]
    next => cases h
  . intro h
    rw [← h, checked_toNat]

theorem checkedAdd_eq_some_iff {a b c : BitVec w}
    : checkedAdd a b = some c ↔ c.toNat = a.toNat + b.toNat := by
  exact checked_eq_some_iff

theorem checkedMul_eq_some_iff {a b c : BitVec w}
    : checkedMul a b = some c ↔ c.toNat = a.toNat * b.toNat := by
  exact checked_eq_some_iff

theorem checkedSub_eq_some_iff {a b c : BitVec w}
    : checkedSub a b = some c ↔ c.toNat + b.toNat = a.toNat := by
  unfold checkedSub
  constructor
  . intro h
    split at h
    next hle =>
      rw [← Option.some.inj h, BitVec.toNat_sub_of_le hle]
      omega
    next => cases h
  . intro h
    have hle : b.toNat ≤ a.toNat := by omega
    rw [if_pos hle, Option.some.injEq]
    apply BitVec.eq_of_toNat_eq
    rw [BitVec.toNat_sub_of_le hle]
    omega

theorem checkedAdd_of_lt {a b : BitVec w} (h : a.toNat + b.toNat < 2 ^ w)
    : checkedAdd a b = some (a + b) := by
  rw [checkedAdd_eq_some_iff, BitVec.toNat_add, Nat.mod_eq_of_lt h]

theorem checkedMul_of_lt {a b : BitVec w} (h : a.toNat * b.toNat < 2 ^ w)
    : checkedMul a b = some (a * b) := by
  rw [checkedMul_eq_some_iff, BitVec.toNat_mul, Nat.mod_eq_of_lt h]

theorem checkedSub_of_le {a b : BitVec w} (h : b.toNat ≤ a.toNat)
    : checkedSub a b = some (a - b) := by
  exact if_pos h

/-- A result on the way to a larger one need not be looked at: when it does not fit, neither does
the larger one. -/
theorem checked_bind_eq {β : Type} {n m : Nat} {f : BitVec w → Option β} {r : Option β}
    (hle : n ≤ m) (hf : ∀ a, a.toNat = n → f a = r) (hr : checked w m = none → r = none)
    : (checked w n).bind f = r := by
  by_cases h : n < 2 ^ w
  . rw [checked_of_lt h, Option.bind_some]
    apply hf
    rw [BitVec.toNat_ofNat, Nat.mod_eq_of_lt h]
  . rw [checked_of_le (by omega), hr (checked_of_le (by omega)), Option.bind_none]

theorem checked_bind_checkedAdd (n : Nat) (b : BitVec w)
    : (checked w n).bind (checkedAdd · b) = checked w (n + b.toNat) := by
  apply checked_bind_eq (Nat.le_add_right n b.toNat) _ id
  intro a ha
  rw [checkedAdd, ha]

theorem foldlM_checkedAdd (l : List (BitVec w)) (a : BitVec w)
    : l.foldlM checkedAdd a = checked w (a.toNat + (l.map BitVec.toNat).sum) := by
  induction l generalizing a with
  | nil => simp [checked_toNat]
  | cons b l ih =>
    rw [List.foldlM_cons, checkedAdd, List.map_cons, List.sum_cons, ← Nat.add_assoc]
    apply checked_bind_eq (Nat.le_add_right _ _) _ id
    intro c hc
    rw [ih, hc]

/-- A sum that fits at its end fits all along. -/
theorem checkedSum_eq (l : List (BitVec w))
    : checkedSum l = checked w (l.map BitVec.toNat).sum := by
  rw [checkedSum, foldlM_checkedAdd, BitVec.toNat_zero, Nat.zero_add]

end Arith
