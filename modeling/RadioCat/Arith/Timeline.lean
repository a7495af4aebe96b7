import Mathlib.Algebra.BigOperators.Group.List.Basic
import Mathlib.Algebra.Ring.Nat
import Mathlib.Data.List.Chain

/-!
This module contains timelines: lists of stretches of time, each with the state that holds
throughout it.
-/

universe u

namespace Arith

structure Stretch (σ : Type u) where
  state : σ
  duration : Nat
  deriving DecidableEq, Repr

namespace Timeline

variable {σ : Type u}

def total (l : List (Stretch σ)) : Nat :=
  (l.map Stretch.duration).sum

def stateAt : List (Stretch σ) → Nat → Option σ
  | [], _ => none
  | s :: l, t => if t < s.duration then some s.state else stateAt l (t - s.duration)

/-- No stretch is empty, and no two neighbours could be one stretch. -/
structure Proper (l : List (Stretch σ)) : Prop where
  positive : ∀ s ∈ l, 0 < s.duration
  alternating : l.IsChain fun s s' => s.state ≠ s'.state

@[simp]
theorem total_nil : total ([] : List (Stretch σ)) = 0 := rfl

@[simp]
theorem total_cons (s : Stretch σ) (l : List (Stretch σ))
    : total (s :: l) = s.duration + total l := by
  simp [total]

@[simp]
theorem total_append (l l' : List (Stretch σ)) : total (l ++ l') = total l + total l' := by
  simp [total]

theorem stateAt_cons (s : Stretch σ) (l : List (Stretch σ)) (t : Nat)
    : stateAt (s :: l) t =
        if t < s.duration then some s.state else stateAt l (t - s.duration) := rfl

theorem stateAt_of_le {l : List (Stretch σ)} {t : Nat} (h : total l ≤ t) : stateAt l t = none := by
  induction l generalizing t with
  | nil => rfl
  | cons s l ih =>
    rw [total_cons] at h
    rw [stateAt_cons, if_neg (by omega)]
    apply ih
    omega

theorem stateAt_append (l l' : List (Stretch σ)) (t : Nat)
    : stateAt (l ++ l') t = if t < total l then stateAt l t else stateAt l' (t - total l) := by
  induction l generalizing t with
  | nil => rfl
  | cons s l ih =>
    rw [List.cons_append, stateAt_cons, stateAt_cons, ih, total_cons]
    by_cases hs : t < s.duration
    . rw [if_pos hs, if_pos hs, if_pos (by omega)]
    . by_cases hl : t - s.duration < total l
      . rw [if_neg hs, if_neg hs, if_pos hl, if_pos (by omega)]
      . rw [if_neg hs, if_neg hl, if_neg (by omega), Nat.sub_sub]

theorem stateAt_last {l : List (Stretch σ)} {s : Stretch σ} (h : 0 < s.duration)
    : stateAt (l ++ [s]) (total l + s.duration - 1) = some s.state := by
  rw [stateAt_append, if_neg (by omega), stateAt_cons, if_pos (by omega)]

theorem Proper.tail {s : Stretch σ} {l : List (Stretch σ)} (h : Proper (s :: l)) : Proper l := by
  exact ⟨fun x hx => h.positive x (List.mem_cons_of_mem s hx), h.alternating.tail⟩

theorem Proper.append_left {l l' : List (Stretch σ)} (h : Proper (l ++ l')) : Proper l := by
  exact ⟨fun x hx => h.positive x (List.mem_append_left l' hx), h.alternating.left_of_append⟩

theorem Proper.stateAt_zero {s : Stretch σ} {l : List (Stretch σ)} (h : Proper (s :: l))
    : stateAt (s :: l) 0 = some s.state := by
  exact if_pos (h.positive s List.mem_cons_self)

theorem Proper.stateAt_duration {s : Stretch σ} {l : List (Stretch σ)} (h : Proper (s :: l))
    : stateAt (s :: l) s.duration ≠ some s.state := by
  rw [stateAt_cons, if_neg (Nat.lt_irrefl _), Nat.sub_self]
  cases l with
  | nil => nofun
  | cons s' l =>
    rw [h.tail.stateAt_zero]
    intro heq
    exact (List.isChain_cons_cons.mp h.alternating).1 (Option.some.inj heq).symm

theorem Proper.duration_le {s s' : Stretch σ} {l l' : List (Stretch σ)} (h : Proper (s :: l))
    (heq : ∀ t, stateAt (s :: l) t = stateAt (s' :: l') t) (hstate : s.state = s'.state)
    : s'.duration ≤ s.duration := by
  by_contra hlt
  apply h.stateAt_duration
  rw [heq, stateAt_cons, if_pos (by omega), hstate]

theorem Proper.ext {l l' : List (Stretch σ)} (h : Proper l) (h' : Proper l')
    (heq : ∀ t, stateAt l t = stateAt l' t) : l = l' := by
  induction l generalizing l' with
  | nil =>
    cases l' with
    | nil => rfl
    | cons s' l' =>
      have hzero := heq 0
      rw [h'.stateAt_zero] at hzero
      cases hzero
  | cons s l ih =>
    cases l' with
    | nil =>
      have hzero := heq 0
      rw [h.stateAt_zero] at hzero
      cases hzero
    | cons s' l' =>
      have hstate : s.state = s'.state := by
        have hzero := heq 0
        rw [h.stateAt_zero, h'.stateAt_zero] at hzero
        exact Option.some.inj hzero
      have hle := h.duration_le heq hstate
      have hge := h'.duration_le (fun t => (heq t).symm) hstate.symm
      have hduration : s.duration = s'.duration := by omega
      have htail : l = l' := by
        apply ih h.tail h'.tail
        intro t
        have hlater := heq (t + s.duration)
        rw [stateAt_cons, stateAt_cons, if_neg (by omega), if_neg (by omega), ← hduration,
          Nat.add_sub_cancel] at hlater
        exact hlater
      obtain ⟨state, duration⟩ := s
      obtain ⟨state', duration'⟩ := s'
      cases hstate
      cases hduration
      rw [htail]

variable [DecidableEq σ]

/-- A stretch in the last state prolongs it. -/
def extend (l : List (Stretch σ)) (a : σ) (d : Nat) : List (Stretch σ) :=
  match l with
  | [] => [⟨a, d⟩]
  | [s] => if s.state = a then [⟨a, s.duration + d⟩] else [s, ⟨a, d⟩]
  | s :: s' :: l => s :: extend (s' :: l) a d

@[simp]
theorem total_extend (l : List (Stretch σ)) (a : σ) (d : Nat)
    : total (extend l a d) = total l + d := by
  fun_induction extend l a d
  case case1 => simp
  case case2 s hs => simp
  case case3 s hs => simp
  case case4 s s' l ih =>
    rw [total_cons, ih, total_cons s, Nat.add_assoc]

theorem stateAt_extend (l : List (Stretch σ)) (a : σ) (d t : Nat)
    : stateAt (extend l a d) t =
        if t < total l then stateAt l t else if t < total l + d then some a else none := by
  fun_induction extend l a d generalizing t
  case case1 => simp [stateAt]
  case case2 s hs =>
    by_cases hlt : t < s.duration
    . simp [stateAt, hlt, hs]
      omega
    . simp [stateAt, hlt]
  case case3 s hs =>
    by_cases hlt : t < s.duration
    . simp [stateAt, hlt]
    . have hend : t - s.duration < d ↔ t < s.duration + d := by omega
      simp [stateAt, hlt, hend]
  case case4 s s' l ih =>
    rw [stateAt_cons, ih, total_cons s, stateAt_cons s (s' :: l)]
    by_cases hs : t < s.duration
    . simp only [hs, if_true]
      rw [if_pos (by omega)]
    . have hlt : t - s.duration < total (s' :: l) ↔ t < s.duration + total (s' :: l) := by omega
      have hend : t - s.duration < total (s' :: l) + d ↔
          t < s.duration + total (s' :: l) + d := by omega
      simp only [hs, if_false, hlt, hend]

theorem extend_cons (s : Stretch σ) (l : List (Stretch σ)) (a : σ) (d : Nat)
    : ∃ s' l', extend (s :: l) a d = s' :: l' ∧ s'.state = s.state := by
  cases l with
  | nil =>
    rw [extend]
    split
    next hs => exact ⟨_, _, rfl, hs.symm⟩
    next => exact ⟨_, _, rfl, rfl⟩
  | cons s' l => exact ⟨_, _, rfl, rfl⟩

theorem Proper.extend {l : List (Stretch σ)} {a : σ} {d : Nat} (h : Proper l) (hd : 0 < d)
    : Proper (extend l a d) := by
  fun_induction Timeline.extend l a d
  case case1 => exact ⟨by simpa using hd, List.isChain_singleton _⟩
  case case2 s hs => exact ⟨by simp; omega, List.isChain_singleton _⟩
  case case3 s hs =>
    have hs' := h.positive s (List.mem_singleton_self s)
    exact ⟨by simp [hd, hs'], by simpa using hs⟩
  case case4 s s' l ih =>
    have hext := ih h.tail
    rcases extend_cons s' l a d with ⟨first, rest, hcons, hstate⟩
    rw [hcons] at hext ⊢
    constructor
    . intro x hx
      rcases List.mem_cons.mp hx with rfl | hmem
      . exact h.positive x List.mem_cons_self
      . exact hext.positive x hmem
    . rw [List.isChain_cons_cons, hstate]
      exact ⟨(List.isChain_cons_cons.mp h.alternating).1, hext.alternating⟩

end Timeline

end Arith
