import Mathlib.Data.List.Basic

/-!
This module contains streams that are read two at a time: `pairs` takes a stream apart from its
start, `unpairs` puts one together.
-/

namespace Bytes

variable {β : Type}

def pairs : List β → List (β × β)
  | a :: b :: rest => (a, b) :: pairs rest
  | _ => []

def unpairs (l : List (β × β)) : List β :=
  l.flatMap fun p => [p.1, p.2]

@[simp]
theorem unpairs_nil : unpairs ([] : List (β × β)) = [] := rfl

@[simp]
theorem unpairs_cons (p : β × β) (l : List (β × β))
    : unpairs (p :: l) = p.1 :: p.2 :: unpairs l := rfl

@[simp]
theorem unpairs_append (l l' : List (β × β)) : unpairs (l ++ l') = unpairs l ++ unpairs l' := by
  apply List.flatMap_append

@[simp]
theorem length_unpairs (l : List (β × β)) : (unpairs l).length = 2 * l.length := by
  induction l with
  | nil => rfl
  | cons p l ih =>
    simp [ih]
    omega

theorem drop_unpairs (l : List (β × β)) (n : Nat)
    : (unpairs l).drop (2 * n) = unpairs (l.drop n) := by
  induction n generalizing l with
  | zero => rfl
  | succ n ih =>
    cases l with
    | nil => simp
    | cons p l => exact ih l

theorem take_unpairs (l : List (β × β)) (n : Nat)
    : (unpairs l).take (2 * n) = unpairs (l.take n) := by
  induction n generalizing l with
  | zero => rfl
  | succ n ih =>
    cases l with
    | nil => simp
    | cons p l =>
      rw [List.take_succ_cons, unpairs_cons, unpairs_cons, ← ih]
      rfl

theorem pairs_map {γ : Type} (f : β → γ) (l : List β)
    : pairs (l.map f) = (pairs l).map fun p => (f p.1, f p.2) := by
  induction l using pairs.induct with
  | case1 a b rest ih => simp [pairs, ih]
  | case2 l h =>
    match l with
    | [] => rfl
    | [_] => rfl
    | a :: b :: rest => exact absurd rfl (h a b rest)

theorem pairs_isPrefix {stream : List β} {l : List (β × β)} (h : stream <+: unpairs l)
    : pairs stream <+: l := by
  induction l generalizing stream with
  | nil =>
    rw [unpairs_nil, List.prefix_nil] at h
    rw [h]
    exact List.nil_prefix
  | cons p l ih =>
    match stream with
    | [] => exact List.nil_prefix
    | [_] => exact List.nil_prefix
    | a :: b :: rest =>
      rw [unpairs_cons, List.cons_prefix_cons, List.cons_prefix_cons] at h
      rcases h with ⟨ha, hb, hrest⟩
      rw [pairs, List.cons_prefix_cons]
      exact ⟨Prod.ext ha hb, ih hrest⟩

end Bytes
