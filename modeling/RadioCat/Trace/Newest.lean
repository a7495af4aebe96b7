import Mathlib.Data.List.Basic

/-!
This module contains the accounts of a slot that holds one item, in which the newest wins: what was
deposited has been returned, is in the slot, or was dropped for a newer one.
-/

namespace Trace

universe u

variable {μ : Type u}

structure Accounts (deposited returned : List μ) (slot : Option μ) (dropped : Nat) : Prop where
  sublist : (returned ++ slot.toList).Sublist deposited
  count : deposited.length = returned.length + slot.toList.length + dropped
  -- what is dropped is never the newest
  last : (returned ++ slot.toList).getLast? = deposited.getLast?

namespace Accounts

variable {deposited returned : List μ} {slot : Option μ} {dropped : Nat} {a : μ}

theorem empty : Accounts ([] : List μ) [] none 0 := by
  exact ⟨List.Sublist.refl [], rfl, rfl⟩

theorem deposit (h : Accounts deposited returned slot dropped) (a : μ)
    : Accounts (deposited ++ [a]) returned (some a) (dropped + slot.toList.length) := by
  have hcount := h.count
  constructor
  . apply List.Sublist.append _ (List.Sublist.refl [a])
    exact (List.sublist_append_left returned slot.toList).trans h.sublist
  . rw [List.length_append, hcount]
    simp only [Option.toList_some, List.length_singleton]
    omega
  . simp

theorem take (h : Accounts deposited returned (some a) dropped)
    : Accounts deposited (returned ++ [a]) none dropped := by
  have hcount := h.count
  have hsame : returned ++ [a] ++ (none : Option μ).toList = returned ++ (some a).toList := by
    simp
  constructor
  . rw [hsame]
    exact h.sublist
  . rw [hcount, List.length_append]
    simp
  . rw [hsame]
    exact h.last

theorem sublist_returned (h : Accounts deposited returned slot dropped)
    : returned.Sublist deposited := by
  exact (List.sublist_append_left returned slot.toList).trans h.sublist

theorem last_returned (h : Accounts deposited returned none dropped)
    : returned.getLast? = deposited.getLast? := by
  have hlast := h.last
  rwa [Option.toList_none, List.append_nil] at hlast

end Accounts

end Trace
