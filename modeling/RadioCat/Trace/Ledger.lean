import Mathlib.Algebra.BigOperators.Group.List.Basic
import RadioCat.Trace.Basic

/-!
This module contains ledgers: events open and close entries of a book, and a state says what is
pending. If every step balances, so does every execution.
-/

namespace Trace

universe u v w

/--
What is booked is counted in any commutative monoid: numbers, multisets, ...
-/
structure Ledger (σ : Type u) (ε : Type v) (M : Type w) where
  opened : ε → M
  closed : ε → M
  pending : σ → M

namespace Ledger

variable {σ : Type u} {ε : Type v} {M : Type w} [AddCommMonoid M] {l : Ledger σ ε M}
  {Step : σ → List ε → σ → Prop} {s t : σ} {log evs : List ε}

def Balances (l : Ledger σ ε M) (s : σ) (evs : List ε) (t : σ) : Prop :=
  (evs.map l.opened).sum + l.pending s = (evs.map l.closed).sum + l.pending t

theorem balances_nil (hpending : l.pending s = l.pending t) : l.Balances s [] t := by
  rw [Balances, hpending]
  rfl

theorem Balances.cons_quiet {e : ε} (hopened : l.opened e = 0) (hclosed : l.closed e = 0)
    (h : l.Balances s evs t) : l.Balances s (e :: evs) t := by
  rw [Balances, List.map_cons, List.map_cons, List.sum_cons, List.sum_cons, hopened, hclosed,
    zero_add, zero_add]
  exact h

theorem Balances.append {u : σ} (h₁ : l.Balances s log t) (h₂ : l.Balances t evs u)
    : l.Balances s (evs.reverse ++ log) u := by
  unfold Balances at h₁ h₂ ⊢
  rw [List.map_append, List.map_append, List.map_reverse, List.map_reverse, List.sum_append,
    List.sum_append, List.sum_reverse, List.sum_reverse]
  calc
    _ = (evs.map l.opened).sum + ((log.map l.closed).sum + l.pending t) := by rw [add_assoc, h₁]
    _ = (log.map l.closed).sum + ((evs.map l.closed).sum + l.pending u) := by
      rw [add_left_comm, h₂]
    _ = _ := by rw [add_left_comm, add_assoc]

theorem balances_exec (hstep : ∀ s evs t, Step s evs t → l.Balances s evs t)
    (h : Exec Step s log t) : l.Balances s log t := by
  induction h with
  | refl => rfl
  | tail _ last ih => exact ih.append (hstep _ _ _ last)

end Ledger

end Trace
