/-!
This module contains readers: functions that take the next item off a state, called one time after
the other. A reader simulates another one when related states give the same item and are related
again afterwards, and then every number of calls gives the same items.
-/

namespace Trace

/-- Takes one item off a state. -/
abbrev Reader (σ ρ : Type) := σ → ρ × σ

namespace Reader

variable {σ τ ρ : Type} {read : Reader σ ρ} {spec : Reader τ ρ}

/-- What `n` calls return, and the state they leave. -/
def calls (read : Reader σ ρ) : Nat → σ → List ρ × σ
  | 0, s => ([], s)
  | n + 1, s => ((read s).1 :: (read.calls n (read s).2).1, (read.calls n (read s).2).2)

theorem calls_add (read : Reader σ ρ) (m n : Nat) (s : σ)
    : read.calls (m + n) s
      = ((read.calls m s).1 ++ (read.calls n (read.calls m s).2).1,
        (read.calls n (read.calls m s).2).2) := by
  induction m generalizing s with
  | zero => rw [Nat.zero_add, calls, List.nil_append]
  | succ m ih =>
    rw [Nat.add_right_comm]
    simp only [calls, ih, List.cons_append]

/-- One call on related states gives the same item and leaves related states. -/
def Simulates (R : σ → τ → Prop) (read : Reader σ ρ) (spec : Reader τ ρ) : Prop :=
  ∀ s t, R s t → (read s).1 = (spec t).1 ∧ R (read s).2 (spec t).2

theorem Simulates.calls {R : σ → τ → Prop} (h : Simulates R read spec) (n : Nat) {s : σ} {t : τ}
    (hst : R s t)
    : (read.calls n s).1 = (spec.calls n t).1 ∧ R (read.calls n s).2 (spec.calls n t).2 := by
  induction n generalizing s t with
  | zero => exact ⟨rfl, hst⟩
  | succ n ih =>
    have hone := h s t hst
    have hmore := ih hone.2
    constructor
    . simp only [Reader.calls, hone.1, hmore.1]
    . apply hmore.2

end Reader

end Trace
