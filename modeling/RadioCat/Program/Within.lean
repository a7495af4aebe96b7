import Mathlib.Order.Defs.Unbundled

/-!
This module contains programs with a state that may stop early: what they lead to when they come to
their end, and the programs that carry a proof of how far they change the state.
-/

universe u v

namespace Program

/-- A program with a state that may stop with an error. -/
abbrev Fallible (σ : Type u) (ε : Type v) (α : Type u) := StateT σ (Except ε) α

variable {σ α β : Type u} {ε : Type v}

theorem exists_of_map {x : Except ε α} {f : α → β} {b : β} (h : x.map f = .ok b)
    : ∃ a, x = .ok a ∧ f a = b := by
  cases x with
  | error e => cases h
  | ok a => exact ⟨a, rfl, Except.ok.inj h⟩

theorem exists_of_except_bind {x : Except ε α} {f : α → Except ε β} {b : β} (h : x >>= f = .ok b)
    : ∃ a, x = .ok a ∧ f a = .ok b := by
  cases x with
  | error e => cases h
  | ok a => exact ⟨a, rfl, h⟩

theorem exists_of_bind {m : Fallible σ ε α} {f : α → Fallible σ ε β} {s s' : σ} {b : β}
    (h : (m >>= f) s = .ok (b, s'))
    : ∃ a t, m s = .ok (a, t) ∧ f a t = .ok (b, s') := by
  rcases exists_of_except_bind h with ⟨r, hr, hf⟩
  exact ⟨r.1, r.2, hr, hf⟩

/-- From a state with `P`, the program comes to its end only with `Q`. -/
def Leads (P : σ → Prop) (m : Fallible σ ε α) (Q : α → σ → Prop) : Prop :=
  ∀ ⦃s a s'⦄, P s → m s = .ok (a, s') → Q a s'

section rules

variable {P P' : σ → Prop} {Q Q' : α → σ → Prop} {T : β → σ → Prop} {m : Fallible σ ε α}

theorem Leads.pure {a : α} (h : ∀ {s}, P s → Q a s) : Leads P (Pure.pure a : Fallible σ ε α) Q := by
  intro s a' s' hs hrun
  cases hrun
  exact h hs

theorem Leads.bind {f : α → Fallible σ ε β} (hm : Leads P m Q) (hf : ∀ a, Leads (Q a) (f a) T)
    : Leads P (m >>= f) T := by
  intro s b s' hs hrun
  rcases exists_of_bind hrun with ⟨a, t, ha, hb⟩
  exact hf a (hm hs ha) hb

theorem Leads.imp (h : Leads P m Q) (hP : ∀ {s}, P' s → P s) (hQ : ∀ {a s}, Q a s → Q' a s)
    : Leads P' m Q' := by
  intro s a s' hs hrun
  exact hQ (h (hP hs) hrun)

end rules

/-- A program that keeps the state within `R` of where it starts. -/
structure Within (R : σ → σ → Prop) (ε : Type v) (α : Type u) where
  run : Fallible σ ε α
  within {s : σ} {a : α} {s' : σ} : run s = .ok (a, s') → R s s'

namespace Within

variable {R S : σ → σ → Prop}

def weaken (h : ∀ {s s'}, R s s' → S s s') (m : Within R ε α) : Within S ε α where
  run := m.run
  within := fun hrun => h (m.within hrun)

instance [IsPreorder σ R] : Monad (Within R ε) where
  pure a :=
    { run := pure a
      within := by
        intro s a' s' hrun
        cases hrun
        exact Std.Refl.refl s }
  bind m f :=
    { run := m.run >>= fun a => (f a).run
      within := by
        intro s b s' hrun
        rcases exists_of_bind hrun with ⟨a, t, ha, hb⟩
        exact IsTrans.trans s t s' (m.within ha) ((f a).within hb) }

theorem exists_of_run_bind [IsPreorder σ R] {m : Within R ε α} {f : α → Within R ε β} {s s' : σ}
    {b : β} (h : (m >>= f).run s = .ok (b, s'))
    : ∃ a t, m.run s = .ok (a, t) ∧ (f a).run t = .ok (b, s') := by
  exact exists_of_bind h

end Within

end Program
