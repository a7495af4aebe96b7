import RadioCat.Trace.Basic

/-!
This module contains machines: step relations that are given by what an action does in a state, and
that can therefore be played. A discipline says which actions a run may take in which states.
-/

namespace Trace

universe u v w

variable {σ : Type u} {α : Type v} {ε : Type w}

/--
What an action shows and where it leads, if it can be taken at all.
-/
abbrev Machine (σ : Type u) (α : Type v) (ε : Type w) := σ → α → Option (List ε × σ)

abbrev Discipline (σ : Type u) (α : Type v) := σ → α → Prop

def anything : Discipline σ α :=
  fun _ _ => True

instance : ∀ (s : σ) (a : α), Decidable (anything s a) :=
  fun _ _ => instDecidableTrue

namespace Machine

variable {m : Machine σ α ε} {ok : Discipline σ α} {s t : σ} {log : List ε}

inductive Step (m : Machine σ α ε) (ok : Discipline σ α) : σ → List ε → σ → Prop where
  | act {s t : σ} {evs : List ε} (a : α) (allowed : ok s a) (taken : m s a = some (evs, t))
    : Step m ok s evs t

abbrev Runs (m : Machine σ α ε) (ok : Discipline σ α) : σ → List ε → σ → Prop :=
  Exec (Step m ok)

theorem Runs.invariant (I : List ε → σ → Prop) (start : I [] s)
    (step : ∀ {log s a evs t}, I log s → ok s a → m s a = some (evs, t) → I (evs.reverse ++ log) t)
    (h : Runs m ok s log t)
    : I log t := by
  apply Exec.invariant I start _ h
  intro log t evs u hI hstep
  cases hstep with
  | act a allowed taken => exact step hI allowed taken

/-- The rule for runs that are only followed as long as their log satisfies `C`. -/
theorem Runs.invariant_while (C : List ε → Prop) (I : List ε → σ → Prop)
    (older : ∀ {evs log}, C (evs ++ log) → C log) (start : I [] s)
    (step : ∀ {log s a evs t}, I log s → C (evs.reverse ++ log) → ok s a →
      m s a = some (evs, t) → I (evs.reverse ++ log) t)
    (h : Runs m ok s log t) (hlog : C log)
    : I log t := by
  apply Runs.invariant (fun log t => C log → I log t) _ _ h hlog
  . intro _
    exact start
  . intro log s a evs t hI allowed taken hlog
    exact step (hI (older hlog)) hlog allowed taken

def play (m : Machine σ α ε) (ok : Discipline σ α) [∀ s a, Decidable (ok s a)] (s : σ)
    : List α → Option (List ε × σ)
  | [] => some ([], s)
  | a :: script =>
    if ok s a then
      match m s a with
      | none => none
      | some (evs, t) =>
        match m.play ok t script with
        | none => none
        | some (log, u) => some (log ++ evs.reverse, u)
    else
      none

theorem runs_play [∀ s a, Decidable (ok s a)] (script : List α)
    (h : m.play ok s script = some (log, t))
    : Runs m ok s log t := by
  induction script generalizing s log with
  | nil =>
    cases h
    exact Exec.refl _
  | cons a script ih =>
    unfold play at h
    split at h
    next allowed =>
      split at h
      next => cases h
      next evs u taken =>
        split at h
        next => cases h
        next rest v hrest =>
          cases h
          exact (Exec.single (Step.act a allowed taken)).trans (ih hrest)
    next => cases h

theorem exists_runs_play [∀ s a, Decidable (ok s a)] {β : Type*} {f : List ε × σ → β} {b : β}
    (script : List α) (h : (m.play ok s script).map f = some b)
    : ∃ log t, Runs m ok s log t ∧ f (log, t) = b := by
  rcases Option.map_eq_some_iff.mp h with ⟨⟨log, t⟩, hplay, hf⟩
  exact ⟨log, t, runs_play script hplay, hf⟩

theorem exists_runs_head [∀ s a, Decidable (ok s a)] {e : ε} (script : List α)
    (h : (m.play ok s script).map (fun r => r.1.head?) = some (some e))
    : ∃ older t, Runs m ok s (e :: older) t := by
  rcases exists_runs_play script h with ⟨log, t, hruns, hhead⟩
  rcases List.head?_eq_some_iff.mp hhead with ⟨older, rfl⟩
  exact ⟨older, t, hruns⟩

end Machine

end Trace
