import Mathlib.Data.List.Basic

/-!
This module contains executions of a labelled step relation, together with the log of what they
showed to the outside. A log is kept newest first, so the head of a log is the last thing that
happened and the tail is the log it happened after.
-/

namespace Trace

universe u v w

variable {σ : Type u} {ε : Type v} {ω : Type w}

/--
Zero or more steps from one state to another. Every step shows a list of events, oldest first.
-/
inductive Exec (Step : σ → List ε → σ → Prop) : σ → List ε → σ → Prop where
  | refl (s : σ) : Exec Step s [] s
  | tail {s t u : σ} {log evs : List ε} (pre : Exec Step s log t) (last : Step t evs u)
    : Exec Step s (evs.reverse ++ log) u

namespace Exec

variable {Step Fine : σ → List ε → σ → Prop} {s t u : σ} {log log' evs : List ε}

theorem single (h : Step s evs t) : Exec Step s evs.reverse t := by
  have := Exec.tail (Exec.refl s) h
  rwa [List.append_nil] at this

theorem trans (h₁ : Exec Step s log t) (h₂ : Exec Step t log' u)
    : Exec Step s (log' ++ log) u := by
  induction h₂ with
  | refl => exact h₁
  | tail _ last ih =>
    rw [List.append_assoc]
    exact Exec.tail ih last

theorem invariant (I : List ε → σ → Prop) (start : I [] s)
    (step : ∀ {log t evs u}, I log t → Step t evs u → I (evs.reverse ++ log) u)
    (h : Exec Step s log t)
    : I log t := by
  induction h with
  | refl => exact start
  | tail _ last ih => exact step ih last

/--
A system whose every step is an execution of a finer one, in the states the finer one keeps, has
only executions of the finer one. `J` is an invariant of the finer system.
-/
theorem refine (J : σ → Prop) (start : J s)
    (keeps : ∀ {t evs u}, J t → Fine t evs u → J u)
    (sim : ∀ {t evs u}, J t → Step t evs u → Exec Fine t evs.reverse u)
    (h : Exec Step s log t)
    : Exec Fine s log t := by
  induction h with
  | refl => exact Exec.refl s
  | tail _ last ih =>
    have hJ := invariant (fun _ t => J t) start keeps ih
    exact ih.trans (sim hJ last)

end Exec

def observe (next : ω → ε → ω) (init : ω) (log : List ε) : ω :=
  log.foldr (fun e w => next w e) init

section observe

variable (next : ω → ε → ω) (init : ω)

@[simp]
theorem observe_nil : observe next init [] = init := by
  rfl

@[simp]
theorem observe_cons (e : ε) (log : List ε)
    : observe next init (e :: log) = next (observe next init log) e := by
  rfl

end observe

/--
What `f` reads off the events of a log, oldest first.
-/
def told (f : ε → Option ω) (log : List ε) : List ω :=
  log.reverse.filterMap f

theorem told_cons (f : ε → Option ω) (e : ε) (log : List ε)
    : told f (e :: log) = told f log ++ (f e).toList := by
  rw [told, List.reverse_cons, List.filterMap_append]
  cases h : f e with
  | none => simp [told, h]
  | some a => simp [told, h]

theorem told_append (f : ε → Option ω) (evs log : List ε)
    : told f (evs.reverse ++ log) = told f log ++ evs.filterMap f := by
  rw [told, List.reverse_append, List.reverse_reverse, List.filterMap_append]
  rfl

theorem filterMap_embedded {f : ε → Option ω} {g : ω → ε} (h : ∀ a, f (g a) = some a)
    (evs : List ω) (log : List ε)
    : ((evs.map g).reverse ++ log).filterMap f = evs.reverse ++ log.filterMap f := by
  have hback : f ∘ g = some := funext h
  rw [List.filterMap_append, ← List.map_reverse, List.filterMap_map, hback, List.filterMap_some]

/--
Every event of a log satisfies `Q`, read against the log it happened after.
-/
def Each (Q : ε → List ε → Prop) : List ε → Prop
  | [] => True
  | e :: log => Q e log ∧ Each Q log

section Each

variable {Q : ε → List ε → Prop} {log evs : List ε}

theorem Each.append (h : Each Q log) (hevs : ∀ e ∈ evs, ∀ log, Q e log)
    : Each Q (evs.reverse ++ log) := by
  induction evs generalizing log with
  | nil => exact h
  | cons e evs ih =>
    rw [List.reverse_cons, List.append_assoc]
    exact ih ⟨hevs e List.mem_cons_self log, h⟩ fun e he => hevs e (List.mem_cons_of_mem _ he)

theorem Each.of_append_right (h : Each Q (evs ++ log)) : Each Q log := by
  induction evs with
  | nil => exact h
  | cons _ _ ih => exact ih h.2

theorem Each.of_append {e : ε} (h : Each Q (evs ++ e :: log)) : Q e log := by
  exact (Each.of_append_right h).1

theorem Each.congr {P Q : ε → List ε → Prop} {log : List ε}
    (h : Each (fun e log => P e log ↔ Q e log) log) : Each P log ↔ Each Q log := by
  induction log with
  | nil => exact Iff.rfl
  | cons e log ih => exact and_congr h.1 (ih h.2)

instance Each.decidable [∀ e log, Decidable (Q e log)] : (log : List ε) → Decidable (Each Q log)
  | [] => isTrue trivial
  | e :: log => @instDecidableAnd (Q e log) (Each Q log) _ (Each.decidable log)

end Each

end Trace
