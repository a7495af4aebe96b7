import RadioCat.Cw.Lemmas.Refine

/-!
This module contains the two settings an arm changes, the power and the break-in, and what a run
shows of each: the value read before the first write since the arm was asked for, the last write
with its answer, and the last value read after it.
-/

namespace Cw

open Trace

inductive Role (α : Type) where
  | snap
  | write (v : α)
  | verify (v : α)
  | look
  | foreign
  deriving DecidableEq

namespace Role

variable {α : Type}

def writes : Role α → Option α
  | .write v => some v
  | _ => none

def reads : Role α → Bool
  | .snap | .verify _ | .look => true
  | _ => false

def isOwn : Role α → Bool
  | .write _ | .verify _ => true
  | _ => false

def Guarded (known written : Bool) : List (Role α) → Prop
  | [] => True
  | .snap :: rest => written = false ∧ Guarded true written rest
  | .write _ :: rest => known = true ∧ Guarded known true rest
  | .verify _ :: rest => written = true ∧ Guarded known written rest
  | .look :: rest => False ∧ Guarded known written rest
  | .foreign :: rest => Guarded known written rest

section Guarded

variable {role : Step → Role α} {keep : Step → Bool} {known written : Bool} {plan : List Step}

theorem Guarded.of_known {l : List (Role α)} (h : Guarded known written l)
    : Guarded true written l := by
  induction l generalizing known written with
  | nil => trivial
  | cons x l ih =>
    cases x with
    | snap => exact h
    | write => exact ⟨rfl, ih h.2⟩
    | verify => exact ⟨h.1, ih h.2⟩
    | look => exact h.1.elim
    | foreign => exact ih h

theorem Guarded.filter_foreign (hkeep : ∀ x, keep x = false → role x = .foreign)
    (h : Guarded known written (plan.map role))
    : Guarded known written ((plan.filter keep).map role) := by
  induction plan generalizing known written with
  | nil => trivial
  | cons x plan ih =>
    cases hx : keep x with
    | false =>
      rw [List.map_cons, hkeep x hx] at h
      rw [List.filter_cons_of_neg (by simp [hx])]
      exact ih h
    | true =>
      rw [List.map_cons] at h
      rw [List.filter_cons_of_pos hx, List.map_cons]
      cases hrole : role x <;> rw [hrole] at h
      case foreign => exact ih h
      all_goals exact ⟨h.1, ih h.2⟩

theorem Guarded.filter_own {written' : Bool} (hkeep : ∀ x, keep x = !(role x).isOwn)
    (h : Guarded known written (plan.map role)) (hle : written' = true → written = true)
    : Guarded known written' ((plan.filter keep).map role) := by
  induction plan generalizing known written written' with
  | nil => trivial
  | cons x plan ih =>
    have hx := hkeep x
    rw [List.map_cons] at h
    cases hrole : role x <;> rw [hrole] at h hx
    case snap =>
      rw [List.filter_cons_of_pos hx, List.map_cons, hrole]
      refine ⟨?_, ih h.2 hle⟩
      rw [Bool.eq_false_iff]
      exact fun hw => absurd ((hle hw).symm.trans h.1) (by simp)
    case write =>
      rw [List.filter_cons_of_neg (by simp [hx, isOwn])]
      exact ih h.2 fun _ => rfl
    case verify =>
      rw [List.filter_cons_of_neg (by simp [hx, isOwn])]
      exact ih h.2 hle
    case look => exact h.1.elim
    case foreign =>
      rw [List.filter_cons_of_pos hx, List.map_cons, hrole]
      exact ih h hle

end Guarded

end Role

/--
A setting of the radio: the steps, actions and answers that are about it, and its part of the
snapshot.
-/
structure Setting (α : Type) where
  role : Step → Role α
  set : CwAction → Option α
  read : CwAction
  value : CwOutcome → Option α
  changed : Snapshot → Bool
  saved : Snapshot → Option α
  set_of_action : ∀ {step action}, step.action = some action →
      set action = (role step).writes := by
    intro step _ h
    cases step <;> cases h <;> rfl
  action_of_write : ∀ {step v}, role step = .write v → ∃ action, step.action = some action := by
    intro step _ h
    cases step <;> cases h
    exact ⟨_, rfl⟩
  read_iff : ∀ step, step.action = some read ↔ (role step).reads = true := by
    intro step
    cases step <;> simp [Step.action, Role.reads]
  done_of_meets : ∀ {step v outcome}, role step = .write v → step.meets outcome = true →
      outcome = .done := by
    intro step _ outcome h meets
    cases step <;> cases h
    cases outcome <;> simp [Step.meets] at meets ⊢
  value_of_meets : ∀ {step v outcome}, role step = .verify v → step.meets outcome = true →
      value outcome = some v := by
    intro step _ outcome h meets
    cases step <;> cases h
    cases outcome <;> simp_all [Step.meets]
  changed_mark : ∀ snap step,
      changed (snap.mark step) = (changed snap || (role step).writes.isSome) := by
    intro snap step
    cases step <;> simp [Snapshot.mark, Role.writes]
  saved_mark : ∀ snap step, saved (snap.mark step) = saved snap := by
    intro snap step
    cases step <;> rfl
  fresh : changed {} = false ∧ saved {} = none := by exact ⟨rfl, rfl⟩
  role_status : role .status = .foreign := by rfl
  role_waitKeyed : ∀ margin, role (.waitKeyed margin) = .foreign := by exact fun _ => rfl
  snap_power : ∀ snap p, changed { snap with power := some p } = changed snap
    ∧ (role .snapPower = .foreign ∧ saved { snap with power := some p } = saved snap
      ∨ role .snapPower = .snap
        ∧ ∃ v, value (.power p) = some v ∧ saved { snap with power := some p } = some v)
  snap_breakIn : ∀ snap k, changed { snap with breakIn := some k } = changed snap
    ∧ (role .snapBreakIn = .foreign ∧ saved { snap with breakIn := some k } = saved snap
      ∨ role .snapBreakIn = .snap
        ∧ ∃ v, value (.breakIn k) = some v ∧ saved { snap with breakIn := some k } = some v)
  restores : ∀ s : CwSupervisor, ((restorePlan s).map role).filter Role.isOwn
    = if changed s.snap then
        (saved s.snap).toList.flatMap fun v => [.write v, .verify v]
      else
        [] := by
    intro s
    unfold restorePlan
    cases s.snap.powerChanged <;> cases s.snap.power <;> cases s.snap.breakInChanged <;>
      cases s.snap.breakIn <;> rfl
  arms : ∀ send gate, Role.Guarded false false ((armPlan send gate).map role) := by
    intro send gate
    unfold armPlan armPlan.armReads armPlan.armWrites
    cases send.requiresBreakIn <;> simp [Role.Guarded]
  role_isRead : ∀ {step}, step.isRead = true → role step = .snap ∨ role step = .foreign := by
    intro step h
    cases step <;> simp_all [Step.isRead]
  role_isRestoring : ∀ {step}, step.isRestoring = true →
      (role step).isOwn = true ∨ role step = .foreign := by
    intro step h
    cases step <;> simp_all [Step.isRestoring, Role.isOwn]
  not_isKeying : ∀ {step}, (role step).isOwn = true →
      step.isKeying = false ∧ step.isStopping = false := by
    intro step h
    cases step <;> simp_all [Step.isKeying, Step.isStopping, Role.isOwn]
  filtered : ∀ {known written : Bool} {plan : List Step},
    Role.Guarded known written (plan.map role) →
    Role.Guarded known written ((plan.filter fun x => !x.isBreakInWrite).map role)

namespace Setting

def power : Setting Nat where
  role
    | .snapPower => .snap
    | .setPower v => .write v
    | .verifyPower v => .verify v
    | .powerAtMost _ => .look
    | _ => .foreign
  set
    | .setPower v => some v
    | _ => none
  read := .readPower
  value
    | .power p => some p
    | _ => none
  changed := Snapshot.powerChanged
  saved := Snapshot.power
  snap_power _ _ := ⟨rfl, Or.inr ⟨rfl, _, rfl, rfl⟩⟩
  snap_breakIn _ _ := ⟨rfl, Or.inl ⟨rfl, rfl⟩⟩
  filtered h := h.filter_foreign fun x => by
    cases x <;> simp [Step.isBreakInWrite]

def breakIn : Setting BreakInKind where
  role
    | .snapBreakIn => .snap
    | .setBreakIn v => .write v
    | .verifyBreakIn v => .verify v
    | _ => .foreign
  set
    | .setBreakIn v => some v
    | _ => none
  read := .readBreakIn
  value
    | .breakIn k => some k
    | _ => none
  changed := Snapshot.breakInChanged
  saved := Snapshot.breakIn
  snap_power _ _ := ⟨rfl, Or.inl ⟨rfl, rfl⟩⟩
  snap_breakIn _ _ := ⟨rfl, Or.inr ⟨rfl, _, rfl, rfl⟩⟩
  filtered h := h.filter_own (fun x => by cases x <;> rfl) id

end Setting

structure Watch (α : Type) where
  before : Option α := none
  written : Option α := none
  done : Bool := false
  seen : Option α := none

variable {α : Type} {σ : Setting α}

namespace Watch

def wrote (w : Watch α) (v : α) : Watch α :=
  { before := w.before, written := some v }

def saw (w : Watch α) (v : α) : Watch α :=
  if w.written.isSome then { w with seen := some v } else { w with before := some v }

end Watch

def watch (σ : Setting α) : Log → Watch α :=
  observe (fun w e => next w e.event) {}
where
  next (w : Watch α) : Event → Watch α
    | .armed .. => {}
    | .issued action => issued w action
    | .answered _ step outcome => answered w step outcome
    | _ => w
  issued (w : Watch α) (action : CwAction) : Watch α :=
    (σ.set action).elim w w.wrote
  answered (w : Watch α) (step : Step) (outcome : CwOutcome) : Watch α :=
    step.action.elim w (answer w outcome)
  answer (w : Watch α) (outcome : CwOutcome) (action : CwAction) : Watch α :=
    if (σ.set action).isSome then
      { w with done := w.done || outcome == .done }
    else if action = σ.read then
      (σ.value outcome).elim w w.saw
    else
      w

section watch

variable {step : Step} {outcome : CwOutcome} {w : Watch α}

theorem watch.issued_eq {action : CwAction} (h : step.action = some action)
    : issued σ w action = (σ.role step).writes.elim w w.wrote := by
  rw [← σ.set_of_action h]
  rfl

theorem watch.answered_write {v : α} (h : σ.role step = .write v)
    : answered σ w step outcome
        = { w with done := w.done || outcome == .done } := by
  obtain ⟨action, haction⟩ := σ.action_of_write h
  have hset : σ.set action = some v := by rw [σ.set_of_action haction, h, Role.writes]
  simp [answered, answer, haction, hset]

theorem watch.answered_read (h : (σ.role step).reads = true)
    : answered σ w step outcome = (σ.value outcome).elim w w.saw := by
  have haction := (σ.read_iff step).mpr h
  have hset : σ.set σ.read = none := by
    rw [σ.set_of_action haction]
    cases hrole : σ.role step <;> simp_all [Role.writes, Role.reads]
  simp [answered, answer, haction, hset]

theorem watch.answered_foreign (h : σ.role step = .foreign)
    : answered σ w step outcome = w := by
  have hread : step.action ≠ some σ.read := by
    rw [ne_eq, σ.read_iff, h]
    simp [Role.reads]
  unfold answered
  cases haction : step.action with
  | none => rfl
  | some action =>
    have hset : σ.set action = none := by
      rw [σ.set_of_action haction, h]
      rfl
    rw [haction, ne_eq, Option.some.injEq] at hread
    simp [answer, hset, hread]

theorem watch.answered_written
    : (answered σ w step outcome).written = w.written := by
  cases hrole : σ.role step with
  | write v => rw [answered_write hrole]
  | foreign => rw [answered_foreign hrole]
  | _ =>
    rw [answered_read (by rw [hrole]; rfl)]
    cases σ.value outcome with
    | none => rfl
    | some v => simp only [Option.elim_some, Watch.saw]; split <;> rfl

theorem watch.answered_before (hwritten : w.written.isSome = true)
    : (answered σ w step outcome).before = w.before := by
  cases hrole : σ.role step with
  | write v => rw [answered_write hrole]
  | foreign => rw [answered_foreign hrole]
  | _ =>
    rw [answered_read (by rw [hrole]; rfl)]
    cases σ.value outcome <;> simp [Watch.saw, hwritten]

end watch

end Cw
