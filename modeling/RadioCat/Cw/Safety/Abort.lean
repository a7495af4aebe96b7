import RadioCat.Cw.Lemmas.Refine

/-!
This module contains what an abort guarantees: while a job is being sent, the next thing the radio
is told is to stop.
-/

namespace Cw

open Trace

variable {env : Env} {now : Instant} {s s' : CwSupervisor} {evs : List Event}

namespace Abort

def Awaits (outcome : CwOutcome) : Event → Prop
  | .issued _ => False
  | .answered _ _ o => o = outcome
  | _ => True

def First (env : Env) (w : Timed) (outcome : CwOutcome) (P : Option CwAction → Prop) : Prop :=
  ∀ log w', Calls env w log w' → (∀ e ∈ log, Awaits outcome e.event) →
    w'.sup.outstanding = none → ∀ t, w'.now ≤ t → P (nextAction env w'.sup t).2

structure Due (outcome : CwOutcome) (s : CwSupervisor) : Prop where
  activity : ∃ job why message after, s.activity = .stopping job why message after
  plan : ∃ margin, s.plan = [.stop, .waitKeyed margin]
  outstanding : ∀ step ∈ s.outstanding, step.meets outcome = true

theorem Due.move {outcome : CwOutcome} (hd : Due outcome s)
    (hawaits : ∀ e ∈ evs, Awaits outcome e) (h : Move env now s evs s') : Due outcome s' := by
  obtain ⟨⟨job, why, message, after, hact⟩, ⟨margin, hplan⟩, hout⟩ := hd
  cases h with
  | takeNotices | shutdown => exact ⟨⟨_, _, _, _, hact⟩, ⟨_, hplan⟩, hout⟩
  | endStopping => exact ⟨⟨_, _, _, _, rfl⟩, ⟨_, hplan⟩, hout⟩
  | issue => simp [Awaits] at hawaits
  | sentLate | stopAnswered | silenced | snapPower =>
    exact ⟨⟨_, _, _, _, hact⟩, ⟨_, hplan⟩, by simp [CwSupervisor.answered]⟩
  | snapBreakIn =>
    refine ⟨⟨_, _, _, _, hact⟩, ⟨margin, ?_⟩, by simp [CwSupervisor.answered]⟩
    simp [hplan, Step.isBreakInWrite]
  | stopFailed o out unmet =>
    simp only [List.mem_singleton, forall_eq, Awaits] at hawaits
    rw [hawaits, hout _ out] at unmet
    contradiction
  | busy out =>
    simp only [List.mem_singleton, forall_eq, Awaits] at hawaits
    have := hout _ out
    simp [← hawaits, Step.meets] at this
  | overClamp out above =>
    simp only [List.forall_mem_cons, Awaits] at hawaits
    have := hout _ out
    simp [← hawaits.1, Step.meets, Nat.not_le.mpr above] at this
  | keyed _ hplan' => simp [hplan] at hplan'
  | _ => simp_all

theorem Due.nextAction {outcome : CwOutcome} (hd : Due outcome s) (out : s.outstanding = none)
    : (nextAction env s now).2 = some .stop := by
  obtain ⟨⟨job, why, message, after, hact⟩, ⟨margin, hplan⟩, _⟩ := hd
  simp [Cw.nextAction, out, checkTimers, hact, nextAction.go, hplan, Step.action]

theorem due_abort {a : Arm} {job : Job} {outcome : CwOutcome} (hact : s.activity = .sending job)
    (harm : s.arm = some a) (meets : ∀ step ∈ s.outstanding, step.meets outcome = true)
    : Due outcome (abort s) := by
  have heq : abort s = s.stopJob a job .aborted none .stayArmed := by
    rw [← beginStop_sending _ _ _ hact harm]
    simp [abort, hact]
  rw [heq]
  exact ⟨⟨_, _, _, _, rfl⟩, ⟨_, rfl⟩, meets⟩

theorem first_of_due {w : Timed} {outcome : CwOutcome} (hs : Shape w.sup) (hd : Due outcome w.sup)
    : First env w outcome (· = some .stop) := by
  intro log w' hcalls hawaits out t _
  suffices (∀ e ∈ log, Awaits outcome e.event) → Due outcome w'.sup from
    (this hawaits).nextAction out
  have hmoves := Calls.moves hs hcalls
  apply Exec.invariant
    (fun log w' => (∀ e ∈ log, Awaits outcome e.event) → Due outcome w'.sup) _ _ hmoves
  . intro _
    exact hd
  . intro log v evs u ih hstep hawaits
    rw [List.forall_mem_append] at hawaits
    cases hstep with
    | wait => exact ih hawaits.2
    | move h =>
      apply (ih hawaits.2).move _ h
      simpa using hawaits.1

/- The other direction: an answer that is not the one asked for loses the stop. -/

theorem complete_unmet {step : Step} {outcome : CwOutcome} {job : Nat} {why : StopReason}
    {message : Option String} {after : After} (env : Env) (now : Instant)
    (hact : s.activity = .stopping job why message after) (out : s.outstanding = some step)
    (unmet : step.meets outcome = false)
    : complete env s outcome now
          = { s.answered with
              plan := .waitReady :: s.plan
              readyRetryAt := some (now + s.config.tick) }
      ∨ complete env s outcome now = startRestore s.answered .powerAboveClamp none
      ∨ complete env s outcome now
          = { s.answered with
              plan := [.waitKeyed s.config.pacingMargin]
              readyRetryAt := none } := by
  have hfail (error : String) : fail s.answered error now
      = { s.answered with
          plan := [.waitKeyed s.config.pacingMargin]
          readyRetryAt := none } := by
    simp [fail, CwSupervisor.answered, hact]
  unfold complete
  simp only [out]
  split
  next error => exact Or.inr (Or.inr (hfail error))
  next => simp [Step.meets] at unmet
  next => simp [Step.meets] at unmet
  next => simp [Step.meets] at unmet
  next =>
    split
    next h => simp [Step.meets, h] at unmet
    next => exact Or.inr (Or.inr (hfail _))
  next =>
    split
    next => exact Or.inr (Or.inl (beginStop_restore _ _ (by simp [hact])))
    next h => simp [Step.meets, Nat.le_of_not_lt h] at unmet
  next => simp [Step.meets] at unmet
  next =>
    split
    next h => simp [Step.meets, h] at unmet
    next => exact Or.inr (Or.inr (hfail _))
  next => simp [Step.meets] at unmet
  next => simp [Step.meets] at unmet
  next => simp [Step.meets] at unmet
  next => simp [Step.meets] at unmet
  next => exact Or.inl rfl
  next => simp [Step.meets] at unmet
  next => exact Or.inr (Or.inr (hfail _))

theorem go_keyed {margin : Duration} {rest : List Step} {fuel : Nat}
    (hplan : s.plan = .waitKeyed margin :: rest) (due : ∀ u ∈ s.keyedUntil, u + margin ≤ now)
    : nextAction.go now (fuel + 1) s = nextAction.go now fuel { s with plan := rest } := by
  have hwait : s.keyedUntil.any (now < · + margin) = false := by
    cases hk : s.keyedUntil with
    | none => rfl
    | some u => simpa using due u hk
  simp [nextAction.go, hplan, hwait]

theorem go_restorePlan {p : Nat} (fuel : Nat) (hplan : s.plan = restorePlan s)
    (changed : s.snap.powerChanged = true) (hp : s.snap.power = some p)
    (due : ∀ u ∈ s.keyedUntil, u + s.config.pacingMargin ≤ now)
    : (nextAction.go now (fuel + 2) s).2 = some (.setPower p) := by
  have hplan' : ∃ rest, s.plan = .waitKeyed s.config.pacingMargin :: .setPower p :: rest := by
    rw [hplan]
    simp [restorePlan, changed, hp]
  obtain ⟨rest, hplan'⟩ := hplan'
  rw [go_keyed hplan' due]
  simp [nextAction.go, Step.action]

theorem awaits_shown {c : Call} {outcome : CwOutcome} (hnext : c ≠ .nextAction)
    (hans : ∀ o, c = .complete o → o = outcome)
    : ∀ e ∈ c.shown env now s, Awaits outcome e := by
  intro e he
  simp only [Call.shown, List.mem_append, List.mem_map] at he
  rcases he with ((he | he) | ⟨n, _, rfl⟩) | he
  . cases c with
    | complete o =>
      simp only [Call.run] at he
      split at he
      . rw [List.mem_singleton] at he
        rw [he]
        exact hans o rfl
      . simp at he
    | arm | send | disarm =>
      simp only [Call.run] at he
      split at he
      . rw [List.mem_singleton] at he
        rw [he]
        trivial
      . simp at he
    | _ => simp [Call.run] at he
  . unfold Call.stopped at he
    split at he
    . rw [List.mem_singleton] at he
      rw [he]
      trivial
    . simp at he
  . trivial
  . cases c with
    | nextAction => contradiction
    | _ => simp [Call.run] at he

theorem First.call {w : Timed} {outcome : CwOutcome} {P : Option CwAction → Prop}
    (h : First env w outcome P) (c : Call) (hnext : c ≠ .nextAction)
    (hans : ∀ o, c = .complete o → o = outcome)
    : First env ⟨w.now, (c.run env w.now w.sup).1⟩ outcome P := by
  intro log w' hcalls hawaits
  have hcall : CallStep env w _ _ := CallStep.call c w w.now (Nat.le_refl _)
  apply h _ w' ((Exec.single hcall).trans hcalls)
  intro e he
  rw [List.mem_append, List.mem_reverse, List.mem_map] at he
  rcases he with he | ⟨e', he, rfl⟩
  . exact hawaits e he
  . exact awaits_shown hnext hans e' he

theorem First.after {outcome : CwOutcome} {P : Option CwAction → Prop}
    (h : First env ⟨now, s⟩ outcome P) (out : s.outstanding = none) (d : Duration)
    : P (nextAction env s (now + d)).2 :=
  h [] ⟨now, s⟩ (Exec.refl _) (by simp) out _ (Nat.le_add_right now d)

theorem nextAction_of_restoring {p : Nat} {reason : DisarmReason} {ticket : Option Ticket}
    (s : CwSupervisor) (t : Instant) (out : s.outstanding = none)
    (changed : s.snap.powerChanged = true) (hp : s.snap.power = some p)
    (due : ∀ u ∈ s.keyedUntil, u + s.config.pacingMargin ≤ t)
    : (nextAction env (startRestore s reason ticket) t).2 = some (.setPower p) := by
  have hgo := go_restorePlan (s := startRestore s reason ticket) 62 rfl changed hp due
  rw [← hgo]
  unfold nextAction
  rw [if_neg]
  . rfl
  . simp [startRestore, planRestore, out]

theorem nextAction_of_disarmed {p job : Nat} {reason : DisarmReason} {ticket : Option Ticket}
    {why : StopReason} {message : Option String} (s : CwSupervisor) (t : Instant)
    (out : s.outstanding = none)
    (hact : s.activity = .stopping job why message (.restore reason ticket))
    (hplan : s.plan = [.waitKeyed s.config.pacingMargin])
    (changed : s.snap.powerChanged = true) (hp : s.snap.power = some p)
    (due : ∀ u ∈ s.keyedUntil, u + s.config.pacingMargin ≤ t)
    : (nextAction env s t).2 = some (.setPower p) := by
  have hfinish : finish { s with plan := [] } t
      = (startRestore (endJob { s with plan := [] } job why message) reason ticket, true) :=
    finish_stoppingRestore hact
  have hgo := go_restorePlan
    (s := startRestore (endJob { s with plan := [] } job why message) reason ticket) 60
    rfl changed hp due
  unfold nextAction
  rw [if_neg (by simp [out])]
  have htimers : checkTimers env s t = s := by
    simp [checkTimers, hact]
  rw [htimers, go_keyed hplan due]
  unfold nextAction.go
  simp only [hfinish]
  exact hgo

theorem meets_of_first {a : Arm} {job : Job} {step : Step} {outcome : CwOutcome} (hs : Shape s)
    (hact : s.activity = .sending job) (harm : s.arm = some a) (out : s.outstanding = some step)
    (hfirst : First env ⟨now, abort s⟩ outcome (fun res => ∀ action ∈ res, action = .stop))
    : step.meets outcome = true := by
  by_contra hunmet
  have habort : abort s = s.stopJob a job .aborted none .stayArmed := by
    rw [← beginStop_sending _ _ _ hact harm]
    simp [abort, hact]
  obtain ⟨_, ⟨_, _, changed, p, hp⟩, _⟩ := hs.of_sending hact
  rw [habort] at hfirst
  generalize hstopped : s.stopJob a job .aborted none .stayArmed = s₁ at hfirst
  have hact₁ : s₁.activity = .stopping job.id .aborted none .stayArmed := by
    rw [← hstopped]
    rfl
  have hanswer : First env ⟨now, complete env s₁ outcome now⟩ outcome _ :=
    hfirst.call (.complete outcome) (by simp) (by simp)
  have changed₁ : s₁.snap.powerChanged = true := by rwa [← hstopped]
  have hp₁ : s₁.snap.power = some p := by rwa [← hstopped]
  have out₁ : s₁.outstanding = some step := by rwa [← hstopped]
  have hlate : ∃ d, ∀ u ∈ s₁.keyedUntil, u + s₁.config.pacingMargin ≤ now + d := by
    refine ⟨s₁.keyedUntil.getD 0 + s₁.config.pacingMargin, ?_⟩
    intro u hu
    rw [Option.mem_def] at hu
    grind
  obtain ⟨d, hlate⟩ := hlate
  rcases complete_unmet env now hact₁ out₁ (by simpa using hunmet) with heq | heq | heq
  . -- The radio is asked again whether it is ready.
    rw [heq] at hanswer
    have hready := hanswer.after rfl s₁.config.tick
    simp [nextAction, CwSupervisor.answered, checkTimers, hact₁, nextAction.go] at hready
  . rw [heq] at hanswer
    have hset := hanswer.after rfl d (.setPower p)
      (nextAction_of_restoring s₁.answered _ rfl changed₁ hp₁ hlate)
    contradiction
  . -- The stop is gone, and a disarm ends the arm without one.
    rw [heq] at hanswer
    have harm₁ : s₁.arm.map Arm.owner = some a.owner := by
      rw [← hstopped]
      rfl
    obtain ⟨b, harm₁, howner⟩ := Option.map_eq_some_iff.mp harm₁
    have hdisarm : First env ⟨now, (disarm _ a.owner).1⟩ outcome _ :=
      hanswer.call (.disarm a.owner) (by simp) (by simp)
    have hrun : (disarm { s₁.answered with
        plan := [.waitKeyed s₁.config.pacingMargin], readyRetryAt := none } a.owner).1
        = { s₁.answered with
            plan := [.waitKeyed s₁.config.pacingMargin]
            readyRetryAt := none
            nextTicket := s₁.nextTicket + 1
            activity := .stopping job.id .aborted none
              (.restore .requested (some s₁.nextTicket)) } := by
      simp [disarm, CwSupervisor.answered, harm₁, howner, hact₁, ticket, endArm]
    rw [hrun] at hdisarm
    have hset := hdisarm.after rfl d (.setPower p)
      (nextAction_of_disarmed _ _ rfl rfl rfl changed₁ hp₁ hlate)
    contradiction

end Abort

theorem abort_stops_next {capability : CwCapability} {config : CwConfig} {log : Log} {w : Timed}
    {job : Job} (h : Run env capability config log w) (hact : w.sup.activity = .sending job)
    (outcome : CwOutcome) {t : Instant}
    : (Abort.First env ⟨t, abort w.sup⟩ outcome (fun res => ∀ action ∈ res, action = .stop)
        ↔ ∀ step ∈ w.sup.outstanding, step.meets outcome = true)
      ∧ ((∀ step ∈ w.sup.outstanding, step.meets outcome = true) →
        Abort.First env ⟨t, abort w.sup⟩ outcome (· = some .stop)) := by
  obtain ⟨⟨a, harm⟩, _⟩ := h.shape.of_sending hact
  have hcall : CallStep env w _ ⟨w.now, abort w.sup⟩ := CallStep.call .abort w w.now (Nat.le_refl _)
  have hs : Shape (abort w.sup) := Calls.shape h.shape (Exec.single hcall)
  have hstops : (∀ step ∈ w.sup.outstanding, step.meets outcome = true) →
      Abort.First env ⟨t, abort w.sup⟩ outcome (· = some .stop) := by
    intro meets
    exact Abort.first_of_due hs (Abort.due_abort hact harm meets)
  refine ⟨⟨?_, ?_⟩, hstops⟩
  . intro hfirst step out
    exact Abort.meets_of_first h.shape hact harm out hfirst
  . intro meets log w' hcalls hawaits out t' le action haction
    have := hstops meets log w' hcalls hawaits out t' le
    simpa [this, eq_comm] using haction

theorem abort_stops_next_kenwood
    : Abort.First Bench.env ⟨0, abort (Bench.run Bench.kenwood Bench.kenwoodKeying).2.sup⟩ .done
        (· = some .stop) :=
  (abort_stops_next (Bench.isRun Bench.kenwood Bench.kenwoodKeying) rfl .done).2 (by decide)

theorem abort_failed_chunk
    : let w := (Bench.run Bench.kenwood Bench.kenwoodKeying).2
      (∃ job, w.sup.activity = .sending job)
        ∧ (play Bench.env w
            [(0, .abort), (0, .complete (.failed "timeout")), (0, .disarm 1),
              (.fromSecs 10, .nextAction)]).1.actions = [.setPower 100] := by
  refine ⟨⟨_, rfl⟩, ?_⟩
  decide

end Cw
