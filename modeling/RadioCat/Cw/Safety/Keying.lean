import RadioCat.Cw.Lemmas.Refine

/-!
This module contains the keying of a run: when the chunks handed to the radio would have keyed, one
after another.
-/

namespace Cw

open Trace

def keyingEnd (env : Env) (counted : CwOutcome → Bool) (discount : Bool)
    : Log → Option Instant :=
  -- A chunk starts to key no earlier than it is answered, and with `discount` a stop done by a
  -- radio that has one silences what came before it.
  observe next none
where
  next (u : Option Instant) (e : Entry) : Option Instant :=
    match e.event with
    | .answered s (.send chunk) outcome =>
      if counted outcome then
        some (max (u.getD e.time) e.time + env.estimate chunk.text s.speed)
      else
        u
    | .answered s .stop .done =>
      if discount && s.sendText.map CwSendText.abort == some .radioStop then none else u
    | _ => u

def acknowledged (outcome : CwOutcome) : Bool :=
  outcome == .done

def lostChunk : Log → Bool :=
  -- A chunk that was not acknowledged may have reached the radio all the same.
  observe next false
where
  next (lost : Bool) (e : Entry) : Bool :=
    match e.event with
    | .answered _ (.send _) outcome => lost || !acknowledged outcome
    | .answered s .stop .done =>
      if s.sendText.map CwSendText.abort == some .radioStop then false else lost
    | _ => lost

section keyingEnd

variable {env : Env} {now : Instant} {s s' : CwSupervisor} {evs : List Event} {discount : Bool}
  {log : Log}

theorem onSent_start_eq (s : CwSupervisor) (now : Instant)
    : onSent.start now s = max (s.keyedUntil.getD now) now := by
  unfold onSent.start
  cases s.keyedUntil with
  | none => simp
  | some t => grind

theorem keyingEnd.next_plain (e : Event) (u : Option Instant) (plain : e.isPlain = true)
    : next env acknowledged discount u ⟨now, e⟩ = u := by
  cases e with
  | answered s step outcome =>
    cases step <;> cases outcome <;>
      simp_all [next, Event.isPlain, Step.records, acknowledged]
  | _ => rfl

theorem Move.keyedUntil
    (hdis : discount = true ∨ s.sendText.map CwSendText.abort ≠ some .radioStop)
    (hI : keyingEnd env acknowledged discount log = s.keyedUntil)
    (h : Move env now s evs s')
    : keyingEnd env acknowledged discount ((evs.map (Entry.mk now)).reverse ++ log)
        = s'.keyedUntil := by
  unfold keyingEnd at hI ⊢
  cases h with
  | sent out | sentLate out =>
    rw [observe_single, hI]
    simp [keyingEnd.next, acknowledged, CwSupervisor.keyedWith, onSent_start_eq]
  | silenced out =>
    rw [observe_single, hI]
    rcases hdis with rfl | hdis
    . simp [keyingEnd.next]
    . simp [keyingEnd.next, hdis]
  | arm | send | issue | snapPower | snapBreakIn =>
    refine (Skips.observe ?_).trans hI
    simp [keyingEnd.next]
  | _ =>
    refine (Plain.skips keyingEnd.next_plain ?_).observe.trans hI
    simp [Event.isPlain, Request.plain_events, Cause.plain_events, CwSupervisor.owedNotice, *]

theorem Run.keyedUntil {capability : CwCapability} {config : CwConfig} {w : Timed}
    (h : Run env capability config log w)
    (hdis : discount = true ∨ capability.sendText.map CwSendText.abort ≠ some .radioStop)
    : keyingEnd env acknowledged discount log = w.sup.keyedUntil := by
  suffices keyingEnd env acknowledged discount log = w.sup.keyedUntil
      ∧ w.sup.sendText = capability.sendText from this.1
  apply Run.invariant
    (fun log _ s => keyingEnd env acknowledged discount log = s.keyedUntil
      ∧ s.sendText = capability.sendText) _ _ _ h
  . exact ⟨rfl, rfl⟩
  . intro _ _ _ _ hI _
    exact hI
  . intro _ _ _ _ _ _ hI hmove
    refine ⟨hmove.keyedUntil ?_ hI.1, hmove.sameRadio.1.trans hI.2⟩
    rwa [hI.2]

theorem keyingEnd.next_eq {lost : Bool} {u v : Option Instant} {e : Entry}
    (h : lost = false → u = v) (hnext : lostChunk.next lost e = false)
    : next env (fun _ => true) true u e = next env acknowledged true v e := by
  obtain ⟨t, e⟩ := e
  cases e with
  | answered s step outcome =>
    cases step with
    | send chunk =>
      simp only [lostChunk.next, Bool.or_eq_false_iff, Bool.not_eq_false'] at hnext
      simp [next, h hnext.1, hnext.2]
    | stop =>
      cases outcome with
      | done =>
        simp only [lostChunk.next] at hnext
        simp only [next, Bool.true_and]
        split at hnext
        next hstop => simp [hstop]
        next hstop => simp [hstop, h hnext]
      | _ => exact h hnext
    | _ => exact h hnext
  | _ => exact h hnext

theorem keyingEnd_of_not_lost (h : lostChunk log = false)
    : keyingEnd env (fun _ => true) true log = keyingEnd env acknowledged true log := by
  induction log with
  | nil => rfl
  | cons e log ih => exact keyingEnd.next_eq ih h

end keyingEnd

def Quiet (now : Instant) (s : CwSupervisor) : Prop :=
  ∀ u ∈ s.keyedUntil, u ≤ now

def Waits (s : CwSupervisor) : Prop :=
  s.outstanding = none
    ∧ ∃ reason ticket attempts lastError retryAt,
      s.activity = .restoring reason ticket attempts lastError retryAt
        ∧ ((∃ margin rest, s.plan = .waitKeyed margin :: rest) ∨ s.plan = [] ∧ retryAt ≠ none)

def Drained (now : Instant) (s : CwSupervisor) : Prop :=
  s.arm = none → Quiet now s ∨ Waits s

section Drained

variable {env : Env} {now : Instant} {s s' : CwSupervisor} {evs : List Event}

theorem waits_startRestore (reason : DisarmReason) (ticket : Option Ticket)
    (out : s.outstanding = none) : Waits (startRestore s reason ticket) :=
  ⟨out, _, _, _, _, _, rfl, Or.inl ⟨_, _, rfl⟩⟩

theorem not_waits {step : Step} (out : s.outstanding = some step) : ¬Waits s := by
  simp [Waits, out]

theorem Quiet.mono {t : Instant} (h : Quiet now s) (le : now ≤ t) : Quiet t s :=
  fun u hu => Nat.le_trans (h u hu) le

theorem Move.drained (hs : Shape s) (hd : Drained now s) (h : Move env now s evs s')
    : Drained now s' := by
  have hquiet (harm : s.arm = none) (hwaits : ¬Waits s) : Quiet now s :=
    (hd harm).resolve_right hwaits
  intro harm'
  cases h with
  | takeNotices | shutdown => exact hd harm'
  -- An arm is held.
  | send | stop | stopAnswer | finishArming | finishSending | finishStopping | sent =>
    simp [CwSupervisor.stopJob] at harm'
  | endStopping r reason hact | sentLate out hact | stopAnswered outcome out _ _ hact
  | stopFailed outcome out _ _ hact =>
    obtain ⟨⟨a, harm⟩, _⟩ := hs.of_stopping hact
    cases harm.symm.trans harm'
  | planned _ _ _ hact harm | replanned _ _ _ _ hact harm =>
    simp [CwSupervisor.withSpeed, CwSupervisor.answered, harm] at harm'
  | sameSpeed _ _ out hact harm => cases harm.symm.trans harm'
  | sendAnswer outcome out _ _ _ hact =>
    obtain ⟨⟨a, harm⟩, _⟩ := hs.of_sending hact
    cases harm.symm.trans harm'
  | busy out | silenced out =>
    rcases hs.of_keying out rfl rfl with ⟨job, hact⟩ | ⟨_, _, _, _, hact⟩
    . obtain ⟨⟨a, harm⟩, _⟩ := hs.of_sending hact
      cases harm.symm.trans harm'
    . obtain ⟨⟨a, harm⟩, _⟩ := hs.of_stopping hact
      cases harm.symm.trans harm'
  -- A restore starts, or starts again.
  | endIdle r reason hact harm =>
    obtain ⟨_, out, _⟩ := hs.of_armed hact harm
    exact Or.inr (waits_startRestore reason _ out)
  | finishStoppingRestore out => exact Or.inr (waits_startRestore _ _ out)
  | overClamp out => exact Or.inr (waits_startRestore _ _ rfl)
  | retry out => exact Or.inr ⟨out, _, _, _, _, _, rfl, Or.inl ⟨_, _, rfl⟩⟩
  | restoreFailed => exact Or.inr ⟨rfl, _, _, _, _, _, rfl, Or.inr ⟨rfl, by simp⟩⟩
  -- The restore has waited.
  | keyed out hplan due =>
    left
    intro u hu
    exact Nat.le_trans (Nat.le_add_right u _) (due u hu)
  | issue out hplan haction =>
    refine Or.inl (hquiet harm' ?_)
    rintro ⟨_, _, _, _, _, _, _, ⟨margin, rest, h⟩ | ⟨h, _⟩⟩
    . rw [hplan, List.cons.injEq] at h
      simp [h.1, Step.action] at haction
    . simp [hplan] at h
  | finishRestoring out hplan hact =>
    obtain ⟨harm, _⟩ := hs.of_restoring hact
    exact Or.inl (hquiet harm (by simp [Waits, hplan, hact]))
  -- Nothing was keyed since the last restore.
  | arm _ _ _ _ _ _ _ hact harm => exact Or.inl (hquiet harm (by simp [Waits, hact]))
  | refuse c r _ hact | refuseRestore c r _ hact =>
    obtain ⟨harm, _⟩ := hs.of_arming hact
    exact Or.inl (hquiet harm (by simp [Waits, hact]))
  | idleAnswer outcome out | snapPower p out | snapBreakIn k out | armStatus _ out
  | armAnswer outcome out | restoreAnswer outcome out =>
    exact Or.inl (hquiet harm' (not_waits out))

theorem Run.drained {capability : CwCapability} {config : CwConfig} {log : Log} {w : Timed}
    (h : Run env capability config log w) : Drained w.now w.sup := by
  apply Run.invariant (fun _ now s => Drained now s) _ _ _ h
  . intro _
    left
    simp [Quiet, new]
  . intro _ _ _ _ hI le harm
    exact (hI harm).imp_left (Quiet.mono · le)
  . intro _ _ _ _ _ hs hI hmove
    exact hmove.drained hs hI

end Drained

section

variable {env : Env} {capability : CwCapability} {config : CwConfig} {log : Log} {w : Timed}

theorem keyingEnd_nextAction {counted : CwOutcome → Bool} {discount : Bool} {t : Instant}
    {s : CwSupervisor}
    : keyingEnd env counted discount
        (((Call.nextAction.shown env t s).map (Entry.mk t)).reverse ++ log)
        = keyingEnd env counted discount log := by
  apply Skips.observe
  intro e he u
  rcases mem_shown_nextAction he with ⟨_, _, rfl⟩ | ⟨_, rfl⟩ | ⟨_, rfl⟩ <;> rfl

theorem restore_waits_for_keying {t : Instant} {p : Nat} {reason : DisarmReason}
    {ticket : Option Ticket} {attempts : Nat} {lastError : Option String}
    {retryAt : Option Instant} (h : Run env capability config log w) (le : w.now ≤ t)
    (hnext : (nextAction env w.sup t).2 = some (.setPower p))
    (hact : (nextAction env w.sup t).1.activity
      = .restoring reason ticket attempts lastError retryAt)
    (hlost : lostChunk log = false)
    : ∀ u ∈ keyingEnd env (fun _ => true) true log, u ≤ t := by
  have hcall : CallStep env w _ ⟨t, (nextAction env w.sup t).1⟩ := CallStep.call .nextAction w t le
  have hrun : Run env capability config _ ⟨t, (nextAction env w.sup t).1⟩ := Exec.tail h hcall
  have hend := (keyingEnd_of_not_lost hlost).trans
    (keyingEnd_nextAction.symm.trans (hrun.keyedUntil (Or.inl rfl)))
  obtain ⟨step, out, _⟩ := nextAction_outstanding hnext
  have harm := (hrun.shape.of_restoring hact).1
  rw [hend]
  exact (hrun.drained harm).resolve_right (not_waits out)

theorem restore_waits_for_keying_kenwood
    : let script := Bench.kenwoodKeying ++ [(0, .complete .done), (0, .disarm 1)]
        ++ Bench.exchange [.done]
      ∀ u ∈ keyingEnd Bench.env (fun _ => true) true (Bench.run Bench.kenwood script).1,
        u ≤ Duration.fromSecs 10 :=
  restore_waits_for_keying (Bench.isRun Bench.kenwood _) (by decide) (p := 100) rfl rfl (by decide)

theorem restore_under_failed_chunk
    : let script := Bench.kenwoodKeying ++ [(0, .complete (.failed "timeout"))]
        ++ Bench.exchange [.done] ++ [(0, .disarm 1)]
      let res := Bench.run Bench.kenwood script
      res.2.now = 0 ∧ (nextAction Bench.env res.2.sup 0).2 = some (.setPower 100)
        ∧ (nextAction Bench.env res.2.sup 0).1.activity
          = .restoring .requested (some 2) 0 none none
        ∧ keyingEnd Bench.env (fun _ => true) true res.1 = some (Duration.fromSecs 2) := by
  -- The power is back at once, while the estimate of the chunk has two seconds to go.
  decide

end

end Cw
