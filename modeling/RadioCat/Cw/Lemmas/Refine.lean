import RadioCat.Cw.Lemmas.Shape
import RadioCat.Cw.Lemmas.Calls

/-!
This module contains the refinement of the calls by the moves: from a state that has its shape,
whatever a call does and shows is done and shown by moves at the time of the call.
-/

namespace Cw

open Trace

variable {env : Env} {now : Instant} {s s' : CwSupervisor} {asked issued evs : List Event}

def Effect (env : Env) (now : Instant) (s : CwSupervisor) (asked : List Event) (s' : CwSupervisor)
    (issued : List Event) : Prop :=
  Exec (Move env now) s
    (asked ++ Call.stopped s s' ++ (Call.emitted s s').map Event.notice ++ issued).reverse s'

theorem emitted_eq {new : List CwNotice} (h : s'.notices = s.notices ++ new)
    : Call.emitted s s' = new := by
  simp [Call.emitted, h]

theorem emitted_self (h : s'.notices = s.notices) : Call.emitted s s' = [] := by
  simp [Call.emitted, h]

theorem stopped_of_not_sending (h : ∀ job, s.activity ≠ .sending job) : Call.stopped s s' = [] := by
  unfold Call.stopped
  split
  next hact _ _ => exact absurd hact (h _)
  next => rfl

theorem stopped_of_not_stopping (h : ∀ job why message after,
    s'.activity ≠ .stopping job why message after) : Call.stopped s s' = [] := by
  unfold Call.stopped
  split
  next hact _ => exact absurd hact (h _ _ _ _)
  next => rfl

theorem stopped_same (h : s'.activity = s.activity) : Call.stopped s s' = [] := by
  cases hact : s.activity with
  | sending job => exact stopped_of_not_stopping (by simp [h, hact])
  | _ => exact stopped_of_not_sending (by simp [hact])

theorem stopped_eq {job : Job} {a : Arm} {id : Nat} {why : StopReason} {message : Option String}
    {after : After} (hact : s.activity = .sending job) (harm : s.arm = some a)
    (hact' : s'.activity = .stopping id why message after)
    : Call.stopped s s' = [.stopped a.callsign job] := by
  simp [Call.stopped, hact, harm, hact']

namespace Effect

theorem refl (s : CwSupervisor) : Effect env now s [] s [] := by
  unfold Effect
  rw [stopped_same rfl, emitted_self rfl]
  exact Exec.refl s

theorem move (st : List Event) (new : List CwNotice) (h : Move env now s evs s')
    (hst : Call.stopped s s' = st) (hnew : s'.notices = s.notices ++ new)
    (hevs : evs = asked ++ st ++ new.map Event.notice ++ issued)
    : Effect env now s asked s' issued := by
  unfold Effect
  rw [hst, emitted_eq hnew, ← hevs]
  exact Exec.single h

theorem quiet (h : Move env now s asked s') (hst : Call.stopped s s' = [])
    (hnotices : s'.notices = s.notices) : Effect env now s asked s' [] := by
  apply Effect.move [] [] h hst
  . rw [hnotices, List.append_nil]
  . simp

theorem unsent (h : Move env now s asked s') (hact : ∀ job, s.activity ≠ .sending job)
    (hnotices : s'.notices = s.notices) : Effect env now s asked s' [] := by
  apply Effect.quiet h
  . exact stopped_of_not_sending hact
  . exact hnotices

theorem after {s₁ : CwSupervisor} (h : Move env now s [] s₁) (hact : s₁.activity = s.activity)
    (harm : s₁.arm = s.arm) (hnotices : s₁.notices = s.notices)
    (heff : Effect env now s₁ asked s' issued) : Effect env now s asked s' issued := by
  have hst : Call.stopped s s' = Call.stopped s₁ s' := by
    simp only [Call.stopped, hact, harm]
  have hem : Call.emitted s s' = Call.emitted s₁ s' := by
    simp only [Call.emitted, hnotices]
  unfold Effect
  rw [hst, hem]
  have := (Exec.single h).trans heff
  rwa [List.reverse_nil, List.append_nil] at this

end Effect

theorem moves_of_exec {log : List Event} (h : Exec (Move env now) s log s')
    : Moves env ⟨now, s⟩ (log.map (Entry.mk now)) ⟨now, s'⟩ := by
  induction h with
  | refl => exact Exec.refl _
  | tail _ last ih =>
    rw [List.map_append, List.map_reverse]
    exact Exec.tail ih (MoveStep.move last)

theorem arm_effect (hs : Shape s) (owner : ConsoleId) (callsign : Text) (keyDownCapS : Option Nat)
    : Effect env now s ((Call.arm owner callsign keyDownCapS).run env now s).2.1
        ((Call.arm owner callsign keyDownCapS).run env now s).1 [] := by
  simp only [Call.run]
  rcases arm_cases s owner callsign keyDownCapS
    with ⟨r, heq⟩ | ⟨send, gate, cap, hcap, hsend, hgate, hup, hfree, hact, heq⟩
  . rw [heq]
    exact Effect.refl s
  . have hidle := hs.idle_of_free hfree hact
    rw [heq]
    apply Effect.unsent (Move.arm owner callsign cap hcap hsend hgate hup hidle.1 hidle.2)
    . simp [hidle]
    . rfl

theorem send_effect (owner : ConsoleId) (text : Text)
    : Effect env now s ((Call.send owner text).run env now s).2.1
        ((Call.send owner text).run env now s).1 [] := by
  simp only [Call.run]
  rcases send_cases env s owner text now
    with ⟨r, heq⟩ | ⟨a, harm, howner, hact, hwords, hest, heq⟩
  . rw [heq]
    exact Effect.refl s
  . rw [heq, ← howner]
    apply Effect.unsent (Move.send text hwords hest hact harm)
    . simp [hact]
    . rfl

theorem endArm_effect {a : Arm} (hs : Shape s) (r : Request) (reason : DisarmReason)
    (stop : StopReason) (hstop : stop ≠ .completed) (harm : s.arm = some a)
    (free : ∀ job why message reason' ticket',
      s.activity = .stopping job why message (.restore reason' (some ticket')) → r = .other)
    : Effect env now s (r.events s) (endArm (r.apply s) reason stop (r.ticket s)) [] := by
  cases hact : s.activity with
  | idle =>
    have heq : endArm (r.apply s) reason stop (r.ticket s)
        = startRestore (r.apply s) reason (r.ticket s) := by
      simp [endArm, Request.apply, hact]
    rw [heq]
    apply Effect.move [] (s.owedNotice reason) (Move.endIdle r reason hact harm)
    . exact stopped_of_not_sending (by simp [hact])
    . exact startRestore_notices (s := r.apply s) harm _ _
    . simp
  | arming => cases hs <;> simp_all
  | restoring => cases hs <;> simp_all
  | sending job =>
    have heq : endArm (r.apply s) reason stop (r.ticket s)
        = (r.apply s).stopJob a job stop none (.restore reason (r.ticket s)) := by
      rw [← beginStop_sending (s := r.apply s) _ _ _ hact harm]
      simp [endArm, Request.apply, hact]
    rw [heq]
    apply Effect.move _ []
      (Move.stop r stop none (.restore reason (r.ticket s)) rfl hstop hact harm)
      (stopped_eq hact harm rfl)
    . simp [CwSupervisor.stopJob, Request.apply]
    . simp
  | stopping job why message after =>
    by_cases hafter : after.ticket = none
    . rw [endArm_stopping (s := r.apply s) reason stop (r.ticket s) hact hafter]
      apply Effect.unsent (Move.endStopping r reason hact hafter)
      . simp [hact]
      . rfl
    . rcases after with _ | ⟨existing, _ | t⟩
      . simp [After.ticket] at hafter
      . simp [After.ticket] at hafter
      . rw [endArm_disarming (s := r.apply s) reason stop (r.ticket s) hact]
        cases free _ _ _ _ _ hact
        exact Effect.refl s

theorem disarm_effect (hs : Shape s) (owner : ConsoleId)
    : Effect env now s ((Call.disarm owner).run env now s).2.1
        ((Call.disarm owner).run env now s).1 [] := by
  simp only [Call.run]
  rcases disarm_cases s owner with ⟨r, heq⟩ | ⟨a, harm, howner, hact, heq⟩
  . rw [heq]
    exact Effect.refl s
  . rw [heq]
    apply endArm_effect hs (.disarm owner) .requested .aborted (by simp) harm
    intro job why message reason ticket h
    exact absurd h (hact _ _ _ _ _)

theorem abort_effect (hs : Shape s) : Effect env now s [] (abort s) [] := by
  unfold abort
  split
  next job hact =>
    obtain ⟨⟨a, harm⟩, _⟩ := hs.of_sending hact
    rw [beginStop_sending _ _ _ hact harm]
    apply Effect.move _ [] (Move.stop .other .aborted none .stayArmed rfl (by simp) hact harm)
      (stopped_eq hact harm rfl)
    . simp [CwSupervisor.stopJob, Request.apply]
    . rfl
  next => exact Effect.refl s

theorem refuseArm_effect {ticket : Ticket} {owner : ConsoleId} {callsign : Text}
    {cap : Duration} {wpm : Nat} (hs : Shape s) (c : Cause) (code : ErrorCode) (message : String)
    (valid : c.Valid s) (hact : s.activity = .arming ticket owner callsign cap wpm)
    : Effect env now s (c.events s) (refuseArm (c.apply s) code message) [] := by
  obtain ⟨harm, _⟩ := hs.of_arming hact
  cases hclean : s.snap.powerChanged || s.snap.breakInChanged with
  | false =>
    rw [refuseArm_clean (s := c.apply s) code message hact hclean]
    apply Effect.move [] [.reply ticket (.error (refusal code message))]
      (Move.refuse c (refusal code message) valid hact hclean)
    . exact stopped_of_not_sending (by simp [hact])
    . rfl
    . simp
  | true =>
    rw [refuseArm_changed (s := c.apply s) code message hact harm hclean]
    apply Effect.move [] [.reply ticket (.error (refusal code message))]
      (Move.refuseRestore c (refusal code message) valid hact harm hclean)
    . exact stopped_of_not_sending (by simp [hact])
    . rfl
    . simp

theorem detached_effect (hs : Shape s) (id : ConsoleId)
    : Effect env now s [] (detached s id) [] := by
  unfold detached
  split
  next hact =>
    split
    next => exact refuseArm_effect hs .request _ _ (Cause.valid_request s) hact
    next => exact Effect.refl s
  next =>
    split
    next hany =>
      cases harm : s.arm with
      | none => simp [harm] at hany
      | some a => exact endArm_effect hs .other _ _ (by simp) harm (fun _ _ _ _ _ _ => rfl)
    next => exact Effect.refl s

theorem shutdown_effect (hs : Shape s) : Effect env now s [] (shutdown s) [] := by
  have hs₁ := hs.bookkeeping s.notices true
  apply Effect.after (Move.shutdown s) rfl rfl rfl
  unfold shutdown
  dsimp only
  split
  next hact => exact refuseArm_effect hs₁ .request _ _ (Cause.valid_request _) hact
  next =>
    split
    next hsome =>
      obtain ⟨a, harm⟩ := Option.isSome_iff_exists.mp hsome
      exact endArm_effect hs₁ .other _ _ (by simp) harm (fun _ _ _ _ _ _ => rfl)
    next => exact Effect.refl _

structure Advance (env : Env) (now : Instant) (s s' : CwSupervisor) (action : Option CwAction)
    : Prop where
  notices : ∃ new, s'.notices = s.notices ++ new
    ∧ Exec (Move env now) s
        (new.map Event.notice ++ (action.map Event.issued).toList).reverse s'
  stopping : ∀ job why message after, s'.activity = .stopping job why message after →
    s.activity = .stopping job why message after

namespace Advance

variable {action : Option CwAction}

theorem refl (s : CwSupervisor) : Advance env now s s none :=
  ⟨⟨[], by simp, Exec.refl s⟩, fun _ _ _ _ h => h⟩

theorem head {s₁ : CwSupervisor} (new : List CwNotice)
    (h : Move env now s (new.map Event.notice) s₁) (hnew : s₁.notices = s.notices ++ new)
    (hstop : ∀ job why message after, s₁.activity = .stopping job why message after →
      s.activity = .stopping job why message after)
    (rest : Advance env now s₁ s' action) : Advance env now s s' action := by
  obtain ⟨⟨new', hnew', hexec⟩, hstop'⟩ := rest
  refine ⟨⟨new ++ new', ?_, ?_⟩, fun _ _ _ _ h => hstop _ _ _ _ (hstop' _ _ _ _ h)⟩
  . rw [hnew', hnew, List.append_assoc]
  . have := (Exec.single h).trans hexec
    simpa using this

theorem issue {action : CwAction} (h : Move env now s [.issued action] s')
    (hnotices : s'.notices = s.notices) (hact : s'.activity = s.activity)
    : Advance env now s s' (some action) := by
  refine ⟨⟨[], by simp [hnotices], Exec.single h⟩, ?_⟩
  rw [hact]
  exact fun _ _ _ _ h => h

end Advance

theorem finish_cases (env : Env) (now : Instant) (hs : Shape s) (out : s.outstanding = none)
    (hplan : s.plan = [])
    : finish s now = (s, false)
      ∨ ∃ s' more new, finish s now = (s', more) ∧ Move env now s (new.map Event.notice) s'
          ∧ s'.notices = s.notices ++ new ∧ s'.outstanding = none
          ∧ (∀ job, s'.activity ≠ .sending job)
          ∧ ∀ job why message after, s'.activity ≠ .stopping job why message after := by
  cases hact : s.activity with
  | idle =>
    left
    simp [finish, hact]
    rw [← hact]
  | arming =>
    right
    exact ⟨_, _, [_, _], finish_arming hact, Move.finishArming out hplan hact, rfl, out,
      by simp, by simp⟩
  | sending job =>
    right
    obtain ⟨⟨a, harm⟩, _⟩ := hs.of_sending hact
    exact ⟨_, _, [_], finish_sending hact harm, Move.finishSending out hplan hact harm, rfl, out,
      by simp, by simp⟩
  | stopping job why message after =>
    right
    obtain ⟨⟨a, harm⟩, _⟩ := hs.of_stopping hact
    cases after with
    | stayArmed =>
      exact ⟨_, _, [_], finish_stopping hact harm, Move.finishStopping out hplan hact harm, rfl,
        out, by simp, by simp⟩
    | restore reason ticket =>
      refine ⟨_, _, .jobEnded job why message :: s.owedNotice reason, finish_stoppingRestore hact,
        Move.finishStoppingRestore out hplan hact harm, ?_, out,
        by simp [startRestore, planRestore], by simp [startRestore, planRestore]⟩
      have := startRestore_notices (s := endJob s job why message) harm reason ticket
      rw [this]
      simp [endJob, CwSupervisor.owedNotice]
  | restoring reason ticket attempts lastError retryAt =>
    cases retryAt with
    | none =>
      right
      refine ⟨_, _, _ :: ticket.toList.map _, finish_restoring hact, ?_, rfl, out, by simp,
        by simp⟩
      cases ticket <;> exact Move.finishRestoring out hplan hact
    | some retryAt =>
      by_cases due : retryAt ≤ now
      . right
        exact ⟨_, _, [], finish_retry due hact, Move.retry out hplan due hact, by simp, out,
          by simp, by simp⟩
      . left
        exact finish_early (Nat.lt_of_not_le due) hact

theorem go_advance (fuel : Nat) (hs : Shape s) (out : s.outstanding = none)
    : Advance env now s (nextAction.go now fuel s).1 (nextAction.go now fuel s).2 := by
  induction fuel generalizing s with
  | zero => exact Advance.refl s
  | succ fuel ih =>
    unfold nextAction.go
    split
    next hplan =>
      rcases finish_cases env now hs out hplan
        with heq | ⟨s', more, new, heq, hmove, hnew, out', _, hstop⟩
      . simp only [heq]
        exact Advance.refl s
      . have hstop' : ∀ job why message after, s'.activity = .stopping job why message after →
            s.activity = .stopping job why message after :=
          fun _ _ _ _ h => absurd h (hstop _ _ _ _)
        simp only [heq]
        split
        next => exact Advance.head new hmove hnew hstop' (ih (hmove.shape hs) out')
        next => exact Advance.head new hmove hnew hstop' (Advance.refl s')
    next margin rest hplan =>
      split
      next => exact Advance.refl s
      next due =>
        have hmove : Move env now s [] { s with plan := rest } :=
          Move.keyed out hplan (keyed_due due)
        exact Advance.head [] hmove (by simp) (fun _ _ _ _ h => h) (ih (hmove.shape hs) out)
    next rest hplan =>
      split
      next => exact Advance.refl s
      next => exact Advance.issue (Move.issue out hplan rfl (if_pos rfl).symm) rfl rfl
    next step rest hkeyed hready hplan =>
      cases haction : step.action with
      | none =>
        cases step with
        | waitKeyed margin => exact (hkeyed _ rfl).elim
        | _ => simp [Step.action] at haction
      | some action =>
        have hretry : step ≠ .waitReady := by
          rintro rfl
          exact hready rfl
        exact Advance.issue (Move.issue out hplan haction (if_neg hretry).symm) rfl rfl

theorem Advance.effect {action : Option CwAction} (h : Advance env now s s' action)
    : Effect env now s [] s' (action.map Event.issued).toList := by
  obtain ⟨⟨new, hnew, hexec⟩, hstop⟩ := h
  have hst : Call.stopped s s' = [] := by
    cases hact : s.activity with
    | sending job =>
      apply stopped_of_not_stopping
      intro _ _ _ _ hact'
      have := hstop _ _ _ _ hact'
      simp [hact] at this
    | _ => exact stopped_of_not_sending (by simp [hact])
  unfold Effect
  rw [hst, emitted_eq hnew]
  exact hexec

theorem watchdog_effect {a : Arm} {job : Job} {fuel : Nat} (reason : StopReason)
    (message : Option String) (after : After) (hafter : after.ticket = none)
    (hreason : reason ≠ .completed) (hact : s.activity = .sending job) (harm : s.arm = some a)
    (out : s.outstanding = none)
    : Effect env now s []
        (nextAction.go now (fuel + 1) (s.stopJob a job reason message after)).1
        ((nextAction.go now (fuel + 1) (s.stopJob a job reason message after)).2.map
          Event.issued).toList := by
  have hstop : Move env now s _ _ :=
    Move.stop .other reason message after hafter hreason hact harm
  have hissue : Move env now (s.stopJob a job reason message after) _ _ :=
    Move.issue out rfl rfl rfl
  have hem : Call.emitted s
      (nextAction.go now (fuel + 1) (s.stopJob a job reason message after)).1 = [] :=
    emitted_self rfl
  unfold Effect
  rw [stopped_eq hact harm rfl, hem]
  exact (Exec.single hstop).trans (Exec.single hissue)

theorem nextAction_effect (hs : Shape s)
    : Effect env now s [] (nextAction env s now).1
        ((nextAction env s now).2.map Event.issued).toList := by
  unfold nextAction
  split
  next => exact Effect.refl s
  next hout =>
    have out : s.outstanding = none := by simpa using hout
    unfold checkTimers
    split
    next job hact =>
      split
      next due =>
        -- The watchdog stops the job, and the stop is issued at once.
        obtain ⟨⟨a, harm⟩, _⟩ := hs.of_sending hact
        rw [beginStop_sending _ _ _ hact harm]
        exact watchdog_effect _ _ _ rfl (by simp) hact harm out
      next => exact (go_advance 64 hs out).effect
    next a hact harm =>
      split
      next =>
        have hmove : Move env now s _ _ := Move.endIdle .other .idleTimeout hact harm
        have hnew := startRestore_notices harm .idleTimeout none
        apply Advance.effect
        exact Advance.head _ hmove hnew (by simp [startRestore, planRestore])
          (go_advance 64 (hmove.shape hs) out)
      next => exact (go_advance 64 hs out).effect
    next => exact (go_advance 64 hs out).effect

section answers

variable {step : Step} {outcome : CwOutcome}

theorem Step.plain_of_unmet (unmet : step.meets outcome = false)
    : step.records outcome = false := by
  cases step <;> cases outcome <;> first | rfl | simp_all [Step.meets]

theorem stopAnswer_effect {a : Arm} {job : Job} (message : String) (wpm : Nat) (after : After)
    (hafter : after.ticket = none) (out : s.outstanding = some step)
    (plain : step.records outcome = false) (hact : s.activity = .sending job)
    (harm : s.arm = some a)
    : Effect env now s [.answered s step outcome]
        (beginStop (s.answered.withSpeed wpm) .error (some message) after) [] := by
  have harm' : (s.answered.withSpeed wpm).arm = some { a with wpm } := by
    exact withSpeed_arm harm
  rw [beginStop_sending (s := s.answered.withSpeed wpm) _ _ _ hact harm']
  apply Effect.move _ [] (Move.stopAnswer outcome wpm message after hafter out plain hact harm)
    (stopped_eq hact harm rfl)
  . simp [CwSupervisor.stopJob, CwSupervisor.answered, CwSupervisor.withSpeed]
  . simp

theorem stopSame_effect {a : Arm} {job : Job} (message : String) (after : After)
    (hafter : after.ticket = none) (out : s.outstanding = some step)
    (plain : step.records outcome = false) (hact : s.activity = .sending job)
    (harm : s.arm = some a)
    : Effect env now s [.answered s step outcome]
        (beginStop s.answered .error (some message) after) [] := by
  have hsame : s.answered.withSpeed a.wpm = s.answered := withSpeed_self harm
  rw [← hsame]
  exact stopAnswer_effect message a.wpm after hafter out plain hact harm

theorem fail_effect (hs : Shape s) (out : s.outstanding = some step)
    (unmet : step.meets outcome = false) (below : step.overClamp outcome = false) (error : String)
    : Effect env now s [.answered s step outcome] (fail s.answered error now) [] := by
  have plain := Step.plain_of_unmet unmet
  cases hact : s.activity with
  | idle =>
    have heq : fail s.answered error now = s.answered := by
      simp [fail, CwSupervisor.answered, hact]
    rw [heq]
    apply Effect.unsent (Move.idleAnswer outcome out plain hact)
    . simp [hact]
    . rfl
  | arming =>
    have heq : fail s.answered error now = refuseArm s.answered .outOfRange error := by
      simp [fail, CwSupervisor.answered, hact]
    rw [heq]
    exact refuseArm_effect hs (.answer step outcome) _ _ (Cause.valid_answer out plain) hact
  | sending job =>
    obtain ⟨⟨a, harm⟩, _⟩ := hs.of_sending hact
    have heq : fail s.answered error now
        = beginStop s.answered .error (some error) .stayArmed := by
      simp [fail, CwSupervisor.answered, hact]
    rw [heq]
    exact stopSame_effect _ _ rfl out plain hact harm
  | stopping =>
    have heq : fail s.answered error now
        = { s.answered with
            plan := [.waitKeyed s.config.pacingMargin]
            readyRetryAt := none } := by
      simp [fail, CwSupervisor.answered, hact]
    rw [heq]
    apply Effect.unsent (Move.stopFailed outcome out unmet plain hact below)
    . simp [hact]
    . rfl
  | restoring reason ticket attempts lastError retryAt =>
    rw [fail_restoring (s := s.answered) error hact]
    apply Effect.move [] (_ :: ticket.toList.map _)
      (Move.restoreFailed outcome error _ out unmet plain hact)
    . exact stopped_of_not_sending (by simp [hact])
    . rfl
    . cases ticket <;> rfl

theorem onStatus_effect (hs : Shape s) (out : s.outstanding = some .status)
    (cwMode transmitting : Bool) (wpm : Option Nat)
    : Effect env now s [.answered s .status (.status cwMode transmitting wpm)]
        (onStatus env s.answered cwMode transmitting wpm) [] := by
  cases hact : s.activity with
  | idle =>
    have heq : onStatus env s.answered cwMode transmitting wpm = s.answered := by
      simp [onStatus, CwSupervisor.answered, hact]
    rw [heq]
    apply Effect.unsent (Move.idleAnswer _ out rfl hact)
    . simp [hact]
    . rfl
  | arming ticket owner callsign cap old =>
    have hrefuse (message : String)
        : Effect env now s [.answered s .status (.status cwMode transmitting wpm)]
            (refuseArm s.answered .forbidden message) [] :=
      refuseArm_effect hs (.answer .status _) .forbidden message (Cause.valid_answer out rfl) hact
    unfold onStatus
    simp only [show s.answered.activity = s.activity from rfl, hact]
    split
    next => exact hrefuse _
    next hmode =>
      split
      next => exact hrefuse _
      next htx =>
        have hmode : cwMode = true := by simpa using hmode
        have htx : transmitting = false := by simpa using htx
        subst hmode htx
        apply Effect.unsent (Move.armStatus wpm out hact)
        . simp [hact]
        . rfl
  | sending job =>
    obtain ⟨⟨a, harm⟩, ⟨⟨send, hsend⟩, _⟩, _⟩ := hs.of_sending hact
    rcases onStatus_sending (s := s.answered) env cwMode transmitting wpm hact harm hsend
      with ⟨message, heq⟩ | ⟨rfl, rfl, hcap, plan, hplan, heq⟩
    . rw [heq]
      exact stopSame_effect message .stayArmed rfl out rfl hact harm
    . rw [heq]
      apply Effect.quiet (Move.planned wpm out hsend hact harm hcap hplan)
      . exact stopped_of_not_stopping (by simp)
      . rfl
  | stopping job why message after =>
    have heq : onStatus env s.answered cwMode transmitting wpm = s.answered := by
      simp [onStatus, CwSupervisor.answered, hact]
    rw [heq]
    apply Effect.unsent (Move.stopAnswered _ out rfl rfl hact)
    . simp [hact]
    . rfl
  | restoring =>
    obtain ⟨_, _, out'⟩ := hs.of_restoring hact
    simp [out, Step.isRestoring] at out'

theorem onSpeed_effect (hs : Shape s) (out : s.outstanding = some .checkSpeed)
    (cwMode transmitting : Bool) (wpm : Option Nat)
    : Effect env now s [.answered s .checkSpeed (.status cwMode transmitting wpm)]
        (onSpeed env s.answered cwMode wpm now) [] := by
  rcases hs.of_keying out rfl rfl with ⟨job, hact⟩ | ⟨job, why, message, after, hact⟩
  . obtain ⟨⟨a, harm⟩, ⟨⟨send, hsend⟩, _⟩, _⟩ := hs.of_sending hact
    rcases onSpeed_sending (s := s.answered) env cwMode wpm now hact harm hsend
      with ⟨message, wpm', heq⟩ | ⟨rfl, hsame, heq⟩
        | ⟨rfl, pieces, rest, plan, hpieces, hrest, hcap, hplan, heq⟩
    . rw [heq]
      exact stopAnswer_effect message wpm' .stayArmed rfl out rfl hact harm
    . rw [heq]
      apply Effect.quiet (Move.sameSpeed transmitting wpm out hact harm hsame)
      . exact stopped_of_not_stopping (by simp [CwSupervisor.answered, hact])
      . rfl
    . rw [heq]
      apply Effect.quiet
        (Move.replanned transmitting wpm out hsend hact harm hpieces hrest hcap hplan)
      . exact stopped_of_not_stopping (by simp)
      . rfl
  . have heq : onSpeed env s.answered cwMode wpm now = s.answered := by
      simp [onSpeed, CwSupervisor.answered, hact]
    rw [heq]
    apply Effect.unsent (Move.stopAnswered _ out rfl rfl hact)
    . simp [hact]
    . rfl

theorem check_effect (hs : Shape s) (out : s.outstanding = some step)
    (meets : step.meets outcome = true)
    (check : step = .waitReady ∨ ∃ max, step = .powerAtMost max)
    : Effect env now s [.answered s step outcome] s.answered [] := by
  have hstep : step.isRead = false ∧ step.isRestoring = false
      ∧ step.records outcome = false := by
    rcases check with rfl | ⟨max, rfl⟩ <;> cases outcome <;>
      simp [Step.isRead, Step.isRestoring, Step.records]
  obtain ⟨hread, hwrite, plain⟩ := hstep
  rcases hs.of_keying out hread hwrite with ⟨job, hact⟩ | ⟨job, why, message, after, hact⟩
  . apply Effect.quiet (Move.sendAnswer outcome out meets plain check hact)
    . exact stopped_of_not_stopping (by simp [CwSupervisor.answered, hact])
    . rfl
  . apply Effect.unsent (Move.stopAnswered outcome out meets plain hact)
    . simp [hact]
    . rfl

theorem write_effect (hs : Shape s) (out : s.outstanding = some step)
    (meets : step.meets outcome = true) (write : step.isRestoring = true)
    : Effect env now s [.answered s step outcome] s.answered [] := by
  have hstep : step.isRead = false ∧ step.isKeying = false ∧ step.isStopping = false
      ∧ step.records outcome = false := by
    cases step <;> simp_all [Step.isRead, Step.isKeying, Step.isStopping, Step.isRestoring,
      Step.meets, Step.records]
  obtain ⟨hread, hkeying, hstop, plain⟩ := hstep
  rcases hs.of_write out hread hkeying hstop
    with ⟨ticket, owner, callsign, cap, wpm, hact⟩ | ⟨_, _, _, _, _, hact⟩
  . apply Effect.unsent (Move.armAnswer outcome out meets plain write hact)
    . simp [hact]
    . rfl
  . apply Effect.unsent (Move.restoreAnswer outcome out meets plain hact)
    . simp [hact]
    . rfl

theorem powerAtMost_effect {max p : Nat} (hs : Shape s)
    (out : s.outstanding = some (.powerAtMost max)) (above : max < p) (message : String)
    : Effect env now s [.answered s (.powerAtMost max) (.power p)]
        (beginStop s.answered .error (some message) (.restore .powerAboveClamp none)) [] := by
  rcases hs.of_keying out rfl rfl with ⟨job, hact⟩ | ⟨job, why, message', after, hact⟩
  . obtain ⟨⟨a, harm⟩, _⟩ := hs.of_sending hact
    exact stopSame_effect message _ rfl out rfl hact harm
  . -- The job is stopping already, so the stop that is asked for here is a restore.
    obtain ⟨⟨a, harm⟩, _⟩ := hs.of_stopping hact
    rw [beginStop_restore _ _ (by simp [CwSupervisor.answered, hact])]
    apply Effect.move [] _ (Move.overClamp out above hact harm)
    . exact stopped_of_not_sending (by simp [hact])
    . exact startRestore_notices (s := s.answered) harm _ _
    . simp [CwSupervisor.owedNotice, CwSupervisor.answered]

theorem onSent_effect {chunk : Chunk} (hs : Shape s) (out : s.outstanding = some (.send chunk))
    : Effect env now s [.answered s (.send chunk) .done] (onSent env s.answered chunk now) [] := by
  rcases hs.of_keying out rfl rfl with ⟨job, hact⟩ | ⟨job, why, message, after, hact⟩
  . obtain ⟨⟨a, harm⟩, _⟩ := hs.of_sending hact
    rw [onSent_sending (s := s.answered) chunk hact harm]
    apply Effect.quiet (Move.sent out hact harm)
    . exact stopped_of_not_stopping (by simp)
    . rfl
  . rw [onSent_late (s := s.answered) chunk (by simp [CwSupervisor.answered, hact])]
    apply Effect.unsent (Move.sentLate out hact)
    . simp [hact]
    . rfl

theorem complete_effect (hs : Shape s) (out : s.outstanding = some step)
    : Effect env now s [.answered s step outcome] (complete env s outcome now) [] := by
  unfold complete
  simp only [out]
  split
  next error => exact fail_effect hs out (by cases step <;> rfl) (by cases step <;> rfl) error
  next => exact onStatus_effect hs out _ _ _
  next => exact onSpeed_effect hs out _ _ _
  next p => exact Effect.quiet (Move.snapPower p out) (stopped_same rfl) rfl
  next want p =>
    split
    next h => exact write_effect hs out (by simp [Step.meets, h]) rfl
    next h => exact fail_effect hs out (by simp [Step.meets, h]) rfl _
  next max p =>
    split
    next h => exact powerAtMost_effect hs out h _
    next h => exact check_effect hs out (by simpa [Step.meets] using h) (Or.inr ⟨max, rfl⟩)
  next k =>
    have hmove : Move env now s _ _ := Move.snapBreakIn k out
    split
    next h =>
      rw [if_pos h] at hmove
      exact Effect.quiet hmove (stopped_same rfl) rfl
    next h =>
      rw [if_neg h] at hmove
      exact Effect.quiet hmove (stopped_same rfl) rfl
  next want k =>
    split
    next h => exact write_effect hs out (by simp [Step.meets, h]) rfl
    next h => exact fail_effect hs out (by simp [Step.meets, h]) rfl _
  next =>
    have hmove : Move env now s _ _ := Move.silenced out
    split
    next h =>
      rw [if_pos h] at hmove
      exact Effect.quiet hmove (stopped_same rfl) rfl
    next h =>
      rw [if_neg h] at hmove
      exact Effect.quiet hmove (stopped_same rfl) rfl
  next => exact write_effect hs out rfl rfl
  next => exact write_effect hs out rfl rfl
  next => exact check_effect hs out rfl (Or.inl rfl)
  next => exact Effect.quiet (Move.busy out) (stopped_same rfl) rfl
  next chunk => exact onSent_effect hs out
  next =>
    apply fail_effect hs out
    . cases step <;> cases outcome <;> first | rfl | simp_all
    . cases step <;> cases outcome <;> first | rfl | simp_all

end answers

theorem Call.effect (c : Call) (hs : Shape s)
    : Effect env now s (c.run env now s).2.1 (c.run env now s).1
        ((c.run env now s).2.2.map Event.issued).toList := by
  cases c with
  | arm owner callsign keyDownCapS => exact arm_effect hs owner callsign keyDownCapS
  | send owner text => exact send_effect owner text
  | abort => exact abort_effect hs
  | disarm owner => exact disarm_effect hs owner
  | detached id => exact detached_effect hs id
  | shutdown => exact shutdown_effect hs
  | nextAction => exact nextAction_effect hs
  | complete outcome =>
    simp only [Call.run]
    cases out : s.outstanding with
    | none =>
      rw [complete_idle out]
      exact Effect.refl s
    | some step => exact complete_effect hs out
  | takeNotices =>
    have hst : Call.stopped s { s with notices := [] } = [] := stopped_same rfl
    have hem : Call.emitted s { s with notices := [] } = [] := List.drop_nil
    have hmove : Move env now s _ _ := Move.takeNotices s
    unfold Effect
    simp only [Call.run, Cw.takeNotices, hst, hem]
    exact Exec.single hmove

theorem CallStep.moves {w w' : Timed} {evs : List Entry} (hs : Shape w.sup)
    (h : CallStep env w evs w') : Moves env w evs.reverse w' := by
  cases h with
  | call c w t le =>
    have hwait : Moves env w _ ⟨t, w.sup⟩ := Exec.single (MoveStep.wait w.sup le)
    have heff : Effect env t w.sup _ _ _ := c.effect hs
    have hcall := moves_of_exec heff
    rw [List.map_reverse] at hcall
    have := hwait.trans hcall
    rwa [List.reverse_nil, List.append_nil] at this

theorem MoveStep.shape {w w' : Timed} {evs : List Entry} (hs : Shape w.sup)
    (h : MoveStep env w evs w') : Shape w'.sup := by
  cases h with
  | wait => exact hs
  | move h => exact h.shape hs

theorem Calls.moves {w w' : Timed} {log : Log} (hs : Shape w.sup) (h : Calls env w log w')
    : Moves env w log w' :=
  Exec.refine (fun w => Shape w.sup) hs MoveStep.shape CallStep.moves h

theorem Calls.shape {w w' : Timed} {log : Log} (hs : Shape w.sup) (h : Calls env w log w')
    : Shape w'.sup :=
  Exec.invariant (fun _ w => Shape w.sup) hs MoveStep.shape (Calls.moves hs h)

section Run

variable {capability : CwCapability} {config : CwConfig} {log : Log} {w : Timed}

theorem Run.shape (h : Run env capability config log w) : Shape w.sup :=
  Calls.shape (new_shape capability config) h

/--
What holds of a new supervisor, is kept as time passes and is kept by every move from a state that
has its shape holds in every run.
-/
theorem Run.invariant (I : Log → Instant → CwSupervisor → Prop)
    (start : I [] 0 (new capability config))
    (wait : ∀ {log now t s}, I log now s → now ≤ t → I log t s)
    (move : ∀ {log now s evs s'}, Shape s → I log now s → Move env now s evs s' →
      I ((evs.map (Entry.mk now)).reverse ++ log) now s')
    (h : Run env capability config log w)
    : I log w.now w.sup := by
  have hmoves := Calls.moves (new_shape capability config) h
  suffices Shape w.sup ∧ I log w.now w.sup from this.2
  apply Exec.invariant (fun log w => Shape w.sup ∧ I log w.now w.sup) _ _ hmoves
  . exact ⟨new_shape capability config, start⟩
  . intro log t evs u ⟨hs, hI⟩ hstep
    refine ⟨hstep.shape hs, ?_⟩
    cases hstep with
    | wait s le => exact wait hI le
    | move h => exact move hs hI h

end Run

theorem Move.sameRadio (h : Move env now s evs s')
    : s'.sendText = s.sendText ∧ s'.gate = s.gate ∧ s'.slowestWpm = s.slowestWpm
        ∧ s'.config = s.config := by
  cases h <;> exact ⟨rfl, rfl, rfl, rfl⟩

theorem Run.radio {capability : CwCapability} {config : CwConfig} {log : Log} {w : Timed}
    (h : Run env capability config log w)
    : w.sup.sendText = capability.sendText ∧ w.sup.gate = capability.txGate
        ∧ w.sup.slowestWpm = (new capability config).slowestWpm ∧ w.sup.config = config := by
  apply Run.invariant
    (fun _ _ s => s.sendText = capability.sendText ∧ s.gate = capability.txGate
      ∧ s.slowestWpm = (new capability config).slowestWpm ∧ s.config = config) _ _ _ h
  . exact ⟨rfl, rfl, rfl, rfl⟩
  . intro _ _ _ _ hI _
    exact hI
  . intro _ _ s evs s' _ hI hmove
    obtain ⟨h₁, h₂, h₃, h₄⟩ := hmove.sameRadio
    rwa [h₁, h₂, h₃, h₄]

section observe

variable {ω : Type} {next : ω → Entry → ω} {init : ω} {log : Log}

theorem observe_single (e : Event)
    : observe next init (([e].map (Entry.mk now)).reverse ++ log)
        = next (observe next init log) ⟨now, e⟩ := by
  rfl

def Skips (next : ω → Entry → ω) (now : Instant) (evs : List Event) : Prop :=
  ∀ e ∈ evs, ∀ w, next w ⟨now, e⟩ = w

theorem Skips.observe (h : Skips next now evs)
    : observe next init ((evs.map (Entry.mk now)).reverse ++ log) = observe next init log := by
  induction evs generalizing log with
  | nil => rfl
  | cons e evs ih =>
    rw [Skips, List.forall_mem_cons] at h
    rw [List.map_cons, List.reverse_cons, List.append_assoc, ih h.2]
    exact h.1 _

theorem Skips.observe_cons (e : Event) (h : Skips next now evs)
    : Trace.observe next init (((e :: evs).map (Entry.mk now)).reverse ++ log)
        = next (Trace.observe next init log) ⟨now, e⟩ := by
  rw [List.map_cons, List.reverse_cons, List.append_assoc, h.observe]
  rfl

theorem Plain.skips (hnext : ∀ e w, e.isPlain = true → next w ⟨now, e⟩ = w) (h : Plain evs)
    : Skips next now evs := by
  intro e he w
  exact hnext e w (h e he)

theorem Cause.skips_events {s : CwSupervisor} {c : Cause}
    (hnext : ∀ step outcome w, step.records outcome = false →
      next w ⟨now, .answered s step outcome⟩ = w)
    (valid : c.Valid s) : Skips next now (c.events s) := by
  intro e he w
  obtain ⟨x, hx, rfl⟩ := List.mem_map.mp he
  exact hnext x.1 x.2 w (valid x hx).2

@[simp]
theorem skips_nil : Skips next now [] := by
  simp [Skips]

@[simp]
theorem skips_cons {e : Event}
    : Skips next now (e :: evs) ↔ (∀ w, next w ⟨now, e⟩ = w) ∧ Skips next now evs := by
  simp [Skips]

@[simp]
theorem skips_append {evs' : List Event}
    : Skips next now (evs ++ evs') ↔ Skips next now evs ∧ Skips next now evs' := by
  simp [Skips, or_imp, forall_and]

@[simp]
theorem skips_map {α : Type} {l : List α} {f : α → Event}
    : Skips next now (l.map f) ↔ ∀ x ∈ l, ∀ w, next w ⟨now, f x⟩ = w := by
  simp [Skips]

end observe

section Completed

variable {R : Log → Nat → Prop} {log : Log}

/-- `R` holds of what comes before the notice that a job was completed. -/
def Completed (R : Log → Nat → Prop) (e : Entry) (log : Log) : Prop :=
  ∀ id message, e.event = .notice (.jobEnded id .completed message) → R log id

theorem Move.completed (hu : Unfinished s)
    (finish : ∀ {job}, s.outstanding = none → s.plan = [] → s.activity = .sending job →
      R log job.id)
    (hlog : Each (Completed R) log) (h : Move env now s evs s')
    : Each (Completed R) ((evs.map (Entry.mk now)).reverse ++ log) := by
  cases h with
  | finishSending out hplan hact =>
    refine ⟨?_, hlog⟩
    rintro id message ⟨⟩
    exact finish out hplan hact
  | finishStopping out hplan hact | finishStoppingRestore out hplan hact =>
    have := hu _ _ _ _ hact
    apply hlog.append
    simp [Completed, CwSupervisor.owedNotice, or_imp, forall_and, *]
  | refuse | refuseRestore =>
    apply hlog.append
    simp only [Completed, Cause.events, List.mem_map, List.mem_append]
    rintro _ ⟨_, ⟨_, _, rfl⟩ | he, rfl⟩ _ _ _
    . simp
    . simp [List.mem_singleton.mp he]
  | _ =>
    apply hlog.append
    simp [Completed, CwSupervisor.owedNotice, Request.events, or_imp, forall_and]

end Completed

end Cw
