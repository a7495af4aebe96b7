import RadioCat.Cw.Moves

/-!
This module contains what each request can do: it is refused and changes nothing, or it is one of a
few changes of the state.
-/

namespace Cw

variable {env : Env} {now : Instant} {s : CwSupervisor}

theorem beginStop_sending {a : Arm} {job : Job} (reason : StopReason) (message : Option String)
    (after : After) (hact : s.activity = .sending job) (harm : s.arm = some a)
    : beginStop s reason message after = s.stopJob a job reason message after := by
  unfold beginStop CwSupervisor.stopJob
  simp only [hact, harm]
  cases job.hasId && !job.idSent <;> simp [harm]

theorem beginStop_restore {reason : DisarmReason} {ticket : Option Ticket} (why : StopReason)
    (message : Option String) (hact : ∀ job, s.activity ≠ .sending job)
    : beginStop s why message (.restore reason ticket) = startRestore s reason ticket := by
  unfold beginStop
  split
  next hact' => exact absurd hact' (hact _)
  next => rfl

theorem startRestore_notices {a : Arm} (harm : s.arm = some a) (reason : DisarmReason)
    (ticket : Option Ticket)
    : (startRestore s reason ticket).notices = s.notices ++ s.owedNotice reason := by
  unfold startRestore planRestore CwSupervisor.owedNotice
  simp only [harm]
  cases s.idOwed <;> rfl

theorem startRestore_unarmed (harm : s.arm = none) (reason : DisarmReason)
    (ticket : Option Ticket)
    : startRestore s reason ticket
        = { s with
            plan := restorePlan s
            readyRetryAt := none
            activity := .restoring reason ticket 0 none none } := by
  simp [startRestore, planRestore, restorePlan, harm]

theorem endArm_stopping {job : Nat} {why : StopReason} {message : Option String} {after : After}
    (reason : DisarmReason) (stop : StopReason) (ticket : Option Ticket)
    (hact : s.activity = .stopping job why message after) (hafter : after.ticket = none)
    : endArm s reason stop ticket
        = { s with activity := .stopping job why message (after.restoring reason ticket) } := by
  unfold endArm
  rcases after with _ | ⟨existing, _ | t⟩
  . simp [hact, After.restoring]
  . simp [hact, After.restoring]
  . simp [After.ticket] at hafter

theorem endArm_disarming {job : Nat} {why : StopReason} {message : Option String}
    {existing : DisarmReason} {t : Ticket} (reason : DisarmReason) (stop : StopReason)
    (ticket : Option Ticket)
    (hact : s.activity = .stopping job why message (.restore existing (some t)))
    : endArm s reason stop ticket = s := by
  unfold endArm
  simp only [hact]
  rw [← hact]

theorem arm_cases (s : CwSupervisor) (owner : ConsoleId) (callsign : Text)
    (keyDownCapS : Option Nat)
    : (∃ r, arm s owner callsign keyDownCapS = (s, .error r))
      ∨ ∃ send gate cap, cap ≤ s.config.keyDownCap ∧ s.sendText = some send ∧ s.gate = some gate
        ∧ s.shuttingDown = false ∧ arm.heldBy s = none
        ∧ (∀ reason ticket attempts lastError retryAt,
            s.activity ≠ .restoring reason ticket attempts lastError retryAt)
        ∧ arm s owner callsign keyDownCapS
          = ({ s with
                nextTicket := s.nextTicket + 1
                snap := {}
                plan := armPlan send gate
                activity :=
                  .arming s.nextTicket owner callsign.toAsciiUppercase cap s.slowestWpm },
              .ok s.nextTicket) := by
  unfold arm
  split
  next send gate hsend hgate =>
    split
    next => exact Or.inl ⟨_, rfl⟩
    next hup =>
      split
      next => exact Or.inl ⟨_, rfl⟩
      next => exact Or.inl ⟨_, rfl⟩
      next hnone hsome =>
        split
        next => exact Or.inl ⟨_, rfl⟩
        next hfree =>
          refine Or.inr ⟨send, gate, _, Nat.min_le_right _ _, hsend, hgate, by simpa using hup,
            hfree, ?_, rfl⟩
          intro reason ticket attempts lastError retryAt hact
          cases lastError with
          | none => exact hsome _ _ _ _ hact
          | some e => exact hnone _ _ _ _ _ hact
  next => exact Or.inl ⟨_, rfl⟩

theorem send_cases (env : Env) (s : CwSupervisor) (owner : ConsoleId) (text : Text) (now : Instant)
    : (∃ r, send env s owner text now = (s, .error r))
      ∨ ∃ a, s.arm = some a ∧ a.owner = owner ∧ s.activity = .idle
        ∧ text.splitWhitespace.isEmpty = false
        ∧ (jobFor env s a (operatorText text) now).2 ≤ a.cap
        ∧ send env s owner text now
          = ({ s with
                nextJob := (s.nextJob + 1) % 2 ^ 32
                plan := [.status, .powerAtMost s.lowPowerRaw]
                activity := .sending (jobFor env s a (operatorText text) now).1
                arm := some { a with lastActivity := now } },
              .ok s.nextJob) := by
  unfold send
  split
  next => exact Or.inl ⟨_, rfl⟩
  next => exact Or.inl ⟨_, rfl⟩
  next kind a _ harm =>
    split
    next => exact Or.inl ⟨_, rfl⟩
    next howner =>
      split
      next => exact Or.inl ⟨_, rfl⟩
      next hidle =>
        split
        next => exact Or.inl ⟨_, rfl⟩
        next hwords =>
          dsimp only
          split
          next => exact Or.inl ⟨_, rfl⟩
          next =>
            split
            next => exact Or.inl ⟨_, rfl⟩
            next hcap =>
              refine Or.inr ⟨a, harm, not_not.mp howner, not_not.mp hidle, by simpa using hwords,
                Nat.le_of_not_lt hcap, rfl⟩

theorem disarm_cases (s : CwSupervisor) (owner : ConsoleId)
    : (∃ r, disarm s owner = (s, .error r))
      ∨ ∃ a, s.arm = some a ∧ a.owner = owner
        ∧ (∀ job why message reason ticket,
            s.activity ≠ .stopping job why message (.restore reason (some ticket)))
        ∧ disarm s owner
          = (endArm { s with nextTicket := s.nextTicket + 1 } .requested .aborted
              (some s.nextTicket), .ok s.nextTicket) := by
  unfold disarm
  split
  next a harm =>
    split
    next howner =>
      split
      next => exact Or.inl ⟨_, rfl⟩
      next hact => exact Or.inr ⟨a, harm, howner, fun _ _ _ _ _ => hact _ _ _ _ _, rfl⟩
    next => exact Or.inl ⟨_, rfl⟩
  next => exact Or.inl ⟨_, rfl⟩

section finish

variable {a : Arm}

theorem finish_arming {ticket : Ticket} {owner : ConsoleId} {callsign : Text} {cap : Duration}
    {wpm : Nat} (hact : s.activity = .arming ticket owner callsign cap wpm)
    : finish s now
        = ({ s with
              notices :=
                s.notices ++ [.armed owner callsign s.lowPowerRaw, .reply ticket (.ok ())]
              arm := some
                { owner, callsign, cap, powerRaw := s.lowPowerRaw, wpm, lastActivity := now,
                  lastId := none, idFirst := false }
              activity := .idle }, false) := by
  simp [finish, hact, reply, CwSupervisor.lowPowerRaw]

theorem finish_sending {job : Job} (hact : s.activity = .sending job) (harm : s.arm = some a)
    : finish s now
        = ({ endJob s job.id .completed none with
              activity := .idle
              arm := some { a with lastActivity := now } }, true) := by
  simp [finish, hact, harm, endJob]

theorem finish_stopping {job : Nat} {reason : StopReason} {message : Option String}
    (hact : s.activity = .stopping job reason message .stayArmed) (harm : s.arm = some a)
    : finish s now
        = ({ endJob s job reason message with
              activity := .idle
              arm := some { a with lastActivity := now } }, true) := by
  simp [finish, hact, harm, endJob]

theorem finish_stoppingRestore {job : Nat} {why : StopReason} {message : Option String}
    {reason : DisarmReason} {ticket : Option Ticket}
    (hact : s.activity = .stopping job why message (.restore reason ticket))
    : finish s now = (startRestore (endJob s job why message) reason ticket, true) := by
  simp [finish, hact, endJob, startRestore, planRestore, restorePlan]

variable {reason : DisarmReason} {ticket : Option Ticket} {attempts : Nat}
  {lastError : Option String}

theorem finish_retry {retryAt : Instant} (due : retryAt ≤ now)
    (hact : s.activity = .restoring reason ticket attempts lastError (some retryAt))
    : finish s now
        = ({ s with
              activity := .restoring reason ticket attempts lastError none
              plan := restorePlan s }, true) := by
  simp [finish, hact, due, planRestore, restorePlan]

theorem finish_early {retryAt : Instant} (early : now < retryAt)
    (hact : s.activity = .restoring reason ticket attempts lastError (some retryAt))
    : finish s now = (s, false) := by
  simp [finish, hact, Nat.not_le.mpr early]
  rw [← hact]

theorem finish_restoring
    (hact : s.activity = .restoring reason ticket attempts lastError none)
    : finish s now
        = ({ s with
              snap := {}
              arm := none
              notices :=
                s.notices ++ .restored reason :: ticket.toList.map fun t => .reply t (.ok ())
              activity := .idle }, false) := by
  cases ticket <;> simp [finish, hact, reply]

theorem fail_restoring {retryAt : Option Instant} (error : String)
    (hact : s.activity = .restoring reason ticket attempts lastError retryAt)
    : fail s error now
        = { s with
            activity := .restoring reason none (attempts + 1) (some error)
              (some (now + s.config.restoreRetry))
            plan := []
            notices := s.notices ++ .restoreFailed (attempts + 1) error
              :: ticket.toList.map fun t => .reply t (.error (refusal .outOfRange
                s!"restore failed ({error}); the server keeps retrying")) } := by
  cases ticket <;> simp [fail, hact, reply]

end finish

theorem refuseArm_clean {ticket : Ticket} {owner : ConsoleId} {callsign : Text} {cap : Duration}
    {wpm : Nat} (code : ErrorCode) (message : String)
    (hact : s.activity = .arming ticket owner callsign cap wpm)
    (clean : (s.snap.powerChanged || s.snap.breakInChanged) = false)
    : refuseArm s code message
        = { s with
            notices := s.notices ++ [.reply ticket (.error (refusal code message))]
            plan := []
            activity := .idle
            snap := {} } := by
  unfold refuseArm
  simp [hact, reply, clean]

theorem refuseArm_changed {ticket : Ticket} {owner : ConsoleId} {callsign : Text} {cap : Duration}
    {wpm : Nat} (code : ErrorCode) (message : String)
    (hact : s.activity = .arming ticket owner callsign cap wpm) (harm : s.arm = none)
    (changed : (s.snap.powerChanged || s.snap.breakInChanged) = true)
    : refuseArm s code message
        = { s with
            notices := s.notices ++ [.reply ticket (.error (refusal code message))]
            plan := restorePlan s
            readyRetryAt := none
            activity := .restoring .armFailed none 0 none none } := by
  unfold refuseArm
  simp only [hact, reply, changed, if_true]
  rw [startRestore_unarmed]
  . rfl
  . exact harm

section answers

variable {a : Arm} {job : Job} {sendText : CwSendText}

theorem onStatus_sending (env : Env) (cwMode transmitting : Bool) (wpm : Option Nat)
    (hact : s.activity = .sending job) (harm : s.arm = some a) (hsend : s.sendText = some sendText)
    : (∃ message, onStatus env s cwMode transmitting wpm
        = beginStop s .error (some message) .stayArmed)
      ∨ cwMode = true ∧ transmitting = false
        ∧ env.estimate job.text (s.reported wpm) ≤ a.cap
        ∧ ∃ plan, plan = s.plan ++ chunkPlan env s sendText job.operator job.idText job.idFirst
            (s.reported wpm)
          ∧ onStatus env s cwMode transmitting wpm
            = { s.withSpeed (s.reported wpm) with
                plan
                activity := .sending
                  { job with
                    deadline := job.started
                      + (watchdogFor s (env.estimate job.text (s.reported wpm))
                        + pacing s plan) } } := by
  unfold onStatus
  simp only [hact, harm]
  split
  next message _ => exact Or.inl ⟨message, rfl⟩
  next hok =>
    have hmode : cwMode = true := by
      cases cwMode <;> simp_all
    have htx : transmitting = false := by
      cases transmitting <;> simp_all
    have hcap : env.estimate job.text (s.reported wpm) ≤ a.cap := by
      by_contra hcap
      simp [hmode, htx, Nat.lt_of_not_le hcap] at hok
    refine Or.inr ⟨hmode, htx, hcap, _, rfl, ?_⟩
    simp only [planChunks, hsend, setWatchdog, hact, CwSupervisor.withSpeed, harm]
    rfl

theorem withSpeed_self (harm : s.arm = some a) : s.withSpeed a.wpm = s := by
  have : s.arm.map (fun x => { x with wpm := a.wpm }) = s.arm := by
    rw [harm]
    rfl
  rw [CwSupervisor.withSpeed, this]

theorem replan_cases (env : Env) (wpm : Nat) (now : Instant) (hact : s.activity = .sending job)
    (harm : s.arm = some a) (hsend : s.sendText = some sendText)
    : (∃ message, replan env s wpm now = beginStop s .error (some message) .stayArmed)
      ∨ ∃ pieces rest plan, pieces = rechunk env s sendText wpm
        ∧ rest = (pieces.map fun c => env.estimate c.text wpm).sum
        ∧ now - job.started + rest ≤ a.cap
        ∧ plan = pieces.zipIdx.flatMap (replan.paced sendText)
            ++ [.waitKeyed s.config.pacingMargin]
        ∧ replan env s wpm now
          = { s with
              plan
              activity := .sending
                { job with deadline := now + (watchdogFor s rest + pacing s plan) } } := by
  unfold replan
  split
  next h => simp [hsend] at h
  next send h =>
    cases hsend.symm.trans h
    simp only [harm, hact]
    split
    next => exact Or.inl ⟨_, rfl⟩
    next hcap => exact Or.inr ⟨_, _, _, rfl, rfl, Nat.le_of_not_lt hcap, rfl, rfl⟩

theorem onSpeed_sending (env : Env) (cwMode : Bool) (wpm : Option Nat) (now : Instant)
    (hact : s.activity = .sending job) (harm : s.arm = some a) (hsend : s.sendText = some sendText)
    : (∃ message wpm', onSpeed env s cwMode wpm now
        = beginStop (s.withSpeed wpm') .error (some message) .stayArmed)
      ∨ cwMode = true ∧ a.wpm = s.reported wpm ∧ onSpeed env s cwMode wpm now = s
      ∨ cwMode = true
        ∧ ∃ pieces rest plan, pieces = rechunk env s sendText (s.reported wpm)
          ∧ rest = (pieces.map fun c => env.estimate c.text (s.reported wpm)).sum
          ∧ now - job.started + rest ≤ a.cap
          ∧ plan = pieces.zipIdx.flatMap (replan.paced sendText)
              ++ [.waitKeyed s.config.pacingMargin]
          ∧ onSpeed env s cwMode wpm now
            = { s.withSpeed (s.reported wpm) with
                plan
                activity := .sending
                  { job with deadline := now + (watchdogFor s rest + pacing s plan) } } := by
  unfold onSpeed
  split
  next =>
    split
    next =>
      refine Or.inl ⟨"the radio left CW mode", a.wpm, ?_⟩
      rw [withSpeed_self harm]
    next hmode =>
      have hmode : cwMode = true := by simpa using hmode
      dsimp only
      split
      next hsame =>
        refine Or.inr (Or.inl ⟨hmode, ?_, rfl⟩)
        simpa [harm] using hsame
      next =>
        have harm' : (s.withSpeed (s.reported wpm)).arm
            = some { a with wpm := s.reported wpm } := by
          simp [CwSupervisor.withSpeed, harm]
        rcases replan_cases (s := s.withSpeed (s.reported wpm)) env (s.reported wpm) now hact harm'
          hsend with ⟨message, heq⟩ | hreplan
        . exact Or.inl ⟨message, _, heq⟩
        . exact Or.inr (Or.inr ⟨hmode, hreplan⟩)
  next h => exact absurd hact (h _)

theorem onSent_sending (chunk : Chunk) (hact : s.activity = .sending job) (harm : s.arm = some a)
    : onSent env s chunk now
        = { s with
            keyedUntil := some (s.keyedWith env chunk now)
            activity := .sending (job.took chunk)
            idOwed := if chunk.endsId then none else s.idOwed
            arm := some (if chunk.endsId then a.identified now else a) } := by
  unfold onSent
  cases hends : chunk.endsId <;>
    simp [hact, harm, hends, CwSupervisor.keyedWith, Job.took, Arm.identified]

theorem onSent_late (chunk : Chunk) (hact : ∀ job, s.activity ≠ .sending job)
    : onSent env s chunk now = { s with keyedUntil := some (s.keyedWith env chunk now) } := by
  unfold onSent
  cases h : s.activity with
  | sending job => exact absurd h (hact job)
  | _ => simp [CwSupervisor.keyedWith]

theorem complete_idle {outcome : CwOutcome} (out : s.outstanding = none)
    : complete env s outcome now = s := by
  simp [complete, out]

end answers

theorem keyed_due {margin : Duration} (h : ¬s.keyedUntil.any (now < · + margin) = true)
    : ∀ u ∈ s.keyedUntil, u + margin ≤ now := by
  intro u hu
  rw [Option.mem_def] at hu
  simpa [hu] using h

theorem go_outstanding {action : CwAction} {fuel : Nat}
    (h : (nextAction.go now fuel s).2 = some action)
    : ∃ step, (nextAction.go now fuel s).1.outstanding = some step ∧ step.action = some action := by
  induction fuel generalizing s with
  | zero => simp [nextAction.go] at h
  | succ fuel ih =>
    unfold nextAction.go at h ⊢
    cases hplan : s.plan with
    | nil =>
      simp only [hplan] at h ⊢
      by_cases hmore : (finish s now).2 = true
      . simp only [hmore, if_true] at h ⊢
        exact ih h
      . simp [hmore] at h
    | cons step rest =>
      cases step with
      | waitKeyed margin =>
        simp only [hplan] at h ⊢
        by_cases hwait : s.keyedUntil.any (now < · + margin) = true
        . simp [hwait] at h
        . rw [if_neg hwait] at h ⊢
          exact ih h
      | waitReady =>
        simp only [hplan] at h ⊢
        by_cases hwait : s.readyRetryAt.any (now < ·) = true
        . simp [hwait] at h
        . rw [if_neg hwait] at h ⊢
          exact ⟨_, rfl, h⟩
      | _ =>
        simp only [hplan] at h ⊢
        exact ⟨_, rfl, h⟩

theorem nextAction_outstanding {action : CwAction} (h : (nextAction env s now).2 = some action)
    : ∃ step, (nextAction env s now).1.outstanding = some step ∧ step.action = some action := by
  unfold nextAction at h ⊢
  split
  next hout =>
    rw [if_pos hout] at h
    contradiction
  next hout =>
    rw [if_neg hout] at h
    exact go_outstanding h

theorem mem_shown_nextAction {e : Event} (h : e ∈ Call.nextAction.shown env now s)
    : (∃ callsign job, e = .stopped callsign job) ∨ (∃ n, e = .notice n)
        ∨ ∃ action, e = .issued action := by
  simp only [Call.shown, Call.run, List.mem_append, List.mem_map] at h
  rcases h with ((h | h) | ⟨n, _, rfl⟩) | h
  . simp at h
  . unfold Call.stopped at h
    split at h
    . exact Or.inl ⟨_, _, List.mem_singleton.mp h⟩
    . simp at h
  . exact Or.inr (Or.inl ⟨n, rfl⟩)
  . obtain ⟨action, _, rfl⟩ := Option.map_eq_some_iff.mp (Option.mem_toList.mp h)
    exact Or.inr (Or.inr ⟨action, rfl⟩)

section console

-- What a console asks for is planned: only the pump takes steps up and puts them down.

@[simp]
theorem beginStop_outstanding (reason : StopReason) (message : Option String) (after : After)
    : (beginStop s reason message after).outstanding = s.outstanding := by
  unfold beginStop
  split
  . dsimp only
    split
    . split <;> rfl
    . rfl
  . split <;> rfl

@[simp]
theorem endArm_outstanding (reason : DisarmReason) (stop : StopReason) (ticket : Option Ticket)
    : (endArm s reason stop ticket).outstanding = s.outstanding := by
  unfold endArm
  split
  . apply beginStop_outstanding
  . rfl
  . rfl
  . rfl

@[simp]
theorem refuseArm_outstanding (code : ErrorCode) (message : String)
    : (refuseArm s code message).outstanding = s.outstanding := by
  unfold refuseArm
  dsimp only
  split <;> split <;> rfl

def Call.isConsole : Call → Bool
  | .nextAction | .complete _ | .takeNotices => false
  | _ => true

theorem Call.run_outstanding {c : Call} (h : c.isConsole = true)
    : (c.run env now s).1.outstanding = s.outstanding := by
  cases c with
  | arm owner callsign keyDownCapS =>
    rcases arm_cases s owner callsign keyDownCapS with ⟨_, harm⟩ | ⟨_, _, _, _, _, _, _, _, _, harm⟩
    . simp [run, harm]
    . simp [run, harm]
  | send owner text =>
    rcases send_cases env s owner text now with ⟨_, hsend⟩ | ⟨_, _, _, _, _, _, hsend⟩
    . simp [run, hsend]
    . simp [run, hsend]
  | abort =>
    unfold run Cw.abort
    dsimp only
    split <;> simp
  | disarm owner =>
    rcases disarm_cases s owner with ⟨_, hdisarm⟩ | ⟨_, _, _, _, hdisarm⟩
    . simp [run, hdisarm]
    . simp [run, hdisarm]
  | detached id =>
    unfold run Cw.detached
    dsimp only
    split <;> split <;> simp
  | shutdown =>
    unfold run Cw.shutdown
    dsimp only
    split
    . simp
    . split <;> simp
  | nextAction | complete _ | takeNotices => cases h

theorem Call.not_issued {c : Call} (h : c.isConsole = true) (action : CwAction)
    : .issued action ∉ c.shown env now s := by
  have hasked : .issued action ∉ (c.run env now s).2.1 ∧ (c.run env now s).2.2 = none := by
    cases c with
    | arm | send | disarm =>
      refine ⟨?_, rfl⟩
      unfold run
      dsimp only
      split <;> simp
    | abort | detached | shutdown => exact ⟨List.not_mem_nil, rfl⟩
    | nextAction | complete _ | takeNotices => cases h
  intro hmem
  simp only [shown, List.mem_append, List.mem_map, hasked.2] at hmem
  rcases hmem with ((hmem | hmem) | ⟨_, _, hmem⟩) | hmem
  . exact hasked.1 hmem
  . unfold stopped at hmem
    split at hmem
    . simp at hmem
    . simp at hmem
  . cases hmem
  . cases hmem

end console

end Cw
