import RadioCat.Cw.Run

/-!
This module contains the moves of the supervisor: everything one of its calls can do, as steps of a
protocol over its state. A call is a sequence of moves. Most calls are one move; `nextAction` makes
several before it issues an action. The guards of the moves hold in every state a run reaches, which
`Shape` says.
-/

namespace Cw

namespace Step

def meets : Step → CwOutcome → Bool
  | .status, .status .. => true
  | .checkSpeed, .status .. => true
  | .snapPower, .power _ => true
  | .verifyPower want, .power p => p == want
  | .powerAtMost max, .power p => p ≤ max
  | .snapBreakIn, .breakIn _ => true
  | .verifyBreakIn want, .breakIn k => k == want
  | .setPower _, .done => true
  | .setBreakIn _, .done => true
  | .waitReady, .ready free => free
  | .send _, .done => true
  | .stop, .done => true
  | _, _ => false

def records : Step → CwOutcome → Bool
  | .snapPower, .power _ => true
  | .snapBreakIn, .breakIn _ => true
  | .send _, .done => true
  | .stop, .done => true
  | _, _ => false

def overClamp : Step → CwOutcome → Bool
  | .powerAtMost max, .power p => max < p
  | _, _ => false

@[simp]
theorem records_status (outcome : CwOutcome) : records .status outcome = false := by
  cases outcome <;> rfl

@[simp]
theorem records_checkSpeed (outcome : CwOutcome) : records .checkSpeed outcome = false := by
  cases outcome <;> rfl

@[simp]
theorem records_waitReady (outcome : CwOutcome) : records .waitReady outcome = false := by
  cases outcome <;> rfl

@[simp]
theorem records_powerAtMost (max : Nat) (outcome : CwOutcome)
    : records (.powerAtMost max) outcome = false := by
  cases outcome <;> rfl

def isRead : Step → Bool
  | .status | .snapPower | .snapBreakIn => true
  | _ => false

def isKeying : Step → Bool
  | .status | .powerAtMost _ | .waitKeyed _ | .waitReady | .checkSpeed | .send _ => true
  | _ => false

def isStopping : Step → Bool
  | .waitReady | .stop | .waitKeyed _ => true
  | _ => false

def isRestoring : Step → Bool
  | .waitKeyed _ | .setPower _ | .verifyPower _ | .setBreakIn _ | .verifyBreakIn _ => true
  | _ => false

end Step

namespace CwSupervisor

def todo (s : CwSupervisor) : List Step :=
  s.outstanding.toList ++ s.plan

theorem todo_of_none {s : CwSupervisor} (out : s.outstanding = none) : s.todo = s.plan := by
  simp [todo, out]

theorem todo_of_some {s : CwSupervisor} {step : Step} (out : s.outstanding = some step)
    : s.todo = step :: s.plan := by
  simp [todo, out]

theorem not_starting {s : CwSupervisor} {step : Step} {rest : List Step}
    (htodo : s.todo = step :: rest) (hstep : step ≠ .status)
    : ¬ ∃ max, s.todo = [.status, .powerAtMost max] := by
  rintro ⟨max, h⟩
  rw [htodo, List.cons.injEq] at h
  exact hstep h.1

def answered (s : CwSupervisor) : CwSupervisor :=
  { s with outstanding := none }

def withSpeed (s : CwSupervisor) (wpm : Nat) : CwSupervisor :=
  { s with arm := s.arm.map fun a => { a with wpm } }

def stopJob (s : CwSupervisor) (a : Arm) (job : Job) (reason : StopReason)
    (message : Option String) (after : After) : CwSupervisor :=
  let owes := job.hasId && !job.idSent
  let keyed := job.chunkInRadio || s.outstanding.any Step.isSend
  { s with
    arm := some { a with idFirst := owes || a.idFirst }
    idOwed := if owes && keyed then some a.callsign else s.idOwed
    plan := [.stop, .waitKeyed s.config.pacingMargin]
    readyRetryAt := none
    activity := .stopping job.id reason message after }

def keyedWith (s : CwSupervisor) (env : Env) (chunk : Chunk) (now : Instant) : Instant :=
  onSent.start now s + env.estimate chunk.text s.speed

def owedNotice (s : CwSupervisor) (reason : DisarmReason) : List CwNotice :=
  s.idOwed.toList.map (.idOwed · reason)

end CwSupervisor

def Job.took (job : Job) (chunk : Chunk) : Job :=
  { job with
    chunkInRadio := true
    sent := if chunk.last then job.total else min (job.sent + chunk.text.length + 1) job.total
    idSent := chunk.endsId || job.idSent }

def Arm.identified (a : Arm) (now : Instant) : Arm :=
  { a with lastId := some now, idFirst := false }

inductive Request where
  | other
  | disarm (owner : ConsoleId)

namespace Request

def owner : Request → Option ConsoleId
  | other => none
  | disarm owner => some owner

def ticket (s : CwSupervisor) (r : Request) : Option Ticket :=
  r.owner.map fun _ => s.nextTicket

def events (s : CwSupervisor) (r : Request) : List Event :=
  r.owner.toList.map (.disarmed · s.nextTicket)

def apply (s : CwSupervisor) (r : Request) : CwSupervisor :=
  { s with
    nextTicket := match r with
      | other => s.nextTicket
      | disarm _ => s.nextTicket + 1 }

end Request

inductive Cause where
  | request
  | answer (step : Step) (outcome : CwOutcome)

namespace Cause

def answers : Cause → List (Step × CwOutcome)
  | request => []
  | answer step outcome => [(step, outcome)]

def Valid (s : CwSupervisor) (c : Cause) : Prop :=
  ∀ x ∈ c.answers, s.outstanding = some x.1 ∧ x.1.records x.2 = false

theorem valid_request (s : CwSupervisor) : Valid s .request := by
  simp [Valid, answers]

theorem valid_answer {s : CwSupervisor} {step : Step} {outcome : CwOutcome}
    (out : s.outstanding = some step) (plain : step.records outcome = false)
    : Valid s (.answer step outcome) := by
  simp [Valid, answers, out, plain]

def events (s : CwSupervisor) (c : Cause) : List Event :=
  c.answers.map fun x => .answered s x.1 x.2

def apply (s : CwSupervisor) (c : Cause) : CwSupervisor :=
  { s with
    outstanding := match c with
      | request => s.outstanding
      | answer .. => none }

end Cause

namespace After

def ticket : After → Option Ticket
  | .stayArmed => none
  | .restore _ ticket => ticket

def restoring (reason : DisarmReason) (ticket : Option Ticket) : After → After
  -- The reason of a restore that was asked for before is kept.
  | .stayArmed => .restore reason ticket
  | .restore existing _ => .restore existing ticket

end After

def Event.isPlain : Event → Bool
  | .armed .. | .sent .. | .issued _ => false
  | .disarmed .. | .stopped .. | .notice _ => true
  | .answered _ step outcome => !step.records outcome

def Plain (evs : List Event) : Prop :=
  ∀ e ∈ evs, e.isPlain = true

section Plain

@[simp]
theorem plain_nil : Plain [] := by
  simp [Plain]

@[simp]
theorem plain_cons {e : Event} {evs : List Event}
    : Plain (e :: evs) ↔ e.isPlain = true ∧ Plain evs := by
  simp [Plain]

@[simp]
theorem plain_append {evs evs' : List Event}
    : Plain (evs ++ evs') ↔ Plain evs ∧ Plain evs' := by
  simp [Plain, or_imp, forall_and]

@[simp]
theorem plain_map {α : Type} {l : List α} {f : α → Event}
    : Plain (l.map f) ↔ ∀ x ∈ l, (f x).isPlain = true := by
  simp [Plain]

theorem Request.plain_events (s : CwSupervisor) (r : Request) : Plain (r.events s) := by
  simp [events, Event.isPlain]

theorem Cause.plain_events {s : CwSupervisor} {c : Cause} (valid : c.Valid s)
    : Plain (c.events s) := by
  rw [events, plain_map]
  intro x hx
  simp [Event.isPlain, (valid x hx).2]

end Plain

variable (env : Env) (now : Instant)

inductive Move : CwSupervisor → List Event → CwSupervisor → Prop where
  | takeNotices (s : CwSupervisor) : Move s [] { s with notices := [] }
  | shutdown (s : CwSupervisor) : Move s [] { s with shuttingDown := true }
  | arm {s : CwSupervisor} {send : CwSendText} {gate : TxGateCapability} (owner : ConsoleId)
      (callsign : Text) (cap : Duration) (hcap : cap ≤ s.config.keyDownCap)
      (hsend : s.sendText = some send) (hgate : s.gate = some gate)
      (hup : s.shuttingDown = false) (hact : s.activity = .idle) (harm : s.arm = none)
    : Move s [.armed owner callsign s.nextTicket]
        { s with
          nextTicket := s.nextTicket + 1
          snap := {}
          plan := armPlan send gate
          activity := .arming s.nextTicket owner callsign.toAsciiUppercase cap s.slowestWpm }
  | send {s : CwSupervisor} {a : Arm} (text : Text)
      (hwords : text.splitWhitespace.isEmpty = false)
      (hest : (jobFor env s a (operatorText text) now).2 ≤ a.cap)
      (hact : s.activity = .idle) (harm : s.arm = some a)
    : Move s [.sent s a.owner text s.nextJob]
        { s with
          nextJob := (s.nextJob + 1) % 2 ^ 32
          plan := [.status, .powerAtMost s.lowPowerRaw]
          activity := .sending (jobFor env s a (operatorText text) now).1
          arm := some { a with lastActivity := now } }
  /- A job is stopped by a request or the watchdog, or by an answer. -/
  | stop {s : CwSupervisor} {a : Arm} {job : Job} (r : Request) (reason : StopReason)
      (message : Option String) (after : After) (hafter : after.ticket = r.ticket s)
      (hreason : reason ≠ .completed) (hact : s.activity = .sending job) (harm : s.arm = some a)
    : Move s (r.events s ++ [.stopped a.callsign job])
        ((r.apply s).stopJob a job reason message after)
  | stopAnswer {s : CwSupervisor} {step : Step} {a : Arm} {job : Job} (outcome : CwOutcome)
      (wpm : Nat) (message : String) (after : After) (hafter : after.ticket = none)
      (out : s.outstanding = some step) (plain : step.records outcome = false)
      (hact : s.activity = .sending job) (harm : s.arm = some a)
    : Move s [.answered s step outcome, .stopped a.callsign job]
        ((s.answered.withSpeed wpm).stopJob { a with wpm } job .error (some message) after)
  /- An arm is ended while its job is already stopping, or while it is idle. -/
  | endStopping {s : CwSupervisor} {job : Nat} {why : StopReason} {message : Option String}
      {after : After} (r : Request) (reason : DisarmReason)
      (hact : s.activity = .stopping job why message after) (hafter : after.ticket = none)
    : Move s (r.events s)
        { r.apply s with
          activity := .stopping job why message (after.restoring reason (r.ticket s)) }
  | endIdle {s : CwSupervisor} {a : Arm} (r : Request) (reason : DisarmReason)
      (hact : s.activity = .idle) (harm : s.arm = some a)
    : Move s (r.events s ++ (s.owedNotice reason).map .notice)
        (startRestore (r.apply s) reason (r.ticket s))
  | refuse {s : CwSupervisor} {ticket : Ticket} {owner : ConsoleId} {callsign : Text}
      {cap : Duration} {wpm : Nat} (c : Cause) (r : HostRefusal) (valid : c.Valid s)
      (hact : s.activity = .arming ticket owner callsign cap wpm)
      (clean : (s.snap.powerChanged || s.snap.breakInChanged) = false)
    : Move s (c.events s ++ [.notice (.reply ticket (.error r))])
        { c.apply s with
          notices := s.notices ++ [.reply ticket (.error r)]
          plan := []
          activity := .idle
          snap := {} }
  | refuseRestore {s : CwSupervisor} {ticket : Ticket} {owner : ConsoleId} {callsign : Text}
      {cap : Duration} {wpm : Nat} (c : Cause) (r : HostRefusal) (valid : c.Valid s)
      (hact : s.activity = .arming ticket owner callsign cap wpm) (harm : s.arm = none)
      (changed : (s.snap.powerChanged || s.snap.breakInChanged) = true)
    : Move s (c.events s ++ [.notice (.reply ticket (.error r))])
        { c.apply s with
          notices := s.notices ++ [.reply ticket (.error r)]
          plan := restorePlan s
          readyRetryAt := none
          activity := .restoring .armFailed none 0 none none }
  /- What `nextAction` does. -/
  | keyed {s : CwSupervisor} {margin : Duration} {rest : List Step}
      (out : s.outstanding = none) (hplan : s.plan = .waitKeyed margin :: rest)
      (due : ∀ u ∈ s.keyedUntil, u + margin ≤ now)
    : Move s [] { s with plan := rest }
  | issue {s : CwSupervisor} {step : Step} {rest : List Step} {action : CwAction}
      {retryAt : Option Instant} (out : s.outstanding = none) (hplan : s.plan = step :: rest)
      (haction : step.action = some action)
      (hretry : retryAt = if step = .waitReady then none else s.readyRetryAt)
    : Move s [.issued action]
        { s with
          readyRetryAt := retryAt
          plan := rest
          snap := s.snap.mark step
          outstanding := some step }
  | finishArming {s : CwSupervisor} {ticket : Ticket} {owner : ConsoleId} {callsign : Text}
      {cap : Duration} {wpm : Nat} (out : s.outstanding = none) (hplan : s.plan = [])
      (hact : s.activity = .arming ticket owner callsign cap wpm)
    : Move s [.notice (.armed owner callsign s.lowPowerRaw), .notice (.reply ticket (.ok ()))]
        { s with
          notices :=
            s.notices ++ [.armed owner callsign s.lowPowerRaw, .reply ticket (.ok ())]
          arm := some
            { owner, callsign, cap, powerRaw := s.lowPowerRaw, wpm, lastActivity := now,
              lastId := none, idFirst := false }
          activity := .idle }
  | finishSending {s : CwSupervisor} {job : Job} {a : Arm} (out : s.outstanding = none)
      (hplan : s.plan = []) (hact : s.activity = .sending job) (harm : s.arm = some a)
    : Move s [.notice (.jobEnded job.id .completed none)]
        { endJob s job.id .completed none with
          activity := .idle
          arm := some { a with lastActivity := now } }
  | finishStopping {s : CwSupervisor} {job : Nat} {reason : StopReason} {message : Option String}
      {a : Arm} (out : s.outstanding = none) (hplan : s.plan = [])
      (hact : s.activity = .stopping job reason message .stayArmed) (harm : s.arm = some a)
    : Move s [.notice (.jobEnded job reason message)]
        { endJob s job reason message with
          activity := .idle
          arm := some { a with lastActivity := now } }
  | finishStoppingRestore {s : CwSupervisor} {job : Nat} {why : StopReason}
      {message : Option String} {reason : DisarmReason} {ticket : Option Ticket} {a : Arm}
      (out : s.outstanding = none) (hplan : s.plan = [])
      (hact : s.activity = .stopping job why message (.restore reason ticket))
      (harm : s.arm = some a)
    : Move s (.notice (.jobEnded job why message) :: (s.owedNotice reason).map .notice)
        (startRestore (endJob s job why message) reason ticket)
  | retry {s : CwSupervisor} {reason : DisarmReason} {ticket : Option Ticket} {attempts : Nat}
      {lastError : Option String} {retryAt : Instant} (out : s.outstanding = none)
      (hplan : s.plan = []) (due : retryAt ≤ now)
      (hact : s.activity = .restoring reason ticket attempts lastError (some retryAt))
    : Move s []
        { s with
          activity := .restoring reason ticket attempts lastError none
          plan := restorePlan s }
  | finishRestoring {s : CwSupervisor} {reason : DisarmReason} {ticket : Option Ticket}
      {attempts : Nat} {lastError : Option String} (out : s.outstanding = none)
      (hplan : s.plan = [])
      (hact : s.activity = .restoring reason ticket attempts lastError none)
    : Move s
        (.notice (.restored reason) :: ticket.toList.map fun t => .notice (.reply t (.ok ())))
        { s with
          snap := {}
          arm := none
          notices := s.notices ++ .restored reason :: ticket.toList.map fun t => .reply t (.ok ())
          activity := .idle }
  /- What an answer does. -/
  | idleAnswer {s : CwSupervisor} {step : Step} (outcome : CwOutcome)
      (out : s.outstanding = some step) (plain : step.records outcome = false)
      (hact : s.activity = .idle)
    : Move s [.answered s step outcome] s.answered
  | snapPower {s : CwSupervisor} (p : Nat) (out : s.outstanding = some .snapPower)
    : Move s [.answered s .snapPower (.power p)]
        { s.answered with snap := { s.snap with power := some p } }
  | snapBreakIn {s : CwSupervisor} (k : BreakInKind) (out : s.outstanding = some .snapBreakIn)
    : Move s [.answered s .snapBreakIn (.breakIn k)]
        { s.answered with
          snap := { s.snap with breakIn := some k }
          plan :=
            if s.sendText.bind CwSendText.requiresBreakIn = some k then
              s.plan.filter fun x => !x.isBreakInWrite
            else
              s.plan }
  | armStatus {s : CwSupervisor} {ticket : Ticket} {owner : ConsoleId} {callsign : Text}
      {cap : Duration} {old : Nat} (wpm : Option Nat) (out : s.outstanding = some .status)
      (hact : s.activity = .arming ticket owner callsign cap old)
    : Move s [.answered s .status (.status true false wpm)]
        { s.answered with activity := .arming ticket owner callsign cap (s.reported wpm) }
  | armAnswer {s : CwSupervisor} {step : Step} {ticket : Ticket} {owner : ConsoleId}
      {callsign : Text} {cap : Duration} {wpm : Nat} (outcome : CwOutcome)
      (out : s.outstanding = some step) (meets : step.meets outcome = true)
      (plain : step.records outcome = false) (write : step.isRestoring = true)
      (hact : s.activity = .arming ticket owner callsign cap wpm)
    : Move s [.answered s step outcome] s.answered
  | planned {s : CwSupervisor} {send : CwSendText} {a : Arm} {job : Job} {plan : List Step}
      (wpm : Option Nat) (out : s.outstanding = some .status) (hsend : s.sendText = some send)
      (hact : s.activity = .sending job) (harm : s.arm = some a)
      (hest : env.estimate job.text (s.reported wpm) ≤ a.cap)
      (hplan : plan = s.plan
        ++ chunkPlan env s send job.operator job.idText job.idFirst (s.reported wpm))
    : Move s [.answered s .status (.status true false wpm)]
        { s.answered.withSpeed (s.reported wpm) with
          plan
          activity := .sending
            { job with
              deadline := job.started
                + (watchdogFor s (env.estimate job.text (s.reported wpm)) + pacing s plan) } }
  | replanned {s : CwSupervisor} {send : CwSendText} {a : Arm} {job : Job} {pieces : List Chunk}
      {plan : List Step} {rest : Duration} (transmitting : Bool) (wpm : Option Nat)
      (out : s.outstanding = some .checkSpeed) (hsend : s.sendText = some send)
      (hact : s.activity = .sending job) (harm : s.arm = some a)
      (hpieces : pieces = rechunk env s send (s.reported wpm))
      (hrest : rest = (pieces.map fun c => env.estimate c.text (s.reported wpm)).sum)
      (hcap : now - job.started + rest ≤ a.cap)
      (hplan : plan
        = pieces.zipIdx.flatMap (replan.paced send) ++ [.waitKeyed s.config.pacingMargin])
    : Move s [.answered s .checkSpeed (.status true transmitting wpm)]
        { s.answered.withSpeed (s.reported wpm) with
          plan
          activity := .sending
            { job with deadline := now + (watchdogFor s rest + pacing s plan) } }
  | sameSpeed {s : CwSupervisor} {a : Arm} {job : Job} (transmitting : Bool) (wpm : Option Nat)
      (out : s.outstanding = some .checkSpeed) (hact : s.activity = .sending job)
      (harm : s.arm = some a) (same : a.wpm = s.reported wpm)
    : Move s [.answered s .checkSpeed (.status true transmitting wpm)] s.answered
  | sendAnswer {s : CwSupervisor} {step : Step} {job : Job} (outcome : CwOutcome)
      (out : s.outstanding = some step) (meets : step.meets outcome = true)
      (plain : step.records outcome = false)
      (check : step = .waitReady ∨ ∃ max, step = .powerAtMost max)
      (hact : s.activity = .sending job)
    : Move s [.answered s step outcome] s.answered
  | sent {s : CwSupervisor} {chunk : Chunk} {a : Arm} {job : Job}
      (out : s.outstanding = some (.send chunk)) (hact : s.activity = .sending job)
      (harm : s.arm = some a)
    : Move s [.answered s (.send chunk) .done]
        { s.answered with
          keyedUntil := some (s.keyedWith env chunk now)
          activity := .sending (job.took chunk)
          idOwed := if chunk.endsId then none else s.idOwed
          arm := some (if chunk.endsId then a.identified now else a) }
  | sentLate {s : CwSupervisor} {chunk : Chunk} {job : Nat} {why : StopReason}
      {message : Option String} {after : After} (out : s.outstanding = some (.send chunk))
      (hact : s.activity = .stopping job why message after)
    : Move s [.answered s (.send chunk) .done]
        { s.answered with keyedUntil := some (s.keyedWith env chunk now) }
  | busy {s : CwSupervisor} (out : s.outstanding = some .waitReady)
    : Move s [.answered s .waitReady (.ready false)]
        { s.answered with
          plan := .waitReady :: s.plan
          readyRetryAt := some (now + s.config.tick) }
  | silenced {s : CwSupervisor} (out : s.outstanding = some .stop)
    : Move s [.answered s .stop .done]
        { s.answered with
          keyedUntil :=
            if s.sendText.map CwSendText.abort = some .radioStop then none else s.keyedUntil }
  | stopAnswered {s : CwSupervisor} {step : Step} {job : Nat} {why : StopReason}
      {message : Option String} {after : After} (outcome : CwOutcome)
      (out : s.outstanding = some step) (meets : step.meets outcome = true)
      (plain : step.records outcome = false) (hact : s.activity = .stopping job why message after)
    : Move s [.answered s step outcome] s.answered
  | stopFailed {s : CwSupervisor} {step : Step} {job : Nat} {why : StopReason}
      {message : Option String} {after : After} (outcome : CwOutcome)
      (out : s.outstanding = some step) (unmet : step.meets outcome = false)
      (plain : step.records outcome = false)
      (hact : s.activity = .stopping job why message after) (below : step.overClamp outcome = false)
    : Move s [.answered s step outcome]
        { s.answered with
          plan := [.waitKeyed s.config.pacingMargin]
          readyRetryAt := none }
  /- The power is found above the clamp although the job is already stopping. -/
  | overClamp {s : CwSupervisor} {max p job : Nat} {why : StopReason} {message : Option String}
      {after : After} {a : Arm} (out : s.outstanding = some (.powerAtMost max)) (above : max < p)
      (hact : s.activity = .stopping job why message after) (harm : s.arm = some a)
    : Move s
        (.answered s (.powerAtMost max) (.power p)
          :: (s.owedNotice .powerAboveClamp).map .notice)
        (startRestore s.answered .powerAboveClamp none)
  | restoreAnswer {s : CwSupervisor} {step : Step} {reason : DisarmReason}
      {ticket : Option Ticket} {attempts : Nat} {lastError : Option String}
      {retryAt : Option Instant} (outcome : CwOutcome) (out : s.outstanding = some step)
      (meets : step.meets outcome = true) (plain : step.records outcome = false)
      (hact : s.activity = .restoring reason ticket attempts lastError retryAt)
    : Move s [.answered s step outcome] s.answered
  | restoreFailed {s : CwSupervisor} {step : Step} {reason : DisarmReason}
      {ticket : Option Ticket} {attempts : Nat} {lastError : Option String}
      {retryAt : Option Instant} (outcome : CwOutcome) (error : String) (r : HostRefusal)
      (out : s.outstanding = some step) (unmet : step.meets outcome = false)
      (plain : step.records outcome = false)
      (hact : s.activity = .restoring reason ticket attempts lastError retryAt)
    : Move s
        (.answered s step outcome :: .notice (.restoreFailed (attempts + 1) error)
          :: ticket.toList.map fun t => .notice (.reply t (.error r)))
        { s.answered with
          activity := .restoring reason none (attempts + 1) (some error)
            (some (now + s.config.restoreRetry))
          plan := []
          notices := s.notices ++ .restoreFailed (attempts + 1) error
            :: ticket.toList.map fun t => .reply t (.error r) }

inductive MoveStep : Timed → List Entry → Timed → Prop where
  | wait (s : CwSupervisor) {now t : Instant} (le : now ≤ t) : MoveStep ⟨now, s⟩ [] ⟨t, s⟩
  | move {s s' : CwSupervisor} {now : Instant} {evs : List Event} (h : Move env now s evs s')
    : MoveStep ⟨now, s⟩ (evs.map (Entry.mk now)) ⟨now, s'⟩

abbrev Moves : Timed → Log → Timed → Prop :=
  Trace.Exec (MoveStep env)

end Cw
