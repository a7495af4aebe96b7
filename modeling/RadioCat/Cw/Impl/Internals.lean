import RadioCat.Cw.Impl.Chunks

/-!
This module contains the internals of the supervisor: how plans are laid, jobs stopped, arms ended
and restores retried.
-/

namespace Cw

variable (env : Env)

def refusal (code : ErrorCode) (message : String) : HostRefusal :=
  { code, message }

def BreakInKind.debug : BreakInKind → String
  | .off => "Off"
  | .semi => "Semi"
  | .full => "Full"

def CwOutcome.debug : CwOutcome → String
  | .done => "Done"
  | .status cwMode transmitting wpm =>
    let wpm := match wpm with
      | some n => s!"Some({n})"
      | none => "None"
    "Status \x7b cw_mode: " ++ toString cwMode ++ ", transmitting: " ++ toString transmitting
      ++ ", wpm: " ++ wpm ++ " \x7d"
  | .power raw => s!"Power({raw})"
  | .breakIn kind => "BreakIn(" ++ kind.debug ++ ")"
  | .ready free => s!"Ready({free})"
  | .failed error => "Failed(" ++ env.debugText error.toList ++ ")"

def Step.debug : Step → String
  | .status => "Status"
  | .snapPower => "SnapPower"
  | .snapBreakIn => "SnapBreakIn"
  | .setPower raw => s!"SetPower({raw})"
  | .verifyPower raw => s!"VerifyPower({raw})"
  | .setBreakIn kind => "SetBreakIn(" ++ kind.debug ++ ")"
  | .verifyBreakIn kind => "VerifyBreakIn(" ++ kind.debug ++ ")"
  | .powerAtMost raw => s!"PowerAtMost({raw})"
  | .waitReady => "WaitReady"
  | .waitKeyed margin => "WaitKeyed(" ++ env.debugDuration margin ++ ")"
  | .checkSpeed => "CheckSpeed"
  | .send chunk =>
    "Send(Chunk \x7b text: " ++ env.debugText chunk.text ++ ", last: " ++ toString chunk.last
      ++ ", ends_id: " ++ toString chunk.endsId ++ " \x7d)"
  | .stop => "Stop"

def new (capability : CwCapability) (config : CwConfig) : CwSupervisor where
  sendText := capability.sendText
  gate := capability.txGate
  slowestWpm := match capability.keyerWpm with
    | some r => Nat.max r.min 1
    | none => 5
  config := config

def CwSupervisor.reported (s : CwSupervisor) (wpm : Option Nat) : Nat :=
  Nat.max (wpm.getD s.slowestWpm) 1

def CwSupervisor.speed (s : CwSupervisor) : Nat :=
  match s.arm with
  | some arm => arm.wpm
  | none => s.slowestWpm

def CwSupervisor.lowPowerRaw (s : CwSupervisor) : Nat :=
  match s.gate with
  | some gate => gate.lowPowerRaw
  | none => 0

def ticket (s : CwSupervisor) : CwSupervisor × Ticket :=
  ({ s with nextTicket := s.nextTicket + 1 }, s.nextTicket)

def reply (s : CwSupervisor) (ticket : Ticket) (result : Except HostRefusal Unit) : CwSupervisor :=
  { s with notices := s.notices ++ [.reply ticket result] }

def watchdogFor (s : CwSupervisor) (estimate : Duration) : Duration :=
  estimate + estimate / 5 + s.config.watchdogMargin

def Step.isSend : Step → Bool
  | .send _ => true
  | _ => false

def Step.chunk : Step → Option Chunk
  | .send c => some c
  | _ => none

def Step.isBreakInWrite : Step → Bool
  | .setBreakIn _ | .verifyBreakIn _ => true
  | _ => false

def pacing (s : CwSupervisor) (plan : List Step) : Duration :=
  (s.config.tick * 4 + s.config.pacingMargin) * (plan.countP Step.isSend % 2 ^ 32)

def setWatchdog (s : CwSupervisor) (estimate : Duration) : CwSupervisor :=
  let budget := watchdogFor s estimate + pacing s s.plan
  match s.activity with
  | .sending job => { s with activity := .sending { job with deadline := job.started + budget } }
  | _ => s

def endJob (s : CwSupervisor) (job : Nat) (reason : StopReason) (message : Option String)
    : CwSupervisor :=
  { s with
    notices := s.notices ++ [.jobEnded job reason message]
    lastSender := .stopped job reason message }

def restorePlan (s : CwSupervisor) : List Step :=
  -- Only what was changed is written back, and every write is read back.
  let power := match s.snap.powerChanged, s.snap.power with
    | true, some p => [.setPower p, .verifyPower p]
    | _, _ => []
  let breakIn := match s.snap.breakInChanged, s.snap.breakIn with
    | true, some k => [.setBreakIn k, .verifyBreakIn k]
    | _, _ => []
  .waitKeyed s.config.pacingMargin :: (power ++ breakIn)

def planRestore (s : CwSupervisor) : CwSupervisor :=
  { s with plan := restorePlan s }

def startRestore (s : CwSupervisor) (reason : DisarmReason) (ticket : Option Ticket)
    : CwSupervisor :=
  let owed := match s.arm, s.idOwed with
    | some _, some callsign => [.idOwed callsign reason]
    | _, _ => []
  planRestore { s with
    notices := s.notices ++ owed
    arm := none
    readyRetryAt := none
    activity := .restoring reason ticket 0 none none }

def refuseArm (s : CwSupervisor) (code : ErrorCode) (message : String) : CwSupervisor :=
  let s := match s.activity with
    | .arming ticket .. => reply s ticket (.error (refusal code message))
    | _ => s
  let s := { s with plan := [], activity := .idle }
  if s.snap.powerChanged || s.snap.breakInChanged then
    startRestore s .armFailed none
  else
    { s with snap := {} }

def beginStop (s : CwSupervisor) (reason : StopReason) (message : Option String) (after : After)
    : CwSupervisor :=
  match s.activity with
  | .sending job =>
    let s :=
      if job.hasId && !job.idSent then
        let keyed := job.chunkInRadio || s.outstanding.any Step.isSend
        match s.arm with
        | some arm =>
          { s with
            arm := some { arm with idFirst := true }
            idOwed := if keyed then some arm.callsign else s.idOwed }
        | none => s
      else
        s
    { s with
      plan := [.stop, .waitKeyed s.config.pacingMargin]
      readyRetryAt := none
      activity := .stopping job.id reason message after }
  | _ =>
    match after with
    | .restore reason ticket => startRestore s reason ticket
    | .stayArmed => s

def endArm (s : CwSupervisor) (reason : DisarmReason) (stop : StopReason) (ticket : Option Ticket)
    : CwSupervisor :=
  match s.activity with
  | .sending _ => beginStop s stop none (.restore reason ticket)
  | .stopping job why message after =>
    let after := match after with
      | .stayArmed => .restore reason ticket
      | .restore existing none => .restore existing ticket
      | .restore existing (some t) => .restore existing (some t)
    { s with activity := .stopping job why message after }
  | .idle => startRestore s reason ticket
  | _ => s

def fail (s : CwSupervisor) (error : String) (now : Instant) : CwSupervisor :=
  match s.activity with
  | .idle => s
  | .arming .. => refuseArm s .outOfRange error
  | .sending _ => beginStop s .error (some error) .stayArmed
  | .stopping .. =>
    { s with plan := [.waitKeyed s.config.pacingMargin], readyRetryAt := none }
  | .restoring reason ticket attempts _ _ =>
    let s :=
      { s with
        activity :=
          .restoring reason none (attempts + 1) (some error) (some (now + s.config.restoreRetry))
        plan := []
        notices := s.notices ++ [.restoreFailed (attempts + 1) error] }
    match ticket with
    | some t =>
      reply s t (.error (refusal .outOfRange
        s!"restore failed ({error}); the server keeps retrying"))
    | none => s

def drainBoundOf (s : CwSupervisor) (send : CwSendText) : Option Duration :=
  if send.abort = .drainOnly then some s.config.drainBound else none

def chunkPlan (s : CwSupervisor) (send : CwSendText) (operator : Text) (idText : Option Text)
    (idFirst : Bool) (wpm : Nat) : List Step :=
  let piece := fun text => chunks env text send.maxChunkChars (drainBoundOf s send) wpm
  let operator := (piece operator).map fun t => (t, false)
  -- The ID is chunked on its own, so no chunk ever carries both.
  let id := markLast <| match idText with
    | some text => piece text
    | none => []
  let ordered := if idFirst then id ++ operator else operator ++ id
  ordered.zipIdx.flatMap (paced send ordered.length) ++ [.waitKeyed s.config.pacingMargin]
where
  markLast : List Text → List (Text × Bool)
    -- Only the last piece of an ID ends it.
    | [] => []
    | [t] => [(t, true)]
    | t :: ts => (t, false) :: markLast ts
  paced (send : CwSendText) (n : Nat) (x : (Text × Bool) × Nat) : List Step :=
    .waitKeyed 0
      :: (if send.pacing = .bufferFlag then [.waitReady] else [])
      ++ (if send.abort = .drainOnly then [.checkSpeed] else [])
      ++ [.send { text := x.1.1, last := x.2 + 1 == n, endsId := x.1.2 }]

def planChunks (s : CwSupervisor) (operator : Text) (idText : Option Text) (idFirst : Bool)
    (wpm : Nat) : CwSupervisor :=
  match s.sendText with
  | none => s
  | some send => { s with plan := s.plan ++ chunkPlan env s send operator idText idFirst wpm }

def rechunk (s : CwSupervisor) (send : CwSendText) (wpm : Nat) : List Chunk :=
  let remaining := s.plan.filterMap Step.chunk
  remaining.flatMap fun chunk =>
    let parts := chunks env chunk.text send.maxChunkChars (drainBoundOf s send) wpm
    parts.zipIdx.map fun (text, i) =>
      let tail := i + 1 == parts.length
      { text, last := chunk.last && tail, endsId := chunk.endsId && tail }

def replan (s : CwSupervisor) (wpm : Nat) (now : Instant) : CwSupervisor :=
  -- The next chunk goes at once, its pacing waits having been met; the rest are paced as usual.
  match s.sendText with
  | none => s
  | some send =>
    let pieces := rechunk env s send wpm
    let rest := (pieces.map fun c => env.estimate c.text wpm).sum
    let cap := match s.arm with
      | some arm => arm.cap
      | none => 0
    let started := match s.activity with
      | .sending job => job.started
      | _ => now
    let elapsed := now - started
    if elapsed + rest > cap then
      beginStop s .error
        (some ("the keyer speed changed to " ++ toString wpm ++ " wpm; " ++ env.secs elapsed
          ++ " s sent and " ++ env.secs rest ++ " s left is over the "
          ++ toString (Duration.asSecs cap) ++ " s key-down cap"))
        .stayArmed
    else
      let plan :=
        pieces.zipIdx.flatMap (paced send) ++ [.waitKeyed s.config.pacingMargin]
      let s := { s with plan }
      let budget := watchdogFor s rest + pacing s plan
      match s.activity with
      | .sending job => { s with activity := .sending { job with deadline := now + budget } }
      | _ => s
where
  paced (send : CwSendText) (x : Chunk × Nat) : List Step :=
    (if x.2 > 0 then
      .waitKeyed 0
        :: (if send.pacing = .bufferFlag then [.waitReady] else [])
        ++ [.checkSpeed]
    else
      [])
      ++ [.send x.1]

def onStatus (s : CwSupervisor) (cwMode transmitting : Bool) (wpm : Option Nat)
    : CwSupervisor :=
  let wpm := s.reported wpm
  match s.activity with
  | .arming ticket owner callsign cap _ =>
    if !cwMode then
      refuseArm s .forbidden "the radio is not in a CW mode; select CW on the radio first"
    else if transmitting then
      refuseArm s .forbidden "the radio is transmitting"
    else
      { s with activity := .arming ticket owner callsign cap wpm }
  | .sending job =>
    let est := env.estimate job.text wpm
    let cap := match s.arm with
      | some arm => arm.cap
      | none => 0
    let problem :=
      if !cwMode then
        some "the radio left CW mode"
      else if transmitting then
        some "the radio is already transmitting"
      else if est > cap then
        some ("at the radio's " ++ toString wpm ++ " wpm this takes " ++ env.secs est
          ++ " s, over the " ++ toString (Duration.asSecs cap) ++ " s cap")
      else
        none
    match problem with
    | some message => beginStop s .error (some message) .stayArmed
    | none =>
      let s := { s with arm := s.arm.map fun arm => { arm with wpm } }
      setWatchdog (planChunks env s job.operator job.idText job.idFirst wpm) est
  | _ => s

def onSpeed (s : CwSupervisor) (cwMode : Bool) (wpm : Option Nat) (now : Instant)
    : CwSupervisor :=
  match s.activity with
  | .sending _ =>
    if !cwMode then
      beginStop s .error (some "the radio left CW mode") .stayArmed
    else
      let wpm := s.reported wpm
      if s.arm.any (·.wpm == wpm) then
        s
      else
        replan env { s with arm := s.arm.map fun arm => { arm with wpm } } wpm now
  | _ => s

def onSent (s : CwSupervisor) (chunk : Chunk) (now : Instant) : CwSupervisor :=
  let s := { s with keyedUntil := some (start s + env.estimate chunk.text s.speed) }
  match s.activity with
  | .sending job =>
    let job :=
      { job with
        chunkInRadio := true
        sent :=
          if chunk.last then job.total else min (job.sent + chunk.text.length + 1) job.total }
    if chunk.endsId then
      { s with
        activity := .sending { job with idSent := true }
        idOwed := none
        arm := s.arm.map fun arm => { arm with lastId := some now, idFirst := false } }
    else
      { s with activity := .sending job }
  | _ => s
where
  -- Keyed after whatever the radio already holds.
  start (s : CwSupervisor) : Instant :=
    match s.keyedUntil with
    | some t => if t > now then t else now
    | none => now

def checkTimers (s : CwSupervisor) (now : Instant) : CwSupervisor :=
  match s.activity, s.arm with
  | .sending job, _ =>
    if now ≥ job.deadline then
      beginStop s .keyDownCap
        (some ("still keying " ++ env.secs (now - job.started)
          ++ " s after it started; the watchdog stopped it"))
        (.restore .keyDownCap none)
    else
      s
  | .idle, some arm =>
    if now - arm.lastActivity ≥ s.config.idleTtl then
      startRestore s .idleTimeout none
    else
      s
  | _, _ => s

def finish (s : CwSupervisor) (now : Instant) : CwSupervisor × Bool :=
  let active := s.activity
  let s := { s with activity := .idle }
  let touch := fun s : CwSupervisor =>
    { s with arm := s.arm.map fun arm => { arm with lastActivity := now } }
  match active with
  | .idle => (s, false)
  | .arming ticket owner callsign cap wpm =>
    let powerRaw := s.lowPowerRaw
    let s :=
      { s with
        notices := s.notices ++ [.armed owner callsign powerRaw]
        arm := some
          { owner, callsign, cap, powerRaw, wpm, lastActivity := now, lastId := none,
            idFirst := false } }
    (reply s ticket (.ok ()), false)
  | .sending job => (touch (endJob s job.id .completed none), true)
  | .stopping job reason message after =>
    let s := endJob s job reason message
    match after with
    | .stayArmed => (touch s, true)
    | .restore reason ticket => (startRestore s reason ticket, true)
  | .restoring reason ticket attempts lastError retryAt =>
    match retryAt with
    | some at' =>
      if now ≥ at' then
        (planRestore { s with activity := .restoring reason ticket attempts lastError none }, true)
      else
        ({ s with activity := active }, false)
    | none =>
      let s := { s with snap := {}, arm := none, notices := s.notices ++ [.restored reason] }
      match ticket with
      | some ticket => (reply s ticket (.ok ()), false)
      | none => (s, false)

end Cw
