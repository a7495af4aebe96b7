import RadioCat.Cw.Impl.Internals

/-!
This module contains the calls a supervisor answers: the requests of the consoles, the two halves of
one exchange with the radio, and the queries.
-/

namespace Cw

variable (env : Env)

def armPlan (send : CwSendText) (gate : TxGateCapability) : List Step :=
  armReads send ++ .setPower gate.lowPowerRaw :: armWrites send gate
where
  armReads (send : CwSendText) : List Step :=
    [.status, .snapPower] ++ if send.requiresBreakIn.isSome then [.snapBreakIn] else []
  armWrites (send : CwSendText) (gate : TxGateCapability) : List Step :=
    .verifyPower gate.lowPowerRaw :: match send.requiresBreakIn with
      | some kind => [.setBreakIn kind, .verifyBreakIn kind]
      | none => []

def arm (s : CwSupervisor) (owner : ConsoleId) (callsign : Text) (keyDownCapS : Option Nat)
    : CwSupervisor × Except HostRefusal Ticket :=
  match s.sendText, s.gate with
  | some send, some gate =>
    if s.shuttingDown then
      (s, .error (refusal .forbidden "the server is shutting down"))
    else
      match s.activity with
      | .restoring _ _ _ (some e) _ =>
        (s, .error (refusal .forbidden s!"the last arm's restore has not been verified: {e}"))
      | .restoring _ _ _ none _ =>
        (s, .error (refusal .forbidden "the last arm is still being restored"))
      | _ =>
        match heldBy s with
        | some holder =>
          let message :=
            if holder = owner then
              "this console is already armed"
            else
              "another console holds the CW transmit arm"
          (s, .error (refusal .forbidden message))
        | none =>
          let cap :=
            min ((keyDownCapS.map Duration.fromSecs).getD s.config.keyDownCap) s.config.keyDownCap
          let (s, ticket) := ticket s
          let s :=
            { s with
              snap := {}
              plan := armPlan send gate
              activity := .arming ticket owner callsign.toAsciiUppercase cap s.slowestWpm }
          (s, .ok ticket)
  | _, _ => (s, .error (refusal .unsupported "this radio cannot send CW text over CAT"))
where
  heldBy (s : CwSupervisor) : Option ConsoleId :=
    match s.arm, s.activity with
    | some arm, _ => some arm.owner
    | none, .arming _ owner .. => some owner
    | none, _ => none

def idDue (s : CwSupervisor) (arm : Arm) (now : Instant) : Bool :=
  match arm.lastId with
  | some t => now - t ≥ s.config.idInterval
  | none => true

def idTextOf (callsign : Text) : Text :=
  'D' :: 'E' :: ' ' :: callsign

def operatorText (text : Text) : Text :=
  List.intercalate [' '] (text.splitWhitespace.map Text.toAsciiUppercase)

def jobFor (s : CwSupervisor) (arm : Arm) (operator : Text) (now : Instant) : Job × Duration :=
  let due := idDue s arm now
  let idText := if due then some (idTextOf arm.callsign) else none
  let idFirst := due && arm.idFirst
  let full := match idText with
    | some id => if idFirst then id ++ ' ' :: operator else operator ++ ' ' :: id
    | none => operator
  let est := env.estimate full arm.wpm
  ({ id := s.nextJob
     total := full.length % 2 ^ 32
     text := full
     operator
     idText
     sent := 0
     started := now
     deadline := now + watchdogFor s est
     hasId := due
     idFirst
     idSent := false
     chunkInRadio := false },
    est)

def send (s : CwSupervisor) (owner : ConsoleId) (text : Text) (now : Instant)
    : CwSupervisor × Except HostRefusal Nat :=
  match s.sendText, s.arm with
  | none, _ => (s, .error (refusal .unsupported "this radio cannot send CW text over CAT"))
  | some _, none => (s, .error (refusal .forbidden "not armed"))
  | some send, some arm =>
    if arm.owner ≠ owner then
      (s, .error (refusal .forbidden "another console holds the CW transmit arm"))
    else if s.activity ≠ .idle then
      (s, .error (refusal .forbidden "a send is already in progress"))
    else
      if text.splitWhitespace.isEmpty then
        (s, .error (refusal .outOfRange "nothing to send"))
      else
        let operator := operatorText text
        match send.rejectedChar operator with
        | some c =>
          (s, .error (refusal .outOfRange ("this keyer cannot send " ++ env.debugChar c)))
        | none =>
          let (job, est) := jobFor env s arm operator now
          if est > arm.cap then
            (s, .error (refusal .outOfRange
              ("about " ++ env.secs est ++ " s at " ++ toString arm.wpm ++ " wpm"
                ++ (if job.hasId then ", with the ID" else "") ++ "; the key-down cap is "
                ++ toString (Duration.asSecs arm.cap) ++ " s")))
          else
            let s :=
              { s with
                nextJob := (s.nextJob + 1) % 2 ^ 32
                plan := [.status, .powerAtMost s.lowPowerRaw]
                activity := .sending job
                arm := some { arm with lastActivity := now } }
            (s, .ok job.id)

def abort (s : CwSupervisor) : CwSupervisor :=
  match s.activity with
  | .sending _ => beginStop s .aborted none .stayArmed
  | _ => s

def disarm (s : CwSupervisor) (owner : ConsoleId) : CwSupervisor × Except HostRefusal Ticket :=
  match s.arm with
  | some arm =>
    if arm.owner = owner then
      match s.activity with
      | .stopping _ _ _ (.restore _ (some _)) =>
        (s, .error (refusal .forbidden "already disarming"))
      | _ =>
        let (s, ticket) := ticket s
        (endArm s .requested .aborted (some ticket), .ok ticket)
    else
      (s, .error (refusal .forbidden "another console holds the CW transmit arm"))
  | none =>
    let message := match s.activity with
      | .arming .. => "arming is still in progress"
      | _ => "not armed"
    (s, .error (refusal .forbidden message))

def detached (s : CwSupervisor) (id : ConsoleId) : CwSupervisor :=
  match s.activity with
  | .arming _ owner .. =>
    if owner = id then refuseArm s .forbidden "the console hung up" else s
  | _ =>
    if s.arm.any (·.owner == id) then
      endArm s .disconnected .disconnected none
    else
      s

def shutdown (s : CwSupervisor) : CwSupervisor :=
  let s := { s with shuttingDown := true }
  match s.activity with
  | .arming .. => refuseArm s .forbidden "the server is shutting down"
  | _ => if s.arm.isSome then endArm s .shutdown .aborted none else s

def Snapshot.mark (snap : Snapshot) : Step → Snapshot
  -- A write that timed out may still have landed.
  | .setPower _ => { snap with powerChanged := true }
  | .setBreakIn _ => { snap with breakInChanged := true }
  | _ => snap

def nextAction (s : CwSupervisor) (now : Instant) : CwSupervisor × Option CwAction :=
  if s.outstanding.isSome then
    (s, none)
  else
    go 64 (checkTimers env s now)
where
  go : Nat → CwSupervisor → CwSupervisor × Option CwAction
    | 0, s => (s, none)
    | fuel + 1, s =>
      match s.plan with
      | [] =>
        let (s, more) := finish s now
        if more then go fuel s else (s, none)
      | .waitKeyed margin :: rest =>
        if s.keyedUntil.any (now < · + margin) then
          (s, none)
        else
          go fuel { s with plan := rest }
      | .waitReady :: rest =>
        if s.readyRetryAt.any (now < ·) then
          (s, none)
        else
          ({ s with readyRetryAt := none, plan := rest, outstanding := some .waitReady },
            some .ready)
      | step :: rest =>
        ({ s with plan := rest, snap := s.snap.mark step, outstanding := some step }, step.action)

def complete (s : CwSupervisor) (outcome : CwOutcome) (now : Instant) : CwSupervisor :=
  match s.outstanding with
  | none => s
  | some step =>
    let s := { s with outstanding := none }
    match step, outcome with
    | _, .failed error => fail s error now
    | .status, .status cwMode transmitting wpm => onStatus env s cwMode transmitting wpm
    | .checkSpeed, .status cwMode _ wpm => onSpeed env s cwMode wpm now
    | .snapPower, .power p => { s with snap := { s.snap with power := some p } }
    | .verifyPower want, .power p =>
      if p = want then s else fail s s!"power read back {p}, wanted {want}" now
    | .powerAtMost max, .power p =>
      if p > max then
        beginStop s .error (some s!"power reads {p}, above the {max} it was clamped to")
          (.restore .powerAboveClamp none)
      else
        s
    | .snapBreakIn, .breakIn k =>
      let s := { s with snap := { s.snap with breakIn := some k } }
      if s.sendText.bind CwSendText.requiresBreakIn = some k then
        -- Already as needed: nothing to set, nothing to undo.
        { s with plan := s.plan.filter fun x => !x.isBreakInWrite }
      else
        s
    | .verifyBreakIn want, .breakIn k =>
      if k = want then
        s
      else
        fail s ("break-in read back " ++ k.debug ++ ", wanted " ++ want.debug) now
    | .stop, .done =>
      -- A keyer with a real stop is silent now; one without keeps draining what it holds.
      if s.sendText.map CwSendText.abort = some .radioStop then
        { s with keyedUntil := none }
      else
        s
    | .setPower _, .done => s
    | .setBreakIn _, .done => s
    | .waitReady, .ready true => s
    | .waitReady, .ready false =>
      { s with plan := .waitReady :: s.plan, readyRetryAt := some (now + s.config.tick) }
    | .send chunk, .done => onSent env s chunk now
    | step, other =>
      fail s ("unexpected answer " ++ other.debug env ++ " to " ++ step.debug env) now

def takeNotices (s : CwSupervisor) : CwSupervisor × List CwNotice :=
  ({ s with notices := [] }, s.notices)

namespace CwSupervisor

def blocksExternalPtt (s : CwSupervisor) : Bool :=
  s.arm.isSome || s.activity != .idle

def isLive (s : CwSupervisor) : Bool :=
  s.activity != .idle || !s.plan.isEmpty || s.outstanding.isSome

def isSettled (s : CwSupervisor) : Bool :=
  s.arm.isNone && !s.isLive

def armedState (s : CwSupervisor) (viewer : ConsoleId) : Option ArmedState :=
  s.arm.map fun a => { callsign := a.callsign, powerRaw := a.powerRaw, mine := a.owner == viewer }

def sender (s : CwSupervisor) : SenderState :=
  match s.activity with
  | .sending job => .sending job.id job.sent job.total
  | .stopping job .. => .draining job
  | _ => s.lastSender

def restoreStatus (s : CwSupervisor) : Option RestoreStatus :=
  match s.activity with
  | .restoring _ _ attempts (some e) _ =>
    if attempts > 0 then some { attempts, lastError := e } else none
  | _ => none

end CwSupervisor

end Cw
