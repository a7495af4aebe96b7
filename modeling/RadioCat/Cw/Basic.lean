import Mathlib.Algebra.Ring.Nat
import Mathlib.Data.List.Basic

/-!
This module contains the data the CW transmit supervisor works on: what a radio says it can do, the
supervisor's policy numbers, the actions it asks of the radio with their answers, its notices, and
its state. Times are nanoseconds on one clock.
-/

namespace Cw

abbrev Text := List Char
abbrev Instant := Nat
abbrev Duration := Nat
abbrev ConsoleId := Nat

namespace Duration

def fromSecs (n : Nat) : Duration := n * 1000000000

def fromMillis (n : Nat) : Duration := n * 1000000

def asSecs (d : Duration) : Nat := d / 1000000000

end Duration

namespace Text

def isWhitespace (c : Char) : Bool :=
  let n := c.toNat
  (0x9 ≤ n && n ≤ 0xD) || n == 0x20 || n == 0x85 || n == 0xA0 || n == 0x1680
    || (0x2000 ≤ n && n ≤ 0x200A) || n == 0x2028 || n == 0x2029 || n == 0x202F || n == 0x205F
    || n == 0x3000

def splitWhitespace (text : Text) : List Text :=
  (List.splitOnP isWhitespace text).filter (!·.isEmpty)

def toAsciiUppercase (text : Text) : Text :=
  -- Only ASCII letters are folded.
  text.map Char.toUpper

def strip (text : Text) : Text :=
  text.filter (!isWhitespace ·)

end Text

inductive BreakInKind where
  | off
  | semi
  | full
  deriving DecidableEq, Repr

inductive CwPacing where
  | bufferFlag
  | estimated
  deriving DecidableEq, Repr

inductive CwAbort where
  | radioStop
  | drainOnly
  deriving DecidableEq, Repr

structure CwSendText where
  maxChunkChars : Nat
  charset : Text
  pacing : CwPacing
  abort : CwAbort
  requiresBreakIn : Option BreakInKind
  deriving DecidableEq, Repr

def CwSendText.rejectedChar (send : CwSendText) (text : Text) : Option Char :=
  text.find? fun c => c != ' ' && !send.charset.contains c.toUpper

def CwSendText.Sends (send : CwSendText) (c : Char) : Prop :=
  c = ' ' ∨ c.toUpper ∈ send.charset

theorem CwSendText.rejectedChar_eq_none {send : CwSendText} {text : Text}
    : send.rejectedChar text = none ↔ ∀ c ∈ text, send.Sends c := by
  simp only [rejectedChar, Sends, List.find?_eq_none, Bool.and_eq_true, bne_iff_ne,
    Bool.not_eq_true', List.contains_eq_mem, decide_eq_false_iff_not, not_and, not_not,
    or_iff_not_imp_left]

structure TxGateCapability where
  lowPowerRaw : Nat
  deriving DecidableEq, Repr

structure WpmRange where
  min : Nat
  max : Nat
  deriving DecidableEq, Repr

structure CwCapability where
  keyerWpm : Option WpmRange
  sendText : Option CwSendText
  txGate : Option TxGateCapability
  deriving DecidableEq, Repr

structure CwConfig where
  keyDownCap : Duration := .fromSecs 60
  drainBound : Duration := .fromSecs 3
  idleTtl : Duration := .fromSecs 600
  idInterval : Duration := .fromSecs 600
  tick : Duration := .fromMillis 50
  pacingMargin : Duration := .fromMillis 250
  watchdogMargin : Duration := .fromSecs 3
  restoreRetry : Duration := .fromSecs 5
  deriving DecidableEq, Repr

/--
What the supervisor takes from outside itself: the keying estimate, and the renderings of the
standard library that rest on floating point or on Unicode tables. Nothing is assumed of either.
-/
structure Env where
  -- `estimate(text, wpm)`
  estimate : Text → Nat → Duration
  -- `{:.1}` of a duration's `as_secs_f64`
  secs : Duration → String
  -- `{:?}` of a character
  debugChar : Char → String
  -- `{:?}` of a string
  debugText : Text → String
  -- `{:?}` of a duration
  debugDuration : Duration → String

abbrev Ticket := Nat

inductive CwAction where
  | readStatus
  | readPower
  | setPower (raw : Nat)
  | readBreakIn
  | setBreakIn (kind : BreakInKind)
  | ready
  | sendChunk (text : Text)
  | stop
  deriving DecidableEq, Repr

inductive CwOutcome where
  | done
  | status (cwMode transmitting : Bool) (wpm : Option Nat)
  | power (raw : Nat)
  | breakIn (kind : BreakInKind)
  | ready (free : Bool)
  | failed (error : String)
  deriving DecidableEq, Repr

inductive DisarmReason where
  | requested
  | disconnected
  | keyDownCap
  | powerAboveClamp
  | idleTimeout
  | shutdown
  | armFailed
  deriving DecidableEq, Repr

inductive StopReason where
  | completed
  | aborted
  | keyDownCap
  | disconnected
  | error
  deriving DecidableEq, Repr

inductive ErrorCode where
  | notReady
  | versionMismatch
  | unsupported
  | outOfRange
  | malformed
  | forbidden
  deriving DecidableEq, Repr

structure HostRefusal where
  code : ErrorCode
  message : String
  deriving DecidableEq, Repr

inductive CwNotice where
  | reply (ticket : Ticket) (result : Except HostRefusal Unit)
  | armed (owner : ConsoleId) (callsign : Text) (powerRaw : Nat)
  | jobEnded (job : Nat) (reason : StopReason) (message : Option String)
  | restoreFailed (attempts : Nat) (error : String)
  | restored (reason : DisarmReason)
  | idOwed (callsign : Text) (reason : DisarmReason)
  deriving DecidableEq

structure Chunk where
  text : Text
  last : Bool
  endsId : Bool
  deriving DecidableEq, Repr

inductive Step where
  | status
  | snapPower
  | snapBreakIn
  | setPower (raw : Nat)
  | verifyPower (raw : Nat)
  | setBreakIn (kind : BreakInKind)
  | verifyBreakIn (kind : BreakInKind)
  | powerAtMost (raw : Nat)
  | waitReady
  | waitKeyed (margin : Duration)
  | checkSpeed
  | send (chunk : Chunk)
  | stop
  deriving DecidableEq, Repr

def Step.action : Step → Option CwAction
  | .status | .checkSpeed => some .readStatus
  | .snapPower | .verifyPower _ | .powerAtMost _ => some .readPower
  | .snapBreakIn | .verifyBreakIn _ => some .readBreakIn
  | .setPower raw => some (.setPower raw)
  | .setBreakIn kind => some (.setBreakIn kind)
  | .waitReady => some .ready
  | .send chunk => some (.sendChunk chunk.text)
  | .stop => some .stop
  | .waitKeyed _ => none

structure Snapshot where
  power : Option Nat := none
  breakIn : Option BreakInKind := none
  powerChanged : Bool := false
  breakInChanged : Bool := false
  deriving DecidableEq, Repr

structure Arm where
  owner : ConsoleId
  callsign : Text
  cap : Duration
  powerRaw : Nat
  wpm : Nat
  lastActivity : Instant
  lastId : Option Instant
  idFirst : Bool
  deriving DecidableEq, Repr

structure Job where
  id : Nat
  text : Text
  operator : Text
  idText : Option Text
  total : Nat
  sent : Nat
  started : Instant
  deadline : Instant
  hasId : Bool
  idFirst : Bool
  idSent : Bool
  chunkInRadio : Bool
  deriving DecidableEq, Repr

inductive After where
  | stayArmed
  | restore (reason : DisarmReason) (ticket : Option Ticket)
  deriving DecidableEq, Repr

inductive Activity where
  | idle
  | arming (ticket : Ticket) (owner : ConsoleId) (callsign : Text) (cap : Duration) (wpm : Nat)
  | sending (job : Job)
  | stopping (job : Nat) (reason : StopReason) (message : Option String) (after : After)
  | restoring (reason : DisarmReason) (ticket : Option Ticket) (attempts : Nat)
      (lastError : Option String) (retryAt : Option Instant)
  deriving DecidableEq, Repr

inductive SenderState where
  | idle
  | sending (job sentChars totalChars : Nat)
  | draining (job : Nat)
  | stopped (job : Nat) (reason : StopReason) (message : Option String)
  deriving DecidableEq, Repr

structure ArmedState where
  callsign : Text
  powerRaw : Nat
  mine : Bool
  deriving DecidableEq, Repr

structure RestoreStatus where
  attempts : Nat
  lastError : String
  deriving DecidableEq, Repr

structure CwSupervisor where
  sendText : Option CwSendText
  gate : Option TxGateCapability
  slowestWpm : Nat
  config : CwConfig
  arm : Option Arm := none
  activity : Activity := .idle
  plan : List Step := []
  outstanding : Option Step := none
  readyRetryAt : Option Instant := none
  snap : Snapshot := {}
  keyedUntil : Option Instant := none
  notices : List CwNotice := []
  nextTicket : Nat := 1
  nextJob : Nat := 1
  lastSender : SenderState := .idle
  shuttingDown : Bool := false
  idOwed : Option Text := none

end Cw
