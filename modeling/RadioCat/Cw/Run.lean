import RadioCat.Trace.Basic
import RadioCat.Cw.Impl.Api

/-!
This module contains the runs of a supervisor: any calls, from any consoles and from the pump, in
any order, at times that never go back and with any answers of the radio. A run keeps a log of the
requests that were accepted, the actions that were issued, the answers they got, the jobs that were
stopped and the notices that were emitted.
-/

namespace Cw

inductive Call where
  | arm (owner : ConsoleId) (callsign : Text) (keyDownCapS : Option Nat)
  | send (owner : ConsoleId) (text : Text)
  | abort
  | disarm (owner : ConsoleId)
  | detached (id : ConsoleId)
  | shutdown
  | nextAction
  | complete (outcome : CwOutcome)
  | takeNotices

/--
What a run shows. `sent` and `answered` carry the supervisor that the request and the answer found.
-/
inductive Event where
  | armed (owner : ConsoleId) (callsign : Text) (ticket : Ticket)
  | sent (s : CwSupervisor) (owner : ConsoleId) (text : Text) (job : Nat)
  | disarmed (owner : ConsoleId) (ticket : Ticket)
  | stopped (callsign : Text) (job : Job)
  | issued (action : CwAction)
  | answered (s : CwSupervisor) (step : Step) (outcome : CwOutcome)
  | notice (n : CwNotice)

structure Entry where
  time : Instant
  event : Event

abbrev Log := List Entry

def Log.actions (log : Log) : List CwAction :=
  log.reverse.filterMap fun e => match e.event with
    | .issued action => some action
    | _ => none

structure Timed where
  now : Instant
  sup : CwSupervisor

section

variable (env : Env)

namespace Call

def run (now : Instant) (s : CwSupervisor) : Call → CwSupervisor × List Event × Option CwAction
  | .arm owner callsign keyDownCapS =>
    let res := Cw.arm s owner callsign keyDownCapS
    let asked := match res.2 with
      | .ok ticket => [.armed owner callsign ticket]
      | .error _ => []
    (res.1, asked, none)
  | .send owner text =>
    let res := Cw.send env s owner text now
    let asked := match res.2 with
      | .ok job => [.sent s owner text job]
      | .error _ => []
    (res.1, asked, none)
  | .abort => (Cw.abort s, [], none)
  | .disarm owner =>
    let res := Cw.disarm s owner
    let asked := match res.2 with
      | .ok ticket => [.disarmed owner ticket]
      | .error _ => []
    (res.1, asked, none)
  | .detached id => (Cw.detached s id, [], none)
  | .shutdown => (Cw.shutdown s, [], none)
  | .nextAction =>
    let res := Cw.nextAction env s now
    (res.1, [], res.2)
  | .complete outcome =>
    let asked := match s.outstanding with
      | some step => [.answered s step outcome]
      | none => []
    (Cw.complete env s outcome now, asked, none)
  | .takeNotices => ((Cw.takeNotices s).1, [], none)

def stopped (s s' : CwSupervisor) : List Event :=
  match s.activity, s'.activity, s.arm with
  | .sending job, .stopping .., some a => [.stopped a.callsign job]
  | _, _, _ => []

def emitted (s s' : CwSupervisor) : List CwNotice :=
  -- Notices are only ever appended, and `takeNotices` leaves none.
  s'.notices.drop s.notices.length

def shown (now : Instant) (s : CwSupervisor) (c : Call) : List Event :=
  let res := c.run env now s
  res.2.1 ++ stopped s res.1 ++ (emitted s res.1).map .notice ++ (res.2.2.map .issued).toList

end Call

/--
One call, no earlier than the call before it.
-/
inductive CallStep : Timed → List Entry → Timed → Prop where
  | call (c : Call) (w : Timed) (t : Instant) (le : w.now ≤ t)
    : CallStep w ((c.shown env t w.sup).map (Entry.mk t)) ⟨t, (c.run env t w.sup).1⟩

abbrev Calls : Timed → Log → Timed → Prop :=
  Trace.Exec (CallStep env)

def Run (capability : CwCapability) (config : CwConfig) : Log → Timed → Prop :=
  Calls env ⟨0, new capability config⟩

def play (w : Timed) : List (Duration × Call) → Log × Timed
  | [] => ([], w)
  | (d, c) :: script =>
    let t := w.now + d
    let res := play ⟨t, (c.run env t w.sup).1⟩ script
    (res.1 ++ ((c.shown env t w.sup).map (Entry.mk t)).reverse, res.2)

theorem calls_play (w : Timed) (script : List (Duration × Call))
    : Calls env w (play env w script).1 (play env w script).2 := by
  induction script generalizing w with
  | nil => exact Trace.Exec.refl w
  | cons x script ih =>
    obtain ⟨d, c⟩ := x
    have hcall : CallStep env w _ _ := CallStep.call c w (w.now + d) (Nat.le_add_right _ _)
    exact (Trace.Exec.single hcall).trans (ih _)

end

/-
A bench to play scripts on: the two radios the tests of the source are written for, and an estimate
of one second for each character.
-/
namespace Bench

def env : Env where
  estimate text _ := .fromSecs text.length
  secs _ := ""
  debugChar _ := ""
  debugText _ := ""
  debugDuration _ := ""

def charset : Text :=
  "ABCDEFGHIJKLMNOPQRSTUVWXYZ0123456789/?=+.,".toList

def kenwood : CwCapability where
  keyerWpm := some { min := 10, max := 60 }
  sendText := some
    { maxChunkChars := 24
      charset
      pacing := .bufferFlag
      abort := .drainOnly
      requiresBreakIn := none }
  txGate := some { lowPowerRaw := 5 }

def icom : CwCapability where
  keyerWpm := some { min := 6, max := 48 }
  sendText := some
    { maxChunkChars := 30
      charset
      pacing := .estimated
      abort := .radioStop
      requiresBreakIn := some .semi }
  txGate := some { lowPowerRaw := 0 }

def exchange (outcomes : List CwOutcome) : List (Duration × Call) :=
  outcomes.flatMap fun outcome => [(0, .nextAction), (0, .complete outcome)]

def kenwoodKeying : List (Duration × Call) :=
  [(0, .arm 1 ['N', '0', 'C', 'A', 'L', 'L'] none)]
    ++ exchange [.status true false (some 20), .power 100, .done, .power 5]
    ++ [(0, .nextAction), (0, .send 1 ['c', 'q'])]
    ++ exchange [.status true false (some 20), .power 5, .ready true, .status true false (some 20)]
    ++ [(0, .nextAction)]

def icomKeying : List (Duration × Call) :=
  [(0, .arm 1 ['N', '0', 'C', 'A', 'L', 'L'] none)]
    ++ exchange [.status true false (some 20), .power 100, .breakIn .semi, .done, .power 0]
    ++ [(0, .nextAction), (0, .send 1 ['c', 'q'])]
    ++ exchange [.status true false (some 20), .power 0]
    ++ [(0, .nextAction)]

def run (capability : CwCapability) (script : List (Duration × Call)) : Log × Timed :=
  play env ⟨0, new capability {}⟩ script

theorem isRun (capability : CwCapability) (script : List (Duration × Call))
    : Run env capability {} (run capability script).1 (run capability script).2 :=
  calls_play env _ script

end Bench

end Cw
