import RadioCat.Morse.Builder

/-!
This module contains the dialogues of the contacts in which one station is worked at a time, and of
the chase of a rare one.
-/

namespace Morse

open Arith
open Cw (Text)
open Draw
open scoped Arith.FloatOps

namespace Over

variable {S R : Type} {kind : Transmission → Prop} [World]

def greeting : Over S R kind Text :=
  onText do return (← index ["GM", "GA", "GE", "HI", "GD"] (← rangeU32 0 4)).toList

def temp (p : Persona) : Over S R kind Text := do
  if p.region.length = 2 then
    return decimal (← onText (rangeU32 10 95)) ++ ['F']
  else
    return decimal (← onText (rangeU32 0 35)) ++ ['C']

variable [FloatOps R] (cfg : ScenarioConfig S R)

def asksRepeat : Over S R kind Bool :=
  onText (chance cfg.difficulty.repeatRequests)

def ragChew (them : Nat) : Over S R (Among [them]) Unit := do
  let t := Speaker.only them
  let c ← callOf them
  let me ← meCall
  let cq := match ← onText (rangeU32 0 2) with
    | 0 => format "CQ CQ CQ DE % % % K" [c, c, c]
    | 1 => format "CQ CQ DE % % K" [c, c]
    | _ => format "CQ CQ CQ DE % % <AR> K" [c, c]
  speak t cq
  if ← asksRepeat cfg then
    -- Nobody came back the first time.
    speak t cq
  let answer :=
    if ← onText (chance (0.5 : R)) then
      format "% DE % % K" [c, me, me]
    else
      format "% DE % % <AR>" [c, me, me]
  speak .you answer
  let p := (← stationAt them).persona
  let rst ← onText (pickStr rsts)
  let g ← greeting
  let qth := format "%, %" [p.qth, p.region]
  speak t (format ("% DE % % TNX FER CALL <BT> UR RST % % <BT> NAME % % <BT> " ++
    "QTH % % <BT> HW CPY? <AR> % DE % <KN>")
    [me, c, g, rst, rst, p.name, p.name, qth, qth, me, c])
  if ← asksRepeat cfg then
    speak .you (format "% DE % PSE RPT NAME ES QTH <KN>" [c, me])
    speak t (format "% DE % NAME % % % <BT> QTH % % <KN>"
      [me, c, p.name, p.name, p.name, p.qth, p.qth])
  let my ← Over.me
  let myRst ← onText (pickStr rsts)
  speak .you (format ("% DE % R TNX % <BT> UR RST % % <BT> NAME % % <BT> " ++
    "QTH % % <BT> HW? <AR> % DE % <KN>")
    [c, me, p.name, myRst, myRst, my.name, my.name, my.qth, my.qth, c, me])
  let wx ← onText (pickStr weathers)
  let theirTemp ← temp p
  speak t (format ("% DE % R FB % <BT> RIG % PWR %W ANT % <BT> WX % % " ++
    "<BT> <AR> % DE % <KN>")
    [me, c, my.name, p.rig, decimal p.powerW, p.antenna, wx, theirTemp, me, c])
  if ← asksRepeat cfg then
    speak .you (format "% DE % PSE RPT RIG? <KN>" [c, me])
    speak t (format "% DE % RIG % % <KN>" [me, c, p.rig, p.rig])
  let myWx ← onText (pickStr weathers)
  let myTemp ← temp my
  speak .you (format ("% DE % R <BT> RIG % PWR %W ANT % <BT> WX % % <BT> " ++
    "TNX FER QSO % 73 <AR> % DE % <KN>")
    [c, me, my.rig, decimal my.powerW, my.antenna, myWx, myTemp, p.name, c, me])
  let close ← onText (pickStr ["73 ES GUD DX", "73 ES CUL", "73 GL"])
  speak t (format "% DE % TNX FER FB QSO % <BT> % <SK> % DE % TU E E"
    [me, c, my.name, close, me, c])
  speak .you (format "% DE % TU 73 <SK> E E" [c, me])

def theirExchange (exchange : ContestExchange) (them : Nat) : Over S R kind Text := do
  match exchange with
  | .cqZone => return decimal (← stationAt them).persona.zone
  | .serial =>
    let s ← onText (rangeU32 1 1500)
    if s < 100 then
      return if ← onText (chance (0.5 : R)) then padded 3 s else decimal s
    else
      return decimal s

/-- One contact of a contest. The serial number that the operator is at comes out. -/
def contestContact (exchange : ContestExchange) (cutNumbers : Bool) (me : Text)
    (them mySerial : Nat)
    : Over S R (Among [them]) Nat := do
  let t := Speaker.only them
  let c ← callOf them
  let cq := match ← onText (rangeU32 0 2) with
    | 0 => format "CQ TEST % %" [c, c]
    | 1 => format "TEST %" [c]
    | _ => format "CQ % TEST" [c]
  speak t cq
  speak .you me
  if ← asksRepeat cfg then
    speak t (format "%?" [me.take 2])
    speak .you (format "% %" [me, me])
  let theirX ← theirExchange exchange them
  let (myX, mySerial) ← match exchange with
    | .cqZone => pure (decimal (← Over.me).zone, mySerial)
    | .serial => pure (decimal (mySerial + 1), mySerial + 1)
  let theirX := if cutNumbers then cut theirX else theirX
  let myX := if cutNumbers then cut myX else myX
  speak t (format "% 5NN %" [me, theirX])
  if ← asksRepeat cfg then
    speak .you "AGN?".toList
    speak t (format "5NN % %" [theirX, theirX])
  speak .you (format "TU 5NN %" [myX])
  if ← asksRepeat cfg then
    speak t (if exchange = .serial then "NR?".toList else "ZONE?".toList)
    speak .you (format "% %" [myX, myX])
  let tu := match ← onText (rangeU32 0 2) with
    | 0 => format "TU %" [c]
    | 1 => "TU".toList
    | _ => "TU TEST".toList
  speak t tu
  return mySerial

def pota (p2p : Bool) (park : Text) (them : Nat) : Over S R (Among [them]) Unit := do
  let t := Speaker.only them
  let c ← callOf them
  let me ← meCall
  let cq :=
    if ← onText (chance (0.5 : R)) then
      format "CQ POTA CQ POTA DE % % K" [c, c]
    else
      format "CQ POTA DE % % % K" [c, c, park]
  speak t cq
  speak .you (if p2p then format "P2P %" [me] else me)
  if ← asksRepeat cfg then
    speak t "QRZ?".toList
    speak .you (format "% %" [me, me])
  let st := exchangeRegion (← stationAt them).persona
  let g ← greeting
  speak t (format "% % UR 5NN 5NN % % BK" [me, g, st, st])
  let my ← Over.me
  let mst := exchangeRegion my
  let reply := format "BK TU UR 5NN 5NN % %" [mst, mst]
  let reply := reply ++ (my.reference.map fun r => format " P2P % %" [r, r]).getD []
  speak .you (reply ++ " 72 BK".toList)
  if ← asksRepeat cfg then
    speak t "STATE?".toList
    speak .you (format "% %" [mst, mst])
  if ← onText (chance (0.4 : R)) then
    speak .you "PARK?".toList
    speak t (format "% %" [park, park])
  let close ← onText (pickStr ["TU 72 EE", "R TU 72 GL EE", "TU EE"])
  speak t close

def sota (s2s : Bool) (summit : Text) (them : Nat) : Over S R (Among [them]) Unit := do
  let t := Speaker.only them
  let c ← callOf them
  let me ← meCall
  speak t (format "CQ SOTA CQ SOTA DE % % K" [c, c])
  speak .you (if s2s then format "S2S %" [me] else me)
  if ← asksRepeat cfg then
    speak t "QRZ?".toList
    speak .you (format "% %" [me, me])
  let st := exchangeRegion (← stationAt them).persona
  let g ← greeting
  let refPart :=
    if ← onText (chance (0.5 : R)) then format "<BT> REF % %" [summit, summit] else []
  speak t (format "% % UR 5NN 5NN % % % BK" [me, g, st, st, refPart])
  let my ← Over.me
  let mst := exchangeRegion my
  let reply := format "BK R TU UR 5NN % %" [mst, mst]
  let reply := reply ++ (my.reference.map fun r => format " S2S % %" [r, r]).getD []
  speak .you (reply ++ " 73 BK".toList)
  let asked ← if refPart.isEmpty then pure true else asksRepeat cfg
  if asked then
    speak .you "REF?".toList
    speak t (format "% %" [summit, summit])
  let close ← onText (pickStr ["TU 73 EE", "R TU 73 EE", "TU SOTA EE"])
  speak t close

/-- The stations of a list call, and the operator does if `you` is there. -/
def Calls (who : List Nat) (you : Option Text) (t : Transmission) : Prop :=
  Among who t ∧ (t.party = .you → you.isSome = true)

/-- The stations call at once, with `k` of them before. -/
def callIn {who : List Nat} {you : Option Text} (k : Nat)
    : List { i // i ∈ who } → Over S R (Calls who you) Unit
  | [] => pure ()
  | i :: rest => do
    let c ← callOf i.1
    let text := if ← onText (chance (0.4 : R)) then format "% %" [c, c] else c
    let start ←
      if k = 0 then
        gap
      else
        pure (.withPrevious ((← onTiming (rangeU32 0 700)) * 1000000))
    push (Speaker.them i.1 i.2).1 text start
      ⟨(Speaker.them i.1 i.2).2, fun h => Party.noConfusion h⟩
    callIn (k + 1) rest

/-- Everyone who is waiting calls at once, and the operator joins in last. -/
def allCall {who : List Nat} (waiting : List { i // i ∈ who })
    : (you : Option Text) → Over S R (Calls who you) Unit
  | none => callIn 0 waiting
  | some me => do
    callIn 0 waiting
    say .you me fun _ => ⟨fun _ h => Party.noConfusion h, fun _ => rfl⟩

end Over

/-- The part of a base that came through a pileup, its front or its end. -/
def partialCall (front : Bool) (base : Text) : Text :=
  if front then
    base.take ((base.findIdx? Char.isDigit).getD 1 + 1) ++ ['?']
  else
    '?' :: base.drop (base.length - 3)

namespace Over

variable {S R : Type} [World] [FloatOps R] (cfg : ScenarioConfig S R)
variable {who : List Nat} (d : Speaker who) (dc me : Text)

/-- The turn in which the operator gets through. -/
def chaseOwnTurn : Over S R (Among who) Unit := do
  if ← asksRepeat cfg then
    let front ← onText (chance (0.5 : R))
    speak d (partialCall front cfg.myCall.base)
    speak .you (format "% %" [me, me])
  speak d (format "% 5NN" [me])
  let tu ← onText (pickStr ["TU 5NN", "5NN TU", "R 5NN TU"])
  speak .you tu
  speak d (format "TU % UP" [dc])

/-- The turns of the station that is chased, as many as the fuel lasts for. -/
def chaseTurns (before : Nat) : Nat → Nat → List { i // i ∈ who } → Over S R (Among who) Unit
  | 0, _, _ => read fun _ => .error .unending
  | fuel + 1, worked, waiting => do
    (allCall waiting (some me)).weaken fun h => h.imp fun _ ht => ht.1
    if worked = before ∨ waiting.isEmpty then
      chaseOwnTurn cfg d dc me
    else
      let pick ← onText (rangeU32 0 (waiting.length - 1))
      let them ← read fun _ => index waiting pick
      let c ← callOf them.1
      speak d (format "% 5NN" [c])
      let tu ← onText (pickStr ["TU 5NN", "5NN TU", "R 5NN"])
      speak (Speaker.them them.1 them.2) tu
      let next ← onText (pickStr ["TU UP", "TU", "UP"])
      speak d next
      chaseTurns before fuel (worked + 1) (waiting.eraseIdx pick)

def chase (callers dx : Nat) (waiting : List Nat) : Over S R (Among (dx :: waiting)) Unit := do
  let d := Speaker.them dx List.mem_cons_self
  let me ← meCall
  let dc ← callOf dx
  let up ← onText (rangeU32 1 5)
  let cq := match ← onText (rangeU32 0 2) with
    | 0 => format "CQ % UP %" [dc, decimal up]
    | 1 => format "CQ DE % % UP" [dc, dc]
    | _ => format "% UP %" [dc, decimal up]
  speak d cq
  let before ← onText (rangeU32 1 (min callers 3))
  let waiting := waiting.attach.map fun i => ⟨i.1, List.mem_cons_of_mem dx i.2⟩
  chaseTurns cfg d dc me before (waiting.length + 1) 0 waiting

end Over

end Morse
