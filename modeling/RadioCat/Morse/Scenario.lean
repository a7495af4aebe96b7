import RadioCat.Morse.Home

/-!
This module contains what a script is generated from and what it consists of: the settings with
their checks, the stations and the transmissions.
-/

namespace Morse

open Arith
open Cw (Text)
open Cw.Text (splitWhitespace)
open Draw
open scoped Arith.FloatOps

inductive TimingError (R : Type) where
  | invalidWpm (w : R)
  | effectiveExceedsChar (character effective : R)
  | invalidFist (why : String)

structure Speed (R : Type) where
  charWpm : R
  effectiveWpm : R

structure Fist (R : Type) where
  dashRatio : R
  weight : R
  elementJitter : R
  letterGapJitter : R
  wordGapJitter : R
  speedDrift : R

section timing

variable {R : Type} [FloatOps R]

def checkWpm (w : R) : Except (TimingError R) R :=
  if FloatOps.isFinite w ∧ 3.0 ≤ w ∧ w ≤ 100.0 then .ok w else .error (.invalidWpm w)

namespace Speed

def wpm (wpm : R) : Except (TimingError R) (Speed R) := do
  let w ← checkWpm wpm
  return { charWpm := w, effectiveWpm := w }

def farnsworth (charWpm effectiveWpm : R) : Except (TimingError R) (Speed R) := do
  let c ← checkWpm charWpm
  let s ← checkWpm effectiveWpm
  if c < s then
    throw (.effectiveExceedsChar c s)
  else
    return { charWpm := c, effectiveWpm := s }

end Speed

def Fist.inRange (v lo hi : R) : Bool :=
  FloatOps.isFinite v && decide (lo ≤ v) && decide (v ≤ hi)

def Fist.validate (f : Fist R) : Except (TimingError R) Unit :=
  if !inRange f.dashRatio 2.0 5.0 then
    .error (.invalidFist "dash_ratio must be in [2, 5]")
  else if !inRange f.weight (-0.4) 0.4 then
    .error (.invalidFist "weight must be in [-0.4, 0.4]")
  else if !inRange f.elementJitter 0.0 0.5 then
    .error (.invalidFist "element_jitter must be in [0, 0.5]")
  else if !inRange f.letterGapJitter 0.0 0.6 || !inRange f.wordGapJitter 0.0 0.6 then
    .error (.invalidFist "gap jitter must be in [0, 0.6]")
  else if !inRange f.speedDrift 0.0 0.2 then
    .error (.invalidFist "speed_drift must be in [0, 0.2]")
  else
    .ok ()

def ofTiming {α : Type} : Except (TimingError R) α → Except ScenarioError α
  | .ok a => .ok a
  | .error _ => .error (.invalidSetting "speed or fist out of range")

end timing

def ofScenario {α : Type} : Except ScenarioError α → Except Stop α
  | .ok a => .ok a
  | .error e => .error (.error e)

inductive ContestExchange where
  | cqZone
  | serial
  deriving DecidableEq, Repr

inductive ScenarioKind where
  | ragChew
  | contest (exchange : ContestExchange) (cutNumbers : Bool)
  | pota (parkToPark : Bool)
  | sota (summitToSummit : Bool)
  | dxPileup (callers : Nat)
  | dxChase (callers : Nat)
  deriving DecidableEq, Repr

structure Difficulty (S R : Type) where
  wpm : Nat × Nat
  farnsworthEffective : Option R
  fists : List (Fist R)
  strengthDb : S × S
  pitchOffsetHz : S × S
  repeatRequests : R
  band : BandConditions
  hfBand : Option HfBand

section difficulty

variable {S R : Type} [FloatOps S] [FloatOps R]

def rangeOk (r : S × S) : Bool :=
  FloatOps.isFinite r.1 && FloatOps.isFinite r.2 && decide (r.1 ≤ r.2)

def Difficulty.validate (d : Difficulty S R) : Except ScenarioError Unit := do
  if d.wpm.1 < 5 ∨ d.wpm.2 > 60 ∨ d.wpm.1 > d.wpm.2 then
    throw (.invalidSetting "wpm range must be within 5..=60")
  if d.farnsworthEffective.any fun e => !(FloatOps.isFinite e && decide (3.0 ≤ e)) then
    throw (.invalidSetting "Farnsworth speed must be ≥ 3 wpm")
  if d.fists.isEmpty then
    throw (.invalidSetting "at least one fist is needed")
  d.fists.forM fun f => ofTiming f.validate
  if !rangeOk d.strengthDb || !rangeOk d.pitchOffsetHz then
    throw (.invalidSetting "ranges must be finite with lo ≤ hi")
  if !(decide (0.0 ≤ d.repeatRequests) && decide (d.repeatRequests ≤ 1.0)) then
    throw (.invalidSetting "repeat_requests must be in [0, 1]")
  d.band.validate

end difficulty

structure ScenarioConfig (S R : Type) where
  kind : ScenarioKind
  myCall : Callsign
  difficulty : Difficulty S R
  seed : BitVec 64

structure SignalProfile (S R : Type) where
  pitchOffsetHz : S
  speed : Speed R
  fist : Fist R
  fistSeed : BitVec 64
  strengthDb : S

structure Persona where
  call : Callsign
  name : Text
  qth : Text
  region : Text
  zone : Nat
  rig : Text
  powerW : Nat
  antenna : Text
  reference : Option Text

structure Station (S R : Type) where
  persona : Persona
  signal : SignalProfile S R

inductive Party where
  | them (i : Nat)
  | you
  deriving DecidableEq, Repr

/-- Times are nanoseconds. -/
inductive Start where
  | afterPrevious (gap : Nat)
  | withPrevious (delay : Nat)
  deriving DecidableEq, Repr

structure Transmission where
  party : Party
  text : Text
  start : Start
  deriving DecidableEq, Repr

structure Script (S R : Type) where
  kind : ScenarioKind
  me : Persona
  stations : List (Station S R)
  transmissions : List Transmission

section tables

def sotaRegions : List (String × List String) :=
  [("W0C", ["FR", "PR", "SR", "SP"]), ("W7W", ["KG", "LC", "CW"]), ("W6", ["CT", "SN", "NC"]),
    ("W4C", ["CM", "EM"]), ("W7A", ["AW", "CN"]), ("G", ["LD", "SP", "NP"]),
    ("GM", ["WS", "ES", "CS"]), ("DL", ["AL"]), ("HB", ["BE", "VS"]), ("VE7", ["GV"])]

def expeditionNames : List String :=
  ["DAVE", "HANS", "KEN", "PAUL", "ADRIAN", "DOM", "JUAN", "KAZU", "MAREK", "ROB"]

def rigs : List String :=
  ["IC-7300", "IC-7610", "IC-705", "K3", "K4", "KX2", "KX3", "FT-991A", "FTDX10", "FT-710",
    "FT-818", "TS-590SG", "TS-890S", "TS-570D", "FLEX 6600", "QCX", "K2"]

def powers : List Nat :=
  [5, 10, 50, 100, 100, 100, 200, 500]

def qrpPowers : List Nat :=
  [5, 5, 10]

def antennas : List String :=
  ["DIPOLE", "EFHW", "VERTICAL", "YAGI", "HEX BEAM", "LOOP", "G5RV", "INV V", "OCF DIPOLE",
    "LONG WIRE"]

def portableAntennas : List String :=
  ["EFHW", "VERTICAL", "LINKED DIPOLE", "WIRE"]

def weathers : List String :=
  ["SUNNY", "CLOUDY", "RAIN", "SNOW", "FOGGY", "WINDY", "CLEAR", "OVERCAST", "HOT", "COLD"]

def rsts : List String :=
  ["599", "589", "579", "569", "559", "549", "449", "559", "579"]

end tables

section texts

/-- The template with its `%`s replaced, one after the other. -/
def fill : Text → List Text → Text
  | [], _ => []
  | '%' :: rest, arg :: args => arg ++ fill rest args
  | c :: rest, args => c :: fill rest args

def format (template : String) (args : List Text) : Text :=
  fill template.toList args

def decimal (n : Nat) : Text :=
  Nat.toDigits 10 n

/-- A number with zeros in front, up to a width. -/
def padded (width n : Nat) : Text :=
  List.replicate (width - (decimal n).length) '0' ++ decimal n

def unwords (words : List Text) : Text :=
  [' '].intercalate words

def normalised (text : Text) : Text :=
  unwords (splitWhitespace text)

def cut (s : Text) : Text :=
  s.map fun c => if c = '0' then 'T' else if c = '9' then 'N' else c

def exchangeRegion (p : Persona) : Text :=
  if p.region.length = 2 then p.region else "DX".toList

end texts

section draws

variable [World]

def pickStr (items : List String) : Draw Text := do
  return (← pick items).toList

/-- What is known of an operator from the home. -/
structure Whereabouts where
  name : Text
  qth : Text
  region : Text
  zone : Nat

def residence (home : Home) : Draw (Text × Text) := do
  match home.region with
  | some r =>
    let (code, towns) ← pick r.subdivisions
    return (← pick towns, if code.length = 2 then code else home.entity.name)
  | none => return (← pick home.entity.towns, home.entity.name)

def whereabouts : Option Home → Draw Whereabouts
  | some home => do
    let (qth, region) ← residence home
    return { name := ← pick home.entity.names, qth, region, zone := home.cq }
  | none => do
    let name ← pickStr expeditionNames
    let zone ← rangeU32 1 40
    return { name, qth := "HOME".toList, region := "DX".toList, zone := zone % 256 }

def equipment (portable : Bool) : Draw (Nat × Text) := do
  if portable then
    return (← pick qrpPowers, ← pickStr portableAntennas)
  else
    return (← pick powers, ← pickStr antennas)

def persona (call : Callsign) (home : Option Home) (portable : Bool) : Draw Persona := do
  let who ← whereabouts home
  let gear ← equipment portable
  let rig ← pickStr rigs
  return {
    call
    name := who.name
    qth := who.qth
    region := who.region
    zone := who.zone
    rig
    powerW := gear.1
    antenna := gear.2
    reference := none }

def myPersona (call : Callsign) : Draw Persona := do
  persona call (← homeOf call) false

variable {S R : Type} [FloatOps S] [FloatOps R] [FloatCast S R]

variable (R) in
def potaRef (iso : Text) : Draw Text := do
  let far ← if iso = "US".toList then chance (0.1 : R) else pure false
  let n ← if far then rangeU32 10000 11999 else rangeU32 1 9999
  return iso ++ '-' :: padded 4 n

def sotaHomeUs (d : Nat) : Except Stop Home := do
  let entity ← byDxcc usa
  return { entity, region := ← entity.regionOf ['W'] d }

def sotaHomeDx (dxcc : Nat) : Except Stop Home := do
  return { entity := ← byDxcc dxcc, region := none }

def sotaHome (assoc : String) : Draw Home := do
  match assoc with
  | "W0C" => sotaHomeUs 0
  | "W7W" | "W7A" => sotaHomeUs 7
  | "W6" => sotaHomeUs 6
  | "W4C" => sotaHomeUs 4
  | "G" => sotaHomeDx 223
  | "GM" => sotaHomeDx 279
  | "DL" => sotaHomeDx 230
  | "HB" => sotaHomeDx 287
  | "VE7" => sotaHomeDx 1
  | _ => sotaHomeUs ((← rangeU32 0 9) % 256)

def sotaState (assoc : String) : Option Text :=
  match assoc with
  | "W0C" => some "CO".toList
  | "W7W" => some "WA".toList
  | "W7A" => some "AZ".toList
  | "W6" => some "CA".toList
  | "W4C" => some "NC".toList
  | _ => none

def sotaRef : Draw (Text × String) := do
  let (assoc, regions) ← pick sotaRegions
  let region ← pick regions
  let n ← rangeU32 1 199
  return (assoc.toList ++ '/' :: region.toList ++ '-' :: padded 3 n, assoc)

def signal (d : Difficulty S R) : Draw (SignalProfile S R) := do
  let wpm : R := FloatOps.ofNat (← rangeU32 d.wpm.1 d.wpm.2)
  let speed ← ofScenario <| ofTiming <|
    match d.farnsworthEffective.filter fun e => decide (e < wpm) with
    | some e => Speed.farnsworth wpm e
    | none => Speed.wpm wpm
  let fist ← pick d.fists
  let pitch ← rangeF64 (FloatCast.widen d.pitchOffsetHz.1 : R) (FloatCast.widen d.pitchOffsetHz.2)
  let strength ← rangeF64 (FloatCast.widen d.strengthDb.1 : R) (FloatCast.widen d.strengthDb.2)
  return {
    pitchOffsetHz := FloatCast.narrow (FloatOps.round pitch)
    speed
    fist
    fistSeed := ← nextU64
    strengthDb := FloatCast.narrow (FloatOps.round (strength * 10.0) / 10.0) }

end draws

end Morse
