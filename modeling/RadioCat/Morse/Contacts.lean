import RadioCat.Morse.Dialogues

/-!
This module contains the contacts: stations are placed one after the other, each with a call that is
not on the air yet, and then worked.
-/

namespace Morse

open Arith Program
open Cw (Text)
open Draw
open scoped Arith.FloatOps

def Over.silent {S R α : Type} (m : Over S R (fun _ => False) α) : Build S R α :=
  m.run

def whenever {S R : Type} (c : Bool) (m : Build S R Unit) : Build S R Unit :=
  if c then m else pure ()

section placing

variable {S R : Type} {kind : Transmission → Prop} [World] [FloatOps S] [FloatOps R] [FloatCast S R]
variable (cfg : ScenarioConfig S R)

/-- The loop of `place`: a home with no call left gives way to another one. -/
def freshHome (decorate : Bool) (taken : List Callsign)
    : Nat → Home → Over S R kind (Callsign × Home)
  | 0, _ => Over.read fun _ => .error .unending
  | fuel + 1, home => do
    let make := if decorate then stationCall R home else callFrom home
    match ← Over.onStations (freshCall make cfg.myCall taken) with
    | some c => return (c, home)
    | none =>
      let me ← Over.read fun _ => homeOf cfg.myCall
      let own := (me.map fun h => h.entity.dxcc).getD usa
      let avoid ← Over.read fun b => .ok b.avoid
      let home ← Over.onStations (Home.randomCaller me (own :: avoid.toList) cfg.difficulty.hfBand)
      freshHome decorate taken fuel home

def newStation (home : Home) (decorate : Bool) (taken : List Callsign)
    : Over S R kind (Station S R) := do
  let fresh ← freshHome cfg decorate taken World.fuel home
  let persona ← Over.onStations (persona fresh.1 (some fresh.2) false)
  let signal ← Over.onStations (signal cfg.difficulty)
  return { persona, signal }

def taken (b : Builder S R) : List Callsign :=
  b.stations.map fun s => s.persona.call

/-- The index of the new station comes out. -/
def place (home : Home) (decorate : Bool) : Build S R Nat := fun b => do
  let (station, b) ← (newStation cfg home decorate (taken b)).silent b
  return (b.stations.length, { b with stations := b.stations ++ [station] })

def drawHome (dxShare : R) : Over S R kind Home := do
  let me ← Over.read fun _ => homeOf cfg.myCall
  if ← Over.onStations (chance dxShare) then
    Over.onStations (Home.randomDx me cfg.difficulty.hfBand)
  else
    Over.onStations (Home.randomLocal me)

def addStation (home : Option Home) (dxShare : R) : Build S R Nat := do
  match home with
  | some h => place cfg h false
  | none => place cfg (← (drawHome cfg dxShare).silent) true

def modifyPersona (i : Nat) (f : Persona → Except Stop Persona) : Build S R Unit := fun b => do
  let station ← index b.stations i
  let persona ← f station.persona
  return ((), { b with stations := b.stations.set i { station with persona } })

end placing

section kinds

variable {S R : Type} [World] [FloatOps S] [FloatOps R] [FloatCast S R] (cfg : ScenarioConfig S R)

/-- On a ship, in no entity. -/
def maritime (p : Persona) : Except Stop Persona :=
  match Callsign.parse p.call.base with
  | .ok base =>
    .ok { p with
      call := base.withSuffix ['M', 'M'] rfl
      qth := "AT SEA".toList
      region := "MM".toList }
  | .error _ => .error .panic

def ragChew : Build S R Unit := do
  let them ← addStation cfg none 0.3
  whenever (← (Over.onStations (chance (0.03 : R))).silent) (modifyPersona them maritime)
  (Over.ragChew cfg them).run

/-- The contacts of a contest, of which `n` are left. -/
def contestContacts (exchange : ContestExchange) (cutNumbers : Bool) (me : Text)
    : Nat → Nat → Build S R Unit
  | 0, _ => pure ()
  | n + 1, mySerial => do
    let them ← addStation cfg none 0.4
    let mySerial ← (Over.contestContact cfg exchange cutNumbers me them mySerial).run
    contestContacts exchange cutNumbers me n mySerial

def contest (exchange : ContestExchange) (cutNumbers : Bool) : Build S R Unit := do
  let n ← (Over.onText (rangeU32 3 5)).silent
  let me ← Over.meCall.silent
  let mySerial ← (Over.onText (rangeU32 1 300)).silent
  contestContacts cfg exchange cutNumbers me n mySerial

/-- The home of the activator of a park, and the code in the names of the parks there. -/
def parkHome : Draw (Home × Text) := do
  if ← chance (0.75 : R) then
    return (← Home.randomUs, "US".toList)
  else
    let e ← pick (World.entities.filter fun e => e.iso.isSome && e.dxcc != usa)
    match e.iso with
    | some iso => return (← Home.randomIn e, iso)
    | none => throw .panic

def activate (them : Nat) (reference : Text) : Build S R Unit := do
  let powerW ← (Over.onStations (pick qrpPowers)).silent
  let antenna ← (Over.onStations (pickStr portableAntennas)).silent
  modifyPersona them fun p => .ok { p with reference := some reference, powerW, antenna }

/-- The operator is activating too. -/
def activateMe (reference : Text) : Build S R Unit := fun b =>
  .ok ((), { b with me := { b.me with reference := some reference } })

def myIso (me : Persona) : Except Stop Text := do
  return ((← homeOf me.call).bind fun h => h.entity.iso).getD "US".toList

/-- A park of the operator's own country. -/
def activateMyPark (meRng : Rng) : Build S R Unit := do
  let iso ← myIso (← Over.me.silent)
  activateMe (← potaRef R iso meRng).1

def pota (p2p : Bool) (meRng : Rng) : Build S R Unit := do
  let (home, iso) ← (Over.onStations (parkHome (R := R))).silent
  let them ← addStation cfg (some home) 0.0
  let park ← (Over.onStations (potaRef R iso)).silent
  activate them park
  whenever p2p (activateMyPark meRng)
  (Over.pota cfg p2p park them).run

/-- An activator in the state of the association lives there. -/
def settle (home : Home) (assoc : String) (them : Nat) : Build S R Unit := do
  match home.region, sotaState assoc with
  | some area, some state =>
    match area.subdivisions.find? fun s => s.1 == state with
    | some (_, towns) =>
      let town ← (Over.onStations (pick towns)).silent
      modifyPersona them fun p => .ok { p with region := state, qth := town }
    | none => pure ()
  | _, _ => pure ()

def portable (p : Persona) : Persona :=
  { p with call := p.call.withSuffix ['P'] rfl }

def activateMySummit (meRng : Rng) : Build S R Unit := do
  activateMe (← sotaRef meRng).1.1

def sota (s2s : Bool) (meRng : Rng) : Build S R Unit := do
  let (summit, assoc) ← (Over.onStations sotaRef).silent
  let home ← (Over.onStations (sotaHome assoc)).silent
  let them ← addStation cfg (some home) 0.0
  settle home assoc them
  let away ← (Over.onStations (chance (0.5 : R))).silent
  whenever away (modifyPersona them fun p => .ok (portable p))
  activate them summit
  whenever s2s (activateMySummit meRng)
  (Over.sota cfg s2s summit them).run

/-- The callers of a pileup, of which `n` are still to be placed. -/
def placeCallers (me : Option Home) (avoided : List Nat) : Nat → Build S R (List Nat)
  | 0 => pure []
  | n + 1 => do
    let home ← (Over.onStations (Home.randomCaller me avoided cfg.difficulty.hfBand)).silent
    let i ← place cfg home true
    return i :: (← placeCallers me avoided n)

def chase (callers : Nat) : Build S R Unit := do
  let myHome ← homeOf cfg.myCall
  let dxHome ← (Over.onStations (Home.randomRare myHome)).silent
  let dx ← place cfg dxHome false
  modify fun b => { b with avoid := some dxHome.entity.dxcc }
  let waiting ← placeCallers cfg myHome [dxHome.entity.dxcc] callers
  (Over.chase cfg callers dx waiting).run

end kinds

end Morse
