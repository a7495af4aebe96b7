import RadioCat.Morse.Callsign

/-!
This module contains where a call is from, and the draws of a home and of a call from there.
-/

namespace Morse

open Arith
open Cw (Text)
open Draw
open scoped Arith.FloatOps

structure Home where
  entity : Entity
  region : Option Region

inductive HfBand where
  | m160 | m80 | m40 | m30 | m20 | m17 | m15 | m12 | m10
  deriving DecidableEq, Repr

def HfBand.pathWeights : HfBand → Nat × Nat
  | m160 => (12, 1)
  | m80 => (8, 1)
  | m40 => (4, 1)
  | m30 => (3, 1)
  | m20 => (2, 1)
  | m17 => (1, 1)
  | m15 | m12 | m10 => (1, 2)

def nearBoost : Nat := 3

def sameRegion : Option Region → Option Region → Bool
  | none, none => true
  | some r, some r' => r.same r'
  | _, _ => false

def Home.same (h h' : Home) : Bool :=
  h.entity.dxcc == h'.entity.dxcc && sameRegion h.region h'.region

def Home.cq (h : Home) : Nat :=
  (h.region.map Region.cq).getD h.entity.cq

def areaDigit (piece : Text) : Option Nat :=
  let skip := if piece.length > 1 ∧ piece.head?.any Char.isDigit then 1 else 0
  ((piece.drop skip).find? Char.isDigit).map fun c => c.toNat - '0'.toNat

def fitsSuffix (piece p : Text) (designator : Bool) : Bool :=
  match exactSuffix.find? fun q => q.1 == p with
  | none => true
  | some (_, n) => piece.length == p.length + n || (designator && piece.length == p.length)

variable [World]

def byDxcc (dxcc : Nat) : Except Stop Entity :=
  match World.entities.find? fun e => e.dxcc == dxcc with
  | some e => .ok e
  | none => .error .panic

def Entity.regionOf (e : Entity) (piece : Text) (digit : Nat) : Except Stop (Option Region) := do
  return (← byDxcc e.dxcc).regions.find? fun r =>
    r.digit == digit && (r.prefixes.isEmpty || r.prefixes.any (·.isPrefixOf piece))

/-- The call area of a piece, if it names one. -/
def Entity.areaOf (e : Entity) (piece digitFrom : Text) : Except Stop (Option Region) :=
  match areaDigit digitFrom with
  | none => .ok none
  | some d => e.regionOf piece d

def entityOf (piece : Text) (designator : Bool) : Option Entity :=
  let rows := (World.entities.filter (·.tag.isNone)).flatMap fun e => e.prefixes.map fun p => (e, p)
  let best := rows.foldl (fun (best : Option (Entity × Nat)) row =>
    if fitsSuffix piece row.2 designator && row.2.isPrefixOf piece &&
        best.all (fun b => b.2 < row.2.length) then
      some (row.1, row.2.length)
    else
      best) none
  best.map Prod.fst

def tagged (base tag : Text) : Option Entity :=
  World.entities.find? fun e => e.tag == some tag && e.prefixes.any (·.isPrefixOf base)

/-- What the pieces after the base say: the home at once, or a place, as the last of them has it. -/
def readSuffixes (base : Text) : List Text → Option Text → Option Home ⊕ Option Text
  | [], after => .inr after
  | piece :: rest, after =>
    match tagged base piece with
    | some entity => .inl (some { entity, region := none })
    | none =>
      if modifiers.contains piece then
        readSuffixes base rest after
      else if noEntity.contains piece then
        .inl none
      else
        readSuffixes base rest (some piece)

/-- The entity, the piece that names its prefix and the one with the digit of the call area. -/
def locate (base : Text) : Option Text → Option (Entity × Text × Text)
  | some d =>
    if d.all Char.isDigit then
      (entityOf base false).map fun e => (e, base, d)
    else
      (entityOf d true).map fun e => (e, d, d)
  | none => (entityOf base false).map fun e => (e, base, base)

def homeOf (call : Callsign) : Except Stop (Option Home) := do
  let base := basePart call.text
  let all := pieces call.text
  -- Every piece before the base is a location.
  let before := (all.take base.2).getLast?
  match readSuffixes base.1 (all.drop (base.2 + 1)) none with
  | .inl home => return home
  | .inr after =>
    match locate base.1 (before.or after) with
    | none => return none
    | some (entity, prefixFrom, digitFrom) =>
      return some { entity, region := ← entity.areaOf prefixFrom digitFrom }

def isFrom (s : Text) (home : Home) : Except Stop Bool := do
  match Callsign.parse s with
  | .error _ => return false
  | .ok c => return (← homeOf c).any fun back => back.same home

namespace Home

def randomIn (entity : Entity) : Draw Home := do
  if entity.regions.isEmpty then
    return { entity, region := none }
  else
    return { entity, region := some (← pickWeighted entity.regions Region.weight) }

def randomUs : Draw Home := do
  randomIn (← byDxcc usa)

/-- The entity of an operator, the US when it is not known. -/
def entityOr (me : Option Home) : Except Stop Entity :=
  match me with
  | some h => .ok h.entity
  | none => byDxcc usa

def randomLocal (me : Option Home) : Draw Home := do
  randomIn (← entityOr me)

def randomCaller (me : Option Home) (avoided : List Nat) (band : Option HfBand) : Draw Home := do
  let near := (← entityOr me).continent
  let (nearW, farW) := (band.map HfBand.pathWeights).getD (nearBoost, 1)
  let weight (e : Entity) : Nat :=
    if avoided.contains e.dxcc then
      0
    else if e.continent = near then
      e.activity.weight * nearW
    else
      e.activity.weight * farW
  randomIn (← pickWeighted World.entities weight)

def randomDx (me : Option Home) (band : Option HfBand) : Draw Home := do
  randomCaller me [(← entityOr me).dxcc] band

def randomRare (me : Option Home) : Draw Home := do
  let own := me.map fun h => h.entity.dxcc
  let weight (e : Entity) : Nat :=
    if own = some e.dxcc then
      0
    else
      match e.activity with
      | .rare => 5
      | .uncommon => 1
      | _ => 0
  randomIn (← pickWeighted World.entities weight)

end Home

/-- The letters of a suffix, behind the first `i` of them. -/
def letters (i : Nat) : Nat → Draw Text
  | 0 => pure []
  | n + 1 => do
    let c ← pick (if i = 0 then suffixFirst else letterSet)
    return c :: (← letters (i + 1) n)

def prefixAndDigit (f : CallFormat) (home : Home) : Draw (Text × Text) := do
  match f.digit with
  | .inPrefix => return (← pick f.prefixes, [])
  | .oneOf digits => return (← pick f.prefixes, Nat.toDigits 10 (← pick digits))
  | .fromRegion =>
    let r ← match home.region with
      | some r => pure r
      | none => pick home.entity.regions
    return (← pick (if r.prefixes.isEmpty then f.prefixes else r.prefixes), Nat.toDigits 10 r.digit)

def callInFormat (f : CallFormat) (home : Home) : Draw Text := do
  let (p, digit) ← prefixAndDigit f home
  let n ← rangeU32 f.suffix.1 f.suffix.2
  let s := p ++ digit ++ (← letters 0 n)
  match home.entity.tag with
  | some tag => return s ++ '/' :: tag
  | none => return s

/-- A call of `home`, or what the last of the tries gave. -/
def callFromTries (home : Home) (s : Text) : Nat → Draw Text
  | 0 => pure s
  | tries + 1 => do
    let f ← pickWeighted home.entity.formats CallFormat.weight
    let s ← callInFormat f home
    if ← isFrom s home then
      return s
    else
      callFromTries home s tries

def callFrom (home : Home) : Draw Text :=
  callFromTries home [] 64

/-- The first of the texts that as a designator names `home`. -/
def firstDesignator (home : Home) : List Text → Except Stop (Option Text)
  | [] => .ok none
  | t :: rest => do
    let region ← home.entity.areaOf t t
    if (entityOf t true).any (·.dxcc == home.entity.dxcc) && sameRegion region home.region then
      return some t
    else
      firstDesignator home rest

def designatorTries (home : Home) : Nat → Draw (Option Text)
  | 0 => pure none
  | tries + 1 => do
    let f ← pickWeighted home.entity.formats CallFormat.weight
    let (p, d) ← prefixAndDigit f home
    let texts := match f.digit with
      | .oneOf _ => [p, p ++ d]
      | _ => [p ++ d]
    match ← firstDesignator home texts with
    | some t => return some t
    | none => designatorTries home tries

def designator (home : Home) : Draw (Option Text) := do
  if home.entity.tag.isSome then
    return none
  else
    designatorTries home 16

section stationCall

variable {R : Type} [FloatOps R]

/-- A call with one of the suffixes of a portable station, if it still is from `home`. -/
def portableCall (home : Home) : Draw (Option Text) := do
  let suffix ← pick [['P'], ['P'], ['P'], ['M'], ['Q', 'R', 'P']]
  let s := (← callFrom home) ++ '/' :: suffix
  return if ← isFrom s home then some s else none

/-- A call of another entity, signed in `home`. -/
def abroadCall (home : Home) : Draw (Option Text) := do
  let licensed ← Home.randomDx (some home) none
  let licence ← callFrom licensed
  match ← designator home with
  | none => return none
  | some d =>
    let s := d ++ '/' :: licence
    if !licence.contains '/' && decide (licence.length > d.length) then
      return if ← isFrom s home then some s else none
    else
      return none

/-- A call of another call area, signed in that of `home`. -/
def otherAreaCall (home : Home) : Draw (Option Text) := do
  match home.region with
  | none => return none
  | some area =>
    let licensed ← Home.randomUs
    if sameRegion licensed.region home.region then
      return none
    else
      return some ((← callFrom licensed) ++ '/' :: Nat.toDigits 10 area.digit)

variable (R)

def stationCall (home : Home) : Draw Text := do
  let roll : R ← unitF64
  if home.entity.tag.isSome then
    callFrom home
  else
    let portable ← if roll < 0.04 then portableCall home else pure none
    match portable with
    | some s => return s
    | none =>
      let visiting ←
        if roll < 0.04 + 0.03 then
          abroadCall home
        else if roll < 0.04 + 0.03 + 0.03 ∧ home.entity.dxcc = usa then
          otherAreaCall home
        else
          pure none
      match visiting with
      | some s => return s
      | none => callFrom home

end stationCall

def freshCallTries (make : Draw Text) (myCall : Callsign) (taken : List Callsign)
    : Nat → Draw (Option Callsign)
  | 0 => pure none
  | tries + 1 => do
    let s ← make
    if reservedCalls.contains s then
      freshCallTries make myCall taken tries
    else
      match Callsign.parse s with
      | .error _ => throw .panic
      | .ok c =>
        if c.base = myCall.base ∨ taken.any (fun t => t.base == c.base) then
          freshCallTries make myCall taken tries
        else
          return some c

/-- A call whose base is not taken. None comes out where the tries give only calls that are. -/
def freshCall (make : Draw Text) (myCall : Callsign) (taken : List Callsign)
    : Draw (Option Callsign) :=
  freshCallTries make myCall taken 256

end Morse
