import RadioCat.Arith.FloatOps
import RadioCat.Morse.Band
import RadioCat.Morse.Codec
import RadioCat.Morse.Rng
import RadioCat.Program.Within

/-!
This module contains the table of entities that stations come from, as data that is left open, and
the draws that a script is made from.
-/

namespace Morse

open Arith Program
open Cw (Text)
open scoped Arith.FloatOps

inductive Continent where
  | na | sa | eu | af | as | oc | an
  deriving DecidableEq, Repr

inductive Activity where
  | common | regular | uncommon | rare
  deriving DecidableEq, Repr

def Activity.weight : Activity → Nat
  | common => 100
  | regular => 25
  | uncommon => 5
  | rare => 1

inductive DigitRule where
  | inPrefix
  | oneOf (digits : List Nat)
  | fromRegion

structure CallFormat where
  prefixes : List Text
  digit : DigitRule
  suffix : Nat × Nat
  weight : Nat

structure Region where
  digit : Nat
  prefixes : List Text
  weight : Nat
  cq : Nat
  itu : Nat
  subdivisions : List (Text × List Text)

def Region.same (r r' : Region) : Bool :=
  r.digit == r'.digit && r.prefixes == r'.prefixes && r.cq == r'.cq && r.itu == r'.itu

structure Entity where
  dxcc : Nat
  name : Text
  continent : Continent
  cq : Nat
  prefixes : List Text
  formats : List CallFormat
  regions : List Region
  tag : Option Text
  iso : Option Text
  activity : Activity
  names : List Text
  towns : List Text

def usa : Nat := 291

/-- Why no script comes out. -/
inductive Stop where
  | error (e : ScenarioError)
  | unencodable (text : Text) (source : CodecError)
  | panic
  | unending

/-- The table of all entities, and how many turns a loop without a bound is given. -/
class World where
  entities : List Entity
  fuel : Nat

def exactSuffix : List (Text × Nat) :=
  [("KG4".toList, 2)]

/-- Pieces of a call that say how a station operates. -/
def modifiers : List Text :=
  [['P'], ['M'], ['A'], ['B'], ['Q', 'R', 'P']]

/-- Pieces of a call that put a station in no entity. -/
def noEntity : List Text :=
  [['M', 'M'], ['A', 'M']]

def suffixFirst : Text := "ABCDEFGHIJKLMNOPRSTUVWYZ".toList

def letterSet : Text := "ABCDEFGHIJKLMNOPQRSTUVWXYZ".toList

def reservedCalls : List Text :=
  ["W1AW".toList, "K1JT".toList]

abbrev Draw := Fallible Rng Stop

namespace Draw

section floats

variable {R : Type} [FloatOps R]

def nextU64 : Draw (BitVec 64) := fun rng => .ok rng.nextU64

def unitF64 : Draw R := do
  let bits ← nextU64
  return FloatOps.ofNat (bits >>> 11).toNat * (1.0 / FloatOps.ofNat (2 ^ 53))

def rangeF64 (lo hi : R) : Draw R := do
  return lo + (hi - lo) * (← unitF64)

def chance (p : R) : Draw Bool := do
  return decide ((← unitF64) < p)

end floats

variable {α : Type}

/-- An index that may be beyond the end. -/
def index (items : List α) (i : Nat) : Except Stop α :=
  match items[i]? with
  | some item => .ok item
  | none => .error .panic

theorem getElem?_of_index {items : List α} {i : Nat} {a : α} (h : index items i = .ok a)
    : items[i]? = some a := by
  unfold index at h
  cases hitem : items[i]? with
  | none =>
    rw [hitem] at h
    cases h
  | some item =>
    rw [hitem] at h
    rw [Except.ok.inj h]

/-- The item on which a roll of the dice comes down, and the last one for a roll beyond them all. -/
def weighted (weight : α → Nat) (roll : Nat) : List α → Option α
  | [] => none
  | item :: rest =>
    if roll < weight item then
      some item
    else
      (weighted weight (roll - weight item) rest).or (some item)

variable [World]

def rangeU32 (lo hi : Nat) : Draw Nat := fun rng =>
  match rng.rangeU32 World.fuel (BitVec.ofNat 32 lo) (BitVec.ofNat 32 hi) with
  | none => .error .panic
  | some none => .error .unending
  | some (some (v, rng)) => .ok (v.toNat, rng)

def pick (items : List α) : Draw α := do
  if items.isEmpty then
    throw .panic
  else
    index items (← rangeU32 0 (items.length - 1))

/-- The sum of the weights is checked. -/
def pickWeighted (items : List α) (weight : α → Nat) : Draw α := do
  let total := (items.map weight).sum
  if total = 0 ∨ 2 ^ 32 ≤ total then
    throw .panic
  else
    match weighted weight (← rangeU32 0 (total - 1)) items with
    | some item => pure item
    | none => throw .panic

end Draw

end Morse
