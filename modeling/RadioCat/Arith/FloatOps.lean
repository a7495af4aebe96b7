import Mathlib.Init

/-!
This module contains floating-point formats as types with the operations that a program uses.
Nothing is assumed of the operations: what is proved of a program holds whatever they return.
-/

namespace Arith

class FloatOps (F : Type) where
  /-- A decimal literal. -/
  ofScientific : Nat → Bool → Nat → F
  ofNat : Nat → F
  toNat : F → Nat
  /-- The seconds of a number of nanoseconds. -/
  secs : Nat → F
  pi : F
  infinity : F
  neg : F → F
  add : F → F → F
  sub : F → F → F
  mul : F → F → F
  div : F → F → F
  powf : F → F → F
  min : F → F → F
  max : F → F → F
  clamp : F → F → F → F
  abs : F → F
  sqrt : F → F
  ln : F → F
  exp : F → F
  log10 : F → F
  cos : F → F
  round : F → F
  ceil : F → F
  isFinite : F → Bool
  lt : F → F → Bool
  le : F → F → Bool
  /-- The order of two numbers, equal where they have none. -/
  cmp : F → F → Ordering
  sum : List F → F
  sort : List F → List F
  /-- The number that stands at a position once the list is sorted. -/
  select : List F → Nat → F

/-- The conversions between a narrow and a wide format. -/
class FloatCast (S R : Type) where
  widen : S → R
  narrow : R → S

namespace FloatOps

variable {F : Type} [FloatOps F]

scoped instance : OfScientific F := ⟨FloatOps.ofScientific⟩

scoped instance : Neg F := ⟨FloatOps.neg⟩

scoped instance : Add F := ⟨FloatOps.add⟩

scoped instance : Sub F := ⟨FloatOps.sub⟩

scoped instance : Mul F := ⟨FloatOps.mul⟩

scoped instance : Div F := ⟨FloatOps.div⟩

scoped instance : Min F := ⟨FloatOps.min⟩

scoped instance : Max F := ⟨FloatOps.max⟩

scoped instance : LT F := ⟨fun x y => FloatOps.lt x y = true⟩

scoped instance : LE F := ⟨fun x y => FloatOps.le x y = true⟩

scoped instance (x y : F) : Decidable (x < y) :=
  inferInstanceAs (Decidable (FloatOps.lt x y = true))

scoped instance (x y : F) : Decidable (x ≤ y) :=
  inferInstanceAs (Decidable (FloatOps.le x y = true))

/-- A sum that is kept in a variable, one number after the other. -/
def total (xs : List F) : F :=
  xs.foldl (· + ·) 0.0

end FloatOps

/-- Numbers in thousandths, as an arithmetic that a program can be run with. What it has no use for
is the identity or a constant. -/
def Milli := Nat

instance : FloatOps Milli where
  ofScientific m negative e :=
    if negative then m * 1000 / Nat.pow 10 e else m * 1000 * Nat.pow 10 e
  ofNat n := n * 1000
  toNat (x : Nat) := x / 1000
  secs ns := ns / 1000000
  pi := (3142 : Nat)
  infinity := (1000000000 : Nat)
  neg _ := (0 : Nat)
  add := Nat.add
  sub := Nat.sub
  mul (x y : Nat) := x * y / 1000
  div (x y : Nat) := x * 1000 / y
  powf _ _ := (1000 : Nat)
  min (x y : Nat) := Nat.min x y
  max (x y : Nat) := Nat.max x y
  clamp (x lo hi : Nat) := Nat.min (Nat.max x lo) hi
  abs x := x
  sqrt x := x
  ln x := x
  exp x := x
  log10 _ := (2000 : Nat)
  cos _ := (1000 : Nat)
  round (x : Nat) := (x + 500) / 1000 * 1000
  ceil (x : Nat) := (x + 999) / 1000 * 1000
  isFinite _ := true
  lt := Nat.blt
  le := Nat.ble
  cmp (x y : Nat) := compare x y
  sum (xs : List Nat) := xs.foldl Nat.add (0 : Nat)
  sort xs := xs
  select xs i := xs.getD i (0 : Nat)

instance : FloatCast Milli Milli where
  widen x := x
  narrow x := x

end Arith
