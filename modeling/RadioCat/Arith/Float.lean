import Mathlib.Algebra.Ring.Nat
import Mathlib.Data.Nat.Log

/-!
This module contains double and single precision numbers by their bits: the order of the numbers of
each format and the conversions between the two.
-/

namespace Arith

structure F64 where
  bits : BitVec 64
  deriving DecidableEq, Repr

structure F32 where
  bits : BitVec 32
  deriving DecidableEq, Repr

namespace F64

def negative (x : F64) : Bool :=
  x.bits.msb

def magnitude (x : F64) : Nat :=
  x.bits.toNat % 2 ^ 63

def ofParts (negative : Bool) (magnitude : Nat) : F64 :=
  ⟨BitVec.ofNat 64 (magnitude + if negative then 2 ^ 63 else 0)⟩

def isNan (x : F64) : Bool :=
  2047 * 2 ^ 52 < x.magnitude

/-- Where a number stands among the doubles; both zeros stand at zero. -/
def place (x : F64) : Int :=
  if x.negative then -x.magnitude else x.magnitude

def le (x y : F64) : Bool :=
  !x.isNan && !y.isNan && x.place ≤ y.place

end F64

namespace F32

def negative (x : F32) : Bool :=
  x.bits.msb

def magnitude (x : F32) : Nat :=
  x.bits.toNat % 2 ^ 31

def ofParts (negative : Bool) (magnitude : Nat) : F32 :=
  ⟨BitVec.ofNat 32 (magnitude + if negative then 2 ^ 31 else 0)⟩

def isNan (x : F32) : Bool :=
  255 * 2 ^ 23 < x.magnitude

def place (x : F32) : Int :=
  if x.negative then -x.magnitude else x.magnitude

def partialCmp (x y : F32) : Option Ordering :=
  if x.isNan || y.isNan then none else some (compare x.place y.place)

def isFinite (x : F32) : Bool :=
  x.magnitude < 255 * 2 ^ 23

def le (x y : F32) : Bool :=
  x.partialCmp y = some .lt || x.partialCmp y = some .eq

def neg (x : F32) : F32 :=
  ofParts (!x.negative) x.magnitude

end F32

/-- `n / 2 ^ s`, to the nearest and of two nearest to the even one. -/
def roundShift (n s : Nat) : Nat :=
  if 2 ^ s < 2 * (n % 2 ^ s) ∨ 2 * (n % 2 ^ s) = 2 ^ s ∧ n / 2 ^ s % 2 = 1 then
    n / 2 ^ s + 1
  else
    n / 2 ^ s

/-- The rounding carries into the exponent, and past the largest exponent into infinity. -/
def narrowMagnitude (m : Nat) : Nat :=
  if 2047 * 2 ^ 52 < m then
    255 * 2 ^ 23 + 2 ^ 22 + m % 2 ^ 51 / 2 ^ 29
  else
    let exponent := max (m / 2 ^ 52) 1
    let significand := if m / 2 ^ 52 = 0 then m else 2 ^ 52 + m % 2 ^ 52
    -- single precision subnormals share the exponent of the least normal number
    let scale := exponent - 897
    min (scale * 2 ^ 23 + roundShift significand (scale + 926 - exponent)) (255 * 2 ^ 23)

def widenMagnitude (m : Nat) : Nat :=
  if m = 0 then
    0
  else if m < 2 ^ 23 then
    (Nat.log 2 m + 873) * 2 ^ 52 + m * 2 ^ (52 - Nat.log 2 m)
  else
    m * 2 ^ 29 + if m < 255 * 2 ^ 23 then 896 * 2 ^ 52 else 1792 * 2 ^ 52

def F64.narrow (x : F64) : F32 :=
  F32.ofParts x.negative (narrowMagnitude x.magnitude)

def F32.widen (x : F32) : F64 :=
  F64.ofParts x.negative (widenMagnitude x.magnitude)

-- 0.1, which single precision does not have, and the smallest number that it has
example : (F64.mk 0x3FB999999999999A).narrow = ⟨0x3DCCCCCD⟩ := by decide
example : (F32.mk 0x3DCCCCCD).widen = ⟨0x3FB99999A0000000⟩ := by decide
example : (F32.mk 1).widen = ⟨0x36A0000000000000⟩ := by decide

theorem roundShift_mul (n s : Nat) : roundShift (n * 2 ^ s) s = n := by
  have hpos := Nat.two_pow_pos s
  rw [roundShift, Nat.mul_mod_left, Nat.mul_div_cancel n hpos, if_neg (by omega)]

theorem widenMagnitude_subnormal {m : Nat} (hpos : m ≠ 0) (hlt : m < 2 ^ 23)
    : Nat.log 2 m ≤ 22 ∧ 2 ^ 52 ≤ m * 2 ^ (52 - Nat.log 2 m) ∧
        m * 2 ^ (52 - Nat.log 2 m) < 2 ^ 53 := by
  have hlog : Nat.log 2 m < 23 := Nat.log_lt_of_lt_pow hpos hlt
  have hlow := Nat.pow_log_le_self 2 hpos
  have hhigh := Nat.lt_pow_succ_log_self (b := 2) (by decide) m
  have hscale := Nat.two_pow_pos (52 - Nat.log 2 m)
  refine ⟨by omega, ?_, ?_⟩
  . calc 2 ^ 52 = 2 ^ Nat.log 2 m * 2 ^ (52 - Nat.log 2 m) := by
          rw [← Nat.pow_add]
          congr 1
          omega
      _ ≤ m * 2 ^ (52 - Nat.log 2 m) := Nat.mul_le_mul_right _ hlow
  . calc m * 2 ^ (52 - Nat.log 2 m) < 2 ^ (Nat.log 2 m + 1) * 2 ^ (52 - Nat.log 2 m) :=
          Nat.mul_lt_mul_of_pos_right hhigh hscale
      _ = 2 ^ 53 := by
          rw [← Nat.pow_add]
          congr 1
          omega

/-- A double whose significand single precision has, up to the overflow into infinity. -/
theorem narrowMagnitude_of_normal {m e n s : Nat} (hfinite : m ≤ 2047 * 2 ^ 52)
    (hexponent : m / 2 ^ 52 = e) (hnormal : e ≠ 0) (hsignificand : 2 ^ 52 + m % 2 ^ 52 = n * 2 ^ s)
    (hshift : e - 897 + 926 - e = s)
    : narrowMagnitude m = min ((e - 897) * 2 ^ 23 + n) (255 * 2 ^ 23) := by
  have hmax : max e 1 = e := Nat.max_eq_left (by omega)
  rw [narrowMagnitude, if_neg (by omega)]
  simp only [hexponent, if_neg hnormal, hsignificand, hmax, hshift, roundShift_mul]

theorem narrowMagnitude_widenMagnitude {m : Nat} (h : m ≤ 255 * 2 ^ 23)
    : narrowMagnitude (widenMagnitude m) = m := by
  by_cases hzero : m = 0
  . have hround := roundShift_mul 0 925
    rw [Nat.zero_mul] at hround
    subst hzero
    simp [widenMagnitude, narrowMagnitude, hround]
  by_cases hsub : m < 2 ^ 23
  . obtain ⟨hlog, hlow, hhigh⟩ := widenMagnitude_subnormal hzero hsub
    have hwide : widenMagnitude m =
        (Nat.log 2 m + 873) * 2 ^ 52 + m * 2 ^ (52 - Nat.log 2 m) := by
      rw [widenMagnitude, if_neg hzero, if_pos hsub]
    rw [hwide, @narrowMagnitude_of_normal _ (Nat.log 2 m + 874) m (52 - Nat.log 2 m)
      (by omega) (by omega) (by omega) (by omega) (by omega)]
    omega
  . have hwide : widenMagnitude m = m * 2 ^ 29 + if m < 255 * 2 ^ 23 then 896 * 2 ^ 52
        else 1792 * 2 ^ 52 := by
      rw [widenMagnitude, if_neg hzero, if_neg hsub]
    by_cases hinf : m < 255 * 2 ^ 23
    . rw [hwide, if_pos hinf, @narrowMagnitude_of_normal _ (m / 2 ^ 23 + 896)
        (2 ^ 23 + m % 2 ^ 23) 29 (by omega) (by omega) (by omega) (by omega) (by omega)]
      omega
    . rw [hwide, if_neg hinf, @narrowMagnitude_of_normal _ 2047 (2 ^ 23) 29 (by omega) (by omega)
        (by omega) (by omega) (by omega)]
      omega

theorem F64.negative_ofParts {negative : Bool} {m : Nat} (hm : m < 2 ^ 63)
    : (F64.ofParts negative m).negative = negative := by
  cases negative <;> simp [F64.ofParts, F64.negative, BitVec.msb_eq_decide] <;> omega

theorem F64.magnitude_ofParts {negative : Bool} {m : Nat} (hm : m < 2 ^ 63)
    : (F64.ofParts negative m).magnitude = m := by
  cases negative <;> simp [F64.ofParts, F64.magnitude] <;> omega

theorem F32.ofParts_self (x : F32) : F32.ofParts x.negative x.magnitude = x := by
  have hlt := x.bits.isLt
  have hmsb := BitVec.msb_eq_decide x.bits
  have hbits : x.magnitude + (if x.negative then 2 ^ 31 else 0) = x.bits.toNat := by
    rw [F32.magnitude, F32.negative, hmsb]
    by_cases h : 2 ^ (32 - 1) ≤ x.bits.toNat
    . rw [decide_eq_true h, if_pos rfl]
      omega
    . rw [decide_eq_false h, if_neg Bool.false_ne_true]
      omega
  rw [F32.ofParts, hbits, BitVec.ofNat_toNat, BitVec.setWidth_eq]

theorem widenMagnitude_lt {m : Nat} (h : m < 2 ^ 31) : widenMagnitude m < 2 ^ 63 := by
  unfold widenMagnitude
  split
  next => decide
  next hzero =>
    split
    next hsub =>
      have := widenMagnitude_subnormal hzero hsub
      omega
    next => split <;> omega

theorem widenMagnitude_nan {m : Nat} (h : 255 * 2 ^ 23 < m)
    : 2047 * 2 ^ 52 < widenMagnitude m := by
  rw [widenMagnitude, if_neg (by omega), if_neg (by omega), if_neg (by omega)]
  omega

theorem F32.narrow_widen {x : F32} (h : x.widen.isNan = false) : x.widen.narrow = x := by
  have hx : x.magnitude < 2 ^ 31 := Nat.mod_lt _ (by decide)
  have hlt := widenMagnitude_lt hx
  have hnan : x.magnitude ≤ 255 * 2 ^ 23 := by
    rw [F64.isNan, F32.widen, F64.magnitude_ofParts hlt, decide_eq_false_iff_not] at h
    exact Nat.not_lt.mp (mt widenMagnitude_nan h)
  rw [F64.narrow, F32.widen, F64.negative_ofParts hlt, F64.magnitude_ofParts hlt,
    narrowMagnitude_widenMagnitude hnan, F32.ofParts_self]

end Arith
