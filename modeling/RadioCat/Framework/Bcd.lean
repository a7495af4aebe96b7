import Mathlib.Data.List.DropRight
import Mathlib.Data.Nat.Digits.Defs
import Mathlib.Tactic.Ring
import RadioCat.Arith.Checked

/-!
This module contains the packed BCD of CI-V, two decimal digits a byte: the frequency with its
least significant byte first, everything else with its most significant byte first.
-/

namespace Framework

namespace Bcd

open Arith

def encodeBcd (value : BitVec 64) : Nat → List UInt8
  | 0 => []
  | bytes + 1 =>
    let low := UInt8.ofNat (value % 10).toNat
    let high := UInt8.ofNat (value / 10 % 10).toNat
    (high <<< 4 ||| low) :: encodeBcd (value / 10 / 10) bytes

def encodeBcdBe (value : BitVec 64) (bytes : Nat) : List UInt8 :=
  (encodeBcd value bytes).reverse

/-- The loop of both decoders. The outer option is the arithmetic on `u64`, which overflows; the
inner one is what the source returns. -/
def decode : List UInt8 → BitVec 64 → Option (Option (BitVec 64))
  | [], value => some (some value)
  | byte :: bytes, value =>
    let high := byte >>> 4
    let low := byte &&& 0x0F
    if high > 9 ∨ low > 9 then
      some none
    else do
      let value ← checkedMul value 100
      let value ← checkedAdd value (high.toBitVec.setWidth 64 * 10)
      let value ← checkedAdd value (low.toBitVec.setWidth 64)
      decode bytes value

def decodeBcdBe (bytes : List UInt8) : Option (Option (BitVec 64)) :=
  decode bytes 0

def decodeBcd (bytes : List UInt8) : Option (Option (BitVec 64)) :=
  decode bytes.reverse 0

/-- The digits of a string of bytes, least significant first. -/
def digits (bytes : List UInt8) : List Nat :=
  bytes.flatMap fun (byte : UInt8) => [(byte &&& 0x0F).toNat, (byte >>> 4).toNat]

def value (bytes : List UInt8) : Nat :=
  Nat.ofDigits 10 (digits bytes)

/-- The number the bytes denote, least significant byte first, when they do and it fits. -/
def exact (bytes : List UInt8) : Option (BitVec 64) :=
  if ∀ digit ∈ digits bytes, digit ≤ 9 then checked 64 (value bytes) else none

def isPacked (byte : UInt8) : Bool :=
  byte >>> 4 ≤ 9 && byte &&& 0x0F ≤ 9

theorem digits_append (bytes bytes' : List UInt8)
    : digits (bytes ++ bytes') = digits bytes ++ digits bytes' := by
  apply List.flatMap_append

theorem length_digits (bytes : List UInt8) : (digits bytes).length = 2 * bytes.length := by
  induction bytes with
  | nil => rfl
  | cons byte bytes ih =>
    rw [digits, List.flatMap_cons, List.length_append, List.length_cons, ← digits, ih]
    simp
    omega

@[simp]
theorem value_nil : value [] = 0 := by
  rfl

theorem value_cons (byte : UInt8) (bytes : List UInt8)
    : value (byte :: bytes)
      = (byte &&& 0x0F).toNat + 10 * ((byte >>> 4).toNat + 10 * value bytes) := by
  rfl

theorem value_append_singleton (bytes : List UInt8) (byte : UInt8)
    : value (bytes ++ [byte])
      = value bytes + 100 ^ bytes.length * ((byte >>> 4).toNat * 10 + (byte &&& 0x0F).toNat) := by
  have hpow : 10 ^ (2 * bytes.length) = 100 ^ bytes.length := by
    rw [Nat.pow_mul]
  have hbyte : Nat.ofDigits 10 (digits [byte])
      = (byte >>> 4).toNat * 10 + (byte &&& 0x0F).toNat := by
    simp [digits, Nat.ofDigits_cons]
    omega
  rw [value, digits_append, Nat.ofDigits_append, length_digits, hpow, hbyte]
  rfl

theorem digits_le_nine_iff (bytes : List UInt8)
    : (∀ digit ∈ digits bytes, digit ≤ 9) ↔ bytes.all isPacked = true := by
  induction bytes with
  | nil => simp [digits]
  | cons byte bytes ih =>
    have hdigits : digits (byte :: bytes)
        = [(byte &&& 0x0F).toNat, (byte >>> 4).toNat] ++ digits bytes := by
      rfl
    rw [hdigits, List.forall_mem_append, ih, List.all_cons, Bool.and_eq_true]
    simp [isPacked, UInt8.le_iff_toNat_le, and_comm]

theorem accumulate (value : BitVec 64) (byte : UInt8)
    : (do
        let value ← checkedMul value 100
        let value ← checkedAdd value ((byte >>> 4).toBitVec.setWidth 64 * 10)
        checkedAdd value ((byte &&& 0x0F).toBitVec.setWidth 64))
      = checked 64 (value.toNat * 100 + ((byte >>> 4).toNat * 10 + (byte &&& 0x0F).toNat)) := by
  have hhigh : ((byte >>> 4).toBitVec.setWidth 64 * 10 : BitVec 64).toNat
      = (byte >>> 4).toNat * 10 := by
    have hlt := (byte >>> 4).toNat_lt
    have hten : BitVec.toNat (10 : BitVec 64) = 10 := rfl
    rw [BitVec.toNat_mul, BitVec.toNat_setWidth, UInt8.toNat_toBitVec, hten]
    omega
  have hlow : ((byte &&& 0x0F).toBitVec.setWidth 64 : BitVec 64).toNat
      = (byte &&& 0x0F).toNat := by
    have hlt := (byte &&& 0x0F).toNat_lt
    rw [BitVec.toNat_setWidth, UInt8.toNat_toBitVec]
    omega
  simp only [Option.bind_eq_bind]
  rw [← Option.bind_assoc, checkedMul, checked_bind_checkedAdd, checked_bind_checkedAdd, hhigh,
    hlow, Nat.add_assoc]
  rfl

theorem isPacked_eq_false_iff (byte : UInt8)
    : isPacked byte = false ↔ byte >>> 4 > 9 ∨ byte &&& 0x0F > 9 := by
  rw [isPacked, Bool.and_eq_false_iff, decide_eq_false_iff_not, decide_eq_false_iff_not,
    UInt8.not_le, UInt8.not_le]

theorem decode_cons (byte : UInt8) (bytes : List UInt8) (acc : BitVec 64)
    : decode (byte :: bytes) acc
      = if isPacked byte then
          (checked 64 (acc.toNat * 100
            + ((byte >>> 4).toNat * 10 + (byte &&& 0x0F).toNat))).bind (decode bytes)
        else
          some none := by
  rw [← accumulate]
  cases hpacked : isPacked byte with
  | false =>
    rw [isPacked_eq_false_iff] at hpacked
    simp only [decode, if_pos hpacked, Bool.false_eq_true, if_false]
  | true =>
    rw [← Bool.not_eq_false, isPacked_eq_false_iff] at hpacked
    simp only [decode, if_neg hpacked, if_true, Option.bind_eq_bind, Option.bind_assoc]

theorem decode_eq (bytes : List UInt8) (acc : BitVec 64)
    : decode bytes acc
      = (checked 64 (acc.toNat * 100 ^ (bytes.takeWhile isPacked).length
          + value (bytes.takeWhile isPacked).reverse)).map
        fun total => if bytes.all isPacked then some total else none := by
  induction bytes generalizing acc with
  | nil =>
    simp [decode, checked_toNat]
  | cons byte bytes ih =>
    rw [decode_cons, List.takeWhile_cons, List.all_cons]
    cases isPacked byte with
    | false =>
      simp [checked_toNat]
    | true =>
      rw [if_pos rfl, if_pos rfl, List.reverse_cons, value_append_singleton, List.length_reverse,
        List.length_cons, Bool.true_and]
      generalize (byte >>> 4).toNat * 10 + (byte &&& 0x0F).toNat = pair
      generalize bytes.takeWhile isPacked = read at ih ⊢
      have htotal : acc.toNat * 100 ^ (read.length + 1)
            + (value read.reverse + 100 ^ read.length * pair)
          = (acc.toNat * 100 + pair) * 100 ^ read.length + value read.reverse := by
        ring
      have hle : acc.toNat * 100 + pair
          ≤ (acc.toNat * 100 + pair) * 100 ^ read.length + value read.reverse :=
        Nat.le_add_right_of_le (Nat.le_mul_of_pos_right _ (Nat.one_le_pow _ _ (by decide)))
      rw [htotal]
      apply checked_bind_eq hle
      . intro a ha
        rw [ih, ha]
      . intro hnone
        rw [hnone, Option.map_none]

theorem decodeBcd_eq (bytes : List UInt8)
    : decodeBcd bytes
      = (checked 64 (value (bytes.rtakeWhile isPacked))).map
        fun total => if bytes.all isPacked then some total else none := by
  rw [decodeBcd, decode_eq, List.all_reverse, List.rtakeWhile]
  simp

theorem decodeBcd_eq_exact_iff (bytes : List UInt8)
    : decodeBcd bytes = some (exact bytes)
      ↔ value (bytes.rtakeWhile isPacked) < 2 ^ 64 := by
  rw [decodeBcd_eq]
  by_cases hfits : value (bytes.rtakeWhile isPacked) < 2 ^ 64
  . rw [checked_of_lt hfits, Option.map_some, exact, iff_true_right hfits]
    by_cases hpacked : bytes.all isPacked = true
    . have hwhole : bytes.rtakeWhile isPacked = bytes := by
        rw [List.rtakeWhile_eq_self_iff]
        exact List.all_eq_true.mp hpacked
      rw [hwhole] at hfits ⊢
      rw [if_pos hpacked, if_pos ((digits_le_nine_iff bytes).mpr hpacked), checked_of_lt hfits]
    . rw [if_neg hpacked, if_neg (mt (digits_le_nine_iff bytes).mp hpacked)]
  . rw [checked_of_le (by omega), iff_false_right hfits]
    simp

theorem decodeBcdBe_eq (bytes : List UInt8) : decodeBcdBe bytes = decodeBcd bytes.reverse := by
  rw [decodeBcd, List.reverse_reverse]
  rfl

theorem nibbles_pack {high low : Nat} (hhigh : high < 10) (hlow : low < 10)
    : ((UInt8.ofNat high <<< 4 ||| UInt8.ofNat low) >>> 4).toNat = high
      ∧ ((UInt8.ofNat high <<< 4 ||| UInt8.ofNat low) &&& 0x0F).toNat = low := by
  have hall : ∀ high < 10, ∀ low < 10,
      ((UInt8.ofNat high <<< 4 ||| UInt8.ofNat low) >>> 4).toNat = high
        ∧ ((UInt8.ofNat high <<< 4 ||| UInt8.ofNat low) &&& 0x0F).toNat = low := by
    decide
  exact hall high hhigh low hlow

theorem value_encodeBcd (v : BitVec 64) (n : Nat)
    : value (encodeBcd v n) = v.toNat % 10 ^ (2 * n) := by
  induction n generalizing v with
  | zero => simp [encodeBcd, Nat.mod_one]
  | succ n ih =>
    have hlow : (v % 10).toNat = v.toNat % 10 := by
      rfl
    have hhigh : (v / 10 % 10).toNat = v.toNat / 10 % 10 := by
      rfl
    have hrest : (v / 10 / 10).toNat = v.toNat / 10 / 10 := by
      rfl
    have hpack := nibbles_pack (Nat.mod_lt (v.toNat / 10) (by decide : 0 < 10))
      (Nat.mod_lt v.toNat (by decide : 0 < 10))
    have hpow : 10 ^ (2 * (n + 1)) = 10 * (10 * 10 ^ (2 * n)) := by
      ring
    rw [encodeBcd, value_cons, hlow, hhigh, hpack.1, hpack.2, ih, hrest, hpow, Nat.mod_mul,
      Nat.mod_mul]

theorem packed_encodeBcd (v : BitVec 64) (n : Nat) : (encodeBcd v n).all isPacked = true := by
  induction n generalizing v with
  | zero => rfl
  | succ n ih =>
    rw [encodeBcd, List.all_cons, ih, Bool.and_true]
    have hhigh : (v / 10 % 10).toNat < 10 := Nat.mod_lt (v.toNat / 10) (by decide)
    have hlow : (v % 10).toNat < 10 := Nat.mod_lt v.toNat (by decide)
    have hpack := nibbles_pack hhigh hlow
    simp only [isPacked, Bool.and_eq_true, decide_eq_true_eq, UInt8.le_iff_toNat_le]
    rw [hpack.1, hpack.2]
    exact ⟨Nat.le_of_lt_succ hhigh, Nat.le_of_lt_succ hlow⟩

theorem decodeBcd_encodeBcd (v : BitVec 64) (n : Nat)
    : decodeBcd (encodeBcd v n) = some (some (BitVec.ofNat 64 (v.toNat % 10 ^ (2 * n)))) := by
  have hpacked := packed_encodeBcd v n
  have hwhole : (encodeBcd v n).rtakeWhile isPacked = encodeBcd v n := by
    rw [List.rtakeWhile_eq_self_iff]
    exact List.all_eq_true.mp hpacked
  have hfits : v.toNat % 10 ^ (2 * n) < 2 ^ 64 :=
    Nat.lt_of_le_of_lt (Nat.mod_le _ _) v.isLt
  rw [decodeBcd_eq, hwhole, value_encodeBcd, checked_of_lt hfits, Option.map_some, if_pos hpacked]

theorem decodeBcdBe_encodeBcdBe (v : BitVec 64) (n : Nat)
    : decodeBcdBe (encodeBcdBe v n)
        = some (some (BitVec.ofNat 64 (v.toNat % 10 ^ (2 * n)))) := by
  rw [decodeBcdBe_eq, encodeBcdBe, List.reverse_reverse, decodeBcd_encodeBcd]

/-- Both decoders return the number the digits denote, or nothing where there is none, exactly
when the digits they come to see fit; and encoding is undone up to the digits it drops. -/
theorem bcd_exact_iff (bytes : List UInt8) (v : BitVec 64) (n : Nat)
    : (decodeBcd bytes = some (exact bytes)
        ↔ value (bytes.rtakeWhile isPacked) < 2 ^ 64)
      ∧ (decodeBcdBe bytes = some (exact bytes.reverse)
        ↔ value (bytes.takeWhile isPacked).reverse < 2 ^ 64)
      ∧ decodeBcdBe bytes = decodeBcd bytes.reverse
      ∧ decodeBcd (encodeBcd v n)
          = some (some (BitVec.ofNat 64 (v.toNat % 10 ^ (2 * n))))
      ∧ decodeBcdBe (encodeBcdBe v n)
          = some (some (BitVec.ofNat 64 (v.toNat % 10 ^ (2 * n)))) := by
  refine ⟨decodeBcd_eq_exact_iff bytes, ?_, decodeBcdBe_eq bytes, decodeBcd_encodeBcd v n,
    decodeBcdBe_encodeBcdBe v n⟩
  rw [decodeBcdBe_eq, decodeBcd_eq_exact_iff, List.rtakeWhile, List.reverse_reverse]

/-- The twenty digits of `2 ^ 64` are all decimal and their value does not fit: the source says
`None` nowhere on the way, and its last addition overflows. -/
theorem decodeBcdBe_overflows
    : let bytes : List UInt8 := [0x18, 0x44, 0x67, 0x44, 0x07, 0x37, 0x09, 0x55, 0x16, 0x16]
      bytes.all isPacked = true ∧ value bytes.reverse = 2 ^ 64
        ∧ exact bytes.reverse = none ∧ decodeBcdBe bytes = none := by
  decide

end Bcd

end Framework
