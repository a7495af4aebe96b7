import RadioCat.Arith.Checked
import RadioCat.Arith.MultiplyShift

/-!
This module contains the seeded generator and the draw of a number in a range: a draw of 32 bits is
multiplied into the range, and drawn again where the range would come out uneven.
-/

namespace Morse

open Arith

structure Rng where
  s0 : BitVec 64
  s1 : BitVec 64
  s2 : BitVec 64
  s3 : BitVec 64
  deriving DecidableEq, Repr

/-- The value and the next state. -/
def splitmix64 (state : BitVec 64) : BitVec 64 × BitVec 64 :=
  let state := state + 0x9E3779B97F4A7C15#64
  let z := state
  let z := (z ^^^ (z >>> 30)) * 0xBF58476D1CE4E5B9#64
  let z := (z ^^^ (z >>> 27)) * 0x94D049BB133111EB#64
  (z ^^^ (z >>> 31), state)

namespace Rng

def seeded (sm : BitVec 64) : Rng :=
  let (s0, sm) := splitmix64 sm
  let (s1, sm) := splitmix64 sm
  let (s2, sm) := splitmix64 sm
  let (s3, _) := splitmix64 sm
  { s0, s1, s2, s3 }

def new (seed : BitVec 64) : Rng :=
  seeded seed

def fork (rng : Rng) (stream : BitVec 64) : Rng :=
  seeded (rng.s0 ^^^ rng.s1.rotateLeft 17 ^^^ rng.s2.rotateLeft 31 ^^^ rng.s3.rotateLeft 47 ^^^
    stream * 0xD1B54A32D192ED03#64)

def nextU64 (rng : Rng) : BitVec 64 × Rng :=
  let result := (rng.s1 * 5).rotateLeft 7 * 9
  let t := rng.s1 <<< 17
  let s2 := rng.s2 ^^^ rng.s0
  let s3 := rng.s3 ^^^ rng.s1
  let s1 := rng.s1 ^^^ s2
  let s0 := rng.s0 ^^^ s3
  let s2 := s2 ^^^ t
  let s3 := s3.rotateLeft 45
  (result, { s0, s1, s2, s3 })

/-! The sums and products of `rangeU32` are checked: the outer option is none where one of them
does not fit its word. -/

/-- A turn of the loop: the number that a draw gives, or none where it is rejected. -/
def accept (lo : BitVec 32) (span threshold x : Nat) : Option (Option (BitVec 32)) := do
  let m ← within 64 (x * span)
  if m &&& 0xFFFFFFFF ≥ threshold then
    return some (← checkedAdd lo (BitVec.ofNat 32 (m >>> 32)))
  else
    return none

/-- The number that comes out within the fuel. -/
def rangeLoop (lo : BitVec 32) (span threshold : Nat) (fuel : Nat) (rng : Rng)
    : Option (Option (BitVec 32 × Rng)) :=
  match fuel with
  | 0 => some none
  | fuel + 1 => do
    let (bits, rng) := rng.nextU64
    match ← accept lo span threshold (bits >>> 32).toNat with
    | some v => return some (v, rng)
    | none => rangeLoop lo span threshold fuel rng

def ordered (lo hi : BitVec 32) : BitVec 32 × BitVec 32 :=
  if hi < lo then (hi, lo) else (lo, hi)

def rangeU32 (fuel : Nat) (rng : Rng) (lo hi : BitVec 32) : Option (Option (BitVec 32 × Rng)) := do
  let (lo, hi) := ordered lo hi
  let span ← within 64 ((← checkedSub hi lo).toNat + 1)
  if span > 2 ^ 32 - 1 then
    let (bits, rng) := rng.nextU64
    return some (bits.setWidth 32, rng)
  else
    rangeLoop lo span (2 ^ 32 % span) fuel rng

def after (rng : Rng) : Nat → Rng
  | 0 => rng
  | n + 1 => rng.nextU64.2.after n

/-- The 32 bits that a turn of the loop goes by. -/
def bits (rng : Rng) : Nat :=
  (rng.nextU64.1 >>> 32).toNat

theorem bits_lt (rng : Rng) : rng.bits < 2 ^ 32 := by
  rw [bits, BitVec.toNat_ushiftRight, Nat.shiftRight_eq_div_pow]
  omega

theorem accept_eq {lo : BitVec 32} {span x : Nat} (hx : x < 2 ^ 32) (hspan : 0 < span)
    (hfits : lo.toNat + span ≤ 2 ^ 32)
    : accept lo span (2 ^ 32 % span) x =
        some (if MultiplyShift.Accepted (2 ^ 32) span x then
          some (BitVec.ofNat 32 (lo.toNat + MultiplyShift.value (2 ^ 32) span x)) else none) := by
  have hproduct : x * span < 2 ^ 64 := by
    calc
      x * span < 2 ^ 32 * 2 ^ 32 := Nat.mul_lt_mul_of_lt_of_le hx (by omega) (by omega)
      _ = 2 ^ 64 := by decide
  have hmask : x * span &&& 0xFFFFFFFF = x * span % 2 ^ 32 :=
    Nat.and_two_pow_sub_one_eq_mod (x * span) 32
  have hvalue := MultiplyShift.value_lt hx hspan
  have hshift : (x * span) >>> 32 = MultiplyShift.value (2 ^ 32) span x :=
    Nat.shiftRight_eq_div_pow (x * span) 32
  unfold accept
  rw [within_of_lt hproduct]
  simp only [Option.bind_eq_bind, Option.bind_some]
  rw [hmask, hshift]
  by_cases h : 2 ^ 32 % span ≤ x * span % 2 ^ 32
  . have hoffset : (BitVec.ofNat 32 (MultiplyShift.value (2 ^ 32) span x)).toNat =
        MultiplyShift.value (2 ^ 32) span x := by
      rw [BitVec.toNat_ofNat, Nat.mod_eq_of_lt (by omega)]
    rw [if_pos h, if_pos (show MultiplyShift.Accepted (2 ^ 32) span x from h), checkedAdd, hoffset,
      checked_of_lt (by omega)]
    rfl
  . rw [if_neg h, if_neg (show ¬ MultiplyShift.Accepted (2 ^ 32) span x from h)]
    rfl

section range

variable (lo hi : BitVec 32)

def span : Nat :=
  (ordered lo hi).2.toNat - (ordered lo hi).1.toNat + 1

/-- What becomes of one draw. -/
def trial (x : Nat) : Option (Option (BitVec 32)) :=
  accept (ordered lo hi).1 (span lo hi) (2 ^ 32 % span lo hi) x

theorem ordered_le : (ordered lo hi).1.toNat ≤ (ordered lo hi).2.toNat := by
  unfold ordered
  split
  next h => exact Nat.le_of_lt h
  next h => exact Nat.not_lt.mp h

theorem span_pos : 0 < span lo hi := by
  exact Nat.succ_pos _

theorem ordered_add_span : (ordered lo hi).1.toNat + span lo hi = (ordered lo hi).2.toNat + 1 := by
  have hle := ordered_le lo hi
  unfold span
  omega

theorem trial_cases {x : Nat} (hx : x < 2 ^ 32)
    : ¬ MultiplyShift.Accepted (2 ^ 32) (span lo hi) x ∧ trial lo hi x = some none ∨
      MultiplyShift.Accepted (2 ^ 32) (span lo hi) x ∧
        ∃ v, trial lo hi x = some (some v) ∧
          v.toNat = (ordered lo hi).1.toNat + MultiplyShift.value (2 ^ 32) (span lo hi) x := by
  have hspan := span_pos lo hi
  have hadd := ordered_add_span lo hi
  have hlt := (ordered lo hi).2.isLt
  have hvalue := MultiplyShift.value_lt hx hspan
  rw [trial, accept_eq hx hspan (by omega)]
  by_cases h : MultiplyShift.Accepted (2 ^ 32) (span lo hi) x
  . refine .inr ⟨h, _, by rw [if_pos h], ?_⟩
    rw [BitVec.toNat_ofNat, Nat.mod_eq_of_lt (by omega)]
  . exact .inl ⟨h, by rw [if_neg h]⟩

variable {lo hi}

theorem trial_eq_some_iff {x : Nat} (hx : x < 2 ^ 32) {v : BitVec 32}
    : trial lo hi x = some (some v) ↔
        MultiplyShift.Accepted (2 ^ 32) (span lo hi) x ∧
          v.toNat = (ordered lo hi).1.toNat + MultiplyShift.value (2 ^ 32) (span lo hi) x := by
  rcases trial_cases lo hi hx with ⟨hrejected, hnone⟩ | ⟨haccepted, u, hsome, hu⟩
  . rw [hnone]
    constructor
    . nofun
    . intro h
      exact absurd h.1 hrejected
  . rw [hsome, ← hu, BitVec.toNat_inj, Option.some.injEq, Option.some.injEq]
    constructor
    . intro h
      exact ⟨haccepted, h.symm⟩
    . intro h
      exact h.2.symm

theorem mem_range_of_trial {x : Nat} (hx : x < 2 ^ 32) {v : BitVec 32}
    (h : trial lo hi x = some (some v)) : (ordered lo hi).1 ≤ v ∧ v ≤ (ordered lo hi).2 := by
  have hadd := ordered_add_span lo hi
  have hvalue := MultiplyShift.value_lt hx (span_pos lo hi)
  have hv := ((trial_eq_some_iff hx).mp h).2
  rw [BitVec.le_def, BitVec.le_def]
  omega

theorem card_trial {v : BitVec 32} (hle : (ordered lo hi).1 ≤ v) (hge : v ≤ (ordered lo hi).2)
    : ((Finset.range (2 ^ 32)).filter fun x => trial lo hi x = some (some v)).card =
        2 ^ 32 / span lo hi := by
  rw [BitVec.le_def] at hle hge
  have hadd := ordered_add_span lo hi
  have hj : v.toNat - (ordered lo hi).1.toNat < span lo hi := by omega
  rw [← MultiplyShift.card_value (span_pos lo hi) (Nat.two_pow_pos 32) hj]
  apply congrArg
  apply Finset.filter_congr
  intro x hx
  rw [trial_eq_some_iff (Finset.mem_range.mp hx)]
  apply and_congr_right
  intro _
  omega

theorem card_trial_none
    : ((Finset.range (2 ^ 32)).filter fun x => trial lo hi x = some none).card =
        2 ^ 32 % span lo hi := by
  rw [← MultiplyShift.card_rejected (span_pos lo hi) (Nat.two_pow_pos 32)]
  apply congrArg
  apply Finset.filter_congr
  intro x hx
  rcases trial_cases lo hi (Finset.mem_range.mp hx) with
    ⟨hrejected, hnone⟩ | ⟨haccepted, v, hsome, -⟩
  . exact iff_of_true hnone hrejected
  . rw [hsome]
    exact iff_of_false nofun (not_not_intro haccepted)

theorem rangeU32_eq (h : span lo hi < 2 ^ 32) (fuel : Nat) (rng : Rng)
    : rangeU32 fuel rng lo hi =
        rangeLoop (ordered lo hi).1 (span lo hi) (2 ^ 32 % span lo hi) fuel rng := by
  have hle := ordered_le lo hi
  have hspan : ((ordered lo hi).2 - (ordered lo hi).1).toNat + 1 = span lo hi := by
    rw [BitVec.toNat_sub_of_le hle, span]
  unfold rangeU32
  simp only [checkedSub_of_le hle, Option.bind_eq_bind, Option.bind_some, hspan]
  rw [within_of_lt (by omega), Option.bind_some, if_neg (by omega)]

theorem rangeLoop_of_some {rng : Rng} {v : BitVec 32} (h : trial lo hi rng.bits = some (some v))
    (fuel : Nat)
    : rangeLoop (ordered lo hi).1 (span lo hi) (2 ^ 32 % span lo hi) (fuel + 1) rng =
        some (some (v, rng.after 1)) := by
  unfold trial bits at h
  simp only [rangeLoop, h, Option.bind_eq_bind, Option.bind_some]
  rfl

theorem rangeLoop_of_none {rng : Rng} (h : trial lo hi rng.bits = some none) (fuel : Nat)
    : rangeLoop (ordered lo hi).1 (span lo hi) (2 ^ 32 % span lo hi) (fuel + 1) rng =
        rangeLoop (ordered lo hi).1 (span lo hi) (2 ^ 32 % span lo hi) fuel (rng.after 1) := by
  unfold trial bits at h
  simp only [rangeLoop, h, Option.bind_eq_bind, Option.bind_some]
  rfl

theorem rangeLoop_mem_range (fuel : Nat) (rng : Rng)
    : ∃ r, rangeLoop (ordered lo hi).1 (span lo hi) (2 ^ 32 % span lo hi) fuel rng = some r ∧
        ∀ v ∈ r.map Prod.fst, (ordered lo hi).1 ≤ v ∧ v ≤ (ordered lo hi).2 := by
  induction fuel generalizing rng with
  | zero => exact ⟨none, rfl, nofun⟩
  | succ fuel ih =>
    rcases trial_cases lo hi rng.bits_lt with ⟨-, hnone⟩ | ⟨-, v, hsome, -⟩
    . rw [rangeLoop_of_none hnone]
      exact ih (rng.after 1)
    . refine ⟨_, rangeLoop_of_some hsome fuel, ?_⟩
      intro u hu
      cases hu
      exact mem_range_of_trial rng.bits_lt hsome

theorem rangeLoop_of_first {n fuel : Nat} {rng : Rng} {v : BitVec 32} (hfuel : n < fuel)
    (hrejected : ∀ i, i < n → trial lo hi (rng.after i).bits = some none)
    (haccepted : trial lo hi (rng.after n).bits = some (some v))
    : rangeLoop (ordered lo hi).1 (span lo hi) (2 ^ 32 % span lo hi) fuel rng =
        some (some (v, rng.after (n + 1))) := by
  induction n generalizing fuel rng with
  | zero =>
    obtain ⟨fuel, rfl⟩ := Nat.exists_eq_succ_of_ne_zero (Nat.ne_of_gt hfuel)
    exact rangeLoop_of_some haccepted fuel
  | succ n ih =>
    obtain ⟨fuel, rfl⟩ := Nat.exists_eq_succ_of_ne_zero (Nat.ne_of_gt (Nat.zero_lt_of_lt hfuel))
    have hfirst : trial lo hi rng.bits = some none := hrejected 0 (Nat.succ_pos n)
    rw [Nat.succ_eq_add_one, rangeLoop_of_none hfirst]
    apply ih (by omega)
    . intro i hi
      exact hrejected (i + 1) (by omega)
    . exact haccepted

variable (lo hi)

theorem rangeU32_unbiased (h : span lo hi < 2 ^ 32)
    : (∀ v, (ordered lo hi).1 ≤ v → v ≤ (ordered lo hi).2 →
        ((Finset.range (2 ^ 32)).filter fun x => trial lo hi x = some (some v)).card =
          2 ^ 32 / span lo hi) ∧
      (∀ x, x < 2 ^ 32 →
        trial lo hi x = some none ∨
          ∃ v, (ordered lo hi).1 ≤ v ∧ v ≤ (ordered lo hi).2 ∧ trial lo hi x = some (some v)) ∧
      ((Finset.range (2 ^ 32)).filter fun x => trial lo hi x = some none).card =
        2 ^ 32 % span lo hi ∧
      (∀ fuel rng, ∃ r, rangeU32 fuel rng lo hi = some r ∧
        ∀ v ∈ r.map Prod.fst, (ordered lo hi).1 ≤ v ∧ v ≤ (ordered lo hi).2) ∧
      ∀ n fuel rng v, n < fuel →
        (∀ i, i < n → trial lo hi (rng.after i).bits = some none) →
        trial lo hi (rng.after n).bits = some (some v) →
        rangeU32 fuel rng lo hi = some (some (v, rng.after (n + 1))) := by
  refine ⟨fun v => card_trial, ?_, card_trial_none, ?_, ?_⟩
  . intro x hx
    rcases trial_cases lo hi hx with ⟨-, hnone⟩ | ⟨-, v, hsome, -⟩
    . exact .inl hnone
    . have hmem := mem_range_of_trial hx hsome
      exact .inr ⟨v, hmem.1, hmem.2, hsome⟩
  . intro fuel rng
    rw [rangeU32_eq h]
    exact rangeLoop_mem_range fuel rng
  . intro n fuel rng v hfuel hrejected haccepted
    rw [rangeU32_eq h]
    exact rangeLoop_of_first hfuel hrejected haccepted

/-- A die, with its faces in either order. -/
theorem rangeU32_unbiased_die
    : span 6#32 1#32 = 6 ∧
      ((Finset.range (2 ^ 32)).filter fun x => trial 6#32 1#32 x = some (some 3#32)).card =
        2 ^ 32 / span 6#32 1#32 := by
  have h := rangeU32_unbiased 6#32 1#32 (by decide)
  exact ⟨by decide, h.1 3#32 (by decide) (by decide)⟩

end range

end Rng

end Morse
