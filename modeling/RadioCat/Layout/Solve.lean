import Mathlib.Algebra.Order.BigOperators.Group.List
import Mathlib.Algebra.Order.Ring.Nat
import RadioCat.Arith.Share
import RadioCat.Layout.Basic

/-!
This module contains what `solve` gives each child: what the first pass grants it, its share of
what that pass leaves and, for the last flexible child, what the rounding of the shares loses.
-/

namespace Layout

open Arith

namespace Size

/-- What the first pass grants out of what is left. -/
def granted (size : Size) (left : Nat) : Nat :=
  if size.want.toNat ≤ left then size.want.toNat else 0

theorem granted_le (size : Size) (left : Nat) : size.granted left ≤ left := by
  unfold granted
  split <;> omega

theorem weight_lt (size : Size) : size.weight.toNat < 2 ^ 16 := by
  cases size with
  | fixed n => simp [weight]
  | min n => simp [weight]
  | fill w =>
    have hlt := w.isLt
    simp only [weight, BitVec.toNat_setWidth]
    omega
  | natural => simp [weight]

end Size

def room : List Size → Nat → Nat
  | [], left => left
  | size :: sizes, left => room sizes (left - size.granted left)

def weights (sizes : List Size) : List Nat :=
  sizes.map (·.weight.toNat)

def lastFlexible : List Size → Option Nat
  | [] => none
  | size :: sizes =>
    match lastFlexible sizes with
    | some k => some (k + 1)
    | none => if size.weight = 0 then none else some 0

def sum (given : List U16) : Nat :=
  (given.map BitVec.toNat).sum

def spanAt (given : List U16) (i : Nat) : Nat :=
  (given.getD i 0).toNat

@[simp]
theorem sum_nil : sum [] = 0 := rfl

@[simp]
theorem sum_cons (span : U16) (given : List U16)
    : sum (span :: given) = span.toNat + sum given := by
  simp [sum]

theorem room_le (sizes : List Size) (left : Nat) : room sizes left ≤ left := by
  induction sizes generalizing left with
  | nil => exact Nat.le_refl left
  | cons size sizes ih => exact Nat.le_trans (ih _) (Nat.sub_le left _)

theorem room_take_le (sizes : List Size) (i left : Nat)
    : room sizes left ≤ room (sizes.take i) left := by
  induction sizes generalizing i left with
  | nil => simp
  | cons size sizes ih =>
    cases i with
    | zero => exact room_le (size :: sizes) left
    | succ i => exact ih i _

def grantAt (sizes : List Size) (left i : Nat) : Nat :=
  match sizes[i]? with
  | some size => size.granted (room (sizes.take i) left)
  | none => 0

def shareAt (remainder weight : Nat) (sizes : List Size) (i : Nat) : Nat :=
  share remainder weight ((weights sizes).getD i 0)

structure Granted (sizes : List Size) (total : Nat) (given : List U16) (rest : U16) : Prop where
  length : given.length = sizes.length
  rest : rest.toNat = room sizes total
  sum : sum given + room sizes total = total
  spanAt (i : Nat) : spanAt given i = grantAt sizes total i

theorem exists_grant (sizes : List Size) (total : U16)
    : ∃ given rest, grant sizes total = some (given, rest) ∧
        Granted sizes total.toNat given rest := by
  induction sizes generalizing total with
  | nil => exact ⟨[], total, rfl, rfl, rfl, by simp [room], fun i => by simp [spanAt, grantAt]⟩
  | cons size sizes ih =>
    -- what the size gets, as the code and as `granted` have it
    obtain ⟨got, hgot⟩ : ∃ got, (if size.want ≤ total then size.want else 0) = got := ⟨_, rfl⟩
    have hgranted : got.toNat = size.granted total.toNat := by
      rw [← hgot, Size.granted]
      simp only [BitVec.le_def]
      split <;> rfl
    have hle := size.granted_le total.toNat
    have hsub : checkedSub total got = some (total - got) := checkedSub_of_le (by omega)
    have hleft : (total - got).toNat = total.toNat - size.granted total.toNat := by
      rw [BitVec.toNat_sub_of_le (BitVec.le_def.mpr (by omega)), hgranted]
    obtain ⟨given, rest, hgrant, h⟩ := ih (total - got)
    rw [hleft] at h
    refine ⟨got :: given, rest, ?_, ?_, h.rest, ?_, ?_⟩
    . rw [grant, hgot]
      simp only [hsub, hgrant, Option.bind_eq_bind, Option.bind_some]
    . simp [h.length]
    . have hsum := h.sum
      rw [sum_cons, room]
      omega
    . intro i
      cases i with
      | zero => exact hgranted
      | succ i => exact h.spanAt i

theorem sum_set (l : List Nat) (i a : Nat) (hi : i < l.length)
    : (l.set i a).sum + l[i] = l.sum + a := by
  induction l generalizing i with
  | nil => simp at hi
  | cons b l ih =>
    cases i with
    | zero =>
      simp
      omega
    | succ i =>
      have := ih i (by simpa using hi)
      simp
      omega

structure Added (given : List U16) (i n : Nat) (given' : List U16) : Prop where
  length : given'.length = given.length
  sum : sum given' = sum given + n
  spanAt (j : Nat) : spanAt given' j = spanAt given j + if j = i then n else 0

theorem exists_addAt {given : List U16} {i : Nat} {n : U16} (hi : i < given.length)
    (hfit : sum given + n.toNat < 2 ^ 16)
    : ∃ given', addAt given i n = some given' ∧ Added given i n.toNat given' := by
  have hle : given[i].toNat ≤ sum given := by
    apply List.le_sum_of_mem
    exact List.mem_map_of_mem (List.getElem_mem hi)
  have hadd : checkedAdd given[i] n = some (given[i] + n) := checkedAdd_of_lt (by omega)
  have hnew := checkedAdd_eq_some_iff.mp hadd
  refine ⟨given.set i (given[i] + n), by simp [addAt, hi, hadd], by simp, ?_, ?_⟩
  . have hset := sum_set (given.map BitVec.toNat) i (given[i] + n).toNat (by simpa using hi)
    rw [← List.map_set, List.getElem_map] at hset
    unfold sum
    omega
  . intro j
    unfold spanAt
    rw [List.getD_eq_getElem?_getD, List.getD_eq_getElem?_getD, List.getElem?_set]
    by_cases hj : i = j
    . subst hj
      simp [hi, hnew]
    . have hj' : ¬ j = i := fun h => hj h.symm
      simp [hj, hj']

/-- What the second pass hands out among the sizes from child `i` on. -/
structure HandedOut (remainder weight : Nat) (sizes : List Size) (i : Nat) (h h' : Handout)
    : Prop where
  length : h'.given.length = h.given.length
  sum : sum h'.given = sum h.given + ((weights sizes).map (share remainder weight)).sum
  handed :
    h'.handed.toNat = h.handed.toNat + ((weights sizes).map (share remainder weight)).sum
  spanAt (j : Nat) :
    spanAt h'.given j =
      spanAt h.given j + if j < i then 0 else shareAt remainder weight sizes (j - i)
  lastFlexible : h'.lastFlexible = ((lastFlexible sizes).map (i + ·)).or h.lastFlexible

@[simp]
theorem shareAt_cons_zero (remainder weight : Nat) (size : Size) (sizes : List Size)
    : shareAt remainder weight (size :: sizes) 0 = share remainder weight size.weight.toNat := rfl

@[simp]
theorem shareAt_cons_succ (remainder weight : Nat) (size : Size) (sizes : List Size) (i : Nat)
    : shareAt remainder weight (size :: sizes) (i + 1) = shareAt remainder weight sizes i := rfl

theorem shareAt_cons_sub (remainder weight : Nat) (size : Size) (sizes : List Size) (i j : Nat)
    : (if j < i then 0 else shareAt remainder weight (size :: sizes) (j - i)) =
        (if j = i then share remainder weight size.weight.toNat else 0) +
          (if j < i + 1 then 0 else shareAt remainder weight sizes (j - (i + 1))) := by
  rcases Nat.lt_trichotomy j i with hlt | heq | hgt
  . simp [hlt, Nat.ne_of_lt hlt, Nat.lt_succ_of_lt hlt]
  . simp [heq]
  . have hsub : j - i = j - (i + 1) + 1 := by omega
    simp [Nat.not_lt_of_gt hgt, Nat.ne_of_gt hgt, hsub]
    omega

theorem lastFlexible_cons_zero {size : Size} (sizes : List Size) (hw : size.weight = 0)
    (i : Nat) (last : Option Nat)
    : ((lastFlexible (size :: sizes)).map (i + ·)).or last =
        ((lastFlexible sizes).map (i + 1 + ·)).or last := by
  rw [lastFlexible]
  cases lastFlexible sizes with
  | none => simp [hw]
  | some k => simp [Nat.add_right_comm, Nat.add_assoc]

theorem lastFlexible_cons_pos {size : Size} (sizes : List Size) (hw : size.weight ≠ 0)
    (i : Nat) (last : Option Nat)
    : ((lastFlexible (size :: sizes)).map (i + ·)).or last =
        ((lastFlexible sizes).map (i + 1 + ·)).or (some i) := by
  rw [lastFlexible, if_neg hw]
  cases lastFlexible sizes with
  | none => simp
  | some k => simp [Nat.add_right_comm, Nat.add_assoc]

theorem exists_product (remainder weight : U32) (size : Size)
    (hremainder : remainder.toNat < 2 ^ 16)
    : ∃ product, checkedMul remainder size.weight = some product ∧
        (product / weight).toNat = share remainder.toNat weight.toNat size.weight.toNat := by
  have hlt : remainder.toNat * size.weight.toNat < 2 ^ 32 := by
    exact Nat.lt_of_lt_of_le (Nat.mul_lt_mul'' hremainder size.weight_lt) (by decide)
  have hmul := checkedMul_of_lt hlt
  refine ⟨_, hmul, ?_⟩
  rw [BitVec.toNat_udiv, checkedMul_eq_some_iff.mp hmul, share]

theorem exists_handOut_cons {remainder : U32} (weight : U32) {size : Size} (sizes : List Size)
    {i : Nat} {h : Handout} (hw : size.weight ≠ 0) (hremainder : remainder.toNat < 2 ^ 16)
    (hi : i < h.given.length)
    (hfit : sum h.given + share remainder.toNat weight.toNat size.weight.toNat < 2 ^ 16)
    (hhanded : h.handed.toNat + share remainder.toNat weight.toNat size.weight.toNat < 2 ^ 32)
    : ∃ given handed,
        handOut remainder weight (size :: sizes) i h
          = handOut remainder weight sizes (i + 1) ⟨given, handed, some i⟩ ∧
        Added h.given i (share remainder.toNat weight.toNat size.weight.toNat) given ∧
        handed.toNat = h.handed.toNat + share remainder.toNat weight.toNat size.weight.toNat := by
  obtain ⟨product, hmul, hshare⟩ := exists_product remainder weight size hremainder
  obtain ⟨part, hpart⟩ : ∃ part, product / weight = part := ⟨_, rfl⟩
  rw [hpart] at hshare
  rw [← hshare] at hfit hhanded ⊢
  have hcut : (part.setWidth 16).toNat = part.toNat := by
    rw [BitVec.toNat_setWidth, Nat.mod_eq_of_lt (by omega)]
  obtain ⟨given, hadd, hgiven⟩ := @exists_addAt h.given i (part.setWidth 16) hi (by omega)
  rw [hcut] at hgiven
  have hhand : checkedAdd h.handed part = some (h.handed + part) := checkedAdd_of_lt hhanded
  refine ⟨given, h.handed + part, ?_, hgiven, checkedAdd_eq_some_iff.mp hhand⟩
  rw [handOut, if_neg hw]
  simp only [hmul, hpart, hadd, hhand, Option.bind_eq_bind, Option.bind_some]

theorem exists_handOut {remainder weight : U32} (sizes : List Size) (i : Nat) (h : Handout)
    (hremainder : remainder.toNat < 2 ^ 16) (hlength : h.given.length = i + sizes.length)
    (hfit : sum h.given +
      ((weights sizes).map (share remainder.toNat weight.toNat)).sum < 2 ^ 16)
    (hhanded : h.handed.toNat +
      ((weights sizes).map (share remainder.toNat weight.toNat)).sum < 2 ^ 32)
    : ∃ h', handOut remainder weight sizes i h = some h' ∧
        HandedOut remainder.toNat weight.toNat sizes i h h' := by
  induction sizes generalizing i h with
  | nil => exact ⟨h, rfl, rfl, by simp [weights], by simp [weights],
      fun j => by simp [shareAt, weights], rfl⟩
  | cons size sizes ih =>
    simp only [weights, List.map_cons, List.sum_cons] at hfit hhanded ih
    rw [List.length_cons] at hlength
    by_cases hw : size.weight = 0
    . have hshare : share remainder.toNat weight.toNat size.weight.toNat = 0 := by simp [hw]
      obtain ⟨h', hrun, ho⟩ := ih (i + 1) h (by omega) (by omega) (by omega)
      refine ⟨h', by rw [handOut, if_pos hw, hrun], ho.length, ?_, ?_, ?_, ?_⟩
      . simpa [weights, hshare] using ho.sum
      . simpa [weights, hshare] using ho.handed
      . intro j
        rw [shareAt_cons_sub, hshare, ho.spanAt j]
        simp
      . rw [lastFlexible_cons_zero sizes hw, ho.lastFlexible]
    . have hi : i < h.given.length := by omega
      obtain ⟨given, handed, hturn, hgiven, hhand⟩ :=
        exists_handOut_cons weight sizes hw hremainder hi (by omega) (by omega)
      have hsum := hgiven.sum
      have hlen := hgiven.length
      obtain ⟨h', hrun, ho⟩ := ih (i + 1) ⟨given, handed, some i⟩
        (by simp only; omega) (by simp only; omega) (by simp only; omega)
      refine ⟨h', by rw [hturn, hrun], by rw [ho.length, hlen], ?_, ?_, ?_, ?_⟩
      . have := ho.sum
        simp only [weights, List.map_cons, List.sum_cons] at this ⊢
        omega
      . have := ho.handed
        simp only [weights, List.map_cons, List.sum_cons] at this ⊢
        omega
      . intro j
        rw [shareAt_cons_sub, ho.spanAt j, hgiven.spanAt j, Nat.add_assoc]
      . rw [lastFlexible_cons_pos sizes hw, ho.lastFlexible]

theorem lastFlexible_weight {sizes : List Size} {i : Nat} {size : Size}
    (h : lastFlexible sizes = some i) (hi : sizes[i]? = some size) : size.weight ≠ 0 := by
  induction sizes generalizing i with
  | nil => cases h
  | cons head sizes ih =>
    rw [lastFlexible] at h
    split at h
    next k hk =>
      rw [← Option.some.inj h, List.getElem?_cons_succ] at hi
      exact ih hk hi
    next =>
      split at h
      next => cases h
      next hw =>
        rw [← Option.some.inj h, List.getElem?_cons_zero] at hi
        exact Option.some.inj hi ▸ hw

theorem lastFlexible_lt {sizes : List Size} {i : Nat} (h : lastFlexible sizes = some i)
    : i < sizes.length := by
  induction sizes generalizing i with
  | nil => cases h
  | cons size sizes ih =>
    rw [lastFlexible] at h
    split at h
    next k hk =>
      have := ih hk
      rw [← Option.some.inj h, List.length_cons]
      omega
    next =>
      split at h
      next => cases h
      next =>
        rw [← Option.some.inj h]
        exact Nat.zero_lt_succ _

theorem lastFlexible_eq_none_iff {sizes : List Size}
    : lastFlexible sizes = none ↔ (weights sizes).sum = 0 := by
  induction sizes with
  | nil => simp [lastFlexible, weights]
  | cons size sizes ih =>
    have hzero : size.weight = 0 ↔ size.weight.toNat = 0 := BitVec.toNat_inj.symm
    rw [lastFlexible, weights, List.map_cons, List.sum_cons, ← weights]
    cases hlast : lastFlexible sizes with
    | none =>
      have := ih.mp hlast
      by_cases hw : size.weight = 0
      . rw [if_pos hw, this, hzero.mp hw]
        simp
      . rw [if_neg hw]
        have := mt hzero.mpr hw
        simp only [reduceCtorEq, false_iff]
        omega
    | some k =>
      have : (weights sizes).sum ≠ 0 := by
        intro h
        rw [ih.mpr h] at hlast
        cases hlast
      simp only [reduceCtorEq, false_iff]
      omega

/-- What the shares leave of the remainder, for the last flexible child. -/
def slack (sizes : List Size) (total : Nat) : Nat :=
  room sizes total - ((weights sizes).map (share (room sizes total) (weights sizes).sum)).sum

/-- What the second pass adds to the span of child `i`. -/
def gain (sizes : List Size) (total i : Nat) : Nat :=
  shareAt (room sizes total) (weights sizes).sum sizes i +
    if lastFlexible sizes = some i then slack sizes total else 0

structure Solved (sizes : List Size) (total : Nat) (given : List U16) : Prop where
  length : given.length = sizes.length
  sum_le : sum given ≤ total
  sum_eq : (weights sizes).sum ≠ 0 → sum given = total
  spanAt (i : Nat) : spanAt given i = grantAt sizes total i + gain sizes total i

theorem Granted.solved {sizes : List Size} {total : Nat} {given : List U16} {rest : U16}
    (h : Granted sizes total given rest) (hnone : (weights sizes).sum = 0 ∨ room sizes total = 0)
    : Solved sizes total given := by
  have hsum := h.sum
  refine ⟨h.length, by omega, fun hpos => by omega, fun i => ?_⟩
  rw [h.spanAt i, gain]
  rcases hnone with hweight | hroom
  . rw [lastFlexible_eq_none_iff.mpr hweight, hweight]
    simp [shareAt, share]
  . simp [hroom, shareAt, share, slack]

/-- The second pass and the topping up of the last flexible child. -/
theorem Granted.exists_topUp {sizes : List Size} {total : U16} {given : List U16} {rest : U16}
    {weight : U32} (hg : Granted sizes total.toNat given rest)
    (hweight : weight.toNat = (weights sizes).sum) (hpos : 0 < weight.toNat)
    : ∃ h last given',
        handOut (rest.setWidth 32) weight sizes 0 { given } = some h ∧
        h.lastFlexible = some last ∧
        checkedSub (rest.setWidth 32) h.handed = some (rest.setWidth 32 - h.handed) ∧
        addAt h.given last ((rest.setWidth 32 - h.handed).setWidth 16) = some given' ∧
        Solved sizes total.toNat given' := by
  have htotal := total.isLt
  have hsum := hg.sum
  have hlength := hg.length
  have hremainder : (rest.setWidth 32).toNat = room sizes total.toNat := by
    rw [BitVec.toNat_setWidth, ← hg.rest, Nat.mod_eq_of_lt (by omega)]
  have hshares := @sum_share_le (room sizes total.toNat) (weights sizes).sum (weights sizes)
    (by omega) (Nat.le_refl _)
  have hslack : slack sizes total.toNat +
      ((weights sizes).map (share (room sizes total.toNat) (weights sizes).sum)).sum =
        room sizes total.toNat := Nat.sub_add_cancel hshares
  obtain ⟨h, hrun, ho⟩ := @exists_handOut (rest.setWidth 32) weight sizes 0 { given }
    (by omega) (by simpa using hlength) (by rw [hremainder, hweight]; simp only; omega)
    (by rw [hremainder, hweight]; simp; omega)
  rw [hremainder, hweight] at ho
  have hosum := ho.sum
  have hohanded := ho.handed
  have holength := ho.length
  simp only [BitVec.ofNat_eq_ofNat, BitVec.toNat_ofNat, Nat.zero_mod] at hosum hohanded holength
  obtain ⟨last, hlast⟩ : ∃ last, lastFlexible sizes = some last := by
    rw [← Option.ne_none_iff_exists']
    exact mt lastFlexible_eq_none_iff.mp (by omega)
  have hlt := lastFlexible_lt hlast
  have hsub : checkedSub (rest.setWidth 32) h.handed = some (rest.setWidth 32 - h.handed) :=
    checkedSub_of_le (by omega)
  have hrestNat := checkedSub_eq_some_iff.mp hsub
  have hcut : ((rest.setWidth 32 - h.handed).setWidth 16).toNat = slack sizes total.toNat := by
    rw [BitVec.toNat_setWidth, Nat.mod_eq_of_lt (by omega)]
    omega
  obtain ⟨given', hadd, ha⟩ := @exists_addAt h.given last
    ((rest.setWidth 32 - h.handed).setWidth 16) (by omega) (by omega)
  rw [hcut] at ha
  have hasum := ha.sum
  refine ⟨h, last, given', hrun, ?_, hsub, hadd, ?_, by omega, fun _ => by omega, fun i => ?_⟩
  . simp [ho.lastFlexible, hlast]
  . rw [ha.length, holength, hlength]
  . rw [ha.spanAt i, ho.spanAt i, gain, hlast, hg.spanAt i]
    simp [eq_comm, Nat.add_assoc]

theorem checkedSum_weight (sizes : List Size)
    : checkedSum (sizes.map Size.weight) = checked 32 (weights sizes).sum := by
  rw [checkedSum_eq, List.map_map]
  rfl

theorem exists_solve (sizes : List Size) (total : U16) (hweights : (weights sizes).sum < 2 ^ 32)
    : ∃ given, solve sizes total = some given ∧ Solved sizes total.toNat given := by
  obtain ⟨given, rest, hgrant, hg⟩ := exists_grant sizes total
  obtain ⟨weight, hweight⟩ : ∃ weight, checked 32 (weights sizes).sum = some weight :=
    ⟨_, checked_of_lt hweights⟩
  have hweightNat := checked_eq_some_iff.mp hweight
  have hrest := hg.rest
  unfold solve
  simp only [hgrant, checkedSum_weight, hweight, Option.bind_eq_bind, Option.bind_some]
  have hcond : 0 < weight ∧ 0 < rest ↔ 0 < weight.toNat ∧ 0 < rest.toNat := Iff.rfl
  by_cases hpos : 0 < weight ∧ 0 < rest
  . rw [if_pos hpos]
    obtain ⟨h, last, given', hrun, hlast, hsub, hadd, hsolved⟩ :=
      hg.exists_topUp hweightNat (hcond.mp hpos).1
    exact ⟨given', by simp only [hrun, hlast, hsub, hadd, Option.bind_some], hsolved⟩
  . rw [if_neg hpos]
    have hneg := mt hcond.mpr hpos
    exact ⟨given, rfl, hg.solved (by omega)⟩

theorem solve_eq_none {sizes : List Size} {total : U16} (h : 2 ^ 32 ≤ (weights sizes).sum)
    : solve sizes total = none := by
  obtain ⟨given, rest, hgrant, -⟩ := exists_grant sizes total
  unfold solve
  simp [hgrant, checkedSum_weight, checked_of_le h]

/-- All or nothing: `Fixed` gets its size or nothing and `Min` at least its size or nothing, and
what the earlier ones left room for is not denied. -/
def AllOrNothing (sizes : List Size) (total : Nat) (given : List U16) : Prop :=
  given.length = sizes.length ∧
    ∀ (i : Nat) (size : Size) (span : U16), sizes[i]? = some size → given[i]? = some span →
      match size with
      | .fixed n =>
        (span = n ∨ span = 0) ∧ (n.toNat ≤ room (sizes.take i) total → span = n)
      | .min n =>
        (span = 0 ∨ n.toNat ≤ span.toNat) ∧
          (n.toNat ≤ room (sizes.take i) total → n.toNat ≤ span.toNat)
      | .fill _ => True
      | .natural => True

/-- The second pass has nothing for a `Min` that the first pass denied. -/
def DeniedStayEmpty (sizes : List Size) (total : Nat) : Prop :=
  ∀ (i : Nat) (n : U16), sizes[i]? = some (.min n) → room (sizes.take i) total < n.toNat →
    room sizes total = 0 ∨
      room sizes total < (weights sizes).sum ∧ lastFlexible sizes ≠ some i

theorem weights_getElem {sizes : List Size} {i : Nat} {size : Size} (hi : sizes[i]? = some size)
    : ∃ h : i < (weights sizes).length, (weights sizes)[i] = size.weight.toNat := by
  obtain ⟨hlt, heq⟩ := List.getElem?_eq_some_iff.mp hi
  exact ⟨by simpa [weights] using hlt, by simp [weights, heq]⟩

theorem shareAt_eq {sizes : List Size} {i : Nat} {size : Size} (remainder weight : Nat)
    (hi : sizes[i]? = some size)
    : shareAt remainder weight sizes i = share remainder weight size.weight.toNat := by
  obtain ⟨hlt, heq⟩ := weights_getElem hi
  rw [shareAt, List.getD_eq_getElem?_getD, List.getElem?_eq_getElem hlt, Option.getD_some, heq]

theorem shareAt_add_slack {sizes : List Size} {total i : Nat} {size : Size}
    (hi : sizes[i]? = some size) (hpos : 0 < (weights sizes).sum)
    : shareAt (room sizes total) (weights sizes).sum sizes i + slack sizes total +
        (((weights sizes).set i 0).map (share (room sizes total) (weights sizes).sum)).sum =
          room sizes total := by
  obtain ⟨hlt, heq⟩ := weights_getElem hi
  have hle := @sum_share_le (room sizes total) (weights sizes).sum (weights sizes) hpos
    (Nat.le_refl _)
  have hset := sum_set ((weights sizes).map (share (room sizes total) (weights sizes).sum)) i 0
    (by simpa using hlt)
  rw [List.getElem_map, heq, ← share_zero (room sizes total) (weights sizes).sum,
    ← List.map_set] at hset
  rw [shareAt_eq _ _ hi, slack]
  simp only [share_zero] at hset
  omega

theorem shareAt_add_slack_pos {sizes : List Size} {total i : Nat} {size : Size}
    (hi : sizes[i]? = some size) (hw : size.weight.toNat ≠ 0) (hroom : 0 < room sizes total)
    : 0 < shareAt (room sizes total) (weights sizes).sum sizes i + slack sizes total := by
  obtain ⟨hlt, heq⟩ := weights_getElem hi
  have hset := sum_set (weights sizes) i 0 hlt
  rw [heq] at hset
  have hothers := @sum_share_lt (room sizes total) (weights sizes).sum ((weights sizes).set i 0)
    hroom (by omega)
  have hadd := @shareAt_add_slack sizes total i size hi (by omega)
  omega

theorem gain_fixed {sizes : List Size} {total i : Nat} {n : U16}
    (hi : sizes[i]? = some (.fixed n)) : gain sizes total i = 0 := by
  have hlast : lastFlexible sizes ≠ some i := fun h => lastFlexible_weight h hi rfl
  rw [gain, shareAt_eq _ _ hi, if_neg hlast]
  simp [Size.weight]

theorem gain_le_room {sizes : List Size} {total i : Nat} {n : U16}
    (hi : sizes[i]? = some (.min n)) : gain sizes total i ≤ room sizes total := by
  obtain ⟨hlt, heq⟩ := weights_getElem hi
  have hset := sum_set (weights sizes) i 0 hlt
  have hone : (weights sizes)[i] = 1 := heq
  have hadd := @shareAt_add_slack sizes total i _ hi (by omega)
  unfold gain
  split <;> omega

theorem gain_eq_zero_iff {sizes : List Size} {total i : Nat} {n : U16}
    (hi : sizes[i]? = some (.min n))
    : gain sizes total i = 0 ↔
        room sizes total = 0 ∨
          room sizes total < (weights sizes).sum ∧ lastFlexible sizes ≠ some i := by
  obtain ⟨hlt, heq⟩ := weights_getElem hi
  have hset := sum_set (weights sizes) i 0 hlt
  have hone : (weights sizes)[i] = 1 := heq
  unfold gain
  by_cases hlast : lastFlexible sizes = some i
  . rw [if_pos hlast]
    simp only [hlast, ne_eq, not_true, and_false, or_false]
    constructor
    . intro hzero
      by_contra hroom
      have hpos := @shareAt_add_slack_pos sizes total i _ hi Nat.one_ne_zero (by omega)
      omega
    . intro hroom
      have hadd := @shareAt_add_slack sizes total i _ hi (by omega)
      omega
  . rw [if_neg hlast, shareAt_eq _ _ hi, share, Nat.add_zero, Nat.div_eq_zero_iff]
    have hmul : room sizes total * (Size.min n).weight.toNat = room sizes total := Nat.mul_one _
    rw [hmul]
    simp only [hlast, ne_eq, not_false_eq_true, and_true]
    omega

namespace Solved

variable {sizes : List Size} {total : Nat} {given : List U16}

theorem toNat_span (h : Solved sizes total given) {i : Nat} {size : Size} {span : U16}
    (hi : sizes[i]? = some size) (hspan : given[i]? = some span)
    : span.toNat = size.granted (room (sizes.take i) total) + gain sizes total i := by
  have hat := h.spanAt i
  rw [Layout.spanAt, List.getD_eq_getElem?_getD, hspan, Option.getD_some] at hat
  rw [hat, grantAt, hi]

theorem allOrNothing (h : Solved sizes total given) (hempty : DeniedStayEmpty sizes total)
    : AllOrNothing sizes total given := by
  refine ⟨h.length, ?_⟩
  intro i size span hi hspan
  have hat := h.toNat_span hi hspan
  cases size with
  | fixed n =>
    rw [gain_fixed hi, Nat.add_zero] at hat
    by_cases hroom : n.toNat ≤ room (sizes.take i) total
    . have hgranted : (Size.fixed n).granted (room (sizes.take i) total) = n.toNat := if_pos hroom
      rw [hgranted] at hat
      have heq : span = n := BitVec.eq_of_toNat_eq hat
      exact ⟨Or.inl heq, fun _ => heq⟩
    . have hgranted : (Size.fixed n).granted (room (sizes.take i) total) = 0 := if_neg hroom
      rw [hgranted] at hat
      exact ⟨Or.inr (BitVec.eq_of_toNat_eq hat), fun hle => absurd hle hroom⟩
  | min n =>
    by_cases hroom : n.toNat ≤ room (sizes.take i) total
    . have hgranted : (Size.min n).granted (room (sizes.take i) total) = n.toNat := if_pos hroom
      rw [hgranted] at hat
      have hle : n.toNat ≤ span.toNat := hat ▸ Nat.le_add_right _ _
      exact ⟨Or.inr hle, fun _ => hle⟩
    . have hgain := (gain_eq_zero_iff hi).mpr (hempty i n hi (Nat.not_le.mp hroom))
      have hgranted : (Size.min n).granted (room (sizes.take i) total) = 0 := if_neg hroom
      rw [hgranted, hgain] at hat
      exact ⟨Or.inl (BitVec.eq_of_toNat_eq hat), fun hle => absurd hle hroom⟩
  | fill weight => trivial
  | natural => trivial

theorem deniedStayEmpty (h : Solved sizes total given) (hall : AllOrNothing sizes total given)
    : DeniedStayEmpty sizes total := by
  intro i n hi hroom
  have hlt : i < given.length := h.length ▸ (List.getElem?_eq_some_iff.mp hi).1
  have hspan := List.getElem?_eq_getElem hlt
  have hat := h.toNat_span hi hspan
  rw [Size.granted, if_neg (by simpa [Size.want] using hroom), Nat.zero_add] at hat
  -- what the second pass gives it is short of its minimum, so it must be nothing
  have hgain := @gain_le_room sizes total i n hi
  have hrest := room_take_le sizes i total
  rcases (hall.2 i _ _ hi hspan).1 with hzero | hle
  . rw [← gain_eq_zero_iff hi, ← hat, hzero]
    rfl
  . omega

end Solved

/-- `solve` is all or nothing exactly where the second pass has nothing for a denied `Min`. -/
theorem solve_allOrNothing_iff (sizes : List Size) (total : U16)
    : (∃ given, solve sizes total = some given ∧ AllOrNothing sizes total.toNat given) ↔
        (weights sizes).sum < 2 ^ 32 ∧ DeniedStayEmpty sizes total.toNat := by
  by_cases hweights : (weights sizes).sum < 2 ^ 32
  . obtain ⟨given, hsolve, hsolved⟩ := exists_solve sizes total hweights
    constructor
    . rintro ⟨given', hsolve', hall⟩
      rw [hsolve, Option.some.injEq] at hsolve'
      subst hsolve'
      exact ⟨hweights, hsolved.deniedStayEmpty hall⟩
    . rintro ⟨-, hempty⟩
      exact ⟨given, hsolve, hsolved.allOrNothing hempty⟩
  . constructor
    . rintro ⟨given, hsolve, -⟩
      rw [solve_eq_none (Nat.not_lt.mp hweights)] at hsolve
      cases hsolve
    . rintro ⟨hlt, -⟩
      exact absurd hlt hweights

/-- Half the ten it needs. -/
theorem solve_min_gets_part
    : solve [.min 10] 5 = some [5] ∧ ¬ AllOrNothing [.min 10] 5 [5] := by
  refine ⟨by decide, ?_⟩
  rintro ⟨-, hall⟩
  have hpart := (hall 0 (.min 10) 5 rfl rfl).1
  revert hpart
  decide

end Layout
