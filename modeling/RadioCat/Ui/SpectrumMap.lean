import RadioCat.Arith.Checked
import RadioCat.Arith.Float
import RadioCat.Arith.Tile

/-!
This module contains the columns of a spectrum display: which bins of a frame a column stands for,
and which of them it shows.
-/

namespace Ui

open Arith

/-- The half-open range of bins of a column, `bins` a `usize` and the others `u32`. There is none
when the arithmetic overflows. -/
def columnBins (bins column width : Nat) : Option (Nat × Nat) :=
  if bins = 0 ∨ width = 0 then
    some (0, 0)
  else do
    let below ← within 64 (column * bins)
    let next ← within 32 (column + 1)
    let above ← within 64 (next * bins)
    let lo := min (below / width) (bins - 1)
    let least ← within 64 (lo + 1)
    some (lo, min (max (above / width) least) bins)

/-- One step of `max_by`, which keeps the later of two equal elements. -/
def stronger (bins : List F32) (a b : Nat) : Option Nat := do
  let x ← bins[a]?
  let y ← bins[b]?
  match (x.partialCmp y).getD .eq with
  | .gt => some a
  | _ => some b

/-- The bin a column reports. The outer option is a panic: an overflow or an index out of range. -/
def binForColumn (bins : List F32) (column width : Nat) : Option (Option Nat) := do
  let (lo, hi) ← columnBins bins.length column width
  if lo < hi then
    let strongest ← (List.range' (lo + 1) (hi - (lo + 1))).foldlM (stronger bins) lo
    some (some strongest)
  else
    some none

/-- What the ranges of the columns of a display are to be like. -/
structure Tiles (bins width : Nat) (lo hi : Nat → Nat) : Prop where
  nonempty : ∀ c < width, lo c < hi c
  inside : ∀ c < width, hi c ≤ bins
  first : lo 0 = 0
  last : hi (width - 1) = bins
  mono : ∀ c c', c ≤ c' → c' < width → lo c ≤ lo c' ∧ hi c ≤ hi c'
  covers : ∀ b < bins, ∃ c < width, lo c ≤ b ∧ b < hi c
  disjoint : width ≤ bins → ∀ c c', c < c' → c' < width → hi c ≤ lo c'

section

variable {bins width : Nat}

theorem columnBins_eq (hbins : 0 < bins) (hbins' : bins < 2 ^ 32) (hwidth' : width < 2 ^ 32)
    {c : Nat} (hc : c < width)
    : columnBins bins c width =
        some (tile bins width c, max (tile bins width (c + 1)) (tile bins width c + 1)) := by
  have hwidth : 0 < width := by omega
  have hmul : (c + 1) * bins ≤ width * bins := Nat.mul_le_mul_right bins hc
  have hlt : width * bins < 2 ^ 64 :=
    Nat.lt_of_lt_of_le (Nat.mul_lt_mul'' hwidth' hbins') (by decide)
  have hmul' : c * bins ≤ (c + 1) * bins := Nat.mul_le_mul_right bins (Nat.le_succ c)
  have htile := tile_lt hc hbins
  have htile' : tile bins width (c + 1) ≤ bins :=
    Nat.le_trans (tile_mono hc) (Nat.le_of_eq (tile_parts hwidth))
  have hlo : min (c * bins / width) (bins - 1) = tile bins width c :=
    Nat.min_eq_left (Nat.le_sub_one_of_lt htile)
  have hhi : min (max ((c + 1) * bins / width) (tile bins width c + 1)) bins =
      max (tile bins width (c + 1)) (tile bins width c + 1) :=
    Nat.min_eq_left (Nat.max_le.mpr ⟨htile', htile⟩)
  rw [columnBins, if_neg (by omega)]
  simp only [within_of_lt (Nat.lt_of_le_of_lt (Nat.le_trans hmul' hmul) hlt),
    within_of_lt (show c + 1 < 2 ^ 32 by omega), within_of_lt (Nat.lt_of_le_of_lt hmul hlt), hlo,
    within_of_lt (show tile bins width c + 1 < 2 ^ 64 by omega), hhi, Option.bind_eq_bind,
    Option.bind_some]

theorem tiles_tile (hbins : 0 < bins) (hwidth : 0 < width)
    : Tiles bins width (tile bins width)
        (fun c => max (tile bins width (c + 1)) (tile bins width c + 1)) where
  nonempty c _ := Nat.lt_of_lt_of_le (Nat.lt_succ_self _) (Nat.le_max_right _ _)
  inside c hc := by
    have hnext : tile bins width (c + 1) ≤ tile bins width width := tile_mono hc
    rw [tile_parts hwidth] at hnext
    exact Nat.max_le.mpr ⟨hnext, tile_lt hc hbins⟩
  first := tile_zero
  last := by
    have hlt := tile_lt (Nat.sub_one_lt_of_lt hwidth) hbins
    rw [Nat.sub_add_cancel hwidth, tile_parts hwidth]
    exact Nat.max_eq_left hlt
  mono c c' hle _ := by
    have hlo : tile bins width c ≤ tile bins width c' := tile_mono hle
    have hhi : tile bins width (c + 1) ≤ tile bins width (c' + 1) :=
      tile_mono (Nat.succ_le_succ hle)
    omega
  covers b hb := by
    rcases exists_tile hb hwidth with ⟨c, hc, hlo, hhi⟩
    exact ⟨c, hc, hlo, Nat.lt_of_lt_of_le hhi (Nat.le_max_left _ _)⟩
  disjoint hle c c' hlt _ := by
    have hsucc := tile_succ hwidth hle c
    have hmono : tile bins width (c + 1) ≤ tile bins width c' := tile_mono hlt
    omega

end

section

variable {bins : List F32}

theorem partialCmp_of_ne_none {x y : F32} (h : x.partialCmp y ≠ none)
    : x.partialCmp y = some (compare x.place y.place) := by
  unfold F32.partialCmp at h ⊢
  split
  next hnan => simp [hnan] at h
  next => rfl

theorem stronger_eq (htotal : ∀ x ∈ bins, ∀ y ∈ bins, x.partialCmp y ≠ none) {a b : Nat}
    (ha : a < bins.length) (hb : b < bins.length)
    : stronger bins a b = some (if bins[b].place < bins[a].place then a else b) := by
  have hcmp := partialCmp_of_ne_none
    (htotal bins[a] (List.getElem_mem ha) bins[b] (List.getElem_mem hb))
  simp only [stronger, List.getElem?_eq_getElem ha, List.getElem?_eq_getElem hb,
    Option.bind_eq_bind, Option.bind_some, hcmp, Option.getD_some]
  split
  next hgt =>
    rw [if_pos (compare_gt_iff_gt.mp hgt)]
  next hgt =>
    rw [if_neg fun hlt => hgt (compare_gt_iff_gt.mpr hlt)]

/-- The loop of `max_by` ends at a bin that is at least as strong as all it went over. -/
theorem exists_strongest (htotal : ∀ x ∈ bins, ∀ y ∈ bins, x.partialCmp y ≠ none) {a : Nat}
    (ha : a < bins.length) (start n : Nat) (hn : start + n ≤ bins.length)
    : ∃ k, ∃ hk : k < bins.length, (List.range' start n).foldlM (stronger bins) a = some k ∧
        bins[a].place ≤ bins[k].place ∧
        ∀ i, start ≤ i → (hi : i < start + n) → bins[i].place ≤ bins[k].place := by
  induction n generalizing a start with
  | zero =>
    refine ⟨a, ha, rfl, Int.le_refl _, ?_⟩
    intro i hle hlt
    omega
  | succ n ih =>
    have hstart : start < bins.length := by omega
    rw [List.range'_succ, List.foldlM_cons, stronger_eq htotal ha hstart]
    split
    next hlt =>
      rcases ih ha (start + 1) (by omega) with ⟨k, hk, hrun, hak, hall⟩
      refine ⟨k, hk, hrun, hak, ?_⟩
      intro i hle hi
      rcases Nat.eq_or_lt_of_le hle with rfl | hlt'
      . exact Int.le_trans (Int.le_of_lt hlt) hak
      . exact hall i hlt' (by omega)
    next hlt =>
      rcases ih hstart (start + 1) (by omega) with ⟨k, hk, hrun, hak, hall⟩
      refine ⟨k, hk, hrun, Int.le_trans (Int.not_lt.mp hlt) hak, ?_⟩
      intro i hle hi
      rcases Nat.eq_or_lt_of_le hle with rfl | hlt'
      . exact hak
      . exact hall i hlt' (by omega)

theorem exists_binForColumn (htotal : ∀ x ∈ bins, ∀ y ∈ bins, x.partialCmp y ≠ none)
    {c width lo hi : Nat} (hcolumn : columnBins bins.length c width = some (lo, hi))
    (hlt : lo < hi) (hle : hi ≤ bins.length)
    : ∃ k, ∃ hk : k < bins.length, binForColumn bins c width = some (some k) ∧
        ∀ i, lo ≤ i → (hbelow : i < hi) → bins[i].place ≤ bins[k].place := by
  have hlo : lo < bins.length := by omega
  rcases exists_strongest htotal hlo (lo + 1) (hi - (lo + 1)) (by omega)
    with ⟨k, hk, hrun, hak, hall⟩
  refine ⟨k, hk, ?_, ?_⟩
  . simp only [binForColumn, hcolumn, Option.bind_eq_bind, Option.bind_some, if_pos hlt, hrun]
  . intro i hle' hi'
    rcases Nat.eq_or_lt_of_le hle' with rfl | hlt'
    . exact hak
    . exact hall i hlt' (by omega)

end

/-- The columns tile the frame, and some column shows the strongest bin. -/
theorem no_bin_hidden (bins : List F32) (width : Nat) (hbins : 1 ≤ bins.length)
    (hbins' : bins.length < 2 ^ 32) (hwidth : 1 ≤ width) (hwidth' : width < 2 ^ 32)
    : (∃ lo hi, (∀ c < width, columnBins bins.length c width = some (lo c, hi c)) ∧
        Tiles bins.length width lo hi) ∧
      ((∀ x ∈ bins, ∀ y ∈ bins, x.partialCmp y ≠ none) →
        ∀ i, (hi : i < bins.length) → (∀ x ∈ bins, x.partialCmp bins[i] ≠ some .gt) →
          ∃ c < width, ∃ k, ∃ hk : k < bins.length,
            binForColumn bins c width = some (some k) ∧
              bins[k].partialCmp bins[i] = some .eq) := by
  have hcolumn : ∀ c < width, columnBins bins.length c width = _ :=
    fun c hc => columnBins_eq hbins hbins' hwidth' hc
  have htiles := tiles_tile hbins hwidth
  refine ⟨⟨_, _, hcolumn, htiles⟩, ?_⟩
  intro htotal i hi hstrongest
  rcases htiles.covers i hi with ⟨c, hc, hlo, hhi⟩
  rcases exists_binForColumn htotal (hcolumn c hc) (htiles.nonempty c hc) (htiles.inside c hc)
    with ⟨k, hk, hbin, hall⟩
  refine ⟨c, hc, k, hk, hbin, ?_⟩
  have hge := hall i hlo hhi
  have hne := hstrongest bins[k] (List.getElem_mem hk)
  rw [partialCmp_of_ne_none (htotal bins[k] (List.getElem_mem hk) bins[i] (List.getElem_mem hi))]
    at hne ⊢
  rw [ne_eq, Option.some.injEq, compare_gt_iff_gt] at hne
  rw [Option.some.injEq, compare_eq_iff_eq]
  omega

/-- Three bins in two columns, the strongest first. -/
theorem no_bin_hidden_three
    : let bins : List F32 := [⟨0xC1A00000⟩, ⟨0xC2DC0000⟩, ⟨0xC2DC0000⟩]
      ∃ c < 2, ∃ k, ∃ hk : k < bins.length, binForColumn bins c 2 = some (some k) ∧
        bins[k].partialCmp bins[0] = some .eq := by
  intro bins
  exact (no_bin_hidden bins 2 (by decide) (by decide) (by decide) (by decide)).2 (by decide) 0
    (by decide) (by decide)

end Ui
