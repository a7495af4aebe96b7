import Mathlib.Algebra.Group.Action.Defs
import Mathlib.Data.Set.Prod
import Mathlib.Order.CompletePartialOrder
import Mathlib.Order.Interval.Set.Disjoint
import RadioCat.Layout.Solve

/-!
This module contains the geometry of a resolved layout: the cells of an area, the strips that a
split cuts it into, and that the placements of a tree are disjoint, non-empty and in its order.
-/

namespace Layout

open Arith

namespace Area

def cells (area : Area) : Set (Nat × Nat) :=
  Set.Ico area.x.toNat (area.x.toNat + area.width.toNat) ×ˢ
    Set.Ico area.y.toNat (area.y.toNat + area.height.toNat)

/-- The cells from `lo` to `hi` along a split. -/
def strip (area : Area) (lo hi : Nat) : Direction → Set (Nat × Nat)
  | .rows =>
    Set.Ico area.x.toNat (area.x.toNat + area.width.toNat) ×ˢ
      Set.Ico (area.y.toNat + lo) (area.y.toNat + hi)
  | .columns =>
    Set.Ico (area.x.toNat + lo) (area.x.toNat + hi) ×ˢ
      Set.Ico area.y.toNat (area.y.toNat + area.height.toNat)

/-- No edge of the area is past what its coordinates can hold. -/
structure Fits (area : Area) : Prop where
  x : area.x.toNat + area.width.toNat ≤ 65535
  y : area.y.toNat + area.height.toNat ≤ 65535

variable {area : Area} {lo mid hi : Nat} {direction : Direction}

theorem strip_mono {lo' hi' : Nat} (hlo : lo' ≤ lo) (hhi : hi ≤ hi')
    : area.strip lo hi direction ⊆ area.strip lo' hi' direction := by
  cases direction with
  | rows =>
    exact Set.prod_mono (Set.Subset.refl _) (Set.Ico_subset_Ico (by omega) (by omega))
  | columns =>
    exact Set.prod_mono (Set.Ico_subset_Ico (by omega) (by omega)) (Set.Subset.refl _)

theorem disjoint_strip
    : Disjoint (area.strip lo mid direction) (area.strip mid hi direction) := by
  cases direction with
  | rows => exact Set.disjoint_prod.mpr (Or.inr Set.Ico_disjoint_Ico_same)
  | columns => exact Set.disjoint_prod.mpr (Or.inl Set.Ico_disjoint_Ico_same)

theorem strip_extent (area : Area) (direction : Direction)
    : area.strip 0 (area.extent direction).toNat direction = area.cells := by
  cases direction <;> rfl

/-- A child's area is a strip of its parent's, and its edges can be held where the parent's can. -/
theorem Fits.exists_child (hfits : area.Fits) {offset span : U16}
    (h : offset.toNat + span.toNat ≤ (area.extent direction).toNat)
    : ∃ child, area.child offset span direction = some child ∧ child.Fits ∧
        child.cells = area.strip offset.toNat (offset.toNat + span.toNat) direction := by
  have hx := hfits.x
  have hy := hfits.y
  cases direction with
  | rows =>
    rw [extent] at h
    have hadd : checkedAdd area.y offset = some (area.y + offset) := checkedAdd_of_lt (by omega)
    have hnew := checkedAdd_eq_some_iff.mp hadd
    refine ⟨{ area with y := area.y + offset, height := span }, by simp [child, hadd], ⟨hx, ?_⟩, ?_⟩
    . simp only
      omega
    . simp only [cells, strip, hnew, Nat.add_assoc]
  | columns =>
    rw [extent] at h
    have hadd : checkedAdd area.x offset = some (area.x + offset) := checkedAdd_of_lt (by omega)
    have hnew := checkedAdd_eq_some_iff.mp hadd
    refine ⟨{ area with x := area.x + offset, width := span }, by simp [child, hadd], ⟨?_, hy⟩, ?_⟩
    . simp only
      omega
    . simp only [cells, strip, hnew, Nat.add_assoc]

end Area

/-- Placements that are non-empty, inside a region, disjoint and in the order of some panels. -/
structure Placed (region : Set (Nat × Nat)) (panels : List PanelKind)
    (placements : List Placement) : Prop where
  nonempty : ∀ placement ∈ placements, placement.area.isEmpty = false
  inside : ∀ placement ∈ placements, placement.area.cells ⊆ region
  disjoint : placements.Pairwise fun p q => Disjoint p.area.cells q.area.cells
  order : (placements.map Placement.kind).Sublist panels

namespace Placed

variable {region region' : Set (Nat × Nat)} {panels panels' : List PanelKind}
variable {placements placements' : List Placement}

theorem nil (region : Set (Nat × Nat)) (panels : List PanelKind) : Placed region panels [] :=
  ⟨by simp, by simp, List.Pairwise.nil, List.nil_sublist panels⟩

theorem mono (h : Placed region panels placements) (hsub : region ⊆ region')
    : Placed region' panels placements :=
  ⟨h.nonempty, fun p hp => Set.Subset.trans (h.inside p hp) hsub, h.disjoint, h.order⟩

theorem append (h : Placed region panels placements) (h' : Placed region' panels' placements')
    (hdisjoint : Disjoint region region')
    : Placed (region ∪ region') (panels ++ panels') (placements ++ placements') := by
  refine ⟨?_, ?_, ?_, ?_⟩
  . intro p hp
    rcases List.mem_append.mp hp with hp | hp
    . exact h.nonempty p hp
    . exact h'.nonempty p hp
  . intro p hp
    rcases List.mem_append.mp hp with hp | hp
    . exact Set.Subset.trans (h.inside p hp) Set.subset_union_left
    . exact Set.Subset.trans (h'.inside p hp) Set.subset_union_right
  . refine List.pairwise_append.mpr ⟨h.disjoint, h'.disjoint, ?_⟩
    intro p hp q hq
    exact hdisjoint.mono (h.inside p hp) (h'.inside q hq)
  . rw [List.map_append]
    exact h.order.append h'.order

end Placed

mutual

def Node.Narrow : Node → Prop
  | .panel _ => True
  | .split _ children => children.length < 65536 ∧ NarrowAll children

def NarrowAll : List Child → Prop
  | [] => True
  | .mk _ node :: children => node.Narrow ∧ NarrowAll children

end

theorem weights_sum_lt {sizes : List Size} (h : sizes.length < 65536)
    : (weights sizes).sum < 2 ^ 32 := by
  have hle : (weights sizes).sum ≤ (weights sizes).length • 65535 := by
    apply List.sum_le_card_nsmul
    intro n hn
    obtain ⟨size, -, rfl⟩ := List.mem_map.mp hn
    have := size.weight_lt
    omega
  rw [weights, List.length_map, smul_eq_mul] at hle
  rw [weights]
  omega

mutual

theorem exists_place (naturalFn : NaturalFn) (node : Node) (area : Area) (hnarrow : node.Narrow)
    (hfits : area.Fits)
    : ∃ placements, place naturalFn node area = some placements ∧
        Placed area.cells node.panels placements := by
  cases hempty : area.isEmpty with
  | true =>
    refine ⟨[], ?_, Placed.nil area.cells node.panels⟩
    cases node <;> simp [place, hempty]
  | false =>
    match node with
    | .panel kind =>
      refine ⟨[{ kind, area }], by simp [place, hempty], ?_, ?_, List.pairwise_singleton _ _, ?_⟩
      . simp [hempty]
      . simp
      . exact List.Sublist.refl [kind]
    | .split direction children =>
      obtain ⟨hlength, hchildren⟩ := hnarrow
      obtain ⟨spans, hsolve, hsolved⟩ := exists_solve (children.map (concrete naturalFn direction))
        (area.extent direction) (weights_sum_lt (by simpa using hlength))
      have hsum : (0 : U16).toNat + sum spans ≤ (area.extent direction).toNat := by
        simpa using hsolved.sum_le
      obtain ⟨placements, hplace, hplaced⟩ :=
        exists_placeAll naturalFn direction area children spans 0 hchildren hfits hsum
      refine ⟨placements, ?_, ?_⟩
      . rw [place, hempty, if_neg Bool.false_ne_true, hsolve, Option.bind_eq_bind,
          Option.bind_some, hplace]
      . rw [Node.panels, ← area.strip_extent direction]
        exact hplaced.mono (Area.strip_mono (Nat.zero_le _) hsum)

theorem exists_placeAll (naturalFn : NaturalFn) (direction : Direction) (area : Area)
    (children : List Child) (spans : List U16) (offset : U16) (hnarrow : NarrowAll children)
    (hfits : area.Fits) (hsum : offset.toNat + sum spans ≤ (area.extent direction).toNat)
    : ∃ placements,
        placeAll naturalFn direction area children spans offset = some placements ∧
        Placed (area.strip offset.toNat (offset.toNat + sum spans) direction) (panelsAll children)
          placements := by
  match children, spans with
  | [], _ => exact ⟨[], by rw [placeAll]; simp, Placed.nil _ _⟩
  | _ :: _, [] => exact ⟨[], by rw [placeAll]; simp, Placed.nil _ _⟩
  | .mk size node :: children, span :: spans =>
    obtain ⟨hnode, hchildren⟩ := hnarrow
    rw [sum_cons] at hsum ⊢
    have hextent := (area.extent direction).isLt
    obtain ⟨child, hchild, hchildFits, hcells⟩ :=
      @Area.Fits.exists_child area direction hfits offset span (by omega)
    obtain ⟨out, hout, hplaced⟩ := exists_place naturalFn node child hnode hchildFits
    have hadd : checkedAdd offset span = some (offset + span) := checkedAdd_of_lt (by omega)
    have hnext := checkedAdd_eq_some_iff.mp hadd
    obtain ⟨rest, hrest, hplaced'⟩ := exists_placeAll naturalFn direction area children spans
      (offset + span) hchildren hfits (by omega)
    rw [hcells] at hplaced
    rw [hnext] at hplaced'
    refine ⟨out ++ rest, by simp [placeAll, hchild, hout, hadd, hrest], ?_⟩
    refine (hplaced.append hplaced' Area.disjoint_strip).mono (Set.union_subset ?_ ?_)
    . exact Area.strip_mono (Nat.le_refl _) (by omega)
    . exact Area.strip_mono (by omega) (by omega)

end

theorem weights_sum_ne_zero {sizes : List Size} (h : ∃ size ∈ sizes, size.weight ≠ 0)
    : (weights sizes).sum ≠ 0 := by
  obtain ⟨size, hmem, hw⟩ := h
  have hle : size.weight.toNat ≤ (weights sizes).sum :=
    List.le_sum_of_mem (List.mem_map_of_mem hmem)
  have hpos : size.weight.toNat ≠ 0 := fun h => hw (BitVec.eq_of_toNat_eq h)
  omega

/-- A layout of narrow splits resolves, to non-empty disjoint rectangles inside the area in tree
order, and the spans of a split fill it where some child is flexible. -/
theorem resolveWith_geometry (spec : LayoutSpec) (area : Area) (naturalFn : NaturalFn)
    (hnarrow : spec.root.Narrow) (hx : area.x.toNat + area.width.toNat ≤ 65535)
    (hy : area.y.toNat + area.height.toNat ≤ 65535)
    : (∃ placements, spec.resolveWith area naturalFn = some placements ∧
        (∀ placement ∈ placements,
          placement.area.isEmpty = false ∧ placement.area.cells ⊆ area.cells) ∧
        (placements.Pairwise fun p q => Disjoint p.area.cells q.area.cells) ∧
        (placements.map Placement.kind).Sublist spec.root.panels) ∧
      ∀ (sizes : List Size) (total : U16), sizes.length < 65536 →
        ∃ spans, solve sizes total = some spans ∧ spans.length = sizes.length ∧
          sum spans ≤ total.toNat ∧
          ((∃ size ∈ sizes, size.weight ≠ 0) → sum spans = total.toNat) := by
  constructor
  . obtain ⟨placements, hplace, hplaced⟩ :=
      exists_place naturalFn spec.root area hnarrow ⟨hx, hy⟩
    exact ⟨placements, hplace, fun p hp => ⟨hplaced.nonempty p hp, hplaced.inside p hp⟩,
      hplaced.disjoint, hplaced.order⟩
  . intro sizes total hlength
    obtain ⟨spans, hsolve, hsolved⟩ := exists_solve sizes total (weights_sum_lt hlength)
    exact ⟨spans, hsolve, hsolved.length, hsolved.sum_le,
      fun h => hsolved.sum_eq (weights_sum_ne_zero h)⟩

/-- A console at the far corner of the coordinates; the levels rail finds no room. -/
theorem resolveWith_geometry_corner
    : let spec : LayoutSpec := ⟨.split .rows [
        .mk (.fixed 1) (.panel .status),
        .mk (.fill 3) (.split .columns [
          .mk (.min 40) (.panel .workspace), .mk (.fixed 22) (.panel .levelsRail)]),
        .mk .natural (.panel .meterRail)]⟩
      let area : Area := ⟨65485, 65515, 50, 20⟩
      spec.resolve area = some [
        ⟨.status, ⟨65485, 65515, 50, 1⟩⟩,
        ⟨.workspace, ⟨65485, 65516, 50, 7⟩⟩,
        ⟨.meterRail, ⟨65485, 65523, 50, 12⟩⟩] ∧
      ∃ placements, spec.resolveWith area defaultNatural = some placements ∧
        placements.Pairwise fun p q => Disjoint p.area.cells q.area.cells := by
  intro spec area
  refine ⟨by decide, ?_⟩
  obtain ⟨⟨placements, hresolve, -, hdisjoint, -⟩, -⟩ := resolveWith_geometry spec area
    defaultNatural (by simp [spec, Node.Narrow, NarrowAll]) (by decide) (by decide)
  exact ⟨placements, hresolve, hdisjoint⟩

end Layout
