import RadioCat.Arith.Checked

/-!
This module contains console layouts: trees of splits with panels at the leaves, the sharing of an
extent among the children of a split, and the placing of the panels in an area. All arithmetic is
the source's, on 16 and 32 bits; where it overflows, or an index is out of range, there is no
result.
-/

namespace Layout

open Arith

abbrev U16 := BitVec 16
abbrev U32 := BitVec 32

inductive PanelKind where
  | readout
  | meterRail
  | bandBar
  | modeBar
  | quickBar
  | levelsRail
  | workspace
  | spectrum
  | afScope
  | afFft
  | status
  | commandLine
  | blank
  | custom (name : String)
  deriving DecidableEq, Repr

inductive Direction where
  | rows
  | columns
  deriving DecidableEq, Repr

inductive Size where
  | fixed (n : U16)
  | min (n : U16)
  | fill (weight : U16)
  | natural
  deriving DecidableEq, Repr

mutual

inductive Node where
  | panel (kind : PanelKind)
  | split (direction : Direction) (children : List Child)

inductive Child where
  | mk (size : Size) (node : Node)

end

def Child.size : Child → Size
  | .mk size _ => size

def Child.node : Child → Node
  | .mk _ node => node

structure Area where
  x : U16
  y : U16
  width : U16
  height : U16
  deriving DecidableEq, Repr

def Area.isEmpty (area : Area) : Bool :=
  area.width == 0 || area.height == 0

structure Placement where
  kind : PanelKind
  area : Area
  deriving DecidableEq, Repr

abbrev NaturalFn := PanelKind → Direction → U16

def meterRailRows : U16 := 12

def defaultNatural : NaturalFn
  | .meterRail, .rows => meterRailRows
  | _, _ => 1

namespace Size

def want : Size → U16
  | fixed n => n
  | min n => n
  | fill _ => 0
  | natural => 0

def weight : Size → U32
  | fill w => w.setWidth 32
  | natural => 1
  | min _ => 1
  | fixed _ => 0

end Size

/-- The first pass: who asks for so much gets it or gets nothing. -/
def grant : List Size → U16 → Option (List U16 × U16)
  | [], left => some ([], left)
  | size :: sizes, left => do
    let got := if size.want ≤ left then size.want else 0
    let left ← checkedSub left got
    let (given, left) ← grant sizes left
    some (got :: given, left)

def addAt (given : List U16) (i : Nat) (n : U16) : Option (List U16) := do
  let old ← given[i]?
  let new ← checkedAdd old n
  some (given.set i new)

structure Handout where
  given : List U16
  handed : U32 := 0
  lastFlexible : Option Nat := none
  deriving DecidableEq, Repr

def handOut (remainder weight : U32) : List Size → Nat → Handout → Option Handout
  | [], _, h => some h
  | size :: sizes, i, h =>
    if size.weight = 0 then
      handOut remainder weight sizes (i + 1) h
    else do
      let product ← checkedMul remainder size.weight
      let share := product / weight
      let given ← addAt h.given i (share.setWidth 16)
      let handed ← checkedAdd h.handed share
      handOut remainder weight sizes (i + 1) { given, handed, lastFlexible := some i }

def solve (sizes : List Size) (total : U16) : Option (List U16) := do
  let (given, left) ← grant sizes total
  let weight ← checkedSum (sizes.map Size.weight)
  if 0 < weight ∧ 0 < left then
    let remainder : U32 := left.setWidth 32
    let h ← handOut remainder weight sizes 0 { given }
    match h.lastFlexible with
    | some i =>
      let rest ← checkedSub remainder h.handed
      addAt h.given i (rest.setWidth 16)
    | none => some h.given
  else
    some given

def concrete (naturalFn : NaturalFn) (direction : Direction) (child : Child) : Size :=
  match child.size, child.node with
  | .natural, .panel kind => .fixed (naturalFn kind direction)
  | .natural, .split _ _ => .fill 1
  | other, _ => other

def Area.extent (area : Area) : Direction → U16
  | .rows => area.height
  | .columns => area.width

/-- The part of an area that a child of a split gets. -/
def Area.child (area : Area) (offset span : U16) : Direction → Option Area
  | .rows => do
    let y ← checkedAdd area.y offset
    some { area with y, height := span }
  | .columns => do
    let x ← checkedAdd area.x offset
    some { area with x, width := span }

mutual

def place (naturalFn : NaturalFn) : Node → Area → Option (List Placement)
  | .panel kind, area => if area.isEmpty then some [] else some [{ kind, area }]
  | .split direction children, area =>
    if area.isEmpty then
      some []
    else do
      let spans ← solve (children.map (concrete naturalFn direction)) (area.extent direction)
      placeAll naturalFn direction area children spans 0

def placeAll (naturalFn : NaturalFn) (direction : Direction) (area : Area)
    : List Child → List U16 → U16 → Option (List Placement)
  | .mk _ node :: children, span :: spans, offset => do
    let childArea ← area.child offset span direction
    let out ← place naturalFn node childArea
    let offset ← checkedAdd offset span
    let rest ← placeAll naturalFn direction area children spans offset
    some (out ++ rest)
  | _, _, _ => some []

end

mutual

def Node.panels : Node → List PanelKind
  | .panel kind => [kind]
  | .split _ children => panelsAll children

def panelsAll : List Child → List PanelKind
  | [] => []
  | .mk _ node :: children => node.panels ++ panelsAll children

end

structure LayoutSpec where
  root : Node

def LayoutSpec.resolveWith (spec : LayoutSpec) (area : Area) (naturalFn : NaturalFn)
    : Option (List Placement) :=
  place naturalFn spec.root area

def LayoutSpec.resolve (spec : LayoutSpec) (area : Area) : Option (List Placement) :=
  spec.resolveWith area defaultNatural

end Layout
