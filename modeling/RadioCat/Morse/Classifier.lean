import Mathlib.Data.List.Chain
import RadioCat.Arith.FloatOps
import RadioCat.Morse.Table
import RadioCat.Trace.Transducer

/-!
This module contains the timing classifier of the decoder: the lengths of marks and gaps in, the
decoded text out. The numbers are of a format of which nothing is assumed.
-/

namespace Morse

open Arith Trace
open scoped Arith.FloatOps

inductive Decoded where
  | token (t : Token)
  | unknown (group : List Element)
  | wordSpace
  deriving DecidableEq, Repr

section means

variable {R : Type} [FloatOps R]

/-- The turns of the loop of `twoMeans`, which starts with the least and the greatest number. -/
def means (logs : List R) : Nat → R → R → Option (R × R)
  | 0, lo, hi => some (lo, hi)
  | n + 1, lo, hi =>
    let mid := (lo + hi) / 2.0
    let low := logs.filter fun x => x < mid
    let high := logs.filter fun x => ¬ x < mid
    if low.length = 0 ∨ high.length = 0 then
      none
    else
      means logs n (FloatOps.total low / FloatOps.ofNat low.length)
        (FloatOps.total high / FloatOps.ofNat high.length)

/-- The centres of two clusters of lengths, if they are far enough apart. -/
def twoMeans (xs : List R) (sep : R) : Option (R × R) :=
  if xs.length < 2 then
    none
  else
    let logs := xs.map FloatOps.ln
    let lo := logs.foldl min FloatOps.infinity
    let hi := logs.foldl max (-FloatOps.infinity)
    if hi - lo < FloatOps.ln sep then
      none
    else
      match means logs 10 lo hi with
      | none => none
      | some (lo, hi) =>
        if hi - lo < FloatOps.ln sep then none else some (FloatOps.exp lo, FloatOps.exp hi)

def pushHistory (h : List R) (x : R) : List R :=
  (if h.length = 24 then h.drop 1 else h) ++ [x]

/-- The mean of the logarithms, as a length. -/
def center (xs : List R) : R :=
  FloatOps.exp (FloatOps.sum (xs.map FloatOps.ln) / FloatOps.ofNat xs.length)

end means

structure Classifier (R : Type) where
  style : DecodeStyle
  dit : R
  dah : R
  marks : List R
  gaps : List R
  group : List Element
  emittedAny : Bool
  lastWasSpace : Bool
  longRejects : Nat
  skipGapHistory : Bool
  deriving DecidableEq, Repr

namespace Classifier

variable {R : Type} [FloatOps R]

def new (initialWpm : R) (style : DecodeStyle) : Classifier R where
  style := style
  dit := 1.2 / initialWpm
  dah := 3.0 * (1.2 / initialWpm)
  marks := []
  gaps := []
  group := []
  emittedAny := false
  lastWasSpace := false
  longRejects := 0
  skipGapHistory := false

def forgetTiming (c : Classifier R) (initialWpm : R) : Classifier R :=
  { c with
    dit := 1.2 / initialWpm
    dah := 3.0 * (1.2 / initialWpm)
    marks := []
    gaps := []
    longRejects := 0
    skipGapHistory := false }

def decodeGroup (c : Classifier R) : Decoded :=
  match decodeGroupWith c.group c.style with
  | some t => .token t
  | none => .unknown c.group

def flushChar (c : Classifier R) : List Decoded × Classifier R :=
  if c.group.isEmpty then
    ([], c)
  else
    ([c.decodeGroup], { c with group := [], emittedAny := true, lastWasSpace := false })

def wordSpace (c : Classifier R) : List Decoded × Classifier R :=
  if c.emittedAny && !c.lastWasSpace then
    ([.wordSpace], { c with lastWasSpace := true })
  else
    ([], c)

/-- The speed after one more mark, and the element that the mark is read as. -/
def learnMark (c : Classifier R) (len : R) : Element × Classifier R :=
  -- Believed: the speed estimate starts again from here.
  let restart : Bool := c.longRejects ≥ 2 ∧ 3.0 * c.dah < len
  let gaps := if restart then [] else c.gaps
  let marks := pushHistory (if restart then [] else c.marks) len
  let clusters := twoMeans marks 1.8
  let (dit, dah) := clusters.getD (c.dit, c.dah)
  let el := if len < FloatOps.sqrt (dit * dah) then .dit else .dah
  let (dit, dah) :=
    if marks.length ≥ 2 ∧ clusters.isNone then
      -- One kind of mark so far sets the scale.
      match el with
      | .dit => (center marks, 3.0 * center marks)
      | .dah => (center marks / 3.0, center marks)
    else
      (dit, dah)
  let dit := FloatOps.clamp dit (1.2 / 60.0) (1.2 / 5.0)
  let dah := FloatOps.clamp dah (2.0 * dit) (5.0 * dit)
  (el, { c with dit, dah, marks, gaps, longRejects := 0 })

/-- Whether the mark is an element. One that is far too long ends the word. -/
def mark (c : Classifier R) (len : R) : List Decoded × Bool × Classifier R :=
  if 3.0 * max c.dah (3.0 * c.dit) < len ∧ c.longRejects < 2 then
    let (out, c) :=
      andThen ({ c with longRejects := c.longRejects + 1 } : Classifier R).flushChar wordSpace
    (out, false, { c with skipGapHistory := true })
  else
    let (el, c) := c.learnMark len
    ([], true, { c with group := c.group ++ [el] })

def intraThreshold (c : Classifier R) : R :=
  2.0 * c.dit

def wordThreshold (c : Classifier R) (extra : Option R) : R :=
  let gaps := c.gaps ++ extra.toList
  match twoMeans gaps 1.6 with
  | some (l, w) => FloatOps.sqrt (l * w)
  | none =>
    let base := 4.5 * c.dit
    if gaps.isEmpty then base else max base (1.6 * center gaps)

def gapRunning (c : Classifier R) (elapsed : R) : List Decoded × Classifier R :=
  if c.intraThreshold < elapsed then
    andThen c.flushChar fun c =>
      if c.wordThreshold (some elapsed) < elapsed then c.wordSpace else ([], c)
  else
    ([], c)

/-- Long silences between transmissions would form a cluster of their own. -/
def keepsGap (c : Classifier R) (len : R) : Bool :=
  match twoMeans c.gaps 1.6 with
  | some (l, w) => len < 3.0 * FloatOps.sqrt (l * w)
  | none => len < 60.0 * c.dit

def learnGap (c : Classifier R) (len : R) : Classifier R :=
  { c with
    gaps := if !c.skipGapHistory && c.keepsGap len then pushHistory c.gaps len else c.gaps
    skipGapHistory := false }

def gapEnded (c : Classifier R) (len : R) : List Decoded × Classifier R :=
  if len ≤ c.intraThreshold then
    ([], c)
  else
    andThen c.flushChar fun c =>
      andThen (if c.wordThreshold (some len) < len then c.wordSpace else ([], c)) fun c =>
        ([], c.learnGap len)

end Classifier

/-- A word space, however it is put out. -/
def Decoded.isSpace : Decoded → Bool
  | .token t => t = .wordSpace
  | .unknown _ => false
  | .wordSpace => true

/-- No space comes first, and no two come in a row. -/
structure Legible (text : List Decoded) : Prop where
  head : ∀ d ∈ text.head?, d.isSpace = false
  single : text.IsChain fun d d' => ¬ (d.isSpace = true ∧ d'.isSpace = true)

namespace Classifier

variable {R : Type}

/-- The two flags say what has been put out so far. -/
structure Tracks (text : List Decoded) (c : Classifier R) : Prop where
  legible : Legible text
  any : c.emittedAny = true → text ≠ []
  last : c.lastWasSpace = false → ∀ d ∈ text.getLast?, d.isSpace = false

theorem Tracks.of_flags {text : List Decoded} {c c' : Classifier R} (h : Tracks text c)
    (hany : c'.emittedAny = c.emittedAny) (hlast : c'.lastWasSpace = c.lastWasSpace)
    : Tracks text c' := by
  refine ⟨h.legible, ?_, ?_⟩
  . rw [hany]
    exact h.any
  . rw [hlast]
    exact h.last

theorem Tracks.append_nil {text : List Decoded} {c : Classifier R} (h : Tracks text c)
    : Tracks (text ++ []) c := by
  rw [List.append_nil]
  exact h

end Classifier

theorem Legible.append {text : List Decoded} {d : Decoded} (h : Legible text)
    (hhead : text = [] → d.isSpace = false)
    (hlast : ∀ d' ∈ text.getLast?, ¬ (d'.isSpace = true ∧ d.isSpace = true))
    : Legible (text ++ [d]) := by
  constructor
  . intro first hfirst
    cases text with
    | nil =>
      cases hfirst
      exact hhead rfl
    | cons d' text =>
      exact h.head first hfirst
  . rw [List.isChain_append]
    refine ⟨h.single, List.isChain_singleton d, ?_⟩
    intro last hmem first hfirst
    cases hfirst
    exact hlast last hmem

namespace Classifier

variable {R : Type} {text : List Decoded} {c : Classifier R}

theorem isSpace_decodeGroup (c : Classifier R) : c.decodeGroup.isSpace = false := by
  unfold decodeGroup
  split
  next t ht =>
    rw [Decoded.isSpace, decide_eq_false_iff_not]
    rintro rfl
    exact decodeGroupWith_ne_wordSpace _ _ ht
  next => rfl

theorem Tracks.flushChar (h : Tracks text c) : Tracks (text ++ c.flushChar.1) c.flushChar.2 := by
  have hspace := c.isSpace_decodeGroup
  unfold Classifier.flushChar
  split
  next => exact h.append_nil
  next =>
    refine ⟨?_, ?_, ?_⟩
    . apply h.legible.append
      . exact fun _ => hspace
      . rw [hspace]
        exact fun _ _ hboth => Bool.false_ne_true hboth.2
    . simp
    . intro _ last hlast
      rw [List.getLast?_concat] at hlast
      cases hlast
      exact hspace

theorem Tracks.wordSpace (h : Tracks text c) : Tracks (text ++ c.wordSpace.1) c.wordSpace.2 := by
  unfold Classifier.wordSpace
  split
  next hflags =>
    rw [Bool.and_eq_true, Bool.not_eq_true'] at hflags
    refine ⟨?_, ?_, nofun⟩
    . apply h.legible.append
      . intro hnil
        exact absurd hnil (h.any hflags.1)
      . intro d hd hboth
        rw [h.last hflags.2 d hd] at hboth
        cases hboth.1
    . simp
  next => exact h.append_nil

theorem Tracks.ite_wordSpace (h : Tracks text c) (p : Prop) [Decidable p]
    : Tracks (text ++ (if p then c.wordSpace else ([], c)).1)
        (if p then c.wordSpace else ([], c)).2 := by
  split
  next => exact h.wordSpace
  next => exact h.append_nil

variable [FloatOps R]

theorem Tracks.mark (h : Tracks text c) (len : R)
    : Tracks (text ++ (c.mark len).1) (c.mark len).2.2 := by
  unfold Classifier.mark
  split
  next =>
    have hflushed : Tracks text { c with longRejects := c.longRejects + 1 } := h.of_flags rfl rfl
    have hspaced := andThen_invariant hflushed.flushChar Tracks.wordSpace
    exact hspaced.of_flags rfl rfl
  next =>
    exact h.append_nil.of_flags rfl rfl

theorem Tracks.gapRunning (h : Tracks text c) (elapsed : R)
    : Tracks (text ++ (c.gapRunning elapsed).1) (c.gapRunning elapsed).2 := by
  unfold Classifier.gapRunning
  split
  next => exact andThen_invariant h.flushChar fun h => h.ite_wordSpace _
  next => exact h.append_nil

theorem Tracks.gapEnded (h : Tracks text c) (len : R)
    : Tracks (text ++ (c.gapEnded len).1) (c.gapEnded len).2 := by
  unfold Classifier.gapEnded
  split
  next => exact h.append_nil
  next =>
    refine andThen_invariant h.flushChar fun h => ?_
    refine andThen_invariant (h.ite_wordSpace _) fun h => ?_
    exact h.append_nil.of_flags rfl rfl

theorem Tracks.forgetTiming (h : Tracks text c) (initialWpm : R)
    : Tracks text (c.forgetTiming initialWpm) := by
  exact h.of_flags rfl rfl

end Classifier

end Morse
