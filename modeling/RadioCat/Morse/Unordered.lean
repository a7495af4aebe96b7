import Mathlib.Algebra.BigOperators.Fin
import Mathlib.Logic.Equiv.Fin.Basic
import RadioCat.Assign.Padded
import RadioCat.Morse.Hungarian
import RadioCat.Morse.Score

/-!
This module contains the order-free scoring of a pileup: every expected item is matched with one
copied word at most, and what is left of the words is extra.
-/

namespace Morse

open Arith Assign
open Cw (Text)

structure UnorderedAlignment where
  items : List Alignment
  matched : List (Option Nat)
  copiedWords : List Text
  extras : List Alignment
  deriving DecidableEq, Repr

def Score.add (s other : Score) : Score where
  expected := s.expected + other.expected
  matched := s.matched + other.matched
  substitutions := s.substitutions + other.substitutions
  deletions := s.deletions + other.deletions
  insertions := s.insertions + other.insertions

def UnorderedAlignment.score (r : UnorderedAlignment) : Score :=
  (r.items ++ r.extras).foldl (fun total a => total.add a.score) ⟨0, 0, 0, 0, 0⟩

def unorderedOptimalMax : Nat := 128

section greedy

variable {n m : Nat}

/-- The places of the items among the rows, and of the words among the columns. -/
def row (i : Fin n) : Fin (n + m) := i.castAdd m

def column (j : Fin m) : Fin (n + m) := j.castLE (Nat.le_add_left m n)

/-- The first row and the first column after those. -/
def spareRow (j : Fin m) : Fin (n + m) := ⟨n, Nat.lt_add_of_pos_right j.pos⟩

def spareColumn (i : Fin n) : Fin (n + m) := ⟨m, Nat.lt_add_of_pos_left i.pos⟩

/-- `usize::MAX`, for a row that has no column yet, is `none`. -/
structure Greedy (n m : Nat) where
  rowOf : Fin n → Option (Fin m)
  used : Fin m → Bool

def Greedy.take (s : Greedy n m) (pair : Int × Fin n × Fin m) : Greedy n m :=
  if s.rowOf pair.2.1 = none ∧ s.used pair.2.2 = false then
    { rowOf := Function.update s.rowOf pair.2.1 (some pair.2.2)
      used := Function.update s.used pair.2.2 true }
  else
    s

/-- The order of the pairs: by cost, then by item, then by word. -/
def pairLe (p q : Int × Fin n × Fin m) : Bool :=
  p.1 < q.1 || p.1 = q.1 && (p.2.1 < q.2.1 || p.2.1 = q.2.1 && p.2.2 ≤ q.2.2)

variable (cost : Fin (n + m) → Fin (n + m) → Int)

/-- A pair that costs less than leaving both unmatched. -/
def realPair (i : Fin n) (j : Fin m) : Option (Int × Fin n × Fin m) :=
  let c := cost (row i) (column j)
  if c < cost (row i) (spareColumn i) + cost (spareRow j) (column j) then some (c, i, j) else none

def greedyPairs : List (Int × Fin n × Fin m) :=
  (List.finRange n).flatMap fun i => (List.finRange m).filterMap (realPair cost i)

def greedyRows : Greedy n m :=
  ((greedyPairs cost).mergeSort pairLe).foldl Greedy.take ⟨fun _ => none, fun _ => false⟩

def greedyAssign (i : Fin n) : Nat :=
  match (greedyRows cost).rowOf i with
  | some j => j
  | none => m + i

end greedy

/-- A cell of the matrix for an item and a word, with the alignment if it may be used. -/
structure Pair where
  cost : Int
  align : Option Alignment
  deriving DecidableEq, Repr

section align

variable (opts : ScoreOptions) (exp words : List (List Token))

def pairUp (e w : List Token) : Option Pair := do
  let a ← alignUnits e w opts
  return if 2 * a.score.errors ≤ e.length then
    ⟨a.score.errors, some a⟩
  else
    ⟨e.length + w.length, none⟩

def pairAlign : Option (List (List Pair)) :=
  exp.mapM fun e => words.mapM (pairUp opts e)

def pairAt (pairs : List (List Pair)) (i j : Nat) : Option Pair :=
  pairs[i]?.bind (·[j]?)

def costMatrix (pairs : List (List Pair)) (i j : Fin (exp.length + words.length)) : Int :=
  match exp[i.val]?, words[j.val]? with
  | some _, some _ => ((pairAt pairs i j).map Pair.cost).getD 0
  | some e, none => e.length
  | none, some w => w.length
  | none, none => 0

def assignment (pairs : List (List Pair)) : Option (Fin exp.length → Nat) :=
  if exp.length + words.length ≤ unorderedOptimalMax then
    (hungarian (costMatrix exp words pairs)).map fun assign i => assign (row i)
  else
    some (greedyAssign (costMatrix exp words pairs))

def item (pairs : List (List Pair)) (assign : Fin exp.length → Nat) (i : Fin exp.length)
    : Option (Option Nat × Alignment) :=
  match (pairAt pairs i (assign i)).bind Pair.align with
  | some a => some (some (assign i), a)
  | none => (alignUnits (exp.get i) [] opts).map fun a => (none, a)

/-- The scoring of items and words that are prepared already. -/
def scoreWords : Option UnorderedAlignment := do
  let pairs ← pairAlign opts exp words
  let assign ← assignment exp words pairs
  let items ← (List.finRange exp.length).mapM (item opts exp pairs assign)
  let used := items.filterMap Prod.fst
  let extras ← ((List.finRange words.length).filter fun j => j.val ∉ used).mapM fun j =>
    alignUnits [] (words.get j) opts
  return {
    items := items.map Prod.snd
    matched := items.map Prod.fst
    copiedWords := words.map tokensToText
    extras := extras }

end align

def splitWords (units : List Token) : List (List Token) :=
  (units.splitOnP (· = .wordSpace)).filter (!·.isEmpty)

def prepareItems (expected : List Text) (opts : ScoreOptions)
    : Except CodecError (List (List Token)) :=
  expected.mapM fun e => (tokenize e).map (prepare · opts)

def prepareWords (copied : Text) (opts : ScoreOptions) : List (List Token) :=
  (splitWords (tokenizeCopy copied)).map (prepare · opts)

/-- Text that does not encode is an error. An overflow stops the program. -/
def alignUnordered (expected : List Text) (copied : Text) (opts : ScoreOptions)
    : Except CodecError (Option UnorderedAlignment) := do
  let exp ← prepareItems expected opts
  return scoreWords opts exp (prepareWords copied opts)

/-- A choice of words for some of the items. A word is chosen once at most, and only for an item of
which it gets at least half right. -/
structure Matching (exp words : List (List Token)) where
  word : Fin exp.length → Option (Fin words.length)
  oneToOne : OneToOne word
  halfRight : ∀ i j, word i = some j →
    2 * Edit.distance (exp.get i) (words.get j) ≤ (exp.get i).length

namespace Matching

variable {exp words : List (List Token)} (f : Matching exp words)

def copy (i : Fin exp.length) : List Token :=
  (f.word i).elim [] words.get

def isMatched (j : Fin words.length) : Bool :=
  ∃ i, f.word i = some j

/-- The items without a word are missed, and the words without an item are extra. -/
def errors : Nat :=
  ∑ i, Edit.distance (exp.get i) (f.copy i) +
    ∑ j, if f.isMatched j then 0 else (words.get j).length

end Matching

/-- What a scoring with the matching `f` comes to. -/
structure Scored (opts : ScoreOptions) {exp words : List (List Token)} (r : UnorderedAlignment)
    (f : Matching exp words) : Prop where
  items : r.items.map some = List.ofFn fun i => alignUnits (exp.get i) (f.copy i) opts
  matched : r.matched = List.ofFn fun i => (f.word i).map Fin.val
  extras : r.extras.map some = ((List.finRange words.length).filter fun j => !f.isMatched j).map
    fun j => alignUnits [] (words.get j) opts
  errors : r.score.errors = f.errors

section proofs

variable {opts : ScoreOptions} {exp words : List (List Token)}

/-- The items and the words are prepared, and no table for them overflows. -/
structure Ready (opts : ScoreOptions) (exp words : List (List Token)) : Prop where
  sent : ∀ e ∈ exp, prepare e opts = e
  copied : ∀ w ∈ words, prepare w opts = w
  size : ∀ e ∈ [] :: exp, ∀ w ∈ [] :: words, e.length + w.length < 2 ^ 32

def best (opts : ScoreOptions) (e w : List Token) : Alignment :=
  (alignUnits e w opts).getD ⟨[], []⟩

theorem Ready.alignUnits_eq (h : Ready opts exp words) {e w : List Token} (he : e ∈ [] :: exp)
    (hw : w ∈ [] :: words)
    : alignUnits e w opts = some (best opts e w) ∧
      (best opts e w).score.errors = Edit.distance e w := by
  have hexp : prepare e opts = e := by
    rcases List.mem_cons.mp he with rfl | he
    . rfl
    . exact h.sent e he
  have hwords : prepare w opts = w := by
    rcases List.mem_cons.mp hw with rfl | hw
    . rfl
    . exact h.copied w hw
  rcases alignUnits_aligns opts (h.size e he w hw) with ⟨a, ha, haligns⟩
  rw [hexp, hwords] at haligns
  have hbest : best opts e w = a := by
    rw [best, ha, Option.getD_some]
  rw [hbest]
  exact ⟨ha, haligns.errors⟩

def pairOf (opts : ScoreOptions) (e w : List Token) : Pair :=
  if 2 * Edit.distance e w ≤ e.length then
    ⟨Edit.distance e w, some (best opts e w)⟩
  else
    ⟨e.length + w.length, none⟩

theorem Ready.pairAlign_eq (h : Ready opts exp words)
    : pairAlign opts exp words = some (exp.map fun e => words.map (pairOf opts e)) := by
  apply mapM_eq_some
  intro e he
  apply mapM_eq_some
  intro w hw
  rcases h.alignUnits_eq (List.mem_cons_of_mem _ he) (List.mem_cons_of_mem _ hw) with ⟨ha, herrors⟩
  simp only [pairUp, ha, Option.bind_eq_bind, Option.bind_some, herrors, pairOf, Option.pure_def]

theorem pairAt_map (i j : Nat)
    : pairAt (exp.map fun e => words.map (pairOf opts e)) i j =
        exp[i]?.bind fun e => words[j]?.map (pairOf opts e) := by
  rw [pairAt, List.getElem?_map]
  cases exp[i]? <;> simp

section assign

/-- The places of the rows and of the columns, the real ones first. -/
def rows (n m : Nat) : Fin n ⊕ Fin m ≃ Fin (n + m) :=
  finSumFinEquiv

def columns (n m : Nat) : Fin m ⊕ Fin n ≃ Fin (n + m) :=
  finSumFinEquiv.trans (finCongr (Nat.add_comm m n))

def pairCost (opts : ScoreOptions) (exp words : List (List Token)) (i : Fin exp.length)
    (j : Fin words.length) : Int :=
  (pairOf opts (exp.get i) (words.get j)).cost

def unmatchedCost (l : List (List Token)) (i : Fin l.length) : Int :=
  (l.get i).length

theorem costMatrix_eq (r : Fin exp.length ⊕ Fin words.length)
    (k : Fin words.length ⊕ Fin exp.length)
    : costMatrix exp words (exp.map fun e => words.map (pairOf opts e)) (rows _ _ r)
        (columns _ _ k) =
        padded (pairCost opts exp words) (unmatchedCost exp) (unmatchedCost words) r k := by
  simp only [costMatrix, pairAt_map]
  cases r with
  | inl i =>
    cases k with
    | inl j => simp [rows, columns, padded, pairCost]
    | inr i' => simp [rows, columns, padded, unmatchedCost]
  | inr j' =>
    cases k with
    | inl j => simp [rows, columns, padded, unmatchedCost]
    | inr i => simp [rows, columns, padded]

theorem Ready.padded_le (h : Ready opts exp words) (r : Fin exp.length ⊕ Fin words.length)
    (k : Fin words.length ⊕ Fin exp.length)
    : 0 ≤ padded (pairCost opts exp words) (unmatchedCost exp) (unmatchedCost words) r k ∧
      padded (pairCost opts exp words) (unmatchedCost exp) (unmatchedCost words) r k ≤
        2 ^ 32 := by
  have hsent : ∀ i : Fin exp.length, exp.get i ∈ [] :: exp :=
    fun i => List.mem_cons_of_mem _ (List.get_mem exp i)
  have hcopied : ∀ j : Fin words.length, words.get j ∈ [] :: words :=
    fun j => List.mem_cons_of_mem _ (List.get_mem words j)
  cases r with
  | inl i =>
    cases k with
    | inl j =>
      have hsize := h.size _ (hsent i) _ (hcopied j)
      simp only [padded, pairCost, pairOf]
      split
      . dsimp only
        omega
      . dsimp only
        omega
    | inr i' =>
      have hsize := h.size _ (hsent i) [] List.mem_cons_self
      simp only [padded, unmatchedCost]
      simp only [List.length_nil] at hsize
      omega
  | inr j' =>
    cases k with
    | inl j =>
      have hsize := h.size [] List.mem_cons_self _ (hcopied j)
      simp only [padded, unmatchedCost]
      simp only [List.length_nil] at hsize
      omega
    | inr i => simp [padded]

variable {assign : Fin exp.length → Nat}

/-- The words that the rows of the items are assigned to. -/
def assigned (words : List (List Token)) (assign : Fin exp.length → Nat) (i : Fin exp.length)
    : Option (Fin words.length) :=
  if h : assign i < words.length then some ⟨assign i, h⟩ else none

def isPlausible (exp words : List (List Token)) (i : Fin exp.length) (j : Fin words.length)
    : Bool :=
  2 * Edit.distance (exp.get i) (words.get j) ≤ (exp.get i).length

def matchingOf (assign : Fin exp.length → Nat) (h : OneToOne (assigned words assign))
    : Matching exp words where
  word := fun i => (assigned words assign i).filter (isPlausible exp words i)
  oneToOne := h.filter (isPlausible exp words)
  halfRight := fun _ _ hi => of_decide_eq_true (Option.filter_eq_some_iff.mp hi).2

theorem word_matchingOf (h : OneToOne (assigned words assign)) (i : Fin exp.length)
    : (matchingOf assign h).word i =
        (assigned words assign i).filter (isPlausible exp words i) :=
  rfl

theorem Ready.item_eq (h : Ready opts exp words) (hassign : OneToOne (assigned words assign))
    (i : Fin exp.length)
    : item opts exp (exp.map fun e => words.map (pairOf opts e)) assign i =
        some (((matchingOf assign hassign).word i).map Fin.val,
          best opts (exp.get i) ((matchingOf assign hassign).copy i)) := by
  have hnil := (h.alignUnits_eq (List.mem_cons_of_mem _ (List.get_mem exp i))
    (List.mem_cons_self (l := words))).1
  have hitem : exp[i.val]? = some (exp.get i) := by
    simp
  unfold item Matching.copy
  rw [pairAt_map, hitem, Option.bind_some]
  by_cases hlt : assign i < words.length
  . have hword : words[assign i]? = some (words.get ⟨assign i, hlt⟩) := by
      simp [hlt]
    have hassigned : assigned words assign i = some ⟨assign i, hlt⟩ := dif_pos hlt
    by_cases hok : 2 * Edit.distance (exp.get i) (words.get ⟨assign i, hlt⟩) ≤ (exp.get i).length
    . have hmatch : (matchingOf assign hassign).word i = some ⟨assign i, hlt⟩ := by
        rw [word_matchingOf, hassigned, Option.filter_some, isPlausible, decide_eq_true hok,
          if_pos rfl]
      simp only [hmatch, hword, pairOf, if_pos hok, Option.map_some, Option.bind_some,
        Option.elim_some]
    . have hmatch : (matchingOf assign hassign).word i = none := by
        rw [word_matchingOf, hassigned, Option.filter_some, isPlausible, decide_eq_false hok,
          if_neg Bool.false_ne_true]
      simp only [hmatch, hword, pairOf, if_neg hok, Option.map_some, Option.bind_some, hnil,
        Option.map_none, Option.elim_none]
  . have hword : words[assign i]? = none := by
      simpa using hlt
    have hmatch : (matchingOf assign hassign).word i = none := by
      rw [word_matchingOf, assigned, dif_neg hlt, Option.filter_none]
    simp only [hmatch, hword, Option.map_none, Option.bind_none, hnil, Option.map_some,
      Option.elim_none]

end assign

section errors

theorem errors_foldl (l : List Alignment) (s : Score)
    : (l.foldl (fun total a => total.add a.score) s).errors =
        s.errors + (l.map fun a => a.score.errors).sum := by
  induction l generalizing s with
  | nil => simp
  | cons a l ih =>
    rw [List.foldl_cons, ih, List.map_cons, List.sum_cons]
    simp only [Score.errors, Score.add]
    omega

theorem sum_filter {α : Type} (l : List α) (p : α → Bool) (g : α → Nat)
    : ((l.filter p).map g).sum = (l.map fun x => if p x then g x else 0).sum := by
  induction l with
  | nil => rfl
  | cons x l ih =>
    cases hp : p x <;> simp [hp, ih]

theorem Ready.extra_eq (h : Ready opts exp words) (j : Fin words.length)
    : alignUnits [] (words.get j) opts = some (best opts [] (words.get j)) ∧
      (best opts [] (words.get j)).score.errors = (words.get j).length := by
  rcases h.alignUnits_eq List.mem_cons_self (List.mem_cons_of_mem _ (List.get_mem words j))
    with ⟨ha, herrors⟩
  exact ⟨ha, herrors.trans (Edit.distance_nil_left _)⟩

theorem Matching.copy_mem (f : Matching exp words) (i : Fin exp.length)
    : f.copy i ∈ [] :: words := by
  unfold Matching.copy
  cases f.word i with
  | none => exact List.mem_cons_self
  | some j => exact List.mem_cons_of_mem _ (List.get_mem words j)

def report (opts : ScoreOptions) (f : Matching exp words) : UnorderedAlignment where
  items := (List.finRange exp.length).map fun i => best opts (exp.get i) (f.copy i)
  matched := (List.finRange exp.length).map fun i => (f.word i).map Fin.val
  copiedWords := words.map tokensToText
  extras := ((List.finRange words.length).filter fun j => !f.isMatched j).map fun j =>
    best opts [] (words.get j)

theorem Ready.scored (h : Ready opts exp words) (f : Matching exp words)
    : Scored opts (report opts f) f := by
  have hitem : ∀ i, alignUnits (exp.get i) (f.copy i) opts =
        some (best opts (exp.get i) (f.copy i)) ∧
      (best opts (exp.get i) (f.copy i)).score.errors = Edit.distance (exp.get i) (f.copy i) :=
    fun i => h.alignUnits_eq (List.mem_cons_of_mem _ (List.get_mem exp i)) (f.copy_mem i)
  refine ⟨?_, List.ofFn_eq_map.symm, ?_, ?_⟩
  . rw [List.ofFn_eq_map, report, List.map_map]
    exact List.map_congr_left fun i _ => (hitem i).1.symm
  . rw [report, List.map_map]
    exact List.map_congr_left fun j _ => (h.extra_eq j).1.symm
  . have hitems : ((report opts f).items.map fun a => a.score.errors) =
        (List.finRange exp.length).map fun i => Edit.distance (exp.get i) (f.copy i) := by
      rw [report, List.map_map]
      exact List.map_congr_left fun i _ => (hitem i).2
    have hextras : ((report opts f).extras.map fun a => a.score.errors) =
        ((List.finRange words.length).filter fun j => !f.isMatched j).map fun j =>
          (words.get j).length := by
      rw [report, List.map_map]
      exact List.map_congr_left fun j _ => (h.extra_eq j).2
    have hunmatched : ∀ j, (if !f.isMatched j then (words.get j).length else 0) =
        if f.isMatched j then 0 else (words.get j).length := by
      intro j
      cases f.isMatched j <;> rfl
    rw [UnorderedAlignment.score, errors_foldl, List.map_append, List.sum_append, hitems, hextras,
      sum_filter, Matching.errors, Fin.sum_univ_def, Fin.sum_univ_def]
    simp only [hunmatched, Score.errors, Nat.zero_add]

theorem Ready.scoreWords_eq {assign : Fin exp.length → Nat} (h : Ready opts exp words)
    (hassignment : assignment exp words (exp.map fun e => words.map (pairOf opts e)) = some assign)
    (hassign : OneToOne (assigned words assign))
    : scoreWords opts exp words = some (report opts (matchingOf assign hassign)) := by
  generalize hf : matchingOf assign hassign = f
  have hitems : (List.finRange exp.length).mapM
      (item opts exp (exp.map fun e => words.map (pairOf opts e)) assign) =
        some ((List.finRange exp.length).map fun i =>
          ((f.word i).map Fin.val, best opts (exp.get i) (f.copy i))) := by
    apply mapM_eq_some
    intro i _
    rw [h.item_eq hassign, hf]
  have hused : ∀ j : Fin words.length,
      j.val ∈ ((List.finRange exp.length).map fun i =>
        ((f.word i).map Fin.val, best opts (exp.get i) (f.copy i))).filterMap Prod.fst ↔
      f.isMatched j = true := by
    intro j
    simp [Matching.isMatched, Fin.val_inj]
  have hextras : ((List.finRange words.length).filter fun j => !f.isMatched j).mapM
      (fun j => alignUnits [] (words.get j) opts) =
        some (((List.finRange words.length).filter fun j => !f.isMatched j).map fun j =>
          best opts [] (words.get j)) := by
    apply mapM_eq_some
    intro j _
    exact (h.extra_eq j).1
  simp only [scoreWords, h.pairAlign_eq, hassignment, hitems, Option.bind_eq_bind,
    Option.bind_some, hused]
  simp only [decide_not, Bool.decide_eq_true, hextras, Option.bind_some, List.map_map, report]
  rfl

end errors

section greedy

variable {n m : Nat}

structure Greedy.Fair (s : Greedy n m) : Prop where
  oneToOne : OneToOne s.rowOf
  used : ∀ i j, s.rowOf i = some j → s.used j = true

theorem Greedy.Fair.take {s : Greedy n m} (h : s.Fair) (pair : Int × Fin n × Fin m)
    : (s.take pair).Fair := by
  unfold Greedy.take
  split
  next hfree =>
    have hcases : ∀ i j, Function.update s.rowOf pair.2.1 (some pair.2.2) i = some j →
        i = pair.2.1 ∧ j = pair.2.2 ∨ s.rowOf i = some j ∧ j ≠ pair.2.2 := by
      intro i j hij
      by_cases hi : i = pair.2.1
      . rw [hi, Function.update_self] at hij
        exact .inl ⟨hi, (Option.some.inj hij).symm⟩
      . rw [Function.update_of_ne hi] at hij
        refine .inr ⟨hij, ?_⟩
        rintro rfl
        have hused := h.used i _ hij
        rw [hfree.2] at hused
        cases hused
    refine ⟨?_, ?_⟩
    . intro i i' j hi hi'
      rcases hcases i j hi with ⟨rfl, hj⟩ | ⟨hold, hj⟩
      . rcases hcases i' j hi' with ⟨rfl, -⟩ | ⟨-, hj'⟩
        . rfl
        . exact absurd hj hj'
      . rcases hcases i' j hi' with ⟨-, hj'⟩ | ⟨hold', -⟩
        . exact absurd hj' hj
        . exact h.oneToOne i i' j hold hold'
    . intro i j hij
      rcases hcases i j hij with ⟨-, rfl⟩ | ⟨hold, hj⟩
      . exact Function.update_self _ _ _
      . exact (Function.update_of_ne hj _ _).trans (h.used i j hold)
  next => exact h

theorem Greedy.Fair.foldl {s : Greedy n m} (h : s.Fair) (l : List (Int × Fin n × Fin m))
    : (l.foldl Greedy.take s).Fair := by
  induction l generalizing s with
  | nil => exact h
  | cons pair l ih => exact ih (h.take pair)

theorem oneToOne_greedyAssign
    (cost : Fin (exp.length + words.length) → Fin (exp.length + words.length) → Int)
    : OneToOne (assigned words (greedyAssign cost)) := by
  have hfair : (greedyRows cost).Fair := by
    apply Greedy.Fair.foldl
    exact ⟨nofun, nofun⟩
  have hsame : ∀ i, assigned words (greedyAssign cost) i = (greedyRows cost).rowOf i := by
    intro i
    cases hrow : (greedyRows cost).rowOf i with
    | none => simp [assigned, greedyAssign, hrow]
    | some j => simp [assigned, greedyAssign, hrow]
  intro i i' j hi hi'
  rw [hsame] at hi hi'
  exact hfair.oneToOne i i' j hi hi'

end greedy

section optimal

variable (opts)

theorem getLeft?_columns {n m : Nat} (k : Fin (n + m))
    : ((columns n m).symm k).getLeft? = if h : k.val < m then some ⟨k, h⟩ else none := by
  rcases (columns n m).surjective k with ⟨x, rfl⟩
  rw [Equiv.symm_apply_apply]
  cases x with
  | inl j => simp [columns]
  | inr i => simp [columns]

theorem Matching.errors_eq (f : Matching exp words)
    : (f.errors : Int) =
        matchingCost (pairCost opts exp words) (unmatchedCost exp) (unmatchedCost words)
          f.word := by
  unfold Matching.errors matchingCost
  push_cast
  congr 1
  . apply Finset.sum_congr rfl
    intro i _
    unfold Matching.copy
    cases hword : f.word i with
    | none => simp [unmatchedCost]
    | some j =>
      rw [Option.elim_some, Option.elim_some, pairCost, pairOf, if_pos (f.halfRight i j hword)]
  . apply Finset.sum_congr rfl
    intro j _
    simp [Matching.isMatched, unmatchedCost]

theorem sum_costMatrix (τ : Fin exp.length ⊕ Fin words.length ≃ Fin words.length ⊕ Fin exp.length)
    : ∑ i, costMatrix exp words (exp.map fun e => words.map (pairOf opts e)) i
        (columns _ _ (τ ((rows _ _).symm i))) =
        matchingCost (pairCost opts exp words) (unmatchedCost exp) (unmatchedCost words)
          (ofEquiv τ) := by
  rw [← sum_padded, ← Equiv.sum_comp (rows exp.length words.length)]
  apply Finset.sum_congr rfl
  intro r _
  rw [Equiv.symm_apply_apply, costMatrix_eq]

variable {opts}

theorem Ready.bounds (h : Ready opts exp words)
    (hsmall : exp.length + words.length ≤ unorderedOptimalMax)
    : Hungarian.Bounds
        (costMatrix exp words (exp.map fun e => words.map (pairOf opts e))) 0 (2 ^ 32) := by
  have hentry : ∀ i k, 0 ≤ costMatrix exp words (exp.map fun e => words.map (pairOf opts e)) i k ∧
      costMatrix exp words (exp.map fun e => words.map (pairOf opts e)) i k ≤ 2 ^ 32 := by
    intro i k
    rw [← (rows _ _).apply_symm_apply i, ← (columns _ _).apply_symm_apply k, costMatrix_eq]
    exact h.padded_le _ _
  refine ⟨fun i k => (hentry i k).1, fun i k => (hentry i k).2, by decide, by decide, ?_⟩
  have hmax : max |0| |(2 : Int) ^ 32| = 2 ^ 32 := by decide
  rw [hmax]
  rw [unorderedOptimalMax] at hsmall
  omega

theorem Ready.assignment_optimal (h : Ready opts exp words)
    (hsmall : exp.length + words.length ≤ unorderedOptimalMax)
    : ∃ assign, ∃ hassign : OneToOne (assigned words assign),
        assignment exp words (exp.map fun e => words.map (pairOf opts e)) = some assign ∧
        ∀ g : Matching exp words, (matchingOf assign hassign).errors ≤ g.errors := by
  rcases (h.bounds hsmall).solved with ⟨σ, hσ, hmin⟩
  let τ := (rows exp.length words.length).trans (σ.trans (columns _ _).symm)
  have hassigned : assigned words (fun i => (σ (row i)).val) = ofEquiv τ := by
    funext i
    exact (getLeft?_columns (σ (row i))).symm
  have hassign : OneToOne (assigned words fun i => (σ (row i)).val) := by
    rw [hassigned]
    exact oneToOne_ofEquiv τ
  refine ⟨fun i => (σ (row i)).val, hassign, ?_, ?_⟩
  . rw [assignment, if_pos hsmall, hσ]
    rfl
  . intro g
    have hword : (matchingOf _ hassign).word =
        fun i => (ofEquiv τ i).filter (isPlausible exp words i) := by
      funext i
      rw [word_matchingOf, hassigned]
    have hskip : ∀ i j, isPlausible exp words i j = false →
        pairCost opts exp words i j = unmatchedCost exp i + unmatchedCost words j := by
      intro i j hij
      rw [pairCost, pairOf, if_neg (of_decide_eq_false hij)]
      rfl
    have hcost : ((matchingOf _ hassign).errors : Int) =
        ∑ i, costMatrix exp words (exp.map fun e => words.map (pairOf opts e)) i (σ i) := by
      rw [Matching.errors_eq opts, hword, matchingCost_filter (oneToOne_ofEquiv τ) hskip,
        ← sum_costMatrix]
      apply Finset.sum_congr rfl
      intro i _
      simp [τ]
    rcases exists_ofEquiv g.oneToOne with ⟨τ', hτ'⟩
    have hle := hmin ((rows _ _).symm.trans (τ'.trans (columns _ _)))
    have hother := sum_costMatrix opts τ'
    rw [hτ', ← Matching.errors_eq opts] at hother
    rw [← hcost] at hle
    exact Int.ofNat_le.mp (hle.trans_eq hother)

theorem Ready.exists_assignment (h : Ready opts exp words)
    : ∃ assign, ∃ hassign : OneToOne (assigned words assign),
        assignment exp words (exp.map fun e => words.map (pairOf opts e)) = some assign ∧
        (exp.length + words.length ≤ unorderedOptimalMax →
          ∀ g : Matching exp words, (matchingOf assign hassign).errors ≤ g.errors) := by
  by_cases hsmall : exp.length + words.length ≤ unorderedOptimalMax
  . rcases h.assignment_optimal hsmall with ⟨assign, hassign, hassignment, hmin⟩
    exact ⟨assign, hassign, hassignment, fun _ => hmin⟩
  . exact ⟨_, oneToOne_greedyAssign _, if_neg hsmall, fun hle => absurd hle hsmall⟩

end optimal

theorem prepareItems_ok {expected : List Text} {exp : List (List Token)}
    (h : prepareItems expected opts = .ok exp)
    : exp.length = expected.length ∧ ∀ e ∈ exp, prepare e opts = e := by
  unfold prepareItems at h
  induction expected generalizing exp with
  | nil =>
    cases h
    exact ⟨rfl, nofun⟩
  | cons text expected ih =>
    rw [List.mapM_cons] at h
    cases htext : tokenize text with
    | error e =>
      rw [htext] at h
      cases h
    | ok units =>
      cases hrest : expected.mapM fun e => (tokenize e).map (prepare · opts) with
      | error e =>
        rw [htext, hrest] at h
        cases h
      | ok rest =>
        rw [htext, hrest] at h
        cases h
        rcases ih hrest with ⟨hlength, hprepared⟩
        refine ⟨by rw [List.length_cons, List.length_cons, hlength], ?_⟩
        intro e he
        rcases List.mem_cons.mp he with rfl | he
        . exact prepare_prepare units opts
        . exact hprepared e he

theorem prepareWords_prepared (copied : Text) {w : List Token} (hw : w ∈ prepareWords copied opts)
    : prepare w opts = w := by
  rcases List.mem_map.mp hw with ⟨units, -, rfl⟩
  exact prepare_prepare units opts

end proofs

/-- The scoring of a pileup gives every item an alignment, with a word of its own or with nothing,
and lists the other words as extra. Up to the limit no matching has fewer errors. -/
theorem alignUnordered_optimal (expected : List Text) (copied : Text) (opts : ScoreOptions)
    (exp : List (List Token)) (hencodes : prepareItems expected opts = .ok exp)
    (hsize : ∀ e ∈ [] :: exp, ∀ w ∈ [] :: prepareWords copied opts, e.length + w.length < 2 ^ 32)
    : ∃ r, ∃ f : Matching exp (prepareWords copied opts),
        alignUnordered expected copied opts = .ok (some r) ∧
        r.items.length = expected.length ∧ Scored opts r f ∧
        (exp.length + (prepareWords copied opts).length ≤ unorderedOptimalMax →
          ∀ g : Matching exp (prepareWords copied opts), r.score.errors ≤ g.errors) := by
  rcases prepareItems_ok hencodes with ⟨hlength, hprepared⟩
  have hready : Ready opts exp (prepareWords copied opts) :=
    ⟨hprepared, fun w hw => prepareWords_prepared copied hw, hsize⟩
  rcases hready.exists_assignment with ⟨assign, hassign, hassignment, hmin⟩
  have hscored := hready.scored (matchingOf assign hassign)
  refine ⟨report opts (matchingOf assign hassign), _, ?_, ?_, hscored, ?_⟩
  . rw [alignUnordered, hencodes]
    exact congrArg Except.ok (hready.scoreWords_eq hassignment hassign)
  . rw [report, List.length_map, List.length_finRange, hlength]
  . rw [hscored.errors]
    exact hmin

/-- One call is copied, the other is missed, and the word that is like neither is extra. -/
theorem alignUnordered_optimal_pileup
    : let opts : ScoreOptions := ⟨.score, true⟩
      let expected : List Text := ["K1A".toList, "W2X".toList]
      let copied : Text := "w2x zz".toList
      let exp : List (List Token) :=
        [[.char 'K', .char '1', .char 'A'], [.char 'W', .char '2', .char 'X']]
      (alignUnordered expected copied opts).map (fun r => r.map UnorderedAlignment.matched) =
          .ok (some [none, some 0]) ∧
        ∃ r, ∃ f : Matching exp (prepareWords copied opts),
          alignUnordered expected copied opts = .ok (some r) ∧
          r.items.length = expected.length ∧ Scored opts r f ∧
          (exp.length + (prepareWords copied opts).length ≤ unorderedOptimalMax →
            ∀ g : Matching exp (prepareWords copied opts), r.score.errors ≤ g.errors) := by
  refine ⟨by decide +kernel, ?_⟩
  exact alignUnordered_optimal _ _ _ _ (by decide +kernel) (by decide +kernel)

theorem tokenizeFrom_replicate (k offset : Nat) (o : Output) (ho : o.pendingSpace = false)
    : tokenizeFrom o offset (List.replicate k 'E') =
        .ok (o.out ++ List.replicate k (.char 'E')) := by
  induction k generalizing offset o with
  | zero => simp [tokenizeFrom]
  | succ k ih =>
    have hspace : Cw.Text.isWhitespace 'E' = false := by decide
    have htable : Char.toUpper 'E' ∈ tableChars := by decide
    rw [List.replicate_succ, tokenizeFrom, hspace, if_neg Bool.false_ne_true, if_neg (by decide),
      if_pos htable, ih _ (o.push _) rfl]
    simp [Output.push, ho, List.replicate_succ]

theorem scoreWords_of_none {opts : ScoreOptions} {x : List Token} (hlength : x.length ≤ 2 ^ 32)
    (halign : alignUnits x [] opts = none)
    : scoreWords opts [x] [] = none := by
  have hcost : ∀ i j, costMatrix [x] [] [[]] i j = x.length := by
    intro i j
    simp [costMatrix]
  have hbounds : Hungarian.Bounds (costMatrix [x] [] [[]]) 0 (2 ^ 32) := by
    have hmax : max |0| |(2 : Int) ^ 32| = 2 ^ 32 := by decide
    refine ⟨?_, ?_, by decide, by decide, ?_⟩
    . intro i j
      rw [hcost]
      omega
    . intro i j
      rw [hcost]
      omega
    . rw [hmax, List.length_singleton, List.length_nil]
      omega
  rcases hbounds.solved with ⟨σ, hσ, -⟩
  have hassignment : assignment [x] [] [[]] = some fun i => (σ (row i)).val := by
    rw [assignment, if_pos (by simp [unorderedOptimalMax]), hσ]
    rfl
  have hpairs : pairAlign opts [x] [] = some [[]] := rfl
  have hitem : (List.finRange [x].length).mapM
      (item opts [x] [[]] fun i => (σ (row i)).val) = none := by
    have hnone : item opts [x] [[]] (fun i => (σ (row i)).val) 0 = none := by
      simp [item, pairAt, halign]
    have hrange : List.finRange [x].length = [0] := rfl
    rw [hrange, List.mapM_cons, hnone]
    rfl
  rw [scoreWords, hpairs, Option.bind_eq_bind, Option.bind_some, hassignment,
    Option.bind_eq_bind, Option.bind_some, hitem]
  rfl

/-- An item of more letters than a word of 32 bits can count. -/
theorem alignUnordered_long
    : alignUnordered [List.replicate (2 ^ 32) 'E'] [] ⟨.score, true⟩ = .ok none := by
  have hlong : ∀ n, n = 2 ^ 32 →
      alignUnordered [List.replicate n 'E'] [] ⟨.score, true⟩ = .ok none := by
    intro n hn
    have htokens : tokenize (List.replicate n 'E') = .ok (List.replicate n (.char 'E')) :=
      tokenizeFrom_replicate n 0 .empty rfl
    have hlength : (prepare (List.replicate n (.char 'E')) ⟨.score, true⟩).length = n := by
      simp [prepare]
    have halign : alignUnits (prepare (List.replicate n (.char 'E')) ⟨.score, true⟩) []
        ⟨.score, true⟩ = none := by
      apply alignUnits_of_length (k := n - 1) (by omega)
      rw [prepare_prepare, hlength]
      omega
    have hitems : prepareItems [List.replicate n 'E'] ⟨.score, true⟩ =
        .ok [prepare (List.replicate n (.char 'E')) ⟨.score, true⟩] := by
      rw [prepareItems, List.mapM_cons, htokens]
      rfl
    have hwords : prepareWords [] ⟨.score, true⟩ = [] := rfl
    rw [alignUnordered, hitems, hwords]
    exact congrArg Except.ok (scoreWords_of_none (by omega) halign)
  exact hlong (2 ^ 32) rfl

end Morse
