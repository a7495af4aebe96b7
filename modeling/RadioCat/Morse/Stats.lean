import RadioCat.Assoc.SortedMap
import RadioCat.Morse.Unordered

/-!
This module contains the statistics of how each unit has fared, which are added up over alignments
and merged.
-/

namespace Morse

open Assoc

/-- The order of the variants: characters, prosigns, the word space. -/
def Token.rank : Token → Nat
  | .char c => c.toNat
  | .prosign p => 0x110000 + Prosign.all.idxOf p
  | .wordSpace => 0x110000 + Prosign.all.length

theorem Token.rank_char_lt (c : Char) : (Token.char c).rank < 0x110000 := by
  rcases c.valid with h | h
  . exact Nat.lt_trans h (by decide)
  . exact h.2

theorem Token.rank_prosign_lt (p : Prosign)
    : (Token.prosign p).rank < 0x110000 + Prosign.all.length := by
  cases p <;> decide

theorem Token.rank_injective : Function.Injective Token.rank := by
  intro token token' h
  cases token with
  | char c =>
    have hc := rank_char_lt c
    cases token' with
    | char c' => rw [Char.toNat_inj.mp h]
    | prosign p =>
      simp only [rank] at h hc
      omega
    | wordSpace =>
      simp only [rank] at h hc
      omega
  | prosign p =>
    have hp := rank_prosign_lt p
    cases token' with
    | char c =>
      have hc := rank_char_lt c
      simp only [rank] at h hc
      omega
    | prosign p' =>
      revert h
      cases p <;> cases p' <;> decide
    | wordSpace => exact absurd h (Nat.ne_of_lt hp)
  | wordSpace =>
    cases token' with
    | char c =>
      have hc := rank_char_lt c
      simp only [rank] at h hc
      omega
    | prosign p => exact absurd h.symm (Nat.ne_of_lt (rank_prosign_lt p))
    | wordSpace => rfl

instance : LinearOrder Token :=
  LinearOrder.lift' Token.rank Token.rank_injective

structure CharTally where
  sent : Nat
  correct : Nat
  missed : Nat
  insertedNear : Nat
  confusedAs : SortedMap Token Nat
  deriving DecidableEq

namespace CharTally

def merge (t o : CharTally) : CharTally where
  sent := t.sent + o.sent
  correct := t.correct + o.correct
  missed := t.missed + o.missed
  insertedNear := t.insertedNear + o.insertedNear
  confusedAs := o.confusedAs.entries.foldl (fun m e => m.upsert e.1 0 (· + e.2)) t.confusedAs

instance : Zero CharTally := ⟨⟨0, 0, 0, 0, 0⟩⟩

instance : Add CharTally := ⟨merge⟩

theorem add_def (t o : CharTally)
    : t + o = ⟨t.sent + o.sent, t.correct + o.correct, t.missed + o.missed,
        t.insertedNear + o.insertedNear, t.confusedAs + o.confusedAs⟩ := rfl

theorem zero_def : (0 : CharTally) = ⟨0, 0, 0, 0, 0⟩ := rfl

instance : AddCommMonoid CharTally where
  nsmul := nsmulRec
  add_assoc t o o' := by
    simp only [add_def, Nat.add_assoc, add_assoc t.confusedAs]
  zero_add t := by
    simp only [add_def, zero_def, zero_add]
  add_zero t := by
    simp only [add_def, zero_def, add_zero]
  add_comm t o := by
    simp only [add_def, Nat.add_comm, add_comm t.confusedAs]

/-- How often the unit was copied as another one. -/
def confusions (t : CharTally) : Nat :=
  (t.confusedAs.entries.map Prod.snd).sum

/-- Every time the unit was sent is accounted for. -/
def Balanced (t : CharTally) : Prop :=
  t.sent = t.correct + t.missed + t.confusions

def correctHom : CharTally →+ Nat where
  toFun := correct
  map_zero' := rfl
  map_add' _ _ := rfl

def missedHom : CharTally →+ Nat where
  toFun := missed
  map_zero' := rfl
  map_add' _ _ := rfl

def confusionsHom : CharTally →+ Nat where
  toFun := confusions
  map_zero' := rfl
  map_add' t o := (SortedMap.sum (AddMonoidHom.id Nat)).map_add t.confusedAs o.confusedAs

theorem Balanced.add {t o : CharTally} (h : t.Balanced) (ho : o.Balanced) : (t + o).Balanced := by
  have hconfusions : (t + o).confusions = t.confusions + o.confusions := confusionsHom.map_add t o
  unfold Balanced at *
  change t.sent + o.sent = t.correct + o.correct + (t.missed + o.missed) + (t + o).confusions
  omega

end CharTally

abbrev CharStats := SortedMap Token CharTally

namespace CharStats

def new : CharStats := .empty

/-- Word spaces are not tracked. -/
def count (s : CharStats) (unit : Token) (f : CharTally → CharTally) : CharStats :=
  if unit ≠ .wordSpace then s.upsert unit 0 f else s

def recordOp (expected : List Token) (s : CharStats) : AlignOp → CharStats
  | .matched unit =>
    s.count unit fun t => { t with sent := t.sent + 1, correct := t.correct + 1 }
  | .deletion unit =>
    s.count unit fun t => { t with sent := t.sent + 1, missed := t.missed + 1 }
  | .substitution unit copied =>
    s.count unit fun t =>
      { t with sent := t.sent + 1, confusedAs := t.confusedAs.upsert copied 0 (· + 1) }
  | .insertion _ attributedTo =>
    match attributedTo.bind fun i => expected[i]? with
    | some unit => s.count unit fun t => { t with insertedNear := t.insertedNear + 1 }
    | none => s

def record (s : CharStats) (a : Alignment) : CharStats :=
  a.ops.foldl (recordOp a.expected) s

def recordUnordered (s : CharStats) (a : UnorderedAlignment) : CharStats :=
  (a.items ++ a.extras).foldl record s

def merge (s other : CharStats) : CharStats :=
  other.entries.foldl (fun s e => s.upsert e.1 0 (·.merge e.2)) s

def get (s : CharStats) (unit : Token) : Option CharTally :=
  s.get? unit

theorem merge_eq_add (s other : CharStats) : s.merge other = s + other := rfl

end CharStats

def AlignOp.unit (expected : List Token) : AlignOp → Option Token
  | .matched unit | .deletion unit | .substitution unit _ => some unit
  | .insertion _ attributedTo => attributedTo.bind fun i => expected[i]?

def AlignOp.tally : AlignOp → CharTally
  | .matched _ => ⟨1, 1, 0, 0, 0⟩
  | .deletion _ => ⟨1, 0, 1, 0, 0⟩
  | .substitution _ copied => ⟨1, 0, 0, 0, .single copied 1⟩
  | .insertion .. => ⟨0, 0, 0, 1, 0⟩

/-- A tally as statistics of its own. -/
def CharTally.of (unit : Token) (t : CharTally) : CharStats :=
  if unit ≠ .wordSpace then .single unit t else 0

/-- What a step adds to the statistics. -/
def AlignOp.share (expected : List Token) (op : AlignOp) : CharStats :=
  match op.unit expected with
  | some unit => op.tally.of unit
  | none => 0

def Alignment.share (a : Alignment) : CharStats :=
  (a.ops.map (AlignOp.share a.expected)).sum

namespace CharStats

theorem count_eq_add (s : CharStats) (unit : Token) (t : CharTally)
    : s.count unit (· + t) = s + t.of unit := by
  unfold count CharTally.of
  split
  next => exact s.upsert_eq_add_single unit t
  next => exact (add_zero s).symm

theorem recordOp_eq_add (expected : List Token) (s : CharStats) (op : AlignOp)
    : s.recordOp expected op = s + op.share expected := by
  cases op with
  | matched unit => exact s.count_eq_add unit (AlignOp.matched unit).tally
  | deletion unit => exact s.count_eq_add unit (AlignOp.deletion unit).tally
  | substitution unit copied =>
    exact s.count_eq_add unit (AlignOp.substitution unit copied).tally
  | insertion copied attributedTo =>
    rw [recordOp, AlignOp.share, AlignOp.unit]
    cases attributedTo.bind fun i => expected[i]? with
    | none => exact (add_zero s).symm
    | some unit => exact s.count_eq_add unit (AlignOp.insertion copied attributedTo).tally

theorem record_eq_add (s : CharStats) (a : Alignment) : s.record a = s + a.share := by
  unfold record Alignment.share
  induction a.ops generalizing s with
  | nil => exact (add_zero s).symm
  | cons op ops ih =>
    rw [List.foldl_cons, ih, recordOp_eq_add, List.map_cons, List.sum_cons, add_assoc]

theorem foldl_record_eq_add (s : CharStats) (l : List Alignment)
    : l.foldl record s = s + (l.map Alignment.share).sum := by
  induction l generalizing s with
  | nil => exact (add_zero s).symm
  | cons a l ih => rw [List.foldl_cons, ih, record_eq_add, List.map_cons, List.sum_cons, add_assoc]

end CharStats

inductive Recording where
  | aligned (a : Alignment)
  | unordered (a : UnorderedAlignment)

namespace Recording

def alignments : Recording → List Alignment
  | aligned a => [a]
  | unordered a => a.items ++ a.extras

def into (s : CharStats) : Recording → CharStats
  | aligned a => s.record a
  | unordered a => s.recordUnordered a

theorem into_eq_foldl (s : CharStats) (r : Recording)
    : r.into s = r.alignments.foldl CharStats.record s := by
  cases r <;> rfl

end Recording

def CharStats.recordAll (l : List Recording) : CharStats :=
  l.foldl Recording.into new

def alignmentsOf (l : List Recording) : List Alignment :=
  l.flatMap Recording.alignments

namespace CharStats

theorem recordAll_eq_sum (l : List Recording)
    : recordAll l = ((alignmentsOf l).map Alignment.share).sum := by
  have hfoldl : ∀ s : CharStats,
      l.foldl Recording.into s = (alignmentsOf l).foldl record s := by
    unfold alignmentsOf
    induction l with
    | nil => exact fun s => rfl
    | cons r l ih =>
      intro s
      rw [List.foldl_cons, List.flatMap_cons, List.foldl_append, ih, Recording.into_eq_foldl]
  rw [recordAll, hfoldl, foldl_record_eq_add]
  exact zero_add _

end CharStats

def AlignOp.isSpace : AlignOp → Bool
  | .matched unit | .deletion unit | .substitution unit _ => unit = .wordSpace
  | .insertion .. => false

/-- The alignment without the steps for word spaces that were sent. -/
def Alignment.withoutSpaces (a : Alignment) : Alignment :=
  { a with ops := a.ops.filter fun op => !op.isSpace }

namespace CharStats

theorem sum_of (φ : CharTally →+ Nat) (unit : Token) (t : CharTally)
    : SortedMap.sum φ (t.of unit) = if unit = .wordSpace then 0 else φ t := by
  unfold CharTally.of
  by_cases hunit : unit = .wordSpace
  . simp [hunit]
  . simp [hunit, SortedMap.sum_single]

/-- A measure of the tallies that counts one kind of step, and no insertions. -/
structure Counts (φ : CharTally →+ Nat) (p : AlignOp → Bool) : Prop where
  tally : ∀ op : AlignOp, φ op.tally = (p op).toNat
  insertion : ∀ copied attributedTo, p (.insertion copied attributedTo) = false

theorem sum_share_op {φ : CharTally →+ Nat} {p : AlignOp → Bool} (h : Counts φ p)
    (expected : List Token) (op : AlignOp)
    : SortedMap.sum φ (op.share expected) = if op.isSpace then 0 else (p op).toNat := by
  cases op with
  | matched unit =>
    rw [← h.tally, AlignOp.share, AlignOp.unit, sum_of]
    simp [AlignOp.isSpace]
  | deletion unit =>
    rw [← h.tally, AlignOp.share, AlignOp.unit, sum_of]
    simp [AlignOp.isSpace]
  | substitution unit copied =>
    rw [← h.tally, AlignOp.share, AlignOp.unit, sum_of]
    simp [AlignOp.isSpace]
  | insertion copied attributedTo =>
    have hzero := h.tally (.insertion copied attributedTo)
    rw [h.insertion] at hzero ⊢
    rw [AlignOp.share, AlignOp.unit]
    cases attributedTo.bind fun i => expected[i]? with
    | none => rfl
    | some unit =>
      rw [sum_of, hzero]
      exact ite_self 0

theorem sum_share {φ : CharTally →+ Nat} {p : AlignOp → Bool} (h : Counts φ p) (a : Alignment)
    : SortedMap.sum φ a.share = a.withoutSpaces.ops.countP p := by
  unfold Alignment.share Alignment.withoutSpaces
  induction a.ops with
  | nil => rfl
  | cons op ops ih =>
    rw [List.map_cons, List.sum_cons, map_add, ih, sum_share_op h, List.filter_cons]
    cases hspace : op.isSpace with
    | true => simp
    | false => simp [List.countP_cons, Bool.toNat, Nat.add_comm]

theorem sum_recordAll (φ : CharTally →+ Nat) {p : AlignOp → Bool} (h : Counts φ p)
    (l : List Recording)
    : SortedMap.sum φ (recordAll l) =
        ((alignmentsOf l).map fun a => a.withoutSpaces.ops.countP p).sum := by
  rw [recordAll_eq_sum, map_list_sum, List.map_map]
  congr 1
  apply List.map_congr_left
  intro a _
  exact sum_share h a

theorem balanced_share (expected : List Token) (op : AlignOp)
    : ∀ unit, ∀ t ∈ (op.share expected).get? unit, t.Balanced := by
  have htally : op.tally.Balanced := by
    cases op <;> rfl
  intro unit t ht
  unfold AlignOp.share at ht
  split at ht
  next u _ =>
    unfold CharTally.of at ht
    split at ht
    next =>
      rw [SortedMap.get?_single] at ht
      split at ht
      next =>
        cases ht
        exact htally
      next => cases ht
    next => cases ht
  next => cases ht

theorem balanced_sum {l : List CharStats} (h : ∀ s ∈ l, ∀ unit, ∀ t ∈ s.get? unit, t.Balanced)
    : ∀ unit, ∀ t ∈ l.sum.get? unit, t.Balanced := by
  induction l with
  | nil =>
    intro unit t ht
    cases ht
  | cons s l ih =>
    rw [List.forall_mem_cons] at h
    rw [List.sum_cons]
    exact SortedMap.forall_get?_add (fun _ _ => CharTally.Balanced.add) h.1 (ih h.2)

theorem balanced_recordAll (l : List Recording)
    : ∀ unit, ∀ t ∈ (recordAll l).get unit, t.Balanced := by
  rw [recordAll_eq_sum]
  apply balanced_sum
  intro s hs
  obtain ⟨a, -, rfl⟩ := List.mem_map.mp hs
  apply balanced_sum
  intro s hs
  obtain ⟨op, -, rfl⟩ := List.mem_map.mp hs
  exact balanced_share a.expected op

theorem charStats_add_up (l l' : List Recording) (s s' s'' : CharStats)
    : (∀ unit, ∀ t ∈ (recordAll l).get unit,
        t.sent = t.correct + t.missed + (t.confusedAs.entries.map Prod.snd).sum) ∧
      ((recordAll l).entries.map fun e => e.2.correct).sum =
        ((alignmentsOf l).map fun a => a.withoutSpaces.score.matched).sum ∧
      ((recordAll l).entries.map fun e => e.2.missed).sum =
        ((alignmentsOf l).map fun a => a.withoutSpaces.score.deletions).sum ∧
      ((recordAll l).entries.map fun e => (e.2.confusedAs.entries.map Prod.snd).sum).sum =
        ((alignmentsOf l).map fun a => a.withoutSpaces.score.substitutions).sum ∧
      recordAll (l ++ l') = (recordAll l).merge (recordAll l') ∧
      (s.merge s').merge s'' = s.merge (s'.merge s'') ∧
      s.merge s' = s'.merge s := by
  refine ⟨balanced_recordAll l, ?_, ?_, ?_, ?_, add_assoc s s' s'', add_comm s s'⟩
  . apply sum_recordAll CharTally.correctHom
    exact ⟨fun op => by cases op <;> rfl, fun _ _ => rfl⟩
  . apply sum_recordAll CharTally.missedHom
    exact ⟨fun op => by cases op <;> rfl, fun _ _ => rfl⟩
  . apply sum_recordAll CharTally.confusionsHom
    exact ⟨fun op => by cases op <;> rfl, fun _ _ => rfl⟩
  . rw [merge_eq_add, recordAll_eq_sum, recordAll_eq_sum, recordAll_eq_sum, alignmentsOf,
      List.flatMap_append, List.map_append, List.sum_append]
    rfl

end CharStats

end Morse
