import Mathlib.Data.List.Basic

/-!
This module contains transducers, which take one input at a time and show a list of outputs for it,
and lists of outputs of which some are pieces of one stream of data.
-/

universe u v w x y z

namespace Trace

variable {σ : Type u} {α : Type v} {ε : Type w}

/-- The outputs of one part of a program stand before those of the next. -/
def andThen {τ : Type x} (r : List ε × σ) (next : σ → List ε × τ) : List ε × τ :=
  (r.1 ++ (next r.2).1, (next r.2).2)

theorem andThen_invariant {τ : Type x} {I : List ε → σ → Prop} {J : List ε → τ → Prop}
    {es : List ε} {r : List ε × σ} {next : σ → List ε × τ} (hr : I (es ++ r.1) r.2)
    (hnext : ∀ {es s}, I es s → J (es ++ (next s).1) (next s).2)
    : J (es ++ (andThen r next).1) (andThen r next).2 := by
  rw [andThen, ← List.append_assoc]
  exact hnext hr

abbrev Transducer (σ : Type u) (α : Type v) (ε : Type w) := σ → α → List ε × σ

namespace Transducer

variable (T : Transducer σ α ε)

def run (s : σ) : List α → List ε × σ
  | [] => ([], s)
  | a :: as => ((T s a).1 ++ (run (T s a).2 as).1, (run (T s a).2 as).2)

@[simp]
theorem run_nil (s : σ) : T.run s [] = ([], s) := by
  rfl

theorem run_cons (s : σ) (a : α) (as : List α)
    : T.run s (a :: as) = ((T s a).1 ++ (T.run (T s a).2 as).1, (T.run (T s a).2 as).2) := by
  rfl

theorem run_append (s : σ) (as bs : List α)
    : T.run s (as ++ bs)
      = ((T.run s as).1 ++ (T.run (T.run s as).2 bs).1, (T.run (T.run s as).2 bs).2) := by
  induction as generalizing s with
  | nil => rfl
  | cons a as ih =>
    rw [List.cons_append, run_cons, run_cons, ih]
    simp only [List.append_assoc]

/-- Every input of a run finds the machine in a state in which `Q` holds of it. -/
def Throughout (Q : σ → α → Prop) (s : σ) : List α → Prop
  | [] => True
  | a :: as => Q s a ∧ Throughout Q (T s a).2 as

section invariants

variable {T} {Q : σ → α → Prop} {I : List ε → σ → Prop} {es : List ε} {s : σ} {as : List α}

/-- The rule for runs whose inputs all satisfy `Q`. The outputs before the run are part of what the
invariant is about. -/
theorem Throughout.invariant
    (step : ∀ {es s a}, I es s → Q s a → I (es ++ (T s a).1) (T s a).2)
    (start : I es s) (h : T.Throughout Q s as)
    : I (es ++ (T.run s as).1) (T.run s as).2 := by
  induction as generalizing es s with
  | nil =>
    rw [run_nil, List.append_nil]
    exact start
  | cons a as ih =>
    rw [run_cons, ← List.append_assoc]
    exact ih (step start h.1) h.2

theorem run_invariant (step : ∀ {es s} (a : α), I es s → I (es ++ (T s a).1) (T s a).2)
    (start : I es s) (as : List α)
    : I (es ++ (T.run s as).1) (T.run s as).2 := by
  have hall : T.Throughout (fun _ _ => True) s as := by
    clear start
    induction as generalizing s with
    | nil => trivial
    | cons a as ih => exact ⟨trivial, ih⟩
  exact hall.invariant (fun hI _ => step _ hI) start

/-- The rule for a quantity that no step lowers and exactly the steps outside `Q` raise: it is the
same at the end of a run exactly when the whole run was inside `Q`. -/
theorem run_raised_iff {f : List ε → σ → Nat}
    (keeps : ∀ {es s} (a : α), I es s → I (es ++ (T s a).1) (T s a).2)
    (raised : ∀ {es s} (a : α), I es s →
      f es s ≤ f (es ++ (T s a).1) (T s a).2 ∧
        (f (es ++ (T s a).1) (T s a).2 = f es s ↔ Q s a))
    (start : I es s) (as : List α)
    : f es s ≤ f (es ++ (T.run s as).1) (T.run s as).2 ∧
      (f (es ++ (T.run s as).1) (T.run s as).2 = f es s ↔ T.Throughout Q s as) := by
  induction as generalizing es s with
  | nil => simp [Throughout]
  | cons a as ih =>
    have hstep := raised a start
    have hrun := ih (keeps a start)
    simp only [run_cons]
    rw [← List.append_assoc, Throughout, ← hstep.2, ← hrun.2]
    omega

/-- The rule for a property of the outputs that is lost for good at the first step outside `Q`. -/
theorem run_iff_throughout {P : List ε → Prop} (closed : ∀ {es fs}, P (es ++ fs) → P es)
    (keeps : ∀ {es s} (a : α), I es s → I (es ++ (T s a).1) (T s a).2)
    (step : ∀ {es s} (a : α), I es s → P es → (P (es ++ (T s a).1) ↔ Q s a))
    (start : I es s) (hes : P es) (as : List α)
    : P (es ++ (T.run s as).1) ↔ T.Throughout Q s as := by
  induction as generalizing es s with
  | nil => simpa [Throughout] using hes
  | cons a as ih =>
    have hstep := step a start hes
    simp only [run_cons]
    rw [← List.append_assoc, Throughout]
    constructor
    . intro hall
      have hfirst := closed hall
      exact ⟨hstep.mp hfirst, (ih (keeps a start) hfirst).mp hall⟩
    . rintro ⟨hQ, hrest⟩
      exact (ih (keeps a start) (hstep.mpr hQ)).mpr hrest

end invariants

theorem run_map {τ : Type x} {η : Type y} {T : Transducer σ α ε} {U : Transducer τ α η}
    {g : σ → τ} {f : ε → η} (h : ∀ s a, U (g s) a = ((T s a).1.map f, g (T s a).2))
    (s : σ) (as : List α)
    : U.run (g s) as = ((T.run s as).1.map f, g (T.run s as).2) := by
  induction as generalizing s with
  | nil => rfl
  | cons a as ih =>
    rw [run_cons, run_cons, h]
    dsimp only
    rw [ih, List.map_append]

/-- From a state at rest the inputs show `es`, and lead to a state at rest. -/
def Yields (rest : σ → Prop) (as : List α) (es : List ε) : Prop :=
  ∀ s, rest s → (T.run s as).1 = es ∧ rest (T.run s as).2

variable {T} {rest : σ → Prop} {as bs : List α} {es fs : List ε}

theorem Yields.nil : T.Yields rest [] [] := by
  intro s hs
  exact ⟨rfl, hs⟩

theorem Yields.append (ha : T.Yields rest as es) (hb : T.Yields rest bs fs)
    : T.Yields rest (as ++ bs) (es ++ fs) := by
  intro s hs
  rcases ha s hs with ⟨hes, hmid⟩
  rcases hb _ hmid with ⟨hfs, hlast⟩
  rw [run_append]
  exact ⟨congrArg₂ _ hes hfs, hlast⟩

end Transducer

/-- A part of the state that can be read and replaced. -/
structure Part (σ : Type u) (δ : Type x) where
  get : σ → δ
  set : σ → δ → σ
  get_set (s : σ) (d : δ) : get (set s d) = d
  set_set (s : σ) (d d' : δ) : set (set s d) d' = set s d'
  set_get (s : σ) : set s (get s) = s

namespace Transducer

variable {δ : Type x} {β : Type y} {γ : Type z}
variable (inner : Transducer δ α β) (part : Part σ δ) (outer : Transducer σ β γ)

/-- A transducer whose inputs are first taken apart by one that lives in a part of its state. -/
def stage : Transducer σ α γ := fun s a =>
  outer.run (part.set s (inner (part.get s) a).2) (inner (part.get s) a).1

/-- The transducer neither reads nor changes the part. -/
def Blind : Prop :=
  ∀ s d b, outer (part.set s d) b = ((outer s b).1, part.set (outer s b).2 d)

variable {part outer}

theorem Blind.run (h : Blind part outer) (s : σ) (d : δ) (bs : List β)
    : outer.run (part.set s d) bs = ((outer.run s bs).1, part.set (outer.run s bs).2 d) := by
  induction bs generalizing s with
  | nil => rfl
  | cons b bs ih =>
    rw [run_cons, run_cons, h]
    dsimp only
    rw [ih]

/-- The two transducers can run one after the other, over the whole of the inputs. -/
theorem run_stage (h : Blind part outer) (s : σ) (as : List α)
    : (stage inner part outer).run s as
      = ((outer.run s (inner.run (part.get s) as).1).1,
        part.set (outer.run s (inner.run (part.get s) as).1).2 (inner.run (part.get s) as).2) := by
  induction as generalizing s with
  | nil => simp only [run_nil, part.set_get]
  | cons a as ih =>
    rw [run_cons, run_cons, run_append, stage, h.run, ih]
    dsimp only
    rw [part.get_set, h.run, part.set_set]

end Transducer

/-- Which outputs are pieces of data, and how a piece is written as an output. -/
structure Pieces (β : Type v) (ε : Type w) where
  piece : ε → Option (List β)
  ofPiece : List β → ε
  piece_ofPiece (bs : List β) : piece (ofPiece bs) = some bs

namespace Pieces

variable {β : Type v} (P : Pieces β ε)

/-- The stream without the borders of its pieces. -/
def flat (es : List ε) : List (β ⊕ ε) :=
  es.flatMap fun e =>
    match P.piece e with
    | some bs => bs.map .inl
    | none => [.inr e]

def join (bs : List β) (es : List ε) : List ε :=
  match bs, es with
  | [], es => es
  | b :: bs, [] => [P.ofPiece (b :: bs)]
  | b :: bs, e :: es =>
    match P.piece e with
    | some bs' => P.ofPiece (b :: bs ++ bs') :: es
    | none => P.ofPiece (b :: bs) :: e :: es

/-- Adjacent pieces become one, and empty ones nothing. -/
def merge : List ε → List ε
  | [] => []
  | e :: es =>
    match P.piece e with
    | some bs => P.join bs (merge es)
    | none => e :: merge es

def build : List (β ⊕ ε) → List ε
  | [] => []
  | .inl b :: items => P.join [b] (build items)
  | .inr e :: items => e :: build items

theorem flat_append (es fs : List ε) : P.flat (es ++ fs) = P.flat es ++ P.flat fs := by
  apply List.flatMap_append

theorem flat_cons (e : ε) (es : List ε) : P.flat (e :: es) = P.flat [e] ++ P.flat es :=
  P.flat_append [e] es

theorem flat_piece (bs : List β) : P.flat [P.ofPiece bs] = bs.map .inl := by
  simp [flat, P.piece_ofPiece]

theorem join_cons (b : β) (bs : List β) (es : List ε)
    : P.join (b :: bs) es = P.join [b] (P.join bs es) := by
  cases bs with
  | nil => rfl
  | cons b' bs =>
    cases es with
    | nil => simp [join, P.piece_ofPiece]
    | cons e es =>
      cases hpiece : P.piece e with
      | none => simp [join, hpiece, P.piece_ofPiece]
      | some bs' => simp [join, hpiece, P.piece_ofPiece]

theorem build_append_piece (bs : List β) (items : List (β ⊕ ε))
    : P.build (bs.map .inl ++ items) = P.join bs (P.build items) := by
  induction bs with
  | nil => rfl
  | cons b bs ih =>
    rw [join_cons, ← ih]
    rfl

theorem merge_eq_build (es : List ε) : P.merge es = P.build (P.flat es) := by
  induction es with
  | nil => rfl
  | cons e es ih =>
    rw [flat_cons, merge, ih]
    cases hpiece : P.piece e with
    | none => simp [flat, hpiece, build]
    | some bs =>
      have hflat : P.flat [e] = bs.map .inl := by simp [flat, hpiece]
      rw [hflat, build_append_piece]

theorem merge_eq_of_flat {es fs : List ε} (h : P.flat es = P.flat fs)
    : P.merge es = P.merge fs := by
  rw [merge_eq_build, merge_eq_build, h]

end Pieces

end Trace
