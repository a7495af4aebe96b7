import Mathlib.Data.List.DropRight
import RadioCat.Morse.World

/-!
This module contains callsigns with their base: the piece between the slashes that is the call
itself, and that a suffix such as `/P` does not change.
-/

namespace Morse

open Cw (Text)
open Cw.Text (isWhitespace toAsciiUppercase)

inductive CallsignError where
  | invalidCallsign (s : Text)
  deriving DecidableEq, Repr

def isCallChar (c : Char) : Bool :=
  c.isUpper || c.isDigit || c == '/'

def hasDigit (p : Text) : Bool :=
  p.any Char.isDigit

def pieces (s : Text) : List Text :=
  s.splitOn '/'

def candidate (p : Text) : Bool :=
  hasDigit p && !modifiers.contains p && !noEntity.contains p

/-- The candidates with their places among the pieces. -/
def candidates (s : Text) : List (Text × Nat) :=
  (pieces s).zipIdx.filter fun p => candidate p.1

/-- The last of the longest pieces. -/
def longest (ps : List (Text × Nat)) : Option (Text × Nat) :=
  ps.foldl (fun best p => if best.all (·.1.length ≤ p.1.length) then some p else best) none

section base

variable [World]

def isBarePrefix (p : Text) : Bool :=
  p.getLast?.any Char.isDigit || World.entities.any fun e => e.prefixes.contains p

def better (best : Option (Text × Nat)) (p : Text × Nat) : Option (Text × Nat) :=
  match best with
  | none => some p
  | some b =>
    if p.1.length > b.1.length then
      some p
    else if p.1.length = b.1.length ∧ isBarePrefix b.1 ∧ !isBarePrefix p.1 then
      some p
    else
      some b

/-- The base of a call, and its place among the pieces. -/
def basePart (s : Text) : Text × Nat :=
  if s.contains '/' then
    (((candidates s).foldl better none).or (longest (pieces s).zipIdx)).getD (s, 0)
  else
    (s, 0)

end base

/-- What every call is made of. -/
structure WellFormed (text : Text) : Prop where
  chars : ∀ c ∈ text, isCallChar c = true
  based : ∃ p ∈ pieces text, hasDigit p = true

structure Callsign where
  text : Text
  wellFormed : WellFormed text

theorem toNat_of_isCallChar {c : Char} (h : isCallChar c = true) : 47 ≤ c.toNat ∧ c.toNat ≤ 90 := by
  simp only [isCallChar, Bool.or_eq_true, beq_iff_eq] at h
  rcases h with (hupper | hdigit) | rfl
  . rcases of_decide_eq_true hupper with ⟨hlow, hhigh⟩
    have hlow : 65 ≤ c.toNat := UInt32.le_iff_toNat_le.mp hlow
    have hhigh : c.toNat ≤ 90 := UInt32.le_iff_toNat_le.mp hhigh
    omega
  . rcases Bool.and_eq_true_iff.mp hdigit with ⟨hlow, hhigh⟩
    have hlow : 48 ≤ c.toNat := UInt32.le_iff_toNat_le.mp (of_decide_eq_true hlow)
    have hhigh : c.toNat ≤ 57 := UInt32.le_iff_toNat_le.mp (of_decide_eq_true hhigh)
    omega
  . decide

theorem isWhitespace_of_isCallChar {c : Char} (h : isCallChar c = true)
    : isWhitespace c = false := by
  have hbounds := toNat_of_isCallChar h
  simp only [isWhitespace]
  grind

theorem toUpper_of_isCallChar {c : Char} (h : isCallChar c = true) : c.toUpper = c := by
  have hbounds := toNat_of_isCallChar h
  refine dif_neg ?_
  intro hlower
  have hlow : 97 ≤ c.toNat := UInt32.le_iff_toNat_le.mp hlower.1
  omega

theorem mem_pieces {s p : Text} (h : p ∈ pieces s) : '/' ∉ p ∧ p ⊆ s := by
  unfold pieces at h
  induction s generalizing p with
  | nil =>
    rw [List.splitOn_nil, List.mem_singleton] at h
    rw [h]
    exact ⟨List.not_mem_nil, List.nil_subset _⟩
  | cons c s ih =>
    rcases List.exists_cons_of_ne_nil (List.splitOn_ne_nil '/' s) with ⟨q, qs, hsplit⟩
    rw [hsplit] at ih
    rw [List.splitOn_cons_eq_if_modifyHead, hsplit] at h
    have hlater : ∀ {p}, p ∈ q :: qs → '/' ∉ p ∧ p ⊆ c :: s := by
      intro p hp
      exact ⟨(ih hp).1, List.subset_cons_of_subset c (ih hp).2⟩
    split at h
    next hc =>
      rcases List.mem_cons.mp h with rfl | hp
      . exact ⟨List.not_mem_nil, List.nil_subset _⟩
      . exact hlater hp
    next hc =>
      rcases List.mem_cons.mp h with rfl | hp
      . have hq := hlater (List.mem_cons_self (l := qs))
        refine ⟨?_, List.cons_subset.mpr ⟨List.mem_cons_self, hq.2⟩⟩
        intro hslash
        rcases List.mem_cons.mp hslash with rfl | hslash
        . exact hc rfl
        . exact hq.1 hslash
      . exact hlater (List.mem_cons_of_mem q hp)

theorem pieces_eq_singleton {s : Text} (h : '/' ∉ s) : pieces s = [s] := by
  exact List.splitOn_eq_singleton h

theorem pieces_append (s t : Text) : pieces (s ++ '/' :: t) = pieces s ++ pieces t := by
  exact List.splitOn_append_cons_self s t

theorem candidate_eq (p : Text) : candidate p = hasDigit p := by
  by_cases hmod : p ∈ modifiers ++ noEntity
  . have hnone : ((modifiers ++ noEntity).all fun p => candidate p == hasDigit p) = true := by
      decide
    exact beq_iff_eq.mp (List.all_eq_true.mp hnone p hmod)
  . rw [List.mem_append, not_or] at hmod
    simp [candidate, hmod.1, hmod.2]

theorem mem_of_foldl {α : Type} {f : Option α → α → Option α}
    (hf : ∀ best a, f best a = some a ∨ f best a = best) {l : List α} {best : Option α} {b : α}
    (h : l.foldl f best = some b)
    : b ∈ l ∨ best = some b := by
  induction l generalizing best with
  | nil => exact .inr h
  | cons a l ih =>
    rcases ih h with hl | hbest
    . exact .inl (List.mem_cons_of_mem a hl)
    . rcases hf best a with htake | hkeep
      . rw [htake] at hbest
        exact .inl (by rw [Option.some.inj hbest]; exact List.mem_cons_self)
      . exact .inr (hkeep.symm.trans hbest)

theorem exists_foldl {α : Type} {f : Option α → α → Option α}
    (hf : ∀ best a, (f best a).isSome = true) {l : List α} {best : Option α}
    (h : l ≠ [] ∨ best.isSome = true)
    : ∃ b, l.foldl f best = some b := by
  induction l generalizing best with
  | nil =>
    rcases h with h | h
    . exact absurd rfl h
    . exact Option.isSome_iff_exists.mp h
  | cons a l ih => exact ih (.inr (hf best a))

theorem exists_longest {ps : List (Text × Nat)} (h : ps ≠ []) : ∃ p ∈ ps, longest ps = some p := by
  have htakes : ∀ (best : Option (Text × Nat)) (p : Text × Nat),
      (if best.all (·.1.length ≤ p.1.length) then some p else best) = some p ∨
        (if best.all (·.1.length ≤ p.1.length) then some p else best) = best := by
    intro best p
    split
    next => exact .inl rfl
    next => exact .inr rfl
  have hsome : ∀ (best : Option (Text × Nat)) (p : Text × Nat),
      (if best.all (·.1.length ≤ p.1.length) then some p else best).isSome = true := by
    intro best p
    cases best with
    | none => rfl
    | some b => split <;> rfl
  have hfound : ∃ p, longest ps = some p := exists_foldl hsome (.inl h)
  rcases hfound with ⟨p, hp⟩
  rcases mem_of_foldl htakes hp with hmem | hnone
  . exact ⟨p, hmem, hp⟩
  . cases hnone

section base

variable [World]

theorem better_cases (best : Option (Text × Nat)) (p : Text × Nat)
    : better best p = some p ∨ better best p = best := by
  unfold better
  split
  next => exact .inl rfl
  next b =>
    split
    next => exact .inl rfl
    next =>
      split
      next => exact .inl rfl
      next => exact .inr rfl

theorem better_isSome (best : Option (Text × Nat)) (p : Text × Nat)
    : (better best p).isSome = true := by
  cases best with
  | none => rfl
  | some b =>
    rcases better_cases (some b) p with htake | hkeep
    . rw [htake]
      rfl
    . rw [hkeep]
      rfl

theorem foldl_better_candidates {s : Text} (h : ∃ p ∈ pieces s, hasDigit p = true)
    : (candidates s).foldl better none = some (basePart s) := by
  rcases h with ⟨p, hp, hdigit⟩
  by_cases hslash : '/' ∈ s
  . rcases List.mem_iff_getElem?.mp hp with ⟨i, hi⟩
    have hmem : (p, i) ∈ candidates s := by
      refine List.mem_filter.mpr ⟨List.mk_mem_zipIdx_iff_getElem?.mpr hi, ?_⟩
      rw [candidate_eq]
      exact hdigit
    have hbest : ∃ b, (candidates s).foldl better none = some b :=
      exists_foldl better_isSome (.inl (List.ne_nil_of_mem hmem))
    rcases hbest with ⟨b, hb⟩
    rw [basePart, if_pos (List.contains_iff_mem.mpr hslash), hb]
    rfl
  . rw [pieces_eq_singleton hslash, List.mem_singleton] at hp
    rw [hp] at hdigit
    rw [basePart, if_neg (mt List.contains_iff_mem.mp hslash), candidates,
      pieces_eq_singleton hslash]
    simp [candidate_eq, hdigit, better]

theorem basePart_mem (s : Text) : (basePart s).1 ∈ pieces s := by
  have hplace : ∀ {p : Text × Nat}, p ∈ (pieces s).zipIdx → p.1 ∈ pieces s := by
    intro p hp
    exact List.mem_of_getElem? (List.mem_zipIdx_iff_getElem?.mp hp)
  unfold basePart
  split
  next =>
    cases hbest : (candidates s).foldl better none with
    | some b =>
      rcases mem_of_foldl better_cases hbest with hb | hb
      . exact hplace (List.mem_of_mem_filter hb)
      . cases hb
    | none =>
      have hne : (pieces s).zipIdx ≠ [] := by
        rw [Ne, List.zipIdx_eq_nil_iff]
        exact List.splitOn_ne_nil '/' s
      rcases exists_longest hne with ⟨p, hp, hlongest⟩
      rw [hlongest]
      exact hplace hp
  next hslash =>
    rw [pieces_eq_singleton (mt List.contains_iff_mem.mpr hslash)]
    exact List.mem_singleton_self s

theorem basePart_append {s suffix : Text} (h : ∃ p ∈ pieces s, hasDigit p = true)
    (hsuffix : hasDigit suffix = false)
    : basePart (s ++ '/' :: suffix) = basePart s := by
  have hcandidates : candidates (s ++ '/' :: suffix) = candidates s := by
    unfold candidates
    rw [pieces_append, List.zipIdx_append, List.filter_append, List.append_right_eq_self,
      List.filter_eq_nil_iff]
    intro p hp hcandidate
    have hpiece := List.fst_mem_of_mem_zipIdx hp
    rw [candidate_eq, hasDigit, List.any_eq_true] at hcandidate
    rcases hcandidate with ⟨c, hc, hdigit⟩
    rw [hasDigit, List.any_eq_false] at hsuffix
    exact hsuffix c ((mem_pieces hpiece).2 hc) hdigit
  have hbased : ∃ p ∈ pieces (s ++ '/' :: suffix), hasDigit p = true := by
    rcases h with ⟨p, hp, hdigit⟩
    refine ⟨p, ?_, hdigit⟩
    rw [pieces_append]
    exact List.mem_append_left _ hp
  have hbase := foldl_better_candidates hbased
  rw [hcandidates, foldl_better_candidates h] at hbase
  exact (Option.some.inj hbase).symm

/-- The checks of `parse`, on the folded text. -/
structure Accepted (up : Text) : Prop where
  length : 3 ≤ up.length ∧ up.length ≤ 14
  chars : up.all isCallChar = true
  slashes : ¬ (['/'] <+: up ∨ ['/'] <:+ up ∨ ['/', '/'] <:+: up)
  digit : hasDigit (basePart up).1 = true
  letter : (basePart up).1.any Char.isUpper = true

instance (up : Text) : Decidable (Accepted up) :=
  decidable_of_iff
    ((3 ≤ up.length ∧ up.length ≤ 14) ∧ up.all isCallChar = true ∧
      ¬ (['/'] <+: up ∨ ['/'] <:+ up ∨ ['/', '/'] <:+: up) ∧
      hasDigit (basePart up).1 = true ∧ (basePart up).1.any Char.isUpper = true)
    ⟨fun ⟨h₁, h₂, h₃, h₄, h₅⟩ => ⟨h₁, h₂, h₃, h₄, h₅⟩,
      fun ⟨h₁, h₂, h₃, h₄, h₅⟩ => ⟨h₁, h₂, h₃, h₄, h₅⟩⟩

theorem Accepted.wellFormed {up : Text} (h : Accepted up) : WellFormed up := by
  exact ⟨List.all_eq_true.mp h.chars, (basePart up).1, basePart_mem up, h.digit⟩

def trim (s : Text) : Text :=
  (s.dropWhile isWhitespace).rdropWhile isWhitespace

omit [World] in
theorem trim_eq_self {s : Text} (h : ∀ c ∈ s, isCallChar c = true) : trim s = s := by
  unfold trim
  have hleft : s.dropWhile isWhitespace = s := by
    rw [List.dropWhile_eq_self_iff]
    intro hlen
    rw [isWhitespace_of_isCallChar (h _ (List.getElem_mem hlen))]
    exact Bool.false_ne_true
  rw [hleft, List.rdropWhile_eq_self_iff]
  intro hne
  rw [isWhitespace_of_isCallChar (h _ (List.getLast_mem hne))]
  exact Bool.false_ne_true

omit [World] in
theorem toAsciiUppercase_eq_self {s : Text} (h : ∀ c ∈ s, isCallChar c = true)
    : toAsciiUppercase s = s := by
  have hchars : s.map Char.toUpper = s.map id :=
    List.map_congr_left fun c hc => toUpper_of_isCallChar (h c hc)
  rw [toAsciiUppercase, hchars, List.map_id]

namespace Callsign

def parse (s : Text) : Except CallsignError Callsign :=
  if h : Accepted (toAsciiUppercase (trim s)) then
    .ok ⟨toAsciiUppercase (trim s), h.wellFormed⟩
  else
    .error (.invalidCallsign s)

def base (c : Callsign) : Text :=
  (basePart c.text).1

end Callsign

end base

namespace Callsign

def withSuffix (c : Callsign) (suffix : Text) (h : suffix.all isCallChar = true) : Callsign where
  text := c.text ++ '/' :: suffix
  wellFormed := by
    refine ⟨?_, ?_⟩
    . intro ch hch
      rcases List.mem_append.mp hch with hch | hch
      . exact c.wellFormed.chars ch hch
      . rcases List.mem_cons.mp hch with rfl | hch
        . rfl
        . exact List.all_eq_true.mp h ch hch
    . rcases c.wellFormed.based with ⟨p, hp, hdigit⟩
      rw [pieces_append]
      exact ⟨p, List.mem_append_left _ hp, hdigit⟩

variable [World]

theorem base_withSuffix (c : Callsign) {suffix : Text} (h : suffix.all isCallChar = true)
    (hsuffix : hasDigit suffix = false)
    : (c.withSuffix suffix h).base = c.base := by
  exact congrArg Prod.fst (basePart_append c.wellFormed.based hsuffix)

theorem chars_base (c : Callsign) : ∀ ch ∈ c.base, isCallChar ch = true := by
  intro ch hch
  exact c.wellFormed.chars ch ((mem_pieces (basePart_mem c.text)).2 hch)

theorem text_of_parse_base {c c' : Callsign} (h : parse c.base = .ok c') : c'.text = c.base := by
  have htrim := trim_eq_self c.chars_base
  have hupper := toAsciiUppercase_eq_self c.chars_base
  unfold parse at h
  split at h
  next =>
    cases h
    show toAsciiUppercase (trim c.base) = c.base
    rw [htrim, hupper]
  next => cases h

theorem base_of_parse_base {c c' : Callsign} (h : parse c.base = .ok c') : c'.base = c.base := by
  have htext := text_of_parse_base h
  have hslash := (mem_pieces (basePart_mem c.text)).1
  rw [base, htext, basePart, if_neg]
  exact mt List.contains_iff_mem.mp hslash

end Callsign

end Morse
