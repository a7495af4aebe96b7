import RadioCat.Arith.Timeline

/-!
This module contains the state of a key over time: stretches of key-down and key-up, and what is
left of them when they are cut off at a moment. Durations are in nanoseconds.
-/

namespace Morse

open Arith Arith.Timeline

/-- The state of a stretch is whether the key is down. -/
abbrev Segment := Stretch Bool

structure Keying where
  segments : List Segment
  deriving DecidableEq, Repr

namespace Keying

def new : Keying := ⟨[]⟩

def isEmpty (k : Keying) : Bool :=
  k.segments.isEmpty

def total (k : Keying) : Nat :=
  Timeline.total k.segments

def push (k : Keying) (keyDown : Bool) (duration : Nat) : Keying :=
  if duration = 0 then k else ⟨extend k.segments keyDown duration⟩

/-- The loop of `truncated`. -/
def cut (max : Nat) (segments : List Segment) (t : Nat) (out : Keying) : Keying :=
  match segments with
  | [] => out
  | s :: segments =>
    if t ≥ max then
      out
    else
      cut max segments (t + s.duration) (out.push s.state (min s.duration (max - t)))

/-- Another keying follows after a silence. -/
def append (k other : Keying) (gap : Nat) : Keying :=
  other.segments.foldl (fun k s => k.push s.state s.duration) (k.push false gap)

def truncated (k : Keying) (max : Nat) : Keying :=
  let out := cut max k.segments 0 new
  match out.segments.getLast? with
  | some s => if s.state then out else ⟨out.segments.dropLast⟩
  | none => out

def Down (k : Keying) (t : Nat) : Prop :=
  stateAt k.segments t = some true

theorem total_push (k : Keying) (keyDown : Bool) (duration : Nat)
    : (k.push keyDown duration).total = k.total + duration := by
  unfold push
  split
  next hzero => rw [hzero, Nat.add_zero]
  next => exact total_extend k.segments keyDown duration

theorem stateAt_push (k : Keying) (keyDown : Bool) (duration t : Nat)
    : stateAt (k.push keyDown duration).segments t =
        if t < k.total then stateAt k.segments t
        else if t < k.total + duration then some keyDown else none := by
  unfold push
  split
  next hzero =>
    split
    next => rfl
    next hlt => rw [hzero, Nat.add_zero, if_neg hlt, stateAt_of_le (Nat.not_lt.mp hlt)]
  next => exact stateAt_extend k.segments keyDown duration t

theorem proper_push {k : Keying} (h : Proper k.segments) (keyDown : Bool) (duration : Nat)
    : Proper (k.push keyDown duration).segments := by
  unfold push
  split
  next => exact h
  next hzero => exact h.extend (Nat.pos_of_ne_zero hzero)

theorem proper_cut {max t : Nat} {segments : List Segment} {out : Keying}
    (h : Proper out.segments) : Proper (cut max segments t out).segments := by
  fun_induction cut max segments t out
  case case1 => exact h
  case case2 => exact h
  case case3 ih => exact ih (proper_push h _ _)

/-- The loop copies the states of the segments up to the cut. `t` is the moment at which the
remaining segments begin. -/
theorem stateAt_cut {max t : Nat} {segments : List Segment} {out : Keying}
    (htotal : out.total = min t max) (u : Nat)
    : stateAt (cut max segments t out).segments u =
        if u < out.total then stateAt out.segments u
        else if u < max then stateAt segments (u - t) else none := by
  fun_induction cut max segments t out
  case case1 t out =>
    split
    next => rfl
    next hlt =>
      rw [stateAt_of_le (Nat.not_lt.mp hlt)]
      split <;> rfl
  case case2 t out s segments hmax =>
    split
    next => rfl
    next hlt => rw [stateAt_of_le (Nat.not_lt.mp hlt), if_neg (by omega)]
  case case3 t out s segments hmax ih =>
    have htotal' := total_push out s.state (min s.duration (max - t))
    rw [ih (by omega), stateAt_push, stateAt_cons, Nat.sub_sub]
    by_cases hout : u < t
    . rw [if_pos (by omega), if_pos (by omega), if_pos (by omega)]
    . by_cases hs : u < (out.push s.state (min s.duration (max - t))).total
      . rw [if_pos hs, if_neg (by omega), if_pos (by omega), if_neg (by omega), if_pos (by omega),
          if_pos (by omega)]
      . have hbegun : ¬ u < out.total := by omega
        rw [if_neg hs, if_neg hbegun]
        by_cases hmax' : u < max
        . rw [if_pos hmax', if_pos hmax', if_neg (by omega)]
        . rw [if_neg hmax', if_neg hmax']

theorem total_le_iff_of_down {segments : List Segment} {s : Segment} (hs : 0 < s.duration)
    (hdown : s.state = true) (m : Nat)
    : Timeline.total (segments ++ [s]) ≤ m ↔
        ∀ t, m ≤ t → stateAt (segments ++ [s]) t ≠ some true := by
  constructor
  . intro hle t ht
    rw [stateAt_of_le (by omega)]
    nofun
  . intro hup
    by_contra hlt
    rw [Timeline.total_append, Timeline.total_cons, Timeline.total_nil] at hlt
    have hlast := stateAt_last (l := segments) hs
    rw [hdown] at hlast
    exact hup _ (by omega) hlast

theorem stateAt_append_up {segments : List Segment} {s : Segment} (hup : s.state = false) (t : Nat)
    : stateAt (segments ++ [s]) t = some true ↔ stateAt segments t = some true := by
  rw [stateAt_append]
  split
  next => rfl
  next hlt =>
    rw [stateAt_of_le (Nat.not_lt.mp hlt), stateAt_cons, hup]
    split <;> simp [stateAt]

theorem total_le_iff_of_up {segments : List Segment} {s : Segment} (h : Proper (segments ++ [s]))
    (hup : s.state = false) (m : Nat)
    : Timeline.total segments ≤ m ↔ ∀ t, m ≤ t → stateAt (segments ++ [s]) t ≠ some true := by
  simp only [ne_eq, stateAt_append_up hup]
  rcases List.eq_nil_or_concat' segments with rfl | ⟨init, last, rfl⟩
  . simp [stateAt]
  . have hlast := h.positive last (by simp)
    have hne : last.state ≠ s.state := by
      have halternating := h.alternating
      rw [List.append_assoc, List.isChain_append] at halternating
      exact (List.isChain_cons_cons.mp halternating.2.1).1
    rw [hup] at hne
    exact total_le_iff_of_down hlast (by simpa using hne) m

theorem truncated_cases (k : Keying) (max : Nat)
    : (cut max k.segments 0 new).segments = [] ∧ k.truncated max = new ∨
      ∃ segments s, (cut max k.segments 0 new).segments = segments ++ [s] ∧
        (s.state = true ∧ k.truncated max = ⟨segments ++ [s]⟩ ∨
          s.state = false ∧ k.truncated max = ⟨segments⟩) := by
  rw [truncated]
  generalize cut max k.segments 0 new = out
  obtain ⟨segments⟩ := out
  rcases List.eq_nil_or_concat' segments with rfl | ⟨segments, s, rfl⟩
  . exact .inl ⟨rfl, rfl⟩
  . refine .inr ⟨segments, s, rfl, ?_⟩
    simp only [List.getLast?_concat, List.dropLast_concat]
    cases hs : s.state with
    | true => exact .inl ⟨rfl, rfl⟩
    | false => exact .inr ⟨rfl, rfl⟩

theorem proper_new : Proper new.segments := by
  exact ⟨nofun, List.isChain_nil⟩

theorem stateAt_cut_new (k : Keying) (max t : Nat)
    : stateAt (cut max k.segments 0 new).segments t =
        if t < max then stateAt k.segments t else none := by
  rw [stateAt_cut (by simp [new, total]) t]
  exact if_neg (Nat.not_lt_zero t)

theorem total_truncated_le_iff (k : Keying) (max m : Nat)
    : (k.truncated max).total ≤ m ↔ ∀ t, m ≤ t → t < max → ¬ k.Down t := by
  have hproper : Proper (cut max k.segments 0 new).segments := proper_cut proper_new
  have hdown : (∀ t, m ≤ t → t < max → ¬ k.Down t) ↔
      ∀ t, m ≤ t → stateAt (cut max k.segments 0 new).segments t ≠ some true := by
    apply forall_congr'
    intro t
    rw [stateAt_cut_new]
    split
    next hlt => simp [hlt, Down]
    next hlt => simp [hlt]
  rw [hdown]
  rcases truncated_cases k max with
    ⟨hcut, hnew⟩ | ⟨segments, s, hcut, ⟨hs, htrunc⟩ | ⟨hs, htrunc⟩⟩
  . rw [hcut, hnew]
    simp [total, new, stateAt]
  . rw [hcut] at hproper ⊢
    rw [htrunc]
    exact total_le_iff_of_down (hproper.positive s (by simp)) hs m
  . rw [hcut] at hproper ⊢
    rw [htrunc]
    exact total_le_iff_of_up hproper hs m

theorem total_truncated_le (k : Keying) (max : Nat) : (k.truncated max).total ≤ max := by
  rw [total_truncated_le_iff]
  intro t hle hlt
  omega

theorem stateAt_truncated (k : Keying) (max t : Nat)
    : stateAt (k.truncated max).segments t =
        if t < (k.truncated max).total then stateAt k.segments t else none := by
  split
  next hlt =>
    have hle := total_truncated_le k max
    have hstate := stateAt_cut_new k max t
    rw [if_pos (by omega)] at hstate
    rcases truncated_cases k max with
      ⟨hcut, hnew⟩ | ⟨segments, s, hcut, ⟨hs, htrunc⟩ | ⟨hs, htrunc⟩⟩
    . rw [hnew] at hlt
      exact absurd hlt (Nat.not_lt_zero t)
    . rw [htrunc, ← hstate, hcut]
    . rw [htrunc] at hlt ⊢
      rw [← hstate, hcut, stateAt_append]
      exact (if_pos hlt).symm
  next hlt => exact stateAt_of_le (Nat.not_lt.mp hlt)

theorem proper_truncated (k : Keying) (max : Nat) : Proper (k.truncated max).segments := by
  have hproper : Proper (cut max k.segments 0 new).segments := proper_cut proper_new
  rcases truncated_cases k max with
    ⟨hcut, hnew⟩ | ⟨segments, s, hcut, ⟨hs, htrunc⟩ | ⟨hs, htrunc⟩⟩
  . rw [hnew]
    exact proper_new
  . rw [htrunc, ← hcut]
    exact hproper
  . rw [hcut] at hproper
    rw [htrunc]
    exact hproper.append_left

theorem down_truncated (k : Keying) (max t : Nat)
    : (k.truncated max).Down t ↔ t < max ∧ k.Down t := by
  have hle := total_truncated_le k max
  unfold Down
  rw [stateAt_truncated]
  constructor
  . intro h
    split at h
    next hlt => exact ⟨by omega, h⟩
    next => cases h
  . rintro ⟨hmax, hdown⟩
    rw [if_pos ?_]
    . exact hdown
    . by_contra hlt
      exact (total_truncated_le_iff k max _).mp (Nat.not_lt.mp hlt) t le_rfl hmax hdown

theorem truncated_truncated (k : Keying) (a b : Nat)
    : (k.truncated a).truncated b = k.truncated (min a b) := by
  have htotal : ((k.truncated a).truncated b).total = (k.truncated (min a b)).total := by
    apply eq_of_forall_ge_iff
    intro m
    rw [total_truncated_le_iff, total_truncated_le_iff]
    apply forall_congr'
    intro t
    rw [down_truncated, Nat.lt_min]
    tauto
  have hle : ((k.truncated a).truncated b).total ≤ (k.truncated a).total := by
    rw [total_truncated_le_iff]
    intro t hle _ hdown
    unfold Down at hdown
    rw [stateAt_of_le hle] at hdown
    cases hdown
  have hsegments : ((k.truncated a).truncated b).segments = (k.truncated (min a b)).segments := by
    apply (proper_truncated _ _).ext (proper_truncated _ _)
    intro t
    rw [stateAt_truncated, stateAt_truncated, stateAt_truncated, htotal]
    split
    next hlt => exact if_pos (by omega)
    next => rfl
  exact congrArg Keying.mk hsegments

theorem state_getLast_truncated (k : Keying) (max : Nat)
    : ∀ s ∈ (k.truncated max).segments.getLast?, s.state = true := by
  have hproper : Proper (cut max k.segments 0 new).segments := proper_cut proper_new
  intro last hlast
  rcases truncated_cases k max with
    ⟨hcut, hnew⟩ | ⟨segments, s, hcut, ⟨hs, htrunc⟩ | ⟨hs, htrunc⟩⟩
  . rw [hnew] at hlast
    cases hlast
  . rw [htrunc, List.getLast?_concat] at hlast
    cases hlast
    exact hs
  . rw [htrunc] at hlast
    rw [hcut] at hproper
    have hne := (List.isChain_append.mp hproper.alternating).2.2 last hlast s rfl
    rw [hs] at hne
    simpa using hne

theorem total_append (k other : Keying) (gap : Nat)
    : (k.append other gap).total = k.total + gap + other.total := by
  rw [append, ← total_push k false gap]
  generalize k.push false gap = k
  unfold total
  induction other.segments generalizing k with
  | nil => rfl
  | cons s segments ih =>
    rw [List.foldl_cons, ih, Timeline.total_cons]
    have hpush := total_push k s.state s.duration
    unfold total at hpush
    omega

theorem proper_append {k : Keying} (h : Proper k.segments) (other : Keying) (gap : Nat)
    : Proper (k.append other gap).segments := by
  rw [append]
  have hgap := proper_push h false gap
  generalize k.push false gap = k at hgap
  induction other.segments generalizing k with
  | nil => exact hgap
  | cons s segments ih =>
    rw [List.foldl_cons]
    exact ih _ (proper_push hgap _ _)

/-- The keyings that can be made. -/
inductive Built : Keying → Prop where
  | new : Built new
  | push {k : Keying} (keyDown : Bool) (duration : Nat) : Built k → Built (k.push keyDown duration)
  | append {k other : Keying} (gap : Nat) : Built k → Built other → Built (k.append other gap)
  | truncated {k : Keying} (max : Nat) : Built k → Built (k.truncated max)

theorem Built.proper {k : Keying} (h : Built k) : Proper k.segments := by
  induction h with
  | new => exact proper_new
  | push keyDown duration _ ih => exact proper_push ih keyDown duration
  | append gap _ _ ih _ => exact proper_append ih _ gap
  | truncated max _ _ => exact proper_truncated _ max

theorem keying_algebra {k : Keying} (h : Built k) (other : Keying) (gap a b : Nat)
    : (k.segments.IsChain fun s s' => s.state ≠ s'.state) ∧
      (∀ s ∈ k.segments, s.duration ≠ 0) ∧
      (k.append other gap).total = k.total + gap + other.total ∧
      (k.truncated a).total ≤ a ∧
      (∀ t, t < (k.truncated a).total →
        stateAt (k.truncated a).segments t = stateAt k.segments t) ∧
      (∀ s ∈ (k.truncated a).segments.getLast?, s.state = true) ∧
      (k.truncated a).truncated b = k.truncated (min a b) := by
  refine ⟨h.proper.alternating, ?_, total_append k other gap, total_truncated_le k a, ?_,
    state_getLast_truncated k a, truncated_truncated k a b⟩
  . intro s hs
    exact Nat.ne_of_gt (h.proper.positive s hs)
  . intro t ht
    rw [stateAt_truncated, if_pos ht]

/-- A dit and a dah, cut off in the dah and then in the gap. -/
theorem keying_algebra_dit_dah
    : let k := ((new.push true 60).push false 60).push true 180
      Built k ∧ (k.append k 180).total = 300 + 180 + 300 ∧
        (k.truncated 200).truncated 100 = k.truncated (min 200 100) ∧
        k.truncated 100 = ⟨[⟨true, 60⟩]⟩ := by
  have hbuilt := ((Built.new.push true 60).push false 60).push true 180
  have h := keying_algebra hbuilt (((new.push true 60).push false 60).push true 180) 180 200 100
  exact ⟨hbuilt, h.2.2.1, h.2.2.2.2.2.2, by decide⟩

end Keying

end Morse
