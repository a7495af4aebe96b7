import Mathlib.Algebra.Ring.Nat
import RadioCat.Trace.Machine

/-!
This module contains the cached reading of the radio that rigctl clients are answered from: polls
publish what they measured, sets patch what they wrote, and a generation tells a poll that a set has
overtaken it.
-/

namespace Rigctl

open Trace

universe u v w

/-- `other` stands for the fields that no set of a rigctl client changes. -/
structure RadioState (κ : Type u) (ρ : Type v) where
  vfoAHz : Nat
  mode : κ
  split : Bool
  transmitting : Bool
  other : ρ
  deriving DecidableEq, Repr

structure Cache (κ : Type u) (ρ : Type v) where
  state : Option (RadioState κ ρ) := none
  taken : Option Nat := none
  assumed : Bool := false
  generation : Nat := 0
  deriving DecidableEq, Repr

namespace Cache

variable {κ : Type u} {ρ : Type v}

def publishState (cache : Cache κ ρ) (state : Option (RadioState κ ρ)) (takenAt generation : Nat)
    : Cache κ ρ :=
  match state with
  | none => cache
  | some state =>
    if cache.generation ≠ generation then
      cache
    else
      { cache with state := some state, taken := some takenAt, assumed := false }

def recentState (cache : Cache κ ρ) (now maxAge : Nat) : Option (RadioState κ ρ) :=
  match cache.taken with
  | some taken => if now - taken ≤ maxAge then cache.state else none
  | none => none

def measuredState (cache : Cache κ ρ) (now maxAge : Nat) : Option (RadioState κ ρ) :=
  if cache.assumed then none else cache.recentState now maxAge

def patchState (cache : Cache κ ρ) (change : RadioState κ ρ → RadioState κ ρ) : Cache κ ρ :=
  { cache with
    generation := (cache.generation + 1) % 2 ^ 64
    assumed := true
    state := cache.state.map change }

variable {cache : Cache κ ρ} {state : RadioState κ ρ} {now maxAge : Nat}

theorem state_of_recentState (h : cache.recentState now maxAge = some state)
    : cache.state = some state := by
  revert h
  fun_cases recentState cache now maxAge
  case case1 => exact id
  all_goals
    intro h
    cases h

theorem state_of_measuredState (h : cache.measuredState now maxAge = some state)
    : cache.assumed = false ∧ cache.state = some state := by
  revert h
  fun_cases measuredState cache now maxAge
  case case1 =>
    intro h
    cases h
  case case2 hassumed =>
    intro h
    exact ⟨Bool.eq_false_iff.mpr hassumed, state_of_recentState h⟩

end Cache

inductive Field where
  | vfoA
  | mode
  | split
  | transmitting
  deriving DecidableEq, Repr

inductive SetOp (μ : Type w) where
  | vfoA (hz : Nat)
  | mode (mode : μ)
  | split (on : Bool)
  | transmit
  | receive
  deriving DecidableEq, Repr

namespace SetOp

variable {μ : Type w} {κ : Type u} {ρ : Type v}

def field : SetOp μ → Field
  | vfoA _ => .vfoA
  | mode _ => .mode
  | split _ => .split
  | transmit => .transmitting
  | receive => .transmitting

def change : SetOp μ → RadioState κ ρ → RadioState κ ρ
  | vfoA hz, s => { s with vfoAHz := hz }
  -- The cache holds a `ModeId`, and nothing leads to one from the client's mode.
  | mode _, s => s
  | split on, s => { s with split := on }
  | transmit, s => { s with transmitting := true }
  | receive, s => { s with transmitting := false }

/-- A reading shows what was set, where `modeFromId` is how the client reads a mode. -/
def Shown (modeFromId : κ → Option μ) : SetOp μ → RadioState κ ρ → Prop
  | vfoA hz, s => s.vfoAHz = hz
  | mode m, s => modeFromId s.mode = some m
  | split on, s => s.split = on
  | transmit, s => s.transmitting = true
  | receive, s => s.transmitting = false

end SetOp

structure Poll where
  id : Nat
  generation : Nat
  takenAt : Option Nat := none
  deriving DecidableEq, Repr

structure Host (μ : Type w) (κ : Type u) (ρ : Type v) where
  cache : Cache κ ρ := {}
  now : Nat := 0
  nextPoll : Nat := 0
  polls : List Poll := []
  -- Sets whose write is on the wire, and sets that have still to patch what they wrote.
  writing : List (SetOp μ) := []
  written : List (SetOp μ) := []
  deriving DecidableEq, Repr

inductive Action (μ : Type w) (κ : Type u) (ρ : Type v) where
  | tick (ms : Nat)
  | beginPoll
  | ask (poll : Poll)
  | publish (poll : Poll) (state : Option (RadioState κ ρ))
  | set (op : SetOp μ)
  | wrote (op : SetOp μ) (ok : Bool)
  | patch (op : SetOp μ)
  deriving DecidableEq, Repr

inductive Event (μ : Type w) (κ : Type u) (ρ : Type v) where
  | began (poll : Nat)
  | published (poll : Nat) (state : RadioState κ ρ)
  -- The set returns `Ok`: without a write, or after its patch.
  | skipped (op : SetOp μ)
  | patched (op : SetOp μ)
  deriving DecidableEq, Repr

def freshEnoughToSkip : Nat := 600

section

variable {μ : Type w} {κ : Type u} {ρ : Type v} [DecidableEq μ]

namespace Host

def fresh (s : Host μ κ ρ) : Option (RadioState κ ρ) :=
  s.cache.measuredState s.now freshEnoughToSkip

def isRedundant (s : Host μ κ ρ) : SetOp μ → Bool
  | .vfoA hz => s.fresh.any fun state => state.vfoAHz = hz
  | _ => false

def publish (s : Host μ κ ρ) (poll : Poll) (takenAt : Nat) (state : Option (RadioState κ ρ))
    : List (Event μ κ ρ) × Host μ κ ρ :=
  let t := { s with
    cache := s.cache.publishState state takenAt poll.generation
    polls := s.polls.erase poll }
  match state with
  | some state =>
    (if s.cache.generation = poll.generation then [.published poll.id state] else [], t)
  | none => ([], t)

def machine : Machine (Host μ κ ρ) (Action μ κ ρ) (Event μ κ ρ)
  | s, .tick ms => some ([], { s with now := s.now + ms })
  | s, .beginPoll =>
    some ([.began s.nextPoll],
      { s with
        nextPoll := s.nextPoll + 1
        polls := { id := s.nextPoll, generation := s.cache.generation } :: s.polls })
  | s, .ask poll =>
    if poll ∈ s.polls ∧ poll.takenAt = none then
      some ([], { s with polls := { poll with takenAt := some s.now } :: s.polls.erase poll })
    else
      none
  | s, .publish poll state =>
    match poll.takenAt with
    | some takenAt => if poll ∈ s.polls then some (s.publish poll takenAt state) else none
    | none => none
  | s, .set op =>
    if s.isRedundant op then
      some ([.skipped op], s)
    else
      some ([], { s with writing := op :: s.writing })
  | s, .wrote op ok =>
    if op ∈ s.writing then
      some ([], { s with
        writing := s.writing.erase op
        written := if ok then op :: s.written else s.written })
    else
      none
  | s, .patch op =>
    if op ∈ s.written then
      some ([.patched op], { s with
        cache := s.cache.patchState op.change
        written := s.written.erase op })
    else
      none

end Host

end

section

variable {μ : Type w} {κ : Type u} {ρ : Type v}

abbrev Log (μ : Type w) (κ : Type u) (ρ : Type v) := List (Event μ κ ρ)

def Event.isPatch : Event μ κ ρ → Bool
  | .patched _ => true
  | _ => false

def patches (log : Log μ κ ρ) : Nat :=
  log.countP Event.isPatch

/-- The result of a poll that began after every patch so far. -/
def Measured (log : Log μ κ ρ) (state : RadioState κ ρ) : Prop :=
  ∃ newer poll mid older, log = newer ++ .published poll state :: (mid ++ .began poll :: older)
    ∧ patches newer = 0 ∧ patches mid = 0

/--
Since a set, no other one has patched its field and no poll that began after it has published.
-/
def Undisturbed (newer : Log μ κ ρ) (op : SetOp μ) : Prop :=
  (∀ op', .patched op' ∈ newer → op'.field ≠ op.field)
    ∧ ∀ poll state, .published poll state ∈ newer → .began poll ∉ newer

def SkippedMeasured : Event μ κ ρ → Log μ κ ρ → Prop
  | .skipped (.vfoA hz), log => ∃ state, Measured log state ∧ state.vfoAHz = hz
  | .skipped _, _ => False
  | _, _ => True

/-- Fewer patches than the generation can count are made while a poll is on the wire. -/
def Bounded (log : Log μ κ ρ) : Prop :=
  ∀ newer poll state mid older,
    log = newer ++ .published poll state :: (mid ++ .began poll :: older) → patches mid < 2 ^ 64

structure Coherent (modeFromId : κ → Option μ) (log : Log μ κ ρ) (s : Host μ κ ρ) : Prop where
  generation : s.cache.generation < 2 ^ 64
  polls : ∀ poll ∈ s.polls, ∃ mid older, log = mid ++ .began poll.id :: older
    ∧ poll.generation < 2 ^ 64
    ∧ s.cache.generation = (poll.generation + patches mid) % 2 ^ 64
  measured : s.cache.assumed = false → ∀ state, s.cache.state = some state → Measured log state
  shown : ∀ newer op older, log = newer ++ .patched op :: older → op.field ≠ .mode →
    Undisturbed newer op → ∀ state, s.cache.state = some state → op.Shown modeFromId state
  skipped : Each SkippedMeasured log

variable {modeFromId : κ → Option μ} {log evs : Log μ κ ρ} {s t : Host μ κ ρ}
  {state : RadioState κ ρ} {e : Event μ κ ρ}

theorem patches_cons (e : Event μ κ ρ) (log : Log μ κ ρ)
    : patches (e :: log) = patches log + if e.isPatch then 1 else 0 := by
  apply List.countP_cons

theorem Bounded.of_append (h : Bounded (evs ++ log)) : Bounded log := by
  intro newer poll state mid older heq
  apply h (evs ++ newer) poll state mid older
  rw [heq, List.append_assoc]

theorem Measured.cons (h : Measured log state) (he : e.isPatch = false)
    : Measured (e :: log) state := by
  rcases h with ⟨newer, poll, mid, older, rfl, hnewer, hmid⟩
  refine ⟨e :: newer, poll, mid, older, rfl, ?_, hmid⟩
  rw [patches_cons, hnewer, he]
  rfl

theorem Undisturbed.of_cons {newer : Log μ κ ρ} {op : SetOp μ} (h : Undisturbed (e :: newer) op)
    : Undisturbed newer op := by
  apply And.intro
  . intro op' hmem
    exact h.1 op' (List.mem_cons_of_mem _ hmem)
  . intro poll state hmem hbegan
    exact h.2 poll state (List.mem_cons_of_mem _ hmem) (List.mem_cons_of_mem _ hbegan)

theorem Coherent.quiet (h : Coherent modeFromId log s) (hcache : t.cache = s.cache)
    (hpolls : ∀ poll ∈ t.polls, ∃ poll' ∈ s.polls,
      poll'.id = poll.id ∧ poll'.generation = poll.generation)
    : Coherent modeFromId log t := by
  constructor
  . rw [hcache]
    exact h.generation
  . intro poll hmem
    rcases hpolls poll hmem with ⟨poll', hmem', hid, hgeneration⟩
    rw [hcache, ← hid, ← hgeneration]
    exact h.polls poll' hmem'
  . rw [hcache]
    exact h.measured
  . rw [hcache]
    exact h.shown
  . exact h.skipped

theorem Coherent.event (h : Coherent modeFromId log s) (hpatch : e.isPatch = false)
    (hskipped : SkippedMeasured e log)
    : Coherent modeFromId (e :: log) s := by
  constructor
  . exact h.generation
  . intro poll hmem
    rcases h.polls poll hmem with ⟨mid, older, rfl, hlt, hgeneration⟩
    refine ⟨e :: mid, older, rfl, hlt, ?_⟩
    rw [patches_cons, hpatch, hgeneration]
    rfl
  . intro hassumed state hstate
    exact (h.measured hassumed state hstate).cons hpatch
  . intro newer op older heq hmode hundisturbed
    cases newer with
    | nil =>
      cases heq
      cases hpatch
    | cons e' newer =>
      cases heq
      exact h.shown newer op older rfl hmode hundisturbed.of_cons
  . exact ⟨hskipped, h.skipped⟩

theorem SetOp.shown_change {op : SetOp μ} (hmode : op.field ≠ .mode)
    : op.Shown modeFromId (op.change state) := by
  cases op with
  | mode m => exact (hmode rfl).elim
  | vfoA | split | transmit | receive => rfl

theorem SetOp.shown_change_other {op op' : SetOp μ} (hfield : op'.field ≠ op.field)
    (h : op.Shown modeFromId state)
    : op.Shown modeFromId (op'.change state) := by
  cases op' with
  | mode => exact h
  | vfoA | split | transmit | receive =>
    cases op with
    | vfoA | mode | split | transmit | receive =>
      first
      | exact h
      | exact (hfield rfl).elim

theorem Coherent.patch {op : SetOp μ} (h : Coherent modeFromId log s)
    (hcache : t.cache = s.cache.patchState op.change) (hpolls : t.polls = s.polls)
    : Coherent modeFromId (.patched op :: log) t := by
  constructor
  . rw [hcache]
    apply Nat.mod_lt
    decide
  . intro poll hmem
    rw [hpolls] at hmem
    rcases h.polls poll hmem with ⟨mid, older, rfl, hlt, hgeneration⟩
    refine ⟨.patched op :: mid, older, rfl, hlt, ?_⟩
    rw [hcache, patches_cons]
    change (s.cache.generation + 1) % 2 ^ 64 = (poll.generation + (patches mid + 1)) % 2 ^ 64
    omega
  . intro hassumed
    rw [hcache] at hassumed
    cases hassumed
  . intro newer op' older heq hmode hundisturbed state hstate
    rw [hcache] at hstate
    rcases Option.map_eq_some_iff.mp hstate with ⟨before, hbefore, rfl⟩
    cases newer with
    | nil =>
      cases heq
      exact SetOp.shown_change hmode
    | cons e' newer =>
      cases heq
      apply SetOp.shown_change_other
      . exact hundisturbed.1 op List.mem_cons_self
      . exact h.shown newer op' older rfl hmode hundisturbed.of_cons before hbefore
  . exact ⟨trivial, h.skipped⟩

theorem began_mem_newer {poll : Nat} {op : SetOp μ} {mid older newer older' : Log μ κ ρ}
    (hmid : patches mid = 0)
    (heq : mid ++ .began poll :: older = newer ++ .patched op :: older')
    : .began poll ∈ newer := by
  rcases List.append_eq_append_iff.mp heq with ⟨a, rfl, ha⟩ | ⟨c, rfl, hc⟩
  . cases a with
    | nil => cases ha
    | cons e a =>
      cases ha
      simp
  . cases c with
    | nil => cases hc
    | cons e c =>
      cases hc
      simp [patches, Event.isPatch] at hmid

theorem Coherent.no_patches {poll : Poll} (h : Coherent modeFromId log s) (hmem : poll ∈ s.polls)
    (hgeneration : s.cache.generation = poll.generation)
    (hbounded : Bounded (.published poll.id state :: log))
    : ∃ mid older, log = mid ++ .began poll.id :: older ∧ patches mid = 0 := by
  rcases h.polls poll hmem with ⟨mid, older, hlog, hlt, heq⟩
  have hmid : patches mid < 2 ^ 64 := by
    apply hbounded [] poll.id state mid older
    rw [hlog]
    rfl
  refine ⟨mid, older, hlog, ?_⟩
  rw [hgeneration] at heq
  omega

theorem Coherent.publish {poll : Poll} (h : Coherent modeFromId log s) (hmem : poll ∈ s.polls)
    (hgeneration : s.cache.generation = poll.generation)
    (hbounded : Bounded (.published poll.id state :: log))
    (hstate : t.cache.state = some state) (hkept : t.cache.generation = s.cache.generation)
    (hpolls : ∀ poll ∈ t.polls, poll ∈ s.polls)
    : Coherent modeFromId (.published poll.id state :: log) t := by
  rcases h.no_patches hmem hgeneration hbounded with ⟨mid, older, hlog, hmid⟩
  constructor
  . rw [hkept]
    exact h.generation
  . intro poll' hmem'
    rcases h.polls poll' (hpolls poll' hmem') with ⟨mid', older', rfl, hlt, heq⟩
    refine ⟨_ :: mid', older', rfl, hlt, ?_⟩
    rw [hkept, patches_cons]
    exact heq
  . intro _ state' hstate'
    rw [hstate] at hstate'
    cases hstate'
    refine ⟨[], poll.id, mid, older, ?_, rfl, hmid⟩
    rw [hlog]
    rfl
  . intro newer op older' heq _ hundisturbed
    cases newer with
    | nil => cases heq
    | cons e newer =>
      cases heq
      -- The poll began after the last patch, so it began after the set.
      have hbegan : .began poll.id ∈ newer := began_mem_newer hmid hlog.symm
      exact (hundisturbed.2 poll.id state List.mem_cons_self
        (List.mem_cons_of_mem _ hbegan)).elim
  . exact ⟨trivial, h.skipped⟩

theorem Coherent.hostPublish {poll : Poll} {takenAt : Nat} {result : Option (RadioState κ ρ)}
    (h : Coherent modeFromId log s) (hmem : poll ∈ s.polls)
    (taken : s.publish poll takenAt result = (evs, t)) (hbounded : Bounded (evs.reverse ++ log))
    : Coherent modeFromId (evs.reverse ++ log) t := by
  have herase : ∀ poll' ∈ s.polls.erase poll, poll' ∈ s.polls := by
    intro poll' hmem'
    exact List.mem_of_mem_erase hmem'
  cases result with
  | none =>
    cases taken
    refine h.quiet rfl ?_
    intro poll' hmem'
    exact ⟨poll', herase poll' hmem', rfl, rfl⟩
  | some state =>
    by_cases hgeneration : s.cache.generation = poll.generation
    . simp only [Host.publish, Cache.publishState, hgeneration, ne_eq, not_true_eq_false, if_true,
        if_false] at taken
      cases taken
      exact h.publish hmem hgeneration hbounded rfl hgeneration.symm herase
    . simp only [Host.publish, Cache.publishState, hgeneration, ne_eq, not_false_eq_true, if_true,
        if_false] at taken
      cases taken
      refine h.quiet rfl ?_
      intro poll' hmem'
      exact ⟨poll', herase poll' hmem', rfl, rfl⟩

theorem Coherent.began (h : Coherent modeFromId log s) (hcache : t.cache = s.cache)
    (hpolls : t.polls = { id := s.nextPoll, generation := s.cache.generation } :: s.polls)
    : Coherent modeFromId (.began s.nextPoll :: log) t := by
  have hevent : Coherent modeFromId (.began s.nextPoll :: log) s := h.event rfl trivial
  constructor
  . rw [hcache]
    exact hevent.generation
  . rw [hcache, hpolls]
    intro poll hmem
    rcases List.mem_cons.mp hmem with rfl | hmem
    . refine ⟨[], log, rfl, h.generation, ?_⟩
      exact (Nat.mod_eq_of_lt h.generation).symm
    . exact hevent.polls poll hmem
  . rw [hcache]
    exact hevent.measured
  . rw [hcache]
    exact hevent.shown
  . exact hevent.skipped

theorem Coherent.skip {op : SetOp μ} (h : Coherent modeFromId log s)
    (hredundant : s.isRedundant op = true)
    : Coherent modeFromId (.skipped op :: log) s := by
  apply h.event rfl
  cases op with
  | vfoA hz =>
    rcases (Option.any_eq_true _ _).mp hredundant with ⟨state, hfresh, hhz⟩
    rcases Cache.state_of_measuredState hfresh with ⟨hassumed, hstate⟩
    exact ⟨state, h.measured hassumed state hstate, of_decide_eq_true hhz⟩
  | mode | split | transmit | receive => cases hredundant

section

variable [DecidableEq μ]

theorem Coherent.step {a : Action μ κ ρ} (h : Coherent modeFromId log s)
    (taken : Host.machine s a = some (evs, t)) (hbounded : Bounded (evs.reverse ++ log))
    : Coherent modeFromId (evs.reverse ++ log) t := by
  revert taken
  fun_cases Host.machine s a
  case case5 hmem =>
    intro taken
    exact h.hostPublish hmem (Option.some.inj taken) hbounded
  all_goals rintro ⟨⟩
  case case1 | case9 | case10 =>
    refine h.quiet rfl ?_
    intro poll hmem
    exact ⟨poll, hmem, rfl, rfl⟩
  case case2 => exact h.began rfl rfl
  case case3 asked hasked =>
    refine h.quiet rfl ?_
    intro poll hmem
    rcases List.mem_cons.mp hmem with rfl | hmem
    . exact ⟨asked, hasked.1, rfl, rfl⟩
    . exact ⟨poll, List.mem_of_mem_erase hmem, rfl, rfl⟩
  case case8 hredundant => exact h.skip hredundant
  case case12 => exact h.patch rfl rfl

theorem runs_coherent (modeFromId : κ → Option μ)
    (h : (Host.machine (μ := μ) (κ := κ) (ρ := ρ)).Runs anything {} log s) (hbounded : Bounded log)
    : Coherent modeFromId log s := by
  apply Machine.Runs.invariant_while Bounded (Coherent modeFromId) _ _ _ h hbounded
  . exact Bounded.of_append
  . refine ⟨Nat.two_pow_pos 64, ?_, ?_, ?_, trivial⟩
    . simp
    . simp
    . simp
  . intro _ _ _ _ _ hI hbounded _ taken
    exact hI.step taken hbounded

/--
The cached reading never goes back in time, as long as a poll is not overtaken by more patches than
the generation counts. A mode that is set is the one thing that the cache cannot show.
-/
theorem cache_never_goes_back (modeFromId : κ → Option μ)
    (h : (Host.machine (μ := μ) (κ := κ) (ρ := ρ)).Runs anything {} log s) (hbounded : Bounded log)
    : (s.cache.assumed = false → ∀ state, s.cache.state = some state → Measured log state)
      ∧ (∀ newer op older, log = newer ++ .patched op :: older → op.field ≠ .mode →
          Undisturbed newer op → ∀ maxAge state,
          s.cache.recentState s.now maxAge = some state → op.Shown modeFromId state)
      ∧ (∀ maxAge state, s.cache.measuredState s.now maxAge = some state → Measured log state)
      ∧ (∀ newer op older, log = newer ++ .skipped op :: older →
          ∃ state, Measured older state ∧ op.Shown modeFromId state) := by
  have hcoherent := runs_coherent modeFromId h hbounded
  refine ⟨hcoherent.measured, ?_, ?_, ?_⟩
  . intro newer op older heq hmode hundisturbed maxAge state hrecent
    apply hcoherent.shown newer op older heq hmode hundisturbed
    exact Cache.state_of_recentState hrecent
  . intro maxAge state hmeasured
    rcases Cache.state_of_measuredState hmeasured with ⟨hassumed, hstate⟩
    exact hcoherent.measured hassumed state hstate
  . rintro newer op older rfl
    have hskipped : SkippedMeasured _ _ := hcoherent.skipped.of_append
    cases op with
    | vfoA hz => exact hskipped
    | mode | split | transmit | receive => exact hskipped.elim

end

theorem bounded_of_patches_lt (h : patches log < 2 ^ 64) : Bounded log := by
  rintro newer poll state mid older rfl
  simp only [patches, List.countP_append, List.countP_cons] at h ⊢
  omega

end

/-- A host whose clients name modes as the radio does. -/
abbrev PlainHost := Host Nat Nat Unit

def reading (hz mode : Nat) : RadioState Nat Unit :=
  { vfoAHz := hz, mode, split := false, transmitting := false, other := () }

theorem cache_never_goes_back_vfo
    : ∃ (log : Log Nat Nat Unit) (s : PlainHost),
      Host.machine.Runs anything {} log s ∧ Bounded log
        ∧ s.cache.recentState s.now 12000 = some (reading 14074000 1)
        ∧ SetOp.Shown some (.vfoA 14074000) (reading 14074000 1) := by
  have hrun : Host.machine.Runs anything {}
      [.patched (.vfoA 14074000), .published 0 (reading 14070000 1), .began 0]
      ({ cache := { state := some (reading 14074000 1), taken := some 0, assumed := true,
                    generation := 1 },
         nextPoll := 1 } : PlainHost) := by
    exact Machine.runs_play [.beginPoll, .ask ⟨0, 0, none⟩,
      .publish ⟨0, 0, some 0⟩ (some (reading 14070000 1)), .set (.vfoA 14074000),
      .wrote (.vfoA 14074000) true, .patch (.vfoA 14074000)] rfl
  have hbounded : Bounded (μ := Nat)
      [.patched (.vfoA 14074000), .published 0 (reading 14070000 1), .began 0] := by
    apply bounded_of_patches_lt
    decide
  refine ⟨_, _, hrun, hbounded, rfl, ?_⟩
  exact (cache_never_goes_back some hrun hbounded).2.1 [] _ _ rfl (by decide) ⟨by simp, by simp⟩
    12000 _ rfl

theorem mode_not_shown
    : ∃ (log : Log Nat Nat Unit) (s : PlainHost) (newer : Log Nat Nat Unit) (op : SetOp Nat)
        (older : Log Nat Nat Unit) (state : RadioState Nat Unit),
      Host.machine.Runs anything {} log s ∧ log = newer ++ .patched op :: older
        ∧ Undisturbed newer op ∧ s.cache.recentState s.now 12000 = some state
        ∧ ¬ op.Shown some state := by
  have hrun : Host.machine.Runs anything {}
      [.patched (.mode 2), .published 0 (reading 14070000 1), .began 0]
      ({ cache := { state := some (reading 14070000 1), taken := some 0, assumed := true,
                    generation := 1 },
         nextPoll := 1 } : PlainHost) := by
    exact Machine.runs_play [.beginPoll, .ask ⟨0, 0, none⟩,
      .publish ⟨0, 0, some 0⟩ (some (reading 14070000 1)), .set (.mode 2), .wrote (.mode 2) true,
      .patch (.mode 2)] rfl
  refine ⟨_, _, [], .mode 2, _, reading 14070000 1, hrun, rfl, ⟨by simp, by simp⟩, rfl, ?_⟩
  simp [SetOp.Shown, reading]

/-- The poll was on the wire when the set was found redundant, and has measured another value. -/
theorem skipped_not_shown
    : ∃ (log : Log Nat Nat Unit) (s : PlainHost) (newer : Log Nat Nat Unit) (op : SetOp Nat)
        (older : Log Nat Nat Unit) (state : RadioState Nat Unit),
      Host.machine.Runs anything {} log s ∧ log = newer ++ .skipped op :: older
        ∧ Undisturbed newer op ∧ s.cache.recentState s.now 12000 = some state
        ∧ ¬ op.Shown some state := by
  have hrun : Host.machine.Runs anything {}
      [.published 1 (reading 14080000 1), .skipped (.vfoA 14070000), .began 1,
        .published 0 (reading 14070000 1), .began 0]
      ({ cache := { state := some (reading 14080000 1), taken := some 0 },
         nextPoll := 2 } : PlainHost) := by
    exact Machine.runs_play [.beginPoll, .ask ⟨0, 0, none⟩,
      .publish ⟨0, 0, some 0⟩ (some (reading 14070000 1)), .beginPoll, .ask ⟨1, 0, none⟩,
      .set (.vfoA 14070000), .publish ⟨1, 0, some 0⟩ (some (reading 14080000 1))] rfl
  refine ⟨_, _, [.published 1 (reading 14080000 1)], .vfoA 14070000, _, reading 14080000 1, hrun,
    rfl, ⟨by simp, by simp⟩, rfl, ?_⟩
  simp [SetOp.Shown, reading]

def overtaken (n : Nat) : PlainHost :=
  { cache := { assumed := decide (0 < n), generation := n % 2 ^ 64 }
    nextPoll := 1
    polls := [⟨0, 0, some 0⟩] }

def overtakenLog (n : Nat) : Log Nat Nat Unit :=
  List.replicate n (.patched .transmit) ++ [.began 0]

theorem play_transmit (n : Nat)
    : Host.machine.play anything (overtaken n)
        [.set .transmit, .wrote .transmit true, .patch .transmit]
      = some ([.patched .transmit], overtaken (n + 1)) := by
  have hmod : (n % 2 ^ 64 + 1) % 2 ^ 64 = (n + 1) % 2 ^ 64 := by omega
  have hplay : Host.machine.play anything (overtaken n)
      [.set .transmit, .wrote .transmit true, .patch .transmit]
      = some ([.patched .transmit],
        { overtaken n with
          cache := { assumed := true, generation := (n % 2 ^ 64 + 1) % 2 ^ 64 } }) := by
    rfl
  rw [hplay, hmod]
  simp [overtaken]

theorem runs_overtaken (n : Nat)
    : Host.machine.Runs anything {} (overtakenLog n) (overtaken n) := by
  induction n with
  | zero => exact Machine.runs_play [.beginPoll, .ask ⟨0, 0, none⟩] rfl
  | succ n ih => exact ih.trans (Machine.runs_play _ (play_transmit n))

theorem not_measured_overtaken {n : Nat} {state : RadioState Nat Unit}
    : ¬ Measured (.published 0 state :: overtakenLog (n + 1)) state := by
  rintro ⟨newer, poll, mid, older, heq, hnewer, hmid⟩
  cases newer with
  | nil =>
    cases mid with
    | nil => cases heq
    | cons e mid =>
      have hpatch : .patched .transmit = e := (List.cons.inj (List.cons.inj heq).2).1
      cases hpatch
      rw [patches_cons] at hmid
      cases hmid
  | cons e newer =>
    cases newer with
    | nil => cases heq
    | cons e' newer =>
      have hpatch : .patched .transmit = e' := (List.cons.inj (List.cons.inj heq).2).1
      cases hpatch
      rw [patches_cons, patches_cons] at hnewer
      simp [Event.isPatch] at hnewer

/--
What goes back: a mode, a set that was found redundant, and a poll that is overtaken by as many sets
as the generation counts before it starts again.
-/
theorem cache_goes_back
    : (∃ (log : Log Nat Nat Unit) (s : PlainHost) (newer : Log Nat Nat Unit) (op : SetOp Nat)
          (older : Log Nat Nat Unit) (state : RadioState Nat Unit),
        Host.machine.Runs anything {} log s ∧ log = newer ++ .patched op :: older
          ∧ Undisturbed newer op ∧ s.cache.recentState s.now 12000 = some state
          ∧ ¬ op.Shown some state)
      ∧ (∃ (log : Log Nat Nat Unit) (s : PlainHost) (newer : Log Nat Nat Unit) (op : SetOp Nat)
          (older : Log Nat Nat Unit) (state : RadioState Nat Unit),
        Host.machine.Runs anything {} log s ∧ log = newer ++ .skipped op :: older
          ∧ Undisturbed newer op ∧ s.cache.recentState s.now 12000 = some state
          ∧ ¬ op.Shown some state)
      ∧ (∃ (log : Log Nat Nat Unit) (s : PlainHost) (state : RadioState Nat Unit),
        Host.machine.Runs anything {} log s ∧ s.cache.assumed = false
          ∧ s.cache.state = some state ∧ ¬ Measured log state) := by
  refine ⟨mode_not_shown, skipped_not_shown, ?_⟩
  have hlast : Host.machine.play anything (overtaken (2 ^ 64))
      [.publish ⟨0, 0, some 0⟩ (some (reading 14070000 1))]
      = some ([.published 0 (reading 14070000 1)],
        { cache := { state := some (reading 14070000 1), taken := some 0 }, nextPoll := 1 }) := by
    rfl
  refine ⟨_, _, reading 14070000 1, (runs_overtaken _).trans (Machine.runs_play _ hlast), rfl, rfl,
    ?_⟩
  exact not_measured_overtaken (n := 2 ^ 64 - 1)

end Rigctl
