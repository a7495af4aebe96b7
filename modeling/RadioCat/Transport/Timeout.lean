import RadioCat.Trace.Machine

/-!
This module contains the timeout future: it is polled with any wakers, reads the clock after its
inner future, and starts one thread that sleeps until the deadline and wakes the waker it was given.
-/

namespace Timeout

open Trace

universe u v

variable {β : Type u} {ω : Type v}

inductive Poll (β : Type u) where
  | pending
  | ok (v : β)
  | elapsed
  deriving DecidableEq, Repr

inductive Phase (ω : Type v) where
  | idle
  -- The inner future was pending, the clock is to be read.
  | waiting (w : ω)
  -- The clock was before the deadline.
  | early (w : ω)
  deriving DecidableEq, Repr

inductive Timer (ω : Type v) where
  | unstarted
  | sleeping (due : Nat) (w : ω)
  | finished
  deriving DecidableEq, Repr

structure TimeoutFuture (ω : Type v) where
  deadline : Nat
  timer : Timer ω := .unstarted
  phase : Phase ω := .idle
  -- No clock of the process has been read later than this.
  now : Nat
  deriving DecidableEq, Repr

def timeout (duration now : Nat) : TimeoutFuture ω where
  deadline := now + duration
  now := now

inductive Action (β : Type u) (ω : Type v) where
  | poll (w : ω) (inner : Option β)
  | clock (t : Nat)
  | spawn (t : Nat)
  | leave
  | fire (t : Nat)
  | wakeInner (w : ω)
  deriving DecidableEq, Repr

inductive Event (β : Type u) (ω : Type v) where
  | began (w : ω)
  | returned (inner : Option β) (poll : Poll β) (now : Nat)
  | woke (w : ω)
  deriving DecidableEq, Repr

def machine : Machine (TimeoutFuture ω) (Action β ω) (Event β ω)
  | s, .poll w inner =>
    match s.phase, inner with
    | .idle, some v => some ([.began w, .returned inner (.ok v) s.now], s)
    | .idle, none => some ([.began w], { s with phase := .waiting w })
    | _, _ => none
  | s, .clock t =>
    match s.phase with
    | .waiting w =>
      if t < s.now then
        none
      else if t ≥ s.deadline then
        some ([.returned none .elapsed t], { s with phase := .idle, now := t })
      else
        some ([], { s with phase := .early w, now := t })
    | _ => none
  | s, .spawn t =>
    match s.phase, s.timer with
    | .early w, .unstarted =>
      if t < s.now then
        none
      else
        -- It sleeps for what is left of the deadline, and not less.
        some ([], { s with timer := .sleeping (t + (s.deadline - t)) w, now := t })
    | _, _ => none
  | s, .leave =>
    match s.phase, s.timer with
    | .early _, .unstarted => none
    | .early _, _ => some ([.returned none .pending s.now], { s with phase := .idle })
    | _, _ => none
  | s, .fire t =>
    match s.timer with
    | .sleeping due w =>
      if t < s.now ∨ t < due then
        none
      else
        some ([.woke w], { s with timer := .finished, now := t })
    | _ => none
  | s, .wakeInner w => some ([.woke w], s)

def Answers (deadline : Nat) : Event β ω → Prop
  | .returned inner poll t =>
    (∀ v, poll = .ok v ↔ inner = some v) ∧ (poll = .elapsed → deadline ≤ t)
  | _ => True

section answers

variable {log evs : List (Event β ω)} {s s' : TimeoutFuture ω} {ok : Discipline _ _}

theorem answers_of_step {a : Action β ω} (taken : machine s a = some (evs, s'))
    : s'.deadline = s.deadline ∧ ∀ e ∈ evs, Answers s.deadline e := by
  revert taken
  fun_cases machine s a
  all_goals rintro ⟨⟩
  all_goals refine ⟨rfl, ?_⟩
  all_goals simp_all [Answers]

theorem answers_of_run (h : machine.Runs ok s log s')
    : s'.deadline = s.deadline ∧ ∀ e ∈ log, Answers s.deadline e := by
  apply Machine.Runs.invariant
    (fun log t => t.deadline = s.deadline ∧ ∀ e ∈ log, Answers s.deadline e) _ _ h
  . exact ⟨rfl, by simp⟩
  . intro log t a evs u hI _ taken
    obtain ⟨hdeadline, hanswers⟩ := answers_of_step taken
    refine ⟨hdeadline.trans hI.1, ?_⟩
    intro e he
    rcases List.mem_append.mp he with he | he
    . rw [← hI.1]
      exact hanswers e (List.mem_reverse.mp he)
    . exact hI.2 e he

end answers

structure Answer (β : Type u) (ω : Type v) where
  waker : ω
  poll : Option (Poll β) := none
  woken : Bool := false
  deriving DecidableEq, Repr

variable [DecidableEq ω]

def lastPoll : List (Event β ω) → Option (Answer β ω) :=
  observe next none
where
  next (last : Option (Answer β ω)) : Event β ω → Option (Answer β ω)
    | .began waker => some { waker }
    | .returned _ poll _ => last.map fun a => { a with poll := some poll }
    | .woke w => last.map fun a => { a with woken := a.woken || a.waker = w }

def Woken (log : List (Event β ω)) (s : TimeoutFuture ω) : Prop :=
  s.phase = .idle → s.timer = .finished →
    ∀ a ∈ lastPoll log, a.poll = some .pending → a.woken = true

def Timer.waker : Timer ω → Option ω
  | .sleeping _ w => some w
  | _ => none

def sameWaker : Discipline (TimeoutFuture ω) (Action β ω)
  | s, .poll w _ => s.timer.waker.all (· = w) = true
  | _, _ => True

instance : (s : TimeoutFuture ω) → (a : Action β ω) → Decidable (sameWaker s a)
  | s, .poll w _ => inferInstanceAs (Decidable (s.timer.waker.all (· = w) = true))
  | _, .clock _ | _, .spawn _ | _, .leave | _, .fire _ | _, .wakeInner _ => instDecidableTrue

def Served (s : TimeoutFuture ω) (a : Answer β ω) : Prop :=
  (∃ due, s.timer = .sleeping due a.waker) ∨ s.timer = .finished ∧ a.woken = true

/--
The thread was started with the waker of the poll that is in progress or was the last one.
-/
structure Waits (log : List (Event β ω)) (s : TimeoutFuture ω) : Prop where
  sleeping : ∀ due w, s.timer = .sleeping due w → s.deadline ≤ due
  finished : s.timer = .finished → s.deadline ≤ s.now
  waiting : ∀ w, s.phase = .waiting w → ∃ a ∈ lastPoll log, a.waker = w
    ∧ (s.timer = .unstarted ∨ s.timer = .finished ∨ Served s a)
  early : ∀ w, s.phase = .early w → ∃ a ∈ lastPoll log, a.waker = w
    ∧ (s.timer = .unstarted ∨ Served s a)
  idle : s.phase = .idle → ∀ a ∈ lastPoll log, a.poll = some .pending → Served s a

section

variable {log evs : List (Event β ω)} {s s' : TimeoutFuture ω}

theorem Served.woke {a : Answer β ω} (h : Served s a) (w : ω)
    : Served s { a with woken := a.woken || a.waker = w } := by
  apply h.imp id
  intro hserved
  simp [hserved]

theorem Served.fired {a : Answer β ω} {w : ω} {due t : Nat} (h : Served s a)
    (htimer : s.timer = .sleeping due w)
    : Served { s with timer := .finished, now := t }
      { a with woken := a.woken || a.waker = w } := by
  rcases h with ⟨due', hsleeping⟩ | hfinished
  . rw [htimer] at hsleeping
    cases hsleeping
    exact Or.inr (by simp)
  . simp [htimer] at hfinished

theorem Waits.poll {w : ω} (h : Waits log s)
    (same : s.timer.waker.all (· = w) = true)
    : Waits (.began w :: log) { s with phase := .waiting w } := by
  refine ⟨h.sleeping, h.finished, ?_, by simp, by simp⟩
  rintro _ ⟨⟩
  refine ⟨_, rfl, rfl, ?_⟩
  cases htimer : s.timer with
  | unstarted => exact Or.inl rfl
  | finished => exact Or.inr (Or.inl rfl)
  | sleeping due first =>
    rw [htimer] at same
    have hsame : first = w := by simpa [Timer.waker] using same
    refine Or.inr (Or.inr (Or.inl ⟨due, ?_⟩))
    rw [← hsame]

theorem Waits.ready {w : ω} {inner : Option β} {v : β} (h : Waits log s) (hidle : s.phase = .idle)
    : Waits (.returned inner (.ok v) s.now :: .began w :: log) s := by
  refine ⟨h.sleeping, h.finished, by simp [hidle], by simp [hidle], ?_⟩
  rintro _ a ⟨⟩
  simp

theorem Waits.elapsed {t : Nat} (h : Waits log s) (hnow : s.now ≤ t)
    : Waits (.returned none .elapsed t :: log) { s with phase := .idle, now := t } := by
  refine ⟨h.sleeping, fun hf => Nat.le_trans (h.finished hf) hnow, by simp, by simp, ?_⟩
  intro _ a ha hpending
  obtain ⟨b, _, rfl⟩ := Option.map_eq_some_iff.mp ha
  simp at hpending

theorem Waits.clock {w : ω} {t : Nat} (h : Waits log s) (hphase : s.phase = .waiting w)
    (hnow : s.now ≤ t) (hearly : t < s.deadline)
    : Waits log { s with phase := .early w, now := t } := by
  refine ⟨h.sleeping, fun hf => Nat.le_trans (h.finished hf) hnow, by simp, ?_, by simp⟩
  rintro _ ⟨⟩
  obtain ⟨a, ha, hwaker, htimer⟩ := h.waiting w hphase
  refine ⟨a, ha, hwaker, ?_⟩
  rcases htimer with hunstarted | hfinished | hserved
  . exact Or.inl hunstarted
  . -- The thread has slept past the deadline, so the clock cannot be before it.
    have := h.finished hfinished
    omega
  . exact Or.inr hserved

theorem Waits.spawn {w : ω} {t : Nat} (h : Waits log s) (hphase : s.phase = .early w)
    : Waits log { s with timer := .sleeping (t + (s.deadline - t)) w, now := t } := by
  refine ⟨?_, by simp, by simp [hphase], ?_, by simp [hphase]⟩
  . rintro _ _ ⟨⟩
    dsimp only
    omega
  . intro w' hw'
    have hw : w = w' := by simpa [hphase] using hw'
    subst hw
    obtain ⟨a, ha, hwaker, _⟩ := h.early w hphase
    refine ⟨a, ha, hwaker, Or.inr (Or.inl ⟨t + (s.deadline - t), ?_⟩)⟩
    rw [hwaker]

theorem Waits.leave {w : ω} (h : Waits log s) (hphase : s.phase = .early w)
    (hstarted : s.timer ≠ .unstarted)
    : Waits (.returned none .pending s.now :: log) { s with phase := .idle } := by
  refine ⟨h.sleeping, h.finished, by simp, by simp, ?_⟩
  intro _ b hb _
  obtain ⟨a, ha, _, hserved⟩ := h.early w hphase
  obtain ⟨a', ha', rfl⟩ := Option.map_eq_some_iff.mp hb
  cases ha.symm.trans ha'
  exact hserved.resolve_left hstarted

theorem Waits.woke {w : ω} (h : Waits log s) (hphase : s'.phase = s.phase)
    (hsleeping : ∀ due w, s'.timer = .sleeping due w → s'.deadline ≤ due)
    (hfinished : s'.timer = .finished → s'.deadline ≤ s'.now)
    (hsame : s'.timer = s.timer ∨ ∃ due w, s.timer = .sleeping due w)
    (hserved : ∀ a : Answer β ω, Served s a →
      Served s' { a with woken := a.woken || a.waker = w })
    : Waits (.woke w :: log) s' := by
  refine ⟨hsleeping, hfinished, ?_, ?_, ?_⟩
  . intro x hx
    rw [hphase] at hx
    obtain ⟨a, ha, hwaker, htimer⟩ := h.waiting x hx
    refine ⟨_, Option.map_eq_some_iff.mpr ⟨a, ha, rfl⟩, hwaker, ?_⟩
    grind
  . intro x hx
    rw [hphase] at hx
    obtain ⟨a, ha, hwaker, htimer⟩ := h.early x hx
    refine ⟨_, Option.map_eq_some_iff.mpr ⟨a, ha, rfl⟩, hwaker, ?_⟩
    grind
  . intro hidle b hb hpending
    rw [hphase] at hidle
    obtain ⟨a, ha, rfl⟩ := Option.map_eq_some_iff.mp hb
    exact hserved a (h.idle hidle a ha hpending)

theorem Waits.step {a : Action β ω} (h : Waits log s) (ok : sameWaker s a)
    (taken : machine s a = some (evs, s'))
    : Waits (evs.reverse ++ log) s' := by
  revert taken
  fun_cases machine s a
  all_goals rintro ⟨⟩
  case case1 hphase => exact h.ready hphase
  case case2 => exact h.poll ok
  case case5 _ hnow _ => exact h.elapsed (Nat.le_of_not_lt hnow)
  case case6 hphase hnow hearly =>
    exact h.clock hphase (Nat.le_of_not_lt hnow) (Nat.lt_of_not_le hearly)
  case case9 _ hphase _ => exact h.spawn hphase
  case case12 hphase hstarted => exact h.leave hphase hstarted
  case case15 htimer hdue =>
    rw [not_or] at hdue
    refine h.woke rfl (by simp) ?_ (Or.inr ⟨_, _, htimer⟩) ?_
    . intro _
      exact Nat.le_trans (h.sleeping _ _ htimer) (Nat.le_of_not_lt hdue.2)
    . intro a ha
      exact ha.fired htimer
  case case17 => exact h.woke rfl h.sleeping h.finished (Or.inl rfl) fun a ha => ha.woke _

/--
What a poll returns is right in every run. That the last one is woken needs it to be given the waker
the thread was started with.
-/
theorem timely_with_one_waker {duration start : Nat}
    (h : machine.Runs sameWaker (timeout duration start) log s)
    : (∀ e ∈ log, Answers (start + duration) e) ∧ Woken log s := by
  refine ⟨(answers_of_run h).2, ?_⟩
  have hwaits : Waits log s := by
    apply Machine.Runs.invariant Waits _ Waits.step h
    exact ⟨by simp [timeout], by simp [timeout], by simp [timeout], by simp [timeout],
      by simp [lastPoll]⟩
  intro hidle hfinished a ha hpending
  rcases hwaits.idle hidle a ha hpending with ⟨due, hsleeping⟩ | hserved
  . rw [hfinished] at hsleeping
    cases hsleeping
  . exact hserved.2

end

theorem timely_polled_twice
    : let log : List (Event Nat Nat) :=
        [.woke 1, .returned none .pending 5, .began 1, .returned none .pending 3, .began 1]
      let s : TimeoutFuture Nat := { deadline := 10, timer := .finished, now := 10 }
      machine.Runs sameWaker (timeout 10 0) log s
        ∧ lastPoll log = some { waker := 1, poll := some .pending, woken := true }
        ∧ (∀ e ∈ log, Answers (0 + 10) e) ∧ Woken log s := by
  intro log s
  have hrun : machine.Runs sameWaker (timeout 10 0) log s := by
    exact Machine.runs_play
      [.poll 1 none, .clock 2, .spawn 3, .leave, .poll 1 none, .clock 5, .leave, .fire 10] rfl
  exact ⟨hrun, rfl, timely_with_one_waker hrun⟩

theorem timeout_wakes_first_waker
    : ∃ (log : List (Event Nat Nat)) (s : TimeoutFuture Nat),
        machine.Runs anything (timeout 10 0) log s ∧ ¬ Woken log s := by
  let log : List (Event Nat Nat) :=
    [.woke 1, .returned none .pending 5, .began 2, .returned none .pending 3, .began 1]
  have hrun : machine.Runs anything (timeout 10 0) log
      { deadline := 10, timer := .finished, now := 10 } := by
    exact Machine.runs_play
      [.poll 1 none, .clock 2, .spawn 3, .leave, .poll 2 none, .clock 5, .leave, .fire 10] rfl
  refine ⟨_, _, hrun, ?_⟩
  intro hwoken
  have := hwoken rfl rfl _ rfl rfl
  contradiction

end Timeout
