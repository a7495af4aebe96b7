import RadioCat.Trace.Machine

/-!
This module contains the worker of the broker: jobs wait in one queue and are run strictly in turn,
except that a release of the PTT line runs at once, on the release lines the session was asked for.
-/

namespace Server

open Trace

inductive Backend where
  | linux
  | windows
  deriving DecidableEq, Repr

namespace Release

inductive Work where
  | wire
  -- A task drives the PTT line to the level: `true` asserts it.
  | task (level : Bool)
  deriving DecidableEq, Repr

structure Job where
  id : Nat
  work : Work
  deriving DecidableEq, Repr

inductive Call where
  | called
  | ran
  -- Without release lines the release waits for its turn, as any other job does.
  | queued (id : Nat)
  deriving DecidableEq, Repr

structure Worker where
  queue : List Job := []
  current : Option Job := none
  nextId : Nat := 0
  -- The worker holds the receiving half of the queue, until it is dropped.
  receiver : Bool := true
  -- `ReleaseLines::lines` is `Some`.
  lines : Bool
  line : Bool := false
  calls : List (Nat × Call) := []
  answered : List Nat := []
  deriving DecidableEq, Repr

inductive Action where
  | submit (work : Work)
  -- The client drops the future it waits with.
  | forget (id : Nat)
  | take
  | finish
  | call (k : Nat)
  | tryNow (k : Nat)
  | return (k : Nat)
  | dropReceiver
  | close
  deriving DecidableEq, Repr

/--
What a run shows. `returned` carries the jobs the worker has not run yet.
-/
inductive Event where
  | submitted (id : Nat) (work : Work)
  | drove (id : Nat) (level : Bool)
  | called (k : Nat)
  | released (k : Nat)
  | returned (k : Nat) (waiting : List Nat)
  deriving DecidableEq, Repr

abbrev Log := List Event

namespace Worker

def waiting (s : Worker) : List Nat :=
  (s.current.toList ++ s.queue).map Job.id

def enqueue (s : Worker) (work : Work) : List Event × Worker :=
  if s.receiver then
    ([.submitted s.nextId work],
      { s with
        queue := s.queue ++ [{ id := s.nextId, work }]
        nextId := s.nextId + 1 })
  else
    ([], s)

def runTask (s : Worker) (id : Nat) (level : Bool) : List Event × Worker :=
  ([.drove id level], { s with line := level, answered := id :: s.answered })

def tryNow (s : Worker) (k : Nat) : List Event × Worker :=
  if s.lines then
    ([.released k], { s with line := false, calls := (k, .ran) :: s.calls.erase (k, .called) })
  else
    let (evs, t) := s.enqueue (.task false)
    (evs, { t with calls := (k, .queued s.nextId) :: s.calls.erase (k, .called) })

def machine (backend : Backend) : Machine Worker Action Event
  | s, .submit work => some (s.enqueue work)
  -- Only the slot of the reply is gone: the job stays where it is.
  | s, .forget _ => some ([], s)
  | s, .take =>
    match s.receiver, s.current, s.queue with
    | true, none, job :: queue =>
      match backend, job.work with
      -- Nothing is awaited between receiving a task and running it.
      | .linux, .task level => some ({ s with queue }.runTask job.id level)
      | _, _ => some ([], { s with queue, current := some job })
    | _, _, _ => none
  | s, .finish =>
    match s.current with
    | some { id, work := .wire } =>
      some ([], { s with current := none, answered := id :: s.answered })
    | some { id, work := .task level } => some ({ s with current := none }.runTask id level)
    | none => none
  | s, .call k => some ([.called k], { s with calls := (k, .called) :: s.calls })
  | s, .tryNow k => if (k, .called) ∈ s.calls then some (s.tryNow k) else none
  | s, .return k =>
    match s.calls.lookup k with
    | some .ran => some ([.returned k s.waiting], { s with calls := s.calls.erase (k, .ran) })
    | some (.queued id) =>
      if id ∈ s.answered ∨ s.receiver = false then
        some ([.returned k s.waiting], { s with calls := s.calls.erase (k, .queued id) })
      else
        none
    | _ => none
  -- The worker is dropped: first what it works on and the queue, then the release lines.
  | s, .dropReceiver => some ([], { s with receiver := false, current := none, queue := [] })
  | s, .close => if s.receiver then none else some ([], { s with lines := false })

end Worker

/--
A job that was submitted before a release was called drives the line up after it has returned.
-/
def Reasserted (log : Log) (id k : Nat) (waiting : List Nat) : Prop :=
  ∃ newer a b older,
    log = newer ++ .drove id true :: (a ++ .returned k waiting :: (b ++ .called k :: older))
      ∧ .submitted id (.task true) ∈ older

def Awaited (log : Log) (id : Nat) : Prop :=
  ∀ newer k waiting older, log = newer ++ .returned k waiting :: older →
    ∀ work, .submitted id work ∈ older → id ∈ waiting

def DroveAwaited : Event → Log → Prop
  | .drove id _, log => Awaited log id
  | _, _ => True

structure Queued (log : Log) (s : Worker) : Prop where
  fresh : ∀ id work, .submitted id work ∈ log → id < s.nextId
  waiting : ∀ id ∈ s.waiting, Awaited log id
  drove : Each DroveAwaited log

section

variable {log evs : Log} {s t : Worker} {id : Nat} {backend : Backend}

theorem Awaited.cons {e : Event} (h : Awaited log id)
    (he : ∀ k waiting, e = .returned k waiting → ∀ work, .submitted id work ∈ log → id ∈ waiting)
    : Awaited (e :: log) id := by
  intro newer k waiting older heq work hmem
  cases newer with
  | nil =>
    rw [List.nil_append, List.cons.injEq] at heq
    apply he k waiting heq.1 work
    rw [heq.2]
    exact hmem
  | cons e' newer =>
    rw [List.cons_append, List.cons.injEq] at heq
    exact h newer k waiting older heq.2 work hmem

theorem Queued.quiet (h : Queued log s) (hid : t.nextId = s.nextId)
    (hwaiting : ∀ id ∈ t.waiting, id ∈ s.waiting)
    : Queued log t := by
  refine ⟨?_, ?_, h.drove⟩
  . rw [hid]
    exact h.fresh
  . intro id hmem
    exact h.waiting id (hwaiting id hmem)

theorem Queued.shown {e : Event} (h : Queued log s)
    (hsubmitted : ∀ id work, e = .submitted id work → id < s.nextId)
    (hreturned : ∀ k waiting, e = .returned k waiting → waiting = s.waiting)
    (hdrove : DroveAwaited e log)
    : Queued (e :: log) s := by
  refine ⟨?_, ?_, hdrove, h.drove⟩
  . intro id work hmem
    rcases List.mem_cons.mp hmem with heq | hmem
    . exact hsubmitted id work heq.symm
    . exact h.fresh id work hmem
  . intro id hmem
    apply (h.waiting id hmem).cons
    intro k waiting heq _ _
    rw [hreturned k waiting heq]
    exact hmem

theorem Queued.enqueue {work : Work} (h : Queued log s) (taken : s.enqueue work = (evs, t))
    : Queued (evs.reverse ++ log) t := by
  unfold Worker.enqueue at taken
  split at taken
  . cases taken
    refine ⟨?_, ?_, trivial, h.drove⟩
    . intro id work' hmem
      rcases List.mem_cons.mp hmem with heq | hmem
      . cases heq
        apply Nat.lt_succ_self
      . apply Nat.lt_succ_of_lt
        exact h.fresh id work' hmem
    . intro id hmem
      apply Awaited.cons _ (by simp)
      have hmem : id ∈ s.waiting ∨ id = s.nextId := by
        simpa [Worker.waiting, or_assoc] using hmem
      rcases hmem with hmem | rfl
      . exact h.waiting id hmem
      . -- Nothing in the log can name an identity that is only now given out.
        rintro newer k waiting older rfl work' hmem
        have hfresh := h.fresh s.nextId work' (by simp [hmem])
        omega
  . cases taken
    exact h

theorem Queued.runTask {u : Worker} {level : Bool} (h : Queued log s)
    (taken : t.runTask id level = (evs, u)) (hid : t.nextId = s.nextId)
    (hwaiting : ∀ id ∈ t.waiting, id ∈ s.waiting) (hmem : id ∈ s.waiting)
    : Queued (evs.reverse ++ log) u := by
  cases taken
  have hawaited := h.waiting id hmem
  have ht : Queued log (t.runTask id level).2 := h.quiet hid hwaiting
  exact ht.shown (by simp) (by simp) hawaited

theorem Queued.tryNow {k : Nat} (h : Queued log s) (taken : s.tryNow k = (evs, t))
    : Queued (evs.reverse ++ log) t := by
  unfold Worker.tryNow at taken
  split at taken
  . cases taken
    refine Queued.shown ?_ (by simp) (by simp) trivial
    exact h.quiet rfl fun _ hmem => hmem
  . cases taken
    refine (h.enqueue rfl).quiet rfl fun _ hmem => hmem

theorem Worker.mem_waiting
    : id ∈ s.waiting ↔ ∃ job, (s.current = some job ∨ job ∈ s.queue) ∧ job.id = id := by
  simp [Worker.waiting, or_and_right, exists_or]

theorem Queued.step {a : Action} (h : Queued log s)
    (taken : Worker.machine backend s a = some (evs, t))
    : Queued (evs.reverse ++ log) t := by
  revert taken
  fun_cases Worker.machine backend s a
  case case1 =>
    intro taken
    exact h.enqueue (Option.some.inj taken)
  case case3 hqueue hcurrent _ =>
    intro taken
    refine h.runTask (Option.some.inj taken) rfl ?_ ?_
    . grind [Worker.mem_waiting]
    . grind [Worker.mem_waiting]
  case case7 hcurrent =>
    intro taken
    refine h.runTask (Option.some.inj taken) rfl ?_ ?_
    . grind [Worker.mem_waiting]
    . grind [Worker.mem_waiting]
  case case10 =>
    intro taken
    exact h.tryNow (Option.some.inj taken)
  all_goals rintro ⟨⟩
  case case2 => exact h
  case case4 hqueue hcurrent _ =>
    refine h.quiet rfl ?_
    grind [Worker.mem_waiting]
  case case6 hcurrent =>
    refine h.quiet rfl ?_
    grind [Worker.mem_waiting]
  case case9 | case12 | case13 =>
    refine Queued.shown ?_ (by simp) (by simp [Worker.waiting]) trivial
    exact h.quiet rfl fun _ hmem => hmem
  case case16 =>
    refine h.quiet rfl ?_
    simp [Worker.waiting]
  case case18 =>
    exact h.quiet rfl fun _ hmem => hmem

theorem runs_queued (h : (Worker.machine backend).Runs anything { lines := true } log s)
    : Queued log s := by
  apply Machine.Runs.invariant Queued _ _ h
  . refine ⟨by simp, by simp [Worker.waiting], trivial⟩
  . intro _ _ _ _ _ hI _ taken
    exact hI.step taken

/--
Once a release has returned, an assert that was submitted before the release was called drives the
line only if the worker had not run it when the release returned.
-/
theorem reassert_was_waiting {k : Nat} {waiting : List Nat}
    (h : (Worker.machine backend).Runs anything { lines := true } log s)
    (hre : Reasserted log id k waiting)
    : id ∈ waiting := by
  rcases hre with ⟨newer, a, b, older, rfl, hsubmitted⟩
  have hdrove : Awaited _ id := (runs_queued h).drove.of_append
  apply hdrove a k waiting (b ++ .called k :: older) rfl (.task true)
  simp [hsubmitted]

end

/-- A request stalls on the wire, an assert waits behind it, and the release runs at once. -/
def stalled : Backend → List Action
  | .linux => [.submit .wire, .take, .submit (.task true), .forget 1, .call 0, .tryNow 0,
      .return 0, .finish, .take]
  | .windows => [.submit .wire, .take, .submit (.task true), .forget 1, .call 0, .tryNow 0,
      .return 0, .finish, .take, .finish]

def stalledLog : Log :=
  [.drove 1 true, .returned 0 [0, 1], .released 0, .called 0, .submitted 1 (.task true),
    .submitted 0 .wire]

def stalledEnd : Worker :=
  { queue := [], nextId := 2, lines := true, line := true, calls := [], answered := [1, 0] }

theorem runs_stalled (backend : Backend)
    : (Worker.machine backend).Runs anything { lines := true } stalledLog stalledEnd := by
  cases backend with
  | linux => exact Machine.runs_play (stalled .linux) rfl
  | windows => exact Machine.runs_play (stalled .windows) rfl

theorem stalled_reasserted : Reasserted stalledLog 1 0 [0, 1] := by
  exact ⟨[], [], [.released 0], [.submitted 1 (.task true), .submitted 0 .wire], rfl, by decide⟩

theorem reassert_was_waiting_stalled
    : Reasserted stalledLog 1 0 [0, 1] ∧ 1 ∈ [0, 1] := by
  apply And.intro
  . exact stalled_reasserted
  . exact reassert_was_waiting (runs_stalled .linux) stalled_reasserted

/-- The assert that waits behind a stalled request keys the radio after the release. -/
theorem release_not_final
    : (∃ log s id k waiting, (Worker.machine .linux).Runs anything { lines := true } log s
        ∧ Reasserted log id k waiting ∧ s.line = true)
      ∧ ∃ log s id k waiting, (Worker.machine .windows).Runs anything { lines := true } log s
        ∧ Reasserted log id k waiting ∧ s.line = true := by
  constructor
  . exact ⟨stalledLog, stalledEnd, 1, 0, [0, 1], runs_stalled .linux, stalled_reasserted, rfl⟩
  . exact ⟨stalledLog, stalledEnd, 1, 0, [0, 1], runs_stalled .windows, stalled_reasserted, rfl⟩

end Release

end Server
