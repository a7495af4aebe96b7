import RadioCat.Cw.Safety.Lock
import RadioCat.Trace.Machine

/-!
This module contains the raw CAT listeners beside the CW supervisor: a listener asks the supervisor
before it queues a frame, the pump queues what the supervisor wants done, and one worker executes
the queue. On Linux the listeners, the pump and the worker are tasks of one thread, so a listener
that was let through queues its frame before any of them goes on. On Windows each has a thread of
its own.
-/

namespace Rigctl.RawCat

open Trace Cw

inductive Backend where
  | linux
  | windows
  deriving DecidableEq, Repr

inductive Job where
  | raw (id : Nat)
  | cw (action : CwAction)
  | other
  deriving DecidableEq, Repr

namespace Job

def isRaw : Job → Bool
  | raw _ => true
  | _ => false

def isCw : Job → Bool
  | cw _ => true
  | _ => false

def isWrite : Job → Bool
  | cw (.setPower _) | cw (.setBreakIn _) => true
  | _ => false

end Job

/-- The action that the pump is at, and whether it waits for the reply to an exchange. -/
structure Pump where
  action : CwAction
  waiting : Bool := false
  deriving DecidableEq, Repr

structure Server where
  timed : Timed
  pump : Option Pump := none
  queue : List Job := []
  executing : Option Job := none
  -- The frames that were let through and are not queued yet.
  checked : List Nat := []

inductive Action where
  | console (c : Call) (t : Instant)
  | nextAction (t : Instant)
  | takeNotices (t : Instant)
  | exchange
  | complete (outcome : CwOutcome) (t : Instant)
  | check (id : Nat)
  | enqueue (id : Nat)
  | other
  | work
  | finish

inductive Event where
  | cw (e : Cw.Entry)
  | refused (id : Nat)
  | executed (job : Job)

/-- What the tasks of the runtime do. On Linux they take turns. -/
def Action.takesTurn : Action → Bool
  | console .. | enqueue _ => false
  | _ => true

namespace Server

variable (env : Env)

def call (c : Call) (t : Instant) (s : Server) : List Event × Server :=
  (((c.shown env t s.timed.sup).map (Entry.mk t)).map .cw,
    { s with timed := ⟨t, (c.run env t s.timed.sup).1⟩ })

/-- The reply to an exchange goes to the pump if the exchange was the pump's. -/
def replied (s : Server) : Job → Server
  | .cw _ => { s with pump := s.pump.map fun p => { p with waiting := false } }
  | _ => s

def act : Machine Server Action Event
  | s, .console c t =>
    if c.isConsole = true ∧ s.timed.now ≤ t then
      some (s.call env c t)
    else
      none
  | s, .nextAction t =>
    if s.pump = none ∧ s.timed.now ≤ t then
      let res := s.call env .nextAction t
      let action := (Cw.nextAction env s.timed.sup t).2
      some (res.1, { res.2 with pump := action.map fun action => { action } })
    else
      none
  | s, .takeNotices t =>
    if s.timed.now ≤ t then
      some (s.call env .takeNotices t)
    else
      none
  | s, .exchange =>
    match s.pump with
    | some ⟨action, false⟩ =>
      some ([], { s with pump := some ⟨action, true⟩, queue := s.queue ++ [.cw action] })
    | _ => none
  | s, .complete outcome t =>
    match s.pump with
    | some ⟨_, false⟩ =>
      if s.timed.now ≤ t then
        let res := s.call env (.complete outcome) t
        some (res.1, { res.2 with pump := none })
      else
        none
    | _ => none
  | s, .check id =>
    if s.timed.sup.blocksExternalPtt then
      some ([.refused id], s)
    else
      some ([], { s with checked := s.checked ++ [id] })
  | s, .enqueue id =>
    if id ∈ s.checked then
      some ([], { s with checked := s.checked.erase id, queue := s.queue ++ [.raw id] })
    else
      none
  | s, .other => some ([], { s with queue := s.queue ++ [.other] })
  | s, .work =>
    match s.executing, s.queue with
    | none, job :: queue => some ([.executed job], { s with executing := some job, queue })
    | _, _ => none
  | s, .finish =>
    match s.executing with
    | some job => some ([], replied { s with executing := none } job)
    | none => none

def machine (backend : Backend) : Machine Server Action Event := fun s a =>
  if a.takesTurn = true ∧ backend = .linux ∧ s.checked ≠ [] then
    none
  else
    s.act env a

end Server

def cwLog (log : List Event) : Cw.Log :=
  log.filterMap fun
    | .cw e => some e
    | _ => none

/-- Whether the radio has executed a write of an arm whose restore is not verified. -/
def window : List Event → Bool :=
  observe next false
where
  next (written : Bool) : Event → Bool
    | .executed job => job.isWrite || written
    | .cw ⟨_, .notice (.restored _)⟩ => false
    | _ => written

def executions (log : List Event) : List Job :=
  told (fun e => match e with
    | .executed job => some job
    | _ => none) log

def Silent (e : Event) (older : List Event) : Prop :=
  ∀ id, e = .executed (.raw id) → window older = false

theorem cwLog_append (entries : List Cw.Entry) (log : List Event)
    : cwLog ((entries.map .cw).reverse ++ log) = entries.reverse ++ cwLog log := by
  apply filterMap_embedded
  intro _
  rfl

theorem window_cons {log : List Event} (h : window log = true → unrestored (cwLog log) = true)
    (e : Cw.Entry) (hopen : window (.cw e :: log) = true)
    : window log = true ∧ unrestored (e :: cwLog log) = true := by
  rcases e with ⟨t, event⟩
  cases event with
  | notice n =>
    cases n with
    | restored reason => cases hopen
    | _ => exact ⟨hopen, h hopen⟩
  | issued action =>
    refine ⟨hopen, ?_⟩
    cases action with
    | setPower raw => rfl
    | setBreakIn kind => rfl
    | _ => exact h hopen
  | _ => exact ⟨hopen, h hopen⟩

/-- The supervisor never opens the window, and it closes it no later than it says that the radio is
restored. -/
theorem window_append {log : List Event} (h : window log = true → unrestored (cwLog log) = true)
    (entries : List Cw.Entry) (hopen : window ((entries.map .cw).reverse ++ log) = true)
    : window log = true ∧ unrestored (entries.reverse ++ cwLog log) = true := by
  induction entries generalizing log with
  | nil => exact ⟨hopen, h hopen⟩
  | cons e entries ih =>
    rw [List.map_cons, List.reverse_cons, List.append_assoc] at hopen
    have hnext := @ih (.cw e :: log) (fun hopen => (window_cons h e hopen).2) hopen
    refine ⟨(window_cons h e hnext.1).1, ?_⟩
    rw [List.reverse_cons, List.append_assoc]
    exact hnext.2

namespace Server

def jobs (s : Server) : List Job :=
  s.executing.toList ++ s.queue

def Pump.job : Pump → List Job
  | ⟨action, true⟩ => [.cw action]
  | ⟨_, false⟩ => []

-- On Windows, a frame that was let through is queued only as long as no write was issued since.
def tidy (backend : Backend) : Discipline Server Action
  | s, .enqueue _ =>
    backend = .linux ∨
      (s.timed.sup.snap.powerChanged || s.timed.sup.snap.breakInChanged) = false
  | _, _ => True

structure Ordered (env : Env) (capability : CwCapability) (config : CwConfig) (backend : Backend)
    (log : List Event) (s : Server) : Prop where
  run : Run env capability config (cwLog log) s.timed
  pumped : ∀ p, s.pump = some p →
    ∃ step, s.timed.sup.outstanding = some step ∧ step.action = some p.action
  pending : s.jobs.filter Job.isCw = s.pump.toList.flatMap Pump.job
  apart : s.jobs.Pairwise fun a b => a.isWrite = true → b.isRaw = false
  behind : window log = true → ∀ job ∈ s.queue, job.isRaw = false
  owed : window log = true → unrestored (cwLog log) = true
  checked : backend = .linux → s.checked ≠ [] → unrestored (cwLog log) = false
  silent : Each Silent log

namespace Ordered

variable {env : Env} {capability : CwCapability} {config : CwConfig} {backend : Backend}
  {log : List Event} {s t : Server}

theorem unrestored_of_write (h : Ordered env capability config backend log s) {job : Job}
    (hjob : job ∈ s.jobs) (hwrite : job.isWrite = true) : unrestored (cwLog log) = true := by
  have hcw : job.isCw = true := by
    cases job with
    | cw action => rfl
    | raw id => cases hwrite
    | other => cases hwrite
  have hmem : job ∈ s.pump.toList.flatMap Pump.job := by
    rw [← h.pending]
    exact List.mem_filter.mpr ⟨hjob, hcw⟩
  rcases List.mem_flatMap.mp hmem with ⟨p, hp, hpjob⟩
  rcases h.pumped p (Option.mem_toList.mp hp) with ⟨step, out, haction⟩
  rcases p with ⟨action, _ | _⟩
  . cases hpjob
  . cases List.mem_singleton.mp hpjob
    apply h.run.writing out
    cases step <;> cases haction <;> first | rfl | cases hwrite

theorem start
    : Ordered env capability config backend [] { timed := ⟨0, new capability config⟩ } where
  run := Exec.refl _
  pumped := by
    rintro _ ⟨⟩
  pending := rfl
  apart := .nil
  behind := by
    rintro ⟨⟩
  owed := by
    rintro ⟨⟩
  checked := by
    intro _ hchecked
    exact absurd rfl hchecked
  silent := trivial

theorem logged (h : Ordered env capability config backend log s) {c : Call} {time : Instant}
    (le : s.timed.now ≤ time)
    : Run env capability config (cwLog ((s.call env c time).1.reverse ++ log))
      (s.call env c time).2.timed := by
  rw [call, cwLog_append]
  exact h.run.tail (.call c s.timed time le)

theorem call (h : Ordered env capability config backend log s) {c : Call} {time : Instant}
    (le : s.timed.now ≤ time) {pump : Option Pump}
    (hpumped : ∀ p, pump = some p →
      ∃ step, (c.run env time s.timed.sup).1.outstanding = some step ∧
        step.action = some p.action)
    (hpending : s.pump.toList.flatMap Pump.job = pump.toList.flatMap Pump.job)
    (hchecked : backend = .linux → s.checked ≠ [] → c.isConsole = true)
    : Ordered env capability config backend ((s.call env c time).1.reverse ++ log)
      { (s.call env c time).2 with pump } where
  run := h.logged le
  pumped := hpumped
  pending := h.pending.trans hpending
  apart := h.apart
  behind := by
    intro hopen
    exact h.behind (window_append h.owed _ hopen).1
  owed := by
    intro hopen
    rw [Server.call, cwLog_append]
    exact (window_append h.owed _ hopen).2
  checked := by
    intro hlinux hsome
    rw [Server.call, cwLog_append]
    apply unrestored_of_not_issued
    . exact Call.not_issued (hchecked hlinux hsome)
    . exact h.checked hlinux hsome
  silent := by
    apply h.silent.append
    intro e he _ id heq
    rcases List.mem_map.mp he with ⟨_, _, rfl⟩
    cases heq

theorem queue (h : Ordered env capability config backend log s) {job : Job} {pump : Option Pump}
    {checked : List Nat} (hraw : job.isRaw = true → unrestored (cwLog log) = false)
    (hpumped : ∀ p, pump = some p →
      ∃ step, s.timed.sup.outstanding = some step ∧ step.action = some p.action)
    (hpending : s.pump.toList.flatMap Pump.job ++ [job].filter Job.isCw
      = pump.toList.flatMap Pump.job)
    (hchecked : backend = .linux → checked ≠ [] → s.checked ≠ [])
    : Ordered env capability config backend log
      { s with queue := s.queue ++ [job], pump, checked } := by
  have hjobs : jobs { s with queue := s.queue ++ [job], pump, checked } = s.jobs ++ [job] := by
    simp only [jobs, List.append_assoc]
  refine
    { run := h.run
      pumped := hpumped
      pending := ?_
      apart := ?_
      behind := ?_
      owed := h.owed
      checked := fun hlinux hsome => h.checked hlinux (hchecked hlinux hsome)
      silent := h.silent }
  . rw [hjobs, List.filter_append, h.pending, hpending]
  . rw [hjobs, List.pairwise_append]
    refine ⟨h.apart, List.pairwise_singleton _ _, ?_⟩
    intro older holder newer hnewer hwrite
    cases List.mem_singleton.mp hnewer
    by_contra hnot
    have hclean := hraw (by simpa using hnot)
    rw [h.unrestored_of_write holder hwrite] at hclean
    cases hclean
  . intro hopen older holder
    rcases List.mem_append.mp holder with hold | hnew
    . exact h.behind hopen older hold
    . cases List.mem_singleton.mp hnew
      by_contra hnot
      have hclean := hraw (by simpa using hnot)
      rw [h.owed hopen] at hclean
      cases hclean

theorem check (h : Ordered env capability config backend log s) (id : Nat)
    (hfree : s.timed.sup.blocksExternalPtt = false)
    : Ordered env capability config backend log { s with checked := s.checked ++ [id] } := by
  exact { h with checked := fun _ _ => h.run.unblocked hfree }

theorem work (h : Ordered env capability config backend log s) {job : Job} {queue : List Job}
    (hidle : s.executing = none) (hqueue : s.queue = job :: queue)
    : Ordered env capability config backend (.executed job :: log)
      { s with executing := some job, queue } := by
  have hjobs : jobs { s with executing := some job, queue } = s.jobs := by
    simp [jobs, hidle, hqueue]
  have hlist : s.jobs = job :: queue := by
    simp [jobs, hidle, hqueue]
  have hopen : window (.executed job :: log) = true → job.isWrite = true ∨ window log = true := by
    intro hopen
    exact Bool.or_eq_true_iff.mp hopen
  refine
    { run := h.run
      pumped := h.pumped
      pending := hjobs ▸ h.pending
      apart := hjobs ▸ h.apart
      behind := ?_
      owed := ?_
      checked := h.checked
      silent := ⟨?_, h.silent⟩ }
  . intro hwindow older holder
    rcases hopen hwindow with hwrite | hbefore
    . have hapart := h.apart
      rw [hlist] at hapart
      exact (List.pairwise_cons.mp hapart).1 older holder hwrite
    . apply h.behind hbefore
      rw [hqueue]
      exact .tail _ holder
  . intro hwindow
    rcases hopen hwindow with hwrite | hbefore
    . refine h.unrestored_of_write ?_ hwrite
      rw [hlist]
      apply List.Mem.head
    . exact h.owed hbefore
  . rintro id ⟨⟩
    by_contra hnot
    have hraw := h.behind (by simpa using hnot) (.raw id) (by rw [hqueue]; exact .head _)
    cases hraw

theorem finish (h : Ordered env capability config backend log s) {job : Job}
    (hbusy : s.executing = some job)
    : Ordered env capability config backend log (replied { s with executing := none } job) := by
  have hjobs : s.jobs = job :: s.queue := by
    simp [jobs, hbusy]
  have hpending := h.pending
  have hapart := h.apart
  rw [hjobs] at hpending hapart
  have hleft : ∀ pump, s.queue.filter Job.isCw = pump.toList.flatMap Pump.job →
      (∀ p, pump = some p →
        ∃ step, s.timed.sup.outstanding = some step ∧ step.action = some p.action) →
      Ordered env capability config backend log { s with executing := none, pump } := by
    intro pump hpending hpumped
    exact { h with pumped := hpumped, pending := hpending, apart := hapart.of_cons }
  cases job with
  | raw id => exact hleft s.pump hpending h.pumped
  | other => exact hleft s.pump hpending h.pumped
  | cw action =>
    -- The pump was waiting for this one, and has no other in the queue.
    rcases hpump : s.pump with _ | ⟨action', _ | _⟩
    . rw [hpump] at hpending
      cases hpending
    . rw [hpump] at hpending
      cases hpending
    . rw [hpump] at hpending
      simp only [replied, Option.map_some]
      apply hleft
      . exact (List.cons.inj hpending).2
      . rintro _ ⟨⟩
        exact h.pumped ⟨action', true⟩ hpump

theorem refuse (h : Ordered env capability config backend log s) (id : Nat)
    : Ordered env capability config backend (.refused id :: log) s :=
  { run := h.run, pumped := h.pumped, pending := h.pending, apart := h.apart, behind := h.behind,
    owed := h.owed, checked := h.checked,
    silent := ⟨by rintro _ ⟨⟩, h.silent⟩ }

theorem unrestored_of_tidy (h : Ordered env capability config backend log s) {id : Nat}
    (hid : id ∈ s.checked) (hok : tidy backend s (.enqueue id))
    : unrestored (cwLog log) = false := by
  rcases hok with hlinux | hunwritten
  . exact h.checked hlinux (List.ne_nil_of_mem hid)
  . rw [h.run.unrestored]
    exact hunwritten

theorem act (h : Ordered env capability config backend log s) {a : Action} {evs : List Event}
    (hok : tidy backend s a)
    (hturn : backend = .linux → s.checked ≠ [] → a.takesTurn = false)
    (taken : Server.act env s a = some (evs, t))
    : Ordered env capability config backend (evs.reverse ++ log) t := by
  revert taken
  fun_cases Server.act env s a
  case case1 c time hcall =>
    rintro ⟨⟩
    apply h.call hcall.2 _ rfl (fun _ _ => hcall.1)
    rw [Call.run_outstanding hcall.1]
    exact h.pumped
  case case3 time hidle _ action =>
    rintro ⟨⟩
    apply h.call hidle.2
    . intro p hp
      rcases Option.map_eq_some_iff.mp hp with ⟨_, haction, rfl⟩
      exact nextAction_outstanding haction
    . rw [hidle.1]
      clear_value action
      cases action <;> rfl
    . intro hlinux hsome
      cases hturn hlinux hsome
  case case5 time le =>
    rintro ⟨⟩
    apply h.call le h.pumped rfl
    intro hlinux hsome
    cases hturn hlinux hsome
  case case7 action hpump =>
    rintro ⟨⟩
    apply h.queue
    . rintro ⟨⟩
    . rintro _ ⟨⟩
      exact h.pumped ⟨action, false⟩ hpump
    . rw [hpump]
      rfl
    . intro _ hsome
      exact hsome
  case case9 outcome time action hpump le _ =>
    rintro ⟨⟩
    apply h.call le
    . rintro _ ⟨⟩
    . rw [hpump]
      rfl
    . intro hlinux hsome
      cases hturn hlinux hsome
  case case12 id _ =>
    rintro ⟨⟩
    exact h.refuse id
  case case13 id hfree =>
    rintro ⟨⟩
    exact h.check id (by simpa using hfree)
  case case14 id hid =>
    rintro ⟨⟩
    apply h.queue (fun _ => h.unrestored_of_tidy hid hok) h.pumped (List.append_nil _)
    intro _ _
    exact List.ne_nil_of_mem hid
  case case16 =>
    rintro ⟨⟩
    apply h.queue _ h.pumped (List.append_nil _)
    . intro _ hsome
      exact hsome
    . rintro ⟨⟩
  case case17 job queue hqueue hidle =>
    rintro ⟨⟩
    exact h.work hidle hqueue
  case case19 job hbusy =>
    rintro ⟨⟩
    exact h.finish hbusy
  all_goals rintro ⟨⟩

theorem step (h : Ordered env capability config backend log s) {a : Action} {evs : List Event}
    (hok : tidy backend s a) (taken : machine env backend s a = some (evs, t))
    : Ordered env capability config backend (evs.reverse ++ log) t := by
  unfold machine at taken
  split at taken
  next => cases taken
  next hturn =>
    apply h.act hok _ taken
    intro hlinux hsome
    by_contra hnot
    exact hturn ⟨by simpa using hnot, hlinux, hsome⟩

end Ordered

instance (backend : Backend) (s : Server) : ∀ a, Decidable (tidy backend s a)
  | .enqueue _ => inferInstanceAs (Decidable (_ ∨ _))
  | .console .. | .nextAction _ | .takeNotices _ | .exchange | .complete .. | .check _ | .other
  | .work | .finish => isTrue trivial

/-- Raw CAT is silent from the first write of an arm to its restore, in every run in which no frame
on Windows is queued after a write that was issued since it was let through. -/
theorem raw_silent {env : Env} {capability : CwCapability} {config : CwConfig} {backend : Backend}
    {log : List Event} {t : Server}
    (h : Machine.Runs (machine env backend) (tidy backend)
      { timed := ⟨0, new capability config⟩ } log t)
    : Each Silent log := by
  have hordered : Ordered env capability config backend log t := by
    apply Machine.Runs.invariant (Ordered env capability config backend) Ordered.start _ h
    intro _ _ _ _ _ hI hok taken
    exact hI.step hok taken
  exact hordered.silent

-- The exchange that the pump makes for an action, and its outcome.
def exchanged (outcome : CwOutcome) : List Action :=
  [.nextAction 0, .exchange, .work, .finish, .complete outcome 0]

def arm : List Action :=
  [.check 0, .console (.arm 1 ['N', '0', 'C', 'A', 'L', 'L'] none) 0]

def reads : List Action :=
  exchanged (.status true false (some 20)) ++ exchanged (.power 100)

theorem runs_jobs (backend : Backend) (jobs : List Job) (script : List Action)
    (h : (Machine.play (machine Bench.env backend) (tidy backend)
      { timed := ⟨0, new Bench.kenwood {}⟩ } script).map (fun r => executions r.1) = some jobs)
    : ∃ log t, Machine.Runs (machine Bench.env backend) (tidy backend)
        { timed := ⟨0, new Bench.kenwood {}⟩ } log t ∧ executions log = jobs := by
  exact Machine.exists_runs_play script h

-- A frame that was let through just before a console armed is executed before the first write; on
-- Windows it may come after the reads.
theorem raw_silent_arming
    : (∃ log t, Machine.Runs (machine Bench.env .linux) (tidy .linux)
          { timed := ⟨0, new Bench.kenwood {}⟩ } log t ∧
        executions log = [.raw 0, .cw .readStatus, .cw .readPower, .cw (.setPower 5)] ∧
        Each Silent log) ∧
      ∃ log t, Machine.Runs (machine Bench.env .windows) (tidy .windows)
          { timed := ⟨0, new Bench.kenwood {}⟩ } log t ∧
        executions log = [.cw .readStatus, .cw .readPower, .raw 0, .cw (.setPower 5)] ∧
        Each Silent log := by
  rcases runs_jobs .linux [.raw 0, .cw .readStatus, .cw .readPower, .cw (.setPower 5)]
    (arm ++ [.enqueue 0, .work, .finish] ++ reads ++ [.nextAction 0, .exchange, .work, .check 1])
    (by decide +kernel) with ⟨log, t, hlinux, hlog⟩
  rcases runs_jobs .windows [.cw .readStatus, .cw .readPower, .raw 0, .cw (.setPower 5)]
    (arm ++ reads ++ [.enqueue 0, .work, .finish, .nextAction 0, .exchange, .work, .check 1])
    (by decide +kernel) with ⟨log', t', hwindows, hlog'⟩
  exact ⟨⟨log, t, hlinux, hlog, raw_silent hlinux⟩, log', t', hwindows, hlog', raw_silent hwindows⟩

/-- On Windows the frame can be queued behind the write, and reach the radio while CW is armed. -/
theorem raw_behind_write
    : ∃ older t, Machine.Runs (machine Bench.env .windows) anything
        { timed := ⟨0, new Bench.kenwood {}⟩ } (.executed (.raw 0) :: older) t ∧
      executions older = [.cw .readStatus, .cw .readPower, .cw (.setPower 5)] ∧
      ¬ Each Silent (.executed (.raw 0) :: older) := by
  have hplay : (Machine.play (machine Bench.env .windows) anything
      { timed := ⟨0, new Bench.kenwood {}⟩ }
      (arm ++ reads ++ [.nextAction 0, .exchange, .work, .enqueue 0, .finish])).map
        (fun r => (executions r.1, window r.1, r.2.executing, r.2.queue))
      = some ([.cw .readStatus, .cw .readPower, .cw (.setPower 5)], true, none, [.raw 0]) := by
    decide +kernel
  rcases Machine.exists_runs_play _ hplay with ⟨older, s, hrun, hlog⟩
  simp only [Prod.mk.injEq] at hlog
  rcases hlog with ⟨hexecuted, hwindow, hidle, hqueue⟩
  have hstep : Machine.Step (machine Bench.env .windows) anything s [.executed (.raw 0)]
      { s with executing := some (.raw 0), queue := [] } := by
    apply Machine.Step.act .work trivial
    simp [machine, act, hidle, hqueue]
  refine ⟨older, _, hrun.tail hstep, hexecuted, ?_⟩
  rintro ⟨hsilent, _⟩
  rw [hsilent 0 rfl] at hwindow
  cases hwindow

end Server

end Rigctl.RawCat
