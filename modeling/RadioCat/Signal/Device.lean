import RadioCat.Trace.Machine
import RadioCat.Trace.Newest

/-!
This module contains the hand-off of sample buffers from the thread that reads a dongle to the
consumer, one lock, unlock, atomic operation, notification and wait at a time.
-/

namespace Signal

open Trace

namespace RtlSdrDevice

variable {β : Type}

inductive Thread where
  | worker
  | consumer
  deriving DecidableEq, Repr

/-- What the worker does next. -/
inductive Worker (β : Type) where
  -- `read_sync`
  | reading
  | locking (samples : β)
  -- `dropped.fetch_add`, if the slot was held
  | counting (samples : β)
  | storing (samples : β)
  -- `notify_one`
  | notifying
  | unlocking
  -- `running.store`
  | stopping
  -- `notify_all`
  | notifyingAll
  | finished
  deriving DecidableEq, Repr

inductive Result (β : Type) where
  | ok (buffer : β)
  | stopped
  deriving DecidableEq, Repr

/-- What the consumer does next. -/
inductive Consumer (β : Type) where
  | idle
  | locking
  -- `slot.take`
  | looking
  -- `running.load`
  | loading
  -- `ready.wait`, which gives the lock up and falls asleep in one step
  | waiting
  | asleep
  | returning (result : Result β)
  deriving DecidableEq, Repr

structure State (β : Type) where
  worker : Worker β
  consumer : Consumer β
  lock : Option Thread
  buffer : Option β
  running : Bool
  dropped : Nat
  deriving DecidableEq, Repr

inductive Event (β : Type) where
  | read (samples : β)
  | deposited (samples : β)
  | returned (result : Result β)
  deriving DecidableEq, Repr

/-- The outcome of a read of the device comes from outside, with `none` for an error. A condition
variable may also wake a sleeper that nobody notified. -/
inductive Action (β : Type) where
  | device (outcome : Option β)
  | work
  | read
  | consume
  | wake
  deriving DecidableEq, Repr

def opened : State β where
  worker := .reading
  consumer := .idle
  lock := none
  buffer := none
  running := true
  dropped := 0

/-- There is one consumer at most, so that `notify_one` and `notify_all` are the same. -/
def Consumer.notified : Consumer β → Consumer β
  | .asleep => .locking
  | c => c

def State.work (s : State β) : Option (List (Event β) × State β) :=
  match s.worker with
  | .locking samples =>
    if s.lock = none then
      some ([],
        { s with
          lock := some .worker
          worker := if s.buffer.isSome then .counting samples else .storing samples })
    else
      none
  | .counting samples =>
    some ([], { s with dropped := s.dropped + 1, worker := .storing samples })
  | .storing samples =>
    some ([.deposited samples], { s with buffer := some samples, worker := .notifying })
  | .notifying => some ([], { s with consumer := s.consumer.notified, worker := .unlocking })
  | .unlocking => some ([], { s with lock := none, worker := .reading })
  | .stopping => some ([], { s with running := false, worker := .notifyingAll })
  | .notifyingAll => some ([], { s with consumer := s.consumer.notified, worker := .finished })
  | .reading | .finished => none

def State.consume (s : State β) : Option (List (Event β) × State β) :=
  match s.consumer with
  | .locking =>
    if s.lock = none then
      some ([], { s with lock := some .consumer, consumer := .looking })
    else
      none
  | .looking =>
    match s.buffer with
    | some buffer => some ([], { s with buffer := none, consumer := .returning (.ok buffer) })
    | none => some ([], { s with consumer := .loading })
  | .loading =>
    some ([], { s with consumer := if s.running then .waiting else .returning .stopped })
  | .waiting => some ([], { s with lock := none, consumer := .asleep })
  | .returning result =>
    some ([.returned result], { s with lock := none, consumer := .idle })
  | .idle | .asleep => none

def handOff : Machine (State β) (Action β) (Event β) := fun s a =>
  match a, s.worker, s.consumer with
  | .device (some samples), .reading, _ =>
    some ([.read samples], { s with worker := .locking samples })
  | .device none, .reading, _ => some ([], { s with worker := .stopping })
  | .work, _, _ => s.work
  | .read, _, .idle => some ([], { s with consumer := .locking })
  | .consume, _, _ => s.consume
  | .wake, _, .asleep => some ([], { s with consumer := .locking })
  | _, _, _ => none

def Event.samples : Event β → Option β
  | .read samples => some samples
  | _ => none

def Event.depositedSamples : Event β → Option β
  | .deposited samples => some samples
  | _ => none

def Event.returnedBuffer : Event β → Option β
  | .returned (.ok buffer) => some buffer
  | _ => none

def read (log : List (Event β)) : List β :=
  told Event.samples log

def deposited (log : List (Event β)) : List β :=
  told Event.depositedSamples log

def returned (log : List (Event β)) : List β :=
  told Event.returnedBuffer log

section

variable (e : Event β) (log : List (Event β))

@[simp]
theorem read_cons : read (e :: log) = read log ++ e.samples.toList := told_cons _ e log

@[simp]
theorem deposited_cons : deposited (e :: log) = deposited log ++ e.depositedSamples.toList :=
  told_cons _ e log

@[simp]
theorem returned_cons : returned (e :: log) = returned log ++ e.returnedBuffer.toList :=
  told_cons _ e log

end

/-- The laws about the report of the end. -/
structure Reports (log : List (Event β)) : Prop where
  drained : Each (fun e older => e = .returned .stopped →
    (returned older).getLast? = (deposited older).getLast?) log
  final : Each (fun e older => ∀ samples, e = .deposited samples →
    .returned .stopped ∉ older) log

/-- What is promised of every run, of its log and of the state it leads to. -/
structure Lawful (log : List (Event β)) (s : State β) : Prop extends Reports log where
  ordered : (returned log).Sublist (read log)
  conserved : s.lock = none →
    (deposited log).length = (returned log).length + s.dropped + s.buffer.toList.length

def Stuck (s : State β) : Prop :=
  s.worker = .finished ∧ s.consumer = .asleep

/-- The last notification does not come while the consumer is between its look at the flag and its
wait. -/
def unhurried : Discipline (State β) (Action β) := fun s a =>
  a = .work → s.worker = .notifyingAll → s.consumer ≠ .waiting

def Worker.holds : Worker β → Bool
  | .counting _ | .storing _ | .notifying | .unlocking => true
  | _ => false

def Worker.inHand : Worker β → List β
  | .locking samples | .counting samples | .storing samples => [samples]
  | _ => []

def Worker.isDone : Worker β → Bool
  | .notifyingAll | .finished => true
  | _ => false

def Consumer.holds : Consumer β → Bool
  | .looking | .loading | .waiting | .returning _ => true
  | _ => false

def Consumer.inHand : Consumer β → List β
  | .returning (.ok buffer) => [buffer]
  | _ => []

/-- The consumer has seen that the slot is empty, and has not given up the lock since. -/
def Consumer.sawNone : Consumer β → Bool
  | .loading | .waiting | .returning .stopped => true
  | _ => false

/-- What the worker has counted as dropped and not yet overwritten. -/
def Worker.counted : Worker β → Option β → Nat
  | .storing _, buffer => buffer.toList.length
  | _, _ => 0

structure Control (s : State β) : Prop where
  worker : s.worker.holds = true ↔ s.lock = some .worker
  consumer : s.consumer.holds = true ↔ s.lock = some .consumer
  running : s.running = false ↔ s.worker.isDone = true
  counting : ∀ samples, s.worker = .counting samples → s.buffer.isSome
  none : s.consumer.sawNone = true → s.buffer = none
  stopped : s.consumer = .returning .stopped → s.running = false

/-- All that a step can be. -/
inductive Move (s : State β) : Action β → List (Event β) → State β → Prop where
  | reads {samples : β} (h : s.worker = .reading)
    : Move s (.device (some samples)) [.read samples] { s with worker := .locking samples }
  | fails (h : s.worker = .reading) : Move s (.device none) [] { s with worker := .stopping }
  | locks {samples : β} (h : s.worker = .locking samples) (free : s.lock = none)
    : Move s .work []
        { s with
          lock := some .worker
          worker := if s.buffer.isSome then .counting samples else .storing samples }
  | counts {samples : β} (h : s.worker = .counting samples)
    : Move s .work [] { s with dropped := s.dropped + 1, worker := .storing samples }
  | stores {samples : β} (h : s.worker = .storing samples)
    : Move s .work [.deposited samples] { s with buffer := some samples, worker := .notifying }
  | notifies (h : s.worker = .notifying)
    : Move s .work [] { s with consumer := s.consumer.notified, worker := .unlocking }
  | unlocks (h : s.worker = .unlocking)
    : Move s .work [] { s with lock := none, worker := .reading }
  | stops (h : s.worker = .stopping)
    : Move s .work [] { s with running := false, worker := .notifyingAll }
  | notifiesAll (h : s.worker = .notifyingAll)
    : Move s .work [] { s with consumer := s.consumer.notified, worker := .finished }
  | calls (h : s.consumer = .idle) : Move s .read [] { s with consumer := .locking }
  | acquires (h : s.consumer = .locking) (free : s.lock = none)
    : Move s .consume [] { s with lock := some .consumer, consumer := .looking }
  | takes {buffer : β} (h : s.consumer = .looking) (held : s.buffer = some buffer)
    : Move s .consume [] { s with buffer := none, consumer := .returning (.ok buffer) }
  | misses (h : s.consumer = .looking) (empty : s.buffer = none)
    : Move s .consume [] { s with consumer := .loading }
  | loads (h : s.consumer = .loading)
    : Move s .consume []
        { s with consumer := if s.running then .waiting else .returning .stopped }
  | sleeps (h : s.consumer = .waiting)
    : Move s .consume [] { s with lock := none, consumer := .asleep }
  | returns {result : Result β} (h : s.consumer = .returning result)
    : Move s .consume [.returned result] { s with lock := none, consumer := .idle }
  | wakes (h : s.consumer = .asleep) : Move s .wake [] { s with consumer := .locking }

section

variable {log evs : List (Event β)} {s t : State β} {a : Action β}

theorem work_move (h : s.work = some (evs, t)) : Move s .work evs t := by
  unfold State.work at h
  split at h
  next samples hworker =>
    split at h
    next hfree => cases h; exact .locks hworker hfree
    next => cases h
  next hworker => cases h; exact .counts hworker
  next hworker => cases h; exact .stores hworker
  next hworker => cases h; exact .notifies hworker
  next hworker => cases h; exact .unlocks hworker
  next hworker => cases h; exact .stops hworker
  next hworker => cases h; exact .notifiesAll hworker
  next => cases h
  next => cases h

theorem consume_move (h : s.consume = some (evs, t)) : Move s .consume evs t := by
  unfold State.consume at h
  split at h
  next hconsumer =>
    split at h
    next hfree => cases h; exact .acquires hconsumer hfree
    next => cases h
  next hconsumer =>
    split at h
    next hbuffer => cases h; exact .takes hconsumer hbuffer
    next hbuffer => cases h; exact .misses hconsumer hbuffer
  next hconsumer => cases h; exact .loads hconsumer
  next hconsumer => cases h; exact .sleeps hconsumer
  next hconsumer => cases h; exact .returns hconsumer
  next => cases h
  next => cases h

theorem handOff_move (h : handOff s a = some (evs, t)) : Move s a evs t := by
  unfold handOff at h
  split at h
  next hworker => cases h; exact .reads hworker
  next hworker => cases h; exact .fails hworker
  next => exact work_move h
  next hconsumer => cases h; exact .calls hconsumer
  next => exact consume_move h
  next hconsumer => cases h; exact .wakes hconsumer
  next => cases h

@[grind =]
theorem holds_notified (c : Consumer β) : c.notified.holds = c.holds := by
  cases c <;> rfl

@[grind =]
theorem sawNone_notified (c : Consumer β) : c.notified.sawNone = c.sawNone := by
  cases c <;> rfl

@[grind =]
theorem notified_eq_returning (c : Consumer β) (result : Result β)
    : c.notified = .returning result ↔ c = .returning result := by
  cases c <;> simp [Consumer.notified]

@[grind →]
theorem holds_of_sawNone (c : Consumer β) (h : c.sawNone = true) : c.holds = true := by
  cases c <;> first | rfl | cases h

theorem Control.step_holds (h : Control s) (hmove : Move s a evs t)
    : (t.worker.holds = true ↔ t.lock = some .worker) ∧
      (t.consumer.holds = true ↔ t.lock = some .consumer) := by
  have hworker := h.worker
  have hconsumer := h.consumer
  clear h
  cases hmove <;> constructor
  all_goals grind [Worker.holds, Consumer.holds]

theorem Control.step_running (h : Control s) (hmove : Move s a evs t)
    : t.running = false ↔ t.worker.isDone = true := by
  have hrunning := h.running
  clear h
  cases hmove
  all_goals grind [Worker.isDone]

theorem Control.step_counting (h : Control s) (hmove : Move s a evs t)
    : ∀ samples, t.worker = .counting samples → t.buffer.isSome := by
  have hworker := h.worker
  have hconsumer := h.consumer
  have hcounting := h.counting
  clear h
  cases hmove
  all_goals grind [Worker.holds, Consumer.holds]

theorem Control.step_none (h : Control s) (hmove : Move s a evs t)
    : t.consumer.sawNone = true → t.buffer = .none := by
  intro hsaw
  cases hmove with
  | stores hstoring =>
    -- the worker has the lock, so that the consumer has seen nothing
    have hlock := h.worker.mp (by rw [hstoring]; rfl)
    have hholds := h.consumer.mp (holds_of_sawNone _ hsaw)
    rw [hlock] at hholds
    cases hholds
  | notifies | notifiesAll => exact h.none (sawNone_notified s.consumer ▸ hsaw)
  | misses _ hempty => exact hempty
  | loads hloading => exact h.none (by rw [hloading]; rfl)
  | calls | acquires | takes | sleeps | returns | wakes => cases hsaw
  | _ => exact h.none hsaw

theorem Control.step_stopped (h : Control s) (hmove : Move s a evs t)
    : t.consumer = .returning .stopped → t.running = false := by
  have hstopped := h.stopped
  clear h
  cases hmove
  all_goals grind

theorem Control.step (h : Control s) (hmove : Move s a evs t) : Control t where
  worker := (h.step_holds hmove).1
  consumer := (h.step_holds hmove).2
  running := h.step_running hmove
  counting := h.step_counting hmove
  none := h.step_none hmove
  stopped := h.step_stopped hmove

structure Books (log : List (Event β)) (s : State β) : Prop where
  reads : read log = deposited log ++ s.worker.inHand
  accounts : ∃ dropped, s.dropped = dropped + s.worker.counted s.buffer ∧
    Accounts (deposited log) (returned log ++ s.consumer.inHand) s.buffer dropped
  stopped : .returned .stopped ∈ log → s.running = false

theorem Books.quiet (h : Books log s) (hworker : t.worker.inHand = s.worker.inHand)
    (hconsumer : t.consumer.inHand = s.consumer.inHand) (hbuffer : t.buffer = s.buffer)
    (hdropped : t.dropped + s.worker.counted s.buffer = s.dropped + t.worker.counted s.buffer)
    (hrunning : s.running = false → t.running = false)
    : Books log t := by
  rcases h.accounts with ⟨dropped, hcount, haccounts⟩
  refine ⟨?_, ⟨dropped, ?_, ?_⟩, ?_⟩
  . rw [hworker]
    exact h.reads
  . rw [hbuffer]
    omega
  . rw [hconsumer, hbuffer]
    exact haccounts
  . intro hmem
    exact hrunning (h.stopped hmem)

theorem Books.read {samples : β} (h : Books log s) (hworker : s.worker = .reading)
    : Books (.read samples :: log) { s with worker := .locking samples } := by
  rcases h.accounts with ⟨dropped, hcount, haccounts⟩
  have hreads := h.reads
  rw [hworker] at hreads hcount
  refine ⟨?_, ⟨dropped, hcount, ?_⟩, ?_⟩
  . simpa [Event.samples, Event.depositedSamples, Worker.inHand] using hreads
  . simpa [Event.depositedSamples, Event.returnedBuffer] using haccounts
  . simpa using h.stopped

theorem Books.store {samples : β} (h : Books log s) (hworker : s.worker = .storing samples)
    : Books (.deposited samples :: log)
        { s with buffer := some samples, worker := .notifying } := by
  rcases h.accounts with ⟨dropped, hcount, haccounts⟩
  have hreads := h.reads
  rw [hworker] at hreads hcount
  refine ⟨?_, ⟨s.dropped, rfl, ?_⟩, ?_⟩
  . simpa [Event.samples, Event.depositedSamples, Worker.inHand] using hreads
  . rw [hcount, Worker.counted]
    simpa [Event.depositedSamples, Event.returnedBuffer] using haccounts.deposit samples
  . simpa using h.stopped

theorem counted_of_not_holds {w : Worker β} (h : w.holds = false) (buffer : Option β)
    : w.counted buffer = 0 := by
  cases w with
  | storing => cases h
  | _ => rfl

theorem Books.take {buffer : β} (h : Books log s) (hlooking : s.consumer = .looking)
    (hheld : s.buffer = some buffer) (hholds : s.worker.holds = false)
    : Books log { s with buffer := none, consumer := .returning (.ok buffer) } := by
  rcases h.accounts with ⟨dropped, hcount, haccounts⟩
  rw [counted_of_not_holds hholds] at hcount
  rw [hlooking, hheld] at haccounts
  refine ⟨h.reads, ⟨dropped, ?_, ?_⟩, h.stopped⟩
  . rw [counted_of_not_holds hholds]
    exact hcount
  . simpa [Consumer.inHand] using haccounts.take

theorem Books.return {result : Result β} (h : Books log s)
    (hreturning : s.consumer = .returning result)
    (hstopped : result = .stopped → s.running = false)
    : Books (.returned result :: log) { s with lock := none, consumer := .idle } := by
  rcases h.accounts with ⟨dropped, hcount, haccounts⟩
  have htaken : (Event.returned result).returnedBuffer.toList = s.consumer.inHand := by
    rw [hreturning]
    cases result <;> rfl
  refine ⟨?_, ⟨dropped, hcount, ?_⟩, ?_⟩
  . simpa [Event.samples, Event.depositedSamples] using h.reads
  . rw [returned_cons, htaken]
    simpa [Event.depositedSamples, Consumer.inHand] using haccounts
  . intro hmem
    rw [List.mem_cons, Event.returned.injEq] at hmem
    rcases hmem with hresult | hlog
    . exact hstopped hresult.symm
    . exact h.stopped hlog

theorem inHand_notified (c : Consumer β) : c.notified.inHand = c.inHand := by
  cases c <;> rfl

theorem Control.worker_waits (h : Control s) (hholds : s.consumer.holds = true)
    : s.worker.holds = false := by
  rw [← Bool.not_eq_true, h.worker, h.consumer.mp hholds]
  nofun

theorem Books.step (h : Books log s) (hcontrol : Control s) (hmove : Move s a evs t)
    : Books (evs.reverse ++ log) t := by
  cases hmove with
  | reads hworker => exact h.read hworker
  | fails hworker => exact h.quiet (by rw [hworker]; rfl) rfl rfl (by rw [hworker]; rfl) id
  | locks hworker hfree =>
    refine h.quiet ?_ rfl rfl ?_ id
    . rw [hworker]
      cases s.buffer <;> rfl
    . rw [hworker]
      cases s.buffer <;> rfl
  | counts hworker =>
    refine h.quiet (by rw [hworker]; rfl) rfl rfl ?_ id
    rcases Option.isSome_iff_exists.mp (hcontrol.counting _ hworker) with ⟨held, hheld⟩
    rw [hworker, hheld]
    rfl
  | stores hworker => exact h.store hworker
  | notifies hworker =>
    exact h.quiet (by rw [hworker]; rfl) (inHand_notified _) rfl (by rw [hworker]; rfl) id
  | unlocks hworker => exact h.quiet (by rw [hworker]; rfl) rfl rfl (by rw [hworker]; rfl) id
  | stops hworker =>
    exact h.quiet (by rw [hworker]; rfl) rfl rfl (by rw [hworker]; rfl) fun _ => rfl
  | notifiesAll hworker =>
    exact h.quiet (by rw [hworker]; rfl) (inHand_notified _) rfl (by rw [hworker]; rfl) id
  | calls hconsumer => exact h.quiet rfl (by rw [hconsumer]; rfl) rfl rfl id
  | acquires hconsumer hfree => exact h.quiet rfl (by rw [hconsumer]; rfl) rfl rfl id
  | takes hconsumer hheld =>
    exact h.take hconsumer hheld (hcontrol.worker_waits (by rw [hconsumer]; rfl))
  | misses hconsumer hempty => exact h.quiet rfl (by rw [hconsumer]; rfl) rfl rfl id
  | loads hconsumer =>
    refine h.quiet rfl ?_ rfl rfl id
    rw [hconsumer]
    cases s.running <;> rfl
  | sleeps hconsumer => exact h.quiet rfl (by rw [hconsumer]; rfl) rfl rfl id
  | returns hconsumer =>
    apply h.return hconsumer
    rintro rfl
    exact hcontrol.stopped hconsumer
  | wakes hconsumer => exact h.quiet rfl (by rw [hconsumer]; rfl) rfl rfl id

theorem Move.events (hmove : Move s a evs t)
    : evs = [] ∨ (∃ samples, evs = [.read samples]) ∨
      (∃ samples, evs = [.deposited samples] ∧ s.worker = .storing samples) ∨
      ∃ result, evs = [.returned result] ∧ s.consumer = .returning result := by
  cases hmove with
  | @reads samples => exact .inr (.inl ⟨samples, rfl⟩)
  | @stores samples hworker => exact .inr (.inr (.inl ⟨samples, rfl, hworker⟩))
  | @returns result hconsumer => exact .inr (.inr (.inr ⟨result, rfl, hconsumer⟩))
  | _ => exact .inl rfl

theorem Books.drained (h : Books log s) (hcontrol : Control s)
    (hstopped : s.consumer = .returning .stopped)
    : (returned log).getLast? = (deposited log).getLast? := by
  rcases h.accounts with ⟨dropped, -, haccounts⟩
  rw [hcontrol.none (by rw [hstopped]; rfl), hstopped] at haccounts
  simpa [Consumer.inHand] using haccounts.last_returned

theorem Books.reports (h : Books log s) (hcontrol : Control s) (hreports : Reports log)
    (hmove : Move s a evs t) : Reports (evs.reverse ++ log) := by
  rcases hmove.events with rfl | ⟨samples, rfl⟩ | ⟨samples, rfl, hstoring⟩ |
    ⟨result, rfl, hreturning⟩
  . exact hreports
  . exact ⟨⟨nofun, hreports.drained⟩, ⟨nofun, hreports.final⟩⟩
  . refine ⟨⟨nofun, hreports.drained⟩, ⟨?_, hreports.final⟩⟩
    intro samples' _ hmem
    have hdone := hcontrol.running.mp (h.stopped hmem)
    rw [hstoring] at hdone
    cases hdone
  . refine ⟨⟨?_, hreports.drained⟩, ⟨nofun, hreports.final⟩⟩
    rintro ⟨⟩
    exact h.drained hcontrol hreturning

theorem lawful (hcontrol : Control s) (hbooks : Books log s) (hreports : Reports log)
    : Lawful log s := by
  rcases hbooks.accounts with ⟨dropped, hcount, haccounts⟩
  refine ⟨hreports, ?_, ?_⟩
  . rw [hbooks.reads]
    have hreturned := (List.sublist_append_left _ _).trans haccounts.sublist_returned
    exact hreturned.trans (List.sublist_append_left _ _)
  . intro hfree
    have hworker : s.worker.holds = false := by
      rw [← Bool.not_eq_true, hcontrol.worker, hfree]
      nofun
    have hconsumer : s.consumer.inHand = [] := by
      cases hreturning : s.consumer with
      | returning =>
        have hholds := hcontrol.consumer.mp (by rw [hreturning]; rfl)
        rw [hfree] at hholds
        cases hholds
      | _ => rfl
    have hlength := haccounts.count
    rw [counted_of_not_holds hworker] at hcount
    rw [hconsumer, List.append_nil] at hlength
    omega

/-- Once the worker has finished, the consumer is neither asleep nor about to be. -/
def Awake (s : State β) : Prop :=
  s.worker = .finished → s.consumer ≠ .asleep ∧ s.consumer ≠ .waiting

theorem Awake.step (h : Awake s) (hcontrol : Control s) (hunhurried : unhurried s a)
    (hmove : Move s a evs t) : Awake t := by
  have hrunning := hcontrol.running
  unfold Awake at h ⊢
  cases hmove with
  | notifiesAll hworker =>
    intro _
    have hwaiting := hunhurried rfl hworker
    cases hconsumer : s.consumer <;> simp_all [Consumer.notified]
  | notifies hworker | stops hworker => nofun
  | _ => grind [Worker.isDone]

theorem control_opened : Control (opened : State β) := by
  constructor <;> simp [opened, Worker.holds, Consumer.holds, Worker.isDone]

/-- The consumer is never left asleep as long as the last notification does not come between its
look at the flag and its wait, and is left asleep by its next step once it does. All else holds in
every run. -/
theorem lawful_unhurried (log : List (Event β)) (s : State β)
    : (Machine.Runs handOff anything opened log s → Lawful log s) ∧
      (Machine.Runs handOff unhurried opened log s → ¬ Stuck s) ∧
      ∀ a evs t, handOff s a = some (evs, t) → ¬ unhurried s a →
        ∃ u, handOff t .consume = some ([], u) ∧ Stuck u := by
  refine ⟨?_, ?_, ?_⟩
  . intro hruns
    have hinv : Control s ∧ Books log s ∧ Reports log := by
      apply Machine.Runs.invariant (fun log s => Control s ∧ Books log s ∧ Reports log) _ _ hruns
      . exact ⟨control_opened, ⟨rfl, ⟨0, rfl, Accounts.empty⟩, nofun⟩, ⟨trivial, trivial⟩⟩
      . rintro log s a evs t ⟨hcontrol, hbooks, hreports⟩ - htaken
        have hmove := handOff_move htaken
        exact ⟨hcontrol.step hmove, hbooks.step hcontrol hmove,
          hbooks.reports hcontrol hreports hmove⟩
    exact lawful hinv.1 hinv.2.1 hinv.2.2
  . intro hruns hstuck
    have hinv : Control s ∧ Awake s := by
      apply Machine.Runs.invariant (fun _ s => Control s ∧ Awake s) _ _ hruns
      . exact ⟨control_opened, nofun⟩
      . rintro log s a evs t ⟨hcontrol, hawake⟩ hunhurried htaken
        have hmove := handOff_move htaken
        exact ⟨hcontrol.step hmove, hawake.step hcontrol hunhurried hmove⟩
    exact (hinv.2 hstuck.1).1 hstuck.2
  . intro a evs t htaken hhurried
    simp only [unhurried, not_forall, not_not] at hhurried
    rcases hhurried with ⟨rfl, hworker, hwaiting⟩
    cases handOff_move htaken with
    | notifiesAll =>
      refine ⟨{ s with worker := .finished, lock := none, consumer := .asleep }, ?_, rfl, rfl⟩
      rw [hwaiting]
      rfl
    | _ => simp_all

end

instance [DecidableEq β] (s : State β) (a : Action β) : Decidable (unhurried s a) :=
  inferInstanceAs (Decidable (_ → _ → _))

/-- A buffer is read, and the device is unplugged while the consumer sleeps in its next read: the
last notification wakes it. -/
theorem lawful_unhurried_woken
    : ∃ (log : List (Event Nat)) (s : State Nat), Machine.Runs handOff unhurried opened log s ∧
      log = [.returned .stopped, .returned (.ok 7), .deposited 7, .read 7] ∧
      s.worker = .finished ∧ Lawful log s ∧ ¬ Stuck s := by
  let script : List (Action Nat) :=
    [.device (some 7), .work, .work, .work, .work, .read, .consume, .consume, .consume, .read,
      .consume, .consume, .consume, .consume, .device none, .work, .work, .consume, .consume,
      .consume, .consume]
  have hruns := Machine.runs_play script (rfl : handOff.play unhurried opened script = _)
  have hany := Machine.runs_play script (rfl : handOff.play anything opened script = _)
  exact ⟨_, _, hruns, rfl, rfl, (lawful_unhurried _ _).1 hany, (lawful_unhurried _ _).2.1 hruns⟩

/-- The device is unplugged just after the consumer has looked at the flag: the worker stops and
notifies before the consumer waits. -/
theorem stuck_unplugged
    : ∃ s : State Nat, Machine.Runs handOff anything opened [] s ∧ Stuck s := by
  let script : List (Action Nat) :=
    [.read, .consume, .consume, .consume, .device none, .work, .work, .consume]
  have hruns := Machine.runs_play script (rfl : handOff.play anything opened script = _)
  exact ⟨_, hruns, rfl, rfl⟩

end RtlSdrDevice

end Signal
