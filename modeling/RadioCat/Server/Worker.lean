import Mathlib.Logic.Function.Basic
import RadioCat.Server.LocalChannel
import RadioCat.Trace.Machine

/-!
This module contains the single ordered worker of the broker on Linux: a queue of jobs that every
handle can send to, and a reply slot for each job.
-/

namespace Server

open Trace LocalChannel

namespace Worker

inductive Work (τ : Type) where
  | wire (payload : List UInt8)
  | task (run : τ)
  deriving DecidableEq, Repr

-- The id stands for the reply slot, which no two jobs share.
structure Job (τ : Type) where
  id : Nat
  work : Work τ
  deriving DecidableEq, Repr

structure Broker (τ : Type) where
  channel : Channel (Job τ) := {}
  running : Option (Job τ) := none
  slots : Nat → Oneshot (List UInt8) := fun _ => {}
  -- The futures of `submit` and `submit_task` that still wait for their reply.
  waiting : List Nat := []
  nextId : Nat := 0

inductive Action (τ : Type) where
  | submit (gate : Option (List UInt8)) (work : Work τ)
  | poll (id : Nat)
  | cancel (id : Nat)
  | cloneHandle
  | dropHandle
  | work
  | finish (reply : List UInt8)
  | dropWorker

inductive Event (τ : Type) where
  | refused (id : Nat) (reason : List UInt8)
  | enqueued (job : Job τ)
  | resolved (id : Nat) (reply : Option (List UInt8))
  | began (job : Job τ)
  | replied (id : Nat) (reply : List UInt8)
  | workerDropped
  deriving DecidableEq, Repr

namespace Broker

variable {τ : Type}

def setSlot (s : Broker τ) (id : Nat) (o : Oneshot (List UInt8)) : Broker τ :=
  { s with slots := Function.update s.slots id o }

def dropJob (s : Broker τ) (job : Job τ) : Broker τ :=
  s.setSlot job.id (s.slots job.id).dropSender

-- The queue is shared by the handles and the worker, and goes with the last of them.
def release (s : Broker τ) : Broker τ :=
  if s.channel.senderCount = 0 ∧ s.channel.receiverDropped then
    s.channel.queue.foldl dropJob { s with channel := { s.channel with queue := [] } }
  else
    s

def dropRunning (s : Broker τ) : Broker τ :=
  match s.running with
  | none => s
  | some job => { s.dropJob job with running := none }

def dropReceiver (s : Broker τ) : Broker τ :=
  { s with channel := { s.channel with receiverDropped := true } }

def dropWorker (s : Broker τ) : Broker τ :=
  s.dropRunning.dropReceiver.release

def stopWaiting (s : Broker τ) (id : Nat) (o : Oneshot (List UInt8)) : Broker τ :=
  { s.setSlot id o.dropReceiver with waiting := s.waiting.filter (· ≠ id) }

def machine : Machine (Broker τ) (Action τ) (Event τ)
  | s, .submit gate work =>
    if s.channel.senderCount = 0 then
      none
    else
      match gate with
      | some reason => some ([.refused s.nextId reason], { s with nextId := s.nextId + 1 })
      | none =>
        let job := { id := s.nextId, work }
        match s.channel.send job with
        | none => some ([.resolved s.nextId none], { s with nextId := s.nextId + 1 })
        | some channel =>
          some ([.enqueued job],
            { s.setSlot s.nextId { waker := true } with
              channel
              waiting := s.nextId :: s.waiting
              nextId := s.nextId + 1 })
  | s, .poll id =>
    if id ∈ s.waiting then
      match (s.slots id).recv with
      | (.ready reply, o) => some ([.resolved id reply], s.stopWaiting id o)
      | (.pending, o) => some ([], s.setSlot id o)
    else
      none
  | s, .cancel id =>
    if id ∈ s.waiting then
      some ([], s.stopWaiting id (s.slots id))
    else
      none
  | s, .cloneHandle =>
    if s.channel.senderCount = 0 then
      none
    else
      some ([], { s with channel := { s.channel with senderCount := s.channel.senderCount + 1 } })
  | s, .dropHandle =>
    -- A future that waits borrows its handle.
    if s.channel.senderCount = 0 ∨ (s.channel.senderCount = 1 ∧ s.waiting ≠ []) then
      none
    else
      some ([], release { s with channel := s.channel.dropSender })
  | s, .work =>
    if s.channel.receiverDropped ∨ s.running ≠ none then
      none
    else
      match s.channel.recv with
      | (.ready (some job), channel) =>
        some ([.began job], { s with channel, running := some job })
      | (.ready none, channel) => some ([.workerDropped], dropWorker { s with channel })
      | (.pending, channel) => some ([], { s with channel })
  | s, .finish reply =>
    match s.running with
    | none => none
    | some job =>
      some ([.replied job.id reply],
        { s.setSlot job.id ((s.slots job.id).send reply) with running := none })
  | s, .dropWorker =>
    if s.channel.receiverDropped then none else some ([.workerDropped], s.dropWorker)

end Broker

section

variable {τ : Type}

abbrev Log (τ : Type) := List (Event τ)

def enqueued (log : Log τ) : List (Job τ) :=
  told (fun | .enqueued job => some job | _ => none) log

def began (log : Log τ) : List (Job τ) :=
  told (fun | .began job => some job | _ => none) log

def Event.moves : Event τ → Bool
  | .enqueued _ | .began _ => true
  | _ => false

theorem enqueued_append {evs : Log τ} (log : Log τ) (h : ∀ e ∈ evs, e.moves = false)
    : enqueued (evs.reverse ++ log) = enqueued log := by
  rw [enqueued, told_append, List.filterMap_eq_nil_iff.mpr, List.append_nil]
  . rfl
  . intro e he
    cases e with
    | enqueued job => exact absurd (h _ he) Bool.noConfusion
    | _ => rfl

theorem began_append {evs : Log τ} (log : Log τ) (h : ∀ e ∈ evs, e.moves = false)
    : began (evs.reverse ++ log) = began log := by
  rw [began, told_append, List.filterMap_eq_nil_iff.mpr, List.append_nil]
  . rfl
  . intro e he
    cases e with
    | began job => exact absurd (h _ he) Bool.noConfusion
    | _ => rfl

-- Whoever waits on the slot has been woken, and will not have to wait again.
def Settled (o : Oneshot (List UInt8)) : Prop :=
  (o.value.isSome ∨ o.senderDropped) ∧ o.waker = false

theorem settled_dropSender (o : Oneshot (List UInt8)) : Settled o.dropSender :=
  ⟨.inr rfl, rfl⟩

theorem settled_send (o : Oneshot (List UInt8)) (reply : List UInt8) : Settled (o.send reply) := by
  unfold Oneshot.send
  split
  all_goals apply settled_dropSender

theorem value_send {o : Oneshot (List UInt8)} {reply value : List UInt8}
    (h : (o.send reply).value = some value) : value = reply ∨ o.value = some value := by
  unfold Oneshot.send at h
  split at h
  . exact .inr h
  . exact .inl (Option.some.inj h).symm

theorem Settled.recv {o : Oneshot (List UInt8)} (h : Settled o)
    : o.recv.1 = .ready o.value := by
  rcases h with ⟨hready, _⟩
  unfold Oneshot.recv
  split
  next value hvalue => rw [hvalue]
  next hvalue =>
    simp only [hvalue, Option.isSome_none, Bool.false_eq_true, false_or] at hready
    rw [if_pos hready, hvalue]

namespace Broker

def Held (s : Broker τ) (id : Nat) : Prop :=
  (∃ job ∈ s.channel.queue, job.id = id) ∨ ∃ job, s.running = some job ∧ job.id = id

/-- The jobs are begun in the order of their submission, and the worker does not sleep over one. -/
structure Ordered (log : Log τ) (s : Broker τ) : Prop where
  fresh : ∀ job ∈ enqueued log, job.id < s.nextId
  increasing : (enqueued log).Pairwise fun a b => a.id < b.id
  fifo : s.channel.receiverDropped = false → enqueued log = began log ++ s.channel.queue
  inOrder : began log <+: enqueued log
  awake : s.channel.recvWaker = true → s.channel.queue = []

/-- What stands in a slot, or was taken out of it, is the reply to its own job. -/
structure Replied (log : Log τ) (s : Broker τ) : Prop where
  delivered : ∀ id reply, (s.slots id).value = some reply → .replied id reply ∈ log
  own : ∀ id reply, .resolved id (some reply) ∈ log → .replied id reply ∈ log

/-- Whoever waits does so for a job that is still there. -/
structure Owed (s : Broker τ) : Prop where
  known : ∀ id ∈ s.waiting, id < s.nextId
  owed : ∀ id ∈ s.waiting, s.Held id ∨ Settled (s.slots id)
  gone : s.channel.receiverDropped = true
    → s.running = none ∧ ∀ job ∈ s.channel.queue, job.id ∉ s.waiting
  borrowed : s.channel.senderCount = 0 → s.waiting = []

section

variable {log evs : Log τ} {s t : Broker τ}

theorem value_dropJob (s : Broker τ) (job : Job τ) (id : Nat)
    : ((s.dropJob job).slots id).value = (s.slots id).value := by
  by_cases hid : id = job.id
  . subst hid
    simp [dropJob, setSlot, Oneshot.dropSender]
  . simp [dropJob, setSlot, hid]

theorem foldl_dropJob (jobs : List (Job τ)) (s : Broker τ)
    : ∃ slots, jobs.foldl dropJob s = { s with slots }
      ∧ ∀ id, (slots id).value = (s.slots id).value := by
  induction jobs generalizing s with
  | nil => exact ⟨s.slots, rfl, fun _ => rfl⟩
  | cons job jobs ih =>
    rcases ih (s.dropJob job) with ⟨slots, heq, hvalue⟩
    refine ⟨slots, heq, ?_⟩
    intro id
    rw [hvalue, value_dropJob]

theorem release_eq (s : Broker τ)
    : release s = s ∨ (s.channel.senderCount = 0 ∧ s.channel.receiverDropped = true
      ∧ ∃ slots, release s = { s with slots, channel := { s.channel with queue := [] } }
        ∧ ∀ id, (slots id).value = (s.slots id).value) := by
  unfold release
  split
  next hfree =>
    rcases foldl_dropJob s.channel.queue { s with channel := { s.channel with queue := [] } }
      with ⟨slots, heq, hvalue⟩
    exact .inr ⟨hfree.1, hfree.2, slots, heq, hvalue⟩
  next => exact .inl rfl

theorem Ordered.frame (h : Ordered log s) (hnext : s.nextId ≤ t.nextId)
    (hdropped : s.channel.receiverDropped = true → t.channel.receiverDropped = true)
    (hqueue : t.channel.queue = s.channel.queue
      ∨ (t.channel.queue = [] ∧ t.channel.receiverDropped = true))
    (hwaker : t.channel.recvWaker = true → s.channel.recvWaker = true ∨ t.channel.queue = [])
    (hevs : ∀ e ∈ evs, e.moves = false)
    : Ordered (evs.reverse ++ log) t := by
  constructor
  case fresh =>
    rw [enqueued_append log hevs]
    intro job hjob
    exact Nat.lt_of_lt_of_le (h.fresh job hjob) hnext
  case increasing =>
    rw [enqueued_append log hevs]
    exact h.increasing
  case fifo =>
    intro halive
    have halive' : s.channel.receiverDropped = false := by
      apply Bool.eq_false_iff.mpr
      intro hgone
      rw [hdropped hgone] at halive
      cases halive
    rcases hqueue with hsame | ⟨_, hgone⟩
    . rw [enqueued_append log hevs, began_append log hevs, hsame, h.fifo halive']
    . rw [hgone] at halive
      cases halive
  case inOrder =>
    rw [enqueued_append log hevs, began_append log hevs]
    exact h.inOrder
  case awake =>
    intro hasleep
    rcases hqueue with hsame | ⟨hempty, _⟩
    . rcases hwaker hasleep with hslept | hempty
      . rw [hsame, h.awake hslept]
      . exact hempty
    . exact hempty

theorem Ordered.keep (h : Ordered log s) (hnext : s.nextId ≤ t.nextId)
    (hchannel : t.channel = s.channel) (hevs : ∀ e ∈ evs, e.moves = false)
    : Ordered (evs.reverse ++ log) t := by
  apply h.frame hnext _ _ _ hevs
  . rw [hchannel]
    exact fun h => h
  . rw [hchannel]
    exact .inl rfl
  . rw [hchannel]
    exact .inl

theorem Replied.frame (h : Replied log s)
    (hvalue : ∀ id reply, (t.slots id).value = some reply
      → (s.slots id).value = some reply ∨ .replied id reply ∈ evs)
    (hevs : ∀ id reply, .resolved id (some reply) ∈ evs → (s.slots id).value = some reply)
    : Replied (evs.reverse ++ log) t := by
  constructor
  case delivered =>
    intro id reply hstands
    simp only [List.mem_append, List.mem_reverse]
    rcases hvalue id reply hstands with hstood | hnew
    . exact .inr (h.delivered id reply hstood)
    . exact .inl hnew
  case own =>
    intro id reply hmem
    simp only [List.mem_append, List.mem_reverse] at hmem ⊢
    rcases hmem with hnew | hold
    . exact .inr (h.delivered id reply (hevs id reply hnew))
    . exact .inr (h.own id reply hold)

theorem Owed.count (h : Owed s) : Owed { s with nextId := s.nextId + 1 } where
  known id hid := Nat.lt_succ_of_lt (h.known id hid)
  owed := h.owed
  gone := h.gone
  borrowed := h.borrowed

theorem slots_setSlot_ne {id id' : Nat} (o : Oneshot (List UInt8)) (h : id' ≠ id)
    : (s.setSlot id o).slots id' = s.slots id' := by
  simp [setSlot, h]

theorem Owed.stopWaiting (h : Owed s) (id : Nat) (o : Oneshot (List UInt8))
    : Owed (s.stopWaiting id o) := by
  have hmem (id' : Nat) (hid : id' ∈ (s.stopWaiting id o).waiting)
      : id' ∈ s.waiting ∧ id' ≠ id := by
    simpa [Broker.stopWaiting] using hid
  constructor
  case known =>
    intro id' hid
    exact h.known id' (hmem id' hid).1
  case owed =>
    intro id' hid
    rcases hmem id' hid with ⟨hwaiting, hne⟩
    rcases h.owed id' hwaiting with hheld | hsettled
    . exact .inl hheld
    . right
      exact (slots_setSlot_ne o.dropReceiver hne).symm ▸ hsettled
  case gone =>
    intro hdropped
    rcases h.gone hdropped with ⟨hrunning, hqueue⟩
    refine ⟨hrunning, ?_⟩
    intro job hjob hid
    exact hqueue job hjob (hmem job.id hid).1
  case borrowed =>
    intro hcount
    simp [Broker.stopWaiting, h.borrowed hcount]

theorem Owed.park (h : Owed s) {id : Nat} {o : Oneshot (List UInt8)}
    (hpending : (s.slots id).recv = (.pending, o)) : Owed (s.setSlot id o) := by
  constructor
  case known => exact h.known
  case owed =>
    intro id' hid
    rcases h.owed id' hid with hheld | hsettled
    . exact .inl hheld
    . right
      by_cases hne : id' = id
      . subst hne
        have hready := hsettled.recv
        rw [hpending] at hready
        cases hready
      . rw [slots_setSlot_ne o hne]
        exact hsettled
  case gone => exact h.gone
  case borrowed => exact h.borrowed

theorem Owed.enqueue (h : Owed s) (work : Work τ) (halive : s.channel.receiverDropped = false)
    (hhandle : s.channel.senderCount ≠ 0)
    : Owed { s.setSlot s.nextId { waker := true } with
        channel := { s.channel with
          queue := s.channel.queue ++ [{ id := s.nextId, work }], recvWaker := false }
        waiting := s.nextId :: s.waiting
        nextId := s.nextId + 1 } := by
  constructor
  case known =>
    intro id hid
    rcases List.mem_cons.mp hid with rfl | hold
    . exact Nat.lt_succ_self _
    . exact Nat.lt_succ_of_lt (h.known id hold)
  case owed =>
    intro id hid
    rcases List.mem_cons.mp hid with rfl | hold
    . exact .inl (.inl ⟨_, List.mem_append_right _ (List.mem_singleton_self _), rfl⟩)
    . rcases h.owed id hold with hqueued | hsettled
      . rcases hqueued with ⟨job, hjob, hid⟩ | hrunning
        . exact .inl (.inl ⟨job, List.mem_append_left _ hjob, hid⟩)
        . exact .inl (.inr hrunning)
      . right
        have hne : id ≠ s.nextId := Nat.ne_of_lt (h.known id hold)
        exact (slots_setSlot_ne _ hne).symm ▸ hsettled
  case gone =>
    intro hgone
    rw [halive] at hgone
    cases hgone
  case borrowed =>
    intro hcount
    exact absurd hcount hhandle

theorem Owed.channel (h : Owed s) {c : Channel (Job τ)} (hqueue : c.queue = s.channel.queue)
    (hdropped : c.receiverDropped = s.channel.receiverDropped)
    (hcount : c.senderCount = 0 → s.waiting = [])
    : Owed { s with channel := c } := by
  constructor
  case known => exact h.known
  case owed =>
    intro id hid
    rcases h.owed id hid with (⟨job, hjob, heq⟩ | hrunning) | hsettled
    . exact .inl (.inl ⟨job, hqueue ▸ hjob, heq⟩)
    . exact .inl (.inr hrunning)
    . exact .inr hsettled
  case gone =>
    intro hgone
    rcases h.gone (hdropped.symm.trans hgone) with ⟨hrunning, hnobody⟩
    exact ⟨hrunning, fun job hjob => hnobody job (hqueue ▸ hjob)⟩
  case borrowed => exact hcount

theorem Owed.release (h : Owed s) : Owed s.release := by
  rcases release_eq s with heq | ⟨hcount, hdropped, slots, heq, _⟩
  . rw [heq]
    exact h
  . have hnobody := h.borrowed hcount
    rw [heq]
    constructor
    case known => exact h.known
    case owed => simp [hnobody]
    case gone => simp [(h.gone hdropped).1]
    case borrowed => exact fun _ => hnobody

theorem Owed.begin (h : Owed s) {job : Job τ} {rest : List (Job τ)}
    (hqueue : s.channel.queue = job :: rest) (hrunning : s.running = none)
    (halive : s.channel.receiverDropped = false)
    : Owed { s with channel := { s.channel with queue := rest }, running := some job } := by
  constructor
  case known => exact h.known
  case owed =>
    intro id hid
    rcases h.owed id hid with (⟨job', hjob, heq⟩ | ⟨job', hjob, _⟩) | hsettled
    . rw [hqueue] at hjob
      rcases List.mem_cons.mp hjob with rfl | hrest
      . exact .inl (.inr ⟨job', rfl, heq⟩)
      . exact .inl (.inl ⟨job', hrest, heq⟩)
    . rw [hrunning] at hjob
      cases hjob
    . exact .inr hsettled
  case gone =>
    intro hgone
    rw [halive] at hgone
    cases hgone
  case borrowed => exact h.borrowed

-- The running job is over, and its slot is settled.
theorem Owed.endRunning (h : Owed s) {job : Job τ} (hrunning : s.running = some job)
    {o : Oneshot (List UInt8)} (ho : Settled o)
    : Owed { s.setSlot job.id o with running := none } := by
  constructor
  case known => exact h.known
  case owed =>
    intro id hid
    by_cases hne : id = job.id
    . subst hne
      right
      simpa [setSlot] using ho
    . rcases h.owed id hid with (hqueued | ⟨job', hjob, heq⟩) | hsettled
      . exact .inl (.inl hqueued)
      . rw [hrunning] at hjob
        cases hjob
        exact absurd heq.symm hne
      . right
        exact (slots_setSlot_ne o hne).symm ▸ hsettled
  case gone =>
    intro hgone
    exact ⟨rfl, (h.gone hgone).2⟩
  case borrowed => exact h.borrowed

theorem Owed.dropRunning (h : Owed s) : Owed s.dropRunning := by
  unfold Broker.dropRunning
  split
  next => exact h
  next job hrunning => exact h.endRunning hrunning (settled_dropSender _)

theorem running_dropRunning (s : Broker τ) : s.dropRunning.running = none := by
  unfold Broker.dropRunning
  split
  next hrunning => exact hrunning
  next => rfl

theorem channel_dropRunning (s : Broker τ)
    : s.dropRunning.channel = s.channel ∧ s.dropRunning.waiting = s.waiting
      ∧ s.dropRunning.nextId = s.nextId := by
  unfold Broker.dropRunning
  split
  all_goals exact ⟨rfl, rfl, rfl⟩

theorem value_dropRunning (s : Broker τ) (id : Nat)
    : (s.dropRunning.slots id).value = (s.slots id).value := by
  unfold Broker.dropRunning
  split
  next => rfl
  next job _ => apply value_dropJob

theorem Owed.dropWorker (h : Owed s) (htidy : ∀ job ∈ s.channel.queue, job.id ∉ s.waiting)
    : Owed s.dropWorker := by
  apply Owed.release
  have hrest := h.dropRunning
  rcases channel_dropRunning s with ⟨hchannel, hwaiting, _⟩
  constructor
  case known => exact hrest.known
  case owed => exact hrest.owed
  case gone =>
    intro _
    refine ⟨running_dropRunning s, ?_⟩
    simp only [dropReceiver, hchannel, hwaiting]
    exact htidy
  case borrowed => exact hrest.borrowed

theorem Ordered.release (h : Ordered log s) : Ordered log s.release := by
  rcases release_eq s with heq | ⟨_, hdropped, slots, heq, _⟩
  . rw [heq]
    exact h
  . rw [heq]
    show Ordered ([].reverse ++ log) _
    apply h.frame
    . exact Nat.le_refl _
    . exact fun h => h
    . exact .inr ⟨rfl, hdropped⟩
    . exact .inl
    . simp

theorem Replied.release (h : Replied log s) : Replied log s.release := by
  rcases release_eq s with heq | ⟨_, _, slots, heq, hvalue⟩
  . rw [heq]
    exact h
  . rw [heq]
    exact ⟨fun id reply hstands => h.delivered id reply ((hvalue id).symm.trans hstands), h.own⟩

theorem Ordered.enqueue (h : Ordered log s) (work : Work τ)
    (halive : s.channel.receiverDropped = false)
    : Ordered (.enqueued { id := s.nextId, work } :: log)
      { s.setSlot s.nextId { waker := true } with
        channel := { s.channel with
          queue := s.channel.queue ++ [{ id := s.nextId, work }], recvWaker := false }
        waiting := s.nextId :: s.waiting
        nextId := s.nextId + 1 } := by
  have henqueued : enqueued (.enqueued { id := s.nextId, work } :: log)
      = enqueued log ++ [{ id := s.nextId, work }] := told_cons _ _ _
  have hbegan : began (.enqueued { id := s.nextId, work } :: log) = began log :=
    (told_cons _ _ _).trans (List.append_nil _)
  constructor
  case fresh =>
    rw [henqueued]
    intro job hjob
    rcases List.mem_append.mp hjob with hold | hnew
    . exact Nat.lt_succ_of_lt (h.fresh job hold)
    . rw [List.mem_singleton.mp hnew]
      exact Nat.lt_succ_self _
  case increasing =>
    rw [henqueued]
    apply List.pairwise_append.mpr
    refine ⟨h.increasing, List.pairwise_singleton _ _, ?_⟩
    intro job hjob job' hjob'
    rw [List.mem_singleton.mp hjob']
    exact h.fresh job hjob
  case fifo =>
    intro _
    rw [henqueued, hbegan, h.fifo halive, List.append_assoc]
  case inOrder =>
    rw [henqueued, hbegan]
    exact h.inOrder.trans (List.prefix_append _ _)
  case awake => exact fun hasleep => nomatch hasleep

theorem Ordered.begin (h : Ordered log s) {job : Job τ} {rest : List (Job τ)}
    (hqueue : s.channel.queue = job :: rest) (halive : s.channel.receiverDropped = false)
    : Ordered (.began job :: log)
      { s with channel := { s.channel with queue := rest }, running := some job } := by
  have henqueued : enqueued (.began job :: log) = enqueued log :=
    (told_cons _ _ _).trans (List.append_nil _)
  have hbegan : began (.began job :: log) = began log ++ [job] := told_cons _ _ _
  have hfifo : enqueued log = began log ++ [job] ++ rest := by
    rw [h.fifo halive, hqueue, List.append_assoc]
    rfl
  constructor
  case fresh =>
    rw [henqueued]
    exact h.fresh
  case increasing =>
    rw [henqueued]
    exact h.increasing
  case fifo =>
    intro _
    rw [henqueued, hbegan]
    exact hfifo
  case inOrder =>
    rw [henqueued, hbegan, hfifo]
    apply List.prefix_append
  case awake =>
    intro hasleep
    have hempty := h.awake hasleep
    rw [hqueue] at hempty
    cases hempty

theorem value_setSlot {id id' : Nat} {o : Oneshot (List UInt8)} {reply : List UInt8}
    (h : ((s.setSlot id o).slots id').value = some reply)
    : (id' = id ∧ o.value = some reply) ∨ (s.slots id').value = some reply := by
  by_cases hid : id' = id
  . subst hid
    left
    simpa [setSlot] using h
  . right
    rw [slots_setSlot_ne o hid] at h
    exact h

structure Served (log : Log τ) (s : Broker τ) : Prop where
  ordered : Ordered log s
  replied : Replied log s
  owed : Owed s

/-- The worker is dropped only when nobody waits for a job that is still queued. -/
def tidy : Discipline (Broker τ) (Action τ)
  | s, .dropWorker => ∀ job ∈ s.channel.queue, job.id ∉ s.waiting
  | _, _ => True

instance (s : Broker τ) : ∀ a : Action τ, Decidable (tidy s a)
  | .dropWorker => inferInstanceAs (Decidable (∀ job ∈ s.channel.queue, job.id ∉ s.waiting))
  | .submit _ _ | .poll _ | .cancel _ | .cloneHandle | .dropHandle | .work | .finish _ =>
    isTrue trivial

theorem Served.dropWorker (h : Served log s)
    (htidy : ∀ job ∈ s.channel.queue, job.id ∉ s.waiting)
    : Served (.workerDropped :: log) s.dropWorker := by
  rcases channel_dropRunning s with ⟨hchannel, _, hnext⟩
  constructor
  case ordered =>
    apply Ordered.release
    show Ordered ([.workerDropped].reverse ++ log) _
    apply h.ordered.frame
    . exact Nat.le_of_eq hnext.symm
    . intro _
      rfl
    . left
      simp only [dropReceiver, hchannel]
    . intro hasleep
      left
      simpa only [dropReceiver, hchannel] using hasleep
    . simp [Event.moves]
  case replied =>
    apply Replied.release
    show Replied ([.workerDropped].reverse ++ log) _
    apply h.replied.frame
    . intro id reply hstands
      left
      exact (value_dropRunning s id).symm.trans hstands
    . simp
  case owed => exact h.owed.dropWorker htidy

theorem Served.step {a : Action τ} (h : Served log s) (allowed : tidy s a)
    (taken : machine s a = some (evs, t)) : Served (evs.reverse ++ log) t := by
  revert taken
  fun_cases machine s a
  case case2 work reason hhandle =>
    rintro ⟨⟩
    refine ⟨h.ordered.keep (Nat.le_succ _) rfl ?_, h.replied.frame (fun _ _ => .inl) ?_,
      h.owed.count⟩
    . simp [Event.moves]
    . simp
  case case3 work hhandle job hsend =>
    rintro ⟨⟩
    refine ⟨h.ordered.keep (Nat.le_succ _) rfl ?_, h.replied.frame (fun _ _ => .inl) ?_,
      h.owed.count⟩
    . simp [Event.moves]
    . simp
  case case4 work channel hhandle job hsend =>
    rintro ⟨⟩
    rcases Channel.of_send_some hsend with ⟨halive, rfl⟩
    refine ⟨h.ordered.enqueue work halive, h.replied.frame ?_ ?_,
      h.owed.enqueue work halive hhandle⟩
    . intro id reply hstands
      rcases value_setSlot hstands with ⟨_, hnone⟩ | hstood
      . cases hnone
      . exact .inl hstood
    . simp
  case case5 id reply o hid hready =>
    rintro ⟨⟩
    rcases Oneshot.of_recv_ready hready with ⟨rfl, hnone⟩
    refine ⟨h.ordered.keep (Nat.le_refl _) rfl ?_, h.replied.frame ?_ ?_, h.owed.stopWaiting id o⟩
    . simp [Event.moves]
    . intro id' reply hstands
      rcases value_setSlot hstands with ⟨_, hsome⟩ | hstood
      . cases hnone.symm.trans hsome
      . exact .inl hstood
    . intro id' reply hmem
      injection List.mem_singleton.mp hmem with hid hreply
      rw [hid, hreply]
  case case6 id o hid hpending =>
    rintro ⟨⟩
    rcases Oneshot.of_recv_pending hpending with ⟨hnone, _, rfl⟩
    refine ⟨h.ordered.keep (Nat.le_refl _) rfl (by simp), h.replied.frame ?_ (by simp),
      h.owed.park hpending⟩
    intro id' reply hstands
    rcases value_setSlot hstands with ⟨_, hsome⟩ | hstood
    . cases hnone.symm.trans hsome
    . exact .inl hstood
  case case8 id hid =>
    rintro ⟨⟩
    refine ⟨h.ordered.keep (Nat.le_refl _) rfl (by simp), h.replied.frame ?_ (by simp),
      h.owed.stopWaiting id _⟩
    intro id' reply hstands
    rcases value_setSlot hstands with ⟨rfl, hstood⟩ | hstood
    . exact .inl hstood
    . exact .inl hstood
  case case11 hhandle =>
    rintro ⟨⟩
    refine ⟨h.ordered.frame (Nat.le_refl _) (fun h => h) (.inl rfl) .inl (by simp),
      h.replied.frame (fun _ _ => .inl) (by simp), h.owed.channel rfl rfl ?_⟩
    intro hcount
    cases hcount
  case case13 hborrowed =>
    rintro ⟨⟩
    rw [not_or, not_and, Classical.not_not] at hborrowed
    refine ⟨Ordered.release (h.ordered.frame (Nat.le_refl _) (fun h => h) (.inl rfl) ?_ (by simp)),
      Replied.release (h.replied.frame (fun _ _ => .inl) (by simp)),
      Owed.release (h.owed.channel rfl rfl ?_)⟩
    . simp only [Channel.dropSender]
      split
      . exact fun hasleep => nomatch hasleep
      . exact .inl
    . intro hcount
      apply hborrowed.2
      simp only [Channel.dropSender] at hcount
      omega
  case case15 job channel hidle hrecv =>
    rintro ⟨⟩
    rcases Channel.of_recv_some hrecv with ⟨hqueue, hchannel⟩
    rw [not_or] at hidle
    have halive : s.channel.receiverDropped = false := Bool.eq_false_iff.mpr hidle.1
    have hrunning : s.running = none := Classical.not_not.mp hidle.2
    rw [hchannel]
    exact ⟨h.ordered.begin hqueue halive, h.replied.frame (fun _ _ => .inl) (by simp),
      h.owed.begin hqueue hrunning halive⟩
  case case16 channel hidle hrecv =>
    rintro ⟨⟩
    rcases Channel.of_recv_none hrecv with ⟨hqueue, rfl⟩
    apply h.dropWorker
    simp [hqueue]
  case case17 channel hidle hrecv =>
    rintro ⟨⟩
    rcases Channel.of_recv_pending hrecv with ⟨hqueue, rfl⟩
    exact ⟨h.ordered.frame (Nat.le_refl _) (fun h => h) (.inl rfl) (fun _ => .inr hqueue) (by simp),
      h.replied.frame (fun _ _ => .inl) (by simp), h.owed.channel rfl rfl h.owed.borrowed⟩
  case case19 reply job hrunning =>
    rintro ⟨⟩
    refine ⟨h.ordered.keep (Nat.le_refl _) rfl (by simp [Event.moves]),
      h.replied.frame ?_ (by simp), h.owed.endRunning hrunning (settled_send _ _)⟩
    intro id reply' hstands
    rcases value_setSlot hstands with ⟨rfl, hsent⟩ | hstood
    . rcases value_send hsent with rfl | hstood
      . exact .inr (List.mem_singleton_self _)
      . exact .inl hstood
    . exact .inl hstood
  case case21 halive =>
    rintro ⟨⟩
    exact h.dropWorker allowed
  all_goals rintro ⟨⟩

theorem Served.initial : Served [] ({} : Broker τ) := by
  refine ⟨⟨?_, List.Pairwise.nil, fun _ => rfl, List.prefix_refl _, fun _ => rfl⟩, ⟨?_, ?_⟩,
    ⟨?_, ?_, ?_, fun _ => rfl⟩⟩
  all_goals simp [enqueued, told]

theorem Served.of_runs (h : Machine.Runs machine tidy {} log s) : Served log s := by
  apply Machine.Runs.invariant Served .initial _ h
  intro _ _ _ _ _ hI allowed taken
  exact hI.step allowed taken

/-- If the worker is dropped only when nobody waits for a queued job, then in every run the jobs are
begun in the order of their submission, each once; a reply reaches the submitter of its job only;
and once the worker is gone, whoever still waits has been woken and gets `None`, or the reply to its
own job, and a new submission gets `None` at once. -/
theorem worker_serves (h : Machine.Runs machine tidy {} log s)
    : (began log <+: enqueued log ∧ ((enqueued log).map Job.id).Nodup
        ∧ (s.channel.receiverDropped = false → enqueued log = began log ++ s.channel.queue)
        ∧ (s.channel.recvWaker = true → s.channel.queue = []))
      ∧ (∀ id reply, .resolved id (some reply) ∈ log → .replied id reply ∈ log)
      ∧ (s.channel.receiverDropped = true →
        (∀ id ∈ s.waiting, (s.slots id).waker = false
          ∧ ((s.slots id).recv.1 = .ready none
            ∨ ∃ reply, (s.slots id).recv.1 = .ready (some reply) ∧ .replied id reply ∈ log))
        ∧ ∀ work, s.channel.senderCount ≠ 0 → machine s (.submit none work)
          = some ([.resolved s.nextId none], { s with nextId := s.nextId + 1 })) := by
  have hI := Served.of_runs h
  refine ⟨⟨hI.ordered.inOrder, ?_, hI.ordered.fifo, hI.ordered.awake⟩, hI.replied.own, ?_⟩
  . rw [List.nodup_iff_pairwise_ne, List.pairwise_map]
    exact hI.ordered.increasing.imp fun hlt => Nat.ne_of_lt hlt
  . intro hgone
    rcases hI.owed.gone hgone with ⟨hrunning, hnobody⟩
    constructor
    . intro id hid
      have hsettled : Settled (s.slots id) := by
        rcases hI.owed.owed id hid with (⟨job, hjob, rfl⟩ | ⟨job, hjob, _⟩) | hsettled
        . exact absurd hid (hnobody job hjob)
        . rw [hrunning] at hjob
          cases hjob
        . exact hsettled
      refine ⟨hsettled.2, ?_⟩
      rw [hsettled.recv]
      cases hvalue : (s.slots id).value with
      | none => exact .inl rfl
      | some reply => exact .inr ⟨reply, rfl, hI.replied.delivered id reply hvalue⟩
    . intro work hhandle
      simp [machine, hhandle, Channel.send, hgone]

/-- The worker is gone, and the slot is in the queue that nobody will look at. -/
structure Stuck (id : Nat) (s : Broker τ) : Prop where
  gone : s.channel.receiverDropped = true
  idle : s.running = none
  known : id < s.nextId
  empty : id ∈ s.waiting →
    s.channel.senderCount ≠ 0 ∧ (s.slots id).value = none ∧ (s.slots id).senderDropped = false

theorem Stuck.stopWaiting {id : Nat} (h : Stuck id s) (id' : Nat) (o : Oneshot (List UInt8))
    : Stuck id (s.stopWaiting id' o) where
  gone := h.gone
  idle := h.idle
  known := h.known
  empty := by
    intro hmem
    have hwaiting : id ∈ s.waiting ∧ id ≠ id' := by
      simpa [Broker.stopWaiting] using hmem
    have hslot : (s.stopWaiting id' o).slots id = s.slots id :=
      slots_setSlot_ne o.dropReceiver hwaiting.2
    rw [hslot]
    exact h.empty hwaiting.1

theorem Stuck.step {id : Nat} {a : Action τ} (h : Stuck id s)
    (taken : machine s a = some (evs, t))
    : Stuck id t ∧ ∀ reply, .resolved id reply ∉ evs := by
  revert taken
  fun_cases machine s a
  case case2 work reason hhandle =>
    rintro ⟨⟩
    exact ⟨⟨h.gone, h.idle, Nat.lt_succ_of_lt h.known, h.empty⟩, by simp⟩
  case case3 work hhandle job hsend =>
    rintro ⟨⟩
    have hne := Nat.ne_of_lt h.known
    exact ⟨⟨h.gone, h.idle, Nat.lt_succ_of_lt h.known, h.empty⟩, by simp [hne]⟩
  case case4 work channel hhandle job hsend =>
    have halive := (Channel.of_send_some hsend).1
    rw [h.gone] at halive
    cases halive
  case case5 id' reply o hid hready =>
    rintro ⟨⟩
    refine ⟨h.stopWaiting id' o, ?_⟩
    intro reply' hmem
    injection List.mem_singleton.mp hmem with heq _
    subst heq
    rcases h.empty hid with ⟨_, hvalue, hdropped⟩
    simp [Oneshot.recv, hvalue, hdropped] at hready
  case case6 id' o hid hpending =>
    rintro ⟨⟩
    rcases Oneshot.of_recv_pending hpending with ⟨hvalue, hdropped, rfl⟩
    refine ⟨⟨h.gone, h.idle, h.known, ?_⟩, by simp⟩
    intro hmem
    by_cases heq : id = id'
    . subst heq
      refine ⟨(h.empty hmem).1, ?_⟩
      simpa [setSlot] using ⟨hvalue, hdropped⟩
    . rw [slots_setSlot_ne _ heq]
      exact h.empty hmem
  case case8 id' hid =>
    rintro ⟨⟩
    exact ⟨h.stopWaiting id' _, by simp⟩
  case case11 hhandle =>
    rintro ⟨⟩
    refine ⟨⟨h.gone, h.idle, h.known, ?_⟩, by simp⟩
    intro hmem
    exact ⟨Nat.succ_ne_zero _, (h.empty hmem).2⟩
  case case13 hborrowed =>
    rintro ⟨⟩
    refine ⟨?_, by simp⟩
    rw [not_or, not_and, Classical.not_not] at hborrowed
    rcases release_eq { s with channel := s.channel.dropSender }
      with heq | ⟨hcount, _, slots, heq, _⟩
    . rw [heq]
      refine ⟨h.gone, h.idle, h.known, ?_⟩
      intro hmem
      refine ⟨?_, (h.empty hmem).2⟩
      intro hcount
      simp only [Channel.dropSender] at hcount
      rw [hborrowed.2 (by omega)] at hmem
      cases hmem
    . rw [heq]
      refine ⟨h.gone, h.idle, h.known, ?_⟩
      intro hmem
      simp only [Channel.dropSender] at hcount
      dsimp only at hmem
      rw [hborrowed.2 (by omega)] at hmem
      cases hmem
  case case15 job channel hidle hrecv => exact absurd (.inl h.gone) hidle
  case case16 channel hidle hrecv => exact absurd (.inl h.gone) hidle
  case case17 channel hidle hrecv => exact absurd (.inl h.gone) hidle
  case case19 reply job hrunning =>
    rw [h.idle] at hrunning
    cases hrunning
  case case21 halive => exact absurd h.gone halive
  all_goals rintro ⟨⟩

theorem Stuck.never_resolved {id : Nat} (h : Stuck id s)
    (hruns : Machine.Runs machine anything s log t)
    : ∀ reply, .resolved id reply ∉ log := by
  have hI : Stuck id t ∧ ∀ reply, .resolved id reply ∉ log := by
    apply Machine.Runs.invariant (fun log t => Stuck id t ∧ ∀ reply, .resolved id reply ∉ log)
      ⟨h, by simp⟩ _ hruns
    intro log u a evs v hI _ taken
    rcases hI.1.step taken with ⟨hstuck, hnever⟩
    refine ⟨hstuck, ?_⟩
    intro reply hmem
    rcases List.mem_append.mp hmem with hnew | hold
    . exact hnever reply (List.mem_reverse.mp hnew)
    . exact hI.2 reply hold
  exact hI.2

end

/-- The worker is dropped while it executes one job and another one is queued: whoever submitted the
queued one waits forever. -/
theorem queued_never_resolved
    : ∃ (log : Log Unit) (s : Broker Unit),
      Machine.Runs machine anything {} log s
        ∧ log = [.workerDropped, .enqueued ⟨1, .wire [70]⟩, .began ⟨0, .wire [73]⟩,
          .enqueued ⟨0, .wire [73]⟩]
        ∧ s.channel.receiverDropped = true ∧ 1 ∈ s.waiting ∧ (s.slots 1).recv.1 = .pending
        ∧ ∀ log' t, Machine.Runs machine anything s log' t → ∀ reply, .resolved 1 reply ∉ log' := by
  have hrun : Machine.Runs machine anything ({} : Broker Unit) _ _ :=
    Machine.runs_play [.submit none (.wire [73]), .work, .submit none (.wire [70]), .dropWorker] rfl
  refine ⟨_, _, hrun, rfl, rfl, by decide, rfl, ?_⟩
  intro log' t hlater
  apply Stuck.never_resolved _ hlater
  exact ⟨rfl, rfl, by decide, fun _ => ⟨by decide, rfl, rfl⟩⟩

-- Of two submitters that wait, one has its reply when the worker is dropped, and the other's job is
-- being executed. The job in the queue is nobody's any more.
theorem worker_serves_dropped
    : ∃ (log : Log Unit) (s : Broker Unit),
      Machine.Runs machine tidy {} log s ∧ s.channel.receiverDropped = true
        ∧ s.waiting = [1, 0] ∧ s.channel.queue = [⟨2, .wire [73]⟩]
        ∧ (s.slots 0).recv.1 = .ready (some [59]) ∧ (s.slots 1).recv.1 = .ready none
        ∧ ∀ id ∈ s.waiting, (s.slots id).waker = false
          ∧ ((s.slots id).recv.1 = .ready none
            ∨ ∃ reply, (s.slots id).recv.1 = .ready (some reply) ∧ .replied id reply ∈ log) := by
  have hrun : Machine.Runs machine tidy ({} : Broker Unit) _ _ :=
    Machine.runs_play [.submit none (.wire [73]), .submit none (.wire [73]), .work, .finish [59],
      .work, .submit none (.wire [73]), .cancel 2, .dropWorker] rfl
  exact ⟨_, _, hrun, rfl, rfl, rfl, rfl, rfl, ((worker_serves hrun).2.2 rfl).1⟩

end Broker

end

end Worker

end Server
