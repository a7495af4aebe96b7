import Mathlib.Data.List.Basic

/-!
This module contains the channels that the tasks of one thread talk over: a queue with many senders
and one receiver, and a slot for a single reply.
-/

namespace Server

namespace LocalChannel

inductive Poll (α : Type) where
  | ready (a : α)
  | pending
  deriving DecidableEq, Repr

-- A waker is registered as long as the task sleeps: to wake it is to take it out.
structure Channel (α : Type) where
  queue : List α := []
  recvWaker : Bool := false
  senderCount : Nat := 1
  receiverDropped : Bool := false

namespace Channel

variable {α : Type}

def send (c : Channel α) (value : α) : Option (Channel α) :=
  if c.receiverDropped then
    none
  else
    some { c with queue := c.queue ++ [value], recvWaker := false }

def recv (c : Channel α) : Poll (Option α) × Channel α :=
  match c.queue with
  | value :: queue => (.ready (some value), { c with queue })
  | [] => if c.senderCount = 0 then (.ready none, c) else (.pending, { c with recvWaker := true })

def dropSender (c : Channel α) : Channel α :=
  { c with
    senderCount := c.senderCount - 1
    recvWaker := if c.senderCount = 1 then false else c.recvWaker }

variable {c c' : Channel α} {value : α}

theorem of_send_some (h : c.send value = some c')
    : c.receiverDropped = false ∧
      c' = { c with queue := c.queue ++ [value], recvWaker := false } := by
  unfold send at h
  split at h
  next => cases h
  next hdropped => exact ⟨Bool.eq_false_iff.mpr hdropped, (Option.some.inj h).symm⟩

theorem of_recv_some (h : c.recv = (.ready (some value), c'))
    : c.queue = value :: c'.queue ∧ c' = { c with queue := c'.queue } := by
  revert h
  fun_cases recv c
  case case1 first queue hqueue =>
    rintro ⟨⟩
    exact ⟨hqueue, rfl⟩
  all_goals rintro ⟨⟩

theorem of_recv_none (h : c.recv = (.ready none, c')) : c.queue = [] ∧ c' = c := by
  revert h
  fun_cases recv c
  case case2 hqueue hcount =>
    rintro ⟨⟩
    exact ⟨hqueue, rfl⟩
  all_goals rintro ⟨⟩

theorem of_recv_pending (h : c.recv = (.pending, c'))
    : c.queue = [] ∧ c' = { c with recvWaker := true } := by
  revert h
  fun_cases recv c
  case case3 hqueue hcount =>
    rintro ⟨⟩
    exact ⟨hqueue, rfl⟩
  all_goals rintro ⟨⟩

end Channel

structure Oneshot (β : Type) where
  value : Option β := none
  waker : Bool := false
  senderDropped : Bool := false
  receiverDropped : Bool := false

namespace Oneshot

variable {β : Type}

def dropSender (o : Oneshot β) : Oneshot β :=
  { o with senderDropped := true, waker := false }

-- Sending uses up the sender, which is dropped at its end.
def send (o : Oneshot β) (value : β) : Oneshot β :=
  if o.receiverDropped then
    o.dropSender
  else
    { o with value := some value, waker := false }.dropSender

def recv (o : Oneshot β) : Poll (Option β) × Oneshot β :=
  match o.value with
  | some value => (.ready (some value), { o with value := none })
  | none => if o.senderDropped then (.ready none, o) else (.pending, { o with waker := true })

def dropReceiver (o : Oneshot β) : Oneshot β :=
  { o with receiverDropped := true }

variable {o o' : Oneshot β} {reply : Option β}

theorem of_recv_ready (h : o.recv = (.ready reply, o')) : reply = o.value ∧ o'.value = none := by
  revert h
  fun_cases recv o
  case case1 value hvalue =>
    rintro ⟨⟩
    exact ⟨hvalue.symm, rfl⟩
  case case2 hvalue hdropped =>
    rintro ⟨⟩
    exact ⟨hvalue.symm, hvalue⟩
  case case3 => rintro ⟨⟩

theorem of_recv_pending (h : o.recv = (.pending, o'))
    : o.value = none ∧ o.senderDropped = false ∧ o' = { o with waker := true } := by
  revert h
  fun_cases recv o
  case case3 hvalue hdropped =>
    rintro ⟨⟩
    exact ⟨hvalue, Bool.eq_false_iff.mpr hdropped, rfl⟩
  all_goals rintro ⟨⟩

end Oneshot

end LocalChannel

end Server
