import RadioCat.Trace.Machine

/-!
This module contains the completion channel: one thread polls the receiver while another sends a
value or drops the sender. Both take the lock of the slot and the lock of the waker one after the
other, and every step of the machine is one of these critical sections.
-/

namespace Completion

open Trace

universe u v

variable {α : Type u} {ω : Type v}

inductive Slot (α : Type u) where
  | empty
  | value (v : α)
  | canceled
  deriving DecidableEq, Repr

inductive Poll (α : Type u) where
  | pending
  | ready (v : α)
  | canceled
  deriving DecidableEq, Repr

inductive Rx (ω : Type v) where
  | idle
  -- `poll` found the slot empty and has not registered its waker yet.
  | checked (w : ω)
  -- A poll has returned `Ready`.
  | resolved
  deriving DecidableEq, Repr

inductive Tx where
  | live
  -- `send` has stored the value and not woken anyone yet.
  | stored
  -- `send` is done but for the drop of the sender.
  | woken
  -- `drop` has marked the slot and not woken anyone yet.
  | marked
  | finished
  deriving DecidableEq, Repr

structure Shared (α : Type u) (ω : Type v) where
  slot : Slot α := .empty
  waker : Option ω := none
  rx : Rx ω := .idle
  tx : Tx := .live
  deriving DecidableEq, Repr

inductive Section (α : Type u) (ω : Type v) where
  | poll (w : ω)
  | register
  | store (v : α)
  | wake
  | drop
  deriving DecidableEq, Repr

inductive Event (α : Type u) (ω : Type v) where
  | returned (w : ω) (poll : Poll α)
  | woke (w : ω)
  deriving DecidableEq, Repr

def pollSlot (s : Shared α ω) (w : ω) : List (Event α ω) × Shared α ω :=
  match s.slot with
  | .empty => ([], { s with rx := .checked w })
  | .value v => ([.returned w (.ready v)], { s with slot := .empty, rx := .resolved })
  | .canceled => ([.returned w .canceled], { s with slot := .empty, rx := .resolved })

def wakeIfRegistered (s : Shared α ω) (tx : Tx) : List (Event α ω) × Shared α ω :=
  (s.waker.toList.map .woke, { s with waker := none, tx })

def dropTx (s : Shared α ω) : Shared α ω :=
  match s.slot with
  | .empty => { s with slot := .canceled, tx := .marked }
  | _ => { s with tx := .finished }

def channel : Machine (Shared α ω) (Section α ω) (Event α ω)
  | s, .poll w =>
    match s.rx with
    | .checked _ => none
    | _ => some (pollSlot s w)
  | s, .register =>
    match s.rx with
    | .checked w => some ([.returned w .pending], { s with waker := some w, rx := .idle })
    | _ => none
  | s, .store v =>
    match s.tx with
    | .live => some ([], { s with slot := .value v, tx := .stored })
    | _ => none
  | s, .wake =>
    match s.tx with
    | .stored => some (wakeIfRegistered s .woken)
    | .marked => some (wakeIfRegistered s .finished)
    | _ => none
  | s, .drop =>
    match s.tx with
    | .live | .woken => some ([], dropTx s)
    | _ => none

structure Answer (α : Type u) (ω : Type v) where
  waker : ω
  poll : Poll α
  woken : Bool := false
  deriving DecidableEq, Repr

variable [DecidableEq ω]

def lastPoll : List (Event α ω) → Option (Answer α ω) :=
  observe next none
where
  next (last : Option (Answer α ω)) : Event α ω → Option (Answer α ω)
    | .returned waker poll => some { waker, poll }
    | .woke w => last.map fun a => { a with woken := a.woken || a.waker = w }

/--
Once the sender is gone, nobody is left to wake a receiver that is still told to wait.
-/
def Woken (log : List (Event α ω)) (s : Shared α ω) : Prop :=
  s.tx = .finished → s.rx = .idle →
    ∀ a ∈ lastPoll log, a.poll = .pending → a.woken = true

def Rx.isChecked : Rx ω → Bool
  | .checked _ => true
  | _ => false

def apart : Discipline (Shared α ω) (Section α ω)
  | s, .poll _ => s.rx ≠ .resolved
  | s, .wake => s.rx.isChecked = false
  | _, _ => True

instance : (s : Shared α ω) → (a : Section α ω) → Decidable (apart s a)
  | s, .poll _ => inferInstanceAs (Decidable (s.rx ≠ .resolved))
  | s, .wake => inferInstanceAs (Decidable (s.rx.isChecked = false))
  | _, .register | _, .store _ | _, .drop => instDecidableTrue

/--
While the last poll is told to wait, its waker is registered and the sender has yet to take it.
-/
structure Waits (log : List (Event α ω)) (s : Shared α ω) : Prop where
  fresh : s.tx = .live → s.slot = .empty
  filled : s.tx ≠ .live → s.rx ≠ .resolved → s.slot ≠ .empty
  between : ∀ w, s.rx = .checked w → s.tx ≠ .woken ∧ s.tx ≠ .finished
  last : s.rx = .idle → ∀ a ∈ lastPoll log, a.woken = true
    ∨ s.waker = some a.waker ∧ s.tx ≠ .woken ∧ s.tx ≠ .finished

section

variable {log evs : List (Event α ω)} {s t : Shared α ω}

theorem Waits.poll {w : ω} (h : Waits log s) (ok : s.rx ≠ .resolved)
    : Waits ((pollSlot s w).1.reverse ++ log) (pollSlot s w).2 := by
  unfold pollSlot
  split
  next hslot =>
    -- Nothing was stored, so the sender is still live.
    have hlive : s.tx = .live := by
      by_contra hne
      exact h.filled hne ok hslot
    exact ⟨h.fresh, by simp [hlive], by simp [hlive], by simp⟩
  next => exact ⟨by simp, by simp, by simp, by simp⟩
  next => exact ⟨by simp, by simp, by simp, by simp⟩

theorem Waits.register {w : ω} (h : Waits log s) (hrx : s.rx = .checked w)
    : Waits (.returned w .pending :: log) { s with waker := some w, rx := .idle } := by
  refine ⟨h.fresh, ?_, by simp, ?_⟩
  . intro hlive _
    apply h.filled hlive
    simp [hrx]
  . rintro _ a ⟨⟩
    exact Or.inr ⟨rfl, h.between w hrx⟩

theorem Waits.store {v : α} (h : Waits log s)
    : Waits log { s with slot := .value v, tx := .stored } := by
  refine ⟨by simp, by simp, by simp, ?_⟩
  intro hidle a ha
  apply (h.last hidle a ha).imp id
  intro hwaits
  exact ⟨hwaits.1, by simp⟩

theorem Waits.wake {tx : Tx} (h : Waits log s) (hrx : s.rx.isChecked = false)
    (hlive : s.tx ≠ .live) (hlive' : tx ≠ .live)
    : Waits ((wakeIfRegistered s tx).1.reverse ++ log) (wakeIfRegistered s tx).2 := by
  refine ⟨fun h => absurd h hlive', fun _ => h.filled hlive, ?_, ?_⟩
  . intro w hw
    have hw : s.rx = .checked w := hw
    rw [hw] at hrx
    cases hrx
  intro hidle a ha
  apply Or.inl
  unfold wakeIfRegistered at ha
  cases hwaker : s.waker with
  | none =>
    rw [hwaker] at ha
    rcases h.last hidle a ha with hwoken | hwaits
    . exact hwoken
    . simp [hwaker] at hwaits
  | some w =>
    rw [hwaker] at ha
    obtain ⟨b, hb, rfl⟩ := Option.map_eq_some_iff.mp ha
    rcases h.last hidle b hb with hwoken | hwaits
    . simp [hwoken]
    . simp_all

theorem Waits.drop (h : Waits log s) (htx : s.tx = .live ∨ s.tx = .woken)
    : Waits log (dropTx s) := by
  unfold dropTx
  split
  next hslot =>
    refine ⟨by simp, by simp, by simp, ?_⟩
    intro hidle a ha
    apply (h.last hidle a ha).imp id
    intro hwaits
    exact ⟨hwaits.1, by simp⟩
  next hslot =>
    have hwoken : s.tx = .woken := htx.resolve_left fun hlive => hslot (h.fresh hlive)
    refine ⟨by simp, ?_, ?_, ?_⟩
    . intro _ _
      exact hslot
    . intro w hw
      exact absurd hwoken (h.between w hw).1
    . intro hidle a ha
      apply (h.last hidle a ha).imp id
      intro hwaits
      exact absurd hwoken hwaits.2.1

theorem Waits.step {a : Section α ω} (h : Waits log s) (ok : apart s a)
    (taken : channel s a = some (evs, t))
    : Waits (evs.reverse ++ log) t := by
  cases a with
  | poll w =>
    dsimp only [channel] at taken
    split at taken
    . cases taken
    . rw [Option.some.injEq] at taken
      have hpoll := h.poll (w := w) ok
      rwa [taken] at hpoll
  | register =>
    dsimp only [channel] at taken
    split at taken
    next w hrx =>
      cases taken
      exact h.register hrx
    next => cases taken
  | store v =>
    dsimp only [channel] at taken
    split at taken
    next htx =>
      cases taken
      exact h.store
    next => cases taken
  | wake =>
    dsimp only [channel] at taken
    split at taken
    next htx =>
      cases taken
      exact h.wake ok (by simp [htx]) (by simp)
    next htx =>
      cases taken
      exact h.wake ok (by simp [htx]) (by simp)
    next => cases taken
  | drop =>
    dsimp only [channel] at taken
    split at taken
    next htx =>
      cases taken
      exact h.drop (Or.inl htx)
    next htx =>
      cases taken
      exact h.drop (Or.inr htx)
    next => cases taken

theorem woken_unless_between (h : channel.Runs apart {} log s) : Woken log s := by
  have hwaits : Waits log s := by
    apply Machine.Runs.invariant Waits _ Waits.step h
    exact ⟨by simp, by simp, by simp, by simp [lastPoll]⟩
  intro hfinished hidle a ha _
  apply (hwaits.last hidle a ha).resolve_right
  intro hwaits
  exact hwaits.2.2 hfinished

end

theorem woken_after_register
    : ∃ log, channel.Runs apart {} log { slot := .value 7, tx := .finished }
        ∧ lastPoll log = some { waker := 1, poll := .pending, woken := true }
        ∧ Woken log ({ slot := .value 7, tx := .finished } : Shared Nat Nat) := by
  have hrun : channel.Runs apart {} [.woke 1, .returned 1 .pending]
      ({ slot := .value 7, tx := .finished } : Shared Nat Nat) := by
    exact Machine.runs_play [.poll 1, .store 7, .register, .wake, .drop] rfl
  exact ⟨_, hrun, rfl, woken_unless_between hrun⟩

theorem lost_wakeup
    : ∃ log s, channel.Runs anything ({} : Shared Nat Nat) log s ∧ ¬ Woken log s := by
  -- The value is stored and announced between the poll's look at the slot and its registration.
  have hrun : channel.Runs anything {} [.returned 1 .pending]
      ({ slot := .value 7, waker := some 1, tx := .finished } : Shared Nat Nat) := by
    exact Machine.runs_play [.poll 1, .store 7, .wake, .register, .drop] rfl
  refine ⟨_, _, hrun, ?_⟩
  intro hwoken
  have := hwoken rfl rfl _ rfl rfl
  contradiction

end Completion
