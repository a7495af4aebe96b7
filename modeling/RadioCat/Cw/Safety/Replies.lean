import Mathlib.Algebra.Order.BigOperators.Group.List
import Mathlib.Data.Multiset.OrderedMonoid
import RadioCat.Cw.Lemmas.Refine
import RadioCat.Trace.Ledger

/-!
This module contains the answers a run owes to its consoles: a reply for every ticket it gave out,
and an end for every job it accepted.
-/

namespace Cw

open Trace

namespace Event

@[simp]
def asked : Event → Multiset Ticket
  | .armed _ _ ticket | .disarmed _ ticket => {ticket}
  | _ => 0

@[simp]
def replied : Event → Multiset Ticket
  | .notice (.reply ticket _) => {ticket}
  | _ => 0

@[simp]
def accepted : Event → Multiset Nat
  | .sent _ _ _ job => {job}
  | _ => 0

@[simp]
def ended : Event → Multiset Nat
  | .notice (.jobEnded job _ _) => {job}
  | _ => 0

end Event

namespace Activity

@[simp]
def tickets : Activity → Multiset Ticket
  | .arming ticket .. => {ticket}
  | .stopping _ _ _ after => after.ticket.elim 0 singleton
  | .restoring _ ticket .. => ticket.elim 0 singleton
  | _ => 0

@[simp]
def jobs : Activity → Multiset Nat
  | .sending job => {job.id}
  | .stopping job .. => {job}
  | _ => 0

@[simp]
def isStopping : Activity → Bool
  | .stopping .. => true
  | _ => false

end Activity

@[simp]
def Event.isLoss : Event → Bool
  -- The restore this starts takes the place of the job and of what was to follow it.
  | .answered s step outcome => step.overClamp outcome && s.activity.isStopping
  | _ => false

@[simp]
def Event.lost (held : Activity → Multiset Nat) (e : Event) : Multiset Nat :=
  match e with
  | .answered s .. => if e.isLoss then held s.activity else 0
  | _ => 0

def Log.total (f : Event → Multiset Nat) (log : Log) : Multiset Nat :=
  (log.map fun e => f e.event).sum

def ledger (opened closed : Event → Multiset Nat) (held : Activity → Multiset Nat)
    : Ledger Timed Entry (Multiset Nat) where
  opened e := opened e.event
  closed e := closed e.event + e.event.lost held
  pending w := held w.sup.activity

def tickets : Ledger Timed Entry (Multiset Nat) :=
  ledger Event.asked Event.replied Activity.tickets

def jobs : Ledger Timed Entry (Multiset Nat) :=
  ledger Event.accepted Event.ended Activity.jobs

section

variable {env : Env} {now : Instant} {s s' : CwSupervisor} {evs : List Event} {log : Log}
  {capability : CwCapability} {config : CwConfig} {w : Timed}

theorem Step.overClamp_of_meets {step : Step} {outcome : CwOutcome}
    (meets : step.meets outcome = true) : step.overClamp outcome = false := by
  cases step <;> cases outcome <;> first | rfl | simp_all [Step.meets, Step.overClamp]

theorem lost_of_isLoss {e : Event} (h : e.isLoss = false) (held : Activity → Multiset Nat)
    : e.lost held = 0 := by
  cases e with
  | answered => simp_all
  | _ => rfl

section Balances

variable {opened closed : Event → Multiset Nat} {held : Activity → Multiset Nat}

theorem balances_of_sum
    (h : (evs.map opened).sum + held s.activity
      = (evs.map fun e => closed e + e.lost held).sum + held s'.activity)
    : (ledger opened closed held).Balances ⟨now, s⟩ (evs.map (Entry.mk now)) ⟨now, s'⟩ := by
  rw [Ledger.Balances, List.map_map, List.map_map]
  exact h

end Balances

/--
Both books of a supervisor balance.
-/
def Balanced (now : Instant) (s : CwSupervisor) (evs : List Event) (s' : CwSupervisor) : Prop :=
  tickets.Balances ⟨now, s⟩ (evs.map (Entry.mk now)) ⟨now, s'⟩
    ∧ jobs.Balances ⟨now, s⟩ (evs.map (Entry.mk now)) ⟨now, s'⟩

namespace Balanced

theorem silent (htickets : s.activity.tickets = s'.activity.tickets)
    (hjobs : s.activity.jobs = s'.activity.jobs) : Balanced now s [] s' :=
  ⟨Ledger.balances_nil htickets, Ledger.balances_nil hjobs⟩

theorem issued (h : Balanced now s evs s') (action : CwAction)
    : Balanced now s (.issued action :: evs) s' :=
  ⟨h.1.cons_quiet rfl rfl, h.2.cons_quiet rfl rfl⟩

theorem answered {step : Step} {outcome : CwOutcome} (h : Balanced now s evs s')
    (hloss : step.overClamp outcome = false ∨ s.activity.isStopping = false)
    : Balanced now s (.answered s step outcome :: evs) s' := by
  have hloss : (Event.answered s step outcome).isLoss = false := by
    rcases hloss with h | h
    . rw [Event.isLoss, h, Bool.false_and]
    . rw [Event.isLoss, h, Bool.and_false]
  constructor
  . apply h.1.cons_quiet rfl
    exact (zero_add _).trans (lost_of_isLoss hloss _)
  . apply h.2.cons_quiet rfl
    exact (zero_add _).trans (lost_of_isLoss hloss _)

end Balanced

theorem Move.balanced (h : Move env now s evs s') : Balanced now s evs s' := by
  cases h with
  | takeNotices | shutdown | keyed => exact .silent rfl rfl
  | issue => exact .issued (.silent rfl rfl) _
  | retry _ _ _ hact => exact .silent (by rw [hact]; rfl) (by rw [hact]; rfl)
  | arm _ _ _ _ _ _ _ hact | send _ _ _ hact | finishArming _ _ hact | finishSending _ _ hact
  | finishStopping _ _ hact =>
    constructor <;> apply balances_of_sum <;> rw [hact] <;> rfl
  | stop r _ _ _ hafter _ hact =>
    constructor
    . apply balances_of_sum
      simp only [hact, stopJob_activity, Activity.tickets, hafter]
      cases r <;> rfl
    . apply balances_of_sum
      rw [hact]
      cases r <;> rfl
  | stopAnswer _ _ _ _ hafter _ _ hact =>
    refine .answered ⟨?_, ?_⟩ (Or.inr (by rw [hact]; rfl))
    . apply balances_of_sum
      simp only [hact, stopJob_activity, Activity.tickets, hafter]
      rfl
    . apply balances_of_sum
      rw [hact]
      rfl
  | endStopping r _ hact hafter =>
    constructor
    . apply balances_of_sum
      simp only [hact, Activity.tickets, hafter, After.restoring_ticket]
      cases r <;> rfl
    . apply balances_of_sum
      rw [hact]
      cases r <;> rfl
  | endIdle r _ hact =>
    rw [CwSupervisor.owedNotice]
    cases s.idOwed <;> constructor <;> apply balances_of_sum <;> rw [hact] <;> cases r <;> rfl
  | @refuse ticket _ _ _ _ c r _ hact | @refuseRestore ticket _ _ _ _ c r _ hact =>
    have hreply {s' : CwSupervisor} (htickets : s'.activity.tickets = 0)
        (hjobs : s'.activity.jobs = 0)
        : Balanced now s [.notice (.reply ticket (.error r))] s' := by
      constructor <;> apply balances_of_sum <;> rw [hact]
      . rw [htickets]
        rfl
      . rw [hjobs]
        rfl
    cases c with
    | request => exact hreply rfl rfl
    | answer => exact .answered (hreply rfl rfl) (Or.inr (by rw [hact]; rfl))
  | finishStoppingRestore _ _ hact =>
    rw [CwSupervisor.owedNotice]
    cases s.idOwed <;> constructor <;> apply balances_of_sum <;> rw [hact] <;> rfl
  | @finishRestoring _ ticket _ _ _ _ hact =>
    cases ticket <;> constructor <;> apply balances_of_sum <;> rw [hact] <;> rfl
  | @restoreFailed _ _ ticket _ _ _ _ _ _ _ _ _ hact =>
    refine .answered ⟨?_, ?_⟩ (Or.inr (by rw [hact]; rfl)) <;> apply balances_of_sum <;>
      rw [hact] <;> cases ticket <;> rfl
  | @overClamp max p _ _ _ _ _ _ above hact =>
    have hlost (held : Activity → Multiset Nat)
        : Event.lost held (.answered s (.powerAtMost max) (.power p)) = held s.activity := by
      simp [Step.overClamp, above, hact]
    rw [CwSupervisor.owedNotice]
    cases s.idOwed <;> constructor <;> apply balances_of_sum <;>
      rw [List.map_cons, List.map_cons, List.sum_cons, List.sum_cons, hlost] <;> simp
  | snapPower | snapBreakIn | busy | silenced | sentLate =>
    exact .answered (.silent rfl rfl) (Or.inl rfl)
  | stopAnswered _ _ meets =>
    exact .answered (.silent rfl rfl) (Or.inl (Step.overClamp_of_meets meets))
  | stopFailed _ _ _ _ _ below => exact .answered (.silent rfl rfl) (Or.inl below)
  | idleAnswer _ _ _ hact | armAnswer _ _ _ _ _ hact | sameSpeed _ _ _ hact
  | sendAnswer _ _ _ _ _ hact | restoreAnswer _ _ _ _ hact =>
    exact .answered (.silent rfl rfl) (Or.inr (by rw [hact]; rfl))
  | armStatus _ _ hact | planned _ _ _ hact | replanned _ _ _ _ hact | sent _ hact =>
    exact .answered (.silent (by rw [hact]; rfl) (by rw [hact]; rfl)) (Or.inr (by rw [hact]; rfl))

theorem Move.asked (h : Move env now s evs s')
    : (evs.map Event.asked).sum = 0 ∧ s'.nextTicket = s.nextTicket
      ∨ (evs.map Event.asked).sum = {s.nextTicket} ∧ s'.nextTicket = s.nextTicket + 1 := by
  cases h with
  | arm => exact Or.inr ⟨by simp, rfl⟩
  | stop r | endStopping r | endIdle r =>
    cases r with
    | other =>
      refine Or.inl ⟨?_, rfl⟩
      simp [Request.events, Request.owner, CwSupervisor.owedNotice, Function.comp_def]
    | disarm =>
      refine Or.inr ⟨?_, rfl⟩
      simp [Request.events, Request.owner, CwSupervisor.owedNotice, Function.comp_def]
  | _ =>
    refine Or.inl ⟨?_, rfl⟩
    simp [Cause.events, CwSupervisor.owedNotice, Function.comp_def]

theorem MoveStep.balanced {w' : Timed} {evs : List Entry} (h : MoveStep env w evs w')
    : tickets.Balances w evs w' ∧ jobs.Balances w evs w' := by
  cases h with
  | wait => exact ⟨Ledger.balances_nil rfl, Ledger.balances_nil rfl⟩
  | move hmove => exact hmove.balanced

theorem Run.balances {opened closed : Event → Multiset Nat} {held : Activity → Multiset Nat}
    (hidle : held .idle = 0)
    (hstep : ∀ w evs w', MoveStep env w evs w' → (ledger opened closed held).Balances w evs w')
    (h : Run env capability config log w)
    : log.total opened = log.total closed + log.total (Event.lost held)
        + held w.sup.activity := by
  have hmoves := Calls.moves (new_shape capability config) h
  have hbalances := Ledger.balances_exec hstep hmoves
  have hpending : (ledger opened closed held).pending ⟨0, new capability config⟩ = 0 := hidle
  rw [Ledger.Balances, hpending, add_zero] at hbalances
  apply hbalances.trans
  rw [show (log.map (ledger opened closed held).closed).sum
    = log.total closed + log.total (Event.lost held) from List.sum_map_add]
  rfl

theorem Run.balances_tickets (h : Run env capability config log w)
    : log.total Event.asked = log.total Event.replied
        + log.total (Event.lost Activity.tickets) + w.sup.activity.tickets := by
  exact h.balances rfl fun _ _ _ hstep => (MoveStep.balanced hstep).1

theorem Run.balances_jobs (h : Run env capability config log w)
    : log.total Event.accepted = log.total Event.ended
        + log.total (Event.lost Activity.jobs) + w.sup.activity.jobs := by
  exact h.balances rfl fun _ _ _ hstep => (MoveStep.balanced hstep).2

theorem total_events (f : Event → Multiset Nat)
    : Log.total f ((evs.map (Entry.mk now)).reverse ++ log) = (evs.map f).sum + log.total f := by
  simp [Log.total, Function.comp_def, List.sum_reverse]

theorem Run.asked_nodup (h : Run env capability config log w)
    : (log.total Event.asked).Nodup := by
  let I := fun (log : Log) (_ : Instant) (s : CwSupervisor) => (log.total Event.asked).Nodup
    ∧ ∀ ticket ∈ log.total Event.asked, ticket < s.nextTicket
  suffices I log w.now w.sup from this.1
  apply Run.invariant I _ _ _ h
  . simp [I, Log.total]
  . intro _ _ _ _ hI _
    exact hI
  . intro _ _ _ _ _ _ hI hmove
    obtain ⟨hnodup, hlt⟩ := hI
    simp only [I, total_events]
    rcases hmove.asked with ⟨hasked, hnext⟩ | ⟨hasked, hnext⟩
    . rw [hasked, zero_add, hnext]
      exact ⟨hnodup, hlt⟩
    . rw [hasked, hnext, Multiset.singleton_add]
      refine ⟨Multiset.nodup_cons.mpr ⟨fun hmem => ?_, hnodup⟩, ?_⟩
      . exact Nat.lt_irrefl _ (hlt _ hmem)
      . intro ticket hticket
        rw [Multiset.mem_cons] at hticket
        rcases hticket with rfl | hticket
        . exact Nat.lt_succ_self _
        . exact Nat.lt_succ_of_lt (hlt _ hticket)

theorem isLoss_of_lost {e : Event} (h : e.lost Activity.jobs = 0) : e.isLoss = false := by
  cases e with
  | answered s step outcome => cases hact : s.activity <;> simp_all
  | _ => rfl

theorem total_lost (h : ∀ e ∈ log, e.event.isLoss = false) (held : Activity → Multiset Nat)
    : log.total (Event.lost held) = 0 := by
  apply List.sum_eq_zero
  intro x hx
  obtain ⟨e, he, rfl⟩ := List.mem_map.mp hx
  exact lost_of_isLoss (h e he) held

theorem answered_once (h : Run env capability config log w)
    : (log.total Event.asked).Nodup
        ∧ log.total Event.replied ≤ log.total Event.asked
        ∧ log.total Event.ended ≤ log.total Event.accepted
        ∧ (w.sup.isSettled = true →
          (log.total Event.replied = log.total Event.asked
              ∧ log.total Event.ended = log.total Event.accepted
            ↔ ∀ e ∈ log, e.event.isLoss = false)) := by
  have htickets := h.balances_tickets
  have hjobs := h.balances_jobs
  refine ⟨h.asked_nodup, ?_, ?_, fun hsettled => ?_⟩
  . rw [htickets, add_assoc]
    exact Multiset.le_add_right _ _
  . rw [hjobs, add_assoc]
    exact Multiset.le_add_right _ _
  -- Nothing is pending any more, so what was not answered was lost.
  have hidle : w.sup.activity = .idle := by
    simp only [CwSupervisor.isSettled, CwSupervisor.isLive] at hsettled
    simp_all
  rw [hidle] at htickets hjobs
  constructor
  . rintro ⟨_, hended⟩ e he
    have hlost : log.total (Event.lost Activity.jobs) = 0 := by simpa [hended] using hjobs
    apply isLoss_of_lost
    exact List.sum_eq_zero_iff.mp hlost _ (List.mem_map_of_mem he)
  . intro hloss
    rw [htickets, hjobs, total_lost hloss, total_lost hloss]
    simp

theorem answered_once_kenwood
    : let script := Bench.kenwoodKeying ++ [(0, .complete .done), (0, .disarm 1)]
        ++ Bench.exchange [.done] ++ [(.fromSecs 10, .nextAction), (0, .complete .done)]
        ++ Bench.exchange [.power 100] ++ [(0, .nextAction)]
      let res := Bench.run Bench.kenwood script
      res.2.sup.isSettled = true
        ∧ (res.1.total Event.asked).Nodup
        ∧ res.1.total Event.replied ≤ res.1.total Event.asked
        ∧ res.1.total Event.ended ≤ res.1.total Event.accepted
        ∧ (res.2.sup.isSettled = true →
          (res.1.total Event.replied = res.1.total Event.asked
              ∧ res.1.total Event.ended = res.1.total Event.accepted
            ↔ ∀ e ∈ res.1, e.event.isLoss = false)) :=
  ⟨by decide +kernel, answered_once (Bench.isRun Bench.kenwood _)⟩

theorem never_answered
    : let script := [(0, .arm 1 ['N', '0', 'C', 'A', 'L', 'L'] none)]
        ++ Bench.exchange [.status true false (some 20), .power 100, .done, .power 5]
        ++ [(0, .nextAction), (0, .send 1 ['c', 'q'])]
        ++ Bench.exchange [.status true false (some 20)]
        ++ [(0, .nextAction), (0, .disarm 1), (0, .complete (.power 100))]
        ++ Bench.exchange [.done, .power 100] ++ [(0, .nextAction)]
      let res := Bench.run Bench.kenwood script
      res.2.sup.isSettled = true
        ∧ res.1.total Event.asked = {1, 2} ∧ res.1.total Event.replied = {1}
        ∧ res.1.total Event.accepted = {1} ∧ res.1.total Event.ended = 0 := by
  -- The power is being read for the job when its console disarms, and is found above the clamp.
  decide +kernel

end

end Cw
