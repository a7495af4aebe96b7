import RadioCat.Cw.Lemmas.Notices
import RadioCat.Cw.Safety.Replies

/-!
This module contains the way of an arm from the request to the console that holds it: which ticket
an arm was granted on, and that the reply to that ticket is shown as it is granted.
-/

namespace Cw

open Trace

@[simp]
def Activity.releases : Activity → Bool
  | .stopping _ _ _ (.restore ..) => true
  | _ => false

/-- The console that holds the arm, unless the arm is about to be released. -/
def CwSupervisor.held (s : CwSupervisor) : Option ConsoleId :=
  if s.activity.releases then none else s.arm.map Arm.owner

structure Grant where
  asked : Option (Ticket × ConsoleId) := none
  granted : Option (Ticket × ConsoleId) := none

def grant : Log → Grant :=
  observe next {}
where
  next (g : Grant) (e : Entry) : Grant :=
    match e.event with
    | .armed owner _ ticket => { g with asked := some (ticket, owner) }
    | .notice (.armed ..) => { g with granted := g.asked }
    | _ => g

def Asked (log : Log) (s : CwSupervisor) : Prop :=
  ∀ ticket owner callsign cap wpm, s.activity = .arming ticket owner callsign cap wpm →
    (grant log).asked = some (ticket, owner)

def CwNotice.ticket : CwNotice → Option Ticket
  | .reply ticket _ => some ticket
  | _ => none

def notices (log : Log) : List CwNotice :=
  told (fun e => e.event.told) log

section

variable {env : Env} {now : Instant} {s s' : CwSupervisor} {evs : List Event} {log base : Log}
  {capability : CwCapability} {config : CwConfig} {w w' : Timed} {owner : ConsoleId}

theorem Skips.grant (h : Skips grant.next now evs)
    : Cw.grant ((evs.map (Entry.mk now)).reverse ++ log) = Cw.grant log := by
  apply Skips.observe h

def Kept (s s' : CwSupervisor) : Prop :=
  (∀ ticket owner callsign cap wpm, s'.activity = .arming ticket owner callsign cap wpm →
    ∃ callsign cap wpm, s.activity = .arming ticket owner callsign cap wpm) ∧
  ∀ owner, s'.held = some owner → s.held = some owner

/-- An arm is held by whoever held it before, or is granted with the reply to its ticket. -/
structure GrantedOn (log : Log) (s : CwSupervisor) (evs : List Event) (log' : Log)
    (s' : CwSupervisor) : Prop where
  asked : Asked log' s'
  held : (∀ owner, s'.held = some owner → s.held = some owner) ∧
      (grant log').granted = (grant log).granted ∨
    ∃ ticket owner, s'.held = some owner ∧ (grant log').granted = some (ticket, owner) ∧
      .notice (.reply ticket (.ok ())) ∈ evs

theorem Kept.grantedOn (h : Kept s s') (hasked : Asked log s) (hskips : Skips grant.next now evs)
    : GrantedOn log s evs ((evs.map (Entry.mk now)).reverse ++ log) s' := by
  constructor
  . intro ticket owner callsign cap wpm hact
    rcases h.1 ticket owner callsign cap wpm hact with ⟨_, _, _, hbefore⟩
    rw [hskips.grant]
    exact hasked _ _ _ _ _ hbefore
  . rw [hskips.grant]
    exact Or.inl ⟨h.2, rfl⟩

theorem Kept.same (hact : s'.activity = s.activity)
    (harm : s'.arm.map Arm.owner = s.arm.map Arm.owner) : Kept s s' := by
  constructor
  . intro ticket owner callsign cap wpm hact'
    exact ⟨callsign, cap, wpm, hact.symm.trans hact'⟩
  . intro owner hheld
    rw [CwSupervisor.held, hact, harm] at hheld
    exact hheld

theorem Kept.gone (hact : ∀ ticket owner callsign cap wpm,
      s'.activity ≠ .arming ticket owner callsign cap wpm)
    (hheld : s'.held = none) : Kept s s' := by
  constructor
  . intro ticket owner callsign cap wpm hact'
    exact absurd hact' (hact _ _ _ _ _)
  . intro owner howner
    rw [hheld] at howner
    cases howner

theorem Kept.of_owner (hact : ∀ ticket owner callsign cap wpm,
      s'.activity ≠ .arming ticket owner callsign cap wpm)
    (hkeeps : s.activity.releases = false)
    (harm : s'.arm.map Arm.owner = s.arm.map Arm.owner) : Kept s s' := by
  constructor
  . intro ticket owner callsign cap wpm hact'
    exact absurd hact' (hact _ _ _ _ _)
  . intro owner howner
    rw [CwSupervisor.held] at howner ⊢
    rw [hkeeps, if_neg Bool.false_ne_true, ← harm]
    split at howner
    . cases howner
    . exact howner

theorem Move.grantedOn (hasked : Asked log s) (h : Move env now s evs s')
    : GrantedOn log s evs ((evs.map (Entry.mk now)).reverse ++ log) s' := by
  cases h with
  | arm owner callsign cap _ _ _ _ hact harm =>
    refine ⟨?_, Or.inl ⟨?_, rfl⟩⟩
    . rintro _ _ _ _ _ ⟨⟩
      rfl
    . intro _ hheld
      simp [CwSupervisor.held, harm] at hheld
  | finishArming out hplan hact =>
    refine ⟨?_, Or.inr ⟨_, _, rfl, hasked _ _ _ _ _ hact, by simp⟩⟩
    rintro _ _ _ _ _ ⟨⟩
  | takeNotices | shutdown | keyed | issue | idleAnswer | snapPower | snapBreakIn | armAnswer
  | sameSpeed | sendAnswer | sentLate | busy | silenced | stopAnswered | stopFailed
  | restoreAnswer =>
    apply Kept.grantedOn _ hasked
    . simp [grant.next]
    . exact Kept.same rfl rfl
  | armStatus wpm out hact =>
    apply Kept.grantedOn _ hasked
    . simp [grant.next]
    . constructor
      . rintro _ _ _ _ _ ⟨⟩
        exact ⟨_, _, _, hact⟩
      . simp [CwSupervisor.held, CwSupervisor.answered, hact]
  | @endStopping job why message after r reason hact hafter =>
    apply Kept.grantedOn _ hasked
    . simp [Request.events, grant.next]
    . apply Kept.gone
      . simp
      . cases after <;> rfl
  | endIdle | finishStoppingRestore | overClamp | finishRestoring =>
    apply Kept.grantedOn _ hasked
    . simp [Request.events, CwSupervisor.owedNotice, grant.next]
    . apply Kept.gone
      . simp
      . rfl
  | refuse c r valid hact | refuseRestore c r valid hact | retry out hplan due hact
  | restoreFailed outcome error r out unmet plain hact =>
    apply Kept.grantedOn _ hasked
    . simp [Cause.events, grant.next]
    . apply Kept.of_owner
      . simp
      . rw [hact]
        rfl
      . rfl
  | sent out hact harm =>
    apply Kept.grantedOn _ hasked
    . simp [grant.next]
    . apply Kept.of_owner
      . simp
      . rw [hact]
        rfl
      . rw [harm]
        dsimp only
        split <;> rfl
  | send _ _ _ hact harm | stop _ _ _ _ _ _ hact harm | stopAnswer _ _ _ _ _ _ _ hact harm
  | finishSending _ _ hact harm | finishStopping _ _ hact harm | planned _ _ _ hact harm
  | replanned _ _ _ _ hact harm =>
    apply Kept.grantedOn _ hasked
    . simp [Request.events, grant.next]
    . apply Kept.of_owner
      . simp
      . rw [hact]
        rfl
      . simp [harm, CwSupervisor.stopJob, CwSupervisor.withSpeed, CwSupervisor.answered]

theorem Run.asked (h : Run env capability config log w) : Asked log w.sup := by
  apply Run.invariant (fun log _ s => Asked log s) _ _ _ h
  . rintro _ _ _ _ _ ⟨⟩
  . intro _ _ _ _ hI _
    exact hI
  . intro _ _ _ _ _ _ hI hmove
    exact (hmove.grantedOn hI).asked

theorem Run.held (h : Run env capability config log w) (hheld : w.sup.held = some owner)
    : ∃ ticket, (grant log).granted = some (ticket, owner) ∧
      ∃ t, ⟨t, .notice (.reply ticket (.ok ()))⟩ ∈ log := by
  let I := fun (log : Log) (_ : Instant) (s : CwSupervisor) => Asked log s ∧
    ∀ owner, s.held = some owner → ∃ ticket, (grant log).granted = some (ticket, owner) ∧
      ∃ t, ⟨t, .notice (.reply ticket (.ok ()))⟩ ∈ log
  suffices I log w.now w.sup from this.2 owner hheld
  apply Run.invariant I _ _ _ h
  . constructor
    . rintro _ _ _ _ _ ⟨⟩
    . rintro _ ⟨⟩
  . intro _ _ _ _ hI _
    exact hI
  . intro log now s evs s' _ hI hmove
    have hgranted := hmove.grantedOn hI.1
    refine ⟨hgranted.asked, ?_⟩
    intro owner howner
    rcases hgranted.held with ⟨hkept, hsame⟩ | ⟨ticket, owner', howner', hnew, hreply⟩
    . rcases hI.2 owner (hkept owner howner) with ⟨ticket, hold, t, hreply⟩
      exact ⟨ticket, hsame.trans hold, t, List.mem_append_right _ hreply⟩
    . cases howner.symm.trans howner'
      refine ⟨ticket, hnew, now, ?_⟩
      simpa using Or.inl hreply

theorem CallStep.granted {evs : List Entry} (hs : Shape w.sup) (hasked : Asked base w.sup)
    (h : CallStep env w evs w') {ticket : Ticket}
    (hgranted : (grant (evs.reverse ++ base)).granted = some (ticket, owner))
    (hheld : w'.sup.held = some owner)
    : (∃ t, ⟨t, .notice (.reply ticket (.ok ()))⟩ ∈ evs) ∨
      (grant base).granted = some (ticket, owner) ∧ w.sup.held = some owner := by
  let I := fun (log : Log) (w' : Timed) => Asked (log ++ base) w'.sup ∧
    ∀ ticket owner, (grant (log ++ base)).granted = some (ticket, owner) →
      w'.sup.held = some owner →
      (∃ t, ⟨t, .notice (.reply ticket (.ok ()))⟩ ∈ log) ∨
        (grant base).granted = some (ticket, owner) ∧ w.sup.held = some owner
  suffices hI : I evs.reverse w' by
    have hcases := hI.2 ticket owner hgranted hheld
    simpa only [List.mem_reverse] using hcases
  apply Exec.invariant I _ _ (h.moves hs)
  . refine ⟨hasked, ?_⟩
    intro ticket owner hgranted hheld
    exact Or.inr ⟨hgranted, hheld⟩
  . intro log t evs u hI hstep
    cases hstep with
    | wait s le => exact hI
    | @move s s' now evs hmove =>
      have hnext := hmove.grantedOn hI.1
      rw [← List.append_assoc] at hnext
      refine ⟨hnext.asked, ?_⟩
      intro ticket owner hgranted hheld
      rcases hnext.held with ⟨hkept, hsame⟩ | ⟨ticket', owner', _, hnew, hreply⟩
      . rcases hI.2 ticket owner (hsame.symm.trans hgranted) (hkept owner hheld) with
          ⟨t, hreply⟩ | hbefore
        . exact Or.inl ⟨t, List.mem_append_right _ hreply⟩
        . exact Or.inr hbefore
      . cases hgranted.symm.trans hnew
        left
        refine ⟨now, ?_⟩
        simpa using Or.inl hreply

theorem mem_of_asked {ticket : Ticket} (h : (grant log).asked = some (ticket, owner))
    : ∃ t callsign, ⟨t, .armed owner callsign ticket⟩ ∈ log := by
  induction log with
  | nil => cases h
  | cons e log ih =>
    rcases e with ⟨t, event⟩
    have hold (h : (grant log).asked = some (ticket, owner))
        : ∃ t' callsign, ⟨t', .armed owner callsign ticket⟩ ∈ Entry.mk t event :: log := by
      rcases ih h with ⟨t', callsign, hmem⟩
      exact ⟨t', callsign, .tail _ hmem⟩
    cases event with
    | armed owner' callsign ticket' =>
      cases h
      exact ⟨t, callsign, .head _⟩
    | notice n => cases n <;> exact hold h
    | _ => exact hold h

theorem mem_of_granted {ticket : Ticket} (h : (grant log).granted = some (ticket, owner))
    : ∃ t callsign, ⟨t, .armed owner callsign ticket⟩ ∈ log := by
  induction log with
  | nil => cases h
  | cons e log ih =>
    rcases e with ⟨t, event⟩
    have hold (h : ∃ t callsign, ⟨t, .armed owner callsign ticket⟩ ∈ log)
        : ∃ t' callsign, ⟨t', .armed owner callsign ticket⟩ ∈ Entry.mk t event :: log := by
      rcases h with ⟨t', callsign, hmem⟩
      exact ⟨t', callsign, .tail _ hmem⟩
    cases event with
    | notice n =>
      cases n with
      | armed => exact hold (mem_of_asked h)
      | _ => exact hold (ih h)
    | _ => exact hold (ih h)

theorem endArm_held {a : Arm} (harm : s.arm = some a)
    (hact : ∀ ticket owner callsign cap wpm, s.activity ≠ .arming ticket owner callsign cap wpm)
    (hact' : ∀ reason ticket attempts lastError retryAt,
      s.activity ≠ .restoring reason ticket attempts lastError retryAt)
    (reason : DisarmReason) (stop : StopReason) (ticket : Option Ticket)
    : (endArm s reason stop ticket).held = none := by
  cases hs : s.activity with
  | idle => simp [endArm, hs, startRestore, planRestore, CwSupervisor.held]
  | sending job =>
    rw [endArm, hs]
    dsimp only
    rw [beginStop_sending _ _ _ hs harm]
    rfl
  | stopping job why message after =>
    rw [endArm, hs]
    rcases after with _ | ⟨existing, _ | _⟩ <;> rfl
  | arming => exact absurd hs (hact _ _ _ _ _)
  | restoring => exact absurd hs (hact' _ _ _ _ _)

theorem disarm_held (hs : Shape s) (owner : ConsoleId)
    : (disarm s owner).1.held ≠ some owner := by
  fun_cases disarm s owner
  case case1 harm howner hact =>
    simp [CwSupervisor.held, hact]
  case case2 harm howner s₁ ticket hticket hact =>
    cases hticket
    dsimp only
    rw [endArm_held (s := { s with nextTicket := s.nextTicket + 1 }) harm]
    . simp
    . intro _ _ _ _ _ harming
      cases (hs.of_arming harming).1.symm.trans harm
    . intro _ _ _ _ _ hrestoring
      cases (hs.of_restoring hrestoring).1.symm.trans harm
  case case3 harm howner =>
    intro hheld
    simp [CwSupervisor.held, harm, howner] at hheld
  case case4 harm _ =>
    simp [CwSupervisor.held, harm]

theorem Log.mem_total {f : Event → Multiset Nat} {n : Nat}
    : n ∈ log.total f ↔ ∃ e ∈ log, n ∈ f e.event := by
  induction log with
  | nil => simp [Log.total]
  | cons e log ih =>
    rw [Log.total, List.map_cons, List.sum_cons, Multiset.mem_add, List.exists_mem_cons_iff, ← ih]
    rfl

theorem mem_notices {n : CwNotice} : n ∈ notices log ↔ ∃ t, ⟨t, .notice n⟩ ∈ log := by
  rw [notices, told, List.mem_filterMap]
  constructor
  . rintro ⟨⟨t, event⟩, hmem, htold⟩
    cases event with
    | notice n =>
      cases htold
      exact ⟨t, List.mem_reverse.mp hmem⟩
    | _ => cases htold
  . rintro ⟨t, hmem⟩
    exact ⟨_, List.mem_reverse.mpr hmem, rfl⟩

theorem notices_call {c : Call} {t : Instant}
    : notices (((c.shown env t s).map (Entry.mk t)).reverse ++ log)
      = notices log ++ Call.emitted s (c.run env t s).1 := by
  rw [notices, told_append, List.filterMap_map, ← c.told_shown]
  rfl

theorem coe_tickets (log : Log)
    : ((notices log).filterMap CwNotice.ticket : Multiset Ticket) = log.total Event.replied := by
  induction log with
  | nil => rfl
  | cons e log ih =>
    rcases e with ⟨t, event⟩
    rw [Log.total, List.map_cons, List.sum_cons, notices, told_cons, List.filterMap_append,
      ← Multiset.coe_add, add_comm]
    congr 1
    cases event with
    | notice n => cases n <;> rfl
    | _ => rfl

theorem Run.tickets_nodup (h : Run env capability config log w)
    : ((notices log).filterMap CwNotice.ticket).Nodup := by
  rw [← Multiset.coe_nodup, coe_tickets]
  apply Multiset.nodup_of_le _ h.asked_nodup
  rw [h.balances_tickets, add_assoc]
  apply Multiset.le_add_right

theorem reply_notMem_of_nodup {older newer : List CwNotice}
    (h : ((older ++ newer).filterMap CwNotice.ticket).Nodup) {ticket : Ticket}
    {result result' : Except HostRefusal Unit} (hmem : .reply ticket result ∈ older)
    : .reply ticket result' ∉ newer := by
  intro hmem'
  rw [List.filterMap_append] at h
  apply List.disjoint_of_nodup_append h (a := ticket)
  . apply List.mem_filterMap.mpr
    exact ⟨_, hmem, rfl⟩
  . apply List.mem_filterMap.mpr
    exact ⟨_, hmem', rfl⟩

theorem Run.asked_of_reply (h : Run env capability config log w) {ticket : Ticket}
    {result : Except HostRefusal Unit} (hmem : .reply ticket result ∈ notices log)
    : ticket ∈ log.total Event.asked := by
  rcases mem_notices.mp hmem with ⟨t, hmem⟩
  rw [h.balances_tickets, add_assoc]
  apply Multiset.mem_add.mpr
  left
  apply Log.mem_total.mpr
  exact ⟨_, hmem, Multiset.mem_singleton_self _⟩

theorem Run.granted_of_reply (h : Run env capability config base w) {evs : List Entry}
    (hstep : CallStep env w evs w') {ticket : Ticket}
    (hreply : .reply ticket (.ok ()) ∈ notices base)
    (hgranted : (grant (evs.reverse ++ base)).granted = some (ticket, owner))
    (hheld : w'.sup.held = some owner)
    : (grant base).granted = some (ticket, owner) ∧ w.sup.held = some owner := by
  rcases hstep.granted h.shape h.asked hgranted hheld with ⟨t, hagain⟩ | hbefore
  . have hnodup := Run.tickets_nodup (h.tail hstep)
    rw [notices, told_append] at hnodup
    exfalso
    apply reply_notMem_of_nodup hnodup hreply
    apply List.mem_filterMap.mpr
    exact ⟨_, hagain, rfl⟩
  . exact hbefore

theorem Run.fresh {evs : List Entry} (h : Run env capability config (evs.reverse ++ base) w)
    {ticket : Ticket} {e : Entry} (he : e ∈ evs) (hticket : ticket ∈ e.event.asked)
    : ticket ∉ base.total Event.asked := by
  have hnodup := h.asked_nodup
  rw [Log.total, List.map_append, List.sum_append, Multiset.nodup_add] at hnodup
  apply Multiset.disjoint_left.mp hnodup.2.2
  apply Log.mem_total.mpr
  exact ⟨e, List.mem_reverse.mpr he, hticket⟩

end

end Cw
