import RadioCat.Cw.Lemmas.Refine

/-!
This module contains what has been checked when an arm is granted: the radio is in CW and not
transmitting, its power is clamped and reads back clamped, and its break-in is the one its keyer
needs.
-/

namespace Cw

open Trace

structure Checks where
  ticket : Option Ticket := none
  status : Option (Bool × Bool) := none
  power : Option Nat := none
  powerRead : Option Nat := none
  breakIn : Option BreakInKind := none
  stale : Bool := false

namespace Checks

def issue (c : Checks) : CwAction → Checks
  | .setPower raw => { c with power := some raw, powerRead := none }
  | _ => c

def answer (c : Checks) (action : Option CwAction) (outcome : CwOutcome) : Checks :=
  match action, outcome with
  | some .readStatus, .status cwMode transmitting _ =>
    { c with status := some (cwMode, transmitting) }
  | some .readPower, .power p => { c with powerRead := some p }
  | some .readBreakIn, .breakIn k => { c with breakIn := some k }
  | _, _ => c

end Checks

def foundWrong (s : CwSupervisor) (step : Step) (outcome : CwOutcome) : Bool :=
  -- Nothing is planned that would set the break-in, and it is not the one the keyer needs.
  match step, outcome, s.sendText.bind CwSendText.requiresBreakIn with
  | .snapBreakIn, .breakIn k, some want => k != want && !s.plan.contains (.setBreakIn want)
  | _, _, _ => false

def Checks.answered (c : Checks) (s : CwSupervisor) (step : Step) (outcome : CwOutcome) : Checks :=
  let c' := c.answer step.action outcome
  { c' with stale := foundWrong s step outcome || c'.stale }

def checks : Log → Checks :=
  observe next {}
where
  next (c : Checks) (e : Entry) : Checks :=
    match e.event with
    | .armed _ _ ticket => { ticket := some ticket }
    | .issued action => c.issue action
    | .answered s step outcome => c.answered s step outcome
    | _ => c

def arms : Log → List Ticket :=
  observe next []
where
  next (tickets : List Ticket) (e : Entry) : List Ticket :=
    match e.event with
    | .armed _ _ ticket => ticket :: tickets
    | _ => tickets

def Activity.disarmTicket : Activity → Option Ticket
  | .stopping _ _ _ after => after.ticket
  | .restoring _ ticket .. => ticket
  | _ => none

structure Distinct (log : Log) (s : CwSupervisor) : Prop where
  lt : ∀ t ∈ arms log, t < s.nextTicket
  disarm : ∀ t ∈ s.activity.disarmTicket, t ∉ arms log

def BreakInChecked (k : BreakInKind) (c : Checks) (todo : List Step) : Prop :=
  (c.stale = false ∧ (.snapBreakIn ∈ todo ∨ .verifyBreakIn k ∈ todo ∨ c.breakIn = some k))
    ∨ (c.stale = true ∧ c.breakIn ≠ some k ∧ ∀ x ∈ todo, x.action ≠ some .readBreakIn)

structure Prepared (send : CwSendText) (gate : TxGateCapability) (c : Checks) (s : CwSupervisor)
    : Prop where
  status : .status ∈ s.todo ∨ c.status = some (true, false)
  power : .setPower gate.lowPowerRaw ∈ s.plan
    ∨ (c.power = some gate.lowPowerRaw
      ∧ (.verifyPower gate.lowPowerRaw ∈ s.todo ∨ c.powerRead = some gate.lowPowerRaw))
  breakIn : ∀ k, send.requiresBreakIn = some k → BreakInChecked k c s.todo

namespace ArmWrites

variable {send : CwSendText} {gate : TxGateCapability} {writes : List Step} {k : BreakInKind}

theorem verifyPower_mem (h : ArmWrites send gate writes)
    : .verifyPower gate.lowPowerRaw ∈ writes := by
  rcases h with rfl | rfl
  . exact List.mem_cons_self
  . exact List.mem_filter.mpr ⟨List.mem_cons_self, rfl⟩

theorem setPower_not_mem (h : ArmWrites send gate writes) (v : Nat) : .setPower v ∉ writes := by
  have : .setPower v ∉ armPlan.armWrites send gate := by
    unfold armPlan.armWrites
    split <;> simp
  rcases h with rfl | rfl
  . exact this
  . exact fun hmem => this (List.mem_filter.mp hmem).1

theorem breakIn (h : ArmWrites send gate writes) (hk : send.requiresBreakIn = some k)
    : writes = [.verifyPower gate.lowPowerRaw, .setBreakIn k, .verifyBreakIn k]
        ∨ writes = [.verifyPower gate.lowPowerRaw] := by
  have hwrites : armPlan.armWrites send gate
      = [.verifyPower gate.lowPowerRaw, .setBreakIn k, .verifyBreakIn k] := by
    simp [armPlan.armWrites, hk]
  unfold ArmWrites at h
  rw [hwrites] at h
  exact h

end ArmWrites

namespace ArmShape

variable {send : CwSendText} {gate : TxGateCapability} {step : Step} {plan : List Step}
  {out : Option Step} {snap : Snapshot} {k : BreakInKind}

theorem clamp_of_read (h : ArmShape send gate plan (some step) snap) (hread : step.isRead = true)
    : .setPower gate.lowPowerRaw ∈ plan := by
  cases h with
  | reading plan_eq =>
    rw [plan_eq]
    exact List.mem_append_right _ List.mem_cons_self
  | writing todo_suffix writes_eq => exact absurd todo_suffix (not_writing writes_eq hread)

theorem verifyPower_of_setPower {v : Nat} (h : ArmShape send gate (.setPower v :: plan) out snap)
    : v = gate.lowPowerRaw ∧ .verifyPower gate.lowPowerRaw ∈ plan := by
  cases h with
  | @reading reads _ plan_eq reads_suffix writes_eq =>
    cases reads with
    | nil =>
      cases plan_eq
      exact ⟨rfl, writes_eq.verifyPower_mem⟩
    | cons x reads =>
      cases plan_eq
      have := isRead_of_mem (reads_suffix.mem List.mem_cons_self)
      contradiction
  | writing todo_suffix writes_eq =>
    have hplan := (List.suffix_append _ _).trans todo_suffix
    rw [List.suffix_cons_iff] at hplan
    rcases hplan with hplan | hplan
    . cases hplan
      exact ⟨rfl, writes_eq.verifyPower_mem⟩
    . exact absurd (hplan.mem List.mem_cons_self) (writes_eq.setPower_not_mem v)

theorem verifyBreakIn_of_setBreakIn (h : ArmShape send gate plan out snap)
    (hk : send.requiresBreakIn = some k) (hset : .setBreakIn k ∈ plan)
    : .verifyBreakIn k ∈ plan := by
  cases h with
  | reading plan_eq reads_suffix writes_eq =>
    rw [plan_eq, List.mem_append] at hset ⊢
    right
    rcases hset with hset | hset
    . have := isRead_of_mem (reads_suffix.mem hset)
      contradiction
    . rcases writes_eq.breakIn hk with rfl | rfl <;> simp_all
  | writing todo_suffix writes_eq =>
    have hplan := (List.suffix_append _ _).trans todo_suffix
    rcases writes_eq.breakIn hk with rfl | rfl
    . simp only [List.suffix_cons_iff, List.suffix_nil] at hplan
      rcases hplan with rfl | rfl | rfl | rfl | rfl <;> simp_all
    . have := hplan.mem hset
      simp at this

theorem not_readBreakIn (h : ArmShape send gate plan (some .snapBreakIn) snap)
    (hk : send.requiresBreakIn = some k) (hset : .setBreakIn k ∉ plan)
    : ∀ x ∈ plan, x.action ≠ some .readBreakIn := by
  cases h with
  | reading plan_eq _ writes_eq _ _ _ _ stale =>
    rcases writes_eq.breakIn hk with rfl | rfl
    . simp [plan_eq] at hset
    . have hreads := (stale rfl).resolve_right (by simp [armPlan.armWrites, hk])
      simp [plan_eq, hreads, Step.action]
  | writing todo_suffix writes_eq => exact absurd todo_suffix (not_writing writes_eq rfl)

end ArmShape

section

variable {env : Env} {now : Instant} {s s' : CwSupervisor} {evs : List Event} {log : Log}
  {capability : CwCapability} {config : CwConfig} {w : Timed} {send : CwSendText}
  {gate : TxGateCapability} {c : Checks}

theorem Distinct.request (h : Distinct log s) (r : Request) (hskips : Skips arms.next now evs)
    (hnext : s'.nextTicket = (r.apply s).nextTicket)
    (hact : ∀ t ∈ s'.activity.disarmTicket, t ∈ s.activity.disarmTicket ∨ t ∈ r.ticket s)
    : Distinct ((evs.map (Entry.mk now)).reverse ++ log) s' := by
  constructor
  . intro t ht
    rw [arms, hskips.observe] at ht
    rw [hnext]
    have hlt := h.lt t ht
    cases r with
    | other => exact hlt
    | disarm => exact Nat.lt_succ_of_lt hlt
  . intro t ht
    rw [arms, hskips.observe]
    rcases hact t ht with ht | ht
    . exact h.disarm t ht
    . intro hmem
      cases r with
      | other => cases ht
      | disarm =>
        cases ht
        exact Nat.lt_irrefl _ (h.lt _ hmem)

theorem Move.distinct (hI : Distinct log s) (h : Move env now s evs s')
    : Distinct ((evs.map (Entry.mk now)).reverse ++ log) s' := by
  cases h with
  | arm =>
    refine ⟨?_, by simp [Activity.disarmTicket]⟩
    intro t ht
    rcases List.mem_cons.mp ht with rfl | ht
    . exact Nat.lt_succ_self _
    . exact Nat.lt_succ_of_lt (hI.lt t ht)
  | stop r _ _ _ hafter =>
    apply hI.request r
    . simp [arms.next, Request.events]
    . rfl
    . simp_all [Activity.disarmTicket]
  | endStopping r | endIdle r =>
    apply hI.request r
    . simp [arms.next, Request.events, CwSupervisor.owedNotice]
    . rfl
    . exact fun t ht => Or.inr (by simpa [Activity.disarmTicket] using ht)
  | refuse c | refuseRestore c =>
    apply hI.request .other
    . cases c <;> simp [Cause.events, Cause.answers, arms.next]
    . rfl
    . simp [Activity.disarmTicket]
  | _ =>
    apply hI.request .other
    . simp [arms.next, CwSupervisor.owedNotice]
    . rfl
    . simp_all [Activity.disarmTicket, CwSupervisor.answered, After.ticket]

theorem Prepared.start {ticket : Ticket} (hplan : s.plan = armPlan send gate)
    : Prepared send gate { ticket := some ticket } s := by
  have hmem : ∀ {x}, x ∈ armPlan send gate → x ∈ s.todo := by
    intro x hx
    exact List.mem_append_right _ (hplan ▸ hx)
  constructor
  . exact Or.inl (hmem (by simp [armPlan, armPlan.armReads]))
  . exact Or.inl (by simp [hplan, armPlan])
  . intro k hk
    exact Or.inl ⟨rfl, Or.inl (hmem (by simp [armPlan, armPlan.armReads, hk]))⟩

theorem BreakInChecked.tail {k : BreakInKind} {step : Step} {todo : List Step}
    (h : BreakInChecked k c (step :: todo)) (hstep : step.action ≠ some .readBreakIn)
    : BreakInChecked k c todo := by
  rcases h with ⟨hstale, h⟩ | ⟨hstale, hne, h⟩
  . left
    refine ⟨hstale, ?_⟩
    rw [List.mem_cons, List.mem_cons] at h
    rcases h with (rfl | h) | (rfl | h) | h
    . exact absurd rfl hstep
    . exact Or.inl h
    . exact absurd rfl hstep
    . exact Or.inr (Or.inl h)
    . exact Or.inr (Or.inr h)
  . right
    exact ⟨hstale, hne, fun x hx => h x (List.mem_cons_of_mem _ hx)⟩

theorem BreakInChecked.not_stale {k : BreakInKind} {step : Step} {todo : List Step}
    (h : BreakInChecked k c (step :: todo)) (hstep : step.action = some .readBreakIn)
    : c.stale = false := by
  rcases h with ⟨hstale, _⟩ | ⟨_, _, h⟩
  . exact hstale
  . exact absurd hstep (h step List.mem_cons_self)

theorem Prepared.issue {step : Step} {rest : List Step} {action : CwAction}
    (h : Prepared send gate c s) (shape : ArmShape send gate s.plan s.outstanding s.snap)
    (out : s.outstanding = none) (hplan : s.plan = step :: rest)
    (haction : step.action = some action) (hout' : s'.outstanding = some step)
    (hplan' : s'.plan = rest)
    : Prepared send gate (c.issue action) s' := by
  have htodo : s'.todo = s.todo := by
    rw [CwSupervisor.todo_of_some hout', hplan', CwSupervisor.todo_of_none out, hplan]
  have hstatus : (c.issue action).status = c.status := by
    cases action <;> rfl
  have hbreakIn : (c.issue action).breakIn = c.breakIn ∧ (c.issue action).stale = c.stale := by
    cases action <;> exact ⟨rfl, rfl⟩
  constructor
  . rw [htodo, hstatus]
    exact h.status
  . by_cases hset : ∃ v, step = .setPower v
    . obtain ⟨v, rfl⟩ := hset
      rw [hplan] at shape
      obtain ⟨rfl, hverify⟩ := shape.verifyPower_of_setPower
      cases haction
      right
      refine ⟨rfl, Or.inl ?_⟩
      rw [CwSupervisor.todo_of_some hout', hplan']
      exact List.mem_cons_of_mem _ hverify
    . have hc : c.issue action = c := by
        cases step <;> cases haction <;> first | rfl | simp at hset
      rw [hc, htodo, hplan']
      refine h.power.imp_left ?_
      rw [hplan, List.mem_cons]
      rintro (rfl | hmem)
      . exact absurd ⟨_, rfl⟩ hset
      . exact hmem
  . intro k hk
    rw [BreakInChecked, hbreakIn.1, hbreakIn.2, htodo]
    exact h.breakIn k hk

theorem Prepared.status_tail {step : Step} (h : Prepared send gate c s)
    (out : s.outstanding = some step) (hstep : step ≠ .status)
    : .status ∈ s.plan ∨ c.status = some (true, false) := by
  have := h.status
  rw [CwSupervisor.todo_of_some out, List.mem_cons] at this
  rcases this with (rfl | hmem) | hstatus
  . exact absurd rfl hstep
  . exact Or.inl hmem
  . exact Or.inr hstatus

theorem Prepared.power_tail {step : Step} (h : Prepared send gate c s)
    (out : s.outstanding = some step) (hstep : step.action ≠ some .readPower)
    : .setPower gate.lowPowerRaw ∈ s.plan
        ∨ (c.power = some gate.lowPowerRaw
          ∧ (.verifyPower gate.lowPowerRaw ∈ s.plan ∨ c.powerRead = some gate.lowPowerRaw)) := by
  have hpower := h.power
  rw [CwSupervisor.todo_of_some out, List.mem_cons] at hpower
  rcases hpower with hset | ⟨hset, (rfl | hverify) | hread⟩
  . exact Or.inl hset
  . exact absurd rfl hstep
  . exact Or.inr ⟨hset, Or.inl hverify⟩
  . exact Or.inr ⟨hset, Or.inr hread⟩

theorem Prepared.breakIn_tail {step : Step} {k : BreakInKind} (h : Prepared send gate c s)
    (out : s.outstanding = some step) (hstep : step.action ≠ some .readBreakIn)
    (hk : send.requiresBreakIn = some k) : BreakInChecked k c s.plan := by
  have := h.breakIn k hk
  rw [CwSupervisor.todo_of_some out] at this
  exact this.tail hstep

theorem Prepared.statusRead (h : Prepared send gate c s)
    (shape : ArmShape send gate s.plan s.outstanding s.snap) (out : s.outstanding = some .status)
    (wpm : Option Nat) (hout' : s'.outstanding = none) (hplan' : s'.plan = s.plan)
    : Prepared send gate (c.answered s .status (.status true false wpm)) s' := by
  have htodo' : s'.todo = s.plan := (CwSupervisor.todo_of_none hout').trans hplan'
  rw [out] at shape
  constructor
  . exact Or.inr rfl
  . rw [hplan']
    exact Or.inl (shape.clamp_of_read rfl)
  . intro k hk
    rw [htodo']
    exact h.breakIn_tail out (by simp [Step.action]) hk

theorem Prepared.powerRead (h : Prepared send gate c s)
    (shape : ArmShape send gate s.plan s.outstanding s.snap)
    (out : s.outstanding = some .snapPower) (p : Nat) (hout' : s'.outstanding = none)
    (hplan' : s'.plan = s.plan)
    : Prepared send gate (c.answered s .snapPower (.power p)) s' := by
  have htodo' : s'.todo = s.plan := (CwSupervisor.todo_of_none hout').trans hplan'
  rw [out] at shape
  constructor
  . rw [htodo']
    exact h.status_tail out (by simp)
  . rw [hplan']
    exact Or.inl (shape.clamp_of_read rfl)
  . intro k hk
    rw [htodo']
    exact h.breakIn_tail out (by simp [Step.action]) hk

theorem Prepared.breakInRead (h : Prepared send gate c s)
    (shape : ArmShape send gate s.plan s.outstanding s.snap)
    (out : s.outstanding = some .snapBreakIn) (hsend : s.sendText = some send) (k : BreakInKind)
    (hout' : s'.outstanding = none)
    (hplan' : s'.plan = if s.sendText.bind CwSendText.requiresBreakIn = some k then
      s.plan.filter fun x => !x.isBreakInWrite else s.plan)
    : Prepared send gate (c.answered s .snapBreakIn (.breakIn k)) s' := by
  have htodo' : s'.todo = s'.plan := CwSupervisor.todo_of_none hout'
  have hkept : ∀ {x : Step}, x.isBreakInWrite = false → x ∈ s.plan → x ∈ s'.plan := by
    intro x hx hmem
    rw [hplan']
    split
    . exact List.mem_filter.mpr ⟨hmem, by simp [hx]⟩
    . exact hmem
  rw [out] at shape
  constructor
  . rw [htodo']
    exact (h.status_tail out (by simp)).imp_left (hkept rfl)
  . exact Or.inl (hkept rfl (shape.clamp_of_read rfl))
  . intro want hwant
    have hstale : c.stale = false := by
      have := h.breakIn want hwant
      rw [CwSupervisor.todo_of_some out] at this
      exact this.not_stale rfl
    have hreq : s.sendText.bind CwSendText.requiresBreakIn = some want := by
      simp [hsend, hwant]
    by_cases hk : k = want
    . subst hk
      left
      refine ⟨?_, Or.inr (Or.inr rfl)⟩
      simp [Checks.answered, foundWrong, hreq, Checks.answer, Step.action, hstale]
    . rw [hreq, if_neg (by simpa using fun h => hk h.symm)] at hplan'
      rw [htodo', hplan']
      by_cases hset : .setBreakIn want ∈ s.plan
      . left
        refine ⟨?_, Or.inr (Or.inl (shape.verifyBreakIn_of_setBreakIn hwant hset))⟩
        simp [Checks.answered, foundWrong, hreq, hset, Checks.answer, Step.action, hstale]
      . right
        refine ⟨?_, ?_, shape.not_readBreakIn hwant hset⟩
        . simp [Checks.answered, foundWrong, hreq, hset, hk]
        . simpa [Checks.answered, Checks.answer, Step.action] using hk

theorem Prepared.wrote {step : Step} (h : Prepared send gate c s) (out : s.outstanding = some step)
    (hstatus : step ≠ .status) (hread : step.action ≠ some .readPower)
    (hbreakIn : step.action ≠ some .readBreakIn) : Prepared send gate c s.answered := by
  have htodo' : s.answered.todo = s.plan := CwSupervisor.todo_of_none rfl
  constructor
  . rw [htodo']
    exact h.status_tail out hstatus
  . rw [htodo']
    exact h.power_tail out hread
  . intro k hk
    rw [htodo']
    exact h.breakIn_tail out hbreakIn hk

theorem Prepared.powerVerified (h : Prepared send gate c s)
    (out : s.outstanding = some (.verifyPower gate.lowPowerRaw))
    : Prepared send gate { c with powerRead := some gate.lowPowerRaw } s.answered := by
  have htodo' : s.answered.todo = s.plan := CwSupervisor.todo_of_none rfl
  constructor
  . rw [htodo']
    exact h.status_tail out (by simp)
  . exact h.power.imp_right fun hset => ⟨hset.1, Or.inr rfl⟩
  . intro k hk
    rw [htodo']
    exact h.breakIn_tail out (by simp [Step.action]) hk

theorem Prepared.breakInVerified {want : BreakInKind} (h : Prepared send gate c s)
    (out : s.outstanding = some (.verifyBreakIn want)) (hwant : send.requiresBreakIn = some want)
    : Prepared send gate { c with breakIn := some want } s.answered := by
  have htodo' : s.answered.todo = s.plan := CwSupervisor.todo_of_none rfl
  constructor
  . rw [htodo']
    exact h.status_tail out (by simp)
  . rw [htodo']
    exact h.power_tail out (by simp [Step.action])
  . intro k hk
    cases hwant.symm.trans hk
    have hstale := h.breakIn _ hk
    rw [CwSupervisor.todo_of_some out] at hstale
    exact Or.inl ⟨hstale.not_stale rfl, Or.inr (Or.inr rfl)⟩

theorem mem_armPlan_writes {step : Step}
    (h : step ∈ .setPower gate.lowPowerRaw :: armPlan.armWrites send gate)
    : (∃ v, step = .setPower v) ∨ step = .verifyPower gate.lowPowerRaw
        ∨ ∃ k, send.requiresBreakIn = some k
          ∧ (step = .setBreakIn k ∨ step = .verifyBreakIn k) := by
  unfold armPlan.armWrites at h
  split at h
  . next k hk =>
    simp at h
    grind
  . simp at h
    grind

theorem Prepared.write {step : Step} {outcome : CwOutcome} (h : Prepared send gate c s)
    (shape : ArmShape send gate s.plan s.outstanding s.snap) (out : s.outstanding = some step)
    (meets : step.meets outcome = true) (write : step.isRestoring = true)
    : Prepared send gate (c.answered s step outcome) s.answered := by
  have hmem : step ∈ .setPower gate.lowPowerRaw :: armPlan.armWrites send gate := by
    rw [out] at shape
    refine (shape.of_mem_todo List.mem_cons_self).resolve_left ?_
    cases step <;> simp_all [Step.isRestoring, Step.isRead]
  rcases mem_armPlan_writes hmem with ⟨v, rfl⟩ | rfl | ⟨k, hk, rfl | rfl⟩
  . cases outcome <;> try contradiction
    exact h.wrote out (by simp) (by simp [Step.action]) (by simp [Step.action])
  . cases outcome <;> try contradiction
    rw [Step.meets, beq_iff_eq] at meets
    subst meets
    exact h.powerVerified out
  . cases outcome <;> try contradiction
    exact h.wrote out (by simp) (by simp [Step.action]) (by simp [Step.action])
  . cases outcome <;> try contradiction
    rw [Step.meets, beq_iff_eq] at meets
    subst meets
    exact h.breakInVerified out hk

def Preparing (log : Log) (s : CwSupervisor) : Prop :=
  ∀ ticket owner callsign cap wpm, s.activity = .arming ticket owner callsign cap wpm →
    (checks log).ticket = some ticket
      ∧ ∃ send gate, s.sendText = some send ∧ s.gate = some gate
        ∧ Prepared send gate (checks log) s

theorem Checks.issue_ticket (c : Checks) (action : CwAction)
    : (c.issue action).ticket = c.ticket := by
  cases action <;> rfl

theorem Checks.answer_ticket (c : Checks) (action : Option CwAction) (outcome : CwOutcome)
    : (c.answer action outcome).ticket = c.ticket := by
  unfold answer
  split <;> rfl

theorem Preparing.shape {ticket : Ticket} {owner : ConsoleId} {callsign : Text} {cap : Duration}
    {wpm : Nat} (hI : Preparing log s) (hs : Shape s)
    (hact : s.activity = .arming ticket owner callsign cap wpm)
    : (checks log).ticket = some ticket
        ∧ ∃ send gate, s.sendText = some send ∧ s.gate = some gate
          ∧ ArmShape send gate s.plan s.outstanding s.snap ∧ Prepared send gate (checks log) s := by
  obtain ⟨hticket, send, gate, hsend, hgate, hprep⟩ := hI _ _ _ _ _ hact
  obtain ⟨_, send', gate', hsend', hgate', shape⟩ := hs.of_arming hact
  cases hsend.symm.trans hsend'
  cases hgate.symm.trans hgate'
  exact ⟨hticket, send, gate, hsend, hgate, shape, hprep⟩

theorem Move.preparing (hs : Shape s) (hI : Preparing log s) (h : Move env now s evs s')
    : Preparing ((evs.map (Entry.mk now)).reverse ++ log) s' := by
  intro ticket owner callsign cap wpm hact'
  cases h with
  | takeNotices | shutdown =>
    obtain ⟨hticket, send, gate, hsend, hgate, ⟨status, power, breakIn⟩⟩ := hI _ _ _ _ _ hact'
    exact ⟨hticket, send, gate, hsend, hgate, status, power, breakIn⟩
  | arm _ _ _ _ hsend hgate =>
    cases hact'
    exact ⟨rfl, _, _, hsend, hgate, Prepared.start rfl⟩
  | keyed out hplan =>
    obtain ⟨_, _, _, _, _, shape⟩ := hs.of_arming hact'
    have := shape.of_mem (hplan ▸ List.mem_cons_self)
    simp [Step.isRead] at this
  | issue out hplan haction =>
    obtain ⟨hticket, send, gate, hsend, hgate, shape, hprep⟩ := hI.shape hs hact'
    refine ⟨(Checks.issue_ticket _ _).trans hticket, send, gate, hsend, hgate, ?_⟩
    exact hprep.issue shape out hplan haction rfl rfl
  | snapPower p out =>
    obtain ⟨hticket, send, gate, hsend, hgate, shape, hprep⟩ := hI.shape hs hact'
    exact ⟨hticket, send, gate, hsend, hgate, hprep.powerRead shape out p rfl rfl⟩
  | snapBreakIn k out =>
    obtain ⟨hticket, send, gate, hsend, hgate, shape, hprep⟩ := hI.shape hs hact'
    exact ⟨hticket, send, gate, hsend, hgate, hprep.breakInRead shape out hsend k rfl rfl⟩
  | armStatus wpm out hact =>
    obtain ⟨hticket, send, gate, hsend, hgate, shape, hprep⟩ := hI.shape hs hact
    cases hact'
    exact ⟨hticket, send, gate, hsend, hgate, hprep.statusRead shape out wpm rfl rfl⟩
  | armAnswer outcome out meets _ write =>
    obtain ⟨hticket, send, gate, hsend, hgate, shape, hprep⟩ := hI.shape hs hact'
    refine ⟨(Checks.answer_ticket _ _ _).trans hticket, send, gate, hsend, hgate, ?_⟩
    exact hprep.write shape out meets write
  | busy out | silenced out =>
    rcases hs.of_keying out rfl rfl with ⟨_, hact⟩ | ⟨_, _, _, _, hact⟩ <;>
      cases hact.symm.trans hact'
  | _ => first | cases hact' | exact absurd hact' (by simp_all [CwSupervisor.answered])

structure Ready (send : CwSendText) (gate : TxGateCapability) (ticket : Ticket) (c : Checks)
    : Prop where
  ticket : c.ticket = some ticket
  status : c.status = some (true, false)
  power : c.power = some gate.lowPowerRaw
  powerRead : c.powerRead = some gate.lowPowerRaw
  breakIn : ∀ k, send.requiresBreakIn = some k → (c.breakIn = some k ↔ c.stale = false)

theorem Prepared.ready {ticket : Ticket} (h : Prepared send gate c s)
    (hticket : c.ticket = some ticket) (out : s.outstanding = none) (hplan : s.plan = [])
    : Ready send gate ticket c := by
  obtain ⟨status, power, breakIn⟩ := h
  rw [CwSupervisor.todo_of_none out, hplan] at status power breakIn
  have hpower := power.resolve_left List.not_mem_nil
  constructor
  . exact hticket
  . exact status.resolve_left List.not_mem_nil
  . exact hpower.1
  . exact hpower.2.resolve_left List.not_mem_nil
  . intro k hk
    rcases breakIn k hk with ⟨hstale, hread⟩ | ⟨hstale, hne, _⟩
    . simpa [hstale] using hread
    . simp [hstale, hne]

def Granted (capability : CwCapability) (e : Entry) (older : Log) : Prop :=
  ∀ ticket, e.event = .notice (.reply ticket (.ok ())) → ticket ∈ arms older →
    ∃ send gate, capability.sendText = some send ∧ capability.txGate = some gate
      ∧ Ready send gate ticket (checks older)

theorem granted_append (hlog : Each (Granted capability) log)
    (hevs : ∀ ticket, .notice (.reply ticket (.ok ())) ∉ evs)
    : Each (Granted capability) ((evs.map (Entry.mk now)).reverse ++ log) := by
  apply hlog.append
  intro e he older ticket hreply
  rcases List.mem_map.mp he with ⟨event, hevent, rfl⟩
  exact absurd (hreply ▸ hevent) (hevs ticket)

theorem Move.granted (hI : Preparing log s) (hd : Distinct log s)
    (hradio : s.sendText = capability.sendText ∧ s.gate = capability.txGate)
    (hlog : Each (Granted capability) log) (h : Move env now s evs s')
    : Each (Granted capability) ((evs.map (Entry.mk now)).reverse ++ log) := by
  cases h with
  | finishArming out hplan hact =>
    refine ⟨?_, by simp [Granted], hlog⟩
    intro ticket hreply _
    cases hreply
    obtain ⟨hticket, send, gate, hsend, hgate, hprep⟩ := hI _ _ _ _ _ hact
    exact ⟨send, gate, hradio.1 ▸ hsend, hradio.2 ▸ hgate, hprep.ready hticket out hplan⟩
  | @finishRestoring _ ticket _ _ _ _ hact =>
    cases ticket with
    | none => exact ⟨by simp [Granted], hlog⟩
    | some t =>
      refine ⟨?_, by simp [Granted], hlog⟩
      intro ticket hreply hmem
      cases hreply
      exact absurd hmem (hd.disarm _ (by simp [hact, Activity.disarmTicket]))
  | refuse c | refuseRestore c =>
    apply granted_append hlog
    cases c <;> simp [Cause.events, Cause.answers]
  | _ =>
    apply granted_append hlog
    simp [CwSupervisor.owedNotice, Request.events]

theorem Run.granted (h : Run env capability config log w) : Each (Granted capability) log := by
  let I := fun (log : Log) (_ : Instant) (s : CwSupervisor) =>
    Preparing log s ∧ Distinct log s
      ∧ (s.sendText = capability.sendText ∧ s.gate = capability.txGate)
      ∧ Each (Granted capability) log
  suffices I log w.now w.sup from this.2.2.2
  apply Run.invariant I _ _ _ h
  . exact ⟨by simp [Preparing, new], ⟨by simp [arms], by simp [new, Activity.disarmTicket]⟩,
      ⟨rfl, rfl⟩, trivial⟩
  . intro _ _ _ _ hI _
    exact hI
  . intro _ _ _ _ _ hs hI hmove
    obtain ⟨hprep, hd, hradio, hlog⟩ := hI
    refine ⟨hmove.preparing hs hprep, hmove.distinct hd, ?_, hmove.granted hprep hd hradio hlog⟩
    rw [hmove.sameRadio.1, hmove.sameRadio.2.1]
    exact hradio

theorem granted_when_ready {t : Instant} {ticket : Ticket} {newer older : Log}
    (h : Run env capability config (newer ++ ⟨t, .notice (.reply ticket (.ok ()))⟩ :: older) w)
    (harm : ticket ∈ arms older)
    : ∃ send gate, capability.sendText = some send ∧ capability.txGate = some gate
        ∧ (checks older).ticket = some ticket ∧ (checks older).status = some (true, false)
        ∧ (checks older).power = some gate.lowPowerRaw
        ∧ (checks older).powerRead = some gate.lowPowerRaw
        ∧ ∀ k, send.requiresBreakIn = some k →
          ((checks older).breakIn = some k ↔ (checks older).stale = false) := by
  obtain ⟨send, gate, hsend, hgate, hready⟩ := h.granted.of_append ticket rfl harm
  exact ⟨send, gate, hsend, hgate, hready.ticket, hready.status, hready.power, hready.powerRead,
    hready.breakIn⟩

theorem granted_when_ready_icom
    : let script := [(0, .arm 1 ['N', '0', 'C', 'A', 'L', 'L'] none)]
        ++ Bench.exchange [.status true false (some 20), .power 100, .breakIn .off, .done, .power 0,
          .done, .breakIn .semi]
        ++ [(0, .nextAction)]
      let older := (Bench.run Bench.icom script).1.tail
      (checks older).stale = false
        ∧ ∃ send gate, Bench.icom.sendText = some send ∧ Bench.icom.txGate = some gate
          ∧ (checks older).ticket = some 1 ∧ (checks older).status = some (true, false)
          ∧ (checks older).power = some gate.lowPowerRaw
          ∧ (checks older).powerRead = some gate.lowPowerRaw
          ∧ ∀ k, send.requiresBreakIn = some k →
            ((checks older).breakIn = some k ↔ (checks older).stale = false) := by
  intro script older
  have hlog : (Bench.run Bench.icom script).1
      = [] ++ ⟨0, .notice (.reply 1 (.ok ()))⟩ :: older := by
    rfl
  have hrun := Bench.isRun Bench.icom script
  rw [hlog] at hrun
  exact ⟨by decide +kernel, granted_when_ready hrun (by decide +kernel)⟩

theorem granted_with_break_in_off
    : let script := [(0, .arm 1 ['N', '0', 'C', 'A', 'L', 'L'] none)]
        ++ Bench.exchange [.status true false (some 20), .power 100]
        ++ [(0, .nextAction), (0, .detached 1), (0, .arm 2 ['N', '0', 'C', 'A', 'L', 'L'] none),
          (0, .complete (.breakIn .semi))]
        ++ Bench.exchange [.status true false (some 20), .power 100, .breakIn .off, .done, .power 0]
        ++ [(0, .nextAction)]
      ∃ older, (Bench.run Bench.icom script).1 = ⟨0, .notice (.reply 2 (.ok ()))⟩ :: older
        ∧ 2 ∈ arms older ∧ (checks older).ticket = some 2
        ∧ Bench.icom.sendText.bind CwSendText.requiresBreakIn = some .semi
        ∧ (checks older).breakIn = some .off :=
  -- The late answer to console 1 drops the break-in writes of console 2, which then reads it off.
  ⟨_, rfl, by decide +kernel, by decide +kernel, rfl, by decide +kernel⟩

end

end Cw
