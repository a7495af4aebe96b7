import RadioCat.Cw.Safety.Settings

/-!
This module contains what a restore has done when it says so: every setting that was written since
the arm was asked for is back at the value it had before, and has been read back.
-/

namespace Cw

open Trace

variable {α : Type} {σ : Setting α}

structure Marked (σ : Setting α) (w : Watch α) (snap : Snapshot) : Prop where
  changed : σ.changed snap = w.written.isSome
  saved : w.written.isSome = true → σ.saved snap = w.before ∧ w.before.isSome = true

structure Guards (σ : Setting α) (w : Watch α) (s : CwSupervisor) : Prop where
  saved : σ.saved s.snap = w.before
  issued : ∀ x ∈ s.outstanding, (σ.role x).writes.isSome = true → w.written.isSome = true
  guarded : Role.Guarded w.before.isSome w.written.isSome (s.todo.map σ.role)

section

variable {env : Env} {now : Instant} {s s' : CwSupervisor} {evs : List Event} {log : Log}
  {capability : CwCapability} {config : CwConfig} {w : Watch α} {snap : Snapshot}

theorem Marked.answered {step : Step} {outcome : CwOutcome} (h : Marked σ w snap)
    : Marked σ (watch.answered σ w step outcome) snap := by
  refine ⟨?_, fun hwritten => ?_⟩
  . rw [watch.answered_written]
    exact h.changed
  . rw [watch.answered_written] at hwritten
    rw [watch.answered_before hwritten]
    exact h.saved hwritten

theorem Guards.answered {step : Step} {outcome : CwOutcome} (h : Guards σ w s)
    (out : s.outstanding = some step) (hsnap : σ.role step ≠ .snap)
    (hsaved : σ.saved s'.snap = σ.saved s.snap)
    (hplan : ∀ known written, Role.Guarded known written (s.plan.map σ.role) →
      Role.Guarded known written (s'.plan.map σ.role))
    (out' : s'.outstanding = none)
    : Guards σ (watch.answered σ w step outcome) s' := by
  have hguarded := h.guarded
  rw [CwSupervisor.todo_of_some out, List.map_cons] at hguarded
  have hrest : (watch.answered σ w step outcome).before = w.before
      ∧ Role.Guarded w.before.isSome w.written.isSome (s.plan.map σ.role) := by
    cases hrole : σ.role step <;> rw [hrole] at hguarded
    case snap => exact absurd hrole hsnap
    case write v =>
      have hwritten := h.issued step out (by rw [hrole]; rfl)
      rw [watch.answered_write hrole, hwritten]
      exact ⟨rfl, hguarded.2⟩
    case verify v => exact ⟨watch.answered_before hguarded.1, hguarded.2⟩
    case look => exact hguarded.1.elim
    case foreign =>
      rw [watch.answered_foreign hrole]
      exact ⟨rfl, hguarded⟩
  refine ⟨?_, by simp [out'], ?_⟩
  . rw [hrest.1, hsaved]
    exact h.saved
  . rw [hrest.1, watch.answered_written, CwSupervisor.todo_of_none out']
    exact hplan _ _ hrest.2

theorem Guards.saved_value {step : Step} {outcome : CwOutcome} {v : α} (h : Guards σ w s)
    (out : s.outstanding = some step) (hsnap : σ.role step = .snap)
    (hvalue : σ.value outcome = some v) (hsaved : σ.saved s'.snap = some v)
    (hplan : ∀ known written, Role.Guarded known written (s.plan.map σ.role) →
      Role.Guarded known written (s'.plan.map σ.role))
    (out' : s'.outstanding = none)
    : Guards σ (watch.answered σ w step outcome) s' := by
  have hguarded := h.guarded
  rw [CwSupervisor.todo_of_some out, List.map_cons, hsnap] at hguarded
  have hnext : watch.answered σ w step outcome = { w with before := some v } := by
    rw [watch.answered_read (by rw [hsnap]; rfl), hvalue]
    simp [Watch.saw, hguarded.1]
  rw [hnext]
  refine ⟨hsaved, by simp [out'], ?_⟩
  rw [CwSupervisor.todo_of_none out']
  exact hplan _ _ hguarded.2

theorem Guards.issue {step : Step} {rest : List Step} {action : CwAction} (h : Guards σ w s)
    (out : s.outstanding = none) (hplan : s.plan = step :: rest)
    (haction : step.action = some action) (out' : s'.outstanding = some step)
    (hplan' : s'.plan = rest) (hsnap : s'.snap = s.snap.mark step)
    : Guards σ (watch.issued σ w action) s' := by
  have hguarded := h.guarded
  have htodo : s'.todo = s.todo := by
    rw [CwSupervisor.todo_of_some out', CwSupervisor.todo_of_none out, hplan, hplan']
  have hsaved : σ.saved s'.snap = w.before := by
    rw [hsnap, σ.saved_mark]
    exact h.saved
  rw [watch.issued_eq haction]
  cases hwrites : (σ.role step).writes with
  | none =>
    refine ⟨hsaved, ?_, ?_⟩
    . simp [out', hwrites]
    . rwa [htodo]
  | some v =>
    have hrole : σ.role step = .write v := by
      cases hrole : σ.role step <;> simp_all [Role.writes]
    refine ⟨hsaved, fun _ _ _ => rfl, ?_⟩
    rw [htodo]
    rw [CwSupervisor.todo_of_none out, hplan, List.map_cons, hrole] at hguarded ⊢
    exact hguarded

theorem guards_armPlan {send : CwSendText} {gate : TxGateCapability}
    (hsnap : s.snap = {}) (hplan : s.plan = armPlan send gate)
    (out : ∀ x ∈ s.outstanding, x.isRead = true) : Guards σ {} s := by
  refine ⟨?_, ?_, ?_⟩
  . rw [hsnap]
    exact σ.fresh.2
  . intro x hx hwrites
    rcases σ.role_isRead (out x hx) with hrole | hrole
    . simp [hrole, Role.writes] at hwrites
    . simp [hrole, Role.writes] at hwrites
  . have harms := σ.arms send gate
    cases hout : s.outstanding with
    | none =>
      rw [CwSupervisor.todo_of_none hout, hplan]
      exact harms
    | some x =>
      rw [CwSupervisor.todo_of_some hout, hplan, List.map_cons]
      rcases σ.role_isRead (out x hout) with hrole | hrole <;> rw [hrole]
      . exact ⟨rfl, harms.of_known⟩
      . exact harms

theorem Move.guards (hs : Shape s)
    (hI : ∀ ticket owner callsign cap wpm, s.activity = .arming ticket owner callsign cap wpm →
      Guards σ (watch σ log) s)
    (h : Move env now s evs s')
    : ∀ ticket owner callsign cap wpm, s'.activity = .arming ticket owner callsign cap wpm →
        Guards σ (watch σ ((evs.map (Entry.mk now)).reverse ++ log)) s' := by
  intro ticket owner callsign cap wpm hact'
  cases h with
  | takeNotices | shutdown =>
    obtain ⟨saved, issued, guarded⟩ := hI _ _ _ _ _ hact'
    exact ⟨saved, issued, guarded⟩
  | arm _ _ _ _ _ _ _ hact harm =>
    obtain ⟨_, out, _⟩ := hs.of_unarmed hact harm
    exact guards_armPlan rfl rfl out
  | keyed out hplan =>
    obtain ⟨saved, issued, guarded⟩ := hI _ _ _ _ _ hact'
    rw [CwSupervisor.todo_of_none out, hplan, List.map_cons, σ.role_waitKeyed] at guarded
    refine ⟨saved, issued, ?_⟩
    simp only [CwSupervisor.todo, out]
    exact guarded
  | issue out hplan haction => exact (hI _ _ _ _ _ hact').issue out hplan haction rfl rfl rfl
  | snapPower p out =>
    have hg := hI _ _ _ _ _ hact'
    rcases (σ.snap_power s.snap p).2 with ⟨hrole, hsaved⟩ | ⟨hrole, v, hvalue, hsaved⟩
    . exact hg.answered out (by simp [hrole]) hsaved (fun _ _ => id) rfl
    . exact hg.saved_value out hrole hvalue hsaved (fun _ _ => id) rfl
  | snapBreakIn k out =>
    have hg := hI _ _ _ _ _ hact'
    have hplan (known written : Bool) (h : Role.Guarded known written (s.plan.map σ.role))
        : Role.Guarded known written
          ((if s.sendText.bind CwSendText.requiresBreakIn = some k then
            s.plan.filter fun x => !x.isBreakInWrite
          else
            s.plan).map σ.role) := by
      split
      . exact σ.filtered h
      . exact h
    rcases (σ.snap_breakIn s.snap k).2 with ⟨hrole, hsaved⟩ | ⟨hrole, v, hvalue, hsaved⟩
    . exact hg.answered out (by simp [hrole]) hsaved hplan rfl
    . exact hg.saved_value out hrole hvalue hsaved hplan rfl
  | armStatus wpm out hact =>
    exact (hI _ _ _ _ _ hact).answered out (by simp [σ.role_status]) rfl (fun _ _ => id) rfl
  | @armAnswer step _ _ _ _ _ outcome out _ _ write =>
    have hsnap : σ.role step ≠ .snap := by
      rcases σ.role_isRestoring write with hrole | hrole
      . intro h
        simp [h, Role.isOwn] at hrole
      . simp [hrole]
    exact (hI _ _ _ _ _ hact').answered out hsnap rfl (fun _ _ => id) rfl
  | busy out | silenced out =>
    rcases hs.of_keying out rfl rfl with ⟨_, hact⟩ | ⟨_, _, _, _, hact⟩ <;>
      cases hact.symm.trans hact'
  | _ => first | cases hact' | exact absurd hact' (by simp_all [CwSupervisor.answered])

def owns (σ : Setting α) (plan : List Step) : List (Role α) :=
  (plan.map σ.role).filter Role.isOwn

theorem owns_cons (step : Step) (rest : List Step)
    : owns σ (step :: rest)
        = if (σ.role step).isOwn then σ.role step :: owns σ rest else owns σ rest := by
  rw [owns, List.map_cons, List.filter_cons]
  rfl

inductive Phase (σ : Setting α) (w : Watch α) (s : CwSupervisor) : Prop where
  | unwritten (own : owns σ s.plan = []) (written : w.written = none)
  | planned (v : α) (own : owns σ s.plan = [.write v, .verify v]) (before : w.before = some v)
      (written : w.written.isSome = true)
  | issued (v : α) (step : Step) (out : s.outstanding = some step) (role : σ.role step = .write v)
      (own : owns σ s.plan = [.verify v]) (before : w.before = some v)
      (written : w.written = some v)
  | written (v : α) (own : owns σ s.todo = [.verify v]) (before : w.before = some v)
      (written : w.written = some v) (done : w.done = true)
  | verified (v : α) (own : owns σ s.todo = []) (before : w.before = some v)
      (written : w.written = some v) (done : w.done = true) (seen : w.seen = some v)

theorem Marked.phase (h : Marked σ w s.snap) (hplan : s'.plan = restorePlan s) : Phase σ w s' := by
  have hown := σ.restores s
  cases hwritten : w.written with
  | none =>
    rw [h.changed, hwritten] at hown
    apply Phase.unwritten _ hwritten
    rw [hplan]
    exact hown
  | some u =>
    have hsome : w.written.isSome = true := by simp [hwritten]
    obtain ⟨hsaved, hbefore⟩ := h.saved hsome
    obtain ⟨v, hv⟩ := Option.isSome_iff_exists.mp hbefore
    rw [h.changed, hsome, hsaved, hv] at hown
    apply Phase.planned v _ hv hsome
    rw [hplan]
    exact hown

theorem Phase.congr (h : Phase σ w s) (hplan : s'.plan = s.plan)
    (out : s'.outstanding = s.outstanding) : Phase σ w s' := by
  have htodo : s'.todo = s.todo := by rw [CwSupervisor.todo, CwSupervisor.todo, hplan, out]
  cases h with
  | unwritten own written => exact .unwritten (hplan ▸ own) written
  | planned v own before written => exact .planned v (hplan ▸ own) before written
  | issued v step out' role own before written =>
    exact .issued v step (out.trans out') role (hplan ▸ own) before written
  | written v own before written done => exact .written v (htodo ▸ own) before written done
  | verified v own before written done seen =>
    exact .verified v (htodo ▸ own) before written done seen

theorem Phase.keyed {margin : Duration} {rest : List Step} (h : Phase σ w s)
    (out : s.outstanding = none) (hplan : s.plan = .waitKeyed margin :: rest)
    (out' : s'.outstanding = none) (hplan' : s'.plan = rest) : Phase σ w s' := by
  have hown : owns σ s'.plan = owns σ s.plan := by
    rw [hplan, hplan', owns_cons, σ.role_waitKeyed]
    rfl
  have htodo : owns σ s'.todo = owns σ s.todo := by
    rw [CwSupervisor.todo_of_none out, CwSupervisor.todo_of_none out', hown]
  cases h with
  | unwritten own written => exact .unwritten (hown.trans own) written
  | planned v own before written => exact .planned v (hown.trans own) before written
  | issued v step out'' => cases out.symm.trans out''
  | written v own before written done => exact .written v (htodo.trans own) before written done
  | verified v own before written done seen =>
    exact .verified v (htodo.trans own) before written done seen

theorem Phase.issue {step : Step} {rest : List Step} {action : CwAction} (h : Phase σ w s)
    (out : s.outstanding = none) (hplan : s.plan = step :: rest)
    (haction : step.action = some action) (out' : s'.outstanding = some step)
    (hplan' : s'.plan = rest) : Phase σ (watch.issued σ w action) s' := by
  have htodo : s'.todo = s.todo := by
    rw [CwSupervisor.todo_of_some out', CwSupervisor.todo_of_none out, hplan, hplan']
  have hown : owns σ s.todo = owns σ s.plan := by rw [CwSupervisor.todo_of_none out]
  have hsame (h : ∀ v, σ.role step ≠ .write v) : watch.issued σ w action = w := by
    rw [watch.issued_eq haction]
    cases hrole : σ.role step <;> simp_all [Role.writes]
  rw [hplan, owns_cons] at hown
  cases h with
  | unwritten own written =>
    rw [hplan, owns_cons] at own
    split at own
    . cases own
    next hrole =>
      rw [hsame (by rintro v h; simp [h, Role.isOwn] at hrole)]
      apply Phase.unwritten _ written
      rwa [hplan']
  | planned v own before written =>
    rw [hplan, owns_cons] at own
    split at own
    . rw [List.cons.injEq] at own
      rw [watch.issued_eq haction, own.1]
      refine Phase.issued v step out' own.1 ?_ ?_ rfl
      . rw [hplan', own.2]
      . exact before
    next hrole =>
      rw [hsame (by rintro v h; simp [h, Role.isOwn] at hrole)]
      apply Phase.planned v _ before written
      rwa [hplan']
  | issued v step out'' => cases out.symm.trans out''
  | written v own before written done =>
    rw [hsame]
    . apply Phase.written v _ before written done
      rwa [htodo]
    . intro u hrole
      rw [own, hrole] at hown
      cases hown
  | verified v own before written done seen =>
    rw [hsame]
    . apply Phase.verified v _ before written done seen
      rwa [htodo]
    . intro u hrole
      rw [own, hrole] at hown
      cases hown

theorem Phase.answered {step : Step} {outcome : CwOutcome} (h : Phase σ w s)
    (out : s.outstanding = some step) (hstep : step.isRestoring = true)
    (meets : step.meets outcome = true) (out' : s'.outstanding = none) (hplan : s'.plan = s.plan)
    : Phase σ (watch.answered σ w step outcome) s' := by
  have htodo : s'.todo = s.plan := (CwSupervisor.todo_of_none out').trans hplan
  cases h with
  | unwritten own written =>
    apply Phase.unwritten
    . rwa [hplan]
    . rw [watch.answered_written, written]
  | planned v own before written =>
    apply Phase.planned v
    . rwa [hplan]
    . rw [watch.answered_before written, before]
    . rw [watch.answered_written, written]
  | issued v step' out'' role own before written =>
    cases out.symm.trans out''
    rw [watch.answered_write role, σ.done_of_meets role meets]
    refine Phase.written v ?_ before written (by simp)
    rwa [htodo]
  | written v own before written done =>
    rw [CwSupervisor.todo_of_some out, owns_cons] at own
    rcases σ.role_isRestoring hstep with hown | hforeign
    . rw [if_pos hown, List.cons.injEq] at own
      rw [watch.answered_read (by rw [own.1]; rfl), σ.value_of_meets own.1 meets]
      refine Phase.verified v ?_ ?_ ?_ ?_ ?_
      . rw [htodo, own.2]
      all_goals simp [Watch.saw, before, written, done]
    . rw [hforeign] at own
      rw [watch.answered_foreign hforeign]
      apply Phase.written v _ before written done
      rwa [htodo]
  | verified v own before written done seen =>
    rw [CwSupervisor.todo_of_some out, owns_cons] at own
    rcases σ.role_isRestoring hstep with hown | hforeign
    . rw [if_pos hown] at own
      cases own
    . rw [hforeign] at own
      rw [watch.answered_foreign hforeign]
      apply Phase.verified v _ before written done seen
      rwa [htodo]

structure Watched (σ : Setting α) (log : Log) (s : CwSupervisor) : Prop where
  marked : s.arm ≠ none ∨ s.activity ≠ .idle → Marked σ (watch σ log) s.snap
  arming : ∀ ticket owner callsign cap wpm, s.activity = .arming ticket owner callsign cap wpm →
    Guards σ (watch σ log) s
  restoring : ∀ reason ticket attempts lastError retryAt,
    s.activity = .restoring reason ticket attempts lastError retryAt →
      Phase σ (watch σ log) s ∨ retryAt ≠ none ∧ s.plan = []

theorem Marked.issue {step : Step} {action : CwAction} (h : Marked σ w snap)
    (haction : step.action = some action)
    (hsaved : (σ.role step).writes.isSome = true →
      σ.saved snap = w.before ∧ w.before.isSome = true)
    : Marked σ (watch.issued σ w action) (snap.mark step) := by
  rw [watch.issued_eq haction]
  cases hwrites : (σ.role step).writes with
  | none =>
    refine ⟨?_, ?_⟩
    . rw [σ.changed_mark, hwrites, h.changed]
      simp
    . rw [σ.saved_mark]
      exact h.saved
  | some v =>
    refine ⟨?_, fun _ => ?_⟩
    . rw [σ.changed_mark, hwrites]
      simp [Watch.wrote]
    . rw [σ.saved_mark]
      exact hsaved (by simp [hwrites])

theorem Watched.saved {step : Step} {rest : List Step} (hs : Shape s) (hI : Watched σ log s)
    (out : s.outstanding = none) (hplan : s.plan = step :: rest)
    (hwrites : (σ.role step).writes.isSome = true)
    : σ.saved s.snap = (watch σ log).before ∧ (watch σ log).before.isSome = true := by
  obtain ⟨v, hv⟩ := Option.isSome_iff_exists.mp hwrites
  have hrole : σ.role step = .write v := by
    cases hrole : σ.role step <;> simp_all [Role.writes]
  have hown : (σ.role step).isOwn = true := by
    rw [hrole]
    rfl
  obtain ⟨hkeying, hstopping⟩ := σ.not_isKeying hown
  cases hs with
  | unarmed _ _ plan => simp [plan] at hplan
  | armed _ _ plan => simp [plan] at hplan
  | arming hact =>
    have hg := hI.arming _ _ _ _ _ hact
    have hguarded := hg.guarded
    rw [CwSupervisor.todo_of_none out, hplan, List.map_cons, hrole] at hguarded
    exact ⟨hg.saved, hguarded.1⟩
  | sending hact _ _ plan => simp [plan step (by simp [hplan])] at hkeying
  | stopping hact _ _ plan => simp [plan step (by simp [hplan])] at hstopping
  | restoring hact =>
    have hm := hI.marked (Or.inr (by simp [hact]))
    rcases hI.restoring _ _ _ _ _ hact with hphase | ⟨_, hnil⟩
    . cases hphase with
      | unwritten own => simp [hplan, owns_cons, hrole, Role.isOwn] at own
      | planned v own before written => exact hm.saved written
      | issued v step' out' => cases out.symm.trans out'
      | written v own =>
        simp [CwSupervisor.todo_of_none out, hplan, owns_cons, hrole, Role.isOwn] at own
      | verified v own =>
        simp [CwSupervisor.todo_of_none out, hplan, owns_cons, hrole, Role.isOwn] at own
    . simp [hplan] at hnil

theorem watch_answered (now : Instant) (s : CwSupervisor) (step : Step) (outcome : CwOutcome)
    : watch σ (([.answered s step outcome].map (Entry.mk now)).reverse ++ log)
        = watch.answered σ (watch σ log) step outcome := by
  rfl

theorem watch_skips (h : Skips (fun w e => watch.next σ w e.event) now evs)
    : watch σ ((evs.map (Entry.mk now)).reverse ++ log) = watch σ log :=
  h.observe

theorem Marked.read {step : Step} {snap : Snapshot} (h : Marked σ (watch σ log) s.snap)
    (hg : Guards σ (watch σ log) s) (out : s.outstanding = some step)
    (hchanged : σ.changed snap = σ.changed s.snap)
    (hsaved : σ.saved snap = σ.saved s.snap ∨ σ.role step = .snap)
    : Marked σ (watch σ log) snap := by
  refine ⟨hchanged.trans h.changed, fun hwritten => ?_⟩
  rcases hsaved with hsaved | hrole
  . rw [hsaved]
    exact h.saved hwritten
  . have hguarded := hg.guarded
    rw [CwSupervisor.todo_of_some out, List.map_cons, hrole] at hguarded
    cases hguarded.1.symm.trans hwritten

theorem Marked.saved_power {p : Nat} (h : Marked σ (watch σ log) s.snap)
    (hg : Guards σ (watch σ log) s) (out : s.outstanding = some .snapPower)
    : Marked σ (watch σ log) { s.snap with power := some p } := by
  obtain ⟨hchanged, hsaved⟩ := σ.snap_power s.snap p
  exact h.read hg out hchanged (hsaved.imp And.right And.left)

theorem Marked.saved_breakIn {k : BreakInKind} (h : Marked σ (watch σ log) s.snap)
    (hg : Guards σ (watch σ log) s) (out : s.outstanding = some .snapBreakIn)
    : Marked σ (watch σ log) { s.snap with breakIn := some k } := by
  obtain ⟨hchanged, hsaved⟩ := σ.snap_breakIn s.snap k
  exact h.read hg out hchanged (hsaved.imp And.right And.left)

theorem Move.marked (hs : Shape s) (hI : Watched σ log s) (h : Move env now s evs s')
    : s'.arm ≠ none ∨ s'.activity ≠ .idle →
        Marked σ (watch σ ((evs.map (Entry.mk now)).reverse ++ log)) s'.snap := by
  intro held'
  cases h with
  | takeNotices | shutdown | keyed => exact hI.marked held'
  | arm => exact ⟨σ.fresh.1, by simp [watch, watch.next]⟩
  | send _ _ _ _ harm => exact hI.marked (Or.inl (by simp [harm]))
  | stop r _ _ _ _ _ hact | endStopping r _ hact =>
    rw [watch_skips (by simp [Request.events, watch.next])]
    exact hI.marked (Or.inr (by simp [hact]))
  | endIdle r _ _ harm =>
    rw [watch_skips (by simp [Request.events, CwSupervisor.owedNotice, watch.next])]
    exact hI.marked (Or.inl (by simp [harm]))
  | refuse c r valid hact =>
    have harm := (hs.of_arming hact).1
    cases c <;> simp [Cause.apply, harm] at held'
  | refuseRestore c r valid hact =>
    have hm := hI.marked (Or.inr (by simp [hact]))
    cases c with
    | request => exact hm
    | answer => exact hm.answered
  | issue out hplan haction =>
    exact (hI.marked held').issue haction fun hwrites => hI.saved hs out hplan hwrites
  | finishArming out hplan hact | finishSending out hplan hact | finishStopping out hplan hact
  | retry out hplan _ hact =>
    exact hI.marked (Or.inr (by simp [hact]))
  | finishStoppingRestore out hplan hact =>
    rw [watch_skips (by simp [CwSupervisor.owedNotice, watch.next])]
    exact hI.marked (Or.inr (by simp [hact]))
  | finishRestoring => simp at held'
  | idleAnswer outcome out _ hact =>
    cases harm : s.arm with
    | none => simp [CwSupervisor.answered, harm, hact] at held'
    | some a => simp [hs.of_armed hact harm] at out
  | snapPower p out =>
    rcases hs.of_snap out rfl rfl with ⟨hact, harm⟩ | ⟨_, _, _, _, _, hact⟩
    . simp [CwSupervisor.answered, hact, harm] at held'
    . have hm := hI.marked (Or.inr (by simp [hact]))
      rw [watch_answered]
      exact (hm.saved_power (hI.arming _ _ _ _ _ hact) out).answered
  | snapBreakIn k out =>
    rcases hs.of_snap out rfl rfl with ⟨hact, harm⟩ | ⟨_, _, _, _, _, hact⟩
    . simp [CwSupervisor.answered, hact, harm] at held'
    . have hm := hI.marked (Or.inr (by simp [hact]))
      rw [watch_answered]
      exact (hm.saved_breakIn (hI.arming _ _ _ _ _ hact) out).answered
  | @overClamp max p _ _ _ _ _ out _ hact =>
    have hm : Marked σ (watch.answered σ (watch σ log) (.powerAtMost max) (.power p)) s.snap :=
      (hI.marked (Or.inr (by simp [hact]))).answered
    unfold CwSupervisor.owedNotice
    cases s.idOwed <;> exact hm
  | @restoreFailed step _ ticket _ _ _ outcome _ _ _ _ _ hact =>
    have hm : Marked σ (watch.answered σ (watch σ log) step outcome) s.snap :=
      (hI.marked (Or.inr (by simp [hact]))).answered
    cases ticket <;> exact hm
  | @stopAnswer step _ _ outcome _ _ _ _ _ _ hact =>
    have hm : Marked σ (watch.answered σ (watch σ log) step outcome) s.snap :=
      (hI.marked (Or.inr (by simp [hact]))).answered
    exact hm
  | planned _ _ _ hact | replanned _ _ _ _ hact | sent _ hact | armStatus _ _ hact =>
    rw [watch_answered]
    exact (hI.marked (Or.inr (by simp [hact]))).answered
  | _ =>
    rw [watch_answered]
    exact (hI.marked held').answered

theorem Move.phase (hs : Shape s) (hI : Watched σ log s) (h : Move env now s evs s')
    : ∀ reason ticket attempts lastError retryAt,
        s'.activity = .restoring reason ticket attempts lastError retryAt →
          Phase σ (watch σ ((evs.map (Entry.mk now)).reverse ++ log)) s'
            ∨ retryAt ≠ none ∧ s'.plan = [] := by
  have hm := h.marked hs hI
  intro reason ticket attempts lastError retryAt hact'
  cases h with
  | takeNotices | shutdown =>
    exact (hI.restoring _ _ _ _ _ hact').imp_left fun hphase => hphase.congr rfl rfl
  | endIdle | finishStoppingRestore | overClamp | refuseRestore | retry =>
    exact Or.inl ((hm (Or.inr (by simp))).phase rfl)
  | keyed out hplan =>
    rcases hI.restoring _ _ _ _ _ hact' with hphase | ⟨_, hnil⟩
    . exact Or.inl (hphase.keyed out hplan out rfl)
    . simp [hplan] at hnil
  | issue out hplan haction =>
    rcases hI.restoring _ _ _ _ _ hact' with hphase | ⟨_, hnil⟩
    . exact Or.inl (hphase.issue out hplan haction rfl rfl)
    . simp [hplan] at hnil
  | restoreAnswer outcome out meets _ hact =>
    have hstep := (hs.of_restoring hact).2.2 _ out
    rw [watch_answered]
    exact (hI.restoring _ _ _ _ _ hact').imp_left fun hphase =>
      hphase.answered out hstep meets rfl rfl
  | restoreFailed =>
    cases hact'
    exact Or.inr ⟨by simp, rfl⟩
  | snapPower p out | snapBreakIn k out =>
    have := (hs.of_restoring hact').2.2 _ out
    contradiction
  | busy out | silenced out =>
    rcases hs.of_keying out rfl rfl with ⟨_, hact⟩ | ⟨_, _, _, _, hact⟩ <;>
      cases hact.symm.trans hact'
  | _ => first | cases hact' | exact absurd hact' (by simp_all [CwSupervisor.answered])

/--
A setting is as it was: it was not written, or the last write put back what was read before the
first, was done, and has been read back.
-/
def Restored (w : Watch α) : Prop :=
  w.written = none ∨ w.written = w.before ∧ w.done = true ∧ w.seen = w.written

def RestoredThen (σ : Setting α) (e : Entry) (log : Log) : Prop :=
  ∀ reason, e.event = .notice (.restored reason) → Restored (watch σ log)

theorem Phase.restored (h : Phase σ w s) (out : s.outstanding = none) (hplan : s.plan = [])
    : Restored w := by
  cases h with
  | unwritten _ written => exact Or.inl written
  | planned v own => simp [hplan, owns] at own
  | issued v step out' => cases out.symm.trans out'
  | written v own => simp [CwSupervisor.todo_of_none out, hplan, owns] at own
  | verified v own before written done seen =>
    exact Or.inr ⟨written.trans before.symm, done, seen.trans written.symm⟩

theorem Move.restoredThen (hI : Watched σ log s) (hlog : Each (RestoredThen σ) log)
    (h : Move env now s evs s')
    : Each (RestoredThen σ) ((evs.map (Entry.mk now)).reverse ++ log) := by
  cases h with
  | @finishRestoring reason ticket _ _ out hplan hact =>
    have hdone : Restored (watch σ log) := by
      rcases hI.restoring _ _ _ _ _ hact with hphase | ⟨hretry, _⟩
      . exact hphase.restored out hplan
      . exact absurd rfl hretry
    cases ticket with
    | none => exact ⟨fun _ _ => hdone, hlog⟩
    | some t => exact ⟨by simp [RestoredThen], fun _ _ => hdone, hlog⟩
  | refuse c | refuseRestore c =>
    apply hlog.append
    cases c <;> simp [RestoredThen, Cause.events, Cause.answers]
  | _ =>
    apply hlog.append
    simp [RestoredThen, CwSupervisor.owedNotice, Request.events, or_imp, forall_and]

theorem Run.restoredThen {capability : CwCapability} {config : CwConfig} {w : Timed}
    (σ : Setting α) (h : Run env capability config log w) : Each (RestoredThen σ) log := by
  let I := fun (log : Log) (_ : Instant) (s : CwSupervisor) =>
    Watched σ log s ∧ Each (RestoredThen σ) log
  suffices I log w.now w.sup from this.2
  apply Run.invariant I _ _ _ h
  . exact ⟨⟨by simp [new], by simp [new], by simp [new]⟩, trivial⟩
  . intro _ _ _ _ hI _
    exact hI
  . intro _ _ _ _ _ hs hI hmove
    obtain ⟨hw, hlog⟩ := hI
    exact ⟨⟨hmove.marked hs hw, hmove.guards hs hw.arming, hmove.phase hs hw⟩,
      hmove.restoredThen hw hlog⟩

theorem restored_as_before {t : Instant} {reason : DisarmReason} {newer older : Log} {w : Timed}
    (h : Run env capability config (newer ++ ⟨t, .notice (.restored reason)⟩ :: older) w)
    : Restored (watch Setting.power older) ∧ Restored (watch Setting.breakIn older) :=
  ⟨(h.restoredThen Setting.power).of_append reason rfl,
    (h.restoredThen Setting.breakIn).of_append reason rfl⟩

theorem restored_as_before_kenwood
    : let script := [(0, .arm 1 ['N', '0', 'C', 'A', 'L', 'L'] none)]
        ++ Bench.exchange [.status true false (some 20), .power 100, .done, .power 5]
        ++ [(0, .nextAction), (0, .disarm 1)] ++ Bench.exchange [.done, .power 100]
        ++ [(0, .nextAction)]
      let older := (Bench.run Bench.kenwood script).1.tail.tail
      Restored (watch Setting.power older) ∧ Restored (watch Setting.breakIn older) := by
  intro script older
  have hlog : (Bench.run Bench.kenwood script).1
      = [⟨0, .notice (.reply 2 (.ok ()))⟩] ++ ⟨0, .notice (.restored .requested)⟩ :: older := by
    rfl
  have hrun := Bench.isRun Bench.kenwood script
  rw [hlog] at hrun
  exact restored_as_before hrun

end

end Cw
