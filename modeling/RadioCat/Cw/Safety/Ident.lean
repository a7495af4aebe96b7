import RadioCat.Cw.Lemmas.Plans
import RadioCat.Cw.Lemmas.Refine

/-!
This module contains the station IDs a run owes: a job that was cut short after a chunk of it was
issued, before the ID due in it had been taken.
-/

namespace Cw

open Trace

structure Owing where
  callsign : Text := []
  due : Bool := false
  keyed : Bool := false
  acked : Bool := false
  owed : List (Text × Bool) := []

namespace Owing

def owes (o : Owing) : Bool :=
  o.due && !o.acked && o.keyed

def leave (o : Owing) : Owing :=
  if o.owes then { o with owed := (o.callsign, false) :: o.owed } else o

def report (o : Owing) (callsign : Text) : Owing :=
  { o with owed := o.owed.map fun x => (x.1, x.2 || x.1 == callsign) }

end Owing

def owing : Log → Owing :=
  observe next {}
where
  next (o : Owing) (e : Entry) : Owing :=
    match e.event with
    | .sent s _ _ _ =>
      { callsign := (s.arm.map Arm.callsign).getD []
        due := s.arm.any (idDue s · e.time)
        owed := o.owed }
    | .issued (.sendChunk _) => { o with keyed := true }
    | .answered _ (.send c) .done => if c.endsId then { o with acked := true, owed := [] } else o
    | .stopped .. => o.leave
    | .notice (.jobEnded _ .completed _) => o.leave
    | .notice (.idOwed callsign _) => o.report callsign
    | _ => o

def CwSupervisor.unkeyed (s : CwSupervisor) : Bool :=
  match s.activity with
  | .sending job => job.hasId && !job.idSent && !job.chunkInRadio
  | _ => false

/--
The first chunk of a job is not refused, and a job is not cut short under one callsign while an ID
is owed under another.
-/
def keepsOwed (e : Entry) (log : Log) : Bool :=
  match e.event with
  | .answered s (.send _) outcome => outcome == .done || !s.unkeyed
  | .stopped .. => !(owing log).owes || (owing log).owed.all (·.1 == (owing log).callsign)
  | _ => true

structure Tracks (o : Owing) (job : Job) (s : CwSupervisor) : Prop where
  arm : s.arm.map Arm.callsign = some o.callsign
  due : job.hasId = o.due
  acked : job.idSent = o.acked
  keyed : o.keyed = (job.chunkInRadio || s.outstanding.any Step.isSend)
  ident : job.hasId = true → ∃ text, job.idText = some text ∧ text.strip ≠ []
  ends : job.hasId = true → job.idSent = false →
    (∃ max, s.todo = [.status, .powerAtMost max]) ∨ EndsId (sends s.todo)

section

variable {env : Env} {now : Instant} {s s' : CwSupervisor} {evs : List Event} {log : Log}
  {capability : CwCapability} {config : CwConfig} {w : Timed} {o : Owing} {job : Job}

theorem owing_sent (chunk : Chunk)
    : owing (([.answered s (.send chunk) .done].map (Entry.mk now)).reverse ++ log)
        = if chunk.endsId then { owing log with acked := true, owed := [] } else owing log := by
  rfl

theorem Tracks.planned {step : Step} {rest : List Step} (h : Tracks o job s)
    (htodo : s.todo = step :: rest) (hstep : step ≠ .status) (hid : job.hasId = true)
    (hsent : job.idSent = false) : EndsId (sends (step :: rest)) := by
  have hends := (h.ends hid hsent).resolve_left (CwSupervisor.not_starting htodo hstep)
  rwa [htodo] at hends

theorem Tracks.answered {job' : Job} {step : Step} (h : Tracks o job s)
    (out : s.outstanding = some step) (hsend : step.isSend = false) (out' : s'.outstanding = none)
    (harm : s'.arm.map Arm.callsign = s.arm.map Arm.callsign)
    (hjob : job' = { job with deadline := job'.deadline })
    (hends : job.hasId = true → job.idSent = false → EndsId (sends s'.plan))
    : Tracks o job' s' := by
  rw [hjob]
  refine ⟨harm.trans h.arm, h.due, h.acked, ?_, h.ident, fun hid hsent => Or.inr ?_⟩
  . rw [h.keyed, out, out', Option.any_some, hsend]
    rfl
  . rw [CwSupervisor.todo_of_none out']
    exact hends hid hsent

theorem Tracks.sent {chunk : Chunk} (h : Tracks o job s) (out : s.outstanding = some (.send chunk))
    (out' : s'.outstanding = none) (hplan : s'.plan = s.plan)
    (harm : s'.arm.map Arm.callsign = s.arm.map Arm.callsign)
    : Tracks (if chunk.endsId then { o with acked := true, owed := [] } else o) (job.took chunk)
        s' := by
  have hkeyed : o.keyed = true := by
    rw [h.keyed, out]
    simp [Step.isSend]
  split
  next hid =>
    refine ⟨harm.trans h.arm, h.due, ?_, hkeyed, h.ident, ?_⟩ <;> simp [Job.took, hid]
  next hid =>
    rw [Bool.not_eq_true] at hid
    refine ⟨harm.trans h.arm, h.due, ?_, hkeyed, h.ident, fun hdue hsent => Or.inr ?_⟩
    . simp [Job.took, hid, h.acked]
    . have hsent : job.idSent = false := by simpa [Job.took, hid] using hsent
      obtain ⟨c, hc, hends, hstrip⟩ :=
        h.planned (CwSupervisor.todo_of_some out) (by simp) hdue hsent
      rw [CwSupervisor.todo_of_none out', hplan]
      rw [mem_sends, List.mem_cons] at hc
      rcases hc with hc | hc
      . cases hc
        simp [hid] at hends
      . exact ⟨c, mem_sends.mpr hc, hends, hstrip⟩

theorem Move.tracks (hs : Shape s)
    (hI : ∀ job, s.activity = .sending job → Tracks (owing log) job s)
    (h : Move env now s evs s')
    : ∀ job, s'.activity = .sending job →
        Tracks (owing ((evs.map (Entry.mk now)).reverse ++ log)) job s' := by
  intro job hact'
  cases h with
  | takeNotices | shutdown =>
    obtain ⟨arm, due, acked, keyed, ident, ends⟩ := hI job hact'
    exact ⟨arm, due, acked, keyed, ident, ends⟩
  | @send a text _ _ hact harm =>
    obtain ⟨_, out, _⟩ := hs.of_armed hact harm
    cases hact'
    refine ⟨?_, ?_, rfl, ?_, ?_, fun _ _ => Or.inl ⟨s.lowPowerRaw, ?_⟩⟩
    . simp [owing, owing.next, harm]
    . simp [owing, owing.next, harm, jobFor]
    . simp [owing, owing.next, out, jobFor]
    . intro hdue
      refine ⟨idTextOf a.callsign, ?_, strip_idTextOf _⟩
      simp only [jobFor] at hdue ⊢
      rw [hdue, if_pos rfl]
    . simp [CwSupervisor.todo, out]
  | keyed out hplan =>
    have ht := hI job hact'
    refine ⟨ht.arm, ht.due, ht.acked, ht.keyed, ht.ident, fun hid hsent => Or.inr ?_⟩
    have hends := ht.planned ((CwSupervisor.todo_of_none out).trans hplan) (by simp) hid hsent
    simp only [CwSupervisor.todo, out]
    exact hends
  | @issue step rest _ _ out hplan haction =>
    have ht := hI job hact'
    have ends := ht.ends
    rw [CwSupervisor.todo_of_none out, hplan] at ends
    cases step with
    | send c =>
      cases haction
      refine ⟨ht.arm, ht.due, ht.acked, ?_, ht.ident, ends⟩
      simp [owing, owing.next, Step.isSend]
    | waitKeyed => cases haction
    | _ =>
      cases haction
      refine ⟨ht.arm, ht.due, ht.acked, ht.keyed.trans ?_, ht.ident, ends⟩
      rw [out]
      rfl
  | planned wpm out hsend hact harm _ hplan =>
    have ht := hI _ hact
    cases hact'
    refine ht.answered out rfl rfl ?_ rfl ?_
    . simp [CwSupervisor.withSpeed, CwSupervisor.answered, harm]
    . intro hid _
      obtain ⟨text, htext, hstrip⟩ := ht.ident hid
      subst hplan
      rw [sends_append, htext]
      exact (endsId_chunkPlan hstrip).append_left _
  | replanned _ wpm out hsend hact harm hpieces _ _ hplan =>
    have ht := hI _ hact
    cases hact'
    refine ht.answered out rfl rfl ?_ rfl ?_
    . simp [CwSupervisor.withSpeed, CwSupervisor.answered, harm]
    . intro hid hsent
      subst hplan hpieces
      rw [sends_replan, List.zipIdx_map_fst]
      exact endsId_rechunk (ht.planned (CwSupervisor.todo_of_some out) (by simp) hid hsent)
  | sameSpeed _ wpm out hact harm same =>
    have ht := hI _ hact'
    exact ht.answered out rfl rfl rfl rfl (ht.planned (CwSupervisor.todo_of_some out) (by simp))
  | sendAnswer outcome out meets _ check hact =>
    have ht := hI _ hact'
    rcases check with rfl | ⟨max, rfl⟩
    all_goals
      exact ht.answered out rfl rfl rfl rfl
        (ht.planned (CwSupervisor.todo_of_some out) (by simp))
  | @sent chunk a job out hact harm =>
    have ht := hI _ hact
    cases hact'
    rw [owing_sent]
    refine ht.sent out rfl rfl ?_
    rw [harm]
    split <;> rfl
  | busy out =>
    have ht := hI _ hact'
    have ends := ht.ends
    rw [CwSupervisor.todo_of_some out] at ends
    refine ⟨ht.arm, ht.due, ht.acked, ht.keyed.trans ?_, ht.ident, ends⟩
    rw [out]
    rfl
  | snapPower p out | snapBreakIn k out | silenced out =>
    obtain ⟨_, _, _, out'⟩ := hs.of_sending hact'
    have := out' _ out
    contradiction
  | _ => first | cases hact' | exact absurd hact' (by simp_all [CwSupervisor.answered])

def Owed (o : Owing) (s : CwSupervisor) : Prop :=
  ∀ x ∈ o.owed, s.idOwed = some x.1 ∧ (s.arm = none → x.2 = true)

theorem Tracks.leave_of_acked (h : Tracks o job s) (hplan : s.todo = []) : o.leave = o := by
  have howes : o.owes = false := by
    rw [Owing.owes, ← h.due, ← h.acked]
    cases hid : job.hasId with
    | false => rfl
    | true =>
      cases hsent : job.idSent with
      | true => rfl
      | false =>
        rcases h.ends hid hsent with ⟨max, hc⟩ | ⟨c, hc, _⟩
        . simp [hplan] at hc
        . simp [hplan] at hc
  rw [Owing.leave, howes]
  rfl

theorem owed_stopJob {a : Arm} {reason : StopReason} {message : Option String} {after : After}
    (hI : ∀ x ∈ o.owed, s.idOwed = some x.1) (hcall : a.callsign = o.callsign)
    (howes : o.owes
      = (job.hasId && !job.idSent && (job.chunkInRadio || s.outstanding.any Step.isSend)))
    (hsame : o.owes = true → ∀ x ∈ o.owed, x.1 = o.callsign)
    : Owed o.leave (s.stopJob a job reason message after) := by
  have hid : (s.stopJob a job reason message after).idOwed
      = if o.owes then some a.callsign else s.idOwed := by
    rw [howes]
    rfl
  intro x hx
  refine ⟨?_, by simp [CwSupervisor.stopJob]⟩
  rw [hid]
  unfold Owing.leave at hx
  split at hx
  next h =>
    rw [if_pos h, hcall]
    rw [List.mem_cons] at hx
    rcases hx with rfl | hx
    . rfl
    . rw [hsame h x hx]
  next h =>
    rw [if_neg h]
    exact hI x hx

theorem Owed.report (hI : Owed o s) (hid : s'.idOwed = s.idOwed)
    : Owed (s.idOwed.elim o o.report) s' := by
  intro x hx
  cases howed : s.idOwed with
  | none =>
    rw [howed] at hx
    have := (hI x hx).1
    simp [howed] at this
  | some callsign =>
    rw [howed] at hx
    obtain ⟨y, hy, rfl⟩ := List.mem_map.mp hx
    have hcall := (hI y hy).1
    refine ⟨hid.trans hcall, fun _ => ?_⟩
    rw [howed, Option.some.injEq] at hcall
    simp [hcall]

theorem owing_report (reason : DisarmReason) (hskip : Skips owing.next now evs)
    : owing (((evs ++ (s.owedNotice reason).map Event.notice).map (Entry.mk now)).reverse ++ log)
        = s.idOwed.elim (owing log) (owing log).report := by
  have hlog : owing ((evs.map (Entry.mk now)).reverse ++ log) = owing log := hskip.observe
  rw [List.map_append, List.reverse_append, List.append_assoc]
  unfold CwSupervisor.owedNotice
  cases s.idOwed with
  | none => exact hlog
  | some callsign => exact congrArg (Owing.report · callsign) hlog

theorem owing.next_answered {step : Step} {outcome : CwOutcome} (o : Owing)
    (plain : step.records outcome = false)
    : next o ⟨now, .answered s step outcome⟩ = o := by
  cases step with
  | send c =>
    cases outcome with
    | done => simp [Step.records] at plain
    | _ => rfl
  | _ => rfl

theorem Owed.skip (hI : Owed (owing log) s) (hskip : Skips owing.next now evs)
    (hid : s'.idOwed = s.idOwed) (harm : s'.arm = none → s.arm = none)
    : Owed (owing ((evs.map (Entry.mk now)).reverse ++ log)) s' := by
  have hlog : owing ((evs.map (Entry.mk now)).reverse ++ log) = owing log := hskip.observe
  rw [hlog]
  intro x hx
  exact ⟨hid.trans (hI x hx).1, fun h => (hI x hx).2 (harm h)⟩

theorem owes_of_kept {c : Chunk} {outcome : CwOutcome} (hact : s.activity = .sending job)
    (plain : (Step.send c).records outcome = false)
    (h : keepsOwed ⟨now, .answered s (.send c) outcome⟩ log = true)
    : (job.hasId && !job.idSent && (job.chunkInRadio || (some (Step.send c)).any Step.isSend))
        = (job.hasId && !job.idSent && (job.chunkInRadio || (none : Option Step).any Step.isSend))
        := by
  simp only [keepsOwed, Bool.or_eq_true, beq_iff_eq] at h
  rcases h with rfl | h
  . simp [Step.records] at plain
  . simp only [CwSupervisor.unkeyed, hact] at h
    cases hid : job.hasId <;> cases hsent : job.idSent <;> cases hkeyed : job.chunkInRadio <;>
      simp_all

theorem callsign_of_kept {callsign : Text}
    (h : keepsOwed ⟨now, .stopped callsign job⟩ log = true) (howes : (owing log).owes = true)
    : ∀ x ∈ (owing log).owed, x.1 = (owing log).callsign := by
  simpa [keepsOwed, howes] using h

theorem Move.owed (hs : Shape s) (hu : Unfinished s)
    (hT : ∀ job, s.activity = .sending job → Tracks (owing log) job s)
    (hI : Owed (owing log) s) (h : Move env now s evs s')
    (hkeeps : Each (keepsOwed · ·) ((evs.map (Entry.mk now)).reverse ++ log))
    : Owed (owing ((evs.map (Entry.mk now)).reverse ++ log)) s' := by
  cases h with
  | @stop a job r _ _ _ _ _ hact harm =>
    have ht := hT _ hact
    have hleave (callsign : Text) (job : Job)
        : owing (((r.events s ++ [Event.stopped callsign job]).map (Entry.mk now)).reverse ++ log)
          = (owing log).leave := by
      cases r <;> rfl
    rw [hleave]
    apply owed_stopJob (s := r.apply s) (fun x hx => (hI x hx).1)
    . simpa [harm] using ht.arm
    . rw [Owing.owes, ← ht.due, ← ht.acked, ht.keyed]
      rfl
    . have hkept : keepsOwed ⟨now, .stopped a.callsign job⟩ log = true := by
        cases r <;> exact hkeeps.1
      exact callsign_of_kept hkept
  | @stopAnswer step a job outcome wpm message after _ out plain hact harm =>
    have ht := hT _ hact
    have hanswer : owing (⟨now, .answered s step outcome⟩ :: log) = owing log :=
      owing.next_answered _ plain
    have hkept : keepsOwed ⟨now, .stopped a.callsign job⟩
        (⟨now, .answered s step outcome⟩ :: log) = true := hkeeps.1
    have hsame := callsign_of_kept hkept
    rw [hanswer] at hsame
    change Owed (Owing.leave (owing (⟨now, .answered s step outcome⟩ :: log))) _
    rw [hanswer]
    refine owed_stopJob (fun x hx => (hI x hx).1) ?_ ?_ hsame
    . simpa [harm] using ht.arm
    . rw [Owing.owes, ← ht.due, ← ht.acked, ht.keyed, out]
      cases step with
      | send c => exact owes_of_kept hact plain hkeeps.2.1
      | _ => rfl
  | endIdle r reason hact harm =>
    rw [owing_report reason (by simp [Request.events, owing.next])]
    exact hI.report rfl
  | finishStoppingRestore out hplan hact =>
    have hwhy := hu _ _ _ _ hact
    rw [← List.singleton_append, owing_report _ (by simp [owing.next, hwhy])]
    exact hI.report rfl
  | overClamp out =>
    rw [← List.singleton_append, owing_report _ (by simp [owing.next])]
    exact hI.report rfl
  | finishSending out hplan hact =>
    have htodo := (CwSupervisor.todo_of_none out).trans hplan
    change Owed (owing log).leave _
    rw [(hT _ hact).leave_of_acked htodo]
    exact fun x hx => ⟨(hI x hx).1, by simp⟩
  | finishStopping out hplan hact =>
    have hwhy := hu _ _ _ _ hact
    exact hI.skip (by simp [owing.next, hwhy]) rfl (by simp)
  | finishArming => exact hI.skip (by simp [owing.next]) rfl (by simp)
  | send => exact fun x hx => ⟨(hI x hx).1, by simp⟩
  | sent | sentLate =>
    rw [owing_sent]
    intro x hx
    split at hx
    next => simp at hx
    next hid =>
      have howed := hI x hx
      simp_all [CwSupervisor.answered]
  | finishRestoring out hplan hact =>
    exact hI.skip (by simp [owing.next]) rfl fun _ => (hs.of_restoring hact).1
  | planned | replanned =>
    exact hI.skip (by simp [owing.next]) rfl
      (by simp [CwSupervisor.withSpeed, CwSupervisor.answered])
  | @issue _ _ action => cases action <;> exact hI
  | refuse c r valid | refuseRestore c r valid =>
    refine hI.skip ?_ rfl id
    rw [skips_append]
    exact ⟨c.skips_events (fun _ _ => owing.next_answered) valid, by simp [owing.next]⟩
  | idleAnswer _ _ plain | armAnswer _ _ _ plain | sendAnswer _ _ _ plain
  | stopAnswered _ _ _ plain | stopFailed _ _ _ plain | restoreAnswer _ _ _ plain =>
    exact hI.skip (by simp [owing.next_answered _ plain]) rfl id
  | restoreFailed _ _ _ _ _ plain =>
    refine hI.skip ?_ rfl id
    rw [skips_cons]
    exact ⟨fun o => owing.next_answered o plain, by simp [owing.next]⟩
  | _ => exact hI.skip (by simp [owing.next, Request.events]) rfl id

theorem Run.owed (h : Run env capability config log w) (hkeeps : Each (keepsOwed · ·) log)
    : Owed (owing log) w.sup := by
  let I := fun (log : Log) (_ : Instant) (s : CwSupervisor) => Unfinished s
    ∧ (∀ job, s.activity = .sending job → Tracks (owing log) job s)
    ∧ (Each (keepsOwed · ·) log → Owed (owing log) s)
  suffices I log w.now w.sup from this.2.2 hkeeps
  apply Run.invariant I _ _ _ h
  . refine ⟨by simp [Unfinished, new], by simp [new], fun _ x hx => ?_⟩
    simp [owing] at hx
  . intro _ _ _ _ hI _
    exact hI
  . intro _ _ _ _ _ hs hI hmove
    obtain ⟨hu, hT, hO⟩ := hI
    refine ⟨hmove.unfinished hu, hmove.tracks hs hT, fun hkeeps => ?_⟩
    exact hmove.owed hs hu hT (hO hkeeps.of_append_right) hkeeps

theorem owed_until_identified (h : Run env capability config log w)
    (hkeeps : Each (keepsOwed · ·) log)
    : ∀ x ∈ (owing log).owed, w.sup.idOwed = some x.1 ∧ (w.sup.arm = none → x.2 = true) :=
  h.owed hkeeps

theorem owed_until_identified_icom
    : let script := Bench.icomKeying ++ [(0, .abort), (0, .complete .done)]
        ++ Bench.exchange [.done] ++ [(0, .disarm 1), (.fromSecs 9, .nextAction)]
      let res := Bench.run Bench.icom script
      (owing res.1).owed = [(['N', '0', 'C', 'A', 'L', 'L'], true)] ∧ res.2.sup.arm = none
        ∧ ∀ x ∈ (owing res.1).owed,
          res.2.sup.idOwed = some x.1 ∧ (res.2.sup.arm = none → x.2 = true) :=
  ⟨by decide +kernel, by decide +kernel,
    owed_until_identified (Bench.isRun Bench.icom _) (by decide +kernel)⟩

theorem not_owed_after_failed_chunk
    : let script := Bench.icomKeying ++ [(0, .complete (.failed "timeout"))]
      let res := Bench.run Bench.icom script
      (owing res.1).owed = [(['N', '0', 'C', 'A', 'L', 'L'], false)]
        ∧ res.2.sup.idOwed = none := by
  -- The chunk may have been keyed, but its job is stopped with nothing owed.
  decide +kernel

end

end Cw
