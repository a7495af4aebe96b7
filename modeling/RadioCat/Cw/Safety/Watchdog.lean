import RadioCat.Cw.Safety.Text

/-!
This module contains the watchdog of a job: however often the keyer changes its speed, the deadline
stays within the key-down cap of the arm, the usual margins and an allowance for pacing every
character of the job.
-/

namespace Cw

open Trace

section counts

theorem countP_isSend (plan : List Step) : plan.countP Step.isSend = (sends plan).length := by
  rw [sends, List.length_filterMap_eq_countP]
  apply List.countP_congr
  intro step _
  cases step <;> simp [Step.isSend, Step.chunk]

theorem length_le_strip {l : List Text} (h : ∀ x ∈ l, x.strip ≠ [])
    : l.length ≤ (Text.strip l.flatten).length := by
  induction l with
  | nil => apply Nat.zero_le
  | cons x l ih =>
    have hx := List.length_pos_of_ne_nil (h x List.mem_cons_self)
    have hl := ih fun y hy => h y (List.mem_cons_of_mem _ hy)
    rw [List.flatten_cons, Text.strip_append, List.length_append, List.length_cons]
    omega

theorem Halves.length {p q : Text} {l : List Text} (h : Halves p q l)
    : (Text.strip l.flatten).length = p.length + q.length := by
  obtain ⟨a, b, rfl, rfl, rfl⟩ := h
  rw [List.flatten_append, Text.strip_append, List.length_append]

end counts

def unsent (plan : List Step) : Nat :=
  (Text.strip ((sends plan).map Chunk.text).flatten).length

/--
What the watchdog allows a job is bounded by its whole text: `unsent` is what its plan still keys.
-/
structure Watchdog (s : CwSupervisor) (cap : Duration) (job : Job) : Prop where
  total : job.total = job.text.length % 2 ^ 32
  halves : job.halves.1.length + job.halves.2.length ≤ job.text.length
  first : .status ∈ s.todo → ∃ max, s.todo = [.status, .powerAtMost max]
  remains : unsent s.plan ≤ job.text.length
  deadline : job.deadline ≤ job.started + (watchdogFor s cap
    + (s.config.tick * 4 + s.config.pacingMargin) * job.text.length)

def Activity.armingCap : Activity → Option Duration
  | .arming _ _ _ cap _ => some cap
  | _ => none

structure Capped (s : CwSupervisor) : Prop where
  arming : ∀ cap ∈ s.activity.armingCap, cap ≤ s.config.keyDownCap
  arm : ∀ cap ∈ s.arm.map Arm.cap, cap ≤ s.config.keyDownCap

section

variable {env : Env} {now : Instant} {s s' : CwSupervisor} {evs : List Event} {log : Log}
  {capability : CwCapability} {config : CwConfig} {w : Timed} {job : Job} {cap : Duration}

theorem Capped.of_same (hI : Capped s) (hconfig : s'.config = s.config)
    (hact : s'.activity.armingCap = s.activity.armingCap ∨ s'.activity.armingCap = none)
    (harm : s'.arm.map Arm.cap = s.arm.map Arm.cap ∨ s'.arm.map Arm.cap = none)
    : Capped s' := by
  constructor
  . rcases hact with hact | hact
    . rw [hact, hconfig]
      exact hI.arming
    . simp [hact]
  . rcases harm with harm | harm
    . rw [harm, hconfig]
      exact hI.arm
    . simp [harm]

theorem withSpeed_cap (s : CwSupervisor) (wpm : Nat)
    : (s.withSpeed wpm).arm.map Arm.cap = s.arm.map Arm.cap := by
  rw [CwSupervisor.withSpeed, Option.map_map]
  rfl

theorem Move.capped (hI : Capped s) (h : Move env now s evs s') : Capped s' := by
  have hconfig := h.sameRadio.2.2.2
  cases h with
  | arm owner callsign cap hcap =>
    refine ⟨?_, hI.arm⟩
    rintro _ ⟨⟩
    exact hcap
  | finishArming out hplan hact =>
    refine ⟨by simp [Activity.armingCap], ?_⟩
    rintro _ ⟨⟩
    apply hI.arming
    rw [hact]
    rfl
  | armStatus wpm out hact =>
    apply hI.of_same hconfig
    . rw [hact]
      exact Or.inl rfl
    . exact Or.inl rfl
  | planned | replanned => exact hI.of_same hconfig (Or.inr rfl) (Or.inl (withSpeed_cap _ _))
  | sent out hact harm =>
    apply hI.of_same hconfig (Or.inr rfl)
    rw [harm]
    split <;> exact Or.inl rfl
  | _ =>
    apply hI.of_same hconfig
    . first | exact Or.inl rfl | exact Or.inr rfl
    . first | exact Or.inl rfl | exact Or.inr rfl | simp [*, CwSupervisor.stopJob]

theorem unsent_chunkPlan {send : CwSendText} {wpm : Nat}
    : unsent (chunkPlan env s send job.operator job.idText job.idFirst wpm)
        = job.halves.1.length + job.halves.2.length := by
  exact halves_chunkPlan.length

theorem unsent_replan {send : CwSendText} {wpm : Nat} {margin : Duration}
    : unsent ((rechunk env s send wpm).zipIdx.flatMap (replan.paced send) ++ [.waitKeyed margin])
        = unsent s.plan := by
  rw [unsent, unsent, sends_replan, List.zipIdx_map_fst, texts_rechunk, strip_flatMap]
  exact fun text => strip_chunks text

theorem pacing_le {plan : List Step} (h : ∀ c ∈ sends plan, c.text.strip ≠ [])
    : pacing s plan ≤ (s.config.tick * 4 + s.config.pacingMargin) * unsent plan := by
  have hcount : plan.countP Step.isSend ≤ unsent plan := by
    rw [countP_isSend, ← List.length_map Chunk.text]
    apply length_le_strip
    simpa using h
  apply Nat.mul_le_mul_left
  exact Nat.le_trans (Nat.mod_le _ _) hcount

theorem watchdogFor_mono {est : Duration} (h : est ≤ cap)
    : watchdogFor s est ≤ watchdogFor s cap := by
  unfold watchdogFor
  exact Nat.add_le_add_right (Nat.add_le_add h (Nat.div_le_div_right h)) _

theorem halves_length_jobFor {a : Arm} {operator : Text}
    : (jobFor env s a operator now).1.halves.1.length
        + (jobFor env s a operator now).1.halves.2.length
        ≤ (jobFor env s a operator now).1.text.length := by
  have hstrip (text : Text) : text.strip.length ≤ text.length := List.length_filter_le _ _
  have hoperator := hstrip operator
  have hid := hstrip (idTextOf a.callsign)
  unfold jobFor Job.halves
  cases idDue s a now with
  | false => simp [hoperator]
  | true =>
    cases a.idFirst with
    | false =>
      simp
      omega
    | true =>
      simp
      omega

theorem Watchdog.of_rest (h : Watchdog s cap job) (hconfig : s'.config = s.config)
    (hsends : sends s'.plan <:+ sends s.plan)
    (htodo : s'.todo = s.todo ∨ ∃ step, step ≠ .status ∧ s.todo = step :: s'.todo)
    : Watchdog s' cap job := by
  refine ⟨h.total, h.halves, ?_, Nat.le_trans ?_ h.remains, ?_⟩
  . rcases htodo with htodo | ⟨step, hstep, htodo⟩
    . rw [htodo]
      exact h.first
    . intro hstatus
      have hfirst := h.first
      rw [htodo] at hfirst
      obtain ⟨max, hfirst⟩ := hfirst (List.mem_cons_of_mem _ hstatus)
      rw [List.cons.injEq] at hfirst
      exact absurd hfirst.1 hstep
  . obtain ⟨done, hdone⟩ := hsends
    rw [unsent, unsent, ← hdone, List.map_append, List.flatten_append, Text.strip_append,
      List.length_append]
    apply Nat.le_add_left
  . rw [watchdogFor, hconfig]
    exact h.deadline

theorem Watchdog.answered {step : Step} (h : Watchdog s cap job) (out : s.outstanding = some step)
    (hstep : step ≠ .status) (out' : s'.outstanding = none) (hplan : s'.plan = s.plan)
    (hconfig : s'.config = s.config)
    : Watchdog s' cap job := by
  apply h.of_rest hconfig
  . have hsends : sends s'.plan = sends s.plan := by rw [hplan]
    exact ⟨[], hsends⟩
  . refine Or.inr ⟨step, hstep, ?_⟩
    rw [CwSupervisor.todo_of_some out, CwSupervisor.todo_of_none out', hplan]

theorem Watchdog.took (h : Watchdog s cap job) (chunk : Chunk)
    : Watchdog s cap (job.took chunk) := by
  exact ⟨h.total, h.halves, h.first, h.remains, h.deadline⟩

theorem Watchdog.planned {plan : List Step} {est : Duration} {start : Instant}
    (h : Watchdog s cap job) (out' : s'.outstanding = none) (hplan : s'.plan = plan)
    (hconfig : s'.config = s.config) (hstatus : .status ∉ plan)
    (hchunks : ∀ c ∈ sends plan, c.text.strip ≠ []) (hunsent : unsent plan ≤ job.text.length)
    (hest : est ≤ cap) (hstart : start + est ≤ job.started + cap)
    : Watchdog s' cap { job with deadline := start + (watchdogFor s est + pacing s plan) } := by
  refine ⟨h.total, h.halves, ?_, ?_, ?_⟩
  . rw [CwSupervisor.todo_of_none out', hplan]
    exact fun hmem => absurd hmem hstatus
  . rwa [hplan]
  . have hpacing : pacing s plan
        ≤ (s.config.tick * 4 + s.config.pacingMargin) * job.text.length :=
      Nat.le_trans (pacing_le hchunks) (Nat.mul_le_mul_left _ hunsent)
    have hfifth : est / 5 ≤ cap / 5 := Nat.div_le_div_right hest
    dsimp only
    unfold watchdogFor Duration Instant at *
    rw [hconfig]
    omega

theorem Move.watched (hs : Shape s)
    (hI : ∀ job a, s.activity = .sending job → s.arm = some a → Watchdog s a.cap job)
    (h : Move env now s evs s')
    : ∀ job a, s'.activity = .sending job → s'.arm = some a → Watchdog s' a.cap job := by
  intro job a hact' harm'
  cases h with
  | takeNotices | shutdown =>
    obtain ⟨total, halves, first, remains, deadline⟩ := hI _ _ hact' harm'
    exact ⟨total, halves, first, remains, deadline⟩
  | send text _ hest hact harm =>
    obtain ⟨_, out, _⟩ := hs.of_armed hact harm
    cases hact'
    cases harm'
    refine ⟨rfl, halves_length_jobFor, ?_, Nat.zero_le _, ?_⟩
    . simp [CwSupervisor.todo, out]
    . apply Nat.add_le_add_left
      exact Nat.le_trans (watchdogFor_mono hest) (Nat.le_add_right _ _)
  | @keyed margin rest out hplan =>
    apply Watchdog.of_rest (hI _ _ hact' harm')
    . rfl
    . rw [hplan]
      exact List.suffix_refl _
    . refine Or.inr ⟨.waitKeyed margin, by simp, ?_⟩
      rw [CwSupervisor.todo_of_none out, CwSupervisor.todo_of_none (by exact out)]
      exact hplan
  | @issue step rest _ _ out hplan haction =>
    apply Watchdog.of_rest (hI _ _ hact' harm')
    . rfl
    . rw [hplan, ← List.singleton_append, sends_append]
      exact List.suffix_append _ _
    . refine Or.inl ?_
      rw [CwSupervisor.todo_of_none out, hplan]
      rfl
  | planned wpm out hsend hact harm hest hplan =>
    have hw := hI _ _ hact harm
    have hfirst := hw.first
    rw [CwSupervisor.todo_of_some out] at hfirst
    obtain ⟨max, hfirst⟩ := hfirst List.mem_cons_self
    rw [List.cons.injEq] at hfirst
    rw [hfirst.2] at hplan
    cases hact'
    cases (withSpeed_arm harm).symm.trans harm'
    refine hw.planned rfl rfl rfl ?_ ?_ ?_ ?_ ?_
    . rw [hplan]
      exact List.not_mem_cons_of_ne_of_not_mem (by simp) (status_not_mem_chunkPlan _ _ _)
    . intro c hc
      rw [hplan] at hc
      obtain ⟨_, htext, _⟩ := text_of_mem_chunkPlan (mem_sends.mp hc)
      exact strip_ne_nil_of_mem_chunks htext
    . rw [hplan]
      exact Nat.le_trans (Nat.le_of_eq unsent_chunkPlan) hw.halves
    . exact hest
    . exact Nat.add_le_add_left hest _
  | replanned _ wpm out hsend hact harm hpieces hrest hcap hplan =>
    have hw := hI _ _ hact harm
    cases hact'
    cases (withSpeed_arm harm).symm.trans harm'
    subst hpieces
    refine hw.planned rfl rfl rfl ?_ ?_ ?_ ?_ ?_
    . rw [hplan]
      exact status_not_mem_replan _ _
    . intro c hc
      rw [hplan, sends_replan, List.zipIdx_map_fst] at hc
      obtain ⟨_, htext, _⟩ := text_of_mem_rechunk hc
      exact strip_ne_nil_of_mem_chunks htext
    . rw [hplan, unsent_replan]
      exact hw.remains
    . exact Nat.le_trans (Nat.le_add_left _ _) hcap
    . unfold Duration Instant at *
      omega
  | sameSpeed _ wpm out hact harm same =>
    exact (hI _ _ hact' harm').answered out (by simp) rfl rfl rfl
  | sendAnswer outcome out meets _ check hact =>
    refine (hI _ _ hact' harm').answered out ?_ rfl rfl rfl
    rcases check with rfl | ⟨max, rfl⟩ <;> simp
  | sent out hact harm =>
    have hcap (a : Arm) (b : Bool) : (if b then a.identified now else a).cap = a.cap := by
      split <;> rfl
    cases hact'
    cases harm'
    rw [hcap]
    exact ((hI _ _ hact harm).took _).answered out (by simp) rfl rfl rfl
  | busy out =>
    apply Watchdog.of_rest (hI _ _ hact' harm')
    . rfl
    . exact List.suffix_refl _
    . refine Or.inl ?_
      rw [CwSupervisor.todo_of_some out]
      rfl
  | snapPower p out | snapBreakIn k out | silenced out =>
    obtain ⟨_, _, _, out'⟩ := hs.of_sending hact'
    have := out' _ out
    contradiction
  | _ => first | cases hact' | exact absurd hact' (by simp_all [CwSupervisor.answered])

theorem nextAction_of_due {a : Arm} (hact : s.activity = .sending job) (harm : s.arm = some a)
    (out : s.outstanding = none) (due : job.deadline ≤ now)
    : (nextAction env s now).2 = some .stop := by
  have hplan : (checkTimers env s now).plan = [.stop, .waitKeyed s.config.pacingMargin] := by
    rw [checkTimers, hact]
    dsimp only
    rw [if_pos due, beginStop_sending _ _ _ hact harm]
    rfl
  rw [nextAction, out]
  simp [nextAction.go, hplan, Step.action]

theorem Run.watched (h : Run env capability config log w) (hact : w.sup.activity = .sending job)
    : ∃ a, w.sup.arm = some a ∧ a.cap ≤ config.keyDownCap ∧ Watchdog w.sup a.cap job := by
  let I := fun (_ : Log) (_ : Instant) (s : CwSupervisor) => Capped s
    ∧ ∀ job a, s.activity = .sending job → s.arm = some a → Watchdog s a.cap job
  have hI : I log w.now w.sup := by
    apply Run.invariant I _ _ _ h
    . exact ⟨⟨by simp [new, Activity.armingCap], by simp [new]⟩, by simp [new]⟩
    . intro _ _ _ _ hI _
      exact hI
    . intro _ _ _ _ _ hs hI hmove
      exact ⟨hmove.capped hI.1, hmove.watched hs hI.2⟩
  obtain ⟨⟨a, harm⟩, _⟩ := h.shape.of_sending hact
  refine ⟨a, harm, ?_, hI.2 job a hact harm⟩
  rw [← h.radio.2.2.2]
  apply hI.1.arm
  rw [harm]
  rfl

/--
The session refuses a text of more than 256 characters, so the count of a job's characters, which
is kept in 32 bits, is the count itself.
-/
theorem deadline_bounded (h : Run env capability config log w)
    (hact : w.sup.activity = .sending job) (hlength : job.text.length < 2 ^ 32)
    : (∃ a, w.sup.arm = some a ∧ a.cap ≤ config.keyDownCap
        ∧ job.deadline ≤ job.started + a.cap + a.cap / 5 + config.watchdogMargin
          + (4 * config.tick + config.pacingMargin) * job.total)
      ∧ ∀ now text, w.sup.outstanding = none → job.deadline ≤ now →
          (nextAction env w.sup now).2 ≠ some (.sendChunk text) := by
  obtain ⟨a, harm, hcap, hw⟩ := h.watched hact
  have hdeadline := hw.deadline
  rw [watchdogFor, h.radio.2.2.2] at hdeadline
  refine ⟨⟨a, harm, hcap, ?_⟩, ?_⟩
  . rw [hw.total, Nat.mod_eq_of_lt hlength, Nat.mul_comm 4]
    unfold Duration Instant at *
    omega
  . intro now text out due
    rw [nextAction_of_due hact harm out due]
    simp

theorem deadline_bounded_kenwood
    : let w := (Bench.run Bench.kenwood Bench.kenwoodKeying).2
      let job : Job :=
        { id := 1, text := "CQ DE N0CALL".toList, operator := ['C', 'Q'],
          idText := some "DE N0CALL".toList, total := 12, sent := 0, started := 0,
          deadline := 19200000000, hasId := true, idFirst := false, idSent := false,
          chunkInRadio := false }
      w.sup.activity = .sending job ∧ job.text.length < 2 ^ 32 ∧ ∃ a, w.sup.arm = some a
        ∧ job.deadline ≤ job.started + a.cap + a.cap / 5 + Duration.fromSecs 3
          + (4 * Duration.fromMillis 50 + Duration.fromMillis 250) * job.total := by
  intro w job
  have hact : w.sup.activity = .sending job := by
    rfl
  have hlength : job.text.length < 2 ^ 32 := by
    decide
  have hrun := Bench.isRun Bench.kenwood Bench.kenwoodKeying
  obtain ⟨⟨a, harm, _, hdeadline⟩, _⟩ := deadline_bounded hrun hact hlength
  exact ⟨hact, hlength, a, harm, hdeadline⟩

end

end Cw
