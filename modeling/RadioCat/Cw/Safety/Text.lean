import RadioCat.Cw.Lemmas.Plans
import RadioCat.Cw.Lemmas.Refine

/-!
This module contains what is sent for a job: the text of its operator and the ID that was due, cut
into chunks and cut again whenever the speed of the keyer changes.
-/

namespace Cw

open Trace

section Halves

def Halves (p q : Text) (l : List Text) : Prop :=
  ∃ a b, l = a ++ b ∧ Text.strip a.flatten = p ∧ Text.strip b.flatten = q

variable {p q : Text} {l l' : List Text} {f : Text → List Text}

theorem strip_flatMap (hf : ∀ t, Text.strip (f t).flatten = t.strip) (l : List Text)
    : Text.strip (l.flatMap f).flatten = Text.strip l.flatten := by
  induction l with
  | nil => rfl
  | cons t l ih =>
    rw [List.flatMap_cons, List.flatten_append, Text.strip_append, hf, ih, List.flatten_cons,
      Text.strip_append]

theorem Halves.flatMap (h : Halves p q (l ++ l')) (hf : ∀ t, Text.strip (f t).flatten = t.strip)
    : Halves p q (l ++ l'.flatMap f) := by
  obtain ⟨a, b, hab, ha, hb⟩ := h
  rcases List.append_eq_append_iff.mp hab with ⟨c, rfl, rfl⟩ | ⟨c, rfl, rfl⟩
  . refine ⟨l ++ c.flatMap f, b.flatMap f, by simp, ?_, ?_⟩
    . rw [← ha, List.flatten_append, List.flatten_append, Text.strip_append, Text.strip_append,
        strip_flatMap hf]
    . rw [← hb, strip_flatMap hf]
  . refine ⟨a, c ++ l'.flatMap f, by simp, ha, ?_⟩
    rw [← hb, List.flatten_append, List.flatten_append, Text.strip_append, Text.strip_append,
      strip_flatMap hf]

end Halves

structure Transmission where
  sup : CwSupervisor
  time : Instant
  text : Text
  job : Nat
  chunks : List Text := []

def transmission : Log → Option Transmission :=
  observe next none
where
  next (x : Option Transmission) (e : Entry) : Option Transmission :=
    match e.event with
    | .sent sup _ text job => some { sup, time := e.time, text, job }
    | .issued (.sendChunk text) => x.map fun x => { x with chunks := x.chunks ++ [text] }
    | _ => x

def Job.halves (job : Job) : Text × Text :=
  let operator := job.operator.strip
  let id := (job.idText.getD []).strip
  if job.idFirst then (id, operator) else (operator, id)

structure Carries (env : Env) (x : Transmission) (job : Job) (s : CwSupervisor) : Prop where
  id : x.job = job.id
  made : ∃ a, x.sup.arm = some a
    ∧ job.halves = (jobFor env x.sup a (operatorText x.text) x.time).1.halves
  pieces : (∃ max, s.todo = [.status, .powerAtMost max]) ∧ x.chunks = []
    ∨ .status ∉ s.todo
      ∧ Halves job.halves.1 job.halves.2 (x.chunks ++ (sends s.plan).map Chunk.text)

section

variable {env : Env} {now : Instant} {s s' : CwSupervisor} {evs : List Event} {log : Log}
  {capability : CwCapability} {config : CwConfig} {w : Timed} {x : Transmission} {job : Job}

theorem halves_chunkPlan {send : CwSendText} {wpm : Nat}
    : Halves job.halves.1 job.halves.2
        ((sends (chunkPlan env s send job.operator job.idText job.idFirst wpm)).map
          Chunk.text) := by
  have htexts : (sends (chunkPlan env s send job.operator job.idText job.idFirst wpm)).map
      Chunk.text = (pieces env s send job.operator job.idText job.idFirst wpm).map Prod.fst := by
    rw [← sends_chunkPlan, List.map_map]
    rfl
  have hid : Text.strip (job.idText.elim [] fun text =>
      chunks env text send.maxChunkChars (drainBoundOf s send) wpm).flatten
      = (job.idText.getD []).strip := by
    cases job.idText with
    | none => rfl
    | some text => exact strip_chunks text
  rw [htexts]
  unfold pieces Job.halves
  split
  . refine ⟨_, _, List.map_append, ?_, ?_⟩
    . rw [chunkPlan.markLast_fst, hid]
    . simp [Function.comp_def, strip_chunks]
  . refine ⟨_, _, List.map_append, ?_, ?_⟩
    . simp [Function.comp_def, strip_chunks]
    . rw [chunkPlan.markLast_fst, hid]

theorem Carries.planned {step : Step} {rest : List Step} (h : Carries env x job s)
    (htodo : s.todo = step :: rest) (hstep : step ≠ .status)
    : .status ∉ rest
        ∧ Halves job.halves.1 job.halves.2 (x.chunks ++ (sends s.plan).map Chunk.text) := by
  rcases h.pieces with ⟨hstart, _⟩ | ⟨hmem, hhalves⟩
  . exact absurd hstart (CwSupervisor.not_starting htodo hstep)
  . rw [htodo] at hmem
    exact ⟨fun h => hmem (List.mem_cons_of_mem _ h), hhalves⟩

theorem Carries.answered {job' : Job} {step : Step} (h : Carries env x job s)
    (out : s.outstanding = some step) (hstep : step ≠ .status) (out' : s'.outstanding = none)
    (hplan : s'.plan = s.plan) (hid : job'.id = job.id) (hjob : job'.halves = job.halves)
    : Carries env x job' s' := by
  obtain ⟨hstatus, hhalves⟩ := h.planned (CwSupervisor.todo_of_some out) hstep
  refine ⟨h.id.trans hid.symm, ?_, Or.inr ?_⟩
  . rw [hjob]
    exact h.made
  . rw [CwSupervisor.todo_of_none out', hplan, hjob]
    exact ⟨hstatus, hhalves⟩

theorem Move.carries (hs : Shape s)
    (hI : ∀ job, s.activity = .sending job → ∃ x, transmission log = some x ∧ Carries env x job s)
    (h : Move env now s evs s')
    : ∀ job, s'.activity = .sending job →
        ∃ x, transmission ((evs.map (Entry.mk now)).reverse ++ log) = some x
          ∧ Carries env x job s' := by
  intro job hact'
  cases h with
  | takeNotices | shutdown =>
    obtain ⟨x, hx, hid, made, pieces⟩ := hI job hact'
    exact ⟨x, hx, hid, made, pieces⟩
  | send text _ _ hact harm =>
    obtain ⟨_, out, _⟩ := hs.of_armed hact harm
    cases hact'
    refine ⟨_, rfl, rfl, ⟨_, harm, rfl⟩, Or.inl ⟨⟨s.lowPowerRaw, ?_⟩, rfl⟩⟩
    simp [CwSupervisor.todo, out]
  | keyed out hplan =>
    obtain ⟨x, hx, hc⟩ := hI job hact'
    obtain ⟨hstatus, hhalves⟩ :=
      hc.planned ((CwSupervisor.todo_of_none out).trans hplan) (by simp)
    rw [hplan] at hhalves
    refine ⟨x, hx, hc.id, hc.made, Or.inr ⟨?_, hhalves⟩⟩
    simpa [CwSupervisor.todo, out] using hstatus
  | @issue step rest _ _ out hplan haction =>
    obtain ⟨x, hx, hid, made, pieces⟩ := hI job hact'
    rw [CwSupervisor.todo_of_none out, hplan] at pieces
    cases step with
    | send c =>
      cases haction
      have hx' : transmission (⟨now, .issued (.sendChunk c.text)⟩ :: log)
          = some { x with chunks := x.chunks ++ [c.text] } := by
        unfold transmission at hx ⊢
        rw [observe_cons, hx]
        rfl
      refine ⟨_, hx', hid, made, ?_⟩
      rcases pieces with ⟨⟨_, hc⟩, _⟩ | ⟨hmem, hhalves⟩
      . simp at hc
      . refine Or.inr ⟨hmem, ?_⟩
        rw [List.append_assoc]
        exact hhalves
    | waitKeyed => cases haction
    | _ =>
      cases haction
      exact ⟨x, hx, hid, made, pieces⟩
  | planned wpm out hsend hact harm _ hplan =>
    obtain ⟨x, hx, hid, made, pieces⟩ := hI _ hact
    cases hact'
    refine ⟨x, hx, hid, made, Or.inr ?_⟩
    rw [CwSupervisor.todo_of_some out] at pieces
    rcases pieces with ⟨⟨max, hc⟩, hnone⟩ | ⟨hmem, _⟩
    . rw [List.cons.injEq] at hc
      subst hplan
      rw [hc.2, hnone]
      refine ⟨?_, halves_chunkPlan⟩
      exact List.not_mem_cons_of_ne_of_not_mem (by simp) (status_not_mem_chunkPlan _ _ _)
    . exact absurd List.mem_cons_self hmem
  | replanned _ wpm out hsend hact harm hpieces _ _ hplan =>
    obtain ⟨x, hx, hc⟩ := hI _ hact
    obtain ⟨_, hhalves⟩ := hc.planned (CwSupervisor.todo_of_some out) (by simp)
    cases hact'
    refine ⟨x, hx, hc.id, hc.made, Or.inr ?_⟩
    subst hplan hpieces
    refine ⟨status_not_mem_replan _ _, ?_⟩
    dsimp only
    rw [sends_replan, List.zipIdx_map_fst, texts_rechunk]
    exact hhalves.flatMap fun text => strip_chunks text
  | sameSpeed _ wpm out hact harm same =>
    obtain ⟨x, hx, hc⟩ := hI _ hact'
    exact ⟨x, hx, hc.answered out (by simp) rfl rfl rfl rfl⟩
  | sendAnswer outcome out meets _ check hact =>
    obtain ⟨x, hx, hc⟩ := hI _ hact'
    refine ⟨x, hx, hc.answered out ?_ rfl rfl rfl rfl⟩
    rcases check with rfl | ⟨max, rfl⟩ <;> simp
  | sent out hact harm =>
    obtain ⟨x, hx, hc⟩ := hI _ hact
    cases hact'
    exact ⟨x, hx, hc.answered out (by simp) rfl rfl rfl rfl⟩
  | busy out =>
    obtain ⟨x, hx, hid, made, pieces⟩ := hI _ hact'
    rw [CwSupervisor.todo_of_some out] at pieces
    exact ⟨x, hx, hid, made, pieces⟩
  | snapPower p out | snapBreakIn k out | silenced out =>
    obtain ⟨_, _, _, out'⟩ := hs.of_sending hact'
    have := out' _ out
    contradiction
  | _ => first | cases hact' | exact absurd hact' (by simp_all [CwSupervisor.answered])

/--
The chunks issued since the last send are its operator's text and the ID that was due, each cut on
its own.
-/
def Delivered (log : Log) (id : Nat) : Prop :=
  ∃ x a operator ident, transmission log = some x ∧ x.job = id ∧ x.sup.arm = some a
    ∧ x.chunks
      = (if idDue x.sup a x.time && a.idFirst then ident ++ operator else operator ++ ident)
    ∧ Text.strip operator.flatten = x.text.toAsciiUppercase.strip
    ∧ if idDue x.sup a x.time then
        Text.strip ident.flatten = 'D' :: 'E' :: a.callsign.strip
      else
        ident = []

theorem Carries.delivered (h : Carries env x job s) (hlog : transmission log = some x)
    (out : s.outstanding = none) (hplan : s.plan = []) : Delivered log job.id := by
  obtain ⟨a, harm, hmade⟩ := h.made
  have htodo := (CwSupervisor.todo_of_none out).trans hplan
  rcases h.pieces with ⟨⟨max, hc⟩, _⟩ | ⟨_, hhalves⟩
  . simp [htodo] at hc
  rw [hplan, hmade] at hhalves
  obtain ⟨p, q, hpq, hp, hq⟩ := hhalves
  simp only [sends_nil, List.map_nil, List.append_nil] at hpq
  cases hdue : idDue x.sup a x.time with
  | false =>
    simp only [Job.halves, jobFor, hdue, Bool.false_and, Bool.false_eq_true, if_false] at hp hq
    refine ⟨x, a, p ++ q, [], hlog, h.id, harm, ?_, ?_, ?_⟩
    . simp [hdue, hpq]
    . rw [List.flatten_append, Text.strip_append, hp, hq, strip_operatorText]
      exact List.append_nil _
    . simp [hdue]
  | true =>
    cases hfirst : a.idFirst with
    | false =>
      simp only [Job.halves, jobFor, hdue, hfirst, Bool.and_false, Bool.false_eq_true, if_true,
        if_false] at hp hq
      refine ⟨x, a, p, q, hlog, h.id, harm, ?_, ?_, ?_⟩
      . simp [hfirst, hpq]
      . rw [hp, strip_operatorText]
      . rw [hdue, if_pos rfl, hq]
        rfl
    | true =>
      simp only [Job.halves, jobFor, hdue, hfirst, Bool.and_true, if_true] at hp hq
      refine ⟨x, a, q, p, hlog, h.id, harm, ?_, ?_, ?_⟩
      . simp [hdue, hfirst, hpq]
      . rw [hq, strip_operatorText]
      . rw [hdue, if_pos rfl, hp]
        rfl

def CompletedDelivered (e : Entry) (log : Log) : Prop :=
  ∀ id message, e.event = .notice (.jobEnded id .completed message) → Delivered log id

theorem Move.completedDelivered (hu : Unfinished s)
    (hI : ∀ job, s.activity = .sending job → ∃ x, transmission log = some x ∧ Carries env x job s)
    (hlog : Each CompletedDelivered log) (h : Move env now s evs s')
    : Each CompletedDelivered ((evs.map (Entry.mk now)).reverse ++ log) := by
  apply Move.completed (R := Delivered) hu _ hlog h
  intro job out hplan hact
  obtain ⟨x, hx, hc⟩ := hI job hact
  exact hc.delivered hx out hplan

theorem Run.delivered (h : Run env capability config log w) : Each CompletedDelivered log := by
  let I := fun (log : Log) (_ : Instant) (s : CwSupervisor) => Unfinished s
    ∧ (∀ job, s.activity = .sending job → ∃ x, transmission log = some x ∧ Carries env x job s)
    ∧ Each CompletedDelivered log
  suffices I log w.now w.sup from this.2.2
  apply Run.invariant I _ _ _ h
  . exact ⟨by simp [Unfinished, new], by simp [new], trivial⟩
  . intro _ _ _ _ hI _
    exact hI
  . intro _ _ _ _ _ hs hI hmove
    obtain ⟨hu, hc, hd⟩ := hI
    exact ⟨hmove.unfinished hu, hmove.carries hs hc, hmove.completedDelivered hu hc hd⟩

theorem completed_job_delivered {t : Instant} {id : Nat} {message : Option String}
    {newer older : Log}
    (h : Run env capability config
      (newer ++ ⟨t, .notice (.jobEnded id .completed message)⟩ :: older) w)
    : Delivered older id :=
  h.delivered.of_append id message rfl

theorem completed_job_delivered_icom
    : let script := Bench.icomKeying
        ++ [(0, .complete .done), (.fromSecs 2, .nextAction), (0, .complete .done),
          (.fromSecs 10, .nextAction)]
      Delivered (Bench.run Bench.icom script).1.tail 1 := by
  intro script
  have hlog : (Bench.run Bench.icom script).1
      = [] ++ ⟨Duration.fromSecs 12, .notice (.jobEnded 1 .completed none)⟩
        :: (Bench.run Bench.icom script).1.tail := by
    rfl
  have hrun := Bench.isRun Bench.icom script
  rw [hlog] at hrun
  exact completed_job_delivered hrun

end

end Cw
