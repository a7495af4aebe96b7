import RadioCat.Cw.Lemmas.Plans
import RadioCat.Cw.Lemmas.Refine

/-!
This module contains the cadence of station IDs: no job is completed unless the radio has taken a
whole `DE` and callsign in the same arm, no longer before the job was accepted than the configured
interval.
-/

namespace Cw

open Trace

/--
What a log tells of the IDs of an arm: its callsign, its last job, the characters of that job the
radio has taken, and when it took the last chunk of an ID.
-/
structure Cadence where
  callsign : Text := []
  job : Nat := 0
  sentAt : Instant := 0
  taken : Text := []
  identified : List Instant := []

namespace Cadence

def word (c : Cadence) : Text :=
  (idTextOf c.callsign).strip

def take (c : Cadence) (chunk : Chunk) (time : Instant) : Cadence :=
  let taken := c.taken ++ chunk.text.strip
  { c with
    taken
    identified :=
      -- Marked as the end of an ID, and what was taken does end in one.
      if chunk.endsId = true ∧ c.word <:+ taken then
        time :: c.identified
      else
        c.identified }

/-- An ID was taken no longer than `interval` before the job was accepted. -/
def Recent (c : Cadence) (interval : Duration) : Prop :=
  ∃ t ∈ c.identified, c.sentAt ≤ t + interval

end Cadence

def cadence : Log → Cadence :=
  observe next {}
where
  next (c : Cadence) (e : Entry) : Cadence :=
    match e.event with
    | .notice (.armed _ callsign _) => { callsign }
    | .sent _ _ _ job => { c with job, sentAt := e.time, taken := [] }
    | .answered _ (.send chunk) .done => c.take chunk e.time
    | _ => c

def Chunk.mark (chunk : Chunk) : Text × Bool :=
  (chunk.text, chunk.endsId)

/--
The first marked chunk completes `word`, once those before it are taken too, and no other chunk is
marked.
-/
def Spells (word : Text) : Text → List (Text × Bool) → Prop
  | _, [] => False
  | taken, (text, true) :: rest =>
    text.strip ≠ [] ∧ word <:+ taken ++ text.strip ∧ ∀ x ∈ rest, x.2 = false
  | taken, (text, false) :: rest => Spells word (taken ++ text.strip) rest

section Spells

variable {word taken : Text} {l : List Text} {rest : List (Text × Bool)}

theorem spells_unmarked
    : Spells word taken (l.map (fun t => (t, false)) ++ rest)
      ↔ Spells word (taken ++ Text.strip l.flatten) rest := by
  induction l generalizing taken with
  | nil => simp
  | cons t l ih =>
    rw [List.map_cons, List.cons_append, Spells, ih, List.flatten_cons, Text.strip_append,
      List.append_assoc]

theorem spells_markLast (hne : l ≠ []) (hstrip : ∀ t ∈ l, t.strip ≠ [])
    (hword : word <:+ taken ++ Text.strip l.flatten) (hrest : ∀ x ∈ rest, x.2 = false)
    : Spells word taken (chunkPlan.markLast l ++ rest) := by
  induction l using chunkPlan.markLast.induct generalizing taken with
  | case1 => contradiction
  | case2 t =>
    rw [List.flatten_singleton] at hword
    exact ⟨hstrip t (List.mem_singleton_self t), hword, hrest⟩
  | case3 t ts h ih =>
    rw [List.forall_mem_cons] at hstrip
    rw [List.flatten_cons, Text.strip_append, ← List.append_assoc] at hword
    rw [chunkPlan.markLast]
    . exact ih h hstrip.2 hword
    . exact h

theorem zipIdx_markLast (l : List Text) (k : Nat)
    : (l.zipIdx k).map (fun x => (x.1, x.2 + 1 == k + l.length)) = chunkPlan.markLast l := by
  induction l using chunkPlan.markLast.induct generalizing k with
  | case1 => rfl
  | case2 t => simp [chunkPlan.markLast]
  | case3 t ts h ih =>
    rw [chunkPlan.markLast]
    . rw [List.zipIdx_cons, List.map_cons, ← ih (k + 1)]
      have hpos := List.length_pos_of_ne_nil h
      have hhead : (k + 1 == k + (t :: ts).length) = false := by
        simp only [List.length_cons, beq_eq_false_iff_ne]
        omega
      have hlength : k + (t :: ts).length = k + 1 + ts.length := by
        rw [List.length_cons]
        omega
      rw [hhead, hlength]
    . exact h

end Spells

section

variable {env : Env} {now : Instant} {s s' : CwSupervisor} {evs : List Event} {log : Log}
  {capability : CwCapability} {config : CwConfig} {w : Timed} {c : Cadence} {job : Job}
  {send : CwSendText} {wpm : Nat}

theorem spells_chunkPlan {operator text word : Text} {idFirst : Bool} (htext : text.strip ≠ [])
    (hword : word = text.strip)
    : Spells word []
        ((sends (chunkPlan env s send operator (some text) idFirst wpm)).map Chunk.mark) := by
  have hlast (taken : Text) (rest : List (Text × Bool)) (hrest : ∀ x ∈ rest, x.2 = false)
      : Spells word taken
        (chunkPlan.markLast (chunks env text send.maxChunkChars (drainBoundOf s send) wpm)
          ++ rest) := by
    apply spells_markLast (chunks_ne_nil htext) _ _ hrest
    . intro t ht
      exact strip_ne_nil_of_mem_chunks ht
    . rw [strip_chunks, hword]
      apply List.suffix_append
  rw [show Chunk.mark = fun c => (c.text, c.endsId) from rfl, sends_chunkPlan]
  unfold pieces
  dsimp only [Option.elim_some]
  split
  . apply hlast
    simp
  . rw [spells_unmarked]
    have hend := hlast (Text.strip (chunks env operator send.maxChunkChars
      (drainBoundOf s send) wpm).flatten) [] (by simp)
    rw [List.append_nil] at hend
    exact hend

theorem unmarked_chunkPlan {operator : Text} {idFirst : Bool}
    : ∀ x ∈ (sends (chunkPlan env s send operator none idFirst wpm)).map Chunk.mark,
        x.2 = false := by
  rw [show Chunk.mark = fun c => (c.text, c.endsId) from rfl, sends_chunkPlan]
  unfold pieces
  cases idFirst <;> simp [chunkPlan.markLast]

/-- How the chunks a marked text is cut into are marked. -/
def remark (env : Env) (s : CwSupervisor) (send : CwSendText) (wpm : Nat) (x : Text × Bool)
    : List (Text × Bool) :=
  let parts := chunks env x.1 send.maxChunkChars (drainBoundOf s send) wpm
  if x.2 then chunkPlan.markLast parts else parts.map fun t => (t, false)

theorem mark_rechunk
    : (rechunk env s send wpm).map Chunk.mark
      = ((sends s.plan).map Chunk.mark).flatMap (remark env s send wpm) := by
  simp only [rechunk, sends, List.map_flatMap, List.flatMap_map, List.map_map]
  congr 1
  funext chunk
  unfold remark Chunk.mark
  cases chunk.endsId with
  | true =>
    rw [if_pos rfl, ← zipIdx_markLast _ 0, Nat.zero_add]
    simp [Function.comp_def]
  | false =>
    have hfst : (fun x : Text × Nat => (x.1, false)) = (fun t => (t, false)) ∘ Prod.fst := rfl
    simp only [Bool.false_and, Bool.false_eq_true, if_false, Function.comp_def]
    rw [hfst, ← List.map_map, List.zipIdx_map_fst]

theorem unmarked_remark {l : List (Text × Bool)} (h : ∀ x ∈ l, x.2 = false)
    : ∀ x ∈ l.flatMap (remark env s send wpm), x.2 = false := by
  intro x hx
  rcases List.mem_flatMap.mp hx with ⟨y, hy, hx⟩
  unfold remark at hx
  rw [h y hy] at hx
  rcases List.mem_map.mp hx with ⟨t, _, hx⟩
  rw [← hx]

theorem spells_remark {word taken : Text} {l : List (Text × Bool)} (h : Spells word taken l)
    : Spells word taken (l.flatMap (remark env s send wpm)) := by
  induction l generalizing taken with
  | nil => exact h
  | cons x l ih =>
    rcases x with ⟨text, marked⟩
    rw [List.flatMap_cons]
    unfold remark
    cases marked with
    | false =>
      rw [if_neg (by simp), spells_unmarked, strip_chunks]
      exact ih h
    | true =>
      rcases h with ⟨htext, hword, hrest⟩
      apply spells_markLast (chunks_ne_nil htext) _ _ (unmarked_remark hrest)
      . intro t ht
        exact strip_ne_nil_of_mem_chunks ht
      . rw [strip_chunks]
        exact hword

/-- The ID is still to come, and does, or no chunk is marked. -/
def Awaits (c : Cadence) (job : Job) (l : List (Text × Bool)) : Prop :=
  if job.hasId && !job.idSent then Spells c.word c.taken l else ∀ x ∈ l, x.2 = false

theorem Awaits.take {chunk : Chunk} {l : List (Text × Bool)} (now : Instant)
    (h : Awaits c job (chunk.mark :: l))
    : Awaits (c.take chunk now) (job.took chunk) l
      ∧ (chunk.endsId = true → now ∈ (c.take chunk now).identified) := by
  unfold Awaits at h
  cases hends : chunk.endsId with
  | false =>
    rw [Chunk.mark, hends] at h
    constructor
    . simp only [Awaits, Job.took, hends, Bool.false_or]
      split at h
      next hwaits =>
        rw [if_pos hwaits]
        exact h
      next hwaits =>
        rw [if_neg hwaits]
        exact (List.forall_mem_cons.mp h).2
    . simp
  | true =>
    rw [Chunk.mark, hends] at h
    split at h
    next hwaits =>
      constructor
      . simp only [Awaits, Job.took, hends, Bool.true_or, Bool.not_true, Bool.and_false]
        exact h.2.2
      . intro _
        simp only [Cadence.take]
        rw [if_pos ⟨hends, h.2.1⟩]
        exact List.mem_cons_self
    next hwaits =>
      have hunmarked := (List.forall_mem_cons.mp h).1
      contradiction

/-- What is known of the job being sent. -/
structure Identifies (c : Cadence) (job : Job) (s : CwSupervisor) : Prop where
  id : c.job = job.id
  ident : job.idText = if job.hasId then some (idTextOf c.callsign) else none
  recent : (job.hasId && !job.idSent) = false → c.Recent s.config.idInterval
  pieces : (∃ max, s.todo = [.status, .powerAtMost max]) ∧ c.taken = [] ∧ job.idSent = false
    ∨ .status ∉ s.todo ∧ Awaits c job ((sends s.todo).map Chunk.mark)

/-- The supervisor's own record of its last ID agrees with the log. -/
def Recorded (c : Cadence) (s : CwSupervisor) : Prop :=
  ∀ a, s.arm = some a → c.callsign = a.callsign ∧ ∀ t, a.lastId = some t → t ∈ c.identified

theorem Identifies.planned {step : Step} {rest : List Step} (h : Identifies c job s)
    (htodo : s.todo = step :: rest) (hstep : step ≠ .status)
    : .status ∉ rest ∧ Awaits c job ((sends (step :: rest)).map Chunk.mark) := by
  cases h.pieces with
  | inl hstart => exact absurd hstart.1 (CwSupervisor.not_starting htodo hstep)
  | inr hpieces =>
    rw [htodo] at hpieces
    refine ⟨?_, hpieces.2⟩
    intro hmem
    exact hpieces.1 (List.mem_cons_of_mem _ hmem)

theorem Identifies.answered {job' : Job} (h : Identifies c job s)
    (hjob : job' = { job with deadline := job'.deadline })
    (hconfig : s'.config = s.config) (out' : s'.outstanding = none)
    (hstatus : .status ∉ s'.plan) (hplan : Awaits c job ((sends s'.plan).map Chunk.mark))
    : Identifies c job' s' := by
  rw [hjob]
  refine ⟨h.id, h.ident, ?_, Or.inr ?_⟩
  . rw [hconfig]
    exact h.recent
  . rw [CwSupervisor.todo_of_none out']
    exact ⟨hstatus, hplan⟩

theorem Identifies.passed {step : Step} (h : Identifies c job s)
    (out : s.outstanding = some step) (hchunk : step.chunk = none) (hstep : step ≠ .status)
    : .status ∉ s.plan ∧ Awaits c job ((sends s.plan).map Chunk.mark) := by
  have hplanned := h.planned (CwSupervisor.todo_of_some out) hstep
  rw [sends, List.filterMap_cons_none hchunk] at hplanned
  exact hplanned

theorem Cadence.mem_take {t : Instant} (chunk : Chunk) (now : Instant) (h : t ∈ c.identified)
    : t ∈ (c.take chunk now).identified := by
  simp only [take]
  split
  . exact List.mem_cons_of_mem _ h
  . exact h

theorem Identifies.sent {chunk : Chunk} (h : Identifies c job s) (hnow : c.sentAt ≤ now)
    (out : s.outstanding = some (.send chunk)) (out' : s'.outstanding = none)
    (hplan : s'.plan = s.plan) (hconfig : s'.config = s.config)
    : Identifies (c.take chunk now) (job.took chunk) s' := by
  have hplanned := h.planned (CwSupervisor.todo_of_some out) (by simp)
  have htake := Awaits.take now hplanned.2
  refine ⟨h.id, h.ident, ?_, Or.inr ?_⟩
  . intro hdone
    cases hends : chunk.endsId with
    | true => exact ⟨now, htake.2 hends, Nat.le_add_right_of_le hnow⟩
    | false =>
      simp only [Job.took, hends, Bool.false_or] at hdone
      rcases h.recent hdone with ⟨t, ht, hrecent⟩
      rw [hconfig]
      exact ⟨t, Cadence.mem_take chunk now ht, hrecent⟩
  . rw [CwSupervisor.todo_of_none out', hplan]
    exact ⟨hplanned.1, htake.1⟩

theorem Recorded.recent {a : Arm} (h : Recorded c s) (harm : s.arm = some a)
    (hdue : idDue s a now = false)
    : ∃ t ∈ c.identified, now ≤ t + s.config.idInterval := by
  cases hlast : a.lastId with
  | none => simp [idDue, hlast] at hdue
  | some t =>
    refine ⟨t, (h a harm).2 t hlast, ?_⟩
    simp only [idDue, hlast, decide_eq_false_iff_not] at hdue
    apply Nat.sub_le_iff_le_add'.mp
    exact Nat.le_of_not_ge hdue

theorem Identifies.awaits_chunkPlan (h : Identifies c job s) (htaken : c.taken = [])
    (hsent : job.idSent = false)
    : Awaits c job
        ((sends (chunkPlan env s send job.operator job.idText job.idFirst wpm)).map
          Chunk.mark) := by
  unfold Awaits
  rw [h.ident, hsent, htaken]
  cases job.hasId with
  | true => exact spells_chunkPlan (strip_idTextOf c.callsign) rfl
  | false => exact unmarked_chunkPlan

theorem Awaits.rechunk (h : Awaits c job ((sends s.plan).map Chunk.mark))
    : Awaits c job ((Cw.rechunk env s send wpm).map Chunk.mark) := by
  rw [mark_rechunk]
  unfold Awaits at h ⊢
  split at h
  next hwaits =>
    rw [if_pos hwaits]
    exact spells_remark h
  next hwaits =>
    rw [if_neg hwaits]
    exact unmarked_remark h

theorem Move.identifies (hs : Shape s) (hR : Recorded (cadence log) s)
    (hnow : (cadence log).sentAt ≤ now)
    (hI : ∀ job, s.activity = .sending job → Identifies (cadence log) job s)
    (h : Move env now s evs s')
    : ∀ job, s'.activity = .sending job →
        Identifies (cadence ((evs.map (Entry.mk now)).reverse ++ log)) job s' := by
  intro job hact'
  cases h with
  | takeNotices | shutdown =>
    have h := hI job hact'
    exact ⟨h.id, h.ident, h.recent, h.pieces⟩
  | @send a text _ _ hact harm =>
    have out := (hs.of_armed hact harm).2.1
    cases hact'
    refine ⟨rfl, ?_, ?_, Or.inl ⟨⟨s.lowPowerRaw, ?_⟩, rfl, rfl⟩⟩
    . change (if idDue s a now then some (idTextOf a.callsign) else none) = _
      rw [← (hR a harm).1]
      rfl
    . intro hdue
      simp only [jobFor, Bool.not_false, Bool.and_true] at hdue
      exact hR.recent harm hdue
    . simp [CwSupervisor.todo, out]
  | keyed out hplan =>
    have h := hI job hact'
    have hpassed := h.planned ((CwSupervisor.todo_of_none out).trans hplan) (by simp)
    refine ⟨h.id, h.ident, h.recent, Or.inr ?_⟩
    simp only [CwSupervisor.todo, out]
    exact hpassed
  | @issue step rest _ _ out hplan =>
    have h := hI job hact'
    have pieces := h.pieces
    rw [CwSupervisor.todo_of_none out, hplan] at pieces
    exact ⟨h.id, h.ident, h.recent, pieces⟩
  | @planned send a job plan wpm out hsend hact harm _ hplan =>
    have h := hI _ hact
    cases hact'
    have pieces := h.pieces
    rw [CwSupervisor.todo_of_some out] at pieces
    cases pieces with
    | inl hstart =>
      rcases hstart with ⟨⟨max, hc⟩, htaken, hsent⟩
      rw [List.cons.injEq] at hc
      rw [hc.2] at hplan
      refine h.answered rfl rfl rfl ?_ ?_
      . rw [hplan]
        exact List.not_mem_cons_of_ne_of_not_mem (by simp) (status_not_mem_chunkPlan _ _ _)
      . rw [hplan]
        exact h.awaits_chunkPlan htaken hsent
    | inr hplanned => exact absurd List.mem_cons_self hplanned.1
  | replanned _ wpm out hsend hact harm hpieces _ _ hplan =>
    have h := hI _ hact
    cases hact'
    have hpassed := h.passed out rfl (by simp)
    rw [hpieces] at hplan
    refine h.answered rfl rfl rfl ?_ ?_
    . rw [hplan]
      apply status_not_mem_replan
    . rw [hplan, sends_replan, List.zipIdx_map_fst]
      exact hpassed.2.rechunk
  | sameSpeed _ wpm out hact harm same =>
    have h := hI _ hact'
    have hpassed := h.passed out rfl (by simp)
    exact h.answered rfl rfl rfl hpassed.1 hpassed.2
  | sendAnswer outcome out meets plain check hact =>
    have h := hI _ hact'
    rcases check with rfl | ⟨max, rfl⟩
    all_goals
      have hpassed := h.passed out rfl (by simp)
      exact h.answered rfl rfl rfl hpassed.1 hpassed.2
  | @sent chunk a job out hact harm =>
    have h := hI _ hact
    cases hact'
    exact h.sent hnow out rfl rfl rfl
  | busy out =>
    have h := hI _ hact'
    have pieces := h.pieces
    rw [CwSupervisor.todo_of_some out] at pieces
    exact ⟨h.id, h.ident, h.recent, pieces⟩
  | snapPower p out | snapBreakIn k out | silenced out =>
    have hkeying := (hs.of_sending hact').2.2.2 _ out
    contradiction
  | _ => first | cases hact' | exact absurd hact' (by simp_all [CwSupervisor.answered])

theorem cadence.next_answered {step : Step} {outcome : CwOutcome} (c : Cadence)
    (plain : step.records outcome = false)
    : next c ⟨now, .answered s step outcome⟩ = c := by
  cases step with
  | send chunk =>
    cases outcome with
    | done => simp [Step.records] at plain
    | _ => rfl
  | _ => rfl

/-- Most moves neither show anything of an ID nor touch what the arm knows of one. -/
theorem Recorded.skip (hR : Recorded (cadence log) s) (hskip : Skips cadence.next now evs)
    (harm : ∀ a', s'.arm = some a' → ∃ a, s.arm = some a ∧ a'.callsign = a.callsign
      ∧ a'.lastId = a.lastId)
    : Recorded (cadence ((evs.map (Entry.mk now)).reverse ++ log)) s' := by
  have hlog : cadence ((evs.map (Entry.mk now)).reverse ++ log) = cadence log := hskip.observe
  rw [hlog]
  intro a' ha'
  rcases harm a' ha' with ⟨a, ha, hcall, hlast⟩
  rw [hcall, hlast]
  exact hR a ha

theorem Recorded.same (hR : Recorded (cadence log) s) (hskip : Skips cadence.next now evs)
    (harm : s'.arm = s.arm)
    : Recorded (cadence ((evs.map (Entry.mk now)).reverse ++ log)) s' := by
  apply hR.skip hskip
  intro a ha
  rw [harm] at ha
  exact ⟨a, ha, rfl, rfl⟩

theorem Recorded.take {a : Arm} (hR : Recorded c s) (harm : s.arm = some a) (chunk : Chunk)
    (now : Instant)
    : (c.take chunk now).callsign = a.callsign
      ∧ ∀ t, a.lastId = some t → t ∈ (c.take chunk now).identified := by
  refine ⟨(hR a harm).1, ?_⟩
  intro t ht
  exact Cadence.mem_take chunk now ((hR a harm).2 t ht)

theorem Move.recorded (hR : Recorded (cadence log) s)
    (hI : ∀ job, s.activity = .sending job → Identifies (cadence log) job s)
    (h : Move env now s evs s')
    : Recorded (cadence ((evs.map (Entry.mk now)).reverse ++ log)) s' := by
  cases h with
  | finishArming =>
    intro a ha
    cases ha
    exact ⟨rfl, by simp⟩
  | @send a text _ _ hact harm =>
    intro a' ha'
    cases ha'
    exact hR a harm
  | @sent chunk a job out hact harm =>
    have hplanned := (hI job hact).planned (CwSupervisor.todo_of_some out) (by simp)
    have htake := Awaits.take now hplanned.2
    have hkept := hR.take harm chunk now
    intro a' ha'
    cases ha'
    cases hends : chunk.endsId with
    | false => exact hkept
    | true =>
      refine ⟨hkept.1, ?_⟩
      intro t ht
      cases ht
      exact htake.2 hends
  | sentLate out hact =>
    intro a harm
    apply hR.take harm
  | @stopAnswer step a job outcome wpm message after _ out plain hact harm =>
    apply hR.skip
    . rw [skips_cons]
      refine ⟨?_, by simp [cadence.next]⟩
      intro c
      exact cadence.next_answered c plain
    . intro a' ha'
      cases ha'
      exact ⟨a, harm, rfl, rfl⟩
  | refuse c r valid | refuseRestore c r valid =>
    refine hR.same ?_ rfl
    rw [skips_append]
    exact ⟨c.skips_events (fun _ _ => cadence.next_answered) valid, by simp [cadence.next]⟩
  | idleAnswer _ _ plain | armAnswer _ _ _ plain | sendAnswer _ _ _ plain
  | stopAnswered _ _ _ plain | stopFailed _ _ _ plain | restoreAnswer _ _ _ plain =>
    exact hR.same (by simp [cadence.next_answered _ plain]) rfl
  | restoreFailed _ _ _ _ _ plain =>
    refine hR.same ?_ rfl
    rw [skips_cons]
    exact ⟨fun c => cadence.next_answered c plain, by simp [cadence.next]⟩
  | _ =>
    apply hR.skip
    . simp [cadence.next, Request.events, CwSupervisor.owedNotice]
    . simp_all [CwSupervisor.stopJob, CwSupervisor.answered, CwSupervisor.withSpeed, startRestore,
        planRestore, endJob, Request.apply]

theorem cadence.sentAt_next {e : Event} (h : c.sentAt ≤ now)
    : (next c ⟨now, e⟩).sentAt ≤ now := by
  unfold next
  split
  . apply Nat.zero_le
  . apply Nat.le_refl
  . exact h
  . exact h

theorem cadence.sentAt_le (h : (cadence log).sentAt ≤ now)
    : (cadence ((evs.map (Entry.mk now)).reverse ++ log)).sentAt ≤ now := by
  induction evs generalizing log with
  | nil => exact h
  | cons e evs ih =>
    rw [List.map_cons, List.reverse_cons, List.append_assoc]
    have hnext : (cadence (⟨now, e⟩ :: log)).sentAt ≤ now := sentAt_next h
    exact ih hnext

theorem Identifies.recent_of_done (h : Identifies c job s) (out : s.outstanding = none)
    (hplan : s.plan = [])
    : c.Recent s.config.idInterval := by
  have htodo := (CwSupervisor.todo_of_none out).trans hplan
  cases h.pieces with
  | inl hstart =>
    rcases hstart with ⟨⟨max, hc⟩, _⟩
    simp [htodo] at hc
  | inr hpieces =>
    have hawaits := hpieces.2
    rw [htodo] at hawaits
    apply h.recent
    -- An ID that is still to come would need a chunk.
    cases hwaits : job.hasId && !job.idSent with
    | false => rfl
    | true =>
      unfold Awaits at hawaits
      rw [if_pos hwaits] at hawaits
      exact hawaits.elim

def Identified (interval : Duration) (log : Log) (id : Nat) : Prop :=
  (cadence log).job = id ∧ (cadence log).Recent interval

theorem Run.identified (h : Run env capability config log w)
    : Each (Completed (Identified config.idInterval)) log := by
  let I := fun (log : Log) (now : Instant) (s : CwSupervisor) => Unfinished s
    ∧ s.config = config ∧ (cadence log).sentAt ≤ now ∧ Recorded (cadence log) s
    ∧ (∀ job, s.activity = .sending job → Identifies (cadence log) job s)
    ∧ Each (Completed (Identified config.idInterval)) log
  suffices hI : I log w.now w.sup from hI.2.2.2.2.2
  apply Run.invariant I _ _ _ h
  . refine ⟨by simp [Unfinished, new], rfl, Nat.zero_le _, ?_, by simp [new], trivial⟩
    simp [Recorded, new]
  . rintro _ _ _ _ ⟨hu, hconfig, hnow, hrest⟩ hle
    exact ⟨hu, hconfig, Nat.le_trans hnow hle, hrest⟩
  . rintro _ _ _ _ _ hs ⟨hu, hconfig, hnow, hR, hI, hE⟩ hmove
    refine ⟨hmove.unfinished hu, hmove.sameRadio.2.2.2.trans hconfig, cadence.sentAt_le hnow,
      hmove.recorded hR hI, hmove.identifies hs hR hnow hI, ?_⟩
    apply hmove.completed hu _ hE
    intro job out hplan hact
    have hjob := hI job hact
    have hrecent := hjob.recent_of_done out hplan
    rw [hconfig] at hrecent
    exact ⟨hjob.id, hrecent⟩

theorem completed_job_identified {t : Instant} {id : Nat} {message : Option String}
    {newer older : Log}
    (h : Run env capability config
      (newer ++ ⟨t, .notice (.jobEnded id .completed message)⟩ :: older) w)
    : (cadence older).job = id
      ∧ ∃ t ∈ (cadence older).identified, (cadence older).sentAt ≤ t + config.idInterval :=
  h.identified.of_append id message rfl

theorem completed_job_identified_icom
    : let script := Bench.icomKeying
        ++ [(0, .complete .done), (.fromSecs 2, .nextAction), (0, .complete .done),
          (.fromSecs 10, .nextAction)]
      let older := (Bench.run Bench.icom script).1.tail
      (cadence older).callsign = ['N', '0', 'C', 'A', 'L', 'L']
        ∧ (cadence older).identified = [Duration.fromSecs 2]
        ∧ (cadence older).job = 1
        ∧ ∃ t ∈ (cadence older).identified, (cadence older).sentAt ≤ t + Duration.fromSecs 600 := by
  intro script older
  have hlog : (Bench.run Bench.icom script).1
      = [] ++ ⟨Duration.fromSecs 12, .notice (.jobEnded 1 .completed none)⟩ :: older := by
    rfl
  have hrun := Bench.isRun Bench.icom script
  rw [hlog] at hrun
  exact ⟨by decide +kernel, by decide +kernel, completed_job_identified hrun⟩

end

end Cw
