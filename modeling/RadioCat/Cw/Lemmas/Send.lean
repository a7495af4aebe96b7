import RadioCat.Cw.Lemmas.Refine

/-!
This module contains where a chunk comes from: `nextAction` returns one only while a job is being
sent, from the front of the job's plan, once the waits in front of it are over.
-/

namespace Cw

variable {env : Env} {now : Instant} {s s' : CwSupervisor}

theorem Shape.send_not_mem (hs : Shape s) (hact : ∀ job, s.activity ≠ .sending job) (c : Chunk)
    : .send c ∉ s.plan := by
  intro hmem
  cases hs with
  | unarmed _ _ plan => simp [plan] at hmem
  | armed _ _ plan => simp [plan] at hmem
  | arming _ _ _ _ shape => simpa [Step.isRead, Step.isRestoring] using shape.of_mem hmem
  | sending hact' => exact hact _ hact'
  | stopping _ _ _ plan => simpa [Step.isStopping] using plan _ hmem
  | restoring _ _ plan => simpa [Step.isRestoring] using plan _ hmem

theorem go_not_send (env : Env) {fuel : Nat} {text : Text} (hs : Shape s)
    (out : s.outstanding = none) (hact : ∀ job, s.activity ≠ .sending job)
    : (nextAction.go now fuel s).2 ≠ some (.sendChunk text) := by
  induction fuel generalizing s with
  | zero => simp [nextAction.go]
  | succ fuel ih =>
    unfold nextAction.go
    cases hplan : s.plan with
    | nil =>
      rcases finish_cases env now hs out hplan
        with heq | ⟨s', more, _, heq, hmove, _, out', hact', _⟩
      . simp [heq]
      . simp only [heq]
        split
        next => exact ih (hmove.shape hs) out' hact'
        next => simp
    | cons step rest =>
      cases step with
      | waitKeyed margin =>
        dsimp only
        split
        next => simp
        next due =>
          have hmove : Move env now s [] { s with plan := rest } :=
            Move.keyed out hplan (keyed_due due)
          exact ih (hmove.shape hs) out hact
      | waitReady =>
        dsimp only
        split <;> simp
      | send c =>
        have := hs.send_not_mem hact c
        simp [hplan] at this
      | _ => simp [Step.action]

def Met (now : Instant) (s : CwSupervisor) (waits : List Step) : Prop :=
  ∀ x ∈ waits, ∃ margin, x = .waitKeyed margin ∧ ∀ u ∈ s.keyedUntil, u + margin ≤ now

theorem go_send (env : Env) {job : Job} {fuel : Nat} {text : Text} (hs : Shape s)
    (out : s.outstanding = none) (hact : s.activity = .sending job)
    (h : (nextAction.go now fuel s).2 = some (.sendChunk text))
    : ∃ waits c rest, s.plan = waits ++ .send c :: rest ∧ c.text = text ∧ Met now s waits := by
  induction fuel generalizing s with
  | zero => simp [nextAction.go] at h
  | succ fuel ih =>
    unfold nextAction.go at h
    cases hplan : s.plan with
    | nil =>
      simp only [hplan] at h
      rcases finish_cases env now hs out hplan
        with heq | ⟨s', more, _, heq, hmove, _, out', hact', _⟩
      . simp [heq] at h
      . simp only [heq] at h
        split at h
        next => exact absurd h (go_not_send env (hmove.shape hs) out' hact')
        next => simp at h
    | cons step rest =>
      cases step with
      | waitKeyed margin =>
        simp only [hplan] at h
        split at h
        next => simp at h
        next due =>
          have hmove : Move env now s [] { s with plan := rest } :=
            Move.keyed out hplan (keyed_due due)
          obtain ⟨waits, c, rest', hrest, htext, hmet⟩ := ih (hmove.shape hs) out hact h
          refine ⟨.waitKeyed margin :: waits, c, rest', by simpa using hrest, htext, ?_⟩
          intro x hx
          rw [List.mem_cons] at hx
          rcases hx with rfl | hx
          . exact ⟨margin, rfl, keyed_due due⟩
          . exact hmet x hx
      | waitReady =>
        simp only [hplan] at h
        split at h <;> simp at h
      | send c =>
        simp only [hplan, Step.action, Option.some.injEq, CwAction.sendChunk.injEq] at h
        exact ⟨[], c, rest, rfl, h, by simp [Met]⟩
      | _ => simp [hplan, Step.action] at h

theorem nextAction_send {text : Text} (hs : Shape s)
    (h : (nextAction env s now).2 = some (.sendChunk text))
    : s.outstanding = none ∧ (∃ job, s.activity = .sending job)
        ∧ ∃ waits c rest, s.plan = waits ++ .send c :: rest ∧ c.text = text ∧ Met now s waits := by
  unfold nextAction at h
  split at h
  next => simp at h
  next hout =>
    have out : s.outstanding = none := by simpa using hout
    refine ⟨out, ?_⟩
    cases hact : s.activity with
    | sending job =>
      obtain ⟨⟨a, harm⟩, clamped, _, keying⟩ := hs.of_sending hact
      simp only [checkTimers, hact] at h
      split at h
      next =>
        -- The watchdog has stopped the job.
        rw [beginStop_sending _ _ _ hact harm] at h
        exact absurd h (go_not_send env (stopJob_shape clamped keying) out
          (by simp [CwSupervisor.stopJob]))
      next => exact ⟨⟨job, rfl⟩, go_send env hs out hact h⟩
    | idle =>
      cases harm : s.arm with
      | none =>
        simp only [checkTimers, hact, harm] at h
        exact absurd h (go_not_send env hs out (by simp [hact]))
      | some a =>
        simp only [checkTimers, hact, harm] at h
        split at h
        next =>
          have hmove : Move env now s _ _ := Move.endIdle .other .idleTimeout hact harm
          exact absurd h (go_not_send env (hmove.shape hs) out
            (by simp [startRestore, planRestore]))
        next => exact absurd h (go_not_send env hs out (by simp [hact]))
    | _ =>
      simp only [checkTimers, hact] at h
      exact absurd h (go_not_send env hs out (by simp [hact]))

end Cw
