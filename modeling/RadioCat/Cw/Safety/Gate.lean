import RadioCat.Cw.Lemmas.Send

/-!
This module contains the gate in front of every chunk: it belongs to a job of the console that holds
the arm, sent after the radio's status and power were checked, and not stopped since.
-/

namespace Cw

open Trace

structure Gate where
  owner : ConsoleId
  job : Nat
  status : Bool := false
  power : Bool := false

def gate (low : Nat) : Log → Option Gate :=
  observe next none
where
  next (g : Option Gate) (e : Entry) : Option Gate :=
    match e.event with
    | .sent _ owner _ job => some { owner, job }
    | .stopped .. => none
    | .answered _ step (.status true false _) =>
      if step.action = some .readStatus then g.map ({ · with status := true }) else g
    | .answered _ step (.power p) =>
      if step.action = some .readPower ∧ p ≤ low then
        g.map fun g => { g with power := g.power || g.status }
      else
        g
    | _ => g

structure Gated (low : Nat) (g : Gate) (job : Job) (s : CwSupervisor) : Prop where
  owner : ∃ a, s.arm = some a ∧ a.owner = g.owner
  job : job.id = g.job
  checks : s.todo = [.status, .powerAtMost low]
    ∨ (g.status = true ∧ ∃ rest, s.todo = .powerAtMost low :: rest)
    ∨ (g.status = true ∧ g.power = true)

section

variable {env : Env} {now : Instant} {s s' : CwSupervisor} {evs : List Event} {log : Log}
  {capability : CwCapability} {config : CwConfig} {w : Timed} {low : Nat} {g : Gate} {job : Job}

theorem Gated.keying {step : Step} {rest : List Step} (h : Gated low g job s)
    (htodo : s.todo = step :: rest) (hstatus : step ≠ .status)
    (hpower : step ≠ .powerAtMost low) : g.status = true ∧ g.power = true := by
  rcases h.checks with hc | ⟨_, _, hc⟩ | hc
  . simp_all
  . simp_all
  . exact hc

theorem gate.next_answered (low : Nat) (now : Instant) (s : CwSupervisor) (g : Gate) (step : Step)
    (outcome : CwOutcome)
    : ∃ g', next low (some g) ⟨now, .answered s step outcome⟩ = some g' ∧ g'.owner = g.owner
        ∧ g'.job = g.job ∧ (g.status = true → g'.status = true)
        ∧ (g.power = true → g'.power = true) := by
  unfold next
  dsimp only
  split
  . simp_all
  . simp_all
  . split
    . exact ⟨_, rfl, rfl, rfl, fun _ => rfl, id⟩
    . exact ⟨g, rfl, rfl, rfl, id, id⟩
  . split
    . exact ⟨_, rfl, rfl, rfl, id, fun h => by simp [h]⟩
    . exact ⟨g, rfl, rfl, rfl, id, id⟩
  . exact ⟨g, rfl, rfl, rfl, id, id⟩

theorem Gated.answered {job' : Job} {step : Step} {rest : List Step} (h : Gated low g job s)
    (htodo : s.todo = step :: rest) (hstatus : step ≠ .status) (hpower : step ≠ .powerAtMost low)
    (outcome : CwOutcome) (hid : job'.id = job.id)
    (harm : s'.arm.map Arm.owner = s.arm.map Arm.owner)
    : ∃ g', gate.next low (some g) ⟨now, .answered s step outcome⟩ = some g'
        ∧ Gated low g' job' s' := by
  obtain ⟨g', hg', howner, hjob, hst, hpw⟩ :=
    gate.next_answered low now s g step outcome
  obtain ⟨hs, hp⟩ := h.keying htodo hstatus hpower
  obtain ⟨a, ha, hao⟩ := h.owner
  refine ⟨g', hg', ?_, ?_, Or.inr (Or.inr ⟨hst hs, hpw hp⟩)⟩
  . rw [ha, Option.map_some, Option.map_eq_some_iff] at harm
    obtain ⟨a', ha', hao'⟩ := harm
    exact ⟨a', ha', by rw [hao', hao, howner]⟩
  . rw [hid, h.job, hjob]

theorem Gated.powerRead {outcome : CwOutcome} (h : Gated low g job s)
    (out : s.outstanding = some (.powerAtMost low))
    (meets : (Step.powerAtMost low).meets outcome = true)
    : ∃ g', gate.next low (some g) ⟨now, .answered s (.powerAtMost low) outcome⟩ = some g'
        ∧ Gated low g' job s.answered := by
  have hstatus : g.status = true := by
    rcases h.checks with hc | hc | hc
    . simp [CwSupervisor.todo_of_some out] at hc
    . exact hc.1
    . exact hc.1
  cases outcome with
  | power p =>
    have hp : p ≤ low := by simpa [Step.meets] using meets
    have hnext : gate.next low (some g) ⟨now, .answered s (.powerAtMost low) (.power p)⟩
        = some { g with power := g.power || g.status } := by
      simp [gate.next, Step.action, hp]
    exact ⟨_, hnext, h.owner, h.job, Or.inr (Or.inr ⟨hstatus, by simp [hstatus]⟩)⟩
  | _ => simp [Step.meets] at meets

theorem Move.gated (hs : Shape s) (hlow : s.lowPowerRaw = low)
    (hI : ∀ job, s.activity = .sending job → ∃ g, gate low log = some g ∧ Gated low g job s)
    (h : Move env now s evs s')
    : ∀ job, s'.activity = .sending job →
        ∃ g, gate low ((evs.map (Entry.mk now)).reverse ++ log) = some g ∧ Gated low g job s' := by
  intro job hact'
  unfold gate at hI ⊢
  cases h with
  | takeNotices | shutdown =>
    obtain ⟨g, hg, ⟨owner, id, checks⟩⟩ := hI job hact'
    exact ⟨g, hg, owner, id, checks⟩
  | send text _ _ hact harm =>
    obtain ⟨_, out, _⟩ := hs.of_armed hact harm
    cases hact'
    refine ⟨_, rfl, ⟨_, rfl, rfl⟩, rfl, Or.inl ?_⟩
    simp [CwSupervisor.todo, out, hlow]
  | keyed out hplan =>
    obtain ⟨g, hg, hgated⟩ := hI job hact'
    have htodo := (CwSupervisor.todo_of_none out).trans hplan
    have hchecked := hgated.keying htodo (by simp) (by simp)
    exact ⟨g, hg, hgated.owner, hgated.job, Or.inr (Or.inr hchecked)⟩
  | issue out hplan =>
    obtain ⟨g, hg, ⟨owner, id, checks⟩⟩ := hI job hact'
    rw [CwSupervisor.todo_of_none out, hplan] at checks
    exact ⟨g, hg, owner, id, checks⟩
  | planned wpm out hsend hact harm _ hplan =>
    obtain ⟨g, hg, ⟨owner, id, checks⟩⟩ := hI _ hact
    rw [observe_single, hg]
    cases hact'
    refine ⟨_, rfl, ?_, id, ?_⟩
    . obtain ⟨a, harm, howner⟩ := owner
      exact ⟨_, withSpeed_arm harm, howner⟩
    . rw [CwSupervisor.todo_of_some out] at checks
      rcases checks with hc | ⟨_, _, hc⟩ | hc
      . rw [List.cons.injEq] at hc
        refine Or.inr (Or.inl ⟨rfl, ?_⟩)
        rw [hplan, hc.2]
        exact ⟨_, rfl⟩
      . simp at hc
      . exact Or.inr (Or.inr ⟨rfl, hc.2⟩)
  | replanned _ wpm out hsend hact harm =>
    obtain ⟨g, hg, hgated⟩ := hI _ hact
    rw [observe_single, hg]
    cases hact'
    exact hgated.answered (CwSupervisor.todo_of_some out) (by simp) (by simp) _ rfl
      (by simp [CwSupervisor.withSpeed, CwSupervisor.answered, harm])
  | sameSpeed _ wpm out hact harm =>
    obtain ⟨g, hg, hgated⟩ := hI _ hact'
    rw [observe_single, hg]
    exact hgated.answered (CwSupervisor.todo_of_some out) (by simp) (by simp) _ rfl rfl
  | sendAnswer outcome out meets _ check hact =>
    obtain ⟨g, hg, hgated⟩ := hI _ hact'
    rw [observe_single, hg]
    rcases check with rfl | ⟨max, rfl⟩
    . exact hgated.answered (CwSupervisor.todo_of_some out) (by simp) (by simp) _ rfl rfl
    . by_cases hmax : max = low
      . subst hmax
        exact hgated.powerRead out meets
      . exact hgated.answered (CwSupervisor.todo_of_some out) (by simp) (by simp [hmax]) _ rfl rfl
  | sent out hact harm =>
    obtain ⟨g, hg, hgated⟩ := hI _ hact
    rw [observe_single, hg]
    cases hact'
    refine hgated.answered (CwSupervisor.todo_of_some out) (by simp) (by simp) _ rfl ?_
    rw [harm]
    split <;> rfl
  | busy out =>
    obtain ⟨g, hg, hgated⟩ := hI _ hact'
    rw [observe_single, hg]
    exact hgated.answered (CwSupervisor.todo_of_some out) (by simp) (by simp) _ rfl rfl
  | snapPower p out | snapBreakIn k out | silenced out =>
    obtain ⟨_, _, _, out'⟩ := hs.of_sending hact'
    have := out' _ out
    contradiction
  | _ => first | cases hact' | exact absurd hact' (by simp_all [CwSupervisor.answered])

theorem Run.gated (h : Run env capability config log w)
    : ∀ job, w.sup.activity = .sending job →
        ∃ g, gate (new capability config).lowPowerRaw log = some g
          ∧ Gated (new capability config).lowPowerRaw g job w.sup := by
  suffices w.sup.lowPowerRaw = (new capability config).lowPowerRaw
      ∧ ∀ job, w.sup.activity = .sending job →
        ∃ g, gate (new capability config).lowPowerRaw log = some g
          ∧ Gated (new capability config).lowPowerRaw g job w.sup from this.2
  apply Run.invariant
    (fun log _ s => s.lowPowerRaw = (new capability config).lowPowerRaw
      ∧ ∀ job, s.activity = .sending job →
        ∃ g, gate (new capability config).lowPowerRaw log = some g
          ∧ Gated (new capability config).lowPowerRaw g job s) _ _ _ h
  . exact ⟨rfl, by simp [new]⟩
  . intro _ _ _ _ hI _
    exact hI
  . intro _ _ _ _ _ hs hI hmove
    refine ⟨?_, hmove.gated hs hI.1 hI.2⟩
    rw [← hI.1, CwSupervisor.lowPowerRaw, hmove.sameRadio.2.1]
    rfl

theorem chunk_passed_gate {t : Instant} {text : Text} (h : Run env capability config log w)
    (hnext : (nextAction env w.sup t).2 = some (.sendChunk text))
    : ∃ g, gate (new capability config).lowPowerRaw log = some g ∧ g.status = true
        ∧ g.power = true ∧ (∃ a, w.sup.arm = some a ∧ a.owner = g.owner)
        ∧ ∃ job, w.sup.activity = .sending job ∧ job.id = g.job := by
  obtain ⟨out, ⟨job, hact⟩, waits, c, rest, hplan, _, hmet⟩ := nextAction_send h.shape hnext
  obtain ⟨g, hg, hgated⟩ := h.gated job hact
  have htodo := (CwSupervisor.todo_of_none out).trans hplan
  have hchecked : g.status = true ∧ g.power = true := by
    cases waits with
    | nil => exact hgated.keying htodo (by simp) (by simp)
    | cons x waits =>
      obtain ⟨margin, rfl, _⟩ := hmet x List.mem_cons_self
      exact hgated.keying htodo (by simp) (by simp)
  exact ⟨g, hg, hchecked.1, hchecked.2, hgated.owner, job, hact, hgated.job⟩

theorem chunk_passed_gate_kenwood
    : let res := Bench.run Bench.kenwood Bench.kenwoodKeying.dropLast
      ∃ g, gate 5 res.1 = some g ∧ g.status = true ∧ g.power = true
        ∧ (∃ a, res.2.sup.arm = some a ∧ a.owner = g.owner)
        ∧ ∃ job, res.2.sup.activity = .sending job ∧ job.id = g.job :=
  chunk_passed_gate (t := 0) (Bench.isRun Bench.kenwood Bench.kenwoodKeying.dropLast)
    (show _ = some (CwAction.sendChunk ['C', 'Q']) by decide +kernel)

end

end Cw
