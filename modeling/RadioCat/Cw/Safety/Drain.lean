import RadioCat.Cw.Lemmas.Plans
import RadioCat.Cw.Lemmas.Send
import RadioCat.Cw.Safety.Keying

/-!
This module contains the bounds on the text a radio without a stop holds: one chunk at a time, small
enough and short enough at the speed its keyer last reported.
-/

namespace Cw

open Trace

def reportedSpeed (slowest least : Nat) : Log → Nat :=
  observe next slowest
where
  next (speed : Nat) (e : Entry) : Nat :=
    match e.event with
    | .answered _ step (.status _ _ wpm) =>
      if step.action = some .readStatus then Nat.max (wpm.getD slowest) least else speed
    | _ => speed

def Step.needsQuiet : Step → Bool
  | .send _ | .checkSpeed => true
  | _ => false

def Paced (q : Prop) : List Step → Prop
  -- `q` says that the wait for the first chunk is over already.
  | [] => True
  | step :: rest => (step.needsQuiet = true → q) ∧ Paced (after q step) rest
where
  after (q : Prop) : Step → Prop
    | .waitKeyed _ => True
    | .send _ => False
    | _ => q

section Paced

theorem Paced.mono {p q : Prop} {l : List Step} (hpq : p → q) (h : Paced p l) : Paced q l := by
  induction l generalizing p q with
  | nil => trivial
  | cons x l ih =>
    refine ⟨fun hx => hpq (h.1 hx), ih ?_ h.2⟩
    cases x <;> simp [after] <;> exact hpq

theorem paced_chunkPlan_block {q : Prop} {rest : List Step} (send : CwSendText) (n : Nat)
    (x : (Text × Bool) × Nat) (h : Paced False rest)
    : Paced q (chunkPlan.paced send n x ++ rest) := by
  unfold chunkPlan.paced
  split <;> split <;> simp [Paced, Paced.after, Step.needsQuiet, h]

theorem paced_chunkPlan (env : Env) (s : CwSupervisor) (send : CwSendText) (operator : Text)
    (idText : Option Text) (idFirst : Bool) (wpm : Nat)
    : Paced False (chunkPlan env s send operator idText idFirst wpm) := by
  unfold chunkPlan
  dsimp only
  generalize (if idFirst then _ else _) = ordered
  generalize ordered.length = n
  generalize ordered.zipIdx = l
  induction l with
  | nil => simp [Paced, Step.needsQuiet]
  | cons x l ih =>
    rw [List.flatMap_cons, List.append_assoc]
    exact paced_chunkPlan_block send n x ih

theorem paced_replan_block {q : Prop} {rest : List Step} (send : CwSendText) (c : Chunk) (k : Nat)
    (h : Paced False rest) : Paced q (replan.paced send (c, k + 1) ++ rest) := by
  unfold replan.paced
  rw [if_pos (Nat.succ_pos k)]
  split <;> simp [Paced, Paced.after, Step.needsQuiet, h]

theorem paced_replan {q : Prop} (send : CwSendText) (margin : Duration) (pieces : List Chunk)
    (hq : q)
    : Paced q (pieces.zipIdx.flatMap (replan.paced send) ++ [.waitKeyed margin]) := by
  have hrest (k : Nat) (pieces : List Chunk)
      : Paced False ((pieces.zipIdx (k + 1)).flatMap (replan.paced send)
        ++ [.waitKeyed margin]) := by
    induction pieces generalizing k with
    | nil => simp [Paced, Step.needsQuiet]
    | cons c pieces ih =>
      rw [List.zipIdx_cons, List.flatMap_cons, List.append_assoc]
      exact paced_replan_block send c k (ih (k + 1))
  cases pieces with
  | nil => simp [Paced, Step.needsQuiet]
  | cons c pieces =>
    rw [List.zipIdx_cons, List.flatMap_cons, List.append_assoc]
    exact ⟨fun _ => hq, hrest 0 pieces⟩

end Paced

structure Planned (fit : Text → Prop) (q : Prop) (steps : List Step) : Prop where
  status : .status ∉ steps
  fits : ∀ c, .send c ∈ steps → fit c.text
  paced : Paced q steps

theorem Planned.tail {fit : Text → Prop} {p q : Prop} {step : Step} {rest : List Step}
    (h : Planned fit p (step :: rest)) (hq : Paced.after p step → q) : Planned fit q rest := by
  refine ⟨?_, ?_, h.paced.2.mono hq⟩
  . exact fun hmem => h.status (List.mem_cons_of_mem _ hmem)
  . exact fun c hc => h.fits c (List.mem_cons_of_mem _ hc)

def Fits (env : Env) (s : CwSupervisor) (speed : Nat) (text : Text) : Prop :=
  ∀ send ∈ s.sendText,
    chunks.fits env send.maxChunkChars (drainBoundOf s send) speed text = true ∨ text.length = 1

def Drains (env : Env) (log : Log) (now : Instant) (s : CwSupervisor) : Prop :=
  (∃ max, s.todo = [.status, .powerAtMost max])
    ∨ s.arm.map Arm.wpm = some (reportedSpeed s.slowestWpm 1 log)
      ∧ Planned (Fits env s (reportedSpeed s.slowestWpm 1 log)) (Quiet now s) s.todo

section

variable {env : Env} {now : Instant} {s s' : CwSupervisor} {evs : List Event} {log : Log}
  {capability : CwCapability} {config : CwConfig} {w : Timed}

theorem Drains.planned {step : Step} {rest : List Step} (h : Drains env log now s)
    (htodo : s.todo = step :: rest) (hstep : step ≠ .status)
    : s.arm.map Arm.wpm = some (reportedSpeed s.slowestWpm 1 log)
        ∧ Planned (Fits env s (reportedSpeed s.slowestWpm 1 log)) (Quiet now s)
          (step :: rest) := by
  have hplanned := h.resolve_left (CwSupervisor.not_starting htodo hstep)
  rwa [htodo] at hplanned

theorem drains_of_plan {speed : Nat} (hreported : reportedSpeed s.slowestWpm 1 log = speed)
    (out : s.outstanding = none) (hspeed : s.arm.map Arm.wpm = some speed)
    (hplan : Planned (Fits env s speed) (Quiet now s) s.plan) : Drains env log now s := by
  subst hreported
  refine Or.inr ⟨hspeed, ?_⟩
  rwa [CwSupervisor.todo_of_none out]

theorem reportedSpeed_status {slowest least : Nat} {wpm : Option Nat} {cwMode transmitting : Bool}
    {step : Step} (hstep : step.action = some .readStatus)
    : reportedSpeed slowest least
        (⟨now, .answered s step (.status cwMode transmitting wpm)⟩ :: log)
        = Nat.max (wpm.getD slowest) least := by
  simp [reportedSpeed, reportedSpeed.next, hstep]

theorem reportedSpeed_other {slowest least : Nat} {outcome : CwOutcome} {step : Step}
    (hstep : step.action ≠ some .readStatus)
    : reportedSpeed slowest least (⟨now, .answered s step outcome⟩ :: log)
        = reportedSpeed slowest least log := by
  cases outcome <;> simp [reportedSpeed, reportedSpeed.next, hstep]

theorem fits_of_piece {send : CwSendText} {wpm : Nat} {text x : Text}
    (hsend : s.sendText = some send)
    (htext : x ∈ chunks env text send.maxChunkChars (drainBoundOf s send) wpm)
    : Fits env s wpm x := by
  intro send' hsend'
  cases hsend.symm.trans hsend'
  exact fits_of_mem_chunks htext

theorem planned_chunkPlan {send : CwSendText} {operator : Text} {idText : Option Text}
    {idFirst : Bool} {q : Prop} {max wpm : Nat} (hsend : s.sendText = some send)
    : Planned (Fits env s wpm) q
        ([.powerAtMost max] ++ chunkPlan env s send operator idText idFirst wpm) := by
  refine ⟨?_, ?_, ?_⟩
  . simpa using status_not_mem_chunkPlan operator idText idFirst
  . intro c hc
    have hc : .send c ∈ chunkPlan env s send operator idText idFirst wpm := by simpa using hc
    obtain ⟨_, htext, _⟩ := text_of_mem_chunkPlan hc
    exact fits_of_piece hsend htext
  . refine ⟨by simp [Step.needsQuiet], ?_⟩
    exact (paced_chunkPlan env s send operator idText idFirst wpm).mono False.elim

theorem planned_replan {send : CwSendText} {q : Prop} {wpm : Nat} {margin : Duration}
    (hsend : s.sendText = some send) (hq : q)
    : Planned (Fits env s wpm) q
        ((rechunk env s send wpm).zipIdx.flatMap (replan.paced send) ++ [.waitKeyed margin]) := by
  refine ⟨status_not_mem_replan _ _, ?_, paced_replan send margin _ hq⟩
  intro c hc
  rw [← mem_sends, sends_replan, List.zipIdx_map_fst] at hc
  obtain ⟨_, htext, _⟩ := text_of_mem_rechunk hc
  exact fits_of_piece hsend htext

theorem withSpeed_wpm {a : Arm} {wpm : Nat} (harm : s.arm = some a)
    : (s.answered.withSpeed wpm).arm.map Arm.wpm = some wpm := by
  simp [CwSupervisor.withSpeed, CwSupervisor.answered, harm]

theorem Move.drains (hs : Shape s)
    (hI : ∀ job, s.activity = .sending job → Drains env log now s)
    (h : Move env now s evs s')
    : ∀ job, s'.activity = .sending job →
        Drains env ((evs.map (Entry.mk now)).reverse ++ log) now s' := by
  intro job hact'
  cases h with
  | takeNotices | shutdown => exact hI job hact'
  | send text _ _ hact harm =>
    obtain ⟨_, out, _⟩ := hs.of_armed hact harm
    refine Or.inl ⟨s.lowPowerRaw, ?_⟩
    simp [CwSupervisor.todo, out]
  | keyed out hplan due =>
    obtain ⟨hspeed, hplanned⟩ :=
      (hI job hact').planned ((CwSupervisor.todo_of_none out).trans hplan) (by simp)
    refine drains_of_plan rfl ?_ hspeed ?_
    . exact out
    . exact hplanned.tail fun _ u hu => Nat.le_trans (Nat.le_add_right u _) (due u hu)
  | issue out hplan =>
    have hdrains := hI job hact'
    rwa [Drains, CwSupervisor.todo_of_none out, hplan] at hdrains
  | planned wpm out hsend hact harm _ hplan =>
    rcases hI _ hact with ⟨max, htodo⟩ | ⟨_, hplanned⟩
    . rw [CwSupervisor.todo_of_some out, List.cons.injEq] at htodo
      refine drains_of_plan (reportedSpeed_status rfl) rfl (withSpeed_wpm harm) ?_
      rw [hplan, htodo.2]
      exact planned_chunkPlan hsend
    . rw [CwSupervisor.todo_of_some out] at hplanned
      exact absurd List.mem_cons_self hplanned.status
  | replanned _ wpm out hsend hact harm hpieces _ _ hplan =>
    obtain ⟨_, hplanned⟩ := (hI _ hact).planned (CwSupervisor.todo_of_some out) (by simp)
    refine drains_of_plan (reportedSpeed_status rfl) rfl (withSpeed_wpm harm) ?_
    subst hplan hpieces
    exact planned_replan hsend (hplanned.paced.1 rfl)
  | sameSpeed _ wpm out hact harm same =>
    obtain ⟨hspeed, hplanned⟩ := (hI _ hact).planned (CwSupervisor.todo_of_some out) (by simp)
    have hsame : reportedSpeed s.slowestWpm 1 log = s.reported wpm := by
      rw [harm, Option.map_some, Option.some.injEq] at hspeed
      rw [← hspeed, same]
    rw [hsame] at hspeed hplanned
    exact drains_of_plan (reportedSpeed_status rfl) rfl hspeed (hplanned.tail id)
  | sendAnswer outcome out meets _ check hact =>
    rcases check with rfl | ⟨max, rfl⟩
    all_goals
      obtain ⟨hspeed, hplanned⟩ := (hI _ hact).planned (CwSupervisor.todo_of_some out) (by simp)
      exact drains_of_plan (reportedSpeed_other (by simp [Step.action])) rfl hspeed
        (hplanned.tail id)
  | sent out hact harm =>
    obtain ⟨hspeed, hplanned⟩ := (hI _ hact).planned (CwSupervisor.todo_of_some out) (by simp)
    refine drains_of_plan rfl rfl (Eq.trans ?_ hspeed) (hplanned.tail False.elim)
    rw [harm]
    split <;> rfl
  | busy out =>
    obtain ⟨hspeed, hplanned⟩ := (hI _ hact').planned (CwSupervisor.todo_of_some out) (by simp)
    exact drains_of_plan rfl rfl hspeed hplanned
  | snapPower p out | snapBreakIn k out | silenced out =>
    obtain ⟨_, _, _, out'⟩ := hs.of_sending hact'
    have := out' _ out
    contradiction
  | _ => first | cases hact' | exact absurd hact' (by simp_all [CwSupervisor.answered])

theorem Run.drains (h : Run env capability config log w)
    : ∀ job, w.sup.activity = .sending job → Drains env log w.now w.sup := by
  apply Run.invariant
    (fun log now s => ∀ job, s.activity = .sending job → Drains env log now s) _ _ _ h
  . simp [new]
  . intro _ _ _ _ hI le job hact
    refine (hI job hact).imp_right (And.imp_right fun hplanned => ?_)
    exact ⟨hplanned.status, hplanned.fits, hplanned.paced.mono (Quiet.mono · le)⟩
  . intro _ _ _ _ _ hs hI hmove
    exact hmove.drains hs hI

theorem chunk_drains {t : Instant} {text : Text} {send : CwSendText}
    (h : Run env capability config log w) (le : w.now ≤ t)
    (hsend : capability.sendText = some send) (habort : send.abort = .drainOnly)
    (hnext : (nextAction env w.sup t).2 = some (.sendChunk text))
    : (∀ u ∈ keyingEnd env acknowledged false log, u ≤ t)
        ∧ text.length ≤ max send.maxChunkChars 1
        ∧ (env.estimate text (reportedSpeed (new capability config).slowestWpm 1 log)
            ≤ config.drainBound
          ∨ text.length = 1) := by
  obtain ⟨hradio, _, hslowest, hconfig⟩ := h.radio
  obtain ⟨out, ⟨job, hact⟩, waits, c, rest, hplan, rfl, hmet⟩ := nextAction_send h.shape hnext
  have htodo := (CwSupervisor.todo_of_none out).trans hplan
  have hplanned : Planned (Fits env w.sup (reportedSpeed w.sup.slowestWpm 1 log))
      (Quiet w.now w.sup) (waits ++ .send c :: rest) := by
    cases waits with
    | nil => exact ((h.drains job hact).planned htodo (by simp)).2
    | cons x waits =>
      obtain ⟨margin, rfl, _⟩ := hmet x List.mem_cons_self
      exact ((h.drains job hact).planned htodo (by simp)).2
  constructor
  . rw [h.keyedUntil (Or.inr (by simp [hsend, habort]))]
    intro u hu
    cases waits with
    | nil => exact Nat.le_trans (hplanned.paced.1 rfl u hu) le
    | cons x waits =>
      obtain ⟨margin, _, due⟩ := hmet x List.mem_cons_self
      exact Nat.le_trans (Nat.le_add_right u margin) (due u hu)
  . rw [← hslowest]
    rcases hplanned.fits c (by simp) send (hradio.trans hsend) with hfits | hone
    . simp only [chunks.fits, drainBoundOf, habort, if_true, Option.all_some, Bool.and_eq_true,
        decide_eq_true_eq, hconfig] at hfits
      exact ⟨hfits.1, Or.inl hfits.2⟩
    . exact ⟨by rw [hone]; exact Nat.le_max_right _ _, Or.inr hone⟩

theorem chunk_drains_kenwood
    : let res := Bench.run Bench.kenwood Bench.kenwoodKeying.dropLast
      (∀ u ∈ keyingEnd Bench.env acknowledged false res.1, u ≤ 0)
        ∧ (['C', 'Q'] : Text).length ≤ max 24 1
        ∧ (Bench.env.estimate ['C', 'Q'] (reportedSpeed 10 1 res.1) ≤ Duration.fromSecs 3
          ∨ (['C', 'Q'] : Text).length = 1) :=
  chunk_drains (t := 0) (Bench.isRun Bench.kenwood Bench.kenwoodKeying.dropLast) (by decide) rfl rfl
    (show _ = some (CwAction.sendChunk ['C', 'Q']) by decide +kernel)

theorem chunk_at_speed_zero
    : (let env := { Bench.env with
          estimate := fun text wpm => if wpm = 0 then .fromSecs 20 else .fromSecs text.length }
        let script := [(0, .arm 1 ['N', '0', 'C', 'A', 'L', 'L'] none)]
          ++ Bench.exchange [.status true false (some 0), .power 100, .done, .power 5]
          ++ [(0, .nextAction), (0, .send 1 ['c', 'q'])]
          ++ Bench.exchange
            [.status true false (some 0), .power 5, .ready true, .status true false (some 0)]
        let res := play env ⟨0, new Bench.kenwood {}⟩ script
        (nextAction env res.2.sup 0).2 = some (.sendChunk ['C', 'Q'])
          ∧ reportedSpeed 10 0 res.1 = 0
          ∧ ¬env.estimate ['C', 'Q'] 0 ≤ Duration.fromSecs 3)
      ∧ let radio := { Bench.kenwood with
          sendText := Bench.kenwood.sendText.map ({ · with maxChunkChars := 0 }) }
        let res := Bench.run radio Bench.kenwoodKeying.dropLast
        (nextAction Bench.env res.2.sup 0).2 = some (.sendChunk ['C']) := by
  -- A speed reported as 0 is taken for 1, and so is a chunk size of 0.
  decide +kernel

end

end Cw
