import RadioCat.Cw.Lemmas.Refine

/-!
This module contains the end of a shutdown: with a radio that does as it is told, the supervisor is
settled after a bounded number of exchanges, whatever was under way.
-/

namespace Cw

def Step.margin : Step → Option Duration
  | .waitKeyed margin => some margin
  | _ => none

def Activity.retryAt : Activity → Option Instant
  | .restoring _ _ _ _ retryAt => retryAt
  | _ => none

def Activity.weight : Activity → Nat
  | .stopping .. => 8
  | .restoring _ _ _ _ (some _) => 7
  | .restoring .. => 1
  | _ => 0

namespace CwSupervisor

/-- How many steps are left at most. -/
def left (s : CwSupervisor) : Nat :=
  s.todo.length + s.activity.weight

/-- The time is past everything that is being waited for. -/
def Late (s : CwSupervisor) (now : Instant) : Prop :=
  (∀ margin ∈ s.config.pacingMargin :: s.plan.filterMap Step.margin,
      s.keyedUntil.any (now < · + margin) = false)
    ∧ s.readyRetryAt.any (now < ·) = false ∧ ∀ t ∈ s.activity.retryAt, t ≤ now

instance (s : CwSupervisor) (now : Instant) : Decidable (s.Late now) :=
  inferInstanceAs (Decidable (_ ∧ _ ∧ _))

end CwSupervisor

section

variable (env : Env)

def turn (s : CwSupervisor) (now : Instant) (outcome : CwOutcome) : CwSupervisor :=
  complete env (nextAction env s now).1 outcome now

def turns (s : CwSupervisor) : List (Instant × CwOutcome) → CwSupervisor
  | [] => s
  | (now, outcome) :: rest => turns (turn env s now outcome) rest

/-- Every round comes late enough, and the radio answers what was asked for. -/
def obliging (s : CwSupervisor) : List (Instant × CwOutcome) → Bool
  | [] => true
  | (now, outcome) :: rest =>
    decide (s.Late now) && (nextAction env s now).1.outstanding.all (·.meets outcome)
      && obliging (turn env s now outcome) rest

end

/-- The supervisor is on its way to being settled. -/
inductive Closing (s : CwSupervisor) : Prop where
  | idle (hact : s.activity = .idle) (harm : s.arm = none) (hplan : s.plan = [])
  | stopping {job : Nat} {why : StopReason} {message : Option String} {reason : DisarmReason}
      {ticket : Option Ticket}
      (hact : s.activity = .stopping job why message (.restore reason ticket))
  | restoring {reason : DisarmReason} {ticket : Option Ticket} {attempts : Nat}
      {lastError : Option String} {retryAt : Option Instant}
      (hact : s.activity = .restoring reason ticket attempts lastError retryAt)
      (harm : s.arm = none)

variable {env : Env} {now : Instant} {s t u : CwSupervisor}

theorem Closing.settled (h : Closing s) (hleft : s.left = 0) : s.isSettled = true := by
  simp only [CwSupervisor.left, CwSupervisor.todo, List.length_append] at hleft
  cases h with
  | idle hact harm hplan =>
    cases hout : s.outstanding with
    | none => simp [CwSupervisor.isSettled, CwSupervisor.isLive, hact, harm, hplan, hout]
    | some step => simp [hout] at hleft
  | stopping hact => simp [hact, Activity.weight] at hleft
  | @restoring _ _ _ _ retryAt hact =>
    cases retryAt <;> simp [hact, Activity.weight] at hleft

theorem restorePlan_short (s : CwSupervisor)
    : (restorePlan s).length ≤ 5
      ∧ (restorePlan s).filterMap Step.margin = [s.config.pacingMargin] := by
  unfold restorePlan
  dsimp only
  split <;> split <;> simp [Step.margin]

theorem planned {reason : DisarmReason} {ticket : Option Ticket} {attempts : Nat}
    {lastError : Option String} (late : s.Late now)
    (hact : t.activity = .restoring reason ticket attempts lastError none) (harm : t.arm = none)
    (hplan : t.plan = restorePlan t) (out : t.outstanding = none)
    (hkeyed : t.keyedUntil = s.keyedUntil) (hconfig : t.config = s.config)
    (hready : t.readyRetryAt.any (now < ·) = false)
    : Closing t ∧ t.outstanding = none ∧ t.left ≤ 6 ∧ t.Late now := by
  rcases restorePlan_short t with ⟨hlength, hmargins⟩
  refine ⟨.restoring hact harm, out, ?_, ?_, hready, ?_⟩
  . rw [CwSupervisor.left, CwSupervisor.todo_of_none out, hplan, hact]
    simp only [Activity.weight]
    omega
  . intro margin hmargin
    rw [hplan, hmargins, hconfig] at hmargin
    rw [hkeyed]
    apply late.1 margin
    simp at hmargin ⊢
    exact Or.inl hmargin
  . simp [hact, Activity.retryAt]

theorem Closing.finish (h : Closing s) (late : s.Late now) (out : s.outstanding = none)
    (hplan : s.plan = [])
    : (∃ t, Cw.finish s now = (t, false) ∧ Closing t ∧ t.left = 0)
      ∨ ∃ t, Cw.finish s now = (t, true) ∧ Closing t ∧ t.outstanding = none
        ∧ t.left < s.left ∧ t.Late now := by
  have hleft : s.left = s.activity.weight := by
    rw [CwSupervisor.left, CwSupervisor.todo_of_none out, hplan, List.length_nil, Nat.zero_add]
  cases h with
  | idle hact harm =>
    left
    refine ⟨s, ?_, .idle hact harm hplan, by simp [hleft, hact, Activity.weight]⟩
    simp [Cw.finish, hact]
    rw [← hact]
  | stopping hact =>
    right
    rcases planned (t := startRestore (endJob s _ _ _) _ _) late rfl rfl rfl out rfl rfl rfl
      with ⟨hclosing, hout, hsmall, hlate⟩
    refine ⟨_, finish_stoppingRestore hact, hclosing, hout, ?_, hlate⟩
    rw [hleft, hact]
    show _ < 8
    omega
  | @restoring reason ticket attempts lastError retryAt hact harm =>
    cases retryAt with
    | none =>
      left
      refine ⟨_, finish_restoring hact, .idle rfl rfl hplan, ?_⟩
      simp [CwSupervisor.left, CwSupervisor.todo, out, hplan, Activity.weight]
    | some retryAt =>
      right
      have hdue : retryAt ≤ now := late.2.2 retryAt (by simp [hact, Activity.retryAt])
      rcases planned (t := { s with
          activity := .restoring reason ticket attempts lastError none, plan := restorePlan s })
        late rfl harm rfl out rfl rfl late.2.1 with ⟨hclosing, hout, hsmall, hlate⟩
      refine ⟨_, finish_retry hdue hact, hclosing, hout, ?_, hlate⟩
      rw [hleft, hact]
      show _ < 7
      omega

theorem Closing.congr (h : Closing s) (hact : t.activity = s.activity) (harm : t.arm = s.arm)
    (hplan : s.plan = [] → t.plan = [])
    : Closing t := by
  cases h with
  | idle hidle hnone hempty => exact .idle (hact.trans hidle) (harm.trans hnone) (hplan hempty)
  | stopping hstop => exact .stopping (hact.trans hstop)
  | restoring hrestore hnone => exact .restoring (hact.trans hrestore) (harm.trans hnone)

/-- The loop of `nextAction` stops when nothing is left, or with a step for the radio. -/
def Went (s : CwSupervisor) (fuel : Nat) (t : CwSupervisor) : Prop :=
  Closing t ∧ (t.left = 0 ∨ t.outstanding ≠ none ∧ t.left ≤ s.left ∨ t.left + fuel ≤ s.left)

theorem Went.after {fuel : Nat} (h : Went t fuel u) (hless : t.left < s.left)
    : Went s (fuel + 1) u := by
  rcases h with ⟨hclosing, hleft | ⟨hissued, hleft⟩ | hleft⟩
  . exact ⟨hclosing, .inl hleft⟩
  . exact ⟨hclosing, .inr (.inl ⟨hissued, by omega⟩)⟩
  . exact ⟨hclosing, .inr (.inr (by omega))⟩

theorem Closing.go (fuel : Nat) (h : Closing s) (late : s.Late now) (out : s.outstanding = none)
    : Went s fuel (nextAction.go now fuel s).1 := by
  induction fuel generalizing s with
  | zero => exact ⟨h, .inr (.inr (Nat.le_refl _))⟩
  | succ fuel ih =>
    unfold nextAction.go
    cases hplan : s.plan with
    | nil =>
      rcases h.finish late out hplan with
        ⟨t, hfinish, hclosing, hleft⟩ | ⟨t, hfinish, hclosing, hout, hless, hlate⟩
      . simp only [hfinish]
        exact ⟨hclosing, .inl hleft⟩
      . simp only [hfinish, if_true]
        exact (ih hclosing hlate hout).after hless
    | cons step rest =>
      have hissue {t : CwSupervisor} (hact : t.activity = s.activity) (harm : t.arm = s.arm)
          (hout : t.outstanding = some step) (hrest : t.plan = rest)
          : Went s (fuel + 1) t := by
        refine ⟨h.congr hact harm (by simp [hplan]), .inr (.inl ⟨by simp [hout], ?_⟩)⟩
        simp [CwSupervisor.left, CwSupervisor.todo, hact, hout, hrest, out, hplan]
      cases step with
      | waitKeyed margin =>
        have hmargins : s.plan.filterMap Step.margin = margin :: rest.filterMap Step.margin := by
          simp [hplan, Step.margin]
        have hdue := late.1 margin (by simp [hmargins])
        simp only [hdue, Bool.false_eq_true, if_false]
        apply Went.after (t := { s with plan := rest })
        . refine ih (h.congr rfl rfl (by simp [hplan])) ⟨?_, late.2⟩ out
          intro other hother
          apply late.1 other
          simp only [hmargins, List.mem_cons] at hother ⊢
          exact hother.imp_right .inr
        . simp [CwSupervisor.left, CwSupervisor.todo, hplan]
      | waitReady =>
        simp only [late.2.1, Bool.false_eq_true, if_false]
        exact hissue rfl rfl rfl rfl
      | _ => exact hissue rfl rfl rfl rfl

theorem Closing.complete {step : Step} {outcome : CwOutcome} (h : Closing s)
    (out : s.outstanding = some step) (hmeets : step.meets outcome = true)
    (ht : Cw.complete env s outcome now = t)
    : Closing t ∧ t.left < s.left := by
  have hquiet : t.activity = s.activity ∧ t.arm = s.arm ∧ t.outstanding = none
      ∧ t.plan.Sublist s.plan := by
    subst ht
    have hjob : (∀ job, s.activity ≠ .sending job) ∧ ∀ ticket owner callsign cap wpm,
        s.activity ≠ .arming ticket owner callsign cap wpm := by
      cases h <;> simp [*]
    cases step <;> cases outcome <;> try contradiction
    case snapBreakIn.breakIn =>
      simp only [Cw.complete, out]
      split <;> simp
    case powerAtMost.power =>
      have hnot := Nat.not_lt.mpr (of_decide_eq_true hmeets)
      simp [Cw.complete, out, hnot]
    case stop.done =>
      simp only [Cw.complete, out]
      split <;> simp
    all_goals simp_all [Cw.complete, onStatus, onSpeed, onSent, Step.meets]
  rcases hquiet with ⟨hact, harm, hout, hplan⟩
  constructor
  . apply h.congr hact harm
    intro hempty
    rw [hempty] at hplan
    exact List.sublist_nil.mp hplan
  . have hlength := hplan.length_le
    rw [CwSupervisor.left, CwSupervisor.left, hact, CwSupervisor.todo_of_none hout,
      CwSupervisor.todo_of_some out, List.length_cons]
    omega

theorem checkTimers_closing (h : Closing s) : checkTimers env s now = s := by
  cases h with
  | idle hact harm => simp [checkTimers, hact, harm]
  | stopping hact => simp [checkTimers, hact]
  | restoring hact => simp [checkTimers, hact]

theorem Closing.turn {outcome : CwOutcome} (h : Closing s) (late : s.Late now)
    (hmeets : (nextAction env s now).1.outstanding.all (·.meets outcome) = true)
    : Closing (Cw.turn env s now outcome) ∧ (Cw.turn env s now outcome).left ≤ s.left - 1 := by
  have hwent : Went s 64 (nextAction env s now).1 := by
    cases hout : s.outstanding with
    | some step =>
      simp only [nextAction, hout, Option.isSome_some, if_true]
      exact ⟨h, .inr (.inl ⟨by simp [hout], Nat.le_refl _⟩)⟩
    | none =>
      simp only [nextAction, hout, Option.isSome_none, Bool.false_eq_true, if_false,
        checkTimers_closing h]
      exact h.go 64 late hout
  rcases hwent with ⟨hclosing, hleft⟩
  unfold Cw.turn
  cases hout : (nextAction env s now).1.outstanding with
  | none =>
    rw [complete_idle hout]
    refine ⟨hclosing, ?_⟩
    simp [hout] at hleft
    omega
  | some step =>
    rw [hout, Option.all_some] at hmeets
    rcases Closing.complete hclosing hout hmeets rfl with ⟨hdone, hless⟩
    exact ⟨hdone, by omega⟩

theorem Closing.turns {rounds : List (Instant × CwOutcome)} (h : Closing s)
    (hrounds : obliging env s rounds = true) (hlength : s.left ≤ rounds.length)
    : (Cw.turns env s rounds).isSettled = true := by
  induction rounds generalizing s with
  | nil => exact h.settled (Nat.le_zero.mp hlength)
  | cons round rounds ih =>
    simp only [obliging, Bool.and_eq_true, decide_eq_true_eq] at hrounds
    rcases hrounds with ⟨⟨late, hmeets⟩, hrest⟩
    rcases h.turn late hmeets with ⟨hclosing, hless⟩
    apply ih hclosing hrest
    rw [List.length_cons] at hlength
    omega

theorem shutdown_closing (hs : Shape s) : Closing (shutdown s) := by
  unfold shutdown
  cases hs with
  | unarmed hact harm hplan =>
    simp only [hact, harm, Option.isSome_none, Bool.false_eq_true, if_false]
    exact .idle rfl rfl hplan
  | arming hact harm =>
    simp only [hact, refuseArm, reply]
    split
    . exact .restoring rfl rfl
    . exact .idle rfl harm rfl
  | restoring hact harm =>
    simp only [hact, harm, Option.isSome_none, Bool.false_eq_true, if_false]
    exact .restoring rfl rfl
  | armed hact harm =>
    simp only [hact, harm, Option.isSome_some, if_true, endArm]
    exact .restoring rfl rfl
  | sending hact harm =>
    simp only [hact, harm, Option.isSome_some, if_true, endArm, beginStop]
    exact .stopping rfl
  | @stopping _ _ _ after _ hact harm =>
    simp only [hact, harm, Option.isSome_some, if_true, endArm]
    rcases after with _ | ⟨_, _ | _⟩
    all_goals exact .stopping rfl

/-- A shutdown comes to its end. Whatever the supervisor was doing, it is settled after as many
rounds of the pump as there are steps left, if the radio does as it is told. -/
theorem shutdown_settles {capability : CwCapability} {config : CwConfig} {log : Log} {w : Timed}
    {rounds : List (Instant × CwOutcome)} (h : Run env capability config log w)
    (hrounds : obliging env (shutdown w.sup) rounds = true)
    (hlength : (shutdown w.sup).todo.length + 8 ≤ rounds.length)
    : (turns env (shutdown w.sup) rounds).isSettled = true := by
  apply (shutdown_closing h.shape).turns hrounds
  apply Nat.le_trans _ hlength
  apply Nat.add_le_add_left
  unfold Activity.weight
  split <;> decide

namespace Bench

/-- The Kenwood is shut down while it keys its first chunk. -/
def kenwoodRounds : List (Instant × CwOutcome) :=
  let keyed := Duration.fromSecs 200
  [(Duration.fromSecs 100, .done), (keyed, .done), (keyed, .done), (keyed, .power 100)]
    ++ List.replicate 7 (keyed, .done)

theorem kenwood_settles
    : (turns Bench.env (shutdown (run kenwood kenwoodKeying).2.sup) kenwoodRounds).isSettled
      = true :=
  shutdown_settles (isRun kenwood kenwoodKeying) (by decide +kernel) (by decide +kernel)

end Bench

end Cw
