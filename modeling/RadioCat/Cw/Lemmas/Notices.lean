import RadioCat.Cw.Lemmas.Calls

/-!
This module contains what happens to the notices of a supervisor: until they are taken they are only
ever appended to.
-/

namespace Cw

variable {env : Env} {now : Instant} {s : CwSupervisor} {old : List CwNotice}

theorem startRestore_prefix (h : old <+: s.notices) (reason : DisarmReason)
    (ticket : Option Ticket) : old <+: (startRestore s reason ticket).notices := by
  apply h.trans
  apply List.prefix_append

theorem beginStop_prefix (h : old <+: s.notices) (reason : StopReason) (message : Option String)
    (after : After) : old <+: (beginStop s reason message after).notices := by
  unfold beginStop
  split
  . dsimp only
    split
    . split <;> exact h
    . exact h
  . split
    . apply startRestore_prefix h
    . exact h

theorem endArm_prefix (h : old <+: s.notices) (reason : DisarmReason) (stop : StopReason)
    (ticket : Option Ticket) : old <+: (endArm s reason stop ticket).notices := by
  unfold endArm
  split
  . apply beginStop_prefix h
  . exact h
  . apply startRestore_prefix h
  . exact h

theorem reply_prefix (h : old <+: s.notices) (ticket : Ticket) (result : Except HostRefusal Unit)
    : old <+: (reply s ticket result).notices := by
  apply h.trans
  apply List.prefix_append

theorem refuseArm_prefix (h : old <+: s.notices) (code : ErrorCode) (message : String)
    : old <+: (refuseArm s code message).notices := by
  unfold refuseArm
  dsimp only
  split <;> split
  . apply startRestore_prefix
    apply reply_prefix h
  . apply reply_prefix h
  . apply startRestore_prefix
    exact h
  . exact h

theorem fail_prefix (h : old <+: s.notices) (error : String)
    : old <+: (fail s error now).notices := by
  unfold fail
  split
  . exact h
  . apply refuseArm_prefix h
  . apply beginStop_prefix h
  . exact h
  . have hfailed (n : CwNotice) : old <+: s.notices ++ [n] := h.trans (List.prefix_append _ _)
    dsimp only
    split
    . apply reply_prefix
      apply hfailed
    . apply hfailed

theorem setWatchdog_notices (estimate : Duration)
    : (setWatchdog s estimate).notices = s.notices := by
  unfold setWatchdog
  dsimp only
  split <;> rfl

theorem planChunks_notices (operator : Text) (idText : Option Text) (idFirst : Bool) (wpm : Nat)
    : (planChunks env s operator idText idFirst wpm).notices = s.notices := by
  unfold planChunks
  split <;> rfl

theorem onStatus_prefix (h : old <+: s.notices) (cwMode transmitting : Bool) (wpm : Option Nat)
    : old <+: (onStatus env s cwMode transmitting wpm).notices := by
  unfold onStatus
  dsimp only
  split
  . split
    . apply refuseArm_prefix h
    . split
      . apply refuseArm_prefix h
      . exact h
  . split
    . apply beginStop_prefix h
    . rw [setWatchdog_notices, planChunks_notices]
      exact h
  . exact h

theorem replan_prefix (h : old <+: s.notices) (wpm : Nat)
    : old <+: (replan env s wpm now).notices := by
  fun_cases replan env s wpm now
  all_goals first
    | exact h
    | apply beginStop_prefix h

theorem onSpeed_prefix (h : old <+: s.notices) (cwMode : Bool) (wpm : Option Nat)
    : old <+: (onSpeed env s cwMode wpm now).notices := by
  unfold onSpeed
  split
  . split
    . apply beginStop_prefix h
    . dsimp only
      split
      . exact h
      . apply replan_prefix
        exact h
  . exact h

theorem onSent_prefix (h : old <+: s.notices) (chunk : Chunk)
    : old <+: (onSent env s chunk now).notices := by
  unfold onSent
  dsimp only
  split
  . split <;> exact h
  . exact h

theorem checkTimers_prefix (h : old <+: s.notices)
    : old <+: (checkTimers env s now).notices := by
  unfold checkTimers
  split
  . split
    . apply beginStop_prefix h
    . exact h
  . split
    . apply startRestore_prefix h
    . exact h
  . exact h

theorem finish_prefix (h : old <+: s.notices) : old <+: (finish s now).1.notices := by
  have hadded (n : CwNotice) : old <+: s.notices ++ [n] := h.trans (List.prefix_append _ _)
  unfold finish
  dsimp only
  split
  . exact h
  . apply reply_prefix
    apply hadded
  . apply hadded
  . split
    . apply hadded
    . apply startRestore_prefix
      apply hadded
  . split
    . split <;> exact h
    . split
      . apply reply_prefix
        apply hadded
      . apply hadded

theorem go_prefix (h : old <+: s.notices) (fuel : Nat)
    : old <+: (nextAction.go now fuel s).1.notices := by
  induction fuel generalizing s with
  | zero => exact h
  | succ fuel ih =>
    unfold nextAction.go
    split
    . dsimp only
      split
      . apply ih
        apply finish_prefix h
      . apply finish_prefix h
    . split
      . exact h
      . apply ih
        exact h
    . split <;> exact h
    . exact h

theorem nextAction_prefix (h : old <+: s.notices)
    : old <+: (nextAction env s now).1.notices := by
  unfold nextAction
  split
  . exact h
  . apply go_prefix
    apply checkTimers_prefix h

theorem complete_prefix (h : old <+: s.notices) (outcome : CwOutcome)
    : old <+: (complete env s outcome now).notices := by
  fun_cases complete env s outcome now
  all_goals first
    | exact h
    | exact fail_prefix (by exact h) _
    | exact onStatus_prefix (by exact h) _ _ _
    | exact onSpeed_prefix (by exact h) _ _
    | exact beginStop_prefix (by exact h) _ _ _
    | exact onSent_prefix (by exact h) _

theorem Call.notices_eq {c : Call} (h : c ≠ .takeNotices)
    : (c.run env now s).1.notices = s.notices ++ emitted s (c.run env now s).1 := by
  apply (List.prefix_iff_eq_append.mp _).symm
  have hold := List.prefix_refl s.notices
  cases c with
  | arm owner callsign keyDownCapS =>
    rcases arm_cases s owner callsign keyDownCapS with ⟨_, harm⟩ | ⟨_, _, _, _, _, _, _, _, _, harm⟩
    . simp [run, harm]
    . simp [run, harm]
  | send owner text =>
    rcases send_cases env s owner text now with ⟨_, hsend⟩ | ⟨_, _, _, _, _, _, hsend⟩
    . simp [run, hsend]
    . simp [run, hsend]
  | abort =>
    unfold run Cw.abort
    dsimp only
    split
    . apply beginStop_prefix hold
    . exact hold
  | disarm owner =>
    rcases disarm_cases s owner with ⟨_, hdisarm⟩ | ⟨_, _, _, _, hdisarm⟩
    . simp [run, hdisarm]
    . simp only [run, hdisarm]
      apply endArm_prefix
      exact hold
  | detached id =>
    unfold run Cw.detached
    dsimp only
    split
    . split
      . apply refuseArm_prefix hold
      . exact hold
    . split
      . apply endArm_prefix hold
      . exact hold
  | shutdown =>
    unfold run Cw.shutdown
    dsimp only
    split
    . apply refuseArm_prefix
      exact hold
    . split
      . apply endArm_prefix
        exact hold
      . exact hold
  | nextAction => apply nextAction_prefix hold
  | complete outcome => apply complete_prefix hold
  | takeNotices => exact absurd rfl h

def Event.told : Event → Option CwNotice
  | .notice n => some n
  | _ => none

theorem Call.told_shown (c : Call)
    : (c.shown env now s).filterMap Event.told = emitted s (c.run env now s).1 := by
  have hasked : (c.run env now s).2.1.filterMap Event.told = [] := by
    cases c with
    | arm | send | disarm | complete =>
      unfold run
      dsimp only
      split <;> rfl
    | _ => rfl
  have hstopped : (stopped s (c.run env now s).1).filterMap Event.told = [] := by
    unfold stopped
    split <;> rfl
  have hissued : ((c.run env now s).2.2.map Event.issued).toList.filterMap Event.told = [] := by
    cases (c.run env now s).2.2 <;> rfl
  rw [shown, List.filterMap_append, List.filterMap_append, List.filterMap_append, hasked, hstopped,
    hissued, List.filterMap_map]
  simp [Function.comp_def, Event.told]

theorem Call.mem_armed {c : Call} {owner : ConsoleId} {callsign : Text} {ticket : Ticket}
    (h : .armed owner callsign ticket ∈ c.shown env now s)
    : ∃ keyDownCapS, c = .arm owner callsign keyDownCapS ∧
      (Cw.arm s owner callsign keyDownCapS).2 = .ok ticket := by
  simp only [shown, List.mem_append, List.mem_map] at h
  rcases h with ((h | h) | ⟨_, _, h⟩) | h
  . cases c with
    | arm owner' callsign' keyDownCapS =>
      unfold run at h
      dsimp only at h
      split at h
      next ticket' hok =>
        cases List.mem_singleton.mp h
        exact ⟨keyDownCapS, rfl, hok⟩
      next => cases h
    | send | disarm | complete =>
      unfold run at h
      dsimp only at h
      split at h
      . cases List.mem_singleton.mp h
      . cases h
    | _ => cases h
  . unfold stopped at h
    split at h
    . cases List.mem_singleton.mp h
    . cases h
  . cases h
  . rcases Option.map_eq_some_iff.mp (Option.mem_toList.mp h) with ⟨_, _, h⟩
    cases h

end Cw
