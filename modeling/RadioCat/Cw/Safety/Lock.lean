import RadioCat.Cw.Safety.Keying

/-!
This module contains the lock a supervisor holds on the radio: until what it changed has been
restored and what it keyed has ended, nobody else transmits and nobody arms.
-/

namespace Cw

open Trace

def unrestored : Log → Bool :=
  observe next false
where
  next (written : Bool) (e : Entry) : Bool :=
    match e.event with
    | .issued (.setPower _) | .issued (.setBreakIn _) => true
    | .notice (.restored _) => false
    | _ => written

def Step.isWrite : Step → Bool
  | .setPower _ | .setBreakIn _ => true
  | _ => false

def CwSupervisor.Marked (s : CwSupervisor) : Prop :=
  ∀ x ∈ s.outstanding, x.isWrite = true → (s.snap.powerChanged || s.snap.breakInChanged) = true

section

variable {env : Env} {now : Instant} {s s' : CwSupervisor} {evs : List Event} {log : Log}
  {capability : CwCapability} {config : CwConfig} {w : Timed}

theorem Move.unrestored (hs : Shape s)
    (hI : unrestored log = (s.snap.powerChanged || s.snap.breakInChanged))
    (h : Move env now s evs s')
    : unrestored ((evs.map (Entry.mk now)).reverse ++ log)
        = (s'.snap.powerChanged || s'.snap.breakInChanged) := by
  unfold Cw.unrestored at hI ⊢
  cases h with
  | arm _ _ _ _ _ _ _ hact harm =>
    obtain ⟨_, _, hpower, hbreakIn⟩ := hs.of_unarmed hact harm
    rw [observe_single, hI, hpower, hbreakIn]
    rfl
  | refuse c r _ _ clean =>
    refine (Skips.observe ?_).trans (hI.trans clean)
    simp [Cause.events, unrestored.next]
  | issue out hplan haction =>
    rename_i step _ _ _ _
    rw [observe_single, hI]
    cases step <;> cases haction <;> simp [unrestored.next, Snapshot.mark]
  | finishRestoring =>
    rw [Skips.observe_cons]
    . rfl
    . simp [unrestored.next]
  | _ =>
    refine (Skips.observe ?_).trans hI
    simp [Request.events, Cause.events, CwSupervisor.owedNotice, unrestored.next]

theorem Run.unrestored (h : Run env capability config log w)
    : unrestored log = (w.sup.snap.powerChanged || w.sup.snap.breakInChanged) := by
  apply Run.invariant
    (fun log _ s => Cw.unrestored log = (s.snap.powerChanged || s.snap.breakInChanged)) _ _ _ h
  . rfl
  . intro _ _ _ _ hI _
    exact hI
  . intro _ _ _ _ _ hs hI hmove
    exact hmove.unrestored hs hI

theorem unrestored_of_not_issued (h : ∀ action, .issued action ∉ evs)
    (hlog : Cw.unrestored log = false)
    : Cw.unrestored ((evs.map (Entry.mk now)).reverse ++ log) = false := by
  induction evs generalizing log with
  | nil => exact hlog
  | cons e evs ih =>
    rw [List.map_cons, List.reverse_cons, List.append_assoc]
    apply ih
    . intro action hmem
      exact h action (.tail _ hmem)
    . cases e with
      | issued action => exact absurd (.head _) (h action)
      | notice n => cases n <;> first | rfl | exact hlog
      | _ => exact hlog

theorem Move.writing (hs : Shape s) (hI : s.Marked) (h : Move env now s evs s') : s'.Marked := by
  intro x out' hwrite
  cases h with
  | arm _ _ _ _ _ _ _ hact harm =>
    have hread := (hs.of_unarmed hact harm).2.1 x out'
    cases x <;> cases hwrite <;> cases hread
  | issue out hplan haction =>
    cases out'
    cases x <;> cases hwrite <;> simp [Snapshot.mark]
  | refuse c r _ _ clean =>
    cases c with
    | request => exact absurd (hI x out' hwrite) (by simp [clean])
    | answer => cases out'
  | refuseRestore c =>
    cases c with
    | request => exact hI x out' hwrite
    | answer => cases out'
  | finishRestoring out => cases out.symm.trans out'
  | _ => first | exact hI x out' hwrite | cases out'

theorem Run.writing (h : Run env capability config log w) {x : Step}
    (out : w.sup.outstanding = some x) (hwrite : x.isWrite = true)
    : Cw.unrestored log = true := by
  have hmarked : w.sup.Marked := by
    apply Run.invariant (fun _ _ s => s.Marked) _ _ _ h
    . rintro _ ⟨⟩
    . intro _ _ _ _ hI _
      exact hI
    . intro _ _ _ _ _ hs hI hmove
      exact hmove.writing hs hI
  rw [h.unrestored]
  exact hmarked x out hwrite

theorem Run.released (h : Run env capability config log w) (hact : w.sup.activity = .idle)
    (harm : w.sup.arm = none)
    : Cw.unrestored log = false ∧ ∀ u ∈ keyingEnd env acknowledged true log, u ≤ w.now := by
  constructor
  . obtain ⟨_, _, hpower, hbreakIn⟩ := h.shape.of_unarmed hact harm
    rw [h.unrestored, hpower, hbreakIn]
    rfl
  . rw [h.keyedUntil (Or.inl rfl)]
    exact (h.drained harm).resolve_right (by simp [Waits, hact])

theorem Run.unblocked (h : Run env capability config log w)
    (hfree : w.sup.blocksExternalPtt = false) : Cw.unrestored log = false := by
  unfold CwSupervisor.blocksExternalPtt at hfree
  rw [Bool.or_eq_false_iff, Option.isSome_eq_false_iff, Option.isNone_iff_eq_none,
    bne_eq_false_iff_eq] at hfree
  exact (h.released hfree.2 hfree.1).1

theorem locked_until_restored (h : Run env capability config log w)
    (howed : Cw.unrestored log = true ∨ ∃ u ∈ keyingEnd env acknowledged true log, w.now < u)
    : w.sup.blocksExternalPtt = true ∧ w.sup.isSettled = false
        ∧ ∀ owner callsign keyDownCapS, ∃ r,
          arm w.sup owner callsign keyDownCapS = (w.sup, .error r) := by
  have hbusy : ¬(w.sup.activity = .idle ∧ w.sup.arm = none) := by
    rintro ⟨hact, harm⟩
    obtain ⟨hrestored, hkeyed⟩ := h.released hact harm
    rcases howed with howed | ⟨u, hu, hlt⟩
    . simp [hrestored] at howed
    . exact absurd (hkeyed u hu) (Nat.not_le.mpr hlt)
  refine ⟨?_, ?_, ?_⟩
  . unfold CwSupervisor.blocksExternalPtt
    cases harm : w.sup.arm <;> simp_all
  . unfold CwSupervisor.isSettled CwSupervisor.isLive
    cases harm : w.sup.arm <;> simp_all
  . intro owner callsign keyDownCapS
    rcases arm_cases w.sup owner callsign keyDownCapS
      with hrefused | ⟨_, _, _, _, _, _, _, hfree, hact, _⟩
    . exact hrefused
    . exact absurd (h.shape.idle_of_free hfree hact) hbusy

theorem locked_until_restored_kenwood
    : (Bench.run Bench.kenwood Bench.kenwoodKeying).2.sup.blocksExternalPtt = true :=
  (locked_until_restored (Bench.isRun Bench.kenwood Bench.kenwoodKeying) (by decide)).1

theorem settled_before_estimate
    : let script := Bench.icomKeying ++ [(0, .complete .done), (0, .abort)]
        ++ Bench.exchange [.done] ++ [(0, .nextAction), (0, .disarm 1)]
        ++ Bench.exchange [.done, .power 100] ++ [(0, .nextAction)]
      let res := Bench.run Bench.icom script
      keyingEnd Bench.env acknowledged false res.1 = some (Duration.fromSecs 2)
        ∧ res.2.now = 0 ∧ res.2.sup.isSettled = true ∧ res.2.sup.blocksExternalPtt = false := by
  -- The stop silences the keyer before the two seconds of the acknowledged chunk are over.
  decide +kernel

end

end Cw
