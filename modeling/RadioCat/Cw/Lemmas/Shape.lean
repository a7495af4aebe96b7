import RadioCat.Cw.Moves

/-!
This module contains the invariant every other one rests on: for each activity, whether an arm is
held, what may be planned and outstanding, and what the snapshot holds.
-/

namespace Cw

structure Clamped (sendText : Option CwSendText) (gate : Option TxGateCapability)
    (snap : Snapshot) : Prop where
  sendText : ∃ send, sendText = some send
  gate : ∃ g, gate = some g
  changed : snap.powerChanged = true
  power : ∃ p, snap.power = some p

def ArmWrites (send : CwSendText) (gate : TxGateCapability) (writes : List Step) : Prop :=
  writes = armPlan.armWrites send gate
    ∨ writes = (armPlan.armWrites send gate).filter fun x => !x.isBreakInWrite

/--
An arm that is under way has written nothing yet, or has issued its first write. Before that the
outstanding read may be one of an arm that was abandoned.
-/
inductive ArmShape (send : CwSendText) (gate : TxGateCapability) (plan : List Step)
    (outstanding : Option Step) (snap : Snapshot) : Prop where
  | reading {reads writes : List Step}
      (plan_eq : plan = reads ++ .setPower gate.lowPowerRaw :: writes)
      (reads_suffix : reads <:+ armPlan.armReads send)
      (writes_eq : ArmWrites send gate writes)
      (out : ∀ x ∈ outstanding, x.isRead = true)
      (power : (∃ p, snap.power = some p) ∨ .snapPower ∈ outstanding ∨ .snapPower ∈ reads)
      (powerChanged : snap.powerChanged = false) (breakInChanged : snap.breakInChanged = false)
      (stale : .snapBreakIn ∈ outstanding → reads = [] ∨ writes = armPlan.armWrites send gate)
  | writing {writes : List Step}
      (todo_suffix : outstanding.toList ++ plan <:+ .setPower gate.lowPowerRaw :: writes)
      (writes_eq : ArmWrites send gate writes)
      (power : ∃ p, snap.power = some p) (powerChanged : snap.powerChanged = true)

inductive Shape (s : CwSupervisor) : Prop where
  | unarmed (hact : s.activity = .idle) (harm : s.arm = none) (plan : s.plan = [])
      (out : ∀ x ∈ s.outstanding, x.isRead = true) (powerChanged : s.snap.powerChanged = false)
      (breakInChanged : s.snap.breakInChanged = false)
  | armed {a : Arm} (hact : s.activity = .idle) (harm : s.arm = some a) (plan : s.plan = [])
      (out : s.outstanding = none) (clamped : Clamped s.sendText s.gate s.snap)
  | arming {ticket : Ticket} {owner : ConsoleId} {callsign : Text} {cap : Duration} {wpm : Nat}
      {send : CwSendText} {gate : TxGateCapability}
      (hact : s.activity = .arming ticket owner callsign cap wpm) (harm : s.arm = none)
      (hsend : s.sendText = some send) (hgate : s.gate = some gate)
      (shape : ArmShape send gate s.plan s.outstanding s.snap)
  | sending {job : Job} {a : Arm} (hact : s.activity = .sending job) (harm : s.arm = some a)
      (clamped : Clamped s.sendText s.gate s.snap) (plan : ∀ x ∈ s.plan, x.isKeying = true)
      (out : ∀ x ∈ s.outstanding, x.isKeying = true)
  | stopping {job : Nat} {why : StopReason} {message : Option String} {after : After} {a : Arm}
      (hact : s.activity = .stopping job why message after) (harm : s.arm = some a)
      (clamped : Clamped s.sendText s.gate s.snap) (plan : ∀ x ∈ s.plan, x.isStopping = true)
      (out : ∀ x ∈ s.outstanding, x.isKeying = true ∨ x.isStopping = true)
  | restoring {reason : DisarmReason} {ticket : Option Ticket} {attempts : Nat}
      {lastError : Option String} {retryAt : Option Instant}
      (hact : s.activity = .restoring reason ticket attempts lastError retryAt)
      (harm : s.arm = none) (plan : ∀ x ∈ s.plan, x.isRestoring = true)
      (out : ∀ x ∈ s.outstanding, x.isRestoring = true)

namespace ArmShape

variable {send : CwSendText} {gate : TxGateCapability} {plan : List Step} {out : Option Step}
  {snap : Snapshot} {x : Step}

theorem isRead_of_mem (h : x ∈ armPlan.armReads send) : x.isRead = true := by
  unfold armPlan.armReads at h
  split at h <;> simp at h <;> aesop

theorem isRestoring_of_mem (h : x ∈ .setPower gate.lowPowerRaw :: armPlan.armWrites send gate)
    : x.isRestoring = true ∧ ∀ margin, x ≠ .waitKeyed margin := by
  unfold armPlan.armWrites at h
  split at h <;> simp at h <;> aesop

theorem mem_of_writes {writes : List Step} (h : ArmWrites send gate writes)
    (hx : x ∈ .setPower gate.lowPowerRaw :: writes)
    : x ∈ .setPower gate.lowPowerRaw :: armPlan.armWrites send gate := by
  rcases h with rfl | rfl
  . exact hx
  . exact (List.Sublist.cons_cons _ List.filter_sublist).mem hx

theorem of_mem_todo (h : ArmShape send gate plan out snap) (hx : x ∈ out.toList ++ plan)
    : x.isRead = true ∨ x ∈ .setPower gate.lowPowerRaw :: armPlan.armWrites send gate := by
  cases h with
  | reading plan_eq reads_suffix writes_eq out' =>
    rw [plan_eq, List.mem_append, List.mem_append, Option.mem_toList] at hx
    rcases hx with hx | hx | hx
    . exact Or.inl (out' x hx)
    . exact Or.inl (isRead_of_mem (reads_suffix.mem hx))
    . exact Or.inr (mem_of_writes writes_eq hx)
  | writing todo_suffix writes_eq => exact Or.inr (mem_of_writes writes_eq (todo_suffix.mem hx))

theorem of_mem (h : ArmShape send gate plan out snap) (hx : x ∈ plan)
    : x.isRead = true ∨ x.isRestoring = true ∧ ∀ margin, x ≠ .waitKeyed margin :=
  (h.of_mem_todo (List.mem_append_right _ hx)).imp_right isRestoring_of_mem

theorem not_writing {writes : List Step} (h : ArmWrites send gate writes)
    (hread : x.isRead = true) : ¬ x :: plan <:+ .setPower gate.lowPowerRaw :: writes := by
  intro hsuffix
  have := (isRestoring_of_mem (mem_of_writes h (hsuffix.mem List.mem_cons_self))).1
  cases x <;> contradiction

theorem of_mem_out (h : ArmShape send gate plan out snap) (hx : x ∈ out)
    : x.isRead = true ∨ x.isRestoring = true :=
  (h.of_mem_todo (List.mem_append_left _ (Option.mem_toList.mpr hx))).imp_right
    fun h => (isRestoring_of_mem h).1

end ArmShape

namespace Shape

variable {s : CwSupervisor}

theorem of_unarmed (h : Shape s) (hact : s.activity = .idle) (harm : s.arm = none)
    : s.plan = [] ∧ (∀ x ∈ s.outstanding, x.isRead = true) ∧ s.snap.powerChanged = false
        ∧ s.snap.breakInChanged = false := by
  cases h <;> simp_all

theorem of_armed {a : Arm} (h : Shape s) (hact : s.activity = .idle) (harm : s.arm = some a)
    : s.plan = [] ∧ s.outstanding = none ∧ Clamped s.sendText s.gate s.snap := by
  cases h <;> simp_all

theorem of_arming {ticket : Ticket} {owner : ConsoleId} {callsign : Text} {cap : Duration}
    {wpm : Nat} (h : Shape s) (hact : s.activity = .arming ticket owner callsign cap wpm)
    : s.arm = none ∧ ∃ send gate, s.sendText = some send ∧ s.gate = some gate
        ∧ ArmShape send gate s.plan s.outstanding s.snap := by
  cases h <;> simp_all

theorem of_sending {job : Job} (h : Shape s) (hact : s.activity = .sending job)
    : (∃ a, s.arm = some a) ∧ Clamped s.sendText s.gate s.snap
        ∧ (∀ x ∈ s.plan, x.isKeying = true) ∧ ∀ x ∈ s.outstanding, x.isKeying = true := by
  cases h <;> simp_all

theorem of_stopping {job : Nat} {why : StopReason} {message : Option String} {after : After}
    (h : Shape s) (hact : s.activity = .stopping job why message after)
    : (∃ a, s.arm = some a) ∧ Clamped s.sendText s.gate s.snap
        ∧ (∀ x ∈ s.plan, x.isStopping = true)
        ∧ ∀ x ∈ s.outstanding, x.isKeying = true ∨ x.isStopping = true := by
  cases h <;> simp_all

theorem of_restoring {reason : DisarmReason} {ticket : Option Ticket} {attempts : Nat}
    {lastError : Option String} {retryAt : Option Instant} (h : Shape s)
    (hact : s.activity = .restoring reason ticket attempts lastError retryAt)
    : s.arm = none ∧ (∀ x ∈ s.plan, x.isRestoring = true)
        ∧ ∀ x ∈ s.outstanding, x.isRestoring = true := by
  cases h <;> simp_all

theorem idle_of_free (h : Shape s) (free : arm.heldBy s = none)
    (hact : ∀ reason ticket attempts lastError retryAt,
      s.activity ≠ .restoring reason ticket attempts lastError retryAt)
    : s.activity = .idle ∧ s.arm = none := by
  cases h with
  | restoring hact' => exact absurd hact' (hact _ _ _ _ _)
  | _ => simp_all [arm.heldBy]

theorem of_keying {step : Step} (h : Shape s) (out : s.outstanding = some step)
    (hread : step.isRead = false) (hwrite : step.isRestoring = false)
    : (∃ job, s.activity = .sending job)
      ∨ ∃ job why message after, s.activity = .stopping job why message after := by
  cases h with
  | unarmed _ _ _ out' => simp [out, hread] at out'
  | armed _ _ _ out' => simp [out] at out'
  | arming _ _ _ _ shape => simpa [hread, hwrite] using shape.of_mem_out out
  | sending hact => exact Or.inl ⟨_, hact⟩
  | stopping hact => exact Or.inr ⟨_, _, _, _, hact⟩
  | restoring _ _ _ out' => simp [out, hwrite] at out'

theorem of_snap {step : Step} (h : Shape s) (out : s.outstanding = some step)
    (hstep : step.isKeying = false) (hread : step.isRead = true)
    : s.activity = .idle ∧ s.arm = none
      ∨ ∃ ticket owner callsign cap wpm, s.activity = .arming ticket owner callsign cap wpm := by
  cases h with
  | unarmed hact harm => exact Or.inl ⟨hact, harm⟩
  | armed _ _ _ out' => simp [out] at out'
  | arming hact => exact Or.inr ⟨_, _, _, _, _, hact⟩
  | sending _ _ _ _ out' => simp [out, hstep] at out'
  | stopping _ _ _ _ out' =>
    have := out' step out
    cases step <;> simp_all [Step.isRead, Step.isStopping]
  | restoring _ _ _ out' =>
    have := out' step out
    cases step <;> simp_all [Step.isRead, Step.isRestoring]

theorem of_write {step : Step} (h : Shape s) (out : s.outstanding = some step)
    (hread : step.isRead = false) (hkeying : step.isKeying = false)
    (hstop : step.isStopping = false)
    : (∃ ticket owner callsign cap wpm, s.activity = .arming ticket owner callsign cap wpm)
      ∨ ∃ reason ticket attempts lastError retryAt,
        s.activity = .restoring reason ticket attempts lastError retryAt := by
  cases h with
  | unarmed _ _ _ out' => simp [out, hread] at out'
  | armed _ _ _ out' => simp [out] at out'
  | arming hact => exact Or.inl ⟨_, _, _, _, _, hact⟩
  | sending _ _ _ _ out' => simp [out, hkeying] at out'
  | stopping _ _ _ _ out' => simp [out, hkeying, hstop] at out'
  | restoring hact => exact Or.inr ⟨_, _, _, _, _, hact⟩

theorem of_stop (h : Shape s) (out : s.outstanding = some .stop)
    : ∃ job why message after, s.activity = .stopping job why message after := by
  rcases h.of_keying out rfl rfl with ⟨job, hact⟩ | hact
  . obtain ⟨_, _, _, out'⟩ := h.of_sending hact
    simp [out, Step.isKeying] at out'
  . exact hact

end Shape

theorem new_shape (capability : CwCapability) (config : CwConfig)
    : Shape (new capability config) := by
  apply Shape.unarmed <;> simp [new]

variable {env : Env} {now : Instant} {s s' : CwSupervisor} {evs : List Event}

theorem restorePlan_isRestoring (s : CwSupervisor)
    : ∀ x ∈ restorePlan s, x.isRestoring = true := by
  unfold restorePlan
  dsimp
  split <;> split <;> simp [Step.isRestoring]

theorem chunkPlan.paced_isKeying (send : CwSendText) (n : Nat) (y : (Text × Bool) × Nat)
    : ∀ x ∈ chunkPlan.paced send n y, x.isKeying = true := by
  unfold chunkPlan.paced
  split <;> split <;> simp [Step.isKeying]

theorem chunkPlan_isKeying (env : Env) (s : CwSupervisor) (send : CwSendText) (operator : Text)
    (idText : Option Text) (idFirst : Bool) (wpm : Nat)
    : ∀ x ∈ chunkPlan env s send operator idText idFirst wpm, x.isKeying = true := by
  intro x hx
  simp only [chunkPlan, List.mem_append, List.mem_flatMap, List.mem_singleton] at hx
  rcases hx with ⟨y, _, hx⟩ | rfl
  . exact chunkPlan.paced_isKeying _ _ _ x hx
  . rfl

theorem replan.paced_isKeying (send : CwSendText) (y : Chunk × Nat)
    : ∀ x ∈ replan.paced send y, x.isKeying = true := by
  unfold replan.paced
  split
  . split <;> simp [Step.isKeying]
  . simp [Step.isKeying]

namespace ArmShape

variable {send : CwSendText} {gate : TxGateCapability} {step : Step} {plan : List Step}
  {out : Option Step} {snap : Snapshot}

theorem start (h : ∀ x ∈ out, x.isRead = true)
    : ArmShape send gate (armPlan send gate) out {} := by
  apply ArmShape.reading rfl List.suffix_rfl (Or.inl rfl) h
  . right
    right
    simp [armPlan.armReads]
  . rfl
  . rfl
  . intro _
    exact Or.inr rfl

theorem snapBreakIn_last {reads : List Step}
    (h : .snapBreakIn :: reads <:+ armPlan.armReads send) : reads = [] := by
  unfold armPlan.armReads at h
  split at h <;> simp [List.suffix_cons_iff] at h
  exact h

theorem issue (h : ArmShape send gate (step :: plan) none snap)
    : ArmShape send gate plan (some step) (snap.mark step) := by
  cases h with
  | @reading reads writes plan_eq reads_suffix writes_eq _ power powerChanged breakInChanged =>
    cases reads with
    | nil =>
      simp only [List.nil_append, List.cons.injEq] at plan_eq
      obtain ⟨rfl, rfl⟩ := plan_eq
      apply ArmShape.writing List.suffix_rfl writes_eq
      . simpa [Snapshot.mark] using power
      . rfl
    | cons x reads =>
      simp only [List.cons_append, List.cons.injEq] at plan_eq
      obtain ⟨rfl, rfl⟩ := plan_eq
      have hread := isRead_of_mem (reads_suffix.mem List.mem_cons_self)
      have hmark : snap.mark step = snap := by
        cases step <;> simp_all [Snapshot.mark, Step.isRead]
      rw [hmark]
      apply ArmShape.reading rfl ((List.suffix_cons _ _).trans reads_suffix) writes_eq
      . simpa using hread
      . simpa [eq_comm] using power
      . exact powerChanged
      . exact breakInChanged
      . intro hout
        left
        cases hout
        exact snapBreakIn_last reads_suffix
  | writing todo_suffix writes_eq power powerChanged =>
    refine ArmShape.writing ?_ writes_eq ?_ ?_
    . exact todo_suffix
    . cases step <;> exact power
    . cases step <;> first | exact powerChanged | rfl

theorem answer (h : ArmShape send gate plan (some step) snap) (hstep : step ≠ .snapPower)
    : ArmShape send gate plan none snap := by
  cases h with
  | reading plan_eq reads_suffix writes_eq _ power powerChanged breakInChanged =>
    apply ArmShape.reading plan_eq reads_suffix writes_eq
    . simp
    . simpa [hstep] using power
    . exact powerChanged
    . exact breakInChanged
    . simp
  | writing todo_suffix writes_eq power powerChanged =>
    exact ArmShape.writing ((List.suffix_cons _ _).trans todo_suffix) writes_eq power powerChanged

theorem snapPower (h : ArmShape send gate plan (some .snapPower) snap) (p : Nat)
    : ArmShape send gate plan none { snap with power := some p } := by
  cases h with
  | reading plan_eq reads_suffix writes_eq _ _ powerChanged breakInChanged =>
    apply ArmShape.reading plan_eq reads_suffix writes_eq
    . simp
    . exact Or.inl ⟨p, rfl⟩
    . exact powerChanged
    . exact breakInChanged
    . simp
  | writing todo_suffix writes_eq => exact absurd todo_suffix (not_writing writes_eq rfl)

theorem filter_plan {reads writes : List Step} {v : Nat} (hreads : reads <:+ armPlan.armReads send)
    : (reads ++ .setPower v :: writes).filter (fun x => !x.isBreakInWrite)
        = reads ++ .setPower v :: writes.filter fun x => !x.isBreakInWrite := by
  have : reads.filter (fun x => !x.isBreakInWrite) = reads := by
    rw [List.filter_eq_self]
    intro x hx
    have := isRead_of_mem (hreads.mem hx)
    cases x <;> simp_all [Step.isRead, Step.isBreakInWrite]
  rw [List.filter_append, this, List.filter_cons_of_pos rfl]

theorem snapBreakIn (h : ArmShape send gate plan (some .snapBreakIn) snap) (k : BreakInKind)
    : ArmShape send gate plan none { snap with breakIn := some k }
        ∧ ArmShape send gate (plan.filter fun x => !x.isBreakInWrite) none
            { snap with breakIn := some k } := by
  cases h with
  | reading plan_eq reads_suffix writes_eq _ power powerChanged breakInChanged =>
    have power := by simpa using power
    constructor
    . apply ArmShape.reading plan_eq reads_suffix writes_eq
      . simp
      . simpa using power
      . exact powerChanged
      . exact breakInChanged
      . simp
    . rw [plan_eq, filter_plan reads_suffix]
      apply ArmShape.reading rfl reads_suffix
      . right
        rcases writes_eq with rfl | rfl
        . rfl
        . simp
      . simp
      . simpa using power
      . exact powerChanged
      . exact breakInChanged
      . simp
  | writing todo_suffix writes_eq => exact absurd todo_suffix (not_writing writes_eq rfl)

end ArmShape

theorem Shape.bookkeeping (h : Shape s) (notices : List CwNotice) (shuttingDown : Bool)
    : Shape { s with notices, shuttingDown } := by
  cases h with
  | unarmed hact harm plan out h₁ h₂ => exact .unarmed hact harm plan out h₁ h₂
  | armed hact harm plan out clamped => exact .armed hact harm plan out clamped
  | arming hact harm hsend hgate shape => exact .arming hact harm hsend hgate shape
  | sending hact harm clamped plan out => exact .sending hact harm clamped plan out
  | stopping hact harm clamped plan out => exact .stopping hact harm clamped plan out
  | restoring hact harm plan out => exact .restoring hact harm plan out

@[simp]
theorem After.restoring_ticket (reason : DisarmReason) (ticket : Option Ticket) (after : After)
    : (after.restoring reason ticket).ticket = ticket := by
  cases after <;> rfl

@[simp]
theorem stopJob_activity (a : Arm) (job : Job) (reason : StopReason) (message : Option String)
    (after : After)
    : (s.stopJob a job reason message after).activity = .stopping job.id reason message after := by
  rfl

@[simp]
theorem startRestore_activity (reason : DisarmReason) (ticket : Option Ticket)
    : (startRestore s reason ticket).activity = .restoring reason ticket 0 none none := by
  rfl

theorem startRestore_shape (s : CwSupervisor) (reason : DisarmReason) (ticket : Option Ticket)
    (out : ∀ x ∈ s.outstanding, x.isRestoring = true) : Shape (startRestore s reason ticket) := by
  refine Shape.restoring rfl rfl ?_ ?_
  . exact restorePlan_isRestoring _
  . exact out

theorem stopJob_shape {a : Arm} {job : Job} {reason : StopReason} {message : Option String}
    {after : After} (clamped : Clamped s.sendText s.gate s.snap)
    (out : ∀ x ∈ s.outstanding, x.isKeying = true)
    : Shape (s.stopJob a job reason message after) := by
  refine Shape.stopping rfl rfl clamped ?_ ?_
  . simp [CwSupervisor.stopJob, Step.isStopping]
  . intro x hx
    exact Or.inl (out x hx)

theorem Clamped.mark {sendText : Option CwSendText} {gate : Option TxGateCapability}
    {snap : Snapshot} (h : Clamped sendText gate snap) (step : Step)
    : Clamped sendText gate (snap.mark step) := by
  obtain ⟨hsend, hgate, changed, power⟩ := h
  cases step <;> exact ⟨hsend, hgate, by first | exact changed | rfl, power⟩

theorem withSpeed_arm {a : Arm} {wpm : Nat} (harm : s.arm = some a)
    : (s.withSpeed wpm).arm = some { a with wpm } := by
  simp [CwSupervisor.withSpeed, harm]

namespace Shape

theorem refuse {ticket : Ticket} {owner : ConsoleId} {callsign : Text} {cap : Duration} {wpm : Nat}
    (h : Shape s) (c : Cause) (hact : s.activity = .arming ticket owner callsign cap wpm)
    (clean : (s.snap.powerChanged || s.snap.breakInChanged) = false)
    : ∀ x ∈ (c.apply s).outstanding, x.isRead = true := by
  cases c with
  | request =>
    obtain ⟨_, send, gate, _, _, shape⟩ := h.of_arming hact
    cases shape with
    | reading _ _ _ out => exact out
    | writing _ _ _ changed => simp [changed] at clean
  | answer => simp [Cause.apply]

theorem refuseRestore {ticket : Ticket} {owner : ConsoleId} {callsign : Text} {cap : Duration}
    {wpm : Nat} (h : Shape s) (c : Cause)
    (hact : s.activity = .arming ticket owner callsign cap wpm)
    (changed : (s.snap.powerChanged || s.snap.breakInChanged) = true)
    : ∀ x ∈ (c.apply s).outstanding, x.isRestoring = true := by
  cases c with
  | request =>
    obtain ⟨_, send, gate, _, _, shape⟩ := h.of_arming hact
    cases shape with
    | reading _ _ _ _ _ h₁ h₂ => simp [h₁, h₂] at changed
    | writing todo_suffix writes_eq =>
      intro x hx
      have hmem := todo_suffix.mem (List.mem_append_left _ (Option.mem_toList.mpr hx))
      exact (ArmShape.isRestoring_of_mem (ArmShape.mem_of_writes writes_eq hmem)).1
  | answer => simp [Cause.apply]

theorem keyed {margin : Duration} {rest : List Step} (h : Shape s)
    (hplan : s.plan = .waitKeyed margin :: rest) : Shape { s with plan := rest } := by
  cases h with
  | unarmed _ _ plan => simp [hplan] at plan
  | armed _ _ plan => simp [hplan] at plan
  | arming hact harm hsend hgate shape =>
    rw [hplan] at shape
    simpa [Step.isRead] using shape.of_mem List.mem_cons_self
  | sending hact harm clamped plan out =>
    rw [hplan] at plan
    exact .sending hact harm clamped (List.forall_mem_of_forall_mem_cons plan) out
  | stopping hact harm clamped plan out =>
    rw [hplan] at plan
    exact .stopping hact harm clamped (List.forall_mem_of_forall_mem_cons plan) out
  | restoring hact harm plan out =>
    rw [hplan] at plan
    exact .restoring hact harm (List.forall_mem_of_forall_mem_cons plan) out

theorem issue {step : Step} {rest : List Step} (h : Shape s) (out : s.outstanding = none)
    (hplan : s.plan = step :: rest) (readyRetryAt : Option Instant)
    : Shape { s with
        readyRetryAt
        plan := rest
        snap := s.snap.mark step
        outstanding := some step } := by
  cases h with
  | unarmed _ _ plan => simp [hplan] at plan
  | armed _ _ plan => simp [hplan] at plan
  | arming hact harm hsend hgate shape =>
    rw [hplan, out] at shape
    exact .arming hact harm hsend hgate shape.issue
  | sending hact harm clamped plan _ =>
    rw [hplan, List.forall_mem_cons] at plan
    exact .sending hact harm (clamped.mark _) plan.2 (by simpa using plan.1)
  | stopping hact harm clamped plan _ =>
    rw [hplan, List.forall_mem_cons] at plan
    exact .stopping hact harm (clamped.mark _) plan.2 (by simp [plan.1])
  | restoring hact harm plan _ =>
    rw [hplan, List.forall_mem_cons] at plan
    exact .restoring hact harm plan.2 (by simpa using plan.1)

theorem snapPower (h : Shape s) (out : s.outstanding = some .snapPower) (p : Nat)
    : Shape { s.answered with snap := { s.snap with power := some p } } := by
  rcases h.of_snap out rfl rfl with ⟨hact, harm⟩ | ⟨_, _, _, _, _, hact⟩
  . obtain ⟨plan, _, h₁, h₂⟩ := h.of_unarmed hact harm
    exact .unarmed hact harm plan (by simp [CwSupervisor.answered]) h₁ h₂
  . obtain ⟨harm, send, gate, hsend, hgate, shape⟩ := h.of_arming hact
    rw [out] at shape
    exact .arming hact harm hsend hgate (shape.snapPower p)

theorem snapBreakIn (h : Shape s) (out : s.outstanding = some .snapBreakIn) (k : BreakInKind)
    : Shape { s.answered with
        snap := { s.snap with breakIn := some k }
        plan :=
          if s.sendText.bind CwSendText.requiresBreakIn = some k then
            s.plan.filter fun x => !x.isBreakInWrite
          else
            s.plan } := by
  rcases h.of_snap out rfl rfl with ⟨hact, harm⟩ | ⟨_, _, _, _, _, hact⟩
  . obtain ⟨plan, _, h₁, h₂⟩ := h.of_unarmed hact harm
    exact .unarmed hact harm (by simp [plan]) (by simp [CwSupervisor.answered]) h₁ h₂
  . obtain ⟨harm, send, gate, hsend, hgate, shape⟩ := h.of_arming hact
    rw [out] at shape
    refine .arming hact harm hsend hgate ?_
    split
    . exact (shape.snapBreakIn k).2
    . exact (shape.snapBreakIn k).1

theorem busy (h : Shape s) (out : s.outstanding = some .waitReady) (readyRetryAt : Option Instant)
    : Shape { s.answered with plan := .waitReady :: s.plan, readyRetryAt } := by
  rcases h.of_keying out rfl rfl with ⟨job, hact⟩ | ⟨job, why, message, after, hact⟩
  . obtain ⟨⟨a, harm⟩, clamped, plan, _⟩ := h.of_sending hact
    refine .sending hact harm clamped ?_ (by simp [CwSupervisor.answered])
    rw [List.forall_mem_cons]
    exact ⟨rfl, plan⟩
  . obtain ⟨⟨a, harm⟩, clamped, plan, _⟩ := h.of_stopping hact
    refine .stopping hact harm clamped ?_ (by simp [CwSupervisor.answered])
    rw [List.forall_mem_cons]
    exact ⟨rfl, plan⟩

end Shape

theorem Move.shape (h : Move env now s evs s') (hs : Shape s) : Shape s' := by
  cases h with
  | takeNotices => exact hs.bookkeeping [] s.shuttingDown
  | shutdown => exact hs.bookkeeping s.notices true
  | arm owner callsign cap _ hsend hgate _ hact harm =>
    obtain ⟨_, out, _⟩ := hs.of_unarmed hact harm
    exact .arming rfl harm hsend hgate (.start out)
  | send text _ _ hact harm =>
    obtain ⟨_, out, clamped⟩ := hs.of_armed hact harm
    refine Shape.sending rfl rfl clamped ?_ ?_
    . simp [Step.isKeying]
    . simp [out]
  | stop r reason message after _ _ hact harm =>
    obtain ⟨_, clamped, _, out⟩ := hs.of_sending hact
    exact stopJob_shape clamped out
  | stopAnswer outcome wpm message after hafter out _ hact harm =>
    obtain ⟨_, clamped, _, _⟩ := hs.of_sending hact
    refine stopJob_shape clamped ?_
    simp [CwSupervisor.answered, CwSupervisor.withSpeed]
  | endStopping r reason hact _ =>
    obtain ⟨⟨a, harm⟩, clamped, plan, out⟩ := hs.of_stopping hact
    exact .stopping rfl harm clamped plan out
  | endIdle r reason hact harm =>
    obtain ⟨_, out, _⟩ := hs.of_armed hact harm
    apply startRestore_shape
    simp [Request.apply, out]
  | refuse c r _ hact clean =>
    exact .unarmed rfl (hs.of_arming hact).1 rfl (hs.refuse c hact clean) rfl rfl
  | refuseRestore c r _ hact harm changed =>
    exact .restoring rfl harm (restorePlan_isRestoring _) (hs.refuseRestore c hact changed)
  | keyed out hplan => exact hs.keyed hplan
  | issue out hplan => exact hs.issue out hplan _
  | finishArming out hplan hact =>
    obtain ⟨harm, send, gate, hsend, hgate, shape⟩ := hs.of_arming hact
    refine Shape.armed rfl rfl hplan out ?_
    cases shape with
    | reading plan_eq => simp [hplan] at plan_eq
    | writing _ _ power changed => exact ⟨⟨send, hsend⟩, ⟨gate, hgate⟩, changed, power⟩
  | finishSending out hplan hact harm =>
    obtain ⟨_, clamped, _⟩ := hs.of_sending hact
    exact .armed rfl rfl hplan out clamped
  | finishStopping out hplan hact harm =>
    obtain ⟨_, clamped, _⟩ := hs.of_stopping hact
    exact .armed rfl rfl hplan out clamped
  | finishStoppingRestore out hplan hact harm =>
    apply startRestore_shape
    simp [endJob, out]
  | retry out hplan due hact =>
    obtain ⟨harm, _⟩ := hs.of_restoring hact
    exact .restoring rfl harm (restorePlan_isRestoring _) (by simp [out])
  | finishRestoring out hplan hact =>
    refine Shape.unarmed rfl rfl hplan ?_ rfl rfl
    simp [out]
  | idleAnswer outcome out _ hact =>
    cases hs with
    | unarmed _ harm plan _ h₁ h₂ =>
      exact .unarmed hact harm plan (by simp [CwSupervisor.answered]) h₁ h₂
    | armed _ _ _ out' => simp [out] at out'
    | _ => simp_all
  | snapPower p out => exact hs.snapPower out p
  | snapBreakIn k out => exact hs.snapBreakIn out k
  | armStatus wpm out hact =>
    obtain ⟨harm, send, gate, hsend, hgate, shape⟩ := hs.of_arming hact
    rw [out] at shape
    exact .arming rfl harm hsend hgate (shape.answer (by simp))
  | armAnswer outcome out _ _ write hact =>
    obtain ⟨harm, send, gate, hsend, hgate, shape⟩ := hs.of_arming hact
    rw [out] at shape
    refine .arming hact harm hsend hgate (shape.answer ?_)
    rintro rfl
    simp [Step.isRestoring] at write
  | planned wpm out hsend hact harm _ hplan =>
    obtain ⟨_, clamped, plan, _⟩ := hs.of_sending hact
    refine Shape.sending rfl (withSpeed_arm harm) clamped ?_ ?_
    . intro x hx
      rw [hplan, List.mem_append] at hx
      rcases hx with hx | hx
      . exact plan x hx
      . exact chunkPlan_isKeying _ _ _ _ _ _ _ x hx
    . simp [CwSupervisor.answered, CwSupervisor.withSpeed]
  | replanned transmitting wpm out hsend hact harm _ _ _ hplan =>
    obtain ⟨_, clamped, plan, _⟩ := hs.of_sending hact
    refine Shape.sending rfl (withSpeed_arm harm) clamped ?_ ?_
    . intro x hx
      rw [hplan, List.mem_append, List.mem_flatMap, List.mem_singleton] at hx
      rcases hx with ⟨y, _, hx⟩ | rfl
      . exact replan.paced_isKeying _ _ x hx
      . rfl
    . simp [CwSupervisor.answered, CwSupervisor.withSpeed]
  | sameSpeed transmitting wpm out hact harm same =>
    obtain ⟨_, clamped, plan, _⟩ := hs.of_sending hact
    exact .sending hact harm clamped plan (by simp [CwSupervisor.answered])
  | sendAnswer outcome out _ _ _ hact =>
    obtain ⟨⟨a, harm⟩, clamped, plan, _⟩ := hs.of_sending hact
    exact .sending hact harm clamped plan (by simp [CwSupervisor.answered])
  | sent out hact harm =>
    obtain ⟨_, clamped, plan, _⟩ := hs.of_sending hact
    exact .sending rfl rfl clamped plan (by simp [CwSupervisor.answered])
  | sentLate out hact =>
    obtain ⟨⟨a, harm⟩, clamped, plan, _⟩ := hs.of_stopping hact
    exact .stopping hact harm clamped plan (by simp [CwSupervisor.answered])
  | busy out => exact hs.busy out _
  | silenced out =>
    obtain ⟨job, why, message, after, hact⟩ := hs.of_stop out
    obtain ⟨⟨a, harm⟩, clamped, plan, _⟩ := hs.of_stopping hact
    exact .stopping hact harm clamped plan (by simp [CwSupervisor.answered])
  | stopAnswered outcome out _ _ hact =>
    obtain ⟨⟨a, harm⟩, clamped, plan, _⟩ := hs.of_stopping hact
    exact .stopping hact harm clamped plan (by simp [CwSupervisor.answered])
  | stopFailed outcome out _ _ hact =>
    obtain ⟨⟨a, harm⟩, clamped, _⟩ := hs.of_stopping hact
    refine Shape.stopping hact harm clamped ?_ ?_
    . simp [Step.isStopping]
    . simp [CwSupervisor.answered]
  | overClamp out above hact harm =>
    apply startRestore_shape
    simp [CwSupervisor.answered]
  | restoreAnswer outcome out _ _ hact =>
    obtain ⟨harm, plan, _⟩ := hs.of_restoring hact
    exact .restoring hact harm plan (by simp [CwSupervisor.answered])
  | restoreFailed outcome error r out _ _ hact =>
    obtain ⟨harm, _⟩ := hs.of_restoring hact
    exact .restoring rfl harm (by simp) (by simp [CwSupervisor.answered])

def Unfinished (s : CwSupervisor) : Prop :=
  ∀ job why message after, s.activity = .stopping job why message after → why ≠ .completed

theorem Move.unfinished (hI : Unfinished s) (h : Move env now s evs s') : Unfinished s' := by
  intro job why message after hact'
  cases h with
  | stop _ _ _ _ _ hreason =>
    cases hact'
    exact hreason
  | stopAnswer =>
    cases hact'
    simp
  | endStopping _ _ hact =>
    cases hact'
    exact hI _ _ _ _ hact
  | _ =>
    first
    | exact hI _ _ _ _ hact'
    | cases hact'

end Cw
