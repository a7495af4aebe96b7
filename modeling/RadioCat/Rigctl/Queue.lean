import RadioCat.Trace.Latest
import RadioCat.Trace.Machine

/-!
This module contains the queue through which the consoles' commands reach the radio: a set that is
still queued is superseded by a newer one for the same control, the pump takes the queue as a whole,
applies what it took, and answers afterwards.
-/

namespace Rigctl

namespace Queue

open Trace

-- `μ`, `κ` and `δ` are the modes, the kinds of meter and the kinds of device.
inductive Command (μ κ δ : Type) where
  | setFrequency (vfo : UInt8) (hz : UInt64)
  | setMode (mode : μ)
  | setSplit (enabled : Bool)
  | setMemoryChannel (channel : UInt16)
  | setFilterWidth (hz : UInt32)
  | setIfShift (hz : Int32)
  | readMeter (kind : κ)
  | retune (hz : UInt64)
  | readDevices
  | attachDevice (kind : δ) (spec : String)
  | readState
  | setKeyerSpeed (wpm : UInt16)
  | armCwTransmit (callsign : String) (dummyLoadAcknowledged : Bool) (keyDownCapS : Option UInt16)
  | sendCwText (text : String)
  | abortCw
  | disarmCw

inductive Slot where
  | frequency (vfo : UInt8)
  | mode
  | split
  | memoryChannel
  | filterWidth
  | ifShift
  | retune
  | keyerSpeed
  deriving DecidableEq, Repr

section

variable {μ κ δ : Type}

def Slot.of : Command μ κ δ → Option Slot
  | .setFrequency vfo _ => some (.frequency vfo)
  | .setMode _ => some .mode
  | .setSplit _ => some .split
  | .setMemoryChannel _ => some .memoryChannel
  | .setFilterWidth _ => some .filterWidth
  | .setIfShift _ => some .ifShift
  | .retune _ => some .retune
  | .readMeter _ | .readState | .readDevices | .attachDevice _ _ => none
  | .setKeyerSpeed _ => some .keyerSpeed
  | .armCwTransmit _ _ _ | .sendCwText _ | .abortCw | .disarmCw => none

end

-- The submission stands for its reply channel.
structure Pending (μ κ δ : Type) where
  id : Nat
  command : Command μ κ δ

structure Bridge (μ κ δ : Type) where
  queue : List (Pending μ κ δ) := []
  taken : List (Pending μ κ δ) := []
  results : List (Nat × Except String Unit) := []
  nextId : Nat := 0

/-- How the pump finds the radio when the turn of a command has come. -/
structure Moment where
  blocksExternalPtt : Bool
  servesCw : Bool
  result : Except String Unit

inductive Action (μ κ δ : Type) where
  | enqueue (command : Command μ κ δ)
  | takeQueued
  | apply (moment : Moment)
  | reply

inductive Event (μ κ δ : Type) where
  | submitted (id : Nat) (command : Command μ κ δ)
  | superseded (id : Nat)
  | applied (id : Nat) (command : Command μ κ δ) (result : Except String Unit)
  | answered (id : Nat) (result : Except String Unit)

section

variable {μ κ δ : Type}

def applyOne (command : Command μ κ δ) (moment : Moment) : Except String Unit :=
  match command with
  | .setKeyerSpeed _ =>
    if moment.blocksExternalPtt then
      .error "not while CW is armed or sending"
    else if moment.servesCw then
      moment.result
    else
      .error "this radio has no CW control"
  | _ => moment.result

def Pending.slot (p : Pending μ κ δ) : Option Slot :=
  Slot.of p.command

namespace Bridge

def enqueue (s : Bridge μ κ δ) (command : Command μ κ δ) : List (Event μ κ δ) × Bridge μ κ δ :=
  let pending := { id := s.nextId, command }
  match Slot.of command with
  | some slot =>
    (.submitted s.nextId command
        :: (s.queue.filter (·.slot = some slot)).map fun queued => .superseded queued.id,
      { s with
        queue := s.queue.filter (·.slot ≠ some slot) ++ [pending]
        nextId := s.nextId + 1 })
  | none =>
    ([.submitted s.nextId command],
      { s with queue := s.queue ++ [pending], nextId := s.nextId + 1 })

/-- The pump takes the queue, applies what it took command by command, and then answers. -/
def machine : Machine (Bridge μ κ δ) (Action μ κ δ) (Event μ κ δ)
  | s, .enqueue command => some (s.enqueue command)
  | s, .takeQueued =>
    match s.taken, s.results with
    | [], [] => some ([], { s with taken := s.queue, queue := [] })
    | _, _ => none
  | s, .apply moment =>
    match s.taken with
    | [] => none
    | p :: taken =>
      let result := applyOne p.command moment
      some ([.applied p.id p.command result],
        { s with taken, results := s.results ++ [(p.id, result)] })
  | s, .reply =>
    match s.taken, s.results with
    | [], (id, result) :: results => some ([.answered id result], { s with results })
    | _, _ => none

theorem enqueue_eq (s : Bridge μ κ δ) (command : Command μ κ δ)
    : s.enqueue command
      = (.submitted s.nextId command
          :: (Latest.superseded Pending.slot s.queue { id := s.nextId, command }).map
            fun queued => .superseded queued.id,
        { s with
          queue := Latest.push Pending.slot s.queue { id := s.nextId, command }
          nextId := s.nextId + 1 }) := by
  have hslot : Pending.slot { id := s.nextId, command } = Slot.of command := rfl
  cases hkey : Slot.of command with
  | none =>
    rw [hkey] at hslot
    simp [enqueue, hkey, Latest.superseded_none hslot, Latest.push, Latest.kept_none hslot]
  | some slot =>
    rw [hkey] at hslot
    simp [enqueue, hkey, Latest.superseded, Latest.push, Latest.kept, Latest.contends_some hslot]

end Bridge

abbrev Log (μ κ δ : Type) := List (Event μ κ δ)

def submissions (log : Log μ κ δ) : List (Pending μ κ δ) :=
  told (fun | .submitted id command => some { id, command } | _ => none) log

def executed (log : Log μ κ δ) : List (Pending μ κ δ) :=
  told (fun | .applied id command _ => some { id, command } | _ => none) log

def outcomes (log : Log μ κ δ) : List (Nat × Except String Unit) :=
  told (fun | .applied id _ result => some (id, result) | _ => none) log

def replies (log : Log μ κ δ) : List (Nat × Except String Unit) :=
  told (fun | .answered id result => some (id, result) | _ => none) log

def supersessions (log : Log μ κ δ) : List Nat :=
  told (fun | .superseded id => some id | _ => none) log

namespace Bridge

/-- What has been and what will be sent to the radio, in that order. -/
def stream (log : Log μ κ δ) (s : Bridge μ κ δ) : List (Pending μ κ δ) :=
  executed log ++ s.taken ++ s.queue

structure Coalesced (log : Log μ κ δ) (s : Bridge μ κ δ) : Prop where
  oneEach : (s.queue.filterMap Pending.slot).Nodup
  ids : (submissions log).map Pending.id = List.range s.nextId
  ordered : (stream log s).Sublist (submissions log)
  accounted : (supersessions log ++ (stream log s).map Pending.id).Perm
    ((submissions log).map Pending.id)
  ownResult : replies log ++ s.results = outcomes log
  outcome : (outcomes log).map Prod.fst = (executed log).map Pending.id
  values {ν : Type} (val : Command μ κ δ → ν) (regs : Slot → Option ν)
    : Latest.writeAll Pending.slot (val ·.command) regs (stream log s)
      = Latest.writeAll Pending.slot (val ·.command) regs (submissions log)

theorem Coalesced.initial : Coalesced (μ := μ) (κ := κ) (δ := δ) [] {} where
  oneEach := List.nodup_nil
  ids := rfl
  ordered := List.Sublist.refl []
  accounted := List.Perm.refl []
  ownResult := rfl
  outcome := rfl
  values _ _ := rfl

section

variable {log : Log μ κ δ} {s t : Bridge μ κ δ}

theorem submissions_enqueue (s : Bridge μ κ δ) (command : Command μ κ δ)
    : submissions ((s.enqueue command).1.reverse ++ log)
      = submissions log ++ [{ id := s.nextId, command }] := by
  rw [submissions, told_append, enqueue_eq]
  simp [submissions, List.filterMap_map]

theorem supersessions_enqueue (s : Bridge μ κ δ) (command : Command μ κ δ)
    : supersessions ((s.enqueue command).1.reverse ++ log)
      = supersessions log ++ (Latest.superseded Pending.slot s.queue
        { id := s.nextId, command }).map Pending.id := by
  rw [supersessions, told_append, enqueue_eq]
  simp [supersessions, List.filterMap_map]

theorem executed_enqueue (s : Bridge μ κ δ) (command : Command μ κ δ)
    : executed ((s.enqueue command).1.reverse ++ log) = executed log := by
  rw [executed, told_append, enqueue_eq]
  simp [executed, List.filterMap_map]

theorem outcomes_enqueue (s : Bridge μ κ δ) (command : Command μ κ δ)
    : outcomes ((s.enqueue command).1.reverse ++ log) = outcomes log := by
  rw [outcomes, told_append, enqueue_eq]
  simp [outcomes, List.filterMap_map]

theorem replies_enqueue (s : Bridge μ κ δ) (command : Command μ κ δ)
    : replies ((s.enqueue command).1.reverse ++ log) = replies log := by
  rw [replies, told_append, enqueue_eq]
  simp [replies, List.filterMap_map]

theorem stream_enqueue (s : Bridge μ κ δ) (command : Command μ κ δ)
    : stream ((s.enqueue command).1.reverse ++ log) (s.enqueue command).2
      = executed log ++ s.taken
        ++ Latest.push Pending.slot s.queue { id := s.nextId, command } := by
  rw [stream, executed_enqueue, enqueue_eq]

theorem Coalesced.enqueue (h : Coalesced log s) (command : Command μ κ δ)
    : Coalesced ((s.enqueue command).1.reverse ++ log) (s.enqueue command).2 where
  oneEach := by
    rw [enqueue_eq]
    apply Latest.nodup_push h.oneEach
  ids := by
    rw [submissions_enqueue, List.map_append, h.ids, enqueue_eq]
    exact List.range_succ.symm
  ordered := by
    rw [submissions_enqueue, stream_enqueue, Latest.push, ← List.append_assoc]
    apply List.Sublist.append_right
    apply List.Sublist.trans _ h.ordered
    apply List.Sublist.append_left
    exact Latest.kept_sublist
  accounted := by
    rw [submissions_enqueue, supersessions_enqueue, stream_enqueue]
    apply List.perm_iff_count.mpr
    intro id
    have hold := List.perm_iff_count.mp h.accounted id
    have hperm : (Latest.superseded Pending.slot s.queue { id := s.nextId, command }
        ++ Latest.kept Pending.slot s.queue { id := s.nextId, command }).Perm s.queue :=
      Latest.superseded_perm_kept
    have hqueue := (hperm.map Pending.id).count_eq id
    simp only [stream, Latest.push, List.map_append, List.count_append] at hold hqueue ⊢
    omega
  ownResult := by
    rw [replies_enqueue, outcomes_enqueue, ← h.ownResult, enqueue_eq]
  outcome := by
    rw [outcomes_enqueue, executed_enqueue, h.outcome]
  values := by
    intro ν val regs
    rw [submissions_enqueue, stream_enqueue, Latest.writeAll_append, Latest.writeAll_push,
      ← Latest.writeAll_append, ← List.append_assoc, Latest.writeAll_append,
      Latest.writeAll_append regs (submissions log), ← h.values]
    rfl

theorem Coalesced.moved (h : Coalesced log s) (evs : Log μ κ δ) (t : Bridge μ κ δ)
    (hevs : ∀ e ∈ evs, (∃ id command result, e = .applied id command result)
      ∨ ∃ id result, e = .answered id result)
    (hstream : stream (evs.reverse ++ log) t = stream log s)
    (hqueue : t.queue.Sublist s.queue)
    (hnext : t.nextId = s.nextId)
    (hreplies : replies (evs.reverse ++ log) ++ t.results = outcomes (evs.reverse ++ log))
    (houtcome : (outcomes (evs.reverse ++ log)).map Prod.fst
      = (executed (evs.reverse ++ log)).map Pending.id)
    : Coalesced (evs.reverse ++ log) t := by
  have hsubmissions : submissions (evs.reverse ++ log) = submissions log := by
    rw [submissions, told_append, List.filterMap_eq_nil_iff.mpr, List.append_nil]
    . rfl
    . intro e he
      rcases hevs e he with ⟨_, _, _, rfl⟩ | ⟨_, _, rfl⟩ <;> rfl
  have hsupersessions : supersessions (evs.reverse ++ log) = supersessions log := by
    rw [supersessions, told_append, List.filterMap_eq_nil_iff.mpr, List.append_nil]
    . rfl
    . intro e he
      rcases hevs e he with ⟨_, _, _, rfl⟩ | ⟨_, _, rfl⟩ <;> rfl
  constructor
  case oneEach => exact h.oneEach.sublist (hqueue.filterMap Pending.slot)
  case ids => rw [hsubmissions, hnext, h.ids]
  case ordered =>
    rw [hstream, hsubmissions]
    exact h.ordered
  case accounted =>
    rw [hstream, hsubmissions, hsupersessions]
    exact h.accounted
  case ownResult => exact hreplies
  case outcome => exact houtcome
  case values =>
    intro ν val regs
    rw [hstream, hsubmissions, h.values]

theorem Coalesced.takeQueued (h : Coalesced log s) (htaken : s.taken = [])
    : Coalesced log { s with taken := s.queue, queue := [] } := by
  apply h.moved []
  . simp
  . simp [stream, htaken]
  . apply List.nil_sublist
  . rfl
  . exact h.ownResult
  . exact h.outcome

theorem Coalesced.apply (h : Coalesced log s) {p : Pending μ κ δ} {rest : List (Pending μ κ δ)}
    (htaken : s.taken = p :: rest) (result : Except String Unit)
    : Coalesced (.applied p.id p.command result :: log)
      { s with taken := rest, results := s.results ++ [(p.id, result)] } := by
  have hexecuted : executed (.applied p.id p.command result :: log) = executed log ++ [p] :=
    told_cons _ _ _
  have houtcomes : outcomes (.applied p.id p.command result :: log)
      = outcomes log ++ [(p.id, result)] :=
    told_cons _ _ _
  have hreplies : replies (.applied p.id p.command result :: log) = replies log :=
    (told_cons _ _ _).trans (List.append_nil _)
  apply h.moved [.applied p.id p.command result]
  . simp
  . simp [stream, hexecuted, htaken]
  . apply List.Sublist.refl
  . rfl
  . simp [hreplies, houtcomes, ← h.ownResult]
  . simp [houtcomes, hexecuted, h.outcome]

theorem Coalesced.reply (h : Coalesced log s) {id : Nat} {result : Except String Unit}
    {rest : List (Nat × Except String Unit)} (hresults : s.results = (id, result) :: rest)
    : Coalesced (.answered id result :: log) { s with results := rest } := by
  have hexecuted : executed (.answered id result :: log) = executed log :=
    (told_cons _ _ _).trans (List.append_nil _)
  have houtcomes : outcomes (.answered id result :: log) = outcomes log :=
    (told_cons _ _ _).trans (List.append_nil _)
  have hreplies : replies (.answered id result :: log) = replies log ++ [(id, result)] :=
    told_cons _ _ _
  apply h.moved [.answered id result]
  . simp
  . simp [stream, hexecuted]
  . apply List.Sublist.refl
  . rfl
  . simp [hreplies, houtcomes, ← h.ownResult, hresults]
  . simp [houtcomes, hexecuted, h.outcome]

theorem Coalesced.step {a : Action μ κ δ} {evs : Log μ κ δ} (h : Coalesced log s)
    (taken : machine s a = some (evs, t)) : Coalesced (evs.reverse ++ log) t := by
  revert taken
  fun_cases machine s a
  case case1 command =>
    intro taken
    have hstep := h.enqueue command
    rw [Option.some.inj taken] at hstep
    exact hstep
  case case2 hresults htaken =>
    rintro ⟨⟩
    exact h.takeQueued htaken
  case case5 moment p rest result htaken =>
    rintro ⟨⟩
    exact h.apply htaken result
  case case6 id result rest hresults htaken =>
    rintro ⟨⟩
    exact h.reply hresults
  all_goals rintro ⟨⟩

def owed (s : Bridge μ κ δ) : List Nat :=
  s.results.map Prod.fst ++ s.taken.map Pending.id ++ s.queue.map Pending.id

/-- The steps of the pump, with the radio as `moments` says when the turn of a command comes. -/
def pumping (moments : Nat → Moment) : Discipline (Bridge μ κ δ) (Action μ κ δ)
  | _, .enqueue _ => False
  | s, .apply moment => ∀ p ∈ s.taken.head?, moment = moments p.id
  | _, _ => True

variable (moments : Nat → Moment)

theorem runs_apply (s : Bridge μ κ δ)
    : ∃ log t, Machine.Runs machine (pumping moments) s log t ∧
      t.taken = [] ∧ t.queue = s.queue := by
  induction hn : s.taken generalizing s with
  | nil => exact ⟨[], s, Exec.refl s, hn, rfl⟩
  | cons p rest ih =>
    let result := applyOne p.command (moments p.id)
    have hfirst : Machine.Step machine (pumping moments) s [.applied p.id p.command result]
        { s with taken := rest, results := s.results ++ [(p.id, result)] } := by
      apply Machine.Step.act (.apply (moments p.id))
      . simp [pumping, hn]
      . simp only [machine, hn, result]
    rcases ih { s with taken := rest, results := s.results ++ [(p.id, result)] } rfl
      with ⟨log, t, hruns, htaken, hqueue⟩
    exact ⟨_, t, (Exec.single hfirst).trans hruns, htaken, hqueue⟩

theorem runs_reply (s : Bridge μ κ δ) (htaken : s.taken = [])
    : ∃ log t, Machine.Runs machine (pumping moments) s log t
      ∧ t.results = [] ∧ t.taken = [] ∧ t.queue = s.queue := by
  induction hn : s.results generalizing s with
  | nil => exact ⟨[], s, Exec.refl s, hn, htaken, rfl⟩
  | cons first rest ih =>
    have hfirst : Machine.Step machine (pumping moments) s [.answered first.1 first.2]
        { s with results := rest } := by
      apply Machine.Step.act .reply trivial
      simp only [machine, htaken, hn]
    rcases ih { s with results := rest } htaken rfl with ⟨log, t, hruns, hresults, htaken', hqueue⟩
    exact ⟨_, t, (Exec.single hfirst).trans hruns, hresults, htaken', hqueue⟩

/-- The pump alone answers everybody: it ends what it has taken, and takes the queue. -/
theorem runs_settle (s : Bridge μ κ δ)
    : ∃ log t, Machine.Runs machine (pumping moments) s log t ∧ t.owed = [] := by
  rcases runs_apply moments s with ⟨log₁, s₁, happly, htaken₁, _⟩
  rcases runs_reply moments s₁ htaken₁ with ⟨log₂, s₂, hreply, hresults₂, htaken₂, _⟩
  have htake : Machine.Step machine (pumping moments) s₂ []
      { s₂ with taken := s₂.queue, queue := [] } := by
    apply Machine.Step.act .takeQueued trivial
    simp only [machine, htaken₂, hresults₂]
  rcases runs_apply moments { s₂ with taken := s₂.queue, queue := [] }
    with ⟨log₃, s₃, happly', htaken₃, hqueue₃⟩
  rcases runs_reply moments s₃ htaken₃ with ⟨log₄, s₄, hreply', hresults₄, htaken₄, hqueue₄⟩
  refine ⟨_, s₄,
    (((happly.trans hreply).trans (Exec.single htake)).trans happly').trans hreply', ?_⟩
  simp [owed, hresults₄, htaken₄, hqueue₄, hqueue₃]

theorem Coalesced.answers (h : Coalesced log s)
    : (supersessions log ++ (replies log).map Prod.fst ++ s.owed).Perm
      ((submissions log).map Pending.id) := by
  apply List.Perm.trans _ h.accounted
  have hexecuted : (replies log).map Prod.fst ++ s.results.map Prod.fst
      = (executed log).map Pending.id := by
    rw [← List.map_append, h.ownResult, h.outcome]
  rw [stream, List.map_append, List.map_append, ← hexecuted, owed]
  simp only [List.append_assoc]
  exact List.Perm.refl _

/-- In every run: at most one command is queued for each slot; the commands go out in the order of
their submission; every submitter is answered once, with `SUPERSEDED` or with what became of its
own command, and if not yet then the pump alone can do it; and the slots end as if all commands had
been executed. -/
theorem queue_coalesces (h : Machine.Runs machine anything {} log s)
    : (s.queue.filterMap Pending.slot).Nodup
      ∧ (executed log ++ s.taken ++ s.queue).Sublist (submissions log)
      ∧ ((submissions log).map Pending.id).Nodup
      ∧ (supersessions log ++ (replies log).map Prod.fst ++ s.owed).Perm
        ((submissions log).map Pending.id)
      ∧ replies log ++ s.results = outcomes log
      ∧ (∀ moments, ∃ log' t, Machine.Runs machine (pumping moments) s log' t ∧ t.owed = [])
      ∧ ∀ (ν : Type) (val : Command μ κ δ → ν) (regs : Slot → Option ν),
        Latest.writeAll Pending.slot (val ·.command) regs (executed log ++ s.taken ++ s.queue)
          = Latest.writeAll Pending.slot (val ·.command) regs (submissions log) := by
  have hI : Coalesced log s := by
    apply Machine.Runs.invariant Coalesced .initial _ h
    intro _ _ _ _ _ hI _ taken
    exact hI.step taken
  have hids : ((submissions log).map Pending.id).Nodup := by
    rw [hI.ids]
    exact List.nodup_range
  exact ⟨hI.oneEach, hI.ordered, hids, hI.answers, hI.ownResult,
    fun moments => runs_settle moments s, fun _ => hI.values⟩

/-- Two consoles move the dial before the pump comes round, and a third one sets the split. -/
theorem queue_coalesces_dial
    : ∃ (log : Log Unit Unit Unit) (s : Bridge Unit Unit Unit),
      Machine.Runs machine anything {} log s ∧ supersessions log = [0] ∧ replies log = [(1, .ok ())]
        ∧ s.owed = [2]
        ∧ (supersessions log ++ (replies log).map Prod.fst ++ s.owed).Perm
          ((submissions log).map Pending.id) := by
  have hrun : Machine.Runs machine anything ({} : Bridge Unit Unit Unit)
      [.answered 1 (.ok ()), .applied 2 (.setFrequency 0 14) (.error "no answer"),
        .applied 1 (.setSplit true) (.ok ()), .superseded 0, .submitted 2 (.setFrequency 0 14),
        .submitted 1 (.setSplit true), .submitted 0 (.setFrequency 0 7)]
      { results := [(2, .error "no answer")], nextId := 3 } := by
    exact Machine.runs_play [.enqueue (.setFrequency 0 7), .enqueue (.setSplit true),
      .enqueue (.setFrequency 0 14), .takeQueued, .apply ⟨false, false, .ok ()⟩,
      .apply ⟨false, false, .error "no answer"⟩, .reply] rfl
  exact ⟨_, _, hrun, rfl, rfl, rfl, (queue_coalesces hrun).2.2.2.1⟩

end

end Bridge

end

end Queue

end Rigctl
