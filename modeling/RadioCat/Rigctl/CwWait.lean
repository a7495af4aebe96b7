import RadioCat.Cw.Safety.Grant
import RadioCat.Trace.Machine

/-!
This module contains the consoles that wait for the supervisor beside the pump that routes its
notices: a console asks and waits on a channel of its own, for a limited time, and the pump sends
each reply to the console that waits for it. An arm whose console is gone is released.
-/

namespace Rigctl.CwWait

open Trace Cw

structure CwWaiter where
  owner : ConsoleId
  isArm : Bool
  deriving DecidableEq, Repr

/-- The console's end of the channel. Once the wait has timed out, a reply can still be sent until
the console drops its end. -/
inductive Receiver where
  | waiting (isArm : Bool) (buffer : Option (Except HostRefusal Unit))
  | timedOut (isArm : Bool)
  | late
  | done

def Receiver.isTimedOut : Receiver → Bool
  | timedOut _ => true
  | _ => false

-- The reply is in the hands of the console, or will be once the console looks.
def Receiver.hears : Receiver → Bool
  | waiting _ (some _) | done => true
  | _ => false

structure Shared where
  timed : Timed
  waiters : Ticket → Option CwWaiter := fun _ => none
  receivers : Ticket → Receiver := fun _ => .done
  -- What the pump still has to do of a call that routes notices.
  routing : List CwNotice := []
  abandoned : List ConsoleId := []

inductive Action where
  | arm (owner : ConsoleId) (callsign : Text) (keyDownCapS : Option Nat) (t : Instant)
  | disarm (owner : ConsoleId) (t : Instant)
  | console (c : Call) (t : Instant)
  | nextAction (t : Instant)
  | complete (outcome : CwOutcome) (t : Instant)
  | takeNotices (t : Instant)
  | route
  | release (t : Instant)
  | receive (ticket : Ticket)
  | timeout (ticket : Ticket)
  | drop (ticket : Ticket)

inductive Event where
  | cw (e : Cw.Entry)
  | refused (owner : ConsoleId) (refusal : HostRefusal)
  | routed (n : CwNotice)
  | answered (ticket : Ticket) (result : Except HostRefusal Unit)
  | late (ticket : Ticket) (refusal : HostRefusal)

def isPrompt : Call → Bool
  | .send .. | .abort | .detached _ | .shutdown => true
  | _ => false

def lateRefusal (isArm : Bool) : HostRefusal where
  code := .outOfRange
  message :=
    if isArm then
      "the radio did not finish arming in time; the arm will be released"
    else
      "the restore has not finished; the server keeps trying"

namespace Shared

variable (env : Env)

def call (c : Call) (t : Instant) (s : Shared) : List Event × Shared :=
  (((c.shown env t s.timed.sup).map (Entry.mk t)).map .cw,
    { s with timed := ⟨t, (c.run env t s.timed.sup).1⟩ })

def listen (s : Shared) (ticket : Ticket) (w : CwWaiter) : Shared :=
  { s with
    waiters := Function.update s.waiters ticket (some w)
    receivers := Function.update s.receivers ticket (.waiting w.isArm none) }

/-- The waiter is registered under the lock that the request is made under. -/
def cwWait (w : CwWaiter) (c : Call) (request : Except HostRefusal Ticket) (t : Instant)
    (s : Shared) : List Event × Shared :=
  let res := s.call env c t
  match request with
  | .ok ticket => (res.1, res.2.listen ticket w)
  | .error refusal => (res.1 ++ [.refused w.owner refusal], res.2)

/-- Send a reply to whoever waits for it. The channel holds one reply, and a second one would have
to wait for the console. -/
def send (s : Shared) (ticket : Ticket) (result : Except HostRefusal Unit) : Option Shared :=
  match s.waiters ticket with
  | none => some s
  | some w =>
    let s := { s with waiters := Function.update s.waiters ticket none }
    match s.receivers ticket with
    | .waiting isArm none =>
      some { s with
        receivers := Function.update s.receivers ticket (.waiting isArm (some result)) }
    | .waiting _ (some _) => none
    | .timedOut _ => some s
    | .late | .done =>
      if w.isArm && result.isOk then
        some { s with abandoned := s.abandoned ++ [w.owner] }
      else
        some s

def machine : Machine Shared Action Event
  | s, .arm owner callsign keyDownCapS t =>
    if s.timed.now ≤ t then
      some (s.cwWait env ⟨owner, true⟩ (.arm owner callsign keyDownCapS)
        (Cw.arm s.timed.sup owner callsign keyDownCapS).2 t)
    else
      none
  | s, .disarm owner t =>
    if s.timed.now ≤ t then
      some (s.cwWait env ⟨owner, false⟩ (.disarm owner) (Cw.disarm s.timed.sup owner).2 t)
    else
      none
  | s, .console c t =>
    if isPrompt c = true ∧ s.timed.now ≤ t then
      some (s.call env c t)
    else
      none
  | s, .nextAction t =>
    if (s.routing = [] ∧ s.abandoned = []) ∧ s.timed.now ≤ t then
      some (s.call env .nextAction t)
    else
      none
  | s, .complete outcome t =>
    if (s.routing = [] ∧ s.abandoned = []) ∧ s.timed.now ≤ t then
      some (s.call env (.complete outcome) t)
    else
      none
  | s, .takeNotices t =>
    if (s.routing = [] ∧ s.abandoned = []) ∧ s.timed.now ≤ t then
      let res := s.call env .takeNotices t
      some (res.1, { res.2 with routing := s.timed.sup.notices })
    else
      none
  | s, .route =>
    match s.routing with
    | [] => none
    | .reply ticket result :: routing =>
      match { s with routing }.send ticket result with
      | some s => some ([.routed (.reply ticket result)], s)
      | none => none
    | n :: routing => some ([.routed n], { s with routing })
  | s, .release t =>
    match s.routing, s.abandoned with
    | [], owner :: abandoned =>
      if s.timed.now ≤ t then
        let res := s.call env (.disarm owner) t
        some (res.1, { res.2 with abandoned })
      else
        none
    | _, _ => none
  | s, .receive ticket =>
    match s.receivers ticket with
    | .waiting _ (some result) =>
      some ([.answered ticket result],
        { s with receivers := Function.update s.receivers ticket .done })
    | _ => none
  | s, .timeout ticket =>
    match s.receivers ticket with
    | .waiting isArm none =>
      some ([], { s with receivers := Function.update s.receivers ticket (.timedOut isArm) })
    | _ => none
  | s, .drop ticket =>
    match s.receivers ticket with
    | .timedOut isArm =>
      some ([.late ticket (lateRefusal isArm)],
        { s with receivers := Function.update s.receivers ticket .late })
    | _ => none

end Shared

def cwLog (log : List Event) : Cw.Log :=
  log.filterMap fun
    | .cw e => some e
    | _ => none

def Event.told : Event → Option CwNotice
  | .routed n => some n
  | _ => none

def lates (log : List Event) : List (Ticket × HostRefusal) :=
  told (fun
    | .late ticket refusal => some (ticket, refusal)
    | _ => none) log

-- Every notice has been routed, and every arm that was abandoned is released.
def Shared.Settled (s : Shared) : Prop :=
  s.timed.sup.notices = [] ∧ s.routing = [] ∧ s.abandoned = []

instance (s : Shared) : Decidable s.Settled :=
  inferInstanceAs (Decidable (_ ∧ _ ∧ _))

-- The console holds the arm that it asked for with this ticket.
def Holds (log : List Event) (s : Shared) (ticket : Ticket) : Prop :=
  ∃ owner, s.timed.sup.held = some owner ∧ (grant (cwLog log)).granted = some (ticket, owner)

theorem cwLog_append (entries : List Cw.Entry) (log : List Event)
    : cwLog ((entries.map .cw).reverse ++ log) = entries.reverse ++ cwLog log := by
  apply filterMap_embedded
  intro _
  rfl

theorem mem_lates {ticket : Ticket} {refusal : HostRefusal} {log : List Event}
    : (ticket, refusal) ∈ lates log ↔ .late ticket refusal ∈ log := by
  rw [lates, told, List.mem_filterMap]
  constructor
  . rintro ⟨e, hmem, heq⟩
    cases e with
    | late =>
      cases heq
      exact List.mem_reverse.mp hmem
    | _ => cases heq
  . intro hmem
    exact ⟨_, List.mem_reverse.mpr hmem, rfl⟩

theorem told_cw (entries : List Cw.Entry) (log : List Event)
    : told Event.told ((entries.map .cw).reverse ++ log) = told Event.told log := by
  rw [told_append, List.filterMap_map]
  simp [Function.comp_def, Event.told]

namespace Shared

-- The pump is about to grant an arm to a console that timed out and has not dropped its end yet.
def grantsUnheard (s : Shared) : Bool :=
  match s.routing with
  | .reply ticket (.ok ()) :: _ => (s.receivers ticket).isTimedOut
  | _ => false

def tidy : Discipline Shared Action
  | s, .route => s.grantsUnheard = false
  | _, _ => True

structure Sent (s : Shared) (ticket : Ticket) (result : Except HostRefusal Unit) (s' : Shared)
    : Prop where
  timed : s'.timed = s.timed
  routing : s'.routing = s.routing
  others : ∀ k, k ≠ ticket → s'.waiters k = s.waiters k ∧ s'.receivers k = s.receivers k
  late : s.receivers ticket = .late → s'.receivers ticket = .late
  done : s.receivers ticket = .done → s'.receivers ticket = .done
  abandoned : s.abandoned ⊆ s'.abandoned
  granted : result = .ok () → (s.receivers ticket).isTimedOut = false →
    ∀ owner, s.waiters ticket = some ⟨owner, true⟩ →
      owner ∈ s'.abandoned ∨ (s'.receivers ticket).hears = true

theorem Sent.gone {s : Shared} {ticket : Ticket} {result : Except HostRefusal Unit} {w : CwWaiter}
    (hwaiter : s.waiters ticket = some w) {abandoned : List ConsoleId}
    (habandoned : s.abandoned ⊆ abandoned)
    (hgranted : w.isArm = true → result = .ok () → (s.receivers ticket).isTimedOut = false →
      w.owner ∈ abandoned)
    : Sent s ticket result
      { s with waiters := Function.update s.waiters ticket none, abandoned } where
  timed := rfl
  routing := rfl
  others := by
    intro k hk
    exact ⟨Function.update_of_ne hk _ _, rfl⟩
  late := id
  done := id
  abandoned := habandoned
  granted := by
    intro hok hopen owner howner
    cases hwaiter.symm.trans howner
    left
    exact hgranted rfl hok hopen

theorem send_sent {s s' : Shared} {ticket : Ticket} {result : Except HostRefusal Unit}
    (h : s.send ticket result = some s') : Sent s ticket result s' := by
  have hunsent (w : CwWaiter) (hno : ¬ (w.isArm && result.isOk) = true) (harm : w.isArm = true)
      (hok : result = .ok ()) : False := by
    apply hno
    rw [harm, hok]
    rfl
  revert h
  fun_cases send s ticket result
  case case1 hwaiter =>
    rintro ⟨⟩
    apply Sent.mk rfl rfl _ id id (List.Subset.refl _)
    . intro _ _ _ hsome
      rw [hwaiter] at hsome
      cases hsome
    . intro _ _
      exact ⟨rfl, rfl⟩
  case case2 w hwaiter _ isArm hreceiver =>
    rintro ⟨⟩
    refine Sent.mk rfl rfl ?_ ?_ ?_ (List.Subset.refl _) ?_
    . intro k hk
      exact ⟨Function.update_of_ne hk _ _, Function.update_of_ne hk _ _⟩
    . intro hlate
      cases hreceiver.symm.trans hlate
    . intro hdone
      cases hreceiver.symm.trans hdone
    . intro _ _ _ _
      right
      simp [Receiver.hears]
  case case3 => rintro ⟨⟩
  case case4 w hwaiter _ isArm hreceiver =>
    intro hsent
    rw [← Option.some.inj hsent]
    apply Sent.gone hwaiter (List.Subset.refl _)
    intro _ _ hopen
    rw [hreceiver] at hopen
    cases hopen
  case case5 w hwaiter _ _ _ | case7 w hwaiter _ _ _ =>
    rintro ⟨⟩
    apply Sent.gone hwaiter (List.subset_append_left _ _)
    intro _ _ _
    simp
  case case6 w hwaiter _ _ hno | case8 w hwaiter _ _ hno =>
    intro hsent
    rw [← Option.some.inj hsent]
    apply Sent.gone hwaiter (List.Subset.refl _)
    intro harm hok _
    exact (hunsent w hno harm hok).elim

structure Routed (env : Env) (capability : CwCapability) (config : CwConfig) (log : List Event)
    (s : Shared) : Prop where
  run : Run env capability config (cwLog log) s.timed
  notices : Cw.notices (cwLog log)
    = told Event.told log ++ (s.routing ++ s.timed.sup.notices)
  waits : ∀ owner ticket, (∃ t callsign, ⟨t, .armed owner callsign ticket⟩ ∈ cwLog log) →
    (∀ result, .reply ticket result ∉ told Event.told log) →
    s.waiters ticket = some ⟨owner, true⟩
  known : ∀ ticket, ticket ∉ (cwLog log).total Cw.Event.asked → s.receivers ticket = .done
  heard : ∀ ticket owner, s.timed.sup.held = some owner →
    (grant (cwLog log)).granted = some (ticket, owner) →
    .reply ticket (.ok ()) ∈ told Event.told log →
    owner ∈ s.abandoned ∨ (s.receivers ticket).hears = true
  late : ∀ ticket refusal, .late ticket refusal ∈ log → s.receivers ticket = .late

namespace Routed

variable {env : Env} {capability : CwCapability} {config : CwConfig} {log : List Event}
  {s t : Shared}

theorem start : Routed env capability config [] { timed := ⟨0, new capability config⟩ } where
  run := Exec.refl _
  notices := rfl
  waits := by
    rintro _ _ ⟨_, _, ⟨⟩⟩
  known := by
    intro _ _
    rfl
  heard := by
    rintro _ _ ⟨⟩
  late := by
    rintro _ _ ⟨⟩

theorem asked_of_routed (h : Routed env capability config log s) {ticket : Ticket}
    {result : Except HostRefusal Unit} (hrouted : .reply ticket result ∈ told Event.told log)
    : ticket ∈ (cwLog log).total Cw.Event.asked := by
  apply h.run.asked_of_reply
  rw [h.notices]
  apply List.mem_append_left
  exact hrouted

theorem call (h : Routed env capability config log s) {c : Call} {time : Instant}
    (le : s.timed.now ≤ time) (htimed : t.timed = (s.call env c time).2.timed)
    (hnotices : t.routing ++ t.timed.sup.notices
      = s.routing ++ s.timed.sup.notices ++ Call.emitted s.timed.sup t.timed.sup)
    (hfresh : ∀ ticket,
      (t.waiters ticket = s.waiters ticket ∧ t.receivers ticket = s.receivers ticket) ∨
        ∃ e ∈ c.shown env time s.timed.sup, ticket ∈ e.asked)
    (harmed : ∀ owner callsign ticket,
      .armed owner callsign ticket ∈ c.shown env time s.timed.sup →
      t.waiters ticket = some ⟨owner, true⟩)
    (habandoned : ∀ owner ∈ s.abandoned, owner ∈ t.abandoned ∨ t.timed.sup.held ≠ some owner)
    : Routed env capability config ((s.call env c time).1.reverse ++ log) t := by
  have hstep : CallStep env s.timed _ _ := .call c s.timed time le
  have hrun := h.run.tail hstep
  have hsame : ∀ ticket ∈ (cwLog log).total Cw.Event.asked,
      t.waiters ticket = s.waiters ticket ∧ t.receivers ticket = s.receivers ticket := by
    intro ticket hold
    rcases hfresh ticket with hsame | ⟨e, he, hasked⟩
    . exact hsame
    . exfalso
      apply Run.fresh hrun (List.mem_map_of_mem he) hasked hold
  rw [Shared.call]
  refine
    { run := ?_
      notices := ?_
      waits := ?_
      known := ?_
      heard := ?_
      late := ?_ }
  . rw [cwLog_append, htimed]
    exact hrun
  . rw [cwLog_append, told_cw, notices_call, h.notices, hnotices, htimed, List.append_assoc,
      List.append_assoc, List.append_assoc]
    rfl
  . rw [cwLog_append, told_cw]
    rintro owner ticket ⟨time', callsign, hmem⟩ hunrouted
    rcases List.mem_append.mp hmem with hnew | hold
    . rcases List.mem_map.mp (List.mem_reverse.mp hnew) with ⟨e, he, heq⟩
      cases heq
      exact harmed owner callsign ticket he
    . have hasked : ticket ∈ (cwLog log).total Cw.Event.asked := by
        apply Log.mem_total.mpr
        exact ⟨_, hold, Multiset.mem_singleton_self _⟩
      rw [(hsame ticket hasked).1]
      exact h.waits owner ticket ⟨time', callsign, hold⟩ hunrouted
  . rw [cwLog_append]
    intro ticket hunknown
    rw [Log.mem_total] at hunknown
    rcases hfresh ticket with hsame | ⟨e, he, hasked⟩
    . rw [hsame.2]
      apply h.known
      intro hold
      rcases Log.mem_total.mp hold with ⟨e, he, hasked⟩
      exact hunknown ⟨e, List.mem_append_right _ he, hasked⟩
    . exfalso
      apply hunknown
      refine ⟨⟨time, e⟩, ?_, hasked⟩
      apply List.mem_append_left
      apply List.mem_reverse.mpr
      exact List.mem_map_of_mem he
  . rw [cwLog_append, told_cw, htimed]
    intro ticket owner hheld hgranted hrouted
    have hreply : .reply ticket (.ok ()) ∈ Cw.notices (cwLog log) := by
      rw [h.notices]
      apply List.mem_append_left
      exact hrouted
    have hbefore := h.run.granted_of_reply hstep hreply hgranted hheld
    rw [(hsame ticket (h.asked_of_routed hrouted)).2]
    rcases h.heard ticket owner hbefore.2 hbefore.1 hrouted with hmem | hhears
    . left
      rcases habandoned owner hmem with hstill | hreleased
      . exact hstill
      . rw [htimed] at hreleased
        exact absurd hheld hreleased
    . right
      exact hhears
  . intro ticket refusal hlate
    rcases List.mem_append.mp hlate with hnew | hold
    . rcases List.mem_map.mp (List.mem_reverse.mp hnew) with ⟨_, _, ⟨⟩⟩
    . have hreceiver := h.late ticket refusal hold
      have hasked : ticket ∈ (cwLog log).total Cw.Event.asked := by
        by_contra hunknown
        cases hreceiver.symm.trans (h.known ticket hunknown)
      rw [(hsame ticket hasked).2]
      exact hreceiver

theorem shown (h : Routed env capability config log s) {e : Event}
    (hcw : cwLog (e :: log) = cwLog log) (htold : e.told = none)
    (hlate : ∀ ticket refusal, e = .late ticket refusal → s.receivers ticket = .late)
    : Routed env capability config (e :: log) s := by
  have hsame : told Event.told (e :: log) = told Event.told log := by
    rw [told_cons, htold, Option.toList_none, List.append_nil]
  refine
    { run := ?_
      notices := ?_
      waits := ?_
      known := ?_
      heard := ?_
      late := ?_ }
  . rw [hcw]
    exact h.run
  . rw [hcw, hsame]
    exact h.notices
  . rw [hcw, hsame]
    exact h.waits
  . rw [hcw]
    exact h.known
  . rw [hcw, hsame]
    exact h.heard
  . intro ticket refusal hmem
    rcases List.mem_cons.mp hmem with hnew | hold
    . exact hlate ticket refusal hnew.symm
    . exact h.late ticket refusal hold

theorem unawaited (h : Routed env capability config log s) {c : Call} {time : Instant}
    (le : s.timed.now ≤ time) (htake : c ≠ .takeNotices)
    (harm : ∀ owner callsign keyDownCapS, c ≠ .arm owner callsign keyDownCapS)
    {abandoned : List ConsoleId}
    (habandoned : ∀ owner ∈ s.abandoned,
      owner ∈ abandoned ∨ (c.run env time s.timed.sup).1.held ≠ some owner)
    : Routed env capability config ((s.call env c time).1.reverse ++ log)
      { (s.call env c time).2 with abandoned } := by
  apply h.call le
  . rfl
  . dsimp only [Shared.call]
    rw [Call.notices_eq htake, List.append_assoc]
  . intro _
    left
    exact ⟨rfl, rfl⟩
  . intro owner callsign ticket hmem
    rcases Call.mem_armed hmem with ⟨_, hcall, _⟩
    exact absurd hcall (harm _ _ _)
  . exact habandoned

theorem plain (h : Routed env capability config log s) {c : Call} {time : Instant}
    (le : s.timed.now ≤ time) (htake : c ≠ .takeNotices)
    (harm : ∀ owner callsign keyDownCapS, c ≠ .arm owner callsign keyDownCapS)
    : Routed env capability config ((s.call env c time).1.reverse ++ log)
      (s.call env c time).2 := by
  apply h.unawaited le htake harm
  intro _ hmem
  left
  exact hmem

theorem takeNotices (h : Routed env capability config log s) {time : Instant}
    (le : s.timed.now ≤ time) (hidle : s.routing = [])
    : Routed env capability config ((s.call env .takeNotices time).1.reverse ++ log)
      { (s.call env .takeNotices time).2 with routing := s.timed.sup.notices } := by
  apply h.call le
  . rfl
  . rw [hidle]
    simp [Shared.call, Call.run, Call.emitted, Cw.takeNotices]
  . intro _
    left
    exact ⟨rfl, rfl⟩
  . intro owner callsign ticket hmem
    rcases Call.mem_armed hmem with ⟨_, ⟨⟩, _⟩
  . intro _ hmem
    left
    exact hmem

theorem cwWait (h : Routed env capability config log s) {c : Call} {time : Instant}
    (le : s.timed.now ≤ time) (htake : c ≠ .takeNotices) {w : CwWaiter}
    {request : Except HostRefusal Ticket}
    (hticket : ∀ ticket, request = .ok ticket →
      ∃ e ∈ c.shown env time s.timed.sup, ticket ∈ e.asked)
    (harmed : ∀ owner callsign ticket,
      .armed owner callsign ticket ∈ c.shown env time s.timed.sup →
      request = .ok ticket ∧ w = ⟨owner, true⟩)
    : Routed env capability config ((s.cwWait env w c request time).1.reverse ++ log)
      (s.cwWait env w c request time).2 := by
  have hnotices : s.routing ++ (s.call env c time).2.timed.sup.notices
      = s.routing ++ s.timed.sup.notices
        ++ Call.emitted s.timed.sup (s.call env c time).2.timed.sup := by
    dsimp only [Shared.call]
    rw [Call.notices_eq htake, List.append_assoc]
  have habandoned : ∀ owner ∈ s.abandoned,
      owner ∈ s.abandoned ∨ (s.call env c time).2.timed.sup.held ≠ some owner := by
    intro _ hmem
    left
    exact hmem
  cases request with
  | ok ticket =>
    refine h.call le ?_ hnotices ?_ ?_ habandoned
    . rfl
    . intro k
      by_cases hk : k = ticket
      . right
        rw [hk]
        exact hticket ticket rfl
      . left
        exact ⟨Function.update_of_ne hk _ _, Function.update_of_ne hk _ _⟩
    . intro owner callsign k hmem
      rcases harmed owner callsign k hmem with ⟨⟨⟩, rfl⟩
      apply Function.update_self
  | error refusal =>
    dsimp only [Shared.cwWait]
    rw [List.reverse_append, List.append_assoc]
    apply shown _ rfl rfl
    . rintro _ _ ⟨⟩
    . refine h.call le ?_ hnotices ?_ ?_ habandoned
      . rfl
      . intro _
        left
        exact ⟨rfl, rfl⟩
      . intro owner callsign k hmem
        rcases harmed owner callsign k hmem with ⟨⟨⟩, _⟩

theorem arm (h : Routed env capability config log s) {time : Instant} (le : s.timed.now ≤ time)
    (owner : ConsoleId) (callsign : Text) (keyDownCapS : Option Nat)
    : let res := s.cwWait env ⟨owner, true⟩ (.arm owner callsign keyDownCapS)
        (Cw.arm s.timed.sup owner callsign keyDownCapS).2 time
      Routed env capability config (res.1.reverse ++ log) res.2 := by
  apply h.cwWait le
  . rintro ⟨⟩
  . intro ticket hok
    refine ⟨.armed owner callsign ticket, ?_, Multiset.mem_singleton_self _⟩
    simp [Call.shown, Call.run, hok]
  . intro owner' callsign' ticket hmem
    rcases Call.mem_armed hmem with ⟨_, ⟨⟩, hok⟩
    exact ⟨hok, rfl⟩

theorem disarm (h : Routed env capability config log s) {time : Instant}
    (le : s.timed.now ≤ time) (owner : ConsoleId)
    : let res := s.cwWait env ⟨owner, false⟩ (.disarm owner) (Cw.disarm s.timed.sup owner).2 time
      Routed env capability config (res.1.reverse ++ log) res.2 := by
  apply h.cwWait le
  . rintro ⟨⟩
  . intro ticket hok
    refine ⟨.disarmed owner ticket, ?_, Multiset.mem_singleton_self _⟩
    simp [Call.shown, Call.run, hok]
  . intro owner' callsign ticket hmem
    rcases Call.mem_armed hmem with ⟨_, ⟨⟩, _⟩

theorem release (h : Routed env capability config log s) {time : Instant}
    (le : s.timed.now ≤ time) {owner : ConsoleId} {abandoned : List ConsoleId}
    (habandoned : s.abandoned = owner :: abandoned)
    : Routed env capability config ((s.call env (.disarm owner) time).1.reverse ++ log)
      { (s.call env (.disarm owner) time).2 with abandoned } := by
  apply h.unawaited le
  . rintro ⟨⟩
  . rintro _ _ _ ⟨⟩
  . intro owner' hmem
    rw [habandoned] at hmem
    cases hmem with
    | head =>
      right
      apply disarm_held h.run.shape
    | tail _ hmem =>
      left
      exact hmem

theorem receiver (h : Routed env capability config log s) {ticket : Ticket} {r : Receiver}
    (hdone : s.receivers ticket ≠ .done) (hlate : s.receivers ticket ≠ .late)
    (hhears : (s.receivers ticket).hears = true → r.hears = true)
    : Routed env capability config log
      { s with receivers := Function.update s.receivers ticket r } := by
  refine
    { run := h.run
      notices := h.notices
      waits := h.waits
      known := ?_
      heard := ?_
      late := ?_ }
  . intro k hunknown
    have hk := h.known k hunknown
    dsimp only
    rw [Function.update_of_ne _ _ _, hk]
    rintro rfl
    exact hdone hk
  . intro k owner hheld hgranted hrouted
    rcases h.heard k owner hheld hgranted hrouted with hmem | hheard
    . left
      exact hmem
    . right
      by_cases hk : k = ticket
      . subst hk
        dsimp only
        rw [Function.update_self]
        exact hhears hheard
      . dsimp only
        rw [Function.update_of_ne hk]
        exact hheard
  . intro k refusal hmem
    have hk := h.late k refusal hmem
    dsimp only
    rw [Function.update_of_ne _ _ _, hk]
    rintro rfl
    exact hlate hk

theorem unrouted (h : Routed env capability config log s) {ticket : Ticket}
    {result : Except HostRefusal Unit} {routing : List CwNotice}
    (hrouting : s.routing = .reply ticket result :: routing) (result' : Except HostRefusal Unit)
    : .reply ticket result' ∉ told Event.told log := by
  intro hmem
  have hnodup := h.run.tickets_nodup
  rw [h.notices, hrouting] at hnodup
  apply reply_notMem_of_nodup hnodup hmem
  apply List.mem_cons_self

theorem told_routed (n : CwNotice) (log : List Event)
    : told Event.told (.routed n :: log) = told Event.told log ++ [n] := by
  apply told_cons

theorem notices_routed (h : Routed env capability config log s) {n : CwNotice}
    {routing : List CwNotice} (hrouting : s.routing = n :: routing)
    : Cw.notices (cwLog (.routed n :: log))
      = told Event.told (.routed n :: log) ++ (routing ++ s.timed.sup.notices) := by
  rw [told_routed, List.append_assoc]
  apply h.notices.trans
  rw [hrouting]
  rfl

theorem logNotice (h : Routed env capability config log s) {n : CwNotice}
    {routing : List CwNotice} (hrouting : s.routing = n :: routing)
    (hn : ∀ ticket result, n ≠ .reply ticket result)
    : Routed env capability config (.routed n :: log) { s with routing } where
  run := h.run
  notices := h.notices_routed hrouting
  waits := by
    intro owner ticket harmed hunrouted
    apply h.waits owner ticket harmed
    intro result hmem
    apply hunrouted result
    rw [told_routed]
    exact List.mem_append_left _ hmem
  known := h.known
  heard := by
    intro ticket owner hheld hgranted hrouted
    apply h.heard ticket owner hheld hgranted
    rw [told_routed] at hrouted
    rcases List.mem_append.mp hrouted with hold | hnew
    . exact hold
    . exact absurd (List.mem_singleton.mp hnew).symm (hn _ _)
  late := by
    rintro ticket refusal (_ | ⟨_, hmem⟩)
    exact h.late ticket refusal hmem

theorem reply (h : Routed env capability config log s) {ticket : Ticket}
    {result : Except HostRefusal Unit} {routing : List CwNotice}
    (hrouting : s.routing = .reply ticket result :: routing)
    (hopen : result = .ok () → (s.receivers ticket).isTimedOut = false)
    (hsent : Sent { s with routing } ticket result t)
    : Routed env capability config (.routed (.reply ticket result) :: log) t := by
  have hunrouted := h.unrouted hrouting
  refine
    { run := ?_
      notices := ?_
      waits := ?_
      known := ?_
      heard := ?_
      late := ?_ }
  . rw [hsent.timed]
    exact h.run
  . rw [hsent.timed, hsent.routing]
    exact h.notices_routed hrouting
  . intro owner k harmed hleft
    rw [told_routed] at hleft
    have hk : k ≠ ticket := by
      rintro rfl
      apply hleft result
      simp
    rw [(hsent.others k hk).1]
    apply h.waits owner k harmed
    intro result' hmem
    exact hleft result' (List.mem_append_left _ hmem)
  . intro k hunknown
    have hdone := h.known k hunknown
    by_cases hk : k = ticket
    . subst hk
      exact hsent.done hdone
    . rw [(hsent.others k hk).2]
      exact hdone
  . rw [told_routed, hsent.timed]
    intro k owner hheld hgranted hrouted
    rcases List.mem_append.mp hrouted with hold | hnew
    . have hk : k ≠ ticket := by
        rintro rfl
        exact hunrouted _ hold
      rw [(hsent.others k hk).2]
      rcases h.heard k owner hheld hgranted hold with hmem | hhears
      . left
        exact hsent.abandoned hmem
      . right
        exact hhears
    . cases List.mem_singleton.mp hnew
      apply hsent.granted rfl (hopen rfl)
      exact h.waits owner _ (mem_of_granted hgranted) hunrouted
  . rintro k refusal (_ | ⟨_, hmem⟩)
    have hlate := h.late k refusal hmem
    by_cases hk : k = ticket
    . subst hk
      exact hsent.late hlate
    . rw [(hsent.others k hk).2]
      exact hlate

theorem step (h : Routed env capability config log s) {a : Action} {evs : List Event}
    (hok : tidy s a) (taken : machine env s a = some (evs, t))
    : Routed env capability config (evs.reverse ++ log) t := by
  revert taken
  fun_cases machine env s a
  case case1 owner callsign keyDownCapS time le =>
    intro taken
    have hnext := h.arm le owner callsign keyDownCapS
    rw [Option.some.inj taken] at hnext
    exact hnext
  case case3 owner time le =>
    intro taken
    have hnext := h.disarm le owner
    rw [Option.some.inj taken] at hnext
    exact hnext
  case case5 c time hcall =>
    rintro ⟨⟩
    apply h.plain hcall.2
    . rintro rfl
      cases hcall.1
    . rintro _ _ _ rfl
      cases hcall.1
  case case7 time hidle =>
    rintro ⟨⟩
    apply h.plain hidle.2
    . rintro ⟨⟩
    . rintro _ _ _ ⟨⟩
  case case9 outcome time hidle =>
    rintro ⟨⟩
    apply h.plain hidle.2
    . rintro ⟨⟩
    . rintro _ _ _ ⟨⟩
  case case11 time hidle _ =>
    rintro ⟨⟩
    exact h.takeNotices hidle.2 hidle.1.1
  case case14 ticket result routing s' hrouting hsend =>
    rintro ⟨⟩
    apply h.reply hrouting _ (send_sent hsend)
    rintro rfl
    dsimp only [tidy] at hok
    rw [grantsUnheard, hrouting] at hok
    exact hok
  case case16 n routing hn hrouting =>
    rintro ⟨⟩
    exact h.logNotice hrouting hn
  case case17 time owner abandoned habandoned _ le _ =>
    rintro ⟨⟩
    exact h.release le habandoned
  case case20 ticket isArm result hreceiver =>
    rintro ⟨⟩
    apply shown _ rfl rfl
    . rintro _ _ ⟨⟩
    . apply h.receiver
      all_goals simp [hreceiver, Receiver.hears]
  case case22 ticket isArm hreceiver =>
    rintro ⟨⟩
    apply h.receiver
    all_goals simp [hreceiver, Receiver.hears]
  case case24 ticket isArm hreceiver =>
    rintro ⟨⟩
    apply shown _ rfl rfl
    . rintro _ _ ⟨⟩
      apply Function.update_self
    . apply h.receiver
      all_goals simp [hreceiver, Receiver.hears]
  all_goals rintro ⟨⟩

end Routed

instance (s : Shared) : ∀ a, Decidable (tidy s a)
  | .route => inferInstanceAs (Decidable (_ = false))
  | .arm .. | .disarm .. | .console .. | .nextAction _ | .complete .. | .takeNotices _
  | .release _ | .receive _ | .timeout _ | .drop _ => isTrue trivial

/-- A console that was told that it did not arm in time does not hold the arm once everything is
routed, in every run in which no arm is granted to a console between the end of its wait and the
drop of its channel. -/
theorem late_released {env : Env} {capability : CwCapability} {config : CwConfig}
    {log : List Event} {t : Shared}
    (h : Machine.Runs (machine env) tidy { timed := ⟨0, new capability config⟩ } log t)
    (hsettled : t.Settled) {ticket : Ticket} {refusal : HostRefusal}
    (hlate : .late ticket refusal ∈ log)
    : ¬ Holds log t ticket := by
  have hrouted : Routed env capability config log t := by
    apply Machine.Runs.invariant (Routed env capability config) Routed.start _ h
    intro _ _ _ _ _ hI hok taken
    exact hI.step hok taken
  rcases hsettled with ⟨hnotices, hrouting, habandoned⟩
  rintro ⟨owner, hheld, hgranted⟩
  rcases hrouted.run.held hheld with ⟨ticket', hgranted', time, hreply⟩
  cases hgranted.symm.trans hgranted'
  have htold : .reply ticket (.ok ()) ∈ told Event.told log := by
    have hmem := mem_notices.mpr ⟨time, hreply⟩
    rw [hrouted.notices, hrouting, hnotices, List.append_nil, List.append_nil] at hmem
    exact hmem
  rcases hrouted.heard ticket owner hheld hgranted htold with hmem | hhears
  . rw [habandoned] at hmem
    cases hmem
  . rw [hrouted.late ticket refusal hlate] at hhears
    cases hhears

def answering : List Action :=
  [.status true false (some 20), .power 100, .done, .power 5].flatMap fun outcome =>
    [.nextAction 0, .complete outcome 0]

/-- The radio answers after the console is gone, and the arm is granted and released. -/
theorem late_released_after_grant
    : ∃ log t, Machine.Runs (machine Bench.env) tidy { timed := ⟨0, new Bench.kenwood {}⟩ } log t ∧
      .late 1 (lateRefusal true) ∈ log ∧ (grant (cwLog log)).granted = some (1, 1) ∧
      ¬ Holds log t 1 := by
  have hplay : (Machine.play (machine Bench.env) tidy { timed := ⟨0, new Bench.kenwood {}⟩ }
      (([.arm 1 ['N', '0', 'C', 'A', 'L', 'L'] none 0, .timeout 1, .drop 1] : List Action)
        ++ answering
        ++ ([.nextAction 0, .takeNotices 0, .route, .route, .release 0] : List Action))).map
        (fun r => (lates r.1, (grant (cwLog r.1)).granted, decide r.2.Settled))
      = some ([(1, lateRefusal true)], some (1, 1), true) := by
    decide +kernel
  rcases Machine.exists_runs_play _ hplay with ⟨log, t, hrun, hlog⟩
  simp only [Prod.mk.injEq] at hlog
  rcases hlog with ⟨hlates, hgranted, hsettled⟩
  have hlate : .late 1 (lateRefusal true) ∈ log := by
    apply mem_lates.mp
    rw [hlates]
    apply List.mem_singleton_self
  exact ⟨log, t, hrun, hlate, hgranted, late_released hrun (of_decide_eq_true hsettled) hlate⟩

/-- The arm is granted between the end of the wait and the drop of the channel. The console is told
that the arm will be released, and nothing releases it. -/
theorem late_holds
    : ∃ log t, Machine.Runs (machine Bench.env) anything
        { timed := ⟨0, new Bench.kenwood {}⟩ } log t ∧
      t.Settled ∧ .late 1 (lateRefusal true) ∈ log ∧ Holds log t 1 := by
  have hplay : (Machine.play (machine Bench.env) anything { timed := ⟨0, new Bench.kenwood {}⟩ }
      (([.arm 1 ['N', '0', 'C', 'A', 'L', 'L'] none 0, .timeout 1] : List Action)
        ++ answering
        ++ ([.nextAction 0, .takeNotices 0, .route, .route, .drop 1] : List Action))).map
        (fun r => (lates r.1, (grant (cwLog r.1)).granted, r.2.timed.sup.held,
          decide r.2.Settled))
      = some ([(1, lateRefusal true)], some (1, 1), some 1, true) := by
    decide +kernel
  rcases Machine.exists_runs_play _ hplay with ⟨log, t, hrun, hlog⟩
  simp only [Prod.mk.injEq] at hlog
  rcases hlog with ⟨hlates, hgranted, hheld, hsettled⟩
  refine ⟨log, t, hrun, of_decide_eq_true hsettled, ?_, 1, hheld, hgranted⟩
  apply mem_lates.mp
  rw [hlates]
  apply List.mem_singleton_self

end Shared

end Rigctl.CwWait
