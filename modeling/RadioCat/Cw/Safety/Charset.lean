import RadioCat.Cw.Lemmas.Plans
import RadioCat.Cw.Lemmas.Refine
import RadioCat.Native.Session

/-!
This module contains what the radio is given to key: chunks it can hold, of characters its keyer
sends. The characters come from texts and callsigns that the session has let through, and from the
`DE` the supervisor puts before a callsign.
-/

namespace Cw

open Trace

def Activity.texts : Activity → List Text
  | .arming _ _ callsign _ _ => [callsign]
  | .sending job => job.operator :: job.idText.toList
  | _ => []

/-- What chunks are still to be cut from. -/
def CwSupervisor.texts (s : CwSupervisor) : List Text :=
  (s.arm.map Arm.callsign).toList ++ s.activity.texts

structure Cut (P : Char → Prop) (max : Nat) (text : Text) : Prop where
  nonempty : text ≠ []
  length : text.length ≤ max
  chars : ∀ c ∈ text, P c

structure Spelled (P : Char → Prop) (s : CwSupervisor) : Prop where
  texts : ∀ text ∈ s.texts, ∀ c ∈ text, P c
  plan : ∀ chunk, .send chunk ∈ s.plan →
    ∃ send, s.sendText = some send ∧ Cut P (Nat.max send.maxChunkChars 1) chunk.text

/-- What a request brings with it is upper-cased before anything is done with it. -/
def Event.Brings (P : Char → Prop) : Event → Prop
  | .armed _ callsign _ => ∀ c ∈ callsign, P c.toUpper
  | .sent _ _ text _ => ∀ c ∈ text, P c.toUpper
  | _ => True

section

variable {env : Env} {now : Instant} {s s' : CwSupervisor} {evs : List Event} {log : Log}
  {P : Char → Prop}

theorem cut_of_mem_chunks {text x : Text} {maxChars wpm : Nat} {maxDuration : Option Duration}
    (hspace : P ' ') (htext : ∀ c ∈ text, P c)
    (hx : x ∈ chunks env text maxChars maxDuration wpm)
    : Cut P (Nat.max maxChars 1) x where
  nonempty := by
    intro hnil
    apply strip_ne_nil_of_mem_chunks hx
    rw [hnil]
    rfl
  length := by
    cases fits_of_mem_chunks hx with
    | inl hfits =>
      simp only [chunks.fits, Bool.and_eq_true, decide_eq_true_eq] at hfits
      exact hfits.1
    | inr hone =>
      rw [hone]
      apply Nat.le_max_right
  chars := by
    intro c hc
    cases char_of_mem_chunks hx hc with
    | inl hc =>
      rw [hc]
      exact hspace
    | inr hc => exact htext c hc

theorem send_not_mem_restorePlan (s : CwSupervisor) (chunk : Chunk)
    : .send chunk ∉ restorePlan s := by
  intro hmem
  have hrestoring := restorePlan_isRestoring s _ hmem
  contradiction

theorem Spelled.mono (h : Spelled P s) (hradio : s'.sendText = s.sendText)
    (htexts : ∀ text ∈ s'.texts, text ∈ s.texts)
    (hplan : ∀ chunk, .send chunk ∈ s'.plan → .send chunk ∈ s.plan)
    : Spelled P s' where
  texts text htext := h.texts text (htexts text htext)
  plan chunk hchunk := by
    rw [hradio]
    exact h.plan chunk (hplan chunk hchunk)

theorem chars_toAsciiUppercase {text : Text} (h : ∀ c ∈ text, P c.toUpper)
    : ∀ c ∈ text.toAsciiUppercase, P c := by
  intro c hc
  rcases List.mem_map.mp hc with ⟨d, hd, hc⟩
  rw [← hc]
  exact h d hd

theorem chars_idTextOf {callsign : Text} (hspace : P ' ') (hident : P 'D' ∧ P 'E')
    (h : ∀ c ∈ callsign, P c)
    : ∀ c ∈ idTextOf callsign, P c := by
  simp only [idTextOf, List.forall_mem_cons]
  exact ⟨hident.1, hident.2, hspace, h⟩

theorem chars_operatorText {text : Text} (hspace : P ' ') (h : ∀ c ∈ text, P c.toUpper)
    : ∀ c ∈ operatorText text, P c := by
  have hwords (ws : List Text) (hws : ∀ w ∈ ws, ∀ c ∈ w, P c)
      : ∀ c ∈ List.intercalate [' '] ws, P c := by
    induction ws with
    | nil => simp
    | cons w ws ih =>
      rw [List.forall_mem_cons] at hws
      cases ws with
      | nil => simpa using hws.1
      | cons w' ws =>
        rw [List.intercalate_cons_cons]
        simp only [List.forall_mem_append, List.forall_mem_singleton]
        exact ⟨⟨hws.1, hspace⟩, ih hws.2⟩
  apply hwords
  intro w hw
  rcases List.mem_map.mp hw with ⟨v, hv, hw⟩
  rw [← hw]
  apply chars_toAsciiUppercase
  intro c hc
  exact h c (List.mem_of_mem_filter (Text.mem_strip_of_mem_word hv hc))

theorem send_not_mem_armPlan (send : CwSendText) (gate : TxGateCapability) (chunk : Chunk)
    : .send chunk ∉ armPlan send gate := by
  unfold armPlan armPlan.armReads armPlan.armWrites
  cases send.requiresBreakIn <;> simp

theorem Spelled.operator {job : Job} (h : Spelled P s) (hact : s.activity = .sending job)
    : ∀ text, text = job.operator ∨ job.idText = some text → ∀ c ∈ text, P c := by
  intro text htext
  apply h.texts text
  cases htext with
  | inl htext => simp [CwSupervisor.texts, Activity.texts, hact, htext]
  | inr htext => simp [CwSupervisor.texts, Activity.texts, hact, htext]

theorem Move.spelled (hspace : P ' ') (hident : P 'D' ∧ P 'E') (hevs : ∀ e ∈ evs, e.Brings P)
    (hI : Spelled P s) (h : Move env now s evs s')
    : Spelled P s' := by
  have hradio := h.sameRadio.1
  cases h with
  | arm owner callsign cap hcap hsend hgate hup hact harm =>
    constructor
    . intro text htext
      simp only [CwSupervisor.texts, Activity.texts, harm, Option.map_none, Option.toList_none,
        List.nil_append, List.mem_singleton] at htext
      rw [htext]
      apply chars_toAsciiUppercase
      exact hevs _ List.mem_cons_self
    . intro chunk hchunk
      have hno := send_not_mem_armPlan _ _ chunk hchunk
      contradiction
  | @send a text hwords hest hact harm =>
    have hcall : ∀ c ∈ a.callsign, P c := by
      apply hI.texts
      simp [CwSupervisor.texts, harm]
    have hoperator : ∀ c ∈ operatorText text, P c :=
      chars_operatorText hspace (hevs _ List.mem_cons_self)
    constructor
    . simp only [CwSupervisor.texts, Activity.texts, jobFor, Option.map_some, Option.toList_some,
        List.cons_append, List.nil_append, List.forall_mem_cons]
      refine ⟨hcall, hoperator, ?_⟩
      intro ident hident'
      split at hident'
      . rw [List.mem_singleton.mp hident']
        exact chars_idTextOf hspace hident hcall
      . simp at hident'
    . simp
  | planned wpm out hsend hact harm hest hplan =>
    constructor
    . intro text htext
      apply hI.texts
      simpa [CwSupervisor.texts, Activity.texts, CwSupervisor.answered, CwSupervisor.withSpeed,
        harm, hact] using htext
    . intro chunk hchunk
      rw [hplan, List.mem_append] at hchunk
      cases hchunk with
      | inl hold => exact hI.plan chunk hold
      | inr hnew =>
        rcases text_of_mem_chunkPlan hnew with ⟨text, hcut, htext⟩
        exact ⟨_, hsend, cut_of_mem_chunks hspace (hI.operator hact text htext) hcut⟩
  | replanned transmitting wpm out hsend hact harm hpieces hrest hcap hplan =>
    constructor
    . intro text htext
      apply hI.texts
      simpa [CwSupervisor.texts, Activity.texts, CwSupervisor.answered, CwSupervisor.withSpeed,
        harm, hact] using htext
    . intro chunk hchunk
      rw [hplan, hpieces, ← mem_sends, sends_replan, List.zipIdx_map_fst] at hchunk
      rcases text_of_mem_rechunk hchunk with ⟨older, hcut, holder⟩
      rcases hI.plan older holder with ⟨_, _, hspelled⟩
      exact ⟨_, hsend, cut_of_mem_chunks hspace hspelled.chars hcut⟩
  | snapBreakIn k out =>
    apply hI.mono hradio
    . intro text htext
      exact htext
    . intro chunk hchunk
      dsimp only at hchunk
      split at hchunk
      . exact List.mem_of_mem_filter hchunk
      . exact hchunk
  | @sent chunk a job out hact harm =>
    have hcall : (if chunk.endsId then a.identified now else a).callsign = a.callsign := by
      split <;> rfl
    apply hI.mono hradio
    . intro text htext
      simpa [CwSupervisor.texts, Activity.texts, harm, hact, hcall, Job.took] using htext
    . intro other hother
      exact hother
  | _ =>
    apply hI.mono hradio
    . first
      | exact fun _ => id
      | simp_all [CwSupervisor.texts, Activity.texts, CwSupervisor.stopJob, CwSupervisor.answered,
          CwSupervisor.withSpeed, startRestore, planRestore, endJob, Request.apply, Cause.apply]
    . first
      | exact fun _ => id
      | simp_all [CwSupervisor.stopJob, startRestore, planRestore, endJob, Request.apply,
          Cause.apply, send_not_mem_restorePlan]

theorem Move.issued {text : Text} (hI : Spelled P s) (h : Move env now s evs s')
    (hissued : .issued (.sendChunk text) ∈ evs)
    : ∃ send, s.sendText = some send ∧ Cut P (Nat.max send.maxChunkChars 1) text := by
  cases h with
  | @issue step rest action retryAt out hplan haction =>
    rw [List.mem_singleton] at hissued
    cases hissued
    cases step with
    | send chunk =>
      cases haction
      apply hI.plan chunk
      rw [hplan]
      exact List.mem_cons_self
    | _ => cases haction
  | _ =>
    exfalso
    simp [Request.events, Cause.events, CwSupervisor.owedNotice] at hissued

theorem Run.spelled {capability : CwCapability} {config : CwConfig} {w : Timed} (hspace : P ' ')
    (hident : P 'D' ∧ P 'E') (h : Run env capability config log w)
    (hlog : ∀ e ∈ log, e.event.Brings P)
    : ∀ e ∈ log, ∀ text, e.event = .issued (.sendChunk text) →
        ∃ send, capability.sendText = some send ∧ Cut P (Nat.max send.maxChunkChars 1) text := by
  let I := fun (log : Log) (_ : Instant) (s : CwSupervisor) =>
    s.sendText = capability.sendText ∧ ((∀ e ∈ log, e.event.Brings P) → Spelled P s
      ∧ ∀ e ∈ log, ∀ text, e.event = .issued (.sendChunk text) →
        ∃ send, capability.sendText = some send ∧ Cut P (Nat.max send.maxChunkChars 1) text)
  suffices hI : I log w.now w.sup from (hI.2 hlog).2
  apply Run.invariant I _ _ _ h
  . refine ⟨rfl, ?_⟩
    intro _
    refine ⟨?_, by simp⟩
    constructor <;> simp [new, CwSupervisor.texts, Activity.texts]
  . intro _ _ _ _ hI _
    exact hI
  . intro log now s evs s' _ hI hmove
    refine ⟨hmove.sameRadio.1.trans hI.1, ?_⟩
    intro hlog
    simp only [List.forall_mem_append, List.mem_reverse, List.forall_mem_map] at hlog ⊢
    rcases hI.2 hlog.2 with ⟨hspelled, hissued⟩
    refine ⟨hmove.spelled hspace hident hlog.1 hspelled, ?_, hissued⟩
    intro e he text htext
    rw [← hI.1]
    apply hmove.issued hspelled
    rw [← htext]
    exact he

end

theorem mem_actions {log : Log} {action : CwAction}
    : action ∈ log.actions ↔ ∃ e ∈ log, e.event = .issued action := by
  simp only [Log.actions, List.mem_filterMap, List.mem_reverse]
  constructor
  . rintro ⟨e, he, haction⟩
    refine ⟨e, he, ?_⟩
    split at haction
    next hevent =>
      cases haction
      exact hevent
    next => cases haction
  . rintro ⟨e, he, hevent⟩
    exact ⟨e, he, by rw [hevent]⟩

open Native Framework

/-- The sessions have let the callsigns and texts of a run through. -/
def Event.Admitted (K : Kinds) (env : Env) (cw : Framework.CwCapability) : Event → Prop
  | .armed _ callsign _ =>
    ∃ (session : NativeSession K) (acknowledged : Bool) (keyDownCapS : Option UInt16),
      session.capabilities.cw = some cw
        ∧ session.validateCw env (.armCwTransmit callsign acknowledged keyDownCapS) = .ok ()
  | .sent _ _ text _ =>
    ∃ session : NativeSession K,
      session.capabilities.cw = some cw ∧ session.validateCw env (.sendCwText text) = .ok ()
  | _ => True

section

variable {K : Kinds} {env : Env} {cw : Framework.CwCapability} {isLowercase : Char → Bool}
  {config : CwConfig} {log : Log} {w : Timed} {send : CwSendText}

theorem CwSendText.Sends.toUpper {c : Char} (h : send.Sends c) : send.Sends c.toUpper := by
  cases h with
  | inl h =>
    rw [h]
    exact Or.inl rfl
  | inr h =>
    right
    rw [Text.toUpper_toUpper]
    exact h

/-- What the keyer sends, and the two letters before a callsign. -/
def Keyable (cw : Framework.CwCapability) (c : Char) : Prop :=
  ∀ send ∈ cw.sendText, send.Sends c ∨ c = 'D' ∨ c = 'E'

theorem keyable_toUpper {text : Text} (hsend : cw.sendText = some send)
    (h : ∀ c ∈ text, send.Sends c)
    : ∀ c ∈ text, Keyable cw c.toUpper := by
  intro c hc send' hsend'
  cases hsend.symm.trans hsend'
  exact Or.inl (h c hc).toUpper

theorem Event.Admitted.brings {e : Event} (h : e.Admitted K env cw) : e.Brings (Keyable cw) := by
  cases e with
  | armed owner callsign ticket =>
    rcases h with ⟨session, acknowledged, cap, hcw, hok⟩
    rcases NativeSession.validateCw_ok_iff.mp hok with ⟨_, cw', hcw', send, hsend, _, _, hsends, _⟩
    cases hcw.symm.trans hcw'
    exact keyable_toUpper hsend hsends
  | sent s owner text job =>
    rcases h with ⟨session, hcw, hok⟩
    rcases NativeSession.validateCw_ok_iff.mp hok with ⟨_, cw', hcw', send, hsend, _, _, hsends⟩
    cases hcw.symm.trans hcw'
    exact keyable_toUpper hsend hsends
  | _ => trivial

theorem rejectedChar_of_keyable {text : Text} (hsend : cw.sendText = some send)
    (hident : 'D' ∈ send.charset ∧ 'E' ∈ send.charset) (h : ∀ c ∈ text, Keyable cw c)
    : send.rejectedChar text = none := by
  rw [CwSendText.rejectedChar_eq_none]
  intro c hc
  rcases h c hc send hsend with hsends | hc | hc
  . exact hsends
  . rw [hc]
    exact Or.inr hident.1
  . rw [hc]
    exact Or.inr hident.2

/--
Every chunk is one the radio can hold. Its characters are all in the charset as soon as the two
letters are that go before the callsign, which nothing checks.
-/
theorem chunks_keyable (valid : cw.validate isLowercase = .ok ())
    (hrun : Run env cw.supervised config log w) (hlog : ∀ e ∈ log, e.event.Admitted K env cw)
    : ∀ text, .sendChunk text ∈ log.actions →
        ∃ send, cw.sendText = some send ∧ text ≠ [] ∧ text.length ≤ send.maxChunkChars
          ∧ ('D' ∈ send.charset ∧ 'E' ∈ send.charset → send.rejectedChar text = none) := by
  intro text htext
  rcases mem_actions.mp htext with ⟨e, he, hissued⟩
  have hspace : Keyable cw ' ' := by
    intro send _
    exact Or.inl (Or.inl rfl)
  have hident : Keyable cw 'D' ∧ Keyable cw 'E' := by
    constructor <;> simp [Keyable]
  have hbrings : ∀ e ∈ log, e.event.Brings (Keyable cw) := by
    intro e he
    exact (hlog e he).brings
  rcases hrun.spelled hspace hident hbrings e he text hissued with ⟨send, hsend, hcut⟩
  have hmax := ((CwCapability.validate_ok_iff.mp valid).sendText send hsend).1
  have hlength : text.length ≤ max send.maxChunkChars 1 := hcut.length
  refine ⟨send, hsend, hcut.nonempty, by omega, ?_⟩
  intro hletters
  exact rejectedChar_of_keyable hsend hletters hcut.chars

end

namespace Bench

def radio (charset : Text) : Framework.CwCapability where
  pitch := none
  pitchWritable := false
  keyerWpm := some { min := 6, max := 48 }
  keyerWpmWritable := true
  breakIn := [.semi]
  sendText := some
    { maxChunkChars := 30
      charset
      pacing := .estimated
      abort := .radioStop
      requiresBreakIn := some .semi }
  txGate := some { lowPowerRaw := 0, powerRaw := { min := 0, max := 255 } }

def session (cw : Framework.CwCapability) : NativeSession NativeSession.Bench.kinds :=
  { NativeSession.Bench.start with
    capabilities := { NativeSession.Bench.caps with cw := some cw }
    servesCw := true }

def admits (cw : Framework.CwCapability) : Event → Bool
  | .armed _ callsign _ =>
    ((session cw).validateCw env (.armCwTransmit callsign true none)).isOk
  | .sent _ _ text _ => ((session cw).validateCw env (.sendCwText text)).isOk
  | _ => true

theorem eq_ok_of_isOk {ε : Type} {check : Except ε Unit} (h : check.isOk = true)
    : check = .ok () := by
  cases check with
  | ok => rfl
  | error e => contradiction

theorem admitted_of_admits {cw : Framework.CwCapability} {log : Log}
    (h : (log.all fun e => admits cw e.event) = true)
    : ∀ e ∈ log, e.event.Admitted NativeSession.Bench.kinds env cw := by
  intro e he
  have hadmits := List.all_eq_true.mp h e he
  cases hevent : e.event with
  | armed owner callsign ticket =>
    rw [hevent] at hadmits
    exact ⟨session cw, true, none, rfl, eq_ok_of_isOk hadmits⟩
  | sent s owner text job =>
    rw [hevent] at hadmits
    exact ⟨session cw, rfl, eq_ok_of_isOk hadmits⟩
  | _ => trivial

def keying (callsign text : Text) : List (Duration × Call) :=
  ([(0, .arm 1 callsign none)] : List (Duration × Call))
    ++ exchange [.status true false (some 20), .power 100, .breakIn .semi, .done, .power 0]
    ++ ([(0, .nextAction), (0, .send 1 text)] : List (Duration × Call))
    ++ exchange [.status true false (some 20), .power 0]
    ++ ([(0, .nextAction), (0, .complete .done), (.fromSecs 2, .nextAction)]
      : List (Duration × Call))

end Bench

theorem chunks_keyable_ident
    : let cw := Bench.radio Bench.charset
      let text := ['D', 'E', ' ', 'K', '1', 'Q']
      let log := (Bench.run cw.supervised (Bench.keying ['k', '1', 'q'] ['c', 'q'])).1
      .sendChunk text ∈ log.actions
        ∧ ∃ send, cw.sendText = some send ∧ text ≠ [] ∧ text.length ≤ send.maxChunkChars
          ∧ ('D' ∈ send.charset ∧ 'E' ∈ send.charset → send.rejectedChar text = none) := by
  intro cw text log
  have htext : .sendChunk text ∈ log.actions := by
    decide +kernel
  have hlog : (log.all fun e => Bench.admits cw e.event) = true := by
    decide +kernel
  have hvalid : cw.validate Char.isLower = .ok () := by
    decide +kernel
  exact ⟨htext,
    chunks_keyable hvalid (Bench.isRun _ _) (Bench.admitted_of_admits hlog) text htext⟩

/-- A keyer of four characters: all that the session sees can be sent, and the ID cannot. -/
theorem chunks_keyable_counterexample
    : let cw := Bench.radio ['C', 'K', 'Q', '1']
      let text := ['D', 'E', ' ', 'K', '1', 'Q']
      let res := Bench.run cw.supervised (Bench.keying ['k', '1', 'q'] ['c', 'q'])
      cw.validate Char.isLower = .ok () ∧ Run Bench.env cw.supervised {} res.1 res.2
        ∧ (∀ e ∈ res.1, e.event.Admitted NativeSession.Bench.kinds Bench.env cw)
        ∧ .sendChunk text ∈ res.1.actions
        ∧ ∀ send ∈ cw.sendText, send.rejectedChar text = some 'D' := by
  intro cw text res
  have hlog : (res.1.all fun e => Bench.admits cw e.event) = true := by
    decide +kernel
  refine ⟨?_, Bench.isRun _ _, Bench.admitted_of_admits hlog, ?_, ?_⟩
  . decide +kernel
  . decide +kernel
  . intro send hsend
    cases hsend
    decide +kernel

end Cw
