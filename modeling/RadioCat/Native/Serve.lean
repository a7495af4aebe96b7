import RadioCat.Native.Frame
import RadioCat.Trace.Machine

/-!
This module contains the loop that serves one console: what is read from the socket is collected,
whole frames are taken off its front, and every control frame among them is answered.
-/

namespace Native

open Trace

inductive ErrorCode where
  | notReady
  | versionMismatch
  | unsupported
  | outOfRange
  | malformed
  | forbidden
  deriving DecidableEq, Repr

/--
What the loop calls: the JSON decoder, and the session with its messages, commands and replies.
-/
structure Protocol (σ μ γ ρ τ δ : Type) where
  fromSlice : List UInt8 → Except String μ
  command : μ → Option γ
  isAck : ρ → Bool
  error : ErrorCode → String → ρ
  publishState : τ → σ → σ
  publishDevices : δ → σ → σ
  setServesCw : Bool → σ → σ
  handle : μ → σ → ρ × σ
  reachesHost : σ → γ → Bool

/-- How a message finds the host, and whether its reply can be written. -/
structure Moment (γ τ δ : Type) where
  state : τ
  devices : Option δ := none
  servesCw : Bool := false
  applyAs : γ → Except (ErrorCode × String) Unit
  written : Bool := true

structure Connection (σ : Type) where
  pending : List UInt8 := []
  session : σ
  isOpen : Bool := true

inductive Input (γ τ δ : Type) where
  | read (chunk : List UInt8) (moments : Nat → Moment γ τ δ)
  -- The read timeout elapsed.
  | idle (moments : Nat → Moment γ τ δ)
  -- The stream ended, or reading it or sending a picture failed.
  | hangUp

inductive Event (ρ : Type) where
  | received (chunk : List UInt8)
  | answered (payload : List UInt8) (reply : ρ)
  deriving DecidableEq, Repr

section

variable {σ μ γ ρ τ δ : Type} (P : Protocol σ μ γ ρ τ δ)

def answer (moment : Moment γ τ δ) (payload : List UInt8) (session : σ) : ρ × σ :=
  match P.fromSlice payload with
  | .error e => (P.error .malformed e, session)
  | .ok message =>
    let session := P.publishState moment.state session
    let session := moment.devices.elim session (P.publishDevices · session)
    let session := P.setServesCw moment.servesCw session
    let (reply, session) := P.handle message session
    match P.command message with
    | some command =>
      if P.isAck reply ∧ P.reachesHost session command then
        match moment.applyAs command with
        | .ok () => (reply, session)
        | .error (code, text) => (P.error code text, session)
      else
        (reply, session)
    | none => (reply, session)

/-- The last component says whether every reply could be written. -/
def answerAll (moments : Nat → Moment γ τ δ) (session : σ)
    : List (FrameKind × List UInt8) → List (Event ρ) × σ × Bool
  | [] => ([], session, true)
  | (.control, payload) :: rest =>
    let (reply, session) := answer P (moments 0) payload session
    if (moments 0).written then
      let (evs, session, ok) := answerAll (fun n => moments (n + 1)) session rest
      (.answered payload reply :: evs, session, ok)
    else
      ([], session, false)
  | _ :: rest => answerAll moments session rest

def pass (moments : Nat → Moment γ τ δ) (s : Connection σ) : List (Event ρ) × Connection σ :=
  let (evs, session, ok) := answerAll P moments s.session (frames.drain s.pending).1
  (evs, { pending := (frames.drain s.pending).2, session, isOpen := ok })

def bufLen : Nat := 8192

def serveOne : Machine (Connection σ) (Input γ τ δ) (Event ρ)
  | s, .read chunk moments =>
    if s.isOpen ∧ 0 < chunk.length ∧ chunk.length ≤ bufLen then
      let (evs, t) := pass P moments { s with pending := s.pending ++ chunk }
      some (.received chunk :: evs, t)
    else
      none
  | s, .idle moments => if s.isOpen then some (pass P moments s) else none
  | s, .hangUp => if s.isOpen then some ([], { s with isOpen := false }) else none

end

def Event.chunk {ρ : Type} : Event ρ → List UInt8
  | .received chunk => chunk
  | .answered _ _ => []

def Event.payload {ρ : Type} : Event ρ → Option (List UInt8)
  | .received _ => none
  | .answered payload _ => some payload

def received {ρ : Type} (log : List (Event ρ)) : List UInt8 :=
  log.reverse.flatMap Event.chunk

def answered {ρ : Type} (log : List (Event ρ)) : List (List UInt8) :=
  log.reverse.filterMap Event.payload

def RawFrame.isControl (frame : RawFrame) : Bool :=
  frame.kind = 1 ∧ frame.payload.length ≤ maxControlBytes

/-- The well-formed control frames of a stream. -/
def controls (stream : List UInt8) : List (List UInt8) :=
  ((framing.drain stream).1.filter RawFrame.isControl).map RawFrame.payload

def Served {σ ρ : Type} (log : List (Event ρ)) (s : Connection σ) : Prop :=
  s.isOpen = true →
    answered log = controls (received log) ∧ s.pending.length ≤ 5 + maxControlBytes

-- A header that `decode_frame` does not stop at, and after which little has to be waited for.
def headerOk : List UInt8 → Bool
  | k :: a :: b :: c :: d :: _ =>
    (FrameKind.fromU8 k).isSome && fromBeBytes a b c d ≤ maxControlBytes
  | _ => true

def RawFrame.isSound (frame : RawFrame) : Bool :=
  (FrameKind.fromU8 frame.kind).isSome && frame.payload.length ≤ maxControlBytes

/-- Every frame, the one that is still incomplete included, has a known kind and a small length. -/
def Sound (stream : List UInt8) : Prop :=
  (∀ frame ∈ (framing.drain stream).1, frame.isSound = true)
    ∧ headerOk (framing.drain stream).2 = true

def controlPayloads (taken : List (FrameKind × List UInt8)) : List (List UInt8) :=
  (taken.filter fun frame => frame.1 = .control).map Prod.snd

section

variable {σ μ γ ρ τ δ : Type} {P : Protocol σ μ γ ρ τ δ} {moments : Nat → Moment γ τ δ}
  {log evs : List (Event ρ)} {s t : Connection σ}

theorem received_append
    : received (evs.reverse ++ log) = received log ++ evs.flatMap Event.chunk := by
  simp [received]

theorem answered_append
    : answered (evs.reverse ++ log) = answered log ++ evs.filterMap Event.payload := by
  simp [answered]

theorem answerAll_answers {session session' : σ} {taken : List (FrameKind × List UInt8)}
    (h : answerAll P moments session taken = (evs, session', true))
    : evs.flatMap Event.chunk = [] ∧ evs.filterMap Event.payload = controlPayloads taken := by
  fun_induction answerAll P moments session taken generalizing evs session'
  case case1 =>
    cases h
    exact ⟨rfl, rfl⟩
  case case2 hrest ih =>
    cases h
    rcases ih hrest with ⟨hchunk, hpayload⟩
    simp [Event.chunk, Event.payload, controlPayloads, hchunk, hpayload]
  case case3 => cases h
  case case4 hkind ih =>
    rcases ih h with ⟨hchunk, hpayload⟩
    refine ⟨hchunk, ?_⟩
    rw [hpayload, controlPayloads, controlPayloads, List.filter_cons_of_neg]
    intro hcontrol
    exact hkind _ (Prod.ext (of_decide_eq_true hcontrol) rfl)

theorem pass_answers (taken : pass P moments s = (evs, t)) (hopen : t.isOpen = true)
    : evs.flatMap Event.chunk = []
      ∧ evs.filterMap Event.payload = controlPayloads (frames.drain s.pending).1
      ∧ t.pending = (frames.drain s.pending).2 := by
  unfold pass at taken
  generalize hall : answerAll P moments s.session (frames.drain s.pending).1 = all at taken
  rcases all with ⟨evs', session', ok⟩
  cases taken
  cases (hopen : ok = true)
  rcases answerAll_answers hall with ⟨hchunk, hpayload⟩
  exact ⟨hchunk, hpayload, rfl⟩

/-- What is pending is what is left of the stream once its frames are taken off and answered. -/
def Collected (log : List (Event ρ)) (s : Connection σ) : Prop :=
  s.isOpen = true →
    s.pending = (frames.drain (received log)).2
      ∧ answered log = controlPayloads (frames.drain (received log)).1

theorem controlPayloads_append (a b : List (FrameKind × List UInt8))
    : controlPayloads (a ++ b) = controlPayloads a ++ controlPayloads b := by
  simp [controlPayloads]

theorem Collected.pass (h : Collected log s) (chunk : List UInt8) (first : List (Event ρ))
    (hopen : s.isOpen = true) (hchunk : first.flatMap Event.chunk = chunk)
    (hpayload : first.filterMap Event.payload = [])
    (taken : Native.pass P moments { s with pending := s.pending ++ chunk } = (evs, t))
    : Collected ((first ++ evs).reverse ++ log) t := by
  intro htopen
  rcases h hopen with ⟨hpending, hanswered⟩
  rcases pass_answers taken htopen with ⟨hnone, hanswers, hleft⟩
  have hdrain := frames.drain_append (received log) chunk
  rw [← hpending] at hdrain
  rw [received_append, answered_append, List.flatMap_append, List.filterMap_append, hchunk, hnone,
    hpayload, List.append_nil, List.nil_append, hdrain, controlPayloads_append, ← hanswered]
  refine ⟨hleft, ?_⟩
  rw [hanswers]

theorem Collected.step {a : Input γ τ δ} (h : Collected log s)
    (taken : serveOne P s a = some (evs, t))
    : Collected (evs.reverse ++ log) t := by
  revert taken
  fun_cases serveOne P s a
  case case1 chunk _ _ _ hread hpass =>
    rintro ⟨⟩
    apply h.pass chunk [.received chunk] hread.1 _ rfl hpass
    simp [Event.chunk]
  case case3 moments hopen =>
    intro taken
    apply h.pass [] [] hopen rfl rfl
    rw [List.append_nil]
    exact Option.some.inj taken
  case case5 =>
    rintro ⟨⟩ ⟨⟩
  all_goals rintro ⟨⟩

theorem runs_collected {session : σ} (h : (serveOne P).Runs anything { session } log s)
    : Collected log s := by
  apply Machine.Runs.invariant Collected _ _ h
  . intro _
    exact ⟨rfl, rfl⟩
  . intro _ _ _ _ _ hI _ taken
    exact hI.step taken

/-- A property of the session that all calls of the loop preserve. -/
structure Protocol.Keeps (P : Protocol σ μ γ ρ τ δ) (I : σ → Prop) : Prop where
  publishState : ∀ {session} state, I session → I (P.publishState state session)
  publishDevices : ∀ {session} devices, I session → I (P.publishDevices devices session)
  setServesCw : ∀ {session} servesCw, I session → I (P.setServesCw servesCw session)
  handle : ∀ {session} message, I session → I (P.handle message session).2

section

variable {I : σ → Prop} {session : σ}

theorem answer_keeps {moment : Moment γ τ δ} {payload : List UInt8} {reply : ρ} {session' : σ}
    (keeps : P.Keeps I) (h : I session)
    (taken : answer P moment payload session = (reply, session'))
    : I session' := by
  suffices hsession : I (answer P moment payload session).2 by
    rw [taken] at hsession
    exact hsession
  unfold answer
  cases P.fromSlice payload with
  | error e => exact h
  | ok message =>
    have hdevices : I (moment.devices.elim (P.publishState moment.state session)
        (P.publishDevices · (P.publishState moment.state session))) := by
      have hstate := keeps.publishState moment.state h
      cases moment.devices with
      | none => exact hstate
      | some devices => exact keeps.publishDevices devices hstate
    have hhandled := keeps.handle message (keeps.setServesCw moment.servesCw hdevices)
    simp only
    cases P.command message with
    | none => exact hhandled
    | some command =>
      simp only
      -- Whatever the host says to the command, the session stays as `handle` left it.
      split
      . cases moment.applyAs command <;> exact hhandled
      . exact hhandled

theorem answerAll_keeps (keeps : P.Keeps I) (h : I session)
    (taken : List (FrameKind × List UInt8))
    : I (answerAll P moments session taken).2.1 := by
  fun_induction answerAll P moments session taken
  case case1 => exact h
  case case2 hanswer _ _ _ _ hrest ih =>
    rw [hrest] at ih
    exact ih (answer_keeps keeps h hanswer)
  case case3 hanswer _ =>
    exact answer_keeps keeps h hanswer
  case case4 ih => exact ih h

theorem pass_keeps {pending : List UInt8} {isOpen : Bool} (keeps : P.Keeps I) (h : I session)
    (taken : pass P moments { pending, session, isOpen } = (evs, t))
    : I t.session := by
  cases taken
  apply answerAll_keeps keeps h

theorem serveOne_keeps (keeps : P.Keeps I) (hsession : I session)
    (h : (serveOne P).Runs anything { session } log s)
    : I s.session := by
  apply Machine.Runs.invariant (fun _ s => I s.session) hsession _ h
  intro _ s a evs t hI _ taken
  revert taken
  fun_cases serveOne P s a
  case case1 hpass _ =>
    rintro ⟨⟩
    exact pass_keeps keeps hI hpass
  case case3 =>
    intro taken
    exact pass_keeps keeps hI (Option.some.inj taken)
  case case5 =>
    rintro ⟨⟩
    exact hI
  all_goals rintro ⟨⟩

end

theorem isSound_accepted {frame : RawFrame} (h : frame.isSound = true)
    : ∃ kind, FrameKind.fromU8 frame.kind = some kind
      ∧ frame.accepted = some (kind, frame.payload) := by
  simp only [RawFrame.isSound, Bool.and_eq_true, Option.isSome_iff_exists, decide_eq_true_eq] at h
  rcases h with ⟨⟨kind, hkind⟩, hlen⟩
  refine ⟨kind, hkind, ?_⟩
  simp only [RawFrame.accepted, hkind]
  apply if_neg
  omega

theorem FrameKind.fromU8_control {k : UInt8} : FrameKind.fromU8 k = some .control ↔ k = 1 := by
  fun_cases FrameKind.fromU8 k
  all_goals simp_all

theorem controlPayloads_cons (frame : FrameKind × List UInt8)
    (taken : List (FrameKind × List UInt8))
    : controlPayloads (frame :: taken)
      = (if frame.1 = .control then [frame.2] else []) ++ controlPayloads taken := by
  simp only [controlPayloads, List.filter_cons, decide_eq_true_eq]
  split
  . rfl
  . rfl

theorem controlPayloads_accepted {raw : List RawFrame} (h : ∀ frame ∈ raw, frame.isSound = true)
    : controlPayloads (raw.filterMap RawFrame.accepted)
      = (raw.filter RawFrame.isControl).map RawFrame.payload := by
  induction raw with
  | nil => rfl
  | cons frame raw ih =>
    have hframe := h frame List.mem_cons_self
    have hraw := ih fun frame hmem => h frame (List.mem_cons_of_mem _ hmem)
    rcases isSound_accepted hframe with ⟨kind, hkind, haccepted⟩
    have hcontrol : frame.isControl = decide (kind = .control) := by
      simp only [RawFrame.isSound, Bool.and_eq_true, decide_eq_true_eq] at hframe
      have hone := FrameKind.fromU8_control (k := frame.kind)
      rw [hkind, Option.some.injEq] at hone
      simp [RawFrame.isControl, hframe.2, hone]
    rw [List.filterMap_cons_some haccepted, controlPayloads_cons, hraw, List.filter_cons, hcontrol]
    simp only [decide_eq_true_eq]
    split
    . rfl
    . rfl

theorem Sound.frames_drain {stream : List UInt8} (h : Sound stream)
    : controlPayloads (frames.drain stream).1 = controls stream
      ∧ (frames.drain stream).2 = (framing.drain stream).2 := by
  have haccepted : ∀ frame ∈ (framing.drain stream).1, frame.accepted.isSome := by
    intro frame hmem
    rcases isSound_accepted (h.1 frame hmem) with ⟨kind, _, haccepted⟩
    rw [haccepted]
    rfl
  rw [frames_eq, framing.drain_upTo _ haccepted]
  exact ⟨controlPayloads_accepted h.1, rfl⟩

theorem length_of_headerOk {rest : List UInt8} (hnext : framing.next rest = none)
    (hok : headerOk rest = true)
    : rest.length ≤ 5 + maxControlBytes := by
  revert hok
  fun_cases headerOk rest
  case case1 k a b c d tail =>
    intro hok
    simp only [Bool.and_eq_true, decide_eq_true_eq] at hok
    have hpart : tail.length < fromBeBytes a b c d := by
      by_contra hwhole
      rw [framing_whole hwhole] at hnext
      cases hnext
    simp only [List.length_cons]
    omega
  case case2 hshort =>
    intro _
    have hlen : rest.length < 5 := by
      match rest, hshort with
      | [], _ | [_], _ | [_, _], _ | [_, _, _], _ | [_, _, _, _], _ => simp
      | k :: a :: b :: c :: d :: tail, hshort => exact (hshort k a b c d tail rfl).elim
    omega

theorem served_when_sound {session : σ} (h : (serveOne P).Runs anything { session } log s)
    (hsound : Sound (received log))
    : Served log s := by
  intro hopen
  rcases runs_collected h hopen with ⟨hpending, hanswered⟩
  rcases hsound.frames_drain with ⟨hcontrols, hrest⟩
  rw [hanswered, hcontrols, hpending, hrest]
  refine ⟨rfl, ?_⟩
  apply length_of_headerOk (framing.next_drain _) hsound.2

end

/-- The least a session can be: it takes every message and keeps nothing. -/
def silentProtocol : Protocol Unit Unit Unit Unit Unit Unit where
  fromSlice _ := .ok ()
  command _ := none
  isAck _ := true
  error _ _ := ()
  publishState _ s := s
  publishDevices _ s := s
  setServesCw _ s := s
  handle _ s := ((), s)
  reachesHost _ _ := true

def calm : Nat → Moment Unit Unit Unit :=
  fun _ => { state := (), applyAs := fun _ => .ok () }

theorem served_spectrum_then_control
    : ∃ log s, (serveOne silentProtocol).Runs anything { session := () } log s
      ∧ answered log = [[0x7B, 0x7D]] ∧ Served log s := by
  have hrun : (serveOne silentProtocol).Runs anything { session := () }
      [.answered [0x7B, 0x7D] (), .received [0x7D],
        .received [2, 0, 0, 0, 1, 7, 1, 0, 0, 0, 2, 0x7B]]
      { pending := [], session := () } := by
    exact Machine.runs_play
      [.read [2, 0, 0, 0, 1, 7, 1, 0, 0, 0, 2, 0x7B] calm, .read [0x7D] calm] rfl
  refine ⟨_, _, hrun, rfl, ?_⟩
  exact served_when_sound hrun ⟨by decide, by decide⟩

/-- The frame of an `AbortCw`, as a console sends it. -/
def abortFrame : List UInt8 :=
  [1, 0, 0, 0, 35,
    0x7B, 0x22, 0x74, 0x79, 0x70, 0x65, 0x22, 0x3A, 0x22, 0x63, 0x6F, 0x6D, 0x6D, 0x61, 0x6E,
    0x64, 0x22, 0x2C, 0x22, 0x63, 0x6D, 0x64, 0x22, 0x3A, 0x22, 0x61, 0x62, 0x6F, 0x72, 0x74,
    0x5F, 0x63, 0x77, 0x22, 0x7D]

def unknownFrame : List UInt8 :=
  [9, 0, 0, 0, 0]

def stuckPending (n : Nat) : List UInt8 :=
  unknownFrame ++ (List.replicate n abortFrame).flatten

theorem frames_drain_unknown (rest : List UInt8)
    : frames.drain (unknownFrame ++ rest) = ([], unknownFrame ++ rest) := by
  apply frames.drain_none
  rfl

theorem stuckPending_succ (n : Nat) : stuckPending (n + 1) = stuckPending n ++ abortFrame := by
  simp [stuckPending, List.replicate_succ']

theorem length_stuckPending (n : Nat) : (stuckPending n).length = 5 + n * 40 := by
  induction n with
  | zero => rfl
  | succ n ih =>
    have habort : abortFrame.length = 40 := by rfl
    rw [stuckPending_succ, List.length_append, ih, habort]
    omega

theorem serveOne_stuck {chunk rest : List UInt8} (hpos : 0 < chunk.length)
    (hlen : chunk.length ≤ bufLen)
    : serveOne silentProtocol { pending := unknownFrame ++ rest, session := () } (.read chunk calm)
      = some ([.received chunk],
        { pending := unknownFrame ++ (rest ++ chunk), session := () }) := by
  simp only [serveOne, pass, hpos, hlen, List.append_assoc, frames_drain_unknown]
  rfl

theorem runs_stuck (n : Nat)
    : ∃ log, (serveOne silentProtocol).Runs anything { session := () } log
        { pending := stuckPending n, session := () }
      ∧ received log = stuckPending n ∧ answered log = [] := by
  induction n with
  | zero =>
    refine ⟨[.received unknownFrame], ?_, rfl, rfl⟩
    exact Machine.runs_play [.read unknownFrame calm] rfl
  | succ n ih =>
    rcases ih with ⟨log, hrun, hreceived, hanswered⟩
    refine ⟨[.received abortFrame].reverse ++ log, ?_, ?_, ?_⟩
    . apply hrun.tail
      apply Machine.Step.act (.read abortFrame calm) trivial
      rw [stuckPending_succ, stuckPending, serveOne_stuck (by decide) (by decide),
        List.append_assoc]
    . rw [received_append, hreceived, stuckPending_succ]
      simp [Event.chunk]
    . rw [answered_append, hanswered]
      rfl

theorem framing_drain_aborts (n : Nat)
    : (framing.drain (List.replicate n abortFrame).flatten).1
      = List.replicate n { kind := 1, payload := abortFrame.drop 5 } := by
  induction n with
  | zero => rfl
  | succ n ih =>
    have hnext : framing.next (List.replicate (n + 1) abortFrame).flatten
        = some ({ kind := 1, payload := abortFrame.drop 5 },
          (List.replicate n abortFrame).flatten) := by
      rw [List.replicate_succ, List.flatten_cons]
      exact framing_frame (abortFrame.drop 5) (by decide)
    rw [framing.drain_some hnext, ih]
    rfl

theorem controls_stuck (n : Nat)
    : controls (stuckPending n) = List.replicate n (abortFrame.drop 5) := by
  have hnext : framing.next (stuckPending n)
      = some ({ kind := 9, payload := [] }, (List.replicate n abortFrame).flatten) := by
    exact framing_frame [] (by decide)
  have hcontrol : RawFrame.isControl { kind := 1, payload := abortFrame.drop 5 } = true := by
    decide
  rw [controls, framing.drain_some hnext, framing_drain_aborts, List.filter_cons_of_neg (by decide),
    List.filter_replicate_of_pos hcontrol, List.map_replicate]

/-- One frame of an unknown kind, and no `AbortCw` is ever answered, however many are sent. -/
theorem unknown_kind_stalls
    : ∃ log s, (serveOne silentProtocol).Runs anything { session := () } log s
      ∧ s.isOpen = true ∧ answered log = [] ∧ abortFrame.drop 5 ∈ controls (received log)
      ∧ s.pending.length > 5 + maxControlBytes := by
  rcases runs_stuck maxControlBytes with ⟨log, hrun, hreceived, hanswered⟩
  refine ⟨log, _, hrun, rfl, hanswered, ?_, ?_⟩
  . rw [hreceived, controls_stuck]
    exact List.mem_replicate.mpr ⟨by decide, rfl⟩
  . have hlen := length_stuckPending maxControlBytes
    have hpos : 0 < maxControlBytes := by decide
    dsimp only
    omega

end Native
