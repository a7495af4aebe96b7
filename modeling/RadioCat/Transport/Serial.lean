import RadioCat.Server.Dispatch
import RadioCat.Trace.Machine

/-!
This module contains the sessions over a byte port, which write a request and then read byte by byte
until the frame is complete, and what they return when bytes were waiting in the port already.
-/

namespace Serial

open Trace Server

inductive TransportError where
  | io (error : String)
  | notOpen
  | writeTimeout
  | readTimeout
  | other (error : String)
  deriving DecidableEq, Repr

/-- A byte, and how many bytes the port had received before it. -/
structure Received where
  value : UInt8
  arrival : Nat
  deriving DecidableEq, Repr

inductive Op where
  | write (data : List UInt8)
  | read (len : Nat)
  deriving DecidableEq, Repr

inductive Reply where
  | written (n : Nat)
  | bytes (bytes : List Received)
  | failed (e : TransportError)
  deriving DecidableEq, Repr

/--
The future of an operation is started, polled until it is ready, and dropped if its reader loses
interest. Meanwhile the threads of the port and the wire do something that is not up to the session.
-/
structure Transport (σ β : Type) where
  start : σ → Op → σ
  poll : σ → Op → Option (Reply × σ)
  cancel : σ → σ
  flush : σ → Option TransportError
  flushRx : σ → σ := id
  drain : σ → σ := id
  background : σ → β → Option σ

/--
`owed` is how many bytes will still go to reads whose futures were dropped.
-/
structure Port (σ β : Type) extends Transport σ β where
  unread : σ → List Received
  arrivals : σ → Nat
  owed : σ → Nat

def maxFrameLen : Nat := 64

/-- Frames of the ASCII protocols end with `;`. -/
def asciiFrameComplete (buffer : List UInt8) : Bool :=
  buffer.getLast? == some 0x3B

inductive Kind where
  | execute
  | send
  deriving DecidableEq, Repr

inductive Stage where
  | writing
  | reading
  deriving DecidableEq, Repr

/-- `given` is what the caller's buffer holds already, `before` is the port that the call found. -/
structure Exchange (σ : Type) where
  before : σ
  kind : Kind
  request : List UInt8
  given : List UInt8
  stage : Stage := .writing
  response : List Received := []

structure SerialCatSession (σ : Type) where
  port : σ
  exchange : Option (Exchange σ) := none

inductive Action (β : Type) where
  | execute (request given : List UInt8)
  | send (request : List UInt8)
  | poll (expired : Bool)
  | drop
  | flushRx
  | port (b : β)
  deriving DecidableEq, Repr

inductive Event (σ : Type) where
  | returned (before : σ) (disposition : ResponseDisposition) (given : List UInt8)
      (response : List Received)
  | sent
  | failed (e : TransportError)
  deriving DecidableEq

abbrev Log (σ : Type) := List (Event σ)

variable {σ β : Type}

def Exchange.text (x : Exchange σ) : List UInt8 :=
  x.given ++ x.response.map Received.value

namespace SerialCatSession

def fail (port : σ) (e : TransportError) : Log σ × SerialCatSession σ :=
  ([.failed e], { port })

def finish (x : Exchange σ) (port : σ) : Log σ × SerialCatSession σ :=
  ([.returned x.before (if x.text.isEmpty then .noResponse else .responseWritten) x.given
      x.response],
    { port })

def again (T : Transport σ β) (expired : Bool) (x : Exchange σ) (port : σ)
    : Log σ × SerialCatSession σ :=
  if expired then
    fail (T.flushRx port) .readTimeout
  else
    ([], { port := T.start port (.read 1), exchange := some { x with stage := .reading } })

def push (T : Transport σ β) (frameComplete : List UInt8 → Bool) (expired : Bool)
    (x : Exchange σ) (port : σ) : Log σ × SerialCatSession σ :=
  if frameComplete x.text then
    finish x port
  else if x.text.length ≥ maxFrameLen then
    fail (T.flushRx port) (.other "response exceeded 64 bytes with no terminator")
  else
    again T expired x port

def flushed (T : Transport σ β) (expired : Bool) (x : Exchange σ) (port : σ)
    : Log σ × SerialCatSession σ :=
  match T.flush port with
  | some e => fail port e
  | none =>
    match x.kind with
    | .send => ([.sent], { port := T.drain port })
    | .execute => again T expired x port

/-- One poll of the call that is under way, as far as the next operation of the port. -/
def poll (T : Transport σ β) (frameComplete : List UInt8 → Bool) (expired : Bool)
    (x : Exchange σ) (port : σ) : Option (Log σ × SerialCatSession σ) :=
  match x.stage with
  | .writing =>
    match T.poll port (.write x.request) with
    | some (.written _, port) => some (flushed T expired x port)
    | some (.failed e, port) => some (fail port e)
    | _ => none
  | .reading =>
    match T.poll port (.read 1) with
    | some (.bytes [], port) => some (finish x port)
    | some (.bytes (b :: _), port) =>
      some (push T frameComplete expired { x with response := x.response ++ [b] } port)
    | some (.failed e, port) => some (fail (T.flushRx port) e)
    | _ => none

def machine (T : Transport σ β) (frameComplete : List UInt8 → Bool)
    : Machine (SerialCatSession σ) (Action β) (Event σ)
  | s, .execute request given =>
    match s.exchange with
    | none =>
      some ([],
        { port := T.start (T.drain s.port) (.write request)
          exchange := some { before := s.port, kind := .execute, request, given } })
    | some _ => none
  | s, .send request =>
    match s.exchange with
    | none =>
      some ([],
        { port := T.start s.port (.write request)
          exchange := some { before := s.port, kind := .send, request, given := [] } })
    | some _ => none
  | s, .poll expired =>
    match s.exchange with
    | none => none
    | some x => poll T frameComplete expired x s.port
  | s, .drop => some ([], { port := T.cancel s.port })
  | s, .flushRx =>
    match s.exchange with
    | none => some ([], { s with port := T.flushRx s.port })
    | some _ => none
  | s, .port b =>
    match T.background s.port b with
    | none => none
    | some port => some ([], { s with port })

end SerialCatSession

/--
What is needed to know of a port to tell which bytes a call returns. `clean m` says that no byte
which is still to be read was there before the `m`-th, `stale old` says that the next one is one of
`old`.
-/
structure Port.Accounts (P : Port σ β) (clean : Nat → σ → Prop) (stale : List Received → σ → Prop)
    : Prop where
  clean_of_empty {p : σ} (op : Op) : P.unread p = [] → clean (P.arrivals p) (P.start (P.drain p) op)
  clean_start {m : Nat} {p : σ} (op : Op) : clean m p → clean m (P.start p op)
  clean_poll {m : Nat} {p q : σ} {op : Op} {reply : Reply}
    : clean m p → P.poll p op = some (reply, q) → clean m q
  clean_background {m : Nat} {p q : σ} {b : β} : clean m p → P.background p b = some q → clean m q
  clean_bytes {m : Nat} {p q : σ} {op : Op} {bytes : List Received}
    : clean m p → P.poll p op = some (.bytes bytes, q) → ∀ b ∈ bytes, m ≤ b.arrival
  stale_of_owed {p : σ} (op : Op)
    : P.owed p < (P.unread p).length → stale (P.unread p) (P.start (P.drain p) op)
  stale_written {old : List Received} {p q : σ} {op : Op} {n : Nat} (op' : Op)
    : stale old p → P.poll p op = some (.written n, q) → stale old (P.start q op')
  stale_background {old : List Received} {p q : σ} {b : β}
    : stale old p → P.background p b = some q → stale old q
  stale_bytes {old : List Received} {p q : σ} {bytes : List Received}
    : stale old p → P.poll p (.read 1) = some (.bytes bytes, q) →
      ∃ b rest, bytes = b :: rest ∧ b ∈ old

/-- Which bytes a call may return, and which one it must. -/
structure Port.Judged (P : Port σ β) (before : σ) (response : List Received) : Prop where
  fresh : P.unread before = [] → ∀ b ∈ response, P.arrivals before ≤ b.arrival
  stale : P.owed before < (P.unread before).length → ∃ b ∈ response, b ∈ P.unread before

def Event.Judged (P : Port σ β) : Event σ → Log σ → Prop
  | .returned before _ _ response, _ => P.Judged before response
  | _, _ => True

section

variable {P : Port σ β} {clean : Nat → σ → Prop} {stale : List Received → σ → Prop}
  {x : Exchange σ} {p q : σ} {frameComplete : List UInt8 → Bool} {expired : Bool}
  {log evs : Log σ} {s t : SerialCatSession σ}

/-- The part of the response that is there already, and the port that the rest will come from. -/
structure Tracked (P : Port σ β) (clean : Nat → σ → Prop) (stale : List Received → σ → Prop)
    (x : Exchange σ) (p : σ) : Prop where
  fresh : P.unread x.before = [] →
    clean (P.arrivals x.before) p ∧ ∀ b ∈ x.response, P.arrivals x.before ≤ b.arrival
  stale : P.owed x.before < (P.unread x.before).length →
    x.response = [] ∧ stale (P.unread x.before) p ∨ ∃ b ∈ x.response, b ∈ P.unread x.before

theorem Tracked.background {b : β} (hP : P.Accounts clean stale) (h : Tracked P clean stale x p)
    (taken : P.background p b = some q)
    : Tracked P clean stale x q := by
  constructor
  . intro hempty
    rcases h.fresh hempty with ⟨hclean, hresponse⟩
    exact ⟨hP.clean_background hclean taken, hresponse⟩
  . intro howed
    rcases h.stale howed with ⟨hnil, hstale⟩ | hresponse
    . exact Or.inl ⟨hnil, hP.stale_background hstale taken⟩
    . exact Or.inr hresponse

theorem Tracked.written {op : Op} {n : Nat} (hP : P.Accounts clean stale)
    (h : Tracked P clean stale x p) (taken : P.poll p op = some (.written n, q)) (stage : Stage)
    : Tracked P clean stale { x with stage } (P.start q (.read 1)) := by
  constructor
  . intro hempty
    rcases h.fresh hempty with ⟨hclean, hresponse⟩
    exact ⟨hP.clean_start _ (hP.clean_poll hclean taken), hresponse⟩
  . intro howed
    rcases h.stale howed with ⟨hnil, hstale⟩ | hresponse
    . exact Or.inl ⟨hnil, hP.stale_written _ hstale taken⟩
    . exact Or.inr hresponse

theorem Tracked.judged_nil (hP : P.Accounts clean stale) (h : Tracked P clean stale x p)
    (taken : P.poll p (.read 1) = some (.bytes [], q))
    : P.Judged x.before x.response := by
  constructor
  . intro hempty
    exact (h.fresh hempty).2
  . intro howed
    rcases h.stale howed with ⟨_, hstale⟩ | hresponse
    . rcases hP.stale_bytes hstale taken with ⟨b, rest, hbytes, _⟩
      cases hbytes
    . exact hresponse

theorem Tracked.judged_cons {b : Received} {rest : List Received} (hP : P.Accounts clean stale)
    (h : Tracked P clean stale x p) (taken : P.poll p (.read 1) = some (.bytes (b :: rest), q))
    : P.Judged x.before (x.response ++ [b]) := by
  constructor
  . intro hempty
    rcases h.fresh hempty with ⟨hclean, hresponse⟩
    intro b' hmem
    rcases List.mem_append.mp hmem with hmem | hmem
    . exact hresponse b' hmem
    . cases List.mem_singleton.mp hmem
      exact hP.clean_bytes hclean taken b List.mem_cons_self
  . intro howed
    rcases h.stale howed with ⟨_, hstale⟩ | ⟨b', hmem, hold⟩
    . rcases hP.stale_bytes hstale taken with ⟨_, _, hbytes, hold⟩
      cases hbytes
      exact ⟨b, List.mem_append_right _ List.mem_cons_self, hold⟩
    . exact ⟨b', List.mem_append_left _ hmem, hold⟩

theorem Tracked.bytes {b : Received} {rest : List Received} (hP : P.Accounts clean stale)
    (h : Tracked P clean stale x p) (taken : P.poll p (.read 1) = some (.bytes (b :: rest), q))
    (stage : Stage)
    : Tracked P clean stale { x with response := x.response ++ [b], stage }
      (P.start q (.read 1)) := by
  have hjudged := h.judged_cons hP taken
  constructor
  . intro hempty
    rcases h.fresh hempty with ⟨hclean, _⟩
    exact ⟨hP.clean_start _ (hP.clean_poll hclean taken), hjudged.fresh hempty⟩
  . intro howed
    exact Or.inr (hjudged.stale howed)

structure Accounted (P : Port σ β) (clean : Nat → σ → Prop) (stale : List Received → σ → Prop)
    (log : Log σ) (s : SerialCatSession σ) : Prop where
  tracked : ∀ x, s.exchange = some x → x.kind = .execute ∨ x.stage = .reading →
    Tracked P clean stale x s.port
  judged : Each (Event.Judged P) log

theorem Accounted.ends (h : Accounted P clean stale log s)
    (hevs : ∀ e ∈ evs, ∀ log, e.Judged P log) (port : σ)
    : Accounted P clean stale (evs.reverse ++ log) { port } := by
  constructor
  . intro x hx
    cases hx
  . exact h.judged.append hevs

theorem Accounted.fail (h : Accounted P clean stale log s) (port : σ) (e : TransportError)
    (taken : SerialCatSession.fail port e = (evs, t))
    : Accounted P clean stale (evs.reverse ++ log) t := by
  cases taken
  refine h.ends ?_ port
  intro e he log
  cases List.mem_singleton.mp he
  trivial

theorem Accounted.finish (h : Accounted P clean stale log s)
    (hjudged : P.Judged x.before x.response) (taken : SerialCatSession.finish x p = (evs, t))
    : Accounted P clean stale (evs.reverse ++ log) t := by
  cases taken
  refine h.ends ?_ p
  intro e he log
  cases List.mem_singleton.mp he
  exact hjudged

theorem Accounted.again (h : Accounted P clean stale log s)
    (hx : Tracked P clean stale { x with stage := .reading } (P.start p (.read 1)))
    (taken : SerialCatSession.again P.toTransport expired x p = (evs, t))
    : Accounted P clean stale (evs.reverse ++ log) t := by
  unfold SerialCatSession.again at taken
  split at taken
  . exact h.fail _ _ taken
  . cases taken
    constructor
    . rintro _ ⟨⟩ _
      exact hx
    . exact h.judged

theorem Accounted.push (h : Accounted P clean stale log s)
    (hjudged : P.Judged x.before x.response)
    (hx : Tracked P clean stale { x with stage := .reading } (P.start p (.read 1)))
    (taken : SerialCatSession.push P.toTransport frameComplete expired x p = (evs, t))
    : Accounted P clean stale (evs.reverse ++ log) t := by
  unfold SerialCatSession.push at taken
  split at taken
  . exact h.finish hjudged taken
  . split at taken
    . exact h.fail _ _ taken
    . exact h.again hx taken

theorem Accounted.flushed (h : Accounted P clean stale log s)
    (hx : x.kind = .execute →
      Tracked P clean stale { x with stage := .reading } (P.start p (.read 1)))
    (taken : SerialCatSession.flushed P.toTransport expired x p = (evs, t))
    : Accounted P clean stale (evs.reverse ++ log) t := by
  unfold SerialCatSession.flushed at taken
  split at taken
  next => exact h.fail _ _ taken
  next =>
    split at taken
    next =>
      cases taken
      refine h.ends ?_ _
      intro e he log
      cases List.mem_singleton.mp he
      trivial
    next hkind => exact h.again (hx hkind) taken

theorem Accounted.poll (hP : P.Accounts clean stale) (h : Accounted P clean stale log s)
    (hx : s.exchange = some x)
    (taken : SerialCatSession.poll P.toTransport frameComplete expired x s.port = some (evs, t))
    : Accounted P clean stale (evs.reverse ++ log) t := by
  revert taken
  fun_cases SerialCatSession.poll P.toTransport frameComplete expired x s.port
  case case1 n port hpoll =>
    intro taken
    refine h.flushed ?_ (Option.some.inj taken)
    intro hkind
    exact (h.tracked x hx (Or.inl hkind)).written hP hpoll .reading
  case case2 =>
    intro taken
    exact h.fail _ _ (Option.some.inj taken)
  case case4 hstage port hpoll =>
    intro taken
    have htracked := h.tracked x hx (Or.inr hstage)
    exact h.finish (htracked.judged_nil hP hpoll) (Option.some.inj taken)
  case case5 hstage b rest port hpoll =>
    intro taken
    have htracked := h.tracked x hx (Or.inr hstage)
    exact h.push (htracked.judged_cons hP hpoll) (htracked.bytes hP hpoll .reading)
      (Option.some.inj taken)
  case case6 =>
    intro taken
    exact h.fail _ _ (Option.some.inj taken)
  all_goals rintro ⟨⟩

theorem Tracked.start (hP : P.Accounts clean stale) (p : σ) (request given : List UInt8)
    : Tracked P clean stale { before := p, kind := .execute, request, given }
      (P.start (P.drain p) (.write request)) := by
  constructor
  . intro hempty
    exact ⟨hP.clean_of_empty _ hempty, by simp⟩
  . intro howed
    exact Or.inl ⟨rfl, hP.stale_of_owed _ howed⟩

theorem Accounted.step {a : Action β} (hP : P.Accounts clean stale)
    (h : Accounted P clean stale log s)
    (taken : SerialCatSession.machine P.toTransport frameComplete s a = some (evs, t))
    : Accounted P clean stale (evs.reverse ++ log) t := by
  revert taken
  fun_cases SerialCatSession.machine P.toTransport frameComplete s a
  case case6 x hx =>
    intro taken
    exact h.poll hP hx taken
  all_goals rintro ⟨⟩
  case case1 request given _ =>
    refine ⟨?_, h.judged⟩
    rintro _ ⟨⟩ _
    exact Tracked.start hP s.port request given
  case case3 =>
    refine ⟨?_, h.judged⟩
    rintro _ ⟨⟩ hkind
    rcases hkind with hkind | hkind
    . cases hkind
    . cases hkind
  case case7 => exact h.ends (by simp) _
  case case8 hnone =>
    refine ⟨?_, h.judged⟩
    intro x hx
    rw [hnone] at hx
    cases hx
  case case11 hbackground =>
    refine ⟨?_, h.judged⟩
    intro x hx hkind
    exact (h.tracked x hx hkind).background hP hbackground

theorem runs_judged (hP : P.Accounts clean stale)
    (h : (SerialCatSession.machine P.toTransport frameComplete).Runs anything { port := p } log s)
    : Each (Event.Judged P) log := by
  have haccounted : Accounted P clean stale log s := by
    apply Machine.Runs.invariant (Accounted P clean stale) _ _ h
    . refine ⟨?_, trivial⟩
      intro x hx
      cases hx
    . intro _ _ _ _ _ hI _ taken
      exact hI.step hP taken
  exact haccounted.judged

end

end Serial
