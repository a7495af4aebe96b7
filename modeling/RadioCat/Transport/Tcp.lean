import RadioCat.Native.Stream
import RadioCat.Trace.Machine

/-!
This module contains the TCP session: requests and responses are frames with their length in front,
and a response belongs to a request only by its place in the stream. A call can be dropped at any
point, which ends its exchange on Linux, and leaves it to a worker thread on Windows.
-/

namespace Tcp

open Trace

inductive Backend where
  | linux
  | windows
  deriving DecidableEq, Repr

inductive TcpSessionError where
  | io
  | frameTooLarge (len : Nat)
  deriving DecidableEq, Repr

def maxFrameSize : Nat := 64 * 1024

def encodeFrame (payload : List UInt8) : Except TcpSessionError (List UInt8) :=
  if payload.length > maxFrameSize then
    .error (.frameTooLarge (min payload.length (2 ^ 32 - 1)))
  else
    .ok (Native.toBeBytes payload.length ++ payload)

-- What `read_frame` makes of the bytes it has: it asks for more, refuses the length, or is done.
inductive Parsed where
  | more (need : Nat)
  | tooLarge (len : Nat)
  | frame (payload rest : List UInt8)
  deriving DecidableEq, Repr

def parse : List UInt8 → Parsed
  | a :: b :: c :: d :: rest =>
    let len := Native.fromBeBytes a b c d
    if len > maxFrameSize then
      .tooLarge len
    else if rest.length < len then
      .more (len - rest.length)
    else
      .frame (rest.take len) (rest.drop len)
  | short => .more (4 - short.length)

-- A byte on the wire, and the call on whose account it was sent.
structure Byte where
  value : UInt8
  owner : Nat
  deriving DecidableEq, Repr

def mark (owner : Nat) (bytes : List UInt8) : List Byte :=
  bytes.map fun value => { value, owner }

structure Exchange where
  id : Nat
  request : List UInt8
  unwritten : List UInt8
  got : List Byte := []
  deriving DecidableEq, Repr

structure Session where
  -- The requests whose exchange has not begun, and the exchange that has.
  queue : List (Nat × List UInt8) := []
  current : Option Exchange := none
  -- The call that waits for its response.
  waiting : Option Nat := none
  outbound : List Byte := []
  inbound : List Byte := []
  broken : Bool := false
  nextId : Nat := 0
  deriving DecidableEq, Repr

inductive Action where
  | execute (request : List UInt8)
  | begin
  | write (n : Nat)
  | read (n : Nat)
  | fail
  | cancel (sent lost : Nat)
  | answer (response : List UInt8)
  deriving DecidableEq, Repr

inductive Event where
  | called (id : Nat) (request : List UInt8)
  | returned (id : Nat) (result : Except TcpSessionError (List UInt8))
  | cancelled (id : Nat)
  | answered (owner : Nat) (request response : List UInt8)
  deriving DecidableEq

namespace Session

/-- The exchange is over. Its result is lost if the call was dropped. -/
def finish (s : Session) (id : Nat) (result : Except TcpSessionError (List UInt8))
    : List Event × Session :=
  if s.waiting = some id then
    ([.returned id result], { s with current := none, waiting := none })
  else
    ([], { s with current := none })

def begin (s : Session) (id : Nat) (request : List UInt8) : List Event × Session :=
  match encodeFrame request with
  | .error e => s.finish id (.error e)
  | .ok frame =>
    if s.broken then
      s.finish id (.error .io)
    else
      ([], { s with current := some { id, request, unwritten := frame } })

def received (s : Session) (ex : Exchange) : List Event × Session :=
  match parse (ex.got.map Byte.value) with
  | .more _ => ([], { s with current := some ex })
  | .tooLarge len => s.finish ex.id (.error (.frameTooLarge len))
  | .frame payload _ => s.finish ex.id (.ok payload)

def need (ex : Exchange) : Nat :=
  match parse (ex.got.map Byte.value) with
  | .more n => n
  | _ => 0

/-- The exchange is left where it stands. Of the operation it was in, the kernel may still complete
a part: bytes are sent, or taken off the stream and lost. -/
def abandon (s : Session) (sent lost : Nat) : Session :=
  match s.current with
  | none => s
  | some ex =>
    { s with
      current := none
      outbound := s.outbound ++ mark ex.id (ex.unwritten.take sent)
      inbound := if ex.unwritten = [] then s.inbound.drop (min lost (need ex)) else s.inbound }

def cancel (backend : Backend) (s : Session) (sent lost : Nat) : Session :=
  match backend with
  | .linux => abandon { s with waiting := none, queue := [] } sent lost
  | .windows => { s with waiting := none }

/-- The peer takes a whole frame off the stream, and sends its response. -/
def answer (s : Session) (response : List UInt8) : Option (List Event × Session) :=
  match s.outbound, parse (s.outbound.map Byte.value), encodeFrame response with
  | first :: _, .frame request _, .ok frame =>
    some ([.answered first.owner request response],
      { s with
        outbound := s.outbound.drop (4 + request.length)
        inbound := s.inbound ++ mark first.owner frame })
  | _, _, _ => none

def machine (backend : Backend) : Machine Session Action Event
  | s, .execute request =>
    if s.waiting = none then
      some ([.called s.nextId request],
        { s with
          queue := s.queue ++ [(s.nextId, request)]
          waiting := some s.nextId
          nextId := s.nextId + 1 })
    else
      none
  | s, .begin =>
    match s.current, s.queue with
    | none, (id, request) :: queue => some (begin { s with queue } id request)
    | _, _ => none
  | s, .write n =>
    match s.current with
    | some ex =>
      if 0 < n ∧ n ≤ ex.unwritten.length then
        some ([],
          { s with
            current := some { ex with unwritten := ex.unwritten.drop n }
            outbound := s.outbound ++ mark ex.id (ex.unwritten.take n) })
      else
        none
    | none => none
  | s, .read n =>
    match s.current with
    | some ex =>
      if ex.unwritten = [] ∧ 0 < n ∧ n ≤ need ex ∧ n ≤ s.inbound.length then
        some (received { s with inbound := s.inbound.drop n }
          { ex with got := ex.got ++ s.inbound.take n })
      else
        none
    | none => none
  | s, .fail =>
    match s.current with
    | some ex => some (finish { s with broken := true } ex.id (.error .io))
    | none => none
  | s, .cancel sent lost =>
    match s.waiting with
    | some id => some ([.cancelled id], s.cancel backend sent lost)
    | none => none
  | s, .answer response => s.answer response

end Session

theorem encodeFrame_ok {payload frame : List UInt8} (h : encodeFrame payload = .ok frame)
    : payload.length ≤ maxFrameSize ∧ frame = Native.toBeBytes payload.length ++ payload := by
  unfold encodeFrame at h
  split at h
  . cases h
  . cases h
    exact ⟨by omega, rfl⟩

theorem length_encodeFrame {payload frame : List UInt8} (h : encodeFrame payload = .ok frame)
    : frame.length = 4 + payload.length := by
  rw [(encodeFrame_ok h).2, List.length_append]
  rfl

theorem parse_header {payload : List UInt8} (h : payload.length ≤ maxFrameSize) (rest : List UInt8)
    : parse (Native.toBeBytes payload.length ++ rest)
      = if rest.length < payload.length then .more (payload.length - rest.length)
        else .frame (rest.take payload.length) (rest.drop payload.length) := by
  have hlen : payload.length < 2 ^ 32 := by
    unfold maxFrameSize at h
    omega
  simp only [Native.toBeBytes, List.cons_append, List.nil_append, parse,
    Native.fromBeBytes_ofNat hlen]
  apply if_neg
  omega

theorem parse_part {payload part missing : List UInt8}
    (h : encodeFrame payload = .ok (part ++ missing))
    : (∃ n, parse part = .more n) ∨ missing = [] ∧ parse part = .frame payload [] := by
  rcases encodeFrame_ok h with ⟨hsize, hframe⟩
  match part with
  | [] | [_] | [_, _] | [_, _, _] => exact .inl ⟨_, rfl⟩
  | a :: b :: c :: d :: rest =>
    have hpayload : a :: b :: c :: d :: rest = Native.toBeBytes payload.length ++ rest := by
      simp only [Native.toBeBytes, List.cons_append, List.nil_append, List.cons.injEq] at hframe ⊢
      simp only [hframe, and_self]
    rw [hpayload, List.append_assoc, List.append_cancel_left_eq] at hframe
    rw [hpayload, parse_header hsize]
    by_cases hshort : rest.length < payload.length
    . rw [if_pos hshort]
      exact .inl ⟨_, rfl⟩
    . have hmissing : missing = [] := by
        apply List.eq_nil_of_length_eq_zero
        have hlength := congrArg List.length hframe
        rw [List.length_append] at hlength
        omega
      rw [hmissing, List.append_nil] at hframe
      rw [if_neg hshort, hframe, List.take_length, List.drop_length]
      exact .inr ⟨hmissing, rfl⟩

@[simp]
theorem map_value_mark (owner : Nat) (bytes : List UInt8)
    : (mark owner bytes).map Byte.value = bytes := by
  simp [mark, Function.comp_def]

theorem mark_append (owner : Nat) (xs ys : List UInt8)
    : mark owner (xs ++ ys) = mark owner xs ++ mark owner ys := by
  simp only [mark, List.map_append]

namespace Session

/-- Where the bytes of an exchange are: a part of the request is on the stream, or the response is,
after the part that was read. -/
inductive Phase (log : List Event) (s : Session) (ex : Exchange) : Prop where
  | writing (written : List UInt8)
      (hframe : encodeFrame ex.request = .ok (written ++ ex.unwritten))
      (hout : s.outbound = mark ex.id written) (hin : s.inbound = []) (hgot : ex.got = [])
  | reading (response frame : List UInt8) (hwritten : ex.unwritten = []) (hout : s.outbound = [])
      (hanswered : .answered ex.id ex.request response ∈ log)
      (hframe : encodeFrame response = .ok frame) (hin : ex.got ++ s.inbound = mark ex.id frame)

def Answered (log : List Event) (id : Nat) (payload : List UInt8) : Prop :=
  ∃ request, .called id request ∈ log ∧ .answered id request payload ∈ log

def Owned (log : List Event) : Prop :=
  ∀ id payload, .returned id (.ok payload) ∈ log → Answered log id payload

structure Paired (log : List Event) (s : Session) : Prop where
  queued : ∀ job ∈ s.queue, .called job.1 job.2 ∈ log
  running : ∀ ex, s.current = some ex →
    s.broken = false ∧ .called ex.id ex.request ∈ log ∧ Phase log s ex
  idle : s.current = none → s.broken = false → s.outbound = [] ∧ s.inbound = []
  owned : Owned log

-- On Linux, a call is dropped only while no byte of its request was sent.
def tidy (backend : Backend) : Discipline Session Action
  | s, .cancel sent _ =>
    backend = .windows ∨
      ∀ ex ∈ s.current, encodeFrame ex.request = .ok ex.unwritten ∧ sent = 0
  | _, _ => True

instance (backend : Backend) (s : Session) (a : Action) : Decidable (tidy backend s a) := by
  cases a <;> unfold tidy <;> infer_instance

theorem Answered.mono {log : List Event} {id : Nat} {payload : List UInt8}
    (h : Answered log id payload) (evs : List Event) : Answered (evs ++ log) id payload := by
  rcases h with ⟨request, hcalled, hanswered⟩
  exact ⟨request, List.mem_append_right _ hcalled, List.mem_append_right _ hanswered⟩

theorem Phase.mono {log : List Event} {s : Session} {ex : Exchange} (h : Phase log s ex)
    (evs : List Event) : Phase (evs ++ log) s ex := by
  cases h with
  | writing written hframe hout hin hgot => exact .writing written hframe hout hin hgot
  | reading response frame hwritten hout hanswered hframe hin =>
    exact .reading response frame hwritten hout (List.mem_append_right _ hanswered) hframe hin

theorem Phase.congr {log : List Event} {s t : Session} {ex : Exchange} (h : Phase log s ex)
    (hout : t.outbound = s.outbound) (hin : t.inbound = s.inbound) : Phase log t ex := by
  cases h with
  | writing written hframe hout' hin' hgot =>
    exact .writing written hframe (hout.trans hout') (hin.trans hin') hgot
  | reading response frame hwritten hout' hanswered hframe hin' =>
    exact .reading response frame hwritten (hout.trans hout') hanswered hframe (hin ▸ hin')

theorem Owned.cons {log : List Event} (h : Owned log) {e : Event}
    (he : ∀ id payload, e = .returned id (.ok payload) → Answered log id payload)
    : Owned (e :: log) := by
  intro id payload hmem
  rcases List.mem_cons.mp hmem with heq | hmem
  . exact (he id payload heq.symm).mono [e]
  . exact (h id payload hmem).mono [e]

theorem Paired.finish {log : List Event} {s : Session}
    (hqueued : ∀ job ∈ s.queue, Event.called job.1 job.2 ∈ log)
    (hidle : s.broken = false → s.outbound = [] ∧ s.inbound = []) (howned : Owned log) {id : Nat}
    {result : Except TcpSessionError (List UInt8)}
    (hresult : ∀ payload, result = .ok payload → Answered log id payload)
    : Paired ((s.finish id result).1.reverse ++ log) (s.finish id result).2 := by
  unfold Session.finish
  split
  . apply Paired.mk
    . intro job hjob
      exact .tail _ (hqueued job hjob)
    . intro ex hex
      cases hex
    . intro _
      exact hidle
    . apply howned.cons
      rintro _ payload ⟨⟩
      exact hresult payload rfl
  . apply Paired.mk
    . exact hqueued
    . intro ex hex
      cases hex
    . intro _
      exact hidle
    . exact howned

namespace Paired

variable {backend : Backend} {log : List Event} {s t : Session}

theorem requeue (h : Paired log s) {queue : List (Nat × List UInt8)}
    (hqueued : ∀ job ∈ queue, Event.called job.1 job.2 ∈ log) (waiting : Option Nat) (nextId : Nat)
    : Paired log { s with queue, waiting, nextId } := by
  refine { queued := hqueued, running := ?_, idle := h.idle, owned := h.owned }
  intro ex hex
  rcases h.running ex hex with ⟨hbroken, hcalled, hphase⟩
  exact ⟨hbroken, hcalled, hphase.congr rfl rfl⟩

theorem dequeue (h : Paired log s) {id : Nat} {request : List UInt8}
    {queue : List (Nat × List UInt8)} (hqueue : s.queue = (id, request) :: queue)
    : .called id request ∈ log ∧ Paired log { s with queue } := by
  have hqueued := h.queued
  rw [hqueue] at hqueued
  apply And.intro
  . exact hqueued (id, request) (.head _)
  . apply h.requeue
    intro job hjob
    exact hqueued job (.tail _ hjob)

theorem begin (h : Paired log s) (hcurrent : s.current = none) {id : Nat} {request : List UInt8}
    (hcalled : .called id request ∈ log)
    : Paired ((s.begin id request).1.reverse ++ log) (s.begin id request).2 := by
  fun_cases Session.begin s id request
  case case1 e _ =>
    apply Paired.finish h.queued (h.idle hcurrent) h.owned
    rintro payload ⟨⟩
  case case2 frame _ _ =>
    apply Paired.finish h.queued (h.idle hcurrent) h.owned
    rintro payload ⟨⟩
  case case3 frame hframe hbroken =>
    have hbroken' : s.broken = false := Bool.not_eq_true _ ▸ hbroken
    rcases h.idle hcurrent hbroken' with ⟨hout, hin⟩
    apply Paired.mk
    . exact h.queued
    . rintro _ ⟨⟩
      exact ⟨hbroken', hcalled, .writing [] hframe hout hin rfl⟩
    . rintro ⟨⟩
    . exact h.owned

theorem write (h : Paired log s) {ex : Exchange} (hcurrent : s.current = some ex) {n : Nat}
    (hn : 0 < n ∧ n ≤ ex.unwritten.length)
    : Paired log
      { s with
        current := some { ex with unwritten := ex.unwritten.drop n }
        outbound := s.outbound ++ mark ex.id (ex.unwritten.take n) } := by
  rcases h.running ex hcurrent with ⟨hbroken, hcalled, hphase⟩
  refine { queued := h.queued, running := ?_, idle := ?_, owned := h.owned }
  . rintro _ ⟨⟩
    refine ⟨hbroken, hcalled, ?_⟩
    cases hphase with
    | writing written hframe hout hin hgot =>
      apply Phase.writing (written ++ ex.unwritten.take n)
      . simpa only [List.append_assoc, List.take_append_drop] using hframe
      . rw [hout, mark_append]
      . exact hin
      . exact hgot
    | reading response frame hwritten =>
      rw [hwritten, List.length_nil] at hn
      omega
  . rintro ⟨⟩

theorem read (h : Paired log s) {ex : Exchange} (hcurrent : s.current = some ex) {n : Nat}
    (hn : ex.unwritten = [] ∧ 0 < n ∧ n ≤ need ex ∧ n ≤ s.inbound.length)
    : Paired ((received { s with inbound := s.inbound.drop n }
        { ex with got := ex.got ++ s.inbound.take n }).1.reverse ++ log)
      (received { s with inbound := s.inbound.drop n }
        { ex with got := ex.got ++ s.inbound.take n }).2 := by
  rcases h.running ex hcurrent with ⟨hbroken, hcalled, hphase⟩
  cases hphase with
  | writing written hframe hout hin hgot =>
    rw [hin, List.length_nil] at hn
    omega
  | reading response frame hwritten hout hanswered hframe hin =>
    have hsplit : (ex.got ++ s.inbound.take n) ++ s.inbound.drop n = mark ex.id frame := by
      rw [List.append_assoc, List.take_append_drop, hin]
    have hvalues : encodeFrame response
        = .ok ((ex.got ++ s.inbound.take n).map Byte.value
          ++ (s.inbound.drop n).map Byte.value) := by
      rw [← List.map_append, hsplit, map_value_mark, hframe]
    rcases parse_part hvalues with ⟨m, hmore⟩ | ⟨hmissing, hwhole⟩
    . simp only [received, hmore]
      refine { queued := h.queued, running := ?_, idle := ?_, owned := h.owned }
      . rintro _ ⟨⟩
        exact ⟨hbroken, hcalled, .reading response frame hwritten hout hanswered hframe hsplit⟩
      . rintro ⟨⟩
    . simp only [received, hwhole]
      apply Paired.finish
      . exact h.queued
      . intro _
        exact ⟨hout, List.map_eq_nil_iff.mp hmissing⟩
      . exact h.owned
      . rintro payload ⟨⟩
        exact ⟨ex.request, hcalled, hanswered⟩

theorem fail (h : Paired log s) (id : Nat)
    : Paired ((Session.finish { s with broken := true } id (.error .io)).1.reverse ++ log)
      (Session.finish { s with broken := true } id (.error .io)).2 := by
  apply Paired.finish
  . exact h.queued
  . rintro ⟨⟩
  . exact h.owned
  . rintro payload ⟨⟩

theorem abandon (h : Paired log s) {sent lost : Nat}
    (hunsent : ∀ ex ∈ s.current, encodeFrame ex.request = .ok ex.unwritten ∧ sent = 0)
    : Paired log (s.abandon sent lost) := by
  unfold Session.abandon
  split
  next => exact h
  next ex hcurrent =>
    rcases hunsent ex hcurrent with ⟨hall, rfl⟩
    refine { queued := h.queued, running := ?_, idle := ?_, owned := h.owned }
    . rintro _ ⟨⟩
    . intro _ hbroken
      rcases h.running ex hcurrent with ⟨_, _, hphase⟩
      have hlength := length_encodeFrame hall
      cases hphase with
      | writing written hframe hout hin hgot =>
        rw [hall] at hframe
        have hwritten : written = [] := List.self_eq_append_left.mp (Except.ok.inj hframe)
        simp [hout, hwritten, hin, mark]
      | reading response frame hwritten =>
        rw [hwritten, List.length_nil] at hlength
        omega

theorem cons (h : Paired log s) {e : Event}
    (he : ∀ id payload, e ≠ .returned id (.ok payload)) : Paired (e :: log) s := by
  apply Paired.mk
  . intro job hjob
    exact .tail _ (h.queued job hjob)
  . intro ex hex
    rcases h.running ex hex with ⟨hbroken, hcalled, hphase⟩
    exact ⟨hbroken, .tail _ hcalled, hphase.mono [_]⟩
  . exact h.idle
  . apply h.owned.cons
    intro id payload heq
    exact absurd heq (he id payload)

theorem cancel (h : Paired log s) {sent lost : Nat} (hok : tidy backend s (.cancel sent lost))
    : Paired log (s.cancel backend sent lost) := by
  cases backend with
  | windows => exact h.requeue h.queued none s.nextId
  | linux =>
    have hemptied : Paired log { s with waiting := none, queue := [] } := by
      apply h.requeue
      rintro _ ⟨⟩
    apply hemptied.abandon
    exact hok.resolve_left Backend.noConfusion

theorem execute (h : Paired log s) (request : List UInt8)
    : Paired (.called s.nextId request :: log)
      { s with
        queue := s.queue ++ [(s.nextId, request)]
        waiting := some s.nextId
        nextId := s.nextId + 1 } := by
  have hlogged : Paired (.called s.nextId request :: log) s := by
    apply h.cons
    rintro _ _ ⟨⟩
  apply hlogged.requeue
  intro job hjob
  rcases List.mem_append.mp hjob with hold | hnew
  . exact hlogged.queued job hold
  . rw [List.mem_singleton.mp hnew]
    apply List.Mem.head

theorem whole (h : Paired log s) (hbroken : s.broken = false) {first : Byte} {rest : List Byte}
    (hout : s.outbound = first :: rest) {request tail : List UInt8}
    (hparse : parse (s.outbound.map Byte.value) = .frame request tail)
    : ∃ ex, s.current = some ex ∧ .called ex.id request ∈ log ∧ ex.request = request ∧
      ex.unwritten = [] ∧ ex.got = [] ∧ s.inbound = [] ∧ first.owner = ex.id ∧
      s.outbound.length = 4 + request.length := by
  cases hcurrent : s.current with
  | none =>
    rw [(h.idle hcurrent hbroken).1] at hout
    cases hout
  | some ex =>
    rcases h.running ex hcurrent with ⟨_, hcalled, hphase⟩
    cases hphase with
    | reading response frame hwritten hempty =>
      rw [hempty] at hout
      cases hout
    | writing written hframe hmarked hin hgot =>
      rw [hmarked, map_value_mark] at hparse
      rcases parse_part hframe with ⟨n, hmore⟩ | ⟨hwritten, hwhole⟩
      . rw [hmore] at hparse
        cases hparse
      . rw [hwhole] at hparse
        cases hparse
        rw [hwritten, List.append_nil] at hframe
        have howner : first.owner = ex.id := by
          cases written with
          | nil => rw [hmarked] at hout; cases hout
          | cons b written =>
            rw [hmarked] at hout
            cases hout
            rfl
        have hlength : s.outbound.length = 4 + ex.request.length := by
          rw [hmarked, mark, List.length_map, length_encodeFrame hframe]
        exact ⟨ex, rfl, hcalled, rfl, hwritten, hgot, hin, howner, hlength⟩

theorem answer (h : Paired log s) {response : List UInt8} {evs : List Event}
    (taken : s.answer response = some (evs, t)) : Paired (evs.reverse ++ log) t := by
  revert taken
  fun_cases Session.answer s response
  case case1 first rest request tail frame hframe hparse hout =>
    rintro ⟨⟩
    have hlogged : Paired (.answered first.owner request response :: log) s := by
      apply h.cons
      rintro _ _ ⟨⟩
    refine { queued := hlogged.queued, running := ?_, idle := ?_, owned := hlogged.owned }
    . intro ex hex
      rcases hlogged.running ex hex with ⟨hbroken, hcalled, _⟩
      rcases h.whole hbroken hout hparse with
        ⟨_, hcurrent, _, hrequest, hwritten, hgot, hin, howner, hlength⟩
      cases hcurrent.symm.trans hex
      refine ⟨hbroken, hcalled, .reading response frame hwritten ?_ ?_ hframe ?_⟩
      . apply List.drop_of_length_le
        omega
      . rw [howner, hrequest]
        apply List.Mem.head
      . simp only [hgot, hin, howner, List.nil_append]
    . intro hcurrent hbroken
      rcases h.whole hbroken hout hparse with ⟨_, hcurrent', _⟩
      cases hcurrent.symm.trans hcurrent'
  case case2 => rintro ⟨⟩

theorem step (h : Paired log s) {a : Action} {evs : List Event} (hok : tidy backend s a)
    (taken : machine backend s a = some (evs, t)) : Paired (evs.reverse ++ log) t := by
  revert taken
  fun_cases machine backend s a
  case case1 request _ =>
    rintro ⟨⟩
    exact h.execute request
  case case3 hqueue hcurrent =>
    rcases h.dequeue hqueue with ⟨hcalled, hpaired⟩
    intro taken
    have hbegun := hpaired.begin hcurrent hcalled
    rw [Option.some.inj taken] at hbegun
    exact hbegun
  case case5 ex hn hcurrent =>
    rintro ⟨⟩
    exact h.write hcurrent hn
  case case8 ex hcurrent hn =>
    intro taken
    have hread := h.read hcurrent hn
    rw [Option.some.inj taken] at hread
    exact hread
  case case11 ex _ =>
    intro taken
    have hfailed := h.fail ex.id
    rw [Option.some.inj taken] at hfailed
    exact hfailed
  case case13 id _ =>
    rintro ⟨⟩
    apply (h.cancel hok).cons
    rintro _ _ ⟨⟩
  case case15 response => exact h.answer
  all_goals rintro ⟨⟩

theorem start : Paired [] {} := by
  refine { queued := ?_, running := ?_, idle := fun _ _ => ⟨rfl, rfl⟩, owned := ?_ }
  . rintro _ ⟨⟩
  . rintro _ ⟨⟩
  . rintro _ _ ⟨⟩

end Paired

/-- A call that returns a response returns the response to its own request, in every run in which
no call on Linux is dropped with a part of its request sent. -/
theorem execute_own_response {backend : Backend} {log : List Event} {t : Session}
    (h : Machine.Runs (machine backend) (tidy backend) {} log t) {id : Nat} {payload : List UInt8}
    (hreturned : .returned id (.ok payload) ∈ log)
    : ∃ request, .called id request ∈ log ∧ .answered id request payload ∈ log := by
  have hpaired : Paired log t := by
    apply Machine.Runs.invariant Paired Paired.start _ h
    intro _ _ _ _ _ hI hok taken
    exact hI.step hok taken
  exact hpaired.owned id payload hreturned

-- On Linux the first call is dropped before a byte of it is sent; on Windows it is dropped while it
-- waits, and its response is read for nobody.
theorem execute_own_response_dropped
    : (∃ log t, Machine.Runs (machine .linux) (tidy .linux) {} log t ∧ .cancelled 0 ∈ log ∧
        ∃ request, .called 1 request ∈ log ∧ .answered 1 request [12] ∈ log) ∧
      ∃ log t, Machine.Runs (machine .windows) (tidy .windows) {} log t ∧ .cancelled 0 ∈ log ∧
        .answered 0 [1] [11] ∈ log ∧
        ∃ request, .called 1 request ∈ log ∧ .answered 1 request [12] ∈ log := by
  have hlinux : Machine.Runs (machine .linux) (tidy .linux) {} _ _ :=
    Machine.runs_play [.execute [1], .begin, .cancel 0 0, .execute [2], .begin, .write 5,
      .answer [12], .read 4, .read 1] rfl
  have hwindows : Machine.Runs (machine .windows) (tidy .windows) {} _ _ :=
    Machine.runs_play [.execute [1], .begin, .write 5, .cancel 0 0, .execute [2],
      .answer [11], .read 4, .read 1, .begin, .write 5, .answer [12], .read 4, .read 1] rfl
  exact ⟨⟨_, _, hlinux, by decide, execute_own_response hlinux (by decide)⟩,
    _, _, hwindows, by decide, by decide, execute_own_response hwindows (by decide)⟩

/-- On Linux the response to a call that was dropped is left on the stream for the next call. -/
theorem execute_stale_response
    : ∃ log t, Machine.Runs (machine .linux) anything {} log t ∧
      .called 1 [2] ∈ log ∧ .returned 1 (.ok [11]) ∈ log ∧ .answered 0 [1] [11] ∈ log ∧
      ¬ ∃ request, .called 1 request ∈ log ∧ .answered 1 request [11] ∈ log := by
  have hrun : Machine.Runs (machine .linux) anything {} _ _ :=
    Machine.runs_play [.execute [1], .begin, .write 5, .cancel 0 0, .execute [2], .answer [11],
      .begin, .write 5, .read 4, .read 1] rfl
  refine ⟨_, _, hrun, by decide, by decide, by decide, ?_⟩
  rintro ⟨request, _, hanswered⟩
  simp at hanswered

end Session

end Tcp
