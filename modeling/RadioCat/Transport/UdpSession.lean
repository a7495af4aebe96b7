import RadioCat.Server.Dispatch
import RadioCat.Server.Udp

/-!
This module contains one UDP session, a UDP server, and the network between them. The network may
lose a datagram, and deliver it late, out of order and more than once.
-/

namespace UdpSession

open Trace Datagram Server Server.Udp

universe u

def maxDatagramSize : Nat := 16 + maxPayloadSize

def dedupCacheCapacity : Nat := 32

/-- What a session keeps for its whole life. -/
structure Setup (π : Type u) where
  localAddr : π
  peerAddr : π
  sessionId : UInt64
  responseTimeout : Nat := 2000

inductive UdpSessionError (π : Type u) where
  | io
  | timeout (peer : π) (timeout : Nat)
  | payloadTooLarge (len max : Nat)
  deriving DecidableEq, Repr

structure Call where
  requestId : UInt64
  request : List UInt8
  deriving DecidableEq, Repr

structure UdpCatSession where
  nextRequestId : UInt64 := 0
  dedupCache : List UInt64 := []
  -- The call of `execute` that is under way.
  waiting : Option Call := none

namespace UdpCatSession

def rememberCompleted (s : UdpCatSession) (requestId : UInt64) : UdpCatSession :=
  if s.dedupCache.length ≥ dedupCacheCapacity then
    { s with dedupCache := s.dedupCache.tail ++ [requestId] }
  else
    { s with dedupCache := s.dedupCache ++ [requestId] }

theorem nextRequestId_rememberCompleted (s : UdpCatSession) (requestId : UInt64)
    : (s.rememberCompleted requestId).nextRequestId = s.nextRequestId := by
  unfold rememberCompleted
  split
  . rfl
  . rfl

def nextCall (s : UdpCatSession) (request : List UInt8) : Call :=
  { requestId := s.nextRequestId + 1, request }

end UdpCatSession

variable {π : Type u}

/-- The payload of a datagram, if the datagram ends the waiting for a response. -/
def accept [DecidableEq π] (c : Setup π) (call : Call) (sender : π) (datagram : List UInt8)
    : Option (List UInt8) :=
  if sender ≠ c.peerAddr then
    none
  else
    match decodeEnvelope datagram with
    | none => none
    | some (incomingSessionId, incomingRequestId, payload) =>
      if incomingSessionId ≠ c.sessionId then
        none
      else if incomingRequestId ≠ call.requestId then
        none
      else
        some payload

def disposition (payload : List UInt8) : ResponseDisposition :=
  if payload.isEmpty then .noResponse else .responseWritten

inductive Action (π : Type u) where
  | execute (request : List UInt8)
  | receive (sender : π) (datagram : List UInt8)
  | timeOut
  | ioError
  -- The future is dropped.
  | abandon
  | server (a : Udp.Action π)
  deriving DecidableEq, Repr

inductive Event (π : Type u) where
  | started (call : Call)
  | returned (call : Call) (disposition : ResponseDisposition) (payload : List UInt8)
  | failed (call : Call) (error : UdpSessionError π)
  | server (e : Udp.Event π)
  deriving DecidableEq, Repr

abbrev Log (π : Type u) := List (Event π)

def sentTo [DecidableEq π] (recipient : π) : Udp.Event π → Option (List UInt8)
  | .sent recipient' datagram => if recipient' = recipient then some datagram else none
  | _ => none

structure World (π : Type u) [DecidableEq π] where
  session : UdpCatSession := {}
  server : UdpServer π := {}
  -- Everything the session has sent to the server, and the server to the session.
  outgoing : List (List UInt8) := []
  incoming : List (List UInt8) := []

namespace World

variable [DecidableEq π]

-- The datagram counts as sent from here on, also when `send_to` fails or is dropped later.
def execute (c : Setup π) (w : World π) (request : List UInt8) : Log π × World π :=
  match encodeEnvelope c.sessionId (w.session.nextCall request).requestId request with
  | none =>
    ([.started (w.session.nextCall request),
        .failed (w.session.nextCall request) (.payloadTooLarge request.length maxPayloadSize)],
      { w with
        session := { w.session with nextRequestId := (w.session.nextCall request).requestId } })
  | some datagram =>
    ([.started (w.session.nextCall request)],
      { w with
        session := { w.session with
          nextRequestId := (w.session.nextCall request).requestId
          waiting := some (w.session.nextCall request) }
        outgoing := datagram :: w.outgoing })

def idle (w : World π) : World π :=
  { w with session := { w.session with waiting := none } }

def receive (c : Setup π) (w : World π) (call : Call) (sender : π) (datagram : List UInt8)
    : Log π × World π :=
  match accept c call sender datagram with
  | none => ([], w)
  | some payload =>
    ([.returned call (disposition payload) payload],
      { w with session := w.session.rememberCompleted call.requestId }.idle)

def serve (c : Setup π) (backend : Backend) (w : World π) (a : Udp.Action π)
    : Option (Log π × World π) :=
  match UdpServer.machine backend w.server a with
  | none => none
  | some (evs, server) =>
    some (evs.map .server,
      { w with server, incoming := w.incoming ++ evs.filterMap (sentTo c.localAddr) })

def machine (c : Setup π) (backend : Backend) : Machine (World π) (Action π) (Event π)
  | w, .execute request =>
    match w.session.waiting with
    | none => some (w.execute c request)
    | some _ => none
  | w, .receive sender datagram =>
    match w.session.waiting with
    | none => none
    | some call => some (w.receive c call sender datagram)
  | w, .timeOut =>
    match w.session.waiting with
    | none => none
    | some call => some ([.failed call (.timeout c.peerAddr c.responseTimeout)], w.idle)
  | w, .ioError =>
    match w.session.waiting with
    | none => none
    | some call => some ([.failed call .io], w.idle)
  | w, .abandon => some ([], w.idle)
  | w, .server a => w.serve c backend a

end World

/-- What `recv_from` returns is a datagram that was sent, as far as it fits the buffer. -/
def Arrives (sent : List (List UInt8)) (received : List UInt8) : Prop :=
  ∃ datagram ∈ sent, received = datagram.take maxDatagramSize

def carries (sessionId : UInt64) (datagram : List UInt8) : Bool :=
  match decodeEnvelope datagram with
  | none => false
  | some (incomingSessionId, _, _) => incomingSessionId == sessionId

/--
Nobody else uses the addresses of the session and of the server to send datagrams in the name of
this session. From other addresses, or with another session's number, anything may arrive.
-/
def Unforged [DecidableEq π] (c : Setup π) : Discipline (World π) (Action π)
  | w, .receive sender datagram =>
    sender = c.peerAddr → carries c.sessionId datagram → Arrives w.incoming datagram
  | w, .server (.receive sender datagram) =>
    sender = c.localAddr → carries c.sessionId datagram → Arrives w.outgoing datagram
  | _, _ => True

instance (sent : List (List UInt8)) (received : List UInt8)
    : Decidable (Arrives sent received) := by
  unfold Arrives
  infer_instance

instance [DecidableEq π] (c : Setup π) (w : World π) (a : Action π)
    : Decidable (Unforged c w a) := by
  unfold Unforged
  split
  . infer_instance
  . infer_instance
  . infer_instance

def Event.isStarted : Event π → Bool
  | .started _ => true
  | _ => false

def starts (log : Log π) : Nat :=
  log.countP Event.isStarted

def Event.ofServer : Event π → Option (Udp.Event π)
  | .server e => some e
  | _ => none

def serverLog (log : Log π) : Udp.Log π :=
  log.filterMap Event.ofServer

/-- What was returned for a call is what the server computed for a datagram with its request. -/
def Event.IsAnswer (c : Setup π) : Event π → Log π → Prop
  | .returned call _ payload, log => .started call ∈ log ∧ call.requestId.toNat = starts log
      ∧ ∃ response, .server (.computed
          { key := (c.localAddr, c.sessionId, call.requestId), payload := call.request }
          response) ∈ log
        ∧ payload = sendable response
  | _, _ => True

section

variable [DecidableEq π] {c : Setup π} {backend : Backend} {log : Log π} {w t : World π}
  {e : Event π}

structure Correlated (c : Setup π) (log : Log π) (w : World π) : Prop where
  counted : w.session.nextRequestId.toNat = starts log
  numbered : ∀ call, .started call ∈ log → call.requestId.toNat ≤ starts log
  unique : ∀ call call', .started call ∈ log → .started call' ∈ log →
    call.requestId = call'.requestId → call = call'
  waiting : ∀ call, w.session.waiting = some call →
    .started call ∈ log ∧ call.requestId = w.session.nextRequestId
  outgoing : ∀ datagram ∈ w.outgoing, ∃ call, .started call ∈ log
    ∧ encodeEnvelope c.sessionId call.requestId call.request = some datagram
  received : ∀ job, .received job ∈ serverLog log → job.key.1 = c.localAddr →
    job.key.2.1 = c.sessionId → .started ⟨job.key.2.2, job.payload⟩ ∈ log
  incoming : ∀ datagram ∈ w.incoming, .sent c.localAddr datagram ∈ serverLog log
  traced : Traced (serverLog log) w.server
  answers : Each (Event.IsAnswer c) log

theorem Correlated.idle (h : Correlated c log w) : Correlated c log w.idle := by
  refine { h with waiting := ?_ }
  intro _ hwaiting
  cases hwaiting

theorem Correlated.note (h : Correlated c log w) (hstarted : e.isStarted = false)
    (hserver : e.ofServer = none) (hanswer : e.IsAnswer c log)
    : Correlated c (e :: log) w := by
  have hstarts : starts (e :: log) = starts log := by
    simp [starts, hstarted]
  have hlog : serverLog (e :: log) = serverLog log := by
    simp [serverLog, hserver]
  have hmem : ∀ call, .started call ∈ e :: log ↔ .started call ∈ log := by
    intro call
    cases e with
    | started call' => cases hstarted
    | returned | failed | server => simp
  constructor
  . simpa [hstarts] using h.counted
  . simpa [hstarts, hmem] using h.numbered
  . simpa [hmem] using h.unique
  . simpa [hmem] using h.waiting
  . simpa [hmem] using h.outgoing
  . simpa [hmem, hlog] using h.received
  . simpa [hlog] using h.incoming
  . simpa [hlog] using h.traced
  . exact ⟨hanswer, h.answers⟩

/-- A call of `execute` has begun, and nothing is sent yet. -/
def World.begun (w : World π) (request : List UInt8) : World π :=
  { w with
    session := { w.session with
      nextRequestId := (w.session.nextCall request).requestId
      waiting := some (w.session.nextCall request) } }

theorem Correlated.begun (h : Correlated c log w) (request : List UInt8)
    (hfew : starts log + 1 < 2 ^ 64)
    : Correlated c (.started (w.session.nextCall request) :: log) (w.begun request) := by
  have hstarts : starts (.started (w.session.nextCall request) :: log) = starts log + 1 := by
    exact List.countP_cons_of_pos rfl
  have hid : (w.session.nextCall request).requestId.toNat = starts log + 1 := by
    rw [UdpCatSession.nextCall, UInt64.toNat_add, h.counted]
    exact Nat.mod_eq_of_lt hfew
  -- The number is new: all earlier ones are at most the count so far.
  have hnew : ∀ call, .started call ∈ log →
      call.requestId ≠ (w.session.nextCall request).requestId := by
    intro call hmem heq
    have hle := h.numbered call hmem
    rw [heq, hid] at hle
    omega
  constructor
  . rw [hstarts]
    exact hid
  . intro call hmem
    rw [hstarts]
    rcases List.mem_cons.mp hmem with hcall | hmem
    . cases hcall
      omega
    . have hle := h.numbered call hmem
      omega
  . intro call call' hmem hmem' heq
    rcases List.mem_cons.mp hmem with hcall | hmem
    . rcases List.mem_cons.mp hmem' with hcall' | hmem'
      . cases hcall
        cases hcall'
        rfl
      . cases hcall
        cases hnew call' hmem' heq.symm
    . rcases List.mem_cons.mp hmem' with hcall' | hmem'
      . cases hcall'
        cases hnew call hmem heq
      . exact h.unique call call' hmem hmem' heq
  . intro call hwaiting
    cases hwaiting
    exact ⟨List.mem_cons_self, rfl⟩
  . intro datagram hmem
    rcases h.outgoing datagram hmem with ⟨call, hstarted, hencode⟩
    exact ⟨call, List.mem_cons_of_mem _ hstarted, hencode⟩
  . intro job hmem haddr hsession
    exact List.mem_cons_of_mem _ (h.received job hmem haddr hsession)
  . exact h.incoming
  . exact h.traced
  . exact ⟨trivial, h.answers⟩

theorem starts_execute {request : List UInt8} {evs : Log π}
    (taken : w.execute c request = (evs, t))
    : starts (evs.reverse ++ log) = starts log + 1 := by
  unfold World.execute at taken
  split at taken
  . cases taken
    simp [starts, List.countP_cons, Event.isStarted]
  . cases taken
    simp [starts, List.countP_cons, Event.isStarted]

theorem Correlated.execute {request : List UInt8} {evs : Log π} (h : Correlated c log w)
    (hidle : w.session.waiting = none) (hfew : starts (evs.reverse ++ log) < 2 ^ 64)
    (taken : w.execute c request = (evs, t))
    : Correlated c (evs.reverse ++ log) t := by
  rw [starts_execute taken] at hfew
  have hbegun := h.begun request hfew
  unfold World.execute at taken
  split at taken
  next =>
    cases taken
    have hdone := hbegun.idle.note (e := .failed (w.session.nextCall request)
      (.payloadTooLarge request.length maxPayloadSize)) rfl rfl trivial
    simpa [World.begun, World.idle, ← hidle] using hdone
  next datagram hencode =>
    cases taken
    refine { hbegun with outgoing := ?_ }
    intro datagram' hmem
    rcases List.mem_cons.mp hmem with rfl | hmem
    . exact ⟨_, List.mem_cons_self, hencode⟩
    . exact hbegun.outgoing datagram' hmem

theorem take_maxDatagramSize {sessionId requestId : UInt64} {payload datagram : List UInt8}
    (h : encodeEnvelope sessionId requestId payload = some datagram)
    : datagram.take maxDatagramSize = datagram := by
  apply List.take_of_length_le
  unfold encodeEnvelope at h
  split at h
  next => cases h
  next hlen =>
    cases h
    rw [List.length_append, List.length_append, length_toBeBytes, length_toBeBytes,
      maxDatagramSize]
    omega

theorem accept_eq_some {call : Call} {sender : π} {datagram payload : List UInt8}
    (h : accept c call sender datagram = some payload)
    : sender = c.peerAddr
      ∧ decodeEnvelope datagram = some (c.sessionId, call.requestId, payload) := by
  revert h
  fun_cases accept c call sender datagram
  case case5 hsender sessionId requestId payload' hdecode hsession hrequest =>
    rintro ⟨⟩
    rw [hdecode, not_not.mp hsession, not_not.mp hrequest]
    exact ⟨not_not.mp hsender, rfl⟩
  all_goals rintro ⟨⟩

omit [DecidableEq π] in
theorem carries_of_decodeEnvelope {sessionId requestId : UInt64} {datagram payload : List UInt8}
    (h : decodeEnvelope datagram = some (sessionId, requestId, payload))
    : carries sessionId datagram := by
  simp [carries, h]

omit [DecidableEq π] in
theorem mem_serverLog {e : Udp.Event π} : e ∈ serverLog log ↔ .server e ∈ log := by
  unfold serverLog
  rw [List.mem_filterMap]
  constructor
  . rintro ⟨e', hmem, heq⟩
    cases e' with
    | server =>
      cases heq
      exact hmem
    | started | returned | failed => cases heq
  . intro hmem
    exact ⟨_, hmem, rfl⟩

/-- What arrives in the name of the session is one of the server's answers to its requests. -/
theorem Correlated.answered {call : Call} {sender : π} {datagram payload : List UInt8}
    (h : Correlated c log w) (hwaiting : w.session.waiting = some call)
    (allowed : Unforged c w (.receive sender datagram))
    (haccept : accept c call sender datagram = some payload)
    : Event.IsAnswer c (.returned call (disposition payload) payload) log := by
  rcases h.waiting call hwaiting with ⟨hstarted, hid⟩
  rcases accept_eq_some haccept with ⟨hsender, hdecode⟩
  rcases allowed hsender (carries_of_decodeEnvelope hdecode) with ⟨sent, hsent, rfl⟩
  rcases h.traced.sent _ (h.incoming sent hsent) with
    ⟨⟨_, sessionId, requestId⟩, response, ⟨⟨_, request⟩, rfl, hreceived, hcomputed⟩, haddr, rfl⟩
  have hencode := encodeEnvelope_sendable sessionId requestId response
  rw [take_maxDatagramSize hencode, decodeEnvelope_encodeEnvelope hencode] at hdecode
  cases haddr
  cases hdecode
  have hrequest := h.received _ hreceived rfl rfl
  have hsame : request = call.request :=
    congrArg Call.request (h.unique _ _ hrequest hstarted rfl)
  subst hsame
  exact ⟨hstarted, by rw [hid, h.counted], response, mem_serverLog.mp hcomputed, rfl⟩

theorem received_of_machine {s s' : UdpServer π} {a : Udp.Action π} {evs : Udp.Log π}
    {job : Job π} (taken : UdpServer.machine backend s a = some (evs, s'))
    (hmem : .received job ∈ evs)
    : ∃ datagram, a = .receive job.key.1 datagram
      ∧ decodeEnvelope datagram = some (job.key.2.1, job.key.2.2, job.payload) := by
  revert taken
  fun_cases UdpServer.machine backend s a
  case case1 sender datagram =>
    intro taken
    have hreceive := Option.some.inj taken
    unfold UdpServer.receive at hreceive
    split at hreceive
    next hdecode =>
      cases hreceive
      cases List.mem_singleton.mp hmem
      exact ⟨datagram, rfl, hdecode⟩
    next =>
      cases hreceive
      cases hmem
  case case2 =>
    intro taken
    have hcheck := Option.some.inj taken
    unfold UdpServer.check at hcheck
    split at hcheck
    . cases hcheck
      simp [UdpServer.answer] at hmem
    . cases hcheck
      simp at hmem
  all_goals rintro ⟨⟩
  all_goals simp [UdpServer.answer] at hmem

theorem Correlated.receive {call : Call} {sender : π} {datagram : List UInt8} {evs : Log π}
    (h : Correlated c log w) (hwaiting : w.session.waiting = some call)
    (allowed : Unforged c w (.receive sender datagram))
    (taken : w.receive c call sender datagram = (evs, t))
    : Correlated c (evs.reverse ++ log) t := by
  unfold World.receive at taken
  split at taken
  next =>
    cases taken
    exact h
  next payload haccept =>
    cases taken
    have hdone := h.idle.note (e := .returned call (disposition payload) payload) rfl rfl
      (h.answered hwaiting allowed haccept)
    refine { hdone with counted := ?_, waiting := ?_ }
    . have hnext := w.session.nextRequestId_rememberCompleted call.requestId
      exact (congrArg UInt64.toNat hnext).trans hdone.counted
    . intro _ hwaiting'
      cases hwaiting'

omit [DecidableEq π] in
theorem starts_server (evs : Udp.Log π)
    : starts ((evs.map .server).reverse ++ log) = starts log := by
  simp [starts, List.countP_append, List.countP_eq_zero, Event.isStarted]

omit [DecidableEq π] in
theorem serverLog_server (evs : Udp.Log π)
    : serverLog ((evs.map .server).reverse ++ log) = evs.reverse ++ serverLog log := by
  apply filterMap_embedded
  intro _
  rfl

omit [DecidableEq π] in
theorem mem_started_server {call : Call} (evs : Udp.Log π)
    : .started call ∈ (evs.map Event.server).reverse ++ log ↔ .started call ∈ log := by
  simp

theorem Correlated.arrived {sender : π} {requestId : UInt64} {datagram payload : List UInt8}
    (h : Correlated c log w) (allowed : Unforged c w (.server (.receive sender datagram)))
    (hsender : sender = c.localAddr)
    (hdecode : decodeEnvelope datagram = some (c.sessionId, requestId, payload))
    : .started ⟨requestId, payload⟩ ∈ log := by
  rcases allowed hsender (carries_of_decodeEnvelope hdecode) with ⟨sent, hsent, rfl⟩
  rcases h.outgoing sent hsent with ⟨call, hstarted, hencode⟩
  rw [take_maxDatagramSize hencode, decodeEnvelope_encodeEnvelope hencode] at hdecode
  cases hdecode
  exact hstarted

theorem Correlated.serve {a : Udp.Action π} {evs : Log π} (h : Correlated c log w)
    (allowed : Unforged c w (.server a)) (taken : w.serve c backend a = some (evs, t))
    : Correlated c (evs.reverse ++ log) t := by
  unfold World.serve at taken
  split at taken
  next => cases taken
  next evs server hserver =>
    cases taken
    constructor
    . rw [starts_server]
      exact h.counted
    . simpa only [starts_server, mem_started_server] using h.numbered
    . simpa only [mem_started_server] using h.unique
    . simpa only [mem_started_server] using h.waiting
    . simpa only [mem_started_server] using h.outgoing
    . intro job hmem haddr hsession
      rw [mem_started_server]
      rw [serverLog_server, List.mem_append, List.mem_reverse] at hmem
      rcases hmem with hmem | hmem
      . rcases received_of_machine hserver hmem with ⟨datagram, rfl, hdecode⟩
        rw [hsession] at hdecode
        exact h.arrived allowed haddr hdecode
      . exact h.received job hmem haddr hsession
    . intro datagram hmem
      rw [serverLog_server, List.mem_append, List.mem_reverse]
      rcases List.mem_append.mp hmem with hmem | hmem
      . exact Or.inr (h.incoming datagram hmem)
      . rcases List.mem_filterMap.mp hmem with ⟨e, he, hsent⟩
        unfold sentTo at hsent
        split at hsent
        next =>
          split at hsent
          next haddr =>
            cases hsent
            rw [← haddr]
            exact Or.inl he
          next => cases hsent
        next => cases hsent
    . rw [serverLog_server]
      exact h.traced.step hserver
    . apply h.answers.append
      intro e he log
      rcases List.mem_map.mp he with ⟨e', _, rfl⟩
      trivial

omit [DecidableEq π] in
theorem starts_le_append (evs log : Log π) : starts log ≤ starts (evs ++ log) := by
  unfold starts
  rw [List.countP_append]
  omega

theorem Correlated.step {a : Action π} {evs : Log π} (h : Correlated c log w)
    (allowed : Unforged c w a) (hfew : starts (evs.reverse ++ log) < 2 ^ 64)
    (taken : World.machine c backend w a = some (evs, t))
    : Correlated c (evs.reverse ++ log) t := by
  revert taken
  fun_cases World.machine c backend w a
  case case1 request hidle =>
    intro taken
    exact h.execute hidle hfew (Option.some.inj taken)
  case case4 sender datagram call hwaiting =>
    intro taken
    exact h.receive hwaiting allowed (Option.some.inj taken)
  case case10 =>
    intro taken
    exact h.serve allowed taken
  all_goals rintro ⟨⟩
  case case6 => exact h.idle.note rfl rfl trivial
  case case8 => exact h.idle.note rfl rfl trivial
  case case9 => exact h.idle

theorem runs_correlated (h : (World.machine c backend).Runs (Unforged c) {} log w)
    (hfew : starts log < 2 ^ 64)
    : Correlated c log w := by
  apply Machine.Runs.invariant_while (starts · < 2 ^ 64) (Correlated c) _ _ _ h hfew
  . intro evs log hfew
    have hle := starts_le_append evs log
    omega
  . constructor
    . rfl
    all_goals simp [serverLog, Each, Traced.start]
  . intro _ _ _ _ _ hI hfew allowed taken
    exact hI.step allowed hfew taken

theorem answers_own_request (h : (World.machine c backend).Runs (Unforged c) {} log w)
    (hfew : starts log < 2 ^ 64) {newer older : Log π} {call : Call}
    {disposition : ResponseDisposition} {payload : List UInt8}
    (hlog : log = newer ++ .returned call disposition payload :: older)
    : .started call ∈ older ∧ call.requestId.toNat = starts older
      ∧ ∃ response, .server (.computed
          { key := (c.localAddr, c.sessionId, call.requestId), payload := call.request }
          response) ∈ older
        ∧ payload = sendable response := by
  have hanswers := (runs_correlated h hfew).answers
  rw [hlog] at hanswers
  exact hanswers.of_append

end

-- `FA;` and `MD;`, asked one after the other.
def askFrequency : Call :=
  { requestId := 1, request := [0x46, 0x41, 0x3B] }

def askMode : Call :=
  { requestId := 2, request := [0x4D, 0x44, 0x3B] }

/-- The server has the address `true`. -/
def station : Setup Bool :=
  { localAddr := false, peerAddr := true, sessionId := 7 }

def Call.job (call : Call) : Job Bool :=
  { key := (station.localAddr, station.sessionId, call.requestId), payload := call.request }

/-- The first request is given up, and its answer comes twice while the second one waits. -/
def lateAnswer : List (Action Bool) :=
  [.execute askFrequency.request, .server (.receive false (sendEnvelope 7 1 askFrequency.request)),
    .timeOut,
    .execute askMode.request,
    .server (.check askFrequency.job), .server .take, .server (.finish [0x46]),
    .server (.insert askFrequency.job [0x46]),
    .receive true (sendEnvelope 7 1 [0x46]),
    .server (.receive false (sendEnvelope 7 2 askMode.request)),
    .server (.check askMode.job), .server .take, .server (.finish [0x4D]),
    .server (.insert askMode.job [0x4D]),
    .receive true (sendEnvelope 7 1 [0x46]), .receive true (sendEnvelope 7 2 [0x4D])]

theorem answers_own_request_late
    : ∃ older w, (World.machine station .linux).Runs (Unforged station) {}
        (.returned askMode .responseWritten [0x4D] :: older) w
      ∧ .started askMode ∈ older ∧ askMode.requestId.toNat = starts older
      ∧ ∃ response, .server (.computed
          { key := (station.localAddr, station.sessionId, askMode.requestId)
            payload := askMode.request } response) ∈ older
        ∧ [0x4D] = sendable response := by
  have hplay : ((World.machine station .linux).play (Unforged station) {} lateAnswer).map
      (fun r => (r.1.head?, starts r.1))
      = some (some (.returned askMode .responseWritten [0x4D]), 2) := by decide +kernel
  rcases Machine.exists_runs_play _ hplay with ⟨log, w, hruns, hlog⟩
  cases log with
  | nil => cases hlog
  | cons e older =>
    rw [Prod.mk.injEq, List.head?_cons, Option.some.injEq] at hlog
    rcases hlog with ⟨rfl, hstarts⟩
    have hfew : starts (.returned askMode .responseWritten [0x4D] :: older) < 2 ^ 64 := by
      dsimp only at hstarts
      omega
    exact ⟨older, w, hruns, answers_own_request hruns hfew (List.nil_append _).symm⟩

end UdpSession
