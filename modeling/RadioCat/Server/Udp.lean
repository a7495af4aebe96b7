import RadioCat.Server.Dedup
import RadioCat.Server.Release
import RadioCat.Trace.Machine
import RadioCat.Transport.Envelope

/-!
This module contains the UDP listeners of the server. Every datagram has a handler of its own: it
looks for an answer in the cache, and if there is none it has the broker's worker execute the
request and puts the answer there.
-/

namespace Server.Udp

open Trace Datagram

universe u

abbrev Key (π : Type u) := π × UInt64 × UInt64

structure Job (π : Type u) where
  key : Key π
  payload : List UInt8
  deriving DecidableEq, Repr

-- `ERR response too large to send`
def tooLarge : List UInt8 :=
  [0x45, 0x52, 0x52, 0x20, 0x72, 0x65, 0x73, 0x70, 0x6F, 0x6E, 0x73, 0x65, 0x20, 0x74, 0x6F, 0x6F,
    0x20, 0x6C, 0x61, 0x72, 0x67, 0x65, 0x20, 0x74, 0x6F, 0x20, 0x73, 0x65, 0x6E, 0x64]

/-- What a response is sent as. -/
def sendable (response : List UInt8) : List UInt8 :=
  if response.length > maxPayloadSize then tooLarge else response

def sendEnvelope (sessionId requestId : UInt64) (response : List UInt8) : List UInt8 :=
  (encodeEnvelope sessionId requestId response).getD
    ((encodeEnvelope sessionId requestId tooLarge).getD [])

theorem encodeEnvelope_sendable (sessionId requestId : UInt64) (response : List UInt8)
    : encodeEnvelope sessionId requestId (sendable response)
      = some (sendEnvelope sessionId requestId response) := by
  unfold sendable sendEnvelope
  split
  next hlarge =>
    have hnone : encodeEnvelope sessionId requestId response = none := if_pos hlarge
    rw [hnone]
    rfl
  next hsmall =>
    have hsome : encodeEnvelope sessionId requestId response
        = some (toBeBytes sessionId ++ toBeBytes requestId ++ response) := if_neg hsmall
    rw [hsome]
    rfl

structure UdpServer (π : Type u) [DecidableEq π] where
  dedup : DedupCache (Key π) (List UInt8) := {}
  -- Handlers: not started, between the check and the submission, and with an answer to put into
  -- the cache.
  arrived : List (Job π) := []
  missed : List (Job π) := []
  replied : List (Job π × List UInt8) := []
  queue : List (Job π) := []
  running : Option (Job π) := none
  -- The worker is gone, and with it what it was told to do.
  gone : Bool := false

inductive Action (π : Type u) where
  | receive (sender : π) (datagram : List UInt8)
  | check (job : Job π)
  | submit (job : Job π)
  | take
  | finish (response : List UInt8)
  | insert (job : Job π) (response : List UInt8)
  | stop
  deriving DecidableEq, Repr

inductive Event (π : Type u) where
  | received (job : Job π)
  | checked (key : Key π)
  | missed (key : Key π)
  | executed (job : Job π)
  | computed (job : Job π) (response : List UInt8)
  | inserted (key : Key π)
  | sent (recipient : π) (datagram : List UInt8)
  deriving DecidableEq, Repr

abbrev Log (π : Type u) := List (Event π)

namespace UdpServer

variable {π : Type u} [DecidableEq π]

def enqueue (s : UdpServer π) (job : Job π) : UdpServer π :=
  if s.gone then s else { s with queue := s.queue ++ [job] }

/-- The answer leaves for the peer it is for; when it arrives is the network's affair. -/
def answer (key : Key π) (response : List UInt8) : Event π :=
  .sent key.1 (sendEnvelope key.2.1 key.2.2 response)

def receive (s : UdpServer π) (sender : π) (datagram : List UInt8) : Log π × UdpServer π :=
  match decodeEnvelope datagram with
  | some (sessionId, requestId, payload) =>
    let job : Job π := { key := (sender, sessionId, requestId), payload }
    ([.received job], { s with arrived := job :: s.arrived })
  | none => ([], s)

-- Under Linux nothing is awaited between the check and the submission.
def handOver (backend : Backend) (s : UdpServer π) (job : Job π) : UdpServer π :=
  match backend with
  | .linux => s.enqueue job
  | .windows => { s with missed := job :: s.missed }

def check (backend : Backend) (s : UdpServer π) (job : Job π) : Log π × UdpServer π :=
  match s.dedup.get job.key with
  | some cached =>
    ([.checked job.key, answer job.key cached], { s with arrived := s.arrived.erase job })
  | none =>
    ([.checked job.key, .missed job.key],
      { s with arrived := s.arrived.erase job }.handOver backend job)

def machine (backend : Backend) : Machine (UdpServer π) (Action π) (Event π)
  | s, .receive sender datagram => some (s.receive sender datagram)
  | s, .check job => if job ∈ s.arrived then some (s.check backend job) else none
  | s, .submit job =>
    if job ∈ s.missed then
      some ([], { s with missed := s.missed.erase job }.enqueue job)
    else
      none
  | s, .take =>
    match s.running, s.queue with
    | none, job :: queue => some ([.executed job], { s with queue, running := some job })
    | _, _ => none
  | s, .finish response =>
    match s.running with
    | some job =>
      some ([.computed job response],
        { s with running := none, replied := (job, response) :: s.replied })
    | none => none
  | s, .insert job response =>
    if (job, response) ∈ s.replied then
      some ([.inserted job.key, answer job.key response],
        { s with
          dedup := s.dedup.insert job.key response
          replied := s.replied.erase (job, response) })
    else
      none
  | s, .stop => some ([], { s with gone := true, queue := [], running := none })

end UdpServer

section

variable {π : Type u} [DecidableEq π] {log evs : Log π} {s t : UdpServer π} {e : Event π}
  {key : Key π} {job : Job π} {backend : Backend}

theorem dedup_enqueue (s : UdpServer π) (job : Job π) : (s.enqueue job).dedup = s.dedup := by
  unfold UdpServer.enqueue
  split
  . rfl
  . rfl

theorem running_enqueue (s : UdpServer π) (job : Job π)
    : (s.enqueue job).running = s.running := by
  unfold UdpServer.enqueue
  split
  . rfl
  . rfl

theorem replied_enqueue (s : UdpServer π) (job : Job π)
    : (s.enqueue job).replied = s.replied := by
  unfold UdpServer.enqueue
  split
  . rfl
  . rfl

/-- The answer to a key was computed for a datagram that was received under this key. -/
def Answered (log : Log π) (key : Key π) (response : List UInt8) : Prop :=
  ∃ job, job.key = key ∧ .received job ∈ log ∧ .computed job response ∈ log

def Event.IsAnswer (log : Log π) : Event π → Prop
  | .sent recipient datagram => ∃ key response, Answered log key response ∧ recipient = key.1
      ∧ datagram = sendEnvelope key.2.1 key.2.2 response
  | _ => True

def jobs (s : UdpServer π) : List (Job π) :=
  s.arrived ++ s.missed ++ s.queue ++ s.running.toList

structure Traced (log : Log π) (s : UdpServer π) : Prop where
  received : ∀ job ∈ jobs s, .received job ∈ log
  replied : ∀ reply ∈ s.replied, .received reply.1 ∈ log ∧ .computed reply.1 reply.2 ∈ log
  cached : ∀ key response, s.dedup.get key = some response → Answered log key response
  sent : ∀ e ∈ log, e.IsAnswer log

omit [DecidableEq π] in
theorem Answered.append {response : List UInt8} (h : Answered log key response) (evs : Log π)
    : Answered (evs ++ log) key response := by
  rcases h with ⟨job, hkey, hreceived, hcomputed⟩
  exact ⟨job, hkey, List.mem_append_right _ hreceived, List.mem_append_right _ hcomputed⟩

omit [DecidableEq π] in
theorem Event.IsAnswer.append (h : e.IsAnswer log) (evs : Log π) : e.IsAnswer (evs ++ log) := by
  cases e with
  | sent recipient datagram =>
    rcases h with ⟨key, response, hanswered, hrecipient, hdatagram⟩
    exact ⟨key, response, hanswered.append evs, hrecipient, hdatagram⟩
  | received | checked | missed | executed | computed | inserted => trivial

theorem Traced.advance (h : Traced log s)
    (hjobs : ∀ job ∈ jobs t, job ∈ jobs s ∨ .received job ∈ evs)
    (hreplied : ∀ reply ∈ t.replied, reply ∈ s.replied
      ∨ reply.1 ∈ jobs s ∧ .computed reply.1 reply.2 ∈ evs)
    (hcached : ∀ key response, t.dedup.get key = some response →
      Answered log key response)
    (hsent : ∀ e ∈ evs, e.IsAnswer log)
    : Traced (evs.reverse ++ log) t := by
  constructor
  . intro job hmem
    rcases hjobs job hmem with hmem | hmem
    . exact List.mem_append_right _ (h.received job hmem)
    . exact List.mem_append_left _ (List.mem_reverse.mpr hmem)
  . intro reply hmem
    rcases hreplied reply hmem with hmem | ⟨hjob, hcomputed⟩
    . rcases h.replied reply hmem with ⟨hreceived, hcomputed⟩
      exact ⟨List.mem_append_right _ hreceived, List.mem_append_right _ hcomputed⟩
    . exact ⟨List.mem_append_right _ (h.received _ hjob),
        List.mem_append_left _ (List.mem_reverse.mpr hcomputed)⟩
  . intro key response hget
    exact (hcached key response hget).append _
  . intro e hmem
    rcases List.mem_append.mp hmem with hmem | hmem
    . exact (hsent e (List.mem_reverse.mp hmem)).append _
    . exact (h.sent e hmem).append _

theorem mem_jobs
    : job ∈ jobs s ↔ job ∈ s.arrived ∨ job ∈ s.missed ∨ job ∈ s.queue ∨ s.running = some job := by
  simp [jobs]

theorem mem_jobs_enqueue {job' : Job π} (h : job' ∈ jobs (s.enqueue job))
    : job' ∈ jobs s ∨ job' = job := by
  unfold UdpServer.enqueue at h
  split at h
  . exact Or.inl h
  . rw [mem_jobs] at h ⊢
    grind

theorem mem_jobs_handOver {job' : Job π} (h : job' ∈ jobs (s.handOver backend job))
    : job' ∈ jobs s ∨ job' = job := by
  cases backend with
  | linux => exact mem_jobs_enqueue h
  | windows =>
    rw [mem_jobs] at h ⊢
    simp only [UdpServer.handOver, List.mem_cons] at h
    grind

theorem replied_handOver (backend : Backend) (s : UdpServer π) (job : Job π)
    : (s.handOver backend job).replied = s.replied := by
  cases backend with
  | linux => exact replied_enqueue s job
  | windows => rfl

theorem dedup_handOver (backend : Backend) (s : UdpServer π) (job : Job π)
    : (s.handOver backend job).dedup = s.dedup := by
  cases backend with
  | linux => exact dedup_enqueue s job
  | windows => rfl

theorem Traced.receive {sender : π} {datagram : List UInt8} (h : Traced log s)
    (taken : s.receive sender datagram = (evs, t))
    : Traced (evs.reverse ++ log) t := by
  unfold UdpServer.receive at taken
  split at taken
  . cases taken
    refine h.advance ?_ (fun _ => Or.inl) h.cached (by simp [Event.IsAnswer])
    intro job hmem
    rw [mem_jobs] at hmem ⊢
    simp only [List.mem_cons, List.not_mem_nil, or_false, Event.received.injEq] at hmem ⊢
    grind
  . cases taken
    exact h

theorem Traced.check (h : Traced log s) (hmem : job ∈ s.arrived)
    (taken : s.check backend job = (evs, t))
    : Traced (evs.reverse ++ log) t := by
  have herase : ∀ job' ∈ jobs { s with arrived := s.arrived.erase job }, job' ∈ jobs s := by
    intro job' hmem'
    rw [mem_jobs] at hmem' ⊢
    exact hmem'.imp_left List.mem_of_mem_erase
  revert taken
  fun_cases UdpServer.check backend s job
  case case1 cached hget =>
    rintro ⟨⟩
    refine h.advance (fun job' hmem' => Or.inl (herase job' hmem')) (fun _ => Or.inl) h.cached ?_
    intro e he
    rcases List.mem_pair.mp he with rfl | rfl
    . trivial
    . exact ⟨job.key, cached, h.cached _ _ hget, rfl, rfl⟩
  case case2 hget =>
    rintro ⟨⟩
    apply h.advance
    . intro job' hmem'
      rcases mem_jobs_handOver hmem' with hmem' | rfl
      . exact Or.inl (herase job' hmem')
      . exact Or.inl (mem_jobs.mpr (Or.inl hmem))
    . rw [replied_handOver]
      exact fun _ => Or.inl
    . rw [dedup_handOver]
      exact h.cached
    . intro e he
      rcases List.mem_pair.mp he with rfl | rfl
      . trivial
      . trivial

theorem Traced.step {a : Action π} (h : Traced log s)
    (taken : UdpServer.machine backend s a = some (evs, t))
    : Traced (evs.reverse ++ log) t := by
  revert taken
  fun_cases UdpServer.machine backend s a
  case case1 =>
    intro taken
    exact h.receive (Option.some.inj taken)
  case case2 hmem =>
    intro taken
    exact h.check hmem (Option.some.inj taken)
  all_goals rintro ⟨⟩
  case case4 job hmem =>
    refine h.advance ?_ ?_ ?_ (by simp)
    . intro job' hmem'
      rcases mem_jobs_enqueue hmem' with hmem' | rfl
      . rw [mem_jobs] at hmem' ⊢
        grind
      . exact Or.inl (mem_jobs.mpr (Or.inr (Or.inl hmem)))
    . rw [replied_enqueue]
      exact fun _ => Or.inl
    . rw [dedup_enqueue]
      exact h.cached
  case case6 job queue hqueue hrunning =>
    refine h.advance ?_ (fun _ => Or.inl) h.cached (by simp [Event.IsAnswer])
    intro job' hmem'
    rw [mem_jobs] at hmem' ⊢
    grind
  case case8 response job hrunning =>
    refine h.advance ?_ ?_ h.cached (by simp [Event.IsAnswer])
    . intro job' hmem'
      rw [mem_jobs] at hmem' ⊢
      grind
    . intro reply hmem'
      rcases List.mem_cons.mp hmem' with rfl | hmem'
      . exact Or.inr ⟨mem_jobs.mpr (by simp [hrunning]), by simp⟩
      . exact Or.inl hmem'
  case case10 job response hmem =>
    have hanswered : Answered log job.key response := by
      rcases h.replied _ hmem with ⟨hreceived, hcomputed⟩
      exact ⟨job, rfl, hreceived, hcomputed⟩
    refine h.advance (fun _ => Or.inl) ?_ ?_ ?_
    . intro reply hmem'
      exact Or.inl (List.mem_of_mem_erase hmem')
    . intro key response' hget
      rcases DedupCache.get_of_insert hget with ⟨rfl, rfl⟩ | hget
      . exact hanswered
      . exact h.cached key response' hget
    . intro e he
      rcases List.mem_pair.mp he with rfl | rfl
      . trivial
      . exact ⟨job.key, response, hanswered, rfl, rfl⟩
  case case12 =>
    refine h.advance ?_ (fun _ => Or.inl) h.cached (by simp)
    intro job' hmem'
    rw [mem_jobs] at hmem' ⊢
    grind

theorem Traced.start : Traced [] ({} : UdpServer π) := by
  constructor
  . simp [jobs]
  . simp
  . simp [DedupCache.get]
  . simp

theorem receive_envelope (s : UdpServer π) (job : Job π)
    (hlen : job.payload.length ≤ maxPayloadSize)
    : s.receive job.key.1 (sendEnvelope job.key.2.1 job.key.2.2 job.payload)
      = ([.received job], { s with arrived := job :: s.arrived }) := by
  have hsmall : sendable job.payload = job.payload := if_neg (Nat.not_lt.mpr hlen)
  have hencode := encodeEnvelope_sendable job.key.2.1 job.key.2.2 job.payload
  rw [hsmall] at hencode
  rw [UdpServer.receive, decodeEnvelope_encodeEnvelope hencode]

/-- What it takes to serve one request, with nothing else going on. -/
def serving (backend : Backend) (job : Job π) (response : List UInt8) : List (Action π) :=
  match backend with
  | .linux => [.receive job.key.1 (sendEnvelope job.key.2.1 job.key.2.2 job.payload), .check job,
      .take, .finish response, .insert job response]
  | .windows => [.receive job.key.1 (sendEnvelope job.key.2.1 job.key.2.2 job.payload), .check job,
      .submit job, .take, .finish response, .insert job response]

def servedLog (job : Job π) (response : List UInt8) : Log π :=
  [UdpServer.answer job.key response, .inserted job.key, .computed job response, .executed job,
    .missed job.key, .checked job.key, .received job]

theorem runs_serving (backend : Backend) {cache : DedupCache (Key π) (List UInt8)}
    (response : List UInt8) (hlen : job.payload.length ≤ maxPayloadSize)
    (hget : cache.get job.key = none)
    : (UdpServer.machine backend).Runs anything { dedup := cache } (servedLog job response)
      { dedup := cache.insert job.key response } := by
  apply Machine.runs_play (serving backend job response)
  cases backend with
  | linux =>
    simp [serving, servedLog, Machine.play, UdpServer.machine, receive_envelope, hlen,
      UdpServer.check, hget, UdpServer.handOver, UdpServer.enqueue, anything]
  | windows =>
    simp [serving, servedLog, Machine.play, UdpServer.machine, receive_envelope, hlen,
      UdpServer.check, hget, UdpServer.handOver, UdpServer.enqueue, anything]

end

end Server.Udp
