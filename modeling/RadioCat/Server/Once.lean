import RadioCat.Server.Udp

/-!
This module contains how often the UDP listeners have a request executed: once, as long as the
copies of a datagram are checked neither too early nor too late.
-/

namespace Server.Udp

open Trace Datagram

universe u

section

variable {π : Type u} [DecidableEq π]

def misses (log : Log π) (key : Key π) : Nat :=
  log.count (.missed key)

def insertions (log : Log π) (key : Key π) : Nat :=
  log.count (.inserted key)

def Event.executes (key : Key π) : Event π → Bool
  | .executed job => job.key = key
  | _ => false

def executions (log : Log π) (key : Key π) : Nat :=
  log.countP (Event.executes key)

def Event.isInsertion : Event π → Bool
  | .inserted _ => true
  | _ => false

def allInsertions (log : Log π) : Nat :=
  log.countP Event.isInsertion

/--
When a datagram is checked and an earlier copy of it was found to be new, the answer to that one has
been put into the cache, and so few others since then that it is still there.
-/
def CheckedSpaced : Event π → Log π → Prop
  | .checked key, log => ∀ mid older, log = mid ++ .missed key :: older →
      ∃ a b, mid = a ++ .inserted key :: b ∧ allInsertions a < dedupCacheCapacity
  | _, _ => True

abbrev Spaced (log : Log π) : Prop :=
  Each CheckedSpaced log

def waiting (s : UdpServer π) (key : Key π) : Nat :=
  s.missed.countP (·.key = key) + s.queue.countP (·.key = key)

def unanswered (s : UdpServer π) (key : Key π) : Nat :=
  waiting s key + s.running.toList.countP (·.key = key) + s.replied.countP (·.1.key = key)

structure Handled (log : Log π) (s : UdpServer π) : Prop where
  executed : ∀ key, executions log key + waiting s key ≤ misses log key
  inserted : ∀ key, insertions log key + unanswered s key ≤ misses log key
  once : ∀ key, misses log key ≤ 1
  cached : ∀ key ∈ s.dedup.order, 0 < insertions log key
  keeps : ∀ newer key older, log = newer ++ .inserted key :: older →
    allInsertions newer < dedupCacheCapacity → s.dedup.Keeps key (allInsertions newer)

variable {log evs : Log π} {s t : UdpServer π} {e : Event π} {key : Key π} {job : Job π}
  {backend : Backend}

theorem misses_cons (e : Event π) (log : Log π) (key : Key π)
    : misses (e :: log) key = misses log key + if e = .missed key then 1 else 0 := by
  simp [misses, List.count_cons]

theorem insertions_cons (e : Event π) (log : Log π) (key : Key π)
    : insertions (e :: log) key = insertions log key + if e = .inserted key then 1 else 0 := by
  simp [insertions, List.count_cons]

theorem executions_cons (e : Event π) (log : Log π) (key : Key π)
    : executions (e :: log) key = executions log key + if e.executes key then 1 else 0 := by
  apply List.countP_cons

omit [DecidableEq π] in
theorem allInsertions_cons (e : Event π) (log : Log π)
    : allInsertions (e :: log) = allInsertions log + if e.isInsertion then 1 else 0 := by
  apply List.countP_cons

theorem Handled.keeps_cons (h : Handled log s) (he : e.isInsertion = false)
    : ∀ newer key older, e :: log = newer ++ .inserted key :: older →
      allInsertions newer < dedupCacheCapacity → s.dedup.Keeps key (allInsertions newer) := by
  intro newer key older heq hcount
  cases newer with
  | nil =>
    cases heq
    cases he
  | cons e' newer =>
    cases heq
    rw [allInsertions_cons, he] at hcount ⊢
    exact h.keeps newer key older rfl hcount

theorem Handled.quiet (h : Handled log s) (hdedup : t.dedup = s.dedup)
    (hwaiting : ∀ key, waiting t key ≤ waiting s key)
    (hunanswered : ∀ key, unanswered t key ≤ unanswered s key)
    : Handled log t := by
  constructor
  . intro key
    have hkey := h.executed key
    have hle := hwaiting key
    omega
  . intro key
    have hkey := h.inserted key
    have hle := hunanswered key
    omega
  . exact h.once
  . rw [hdedup]
    exact h.cached
  . rw [hdedup]
    exact h.keeps

/-- Events that say nothing of what is counted. -/
def Event.isPlain : Event π → Bool
  | .received _ | .checked _ | .computed _ _ | .sent _ _ => true
  | _ => false

theorem Handled.plain (h : Handled log s) (he : e.isPlain = true) : Handled (e :: log) s := by
  cases e with
  | missed | executed | inserted => cases he
  | received | checked | computed | sent =>
    refine ⟨?_, ?_, ?_, ?_, h.keeps_cons rfl⟩
    . intro key
      simpa [executions_cons, misses_cons, Event.executes] using h.executed key
    . intro key
      simpa [insertions_cons, misses_cons] using h.inserted key
    . intro key
      simpa [misses_cons] using h.once key
    . intro key hmem
      simpa [insertions_cons] using h.cached key hmem

theorem Handled.execute (h : Handled log s) (hdedup : t.dedup = s.dedup)
    (hwaiting : ∀ key, waiting t key + (if job.key = key then 1 else 0) ≤ waiting s key)
    (hunanswered : ∀ key, unanswered t key ≤ unanswered s key)
    : Handled (.executed job :: log) t := by
  constructor
  . intro key
    have hkey := h.executed key
    have hle := hwaiting key
    simp only [executions_cons, misses_cons, Event.executes, decide_eq_true_eq, reduceCtorEq,
      if_false]
    omega
  . intro key
    have hkey := h.inserted key
    have hle := hunanswered key
    simp only [insertions_cons, misses_cons, reduceCtorEq, if_false]
    omega
  . intro key
    simpa [misses_cons] using h.once key
  . intro key hmem
    rw [hdedup] at hmem
    simpa [insertions_cons] using h.cached key hmem
  . rw [hdedup]
    exact h.keeps_cons rfl

theorem Handled.miss (h : Handled log s) (hnew : misses log key = 0) (hdedup : t.dedup = s.dedup)
    (hwaiting : ∀ key', waiting t key' ≤ waiting s key' + if key = key' then 1 else 0)
    (hunanswered : ∀ key', unanswered t key' ≤ unanswered s key' + if key = key' then 1 else 0)
    : Handled (.missed key :: log) t := by
  constructor
  . intro key'
    have hkey := h.executed key'
    have hle := hwaiting key'
    simp only [executions_cons, misses_cons, Event.executes, Event.missed.injEq, Bool.false_eq_true,
      if_false]
    omega
  . intro key'
    have hkey := h.inserted key'
    have hle := hunanswered key'
    simp only [insertions_cons, misses_cons, Event.missed.injEq, reduceCtorEq, if_false]
    omega
  . intro key'
    have honce := h.once key'
    rw [misses_cons]
    split
    next heq =>
      cases heq
      omega
    next => omega
  . intro key' hmem
    rw [hdedup] at hmem
    simpa [insertions_cons] using h.cached key' hmem
  . rw [hdedup]
    exact h.keeps_cons rfl

theorem Handled.insert {response : List UInt8} (h : Handled log s)
    (hreplied : 0 < unanswered s key)
    (hdedup : t.dedup = s.dedup.insert key response)
    (hwaiting : ∀ key', waiting t key' = waiting s key')
    (hunanswered : ∀ key', unanswered t key' + (if key = key' then 1 else 0) ≤ unanswered s key')
    : Handled (.inserted key :: log) t := by
  have hnew : key ∉ s.dedup.responses := by
    intro hmem
    have hcached := h.cached key ((s.dedup.keys key).mpr hmem)
    have hinserted := h.inserted key
    have honce := h.once key
    omega
  constructor
  . intro key'
    have hkey := h.executed key'
    have heq := hwaiting key'
    simp only [executions_cons, misses_cons, Event.executes, reduceCtorEq, Bool.false_eq_true,
      if_false]
    omega
  . intro key'
    have hkey := h.inserted key'
    have hle := hunanswered key'
    simp only [insertions_cons, misses_cons, Event.inserted.injEq, reduceCtorEq, if_false]
    omega
  . intro key'
    simpa [misses_cons] using h.once key'
  . intro key' hmem
    rw [hdedup, DedupCache.order_insert_new hnew, List.mem_append, List.mem_singleton] at hmem
    rw [insertions_cons]
    rcases hmem with hmem | rfl
    . have hcached := h.cached key' (DedupCache.mem_order_of_makeRoom hmem)
      omega
    . simp
  . intro newer key' older heq hcount
    rw [hdedup]
    cases newer with
    | nil =>
      cases heq
      exact DedupCache.keeps_insert hnew
    | cons e' newer =>
      cases heq
      rw [allInsertions_cons] at hcount ⊢
      simp only [Event.isInsertion, if_true] at hcount ⊢
      apply DedupCache.Keeps.insert _ hcount
      apply h.keeps newer key' older rfl
      omega

/-- The earlier copy's answer is still in the cache, so the check would have found it. -/
theorem Handled.misses_eq_zero (h : Handled log s) (hget : s.dedup.get key = none)
    (hspaced : Spaced (.checked key :: log))
    : misses log key = 0 := by
  apply List.count_eq_zero.mpr
  intro hmem
  rcases List.append_of_mem hmem with ⟨mid, older, rfl⟩
  rcases hspaced.1 mid older rfl with ⟨a, b, rfl, hcount⟩
  have hkeeps := h.keeps a key (b ++ .missed key :: older) (by simp) hcount
  have hsome := hkeeps.get_isSome
  rw [hget] at hsome
  cases hsome

theorem countP_erase_of_mem {α : Type*} [BEq α] [LawfulBEq α] {l : List α} {a : α} (p : α → Bool)
    (h : a ∈ l)
    : l.countP p = (l.erase a).countP p + if p a then 1 else 0 := by
  rw [(List.perm_cons_erase h).countP_eq p, List.countP_cons]

theorem waiting_enqueue_le (s : UdpServer π) (job : Job π) (key : Key π)
    : waiting (s.enqueue job) key ≤ waiting s key + if job.key = key then 1 else 0 := by
  unfold UdpServer.enqueue
  split
  . omega
  . simp only [waiting, List.countP_append, List.countP_singleton, decide_eq_true_eq]
    omega

theorem unanswered_enqueue_le (s : UdpServer π) (job : Job π) (key : Key π)
    : unanswered (s.enqueue job) key ≤ unanswered s key + if job.key = key then 1 else 0 := by
  have hwaiting := waiting_enqueue_le s job key
  rw [unanswered, unanswered, running_enqueue, replied_enqueue]
  omega

theorem Handled.handOver (h : Handled log s) (hnew : misses log job.key = 0)
    : Handled (.missed job.key :: log) (s.handOver backend job) := by
  cases backend with
  | linux =>
    apply h.miss hnew (dedup_enqueue s job)
    . exact waiting_enqueue_le s job
    . exact unanswered_enqueue_le s job
  | windows =>
    refine h.miss hnew rfl ?_ ?_
    . intro key
      simp only [waiting, UdpServer.handOver, List.countP_cons, decide_eq_true_eq]
      omega
    . intro key
      simp only [unanswered, waiting, UdpServer.handOver, List.countP_cons, decide_eq_true_eq]
      omega

theorem Handled.receive {sender : π} {datagram : List UInt8} (h : Handled log s)
    (taken : s.receive sender datagram = (evs, t))
    : Handled (evs.reverse ++ log) t := by
  unfold UdpServer.receive at taken
  split at taken
  . cases taken
    apply Handled.plain _ rfl
    exact h.quiet rfl (fun _ => Nat.le_refl _) (fun _ => Nat.le_refl _)
  . cases taken
    exact h

theorem Handled.check (h : Handled log s) (taken : s.check backend job = (evs, t))
    (hspaced : Spaced (evs.reverse ++ log))
    : Handled (evs.reverse ++ log) t := by
  have hrest : Handled (.checked job.key :: log) { s with arrived := s.arrived.erase job } := by
    apply Handled.plain _ rfl
    exact h.quiet rfl (fun _ => Nat.le_refl _) (fun _ => Nat.le_refl _)
  revert taken
  fun_cases UdpServer.check backend s job
  case case1 =>
    rintro ⟨⟩
    exact hrest.plain rfl
  case case2 hget =>
    rintro ⟨⟩
    have hnew := h.misses_eq_zero hget hspaced.2
    apply hrest.handOver
    rw [misses_cons, hnew]
    rfl

theorem Handled.step {a : Action π} (h : Handled log s)
    (taken : UdpServer.machine backend s a = some (evs, t)) (hspaced : Spaced (evs.reverse ++ log))
    : Handled (evs.reverse ++ log) t := by
  revert taken
  fun_cases UdpServer.machine backend s a
  case case1 sender datagram =>
    intro taken
    exact h.receive (Option.some.inj taken)
  case case2 =>
    intro taken
    exact h.check (Option.some.inj taken) hspaced
  all_goals rintro ⟨⟩
  case case4 job hmem =>
    refine h.quiet (dedup_enqueue _ job) ?_ ?_
    . intro key
      have hle := waiting_enqueue_le { s with missed := s.missed.erase job } job key
      have herase := countP_erase_of_mem (fun job : Job π => job.key = key) hmem
      simp only [waiting, decide_eq_true_eq] at hle herase ⊢
      omega
    . intro key
      have hle := unanswered_enqueue_le { s with missed := s.missed.erase job } job key
      have herase := countP_erase_of_mem (fun job : Job π => job.key = key) hmem
      simp only [unanswered, waiting, decide_eq_true_eq] at hle herase ⊢
      omega
  case case6 job queue hqueue hrunning =>
    refine h.execute rfl ?_ ?_
    . intro key
      simp only [waiting, hqueue, List.countP_cons, decide_eq_true_eq]
      omega
    . intro key
      simp only [unanswered, waiting, hqueue, hrunning, List.countP_cons, Option.toList_some,
        Option.toList_none, List.countP_nil]
      omega
  case case8 response job hrunning =>
    apply Handled.plain _ rfl
    refine h.quiet rfl (fun _ => Nat.le_refl _) ?_
    intro key
    simp only [unanswered, waiting, hrunning, List.countP_cons, Option.toList_some,
      Option.toList_none, List.countP_nil]
    omega
  case case10 job response hmem =>
    apply Handled.plain _ rfl
    have herase : ∀ key, s.replied.countP (·.1.key = key)
        = (s.replied.erase (job, response)).countP (·.1.key = key)
          + if job.key = key then 1 else 0 := by
      intro key
      have herase := countP_erase_of_mem (fun reply : Job π × List UInt8 => reply.1.key = key) hmem
      simpa only [decide_eq_true_eq] using herase
    refine h.insert ?_ rfl (fun _ => rfl) ?_
    . have hkey := herase job.key
      rw [if_pos rfl] at hkey
      rw [unanswered]
      omega
    . intro key
      have hkey := herase key
      simp only [unanswered, waiting]
      omega
  case case12 =>
    refine h.quiet rfl ?_ ?_
    . intro key
      simp only [waiting, List.countP_nil]
      omega
    . intro key
      simp only [unanswered, waiting, List.countP_nil, Option.toList_none]
      omega

theorem runs_handled (h : (UdpServer.machine backend).Runs anything ({} : UdpServer π) log s)
    (hspaced : Spaced log)
    : Handled log s := by
  apply Machine.Runs.invariant_while Spaced Handled _ _ _ h hspaced
  . exact Each.of_append_right
  . constructor
    . simp [executions, waiting]
    . simp [insertions, unanswered, waiting]
    . simp [misses]
    . simp
    . simp
  . intro _ _ _ _ _ hI hspaced _ taken
    exact hI.step taken hspaced

theorem executed_once_when_spaced
    (h : (UdpServer.machine backend).Runs anything ({} : UdpServer π) log s) (hspaced : Spaced log)
    (key : Key π)
    : executions log key ≤ 1 := by
  have hhandled := runs_handled h hspaced
  have hexecuted := hhandled.executed key
  have honce := hhandled.once key
  omega

end

/-- A query of the frequency, from one peer or another. -/
def query (peer : Nat) : Job Nat :=
  { key := (peer, 7, 1), payload := [0x46, 0x41, 0x3B] }

theorem length_query (peer : Nat) : (query peer).payload.length ≤ maxPayloadSize := by
  change 3 ≤ 1024
  omega

/-- A query that is answered by the worker, and a copy of it that is answered from the cache. -/
def repeatedLog : Log Nat :=
  [UdpServer.answer (query 0).key [0x3F], .checked (query 0).key, .received (query 0)]
    ++ servedLog (query 0) [0x3F]

theorem runs_repeated (backend : Backend)
    : ∃ s, (UdpServer.machine backend).Runs anything {} repeatedLog s := by
  have hserved : (UdpServer.machine backend).Runs anything {} _ _ :=
    runs_serving backend [0x3F] (length_query 0) rfl
  exact ⟨_, hserved.trans (Machine.runs_play
    [.receive 0 (sendEnvelope 7 1 [0x46, 0x41, 0x3B]), .check (query 0)] rfl)⟩

theorem spaced_repeated : Spaced repeatedLog := by
  refine ⟨trivial, ?_, trivial, trivial, trivial, trivial, trivial, trivial, ?_, trivial, trivial⟩
  . intro mid older heq
    simp [servedLog, UdpServer.answer, List.cons_eq_append_iff] at heq
    rw [heq.1]
    exact ⟨[.received (query 0), UdpServer.answer (query 0).key [0x3F]], _, rfl, by decide⟩
  . intro mid older heq
    simp [List.cons_eq_append_iff] at heq

theorem executed_once_repeated
    : (∃ s, (UdpServer.machine .linux).Runs anything {} repeatedLog s) ∧
      (∃ s, (UdpServer.machine .windows).Runs anything {} repeatedLog s) ∧
      Spaced repeatedLog ∧
      repeatedLog.count (UdpServer.answer (0, 7, 1) [0x3F]) = 2 ∧
      executions repeatedLog (0, 7, 1) = 1 ∧ executions repeatedLog (0, 7, 1) ≤ 1 := by
  rcases runs_repeated .linux with ⟨s, hlinux⟩
  refine ⟨⟨s, hlinux⟩, runs_repeated .windows, spaced_repeated, by decide, by decide, ?_⟩
  exact executed_once_when_spaced hlinux spaced_repeated (0, 7, 1)

def race : Backend → List (Action Nat)
  | .linux => [.receive 0 (sendEnvelope 7 1 [0x46, 0x41, 0x3B]),
      .receive 0 (sendEnvelope 7 1 [0x46, 0x41, 0x3B]), .check (query 0), .check (query 0), .take,
      .finish [], .take]
  | .windows => [.receive 0 (sendEnvelope 7 1 [0x46, 0x41, 0x3B]),
      .receive 0 (sendEnvelope 7 1 [0x46, 0x41, 0x3B]), .check (query 0), .check (query 0),
      .submit (query 0), .submit (query 0), .take, .finish [], .take]

theorem get_fill_eq_none {n peer : Nat} (h : peer < n - dedupCacheCapacity ∨ n ≤ peer)
    : (DedupCache.fill (fun peer => (query peer).key) ([] : List UInt8) n).get (query peer).key
      = none := by
  have hkey : Function.Injective fun peer => (query peer).key := by
    intro peer peer' heq
    exact congrArg Prod.fst heq
  apply AList.lookup_eq_none.mpr
  rw [← DedupCache.keys, DedupCache.order_fill hkey]
  intro hmem
  rcases List.mem_map.mp hmem with ⟨i, hi, heq⟩
  cases hkey heq
  rw [List.range_eq_range', List.drop_range', List.mem_range'_1] at hi
  omega

theorem runs_filled (backend : Backend) (n : Nat)
    : ∃ log, (UdpServer.machine backend).Runs anything {} log
        { dedup := DedupCache.fill (fun peer => (query peer).key) [] (n + 1) }
      ∧ 0 < insertions log (0, 7, 1) ∧ 0 < executions log (0, 7, 1) := by
  induction n with
  | zero => exact ⟨_, runs_serving backend [] (length_query 0) rfl, by decide, by decide⟩
  | succ n ih =>
    rcases ih with ⟨log, hrun, hinserted, hexecuted⟩
    have hget : (DedupCache.fill (fun peer => (query peer).key) ([] : List UInt8) (n + 1)).get
        (query (n + 1)).key = none := by
      apply get_fill_eq_none
      omega
    refine ⟨_, hrun.trans (runs_serving backend [] (length_query _) hget), ?_, ?_⟩
    . rw [insertions, List.count_append]
      exact Nat.add_pos_right _ hinserted
    . rw [executions, List.countP_append]
      exact Nat.add_pos_right _ hexecuted

theorem executed_twice_race (backend : Backend)
    : ∃ (log : Log Nat) (s : UdpServer Nat), (UdpServer.machine backend).Runs anything {} log s
      ∧ insertions log (0, 7, 1) = 0 ∧ executions log (0, 7, 1) = 2 := by
  have hplay : ((UdpServer.machine backend).play anything {} (race backend)).map
      (fun r => (insertions r.1 (0, 7, 1), executions r.1 (0, 7, 1))) = some (0, 2) := by
    cases backend with
    | linux => decide
    | windows => decide
  rcases Machine.exists_runs_play _ hplay with ⟨log, s, hrun, hcounts⟩
  exact ⟨log, s, hrun, congrArg Prod.fst hcounts, congrArg Prod.snd hcounts⟩

theorem executed_again_evicted (backend : Backend)
    : ∃ (newer older : Log Nat) (s : UdpServer Nat),
      (UdpServer.machine backend).Runs anything {} (newer ++ older) s
      ∧ 0 < insertions older (0, 7, 1) ∧ 0 < executions older (0, 7, 1)
      ∧ executions newer (0, 7, 1) = 1 := by
  rcases runs_filled backend 256 with ⟨log, hrun, hinserted, hexecuted⟩
  have hget : (DedupCache.fill (fun peer => (query peer).key) ([] : List UInt8) 257).get
      (query 0).key = none := by
    apply get_fill_eq_none
    decide
  have hagain := runs_serving backend [] (length_query 0) hget
  exact ⟨servedLog (query 0) [], log, _, hrun.trans hagain, hinserted, hexecuted, by decide⟩

/--
Two copies are executed when both are checked before the answer to one is there, and when the answer
has been evicted before the second one arrives.
-/
theorem executed_twice
    : (∃ (log : Log Nat) (s : UdpServer Nat), (UdpServer.machine .windows).Runs anything {} log s
        ∧ insertions log (0, 7, 1) = 0 ∧ executions log (0, 7, 1) = 2)
      ∧ (∃ (log : Log Nat) (s : UdpServer Nat), (UdpServer.machine .linux).Runs anything {} log s
        ∧ insertions log (0, 7, 1) = 0 ∧ executions log (0, 7, 1) = 2)
      ∧ (∃ (newer older : Log Nat) (s : UdpServer Nat),
        (UdpServer.machine .linux).Runs anything {} (newer ++ older) s
        ∧ 0 < insertions older (0, 7, 1) ∧ 0 < executions older (0, 7, 1)
        ∧ executions newer (0, 7, 1) = 1) := by
  exact ⟨executed_twice_race .windows, executed_twice_race .linux, executed_again_evicted .linux⟩

end Server.Udp
