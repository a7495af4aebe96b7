import Mathlib.Algebra.Ring.Nat
import RadioCat.Transport.Serial

/-!
This module contains the two ports whose bytes are received by a thread of their own: the port
behind an RFC 2217 connection and the Windows port.
-/

namespace Serial

open Trace Server

def stamp (arrivals : Nat) (values : List UInt8) : List Received :=
  values.mapIdx fun i value => { value, arrival := arrivals + i }

theorem le_of_mem_stamp {b : Received} {arrivals : Nat} {values : List UInt8}
    (h : b ∈ stamp arrivals values)
    : arrivals ≤ b.arrival := by
  unfold stamp at h
  rcases List.mem_mapIdx.mp h with ⟨i, _, rfl⟩
  exact Nat.le_add_right arrivals i

structure Rfc2217Port where
  inbox : List Received := []
  arrivals : Nat := 0
  closed : Option String := none
  -- How writing to the socket fails, if it does.
  broken : Option String := none
  deriving DecidableEq

namespace Rfc2217Port

inductive Background where
  | data (values : List UInt8)
  | close (error : Option String)
  | writer (broken : Option String)
  deriving DecidableEq, Repr

def close (p : Rfc2217Port) (why : String) : Rfc2217Port :=
  match p.closed with
  | none => { p with closed := some why }
  | some _ => p

/-- The reader's thread, which is over once the connection is. -/
def background (p : Rfc2217Port) : Background → Option Rfc2217Port
  | .data values =>
    match p.closed with
    | none =>
      some { p with
        inbox := p.inbox ++ stamp p.arrivals values
        arrivals := p.arrivals + values.length }
    | some _ => none
  | .close none => some (p.close "the remote port closed the connection")
  | .close (some e) => some (p.close ("reading the remote port failed: " ++ e))
  | .writer broken => some { p with broken }

def poll (p : Rfc2217Port) : Op → Option (Reply × Rfc2217Port)
  | .write data =>
    match p.broken with
    | some e => some (.failed (.io e), p)
    | none => some (.written data.length, p)
  | .read 0 => some (.bytes [], p)
  | .read len =>
    match p.inbox with
    | [] =>
      match p.closed with
      | some why => some (.failed (.other why), p)
      | none => none
    | _ :: _ => some (.bytes (p.inbox.take len), { p with inbox := p.inbox.drop len })

-- There is no `drain`: it stays the default of the trait.
def transport : Port Rfc2217Port Background where
  start p _ := p
  poll := poll
  cancel p := p
  flush p := p.broken.map .io
  flushRx p := { p with inbox := [] }
  background := background
  unread := inbox
  arrivals := arrivals
  owed _ := 0

def Clean (m : Nat) (p : Rfc2217Port) : Prop :=
  m ≤ p.arrivals ∧ ∀ b ∈ p.inbox, m ≤ b.arrival

def Stale (old : List Received) (p : Rfc2217Port) : Prop :=
  ∃ b rest, p.inbox = b :: rest ∧ b ∈ old

theorem Clean.poll {m : Nat} {p q : Rfc2217Port} {op : Op} {reply : Reply} (h : Clean m p)
    (taken : p.poll op = some (reply, q))
    : Clean m q := by
  revert taken
  fun_cases Rfc2217Port.poll p op
  all_goals rintro ⟨⟩
  case case6 => exact ⟨h.1, fun b hmem => h.2 b (List.mem_of_mem_drop hmem)⟩
  all_goals exact h

theorem Clean.bytes {m : Nat} {p q : Rfc2217Port} {op : Op} {bytes : List Received}
    (h : Clean m p) (taken : p.poll op = some (.bytes bytes, q))
    : ∀ b ∈ bytes, m ≤ b.arrival := by
  revert taken
  fun_cases Rfc2217Port.poll p op
  all_goals rintro ⟨⟩
  case case3 => simp
  case case6 => exact fun b hmem => h.2 b (List.mem_of_mem_take hmem)

theorem inbox_close (p : Rfc2217Port) (why : String) : (p.close why).inbox = p.inbox := by
  unfold close
  split
  . rfl
  . rfl

theorem arrivals_close (p : Rfc2217Port) (why : String)
    : (p.close why).arrivals = p.arrivals := by
  unfold close
  split
  . rfl
  . rfl

theorem inbox_background {p q : Rfc2217Port} {b : Background} (taken : p.background b = some q)
    : p.arrivals ≤ q.arrivals
      ∧ ∃ new, q.inbox = p.inbox ++ new ∧ ∀ b ∈ new, p.arrivals ≤ b.arrival := by
  revert taken
  fun_cases Rfc2217Port.background p b
  all_goals rintro ⟨⟩
  case case1 values _ =>
    exact ⟨Nat.le_add_right _ _, stamp p.arrivals values, rfl, fun _ => le_of_mem_stamp⟩
  case case3 =>
    rw [arrivals_close, inbox_close]
    exact ⟨Nat.le_refl _, [], by simp⟩
  case case4 =>
    rw [arrivals_close, inbox_close]
    exact ⟨Nat.le_refl _, [], by simp⟩
  case case5 => exact ⟨Nat.le_refl _, [], by simp⟩

theorem Clean.background {m : Nat} {p q : Rfc2217Port} {b : Background} (h : Clean m p)
    (taken : p.background b = some q)
    : Clean m q := by
  rcases h with ⟨harrivals, hinbox⟩
  rcases inbox_background taken with ⟨hle, new, hnew, hlate⟩
  constructor
  . omega
  . intro b hmem
    rw [hnew] at hmem
    rcases List.mem_append.mp hmem with hmem | hmem
    . exact hinbox b hmem
    . have := hlate b hmem
      omega

theorem Stale.background {old : List Received} {p q : Rfc2217Port} {b : Background}
    (h : Stale old p) (taken : p.background b = some q)
    : Stale old q := by
  rcases h with ⟨b, rest, hinbox, hold⟩
  rcases inbox_background taken with ⟨_, new, hnew, _⟩
  rw [hinbox] at hnew
  exact ⟨b, rest ++ new, hnew, hold⟩

theorem Stale.written {old : List Received} {p q : Rfc2217Port} {op : Op} {n : Nat}
    (h : Stale old p) (taken : p.poll op = some (.written n, q))
    : Stale old q := by
  revert taken
  fun_cases Rfc2217Port.poll p op
  all_goals rintro ⟨⟩
  exact h

theorem Stale.bytes {old : List Received} {p q : Rfc2217Port} {bytes : List Received}
    (h : Stale old p) (taken : p.poll (.read 1) = some (.bytes bytes, q))
    : ∃ b rest, bytes = b :: rest ∧ b ∈ old := by
  rcases h with ⟨b, rest, hinbox, hold⟩
  simp only [poll, hinbox] at taken
  cases taken
  exact ⟨b, [], rfl, hold⟩

theorem accounts : transport.Accounts Clean Stale where
  clean_of_empty {p} _ hempty := by
    refine ⟨Nat.le_refl _, ?_⟩
    intro b hmem
    have hunread : b ∈ transport.unread p := hmem
    rw [hempty] at hunread
    cases hunread
  clean_start _ h := h
  clean_poll := Clean.poll
  clean_background := Clean.background
  clean_bytes := Clean.bytes
  stale_of_owed {p} _ howed := by
    rcases List.exists_cons_of_length_pos howed with ⟨b, rest, hinbox⟩
    exact ⟨b, rest, hinbox, hinbox ▸ List.mem_cons_self⟩
  stale_written _ := Stale.written
  stale_background := Stale.background
  stale_bytes := Stale.bytes

end Rfc2217Port

/-- The future of the operation under way, and whether the worker has answered it. -/
inductive Future where
  | waiting (op : Op)
  | ready (reply : Reply)
  deriving DecidableEq, Repr

/-- What `ReadFile` or `WriteFile` says; `n` is how much was written. -/
inductive FileResult where
  | completed (n : Nat)
  | failed (error : String)
  deriving DecidableEq, Repr

structure SerialPort where
  -- The receive buffer of the driver.
  buffer : List Received := []
  arrivals : Nat := 0
  -- The worker's queue, first the requests of futures that were dropped.
  abandoned : List Op := []
  future : Option Future := none
  gone : Bool := false
  broken : Option String := none
  deriving DecidableEq

namespace SerialPort

inductive Background where
  | data (values : List UInt8)
  | worker (result : FileResult)
  | workerGone
  | handle (broken : Option String)
  deriving DecidableEq, Repr

def workerGoneError : TransportError :=
  .io "cat-transport-serial: Windows worker thread is no longer running"

def start (p : SerialPort) (op : Op) : SerialPort :=
  if p.gone then
    { p with future := some (.ready (.failed workerGoneError)) }
  else
    { p with future := some (.waiting op) }

def poll (p : SerialPort) : Option (Reply × SerialPort) :=
  match p.future with
  | some (.ready reply) => some (reply, { p with future := none })
  | _ => none

-- The request stays in the queue; the answer goes nowhere.
def cancel (p : SerialPort) : SerialPort :=
  match p.future with
  | some (.waiting op) => { p with abandoned := p.abandoned ++ [op], future := none }
  | _ => { p with future := none }

/-- `ReadFile` returns when there is enough to read or when its time is up. -/
def workerRead (p : SerialPort) (len : Nat) : FileResult → Reply × List Received
  | .failed e => (.failed (.io e), p.buffer)
  | .completed _ =>
    match p.buffer.take len with
    | [] => (.failed .readTimeout, p.buffer)
    | b :: rest => (.bytes (b :: rest), p.buffer.drop len)

def workerWrite (data : List UInt8) : FileResult → Reply
  | .failed e => .failed (.io e)
  | .completed n => if n < data.length then .failed .writeTimeout else .written n

def perform (p : SerialPort) (result : FileResult) : Op → Reply × List Received
  | .read len => p.workerRead len result
  | .write data => (workerWrite data result, p.buffer)

def workerLoop (p : SerialPort) (result : FileResult) : Option SerialPort :=
  match p.abandoned with
  | op :: abandoned => some { p with buffer := (p.perform result op).2, abandoned }
  | [] =>
    match p.future with
    | some (.waiting op) =>
      some { p with
        buffer := (p.perform result op).2
        future := some (.ready (p.perform result op).1) }
    | _ => none

def background (p : SerialPort) : Background → Option SerialPort
  | .data values =>
    some { p with
      buffer := p.buffer ++ stamp p.arrivals values
      arrivals := p.arrivals + values.length }
  | .worker result => p.workerLoop result
  | .workerGone =>
    match p.future with
    | some (.waiting _) =>
      some { p with
        gone := true, abandoned := [], future := some (.ready (.failed workerGoneError)) }
    | _ => some { p with gone := true, abandoned := [] }
  | .handle broken => some { p with broken }

def wanted : Op → Nat
  | .read len => len
  | .write _ => 0

-- Here, too, `drain` stays the default of the trait.
def transport : Port SerialPort Background where
  start := start
  poll p _ := p.poll
  cancel := cancel
  flush p := p.broken.map .io
  flushRx p := { p with buffer := [] }
  background := background
  unread := buffer
  arrivals := arrivals
  owed p := (p.abandoned.map wanted).sum

def Clean (m : Nat) (p : SerialPort) : Prop :=
  m ≤ p.arrivals ∧ (∀ b ∈ p.buffer, m ≤ b.arrival)
    ∧ ∀ bytes, p.future = some (.ready (.bytes bytes)) → ∀ b ∈ bytes, m ≤ b.arrival

theorem mem_perform (p : SerialPort) (result : FileResult) (op : Op)
    : (∀ b ∈ (p.perform result op).2, b ∈ p.buffer)
      ∧ ∀ bytes, (p.perform result op).1 = .bytes bytes → ∀ b ∈ bytes, b ∈ p.buffer := by
  cases op with
  | write data =>
    refine ⟨fun _ => id, ?_⟩
    intro bytes hreply
    simp only [perform] at hreply
    revert hreply
    fun_cases workerWrite data result
    all_goals rintro ⟨⟩
  | read len =>
    rw [perform]
    fun_cases workerRead p len result
    case case1 => exact ⟨fun _ => id, by simp⟩
    case case2 => exact ⟨fun _ => id, by simp⟩
    case case3 b rest htake =>
      refine ⟨fun _ => List.mem_of_mem_drop, ?_⟩
      rintro _ ⟨⟩ b' hmem
      rw [← htake] at hmem
      exact List.mem_of_mem_take hmem

theorem Clean.start {m : Nat} {p : SerialPort} (op : Op) (h : m ≤ p.arrivals)
    (hbuffer : ∀ b ∈ p.buffer, m ≤ b.arrival)
    : Clean m (p.start op) := by
  unfold SerialPort.start
  split
  . exact ⟨h, hbuffer, by simp⟩
  . exact ⟨h, hbuffer, by simp⟩

theorem future_of_poll {p q : SerialPort} {reply : Reply}
    (taken : p.poll = some (reply, q))
    : p.future = some (.ready reply) ∧ q = { p with future := none } := by
  revert taken
  fun_cases SerialPort.poll p
  case case1 hfuture =>
    rintro ⟨⟩
    exact ⟨hfuture, rfl⟩
  case case2 => rintro ⟨⟩

theorem Clean.poll {m : Nat} {p q : SerialPort} {reply : Reply} (h : Clean m p)
    (taken : p.poll = some (reply, q))
    : Clean m q := by
  rcases future_of_poll taken with ⟨_, rfl⟩
  exact ⟨h.1, h.2.1, by simp⟩

theorem Clean.bytes {m : Nat} {p q : SerialPort} {bytes : List Received}
    (h : Clean m p) (taken : p.poll = some (.bytes bytes, q))
    : ∀ b ∈ bytes, m ≤ b.arrival := by
  exact h.2.2 bytes (future_of_poll taken).1

theorem Clean.workerLoop {m : Nat} {p q : SerialPort} {result : FileResult} (h : Clean m p)
    (taken : p.workerLoop result = some q)
    : Clean m q := by
  rcases h with ⟨harrivals, hbuffer, hready⟩
  revert taken
  fun_cases SerialPort.workerLoop p result
  all_goals rintro ⟨⟩
  case case1 op abandoned _ =>
    have hperform := p.mem_perform result op
    exact ⟨harrivals, fun b hmem => hbuffer b (hperform.1 b hmem), hready⟩
  case case2 _ op _ =>
    have hperform := p.mem_perform result op
    refine ⟨harrivals, fun b hmem => hbuffer b (hperform.1 b hmem), ?_⟩
    intro bytes hbytes b hmem
    exact hbuffer b (hperform.2 bytes (by simpa using hbytes) b hmem)

theorem Clean.background {m : Nat} {p q : SerialPort} {b : Background} (h : Clean m p)
    (taken : p.background b = some q)
    : Clean m q := by
  revert taken
  fun_cases SerialPort.background p b
  case case2 => exact h.workerLoop
  all_goals rintro ⟨⟩
  all_goals rcases h with ⟨harrivals, hbuffer, hready⟩
  case case1 values =>
    refine ⟨by dsimp only; omega, ?_, hready⟩
    intro b hmem
    rcases List.mem_append.mp hmem with hmem | hmem
    . exact hbuffer b hmem
    . have hlate := le_of_mem_stamp hmem
      omega
  case case3 => exact ⟨harrivals, hbuffer, by simp⟩
  case case4 => exact ⟨harrivals, hbuffer, hready⟩
  case case5 => exact ⟨harrivals, hbuffer, hready⟩

/-- More than `n` of the bytes `old` are at the front of the buffer. -/
def Ahead (old : List Received) (n : Nat) (buffer : List Received) : Prop :=
  ∃ front back, buffer = front ++ back ∧ n < front.length ∧ ∀ b ∈ front, b ∈ old

theorem Ahead.append {old buffer : List Received} {n : Nat} (h : Ahead old n buffer)
    (new : List Received)
    : Ahead old n (buffer ++ new) := by
  rcases h with ⟨front, back, rfl, hlen, hold⟩
  exact ⟨front, back ++ new, List.append_assoc _ _ _, hlen, hold⟩

theorem Ahead.mono {old buffer : List Received} {n m : Nat} (h : Ahead old n buffer) (hle : m ≤ n)
    : Ahead old m buffer := by
  rcases h with ⟨front, back, hbuffer, hlen, hold⟩
  exact ⟨front, back, hbuffer, by omega, hold⟩

theorem Ahead.drop {old buffer : List Received} {n len : Nat} (h : Ahead old (len + n) buffer)
    : Ahead old n (buffer.drop len) := by
  rcases h with ⟨front, back, rfl, hlen, hold⟩
  refine ⟨front.drop len, back, ?_, ?_, fun b hmem => hold b (List.mem_of_mem_drop hmem)⟩
  . apply List.drop_append_of_le_length
    omega
  . rw [List.length_drop]
    omega

theorem Ahead.head {old buffer rest : List Received} {n : Nat} {b : Received}
    (h : Ahead old n buffer) {len : Nat} (htake : buffer.take len = b :: rest)
    : b ∈ old := by
  rcases h with ⟨front, back, rfl, hlen, hold⟩
  cases front with
  | nil => cases hlen
  | cons b' front =>
    cases len with
    | zero => cases htake
    | succ len =>
      cases htake
      exact hold b List.mem_cons_self

def Stale (old : List Received) (p : SerialPort) : Prop :=
  match p.future with
  | some (.ready (.bytes bytes)) => ∃ b rest, bytes = b :: rest ∧ b ∈ old
  | _ => Ahead old (p.abandoned.map wanted).sum p.buffer

theorem Ahead.perform {old : List Received} {p : SerialPort} {op : Op} {n : Nat}
    (h : Ahead old (wanted op + n) p.buffer) (result : FileResult)
    : Ahead old n (p.perform result op).2 := by
  have hsame : Ahead old n p.buffer := h.mono (Nat.le_add_left _ _)
  cases op with
  | write data => exact hsame
  | read len =>
    rw [SerialPort.perform]
    fun_cases workerRead p len result
    case case1 => exact hsame
    case case2 => exact hsame
    case case3 => exact h.drop

theorem stale_ready {old bytes : List Received} {p : SerialPort}
    (h : p.future = some (.ready (.bytes bytes)))
    : Stale old p ↔ ∃ b rest, bytes = b :: rest ∧ b ∈ old := by
  rw [Stale, h]

theorem stale_ahead {old : List Received} {p : SerialPort}
    (h : ∀ bytes, p.future ≠ some (.ready (.bytes bytes)))
    : Stale old p ↔ Ahead old (p.abandoned.map wanted).sum p.buffer := by
  unfold Stale
  split
  next bytes hfuture => cases h bytes hfuture
  next => rfl

theorem Stale.of_future {old : List Received} {p q : SerialPort} (h : Stale old p)
    (hfuture : q.future = p.future)
    (hahead : Ahead old (p.abandoned.map wanted).sum p.buffer →
      Ahead old (q.abandoned.map wanted).sum q.buffer)
    : Stale old q := by
  revert h
  unfold Stale
  rw [hfuture]
  split
  . exact id
  . exact hahead

/-- What the worker answers to a read is taken from the front, and it takes nothing else. -/
theorem perform_eq (p : SerialPort) (result : FileResult) (op : Op)
    : (∃ len b rest, p.buffer.take len = b :: rest
        ∧ (p.perform result op).1 = .bytes (b :: rest))
      ∨ (∀ bytes, (p.perform result op).1 ≠ .bytes bytes)
        ∧ (p.perform result op).2 = p.buffer := by
  cases op with
  | write data =>
    right
    refine ⟨?_, rfl⟩
    intro bytes
    rw [perform]
    fun_cases workerWrite data result
    all_goals simp
  | read len =>
    rw [perform]
    fun_cases workerRead p len result
    case case1 => exact Or.inr ⟨by simp, rfl⟩
    case case2 => exact Or.inr ⟨by simp, rfl⟩
    case case3 b rest htake => exact Or.inl ⟨len, b, rest, htake, rfl⟩

theorem Stale.workerLoop {old : List Received} {p q : SerialPort} {result : FileResult}
    (h : Stale old p) (taken : p.workerLoop result = some q)
    : Stale old q := by
  revert taken
  fun_cases SerialPort.workerLoop p result
  all_goals rintro ⟨⟩
  case case1 op abandoned habandoned =>
    apply h.of_future
    . rfl
    . intro hahead
      rw [habandoned, List.map_cons, List.sum_cons] at hahead
      exact hahead.perform result
  case case2 habandoned op hfuture =>
    rw [stale_ahead (by simp [hfuture])] at h
    rcases p.perform_eq result op with ⟨len, b, rest, htake, hreply⟩ | ⟨hreply, hbuffer⟩
    . rw [hreply, stale_ready rfl]
      exact ⟨b, rest, rfl, h.head htake⟩
    . rw [stale_ahead (by simpa using hreply), hbuffer]
      exact h

theorem Stale.background {old : List Received} {p q : SerialPort} {b : Background}
    (h : Stale old p) (taken : p.background b = some q)
    : Stale old q := by
  revert taken
  fun_cases SerialPort.background p b
  case case2 => exact h.workerLoop
  all_goals rintro ⟨⟩
  case case1 => exact h.of_future rfl fun hahead => hahead.append _
  case case3 hfuture =>
    rw [stale_ahead (by simp [hfuture])] at h
    rw [stale_ahead (by simp)]
    exact h.mono (Nat.zero_le _)
  case case4 => exact h.of_future rfl fun hahead => hahead.mono (Nat.zero_le _)
  case case5 => exact h.of_future rfl id

theorem Ahead.start {old : List Received} {p : SerialPort} (op : Op)
    (h : Ahead old (p.abandoned.map wanted).sum p.buffer)
    : Stale old (p.start op) := by
  unfold SerialPort.start
  split
  . exact (stale_ahead (by simp)).mpr h
  . exact (stale_ahead (by simp)).mpr h

theorem accounts : transport.Accounts Clean Stale where
  clean_of_empty {p} op hempty := by
    apply Clean.start op (Nat.le_refl _)
    intro b hmem
    have hunread : b ∈ transport.unread p := hmem
    rw [hempty] at hunread
    cases hunread
  clean_start op h := Clean.start op h.1 h.2.1
  clean_poll := Clean.poll
  clean_background := Clean.background
  clean_bytes := Clean.bytes
  stale_of_owed {p} op howed := by
    apply Ahead.start op
    exact ⟨p.buffer, [], (List.append_nil _).symm, howed, fun _ => id⟩
  stale_written op h taken := by
    rcases future_of_poll taken with ⟨hfuture, rfl⟩
    rw [stale_ahead (by simp [hfuture])] at h
    exact Ahead.start op h
  stale_background := Stale.background
  stale_bytes h taken := by
    rw [stale_ready (future_of_poll taken).1] at h
    exact h

end SerialPort

inductive PortKind where
  | rfc2217
  | windows

namespace PortKind

def State : PortKind → Type
  | .rfc2217 => Rfc2217Port
  | .windows => SerialPort

def Background : PortKind → Type
  | .rfc2217 => Rfc2217Port.Background
  | .windows => SerialPort.Background

def port : (k : PortKind) → Port k.State k.Background
  | .rfc2217 => Rfc2217Port.transport
  | .windows => SerialPort.transport

end PortKind

theorem response_fresh_when_empty (k : PortKind) {frameComplete : List UInt8 → Bool}
    {p before : k.State} {log newer older : Log k.State} {s : SerialCatSession k.State}
    {disposition : ResponseDisposition} {given : List UInt8} {response : List Received}
    (h : (SerialCatSession.machine k.port.toTransport frameComplete).Runs anything { port := p }
      log s)
    (hlog : log = newer ++ .returned before disposition given response :: older)
    : (k.port.unread before = [] → ∀ b ∈ response, k.port.arrivals before ≤ b.arrival)
      ∧ (k.port.owed before < (k.port.unread before).length →
        ∃ b ∈ response, b ∈ k.port.unread before) := by
  have hjudged : Each (Event.Judged k.port) log := by
    cases k with
    | rfc2217 => exact runs_judged Rfc2217Port.accounts h
    | windows => exact runs_judged SerialPort.accounts h
  rw [hlog] at hjudged
  have hlast := hjudged.of_append
  exact ⟨hlast.fresh, hlast.stale⟩

-- `FA;`, `IF;` and `MD9;`, and the answer `?;` to a command that the radio refuses.
def readFrequency : List UInt8 := [0x46, 0x41, 0x3B]

def readStatus : List UInt8 := [0x49, 0x46, 0x3B]

def setMode : List UInt8 := [0x4D, 0x44, 0x39, 0x3B]

def refusal : List UInt8 := [0x3F, 0x3B]

/-- The late answer to a call that was dropped is thrown away before the next call. -/
def flushedScript : List (Action Rfc2217Port.Background) :=
  [.execute readFrequency [], .poll false, .drop, .port (.data readFrequency), .flushRx,
    .execute readStatus [], .poll false, .port (.data readStatus), .poll false, .poll false,
    .poll false]

theorem response_fresh_after_flush
    : ∃ older s, (SerialCatSession.machine (PortKind.port .rfc2217).toTransport
        asciiFrameComplete).Runs anything { port := ({} : Rfc2217Port) }
        (.returned ({ arrivals := 3 } : Rfc2217Port) .responseWritten [] (stamp 3 readStatus)
          :: older) s
      ∧ ∀ b ∈ stamp 3 readStatus, 3 ≤ b.arrival := by
  have hplay : ((SerialCatSession.machine Rfc2217Port.transport.toTransport
      asciiFrameComplete).play anything { port := {} } flushedScript).map (fun r => r.1.head?)
      = some (some (.returned { arrivals := 3 } .responseWritten [] (stamp 3 readStatus))) := by
    decide +kernel
  rcases Machine.exists_runs_head _ hplay with ⟨older, s, hruns⟩
  have hfresh := response_fresh_when_empty .rfc2217 hruns (List.nil_append _).symm
  exact ⟨older, s, hruns, hfresh.1 rfl⟩

/-- The refusal of a command comes when nobody waits for it, and answers the next question. -/
def refusedScript : (k : PortKind) → List (Action k.Background)
  | .rfc2217 =>
    [.send setMode, .poll false, .port (.data refusal), .execute readStatus [], .poll false,
      .poll false, .poll false]
  | .windows =>
    [.send setMode, .port (.worker (.completed 4)), .poll false, .port (.data refusal),
      .execute readStatus [], .port (.worker (.completed 3)), .poll false,
      .port (.worker (.completed 0)), .poll false, .port (.worker (.completed 0)), .poll false]

theorem stale_refusal_returned
    : (∃ log s before, (SerialCatSession.machine (PortKind.port .rfc2217).toTransport
          asciiFrameComplete).Runs anything { port := ({} : Rfc2217Port) } log s
        ∧ .returned before .responseWritten [] (stamp 0 refusal) ∈ log
        ∧ (PortKind.port .rfc2217).unread before = stamp 0 refusal)
      ∧ ∃ log s before, (SerialCatSession.machine (PortKind.port .windows).toTransport
          asciiFrameComplete).Runs anything { port := ({} : SerialPort) } log s
        ∧ .returned before .responseWritten [] (stamp 0 refusal) ∈ log
        ∧ (PortKind.port .windows).unread before = stamp 0 refusal := by
  constructor
  . have hplay : ((SerialCatSession.machine Rfc2217Port.transport.toTransport
        asciiFrameComplete).play anything { port := {} } (refusedScript .rfc2217)).map
        (fun r => r.1.head?)
        = some (some (.returned { inbox := stamp 0 refusal, arrivals := 2 } .responseWritten []
          (stamp 0 refusal))) := by
      decide +kernel
    rcases Machine.exists_runs_head _ hplay with ⟨older, s, hruns⟩
    exact ⟨_, s, _, hruns, List.mem_cons_self, rfl⟩
  . have hplay : ((SerialCatSession.machine SerialPort.transport.toTransport
        asciiFrameComplete).play anything { port := {} } (refusedScript .windows)).map
        (fun r => r.1.head?)
        = some (some (.returned { buffer := stamp 0 refusal, arrivals := 2 } .responseWritten []
          (stamp 0 refusal))) := by
      decide +kernel
    rcases Machine.exists_runs_head _ hplay with ⟨older, s, hruns⟩
    exact ⟨_, s, _, hruns, List.mem_cons_self, rfl⟩

end Serial
