import RadioCat.Framework.Formats
import RadioCat.Transport.Serial

/-!
This module contains the serial session on a CI-V bus, where a request comes back to the controller
that sent it and other stations talk as well: which of the frames on the bus a call returns.
-/

namespace Serial

open Trace Server Framework

/-- What the reads of a port run into when the bus has delivered its bytes. -/
inductive Ending where
  | eof
  | silent
  | failed (e : TransportError)
  deriving DecidableEq, Repr

structure Bus where
  stream : List UInt8
  ending : Ending
  arrivals : Nat := 0
  deriving DecidableEq, Repr

namespace Bus

def next (bus : Bus) (rest : List UInt8) : Bus :=
  { bus with stream := rest, arrivals := bus.arrivals + 1 }

def poll (bus : Bus) : Op → Option (Reply × Bus)
  | .write data => some (.written data.length, bus)
  | .read _ =>
    match bus.stream, bus.ending with
    | b :: rest, _ => some (.bytes [{ value := b, arrival := bus.arrivals }], bus.next rest)
    | [], .eof => some (.bytes [], bus)
    | [], .failed e => some (.failed e, bus)
    | [], .silent => none

def transport : Transport Bus Empty where
  start bus _ := bus
  poll := Bus.poll
  cancel := id
  flush _ := none
  flushRx bus := { bus with stream := [] }
  background _ b := nomatch b

def machine : Machine (SerialCatSession Bus) (Action Empty) (Event Bus) :=
  SerialCatSession.machine transport CivFormat.frameComplete

-- Calls with an empty buffer, each of which has the same bytes of the bus before it.
def offered (bus : Bus) : Discipline (SerialCatSession Bus) (Action Empty)
  | s, .execute _ given => given = [] ∧ s.port = bus
  | _, .poll _ | _, .drop => True
  | _, _ => False

/-- A call returns frames from the radio to the controller only. -/
def AnswersOnly (format : CivFormat) (bus : Bus) : Prop :=
  ∀ log t, Machine.Runs machine (offered bus) { port := bus } log t →
    ∀ before given response, .returned before .responseWritten given response ∈ log →
      format.isForUs (response.map Received.value) = true ∧
      format.isEcho (response.map Received.value) = false

-- The first frame on the bus is one of the radio to the controller.
def AnswerFirst (format : CivFormat) (bus : Bus) : Prop :=
  ∃ payload rest, payload ≠ [] ∧
    CivFormat.endOfMessage ∉ format.controller :: format.radio :: payload ∧
    bus.stream = CivFormat.preamble :: CivFormat.preamble :: format.controller :: format.radio
      :: (payload ++ CivFormat.endOfMessage :: rest)

-- The call fails, or finds no byte at all.
def NoFrame (bus : Bus) : Prop :=
  CivFormat.endOfMessage ∉ bus.stream.take maxFrameLen ∧
    (bus.stream = [] ∨ maxFrameLen ≤ bus.stream.length ∨ bus.ending ≠ .eof)

instance (bus : Bus) (s : SerialCatSession Bus) : ∀ a, Decidable (offered bus s a)
  | .execute _ given => inferInstanceAs (Decidable (given = [] ∧ s.port = bus))
  | .poll _ | .drop => isTrue trivial
  | .send _ | .flushRx | .port _ => isFalse id

def grown (x : Exchange Bus) (b : Received) : Exchange Bus :=
  { x with response := x.response ++ [b] }

inductive Polled (x : Exchange Bus) (bus : Bus) : Log Bus × SerialCatSession Bus → Prop where
  | failed (e : TransportError) (port : Bus) : Polled x bus (SerialCatSession.fail port e)
  | begun : Polled x bus ([], { port := bus, exchange := some { x with stage := .reading } })
  | read (b : Received) (rest : List UInt8) (hstream : bus.stream = b.value :: rest)
      (hpart : CivFormat.frameComplete (grown x b).text = false)
      (hshort : (grown x b).text.length < maxFrameLen)
    : Polled x bus
        ([], { port := bus.next rest, exchange := some { grown x b with stage := .reading } })
  | complete (b : Received) (rest : List UInt8) (hstream : bus.stream = b.value :: rest)
      (hwhole : CivFormat.frameComplete (grown x b).text = true)
    : Polled x bus (SerialCatSession.finish (grown x b) (bus.next rest))
  | ended (hstream : bus.stream = []) (hending : bus.ending = .eof)
    : Polled x bus (SerialCatSession.finish x bus)

theorem polled_push {x : Exchange Bus} {bus : Bus} {expired : Bool} (b : Received)
    {rest : List UInt8} (hstream : bus.stream = b.value :: rest)
    : Polled x bus (SerialCatSession.push transport CivFormat.frameComplete expired (grown x b)
      (bus.next rest)) := by
  unfold SerialCatSession.push
  split
  next hwhole => exact .complete b rest hstream hwhole
  next hpart =>
    split
    next => apply Polled.failed
    next hshort =>
      unfold SerialCatSession.again
      split
      next => apply Polled.failed
      next =>
        apply Polled.read b rest hstream
        . simpa using hpart
        . omega

theorem poll_bytes {bus port : Bus} {n : Nat} {bytes : List Received}
    (h : transport.poll bus (.read n) = some (.bytes bytes, port))
    : (∃ b rest, bytes = [b] ∧ bus.stream = b.value :: rest ∧ port = bus.next rest) ∨
      bytes = [] ∧ bus.stream = [] ∧ bus.ending = .eof ∧ port = bus := by
  simp only [transport, poll] at h
  split at h
  next b rest hstream =>
    cases h
    exact .inl ⟨_, rest, rfl, hstream, rfl⟩
  next hstream hending =>
    cases h
    exact .inr ⟨rfl, hstream, hending, rfl⟩
  all_goals cases h

theorem polled {x : Exchange Bus} {bus : Bus} {expired : Bool} (hkind : x.kind = .execute)
    {result : Log Bus × SerialCatSession Bus}
    (taken : SerialCatSession.poll transport CivFormat.frameComplete expired x bus = some result)
    : Polled x bus result := by
  revert taken
  fun_cases SerialCatSession.poll transport CivFormat.frameComplete expired x bus
  case case1 n port hpoll =>
    cases hpoll
    rintro ⟨⟩
    simp only [SerialCatSession.flushed, transport, hkind]
    unfold SerialCatSession.again
    split
    . apply Polled.failed
    . apply Polled.begun
  case case2 =>
    rintro ⟨⟩
    apply Polled.failed
  case case4 hstage port hpoll =>
    rintro ⟨⟩
    rcases poll_bytes hpoll with ⟨b, rest, hbytes, _⟩ | ⟨_, hstream, hending, rfl⟩
    . cases hbytes
    . exact .ended hstream hending
  case case5 hstage b rest port hpoll =>
    rintro ⟨⟩
    rcases poll_bytes hpoll with ⟨b, rest, hbytes, hstream, rfl⟩ | ⟨hbytes, _⟩
    . cases hbytes
      exact polled_push b hstream
    . cases hbytes
  case case6 =>
    rintro ⟨⟩
    apply Polled.failed
  all_goals rintro ⟨⟩

/-- The response so far is what the bus has delivered so far. -/
structure Reading (bus : Bus) (x : Exchange Bus) (port : Bus) : Prop where
  kind : x.kind = .execute
  given : x.given = []
  stream : x.response.map Received.value ++ port.stream = bus.stream
  ending : port.ending = bus.ending
  part : CivFormat.endOfMessage ∉ x.response.map Received.value

/-- What a call makes of the bytes on the bus: all up to the first end of a message, or up to the
end of the stream. -/
inductive Cut (bus : Bus) : List UInt8 → Prop where
  | frame (body rest : List UInt8) (hbody : CivFormat.endOfMessage ∉ body)
      (hstream : bus.stream = body ++ CivFormat.endOfMessage :: rest)
      (hshort : body.length < maxFrameLen)
    : Cut bus (body ++ [CivFormat.endOfMessage])
  | ended (hending : bus.ending = .eof) (hstream : CivFormat.endOfMessage ∉ bus.stream)
      (hsome : bus.stream ≠ []) (hshort : bus.stream.length < maxFrameLen)
    : Cut bus bus.stream

structure Followed (bus : Bus) (log : Log Bus) (s : SerialCatSession Bus) : Prop where
  reading : ∀ x, s.exchange = some x → Reading bus x s.port ∧ x.response.length < maxFrameLen
  cut : ∀ before given response, .returned before .responseWritten given response ∈ log →
    Cut bus (response.map Received.value)

theorem frameComplete_append (body : List UInt8) (b : UInt8)
    : CivFormat.frameComplete (body ++ [b]) = (b == CivFormat.endOfMessage) := by
  simp [CivFormat.frameComplete]

section

variable {bus port : Bus} {x : Exchange Bus} {log : Log Bus} {s : SerialCatSession Bus}

theorem Reading.text (h : Reading bus x port) (b : Received)
    : (grown x b).text = x.response.map Received.value ++ [b.value] := by
  simp [Exchange.text, grown, h.given]

theorem Reading.grown (h : Reading bus x port) {b : Received} {rest : List UInt8}
    (hstream : port.stream = b.value :: rest)
    (hpart : CivFormat.frameComplete (grown x b).text = false) (stage : Stage)
    : Reading bus { grown x b with stage } (port.next rest) := by
  rw [h.text, frameComplete_append, beq_eq_false_iff_ne] at hpart
  refine { kind := h.kind, given := h.given, stream := ?_, ending := h.ending, part := ?_ }
  . simpa [Bus.grown, next, hstream] using h.stream
  . simpa [Bus.grown, hpart.symm] using h.part

theorem Reading.cut_frame (h : Reading bus x port) (hshort : x.response.length < maxFrameLen)
    {b : Received} {rest : List UInt8} (hstream : port.stream = b.value :: rest)
    (hwhole : CivFormat.frameComplete (Bus.grown x b).text = true)
    : Cut bus ((Bus.grown x b).response.map Received.value) := by
  rw [h.text, frameComplete_append, beq_iff_eq] at hwhole
  have hcut : Cut bus (x.response.map Received.value ++ [CivFormat.endOfMessage]) := by
    apply Cut.frame _ rest h.part
    . rw [← h.stream, hstream, hwhole]
    . rw [List.length_map]
      exact hshort
  simpa [Bus.grown, hwhole] using hcut

theorem Reading.cut_ended (h : Reading bus x port) (hshort : x.response.length < maxFrameLen)
    (hstream : port.stream = []) (hending : port.ending = .eof) (hsome : x.text.isEmpty = false)
    : Cut bus (x.response.map Received.value) := by
  have hall : bus.stream = x.response.map Received.value := by
    rw [← h.stream, hstream, List.append_nil]
  have htext : x.text = bus.stream := by
    rw [Exchange.text, h.given, hall, List.nil_append]
  rw [← hall]
  apply Cut.ended
  . rw [← h.ending, hending]
  . rw [hall]
    exact h.part
  . rw [← htext]
    simpa using hsome
  . rw [hall, List.length_map]
    exact hshort

theorem Followed.finish (h : Followed bus log s)
    (hcut : x.text.isEmpty = false → Cut bus (x.response.map Received.value)) (port : Bus)
    : Followed bus ((SerialCatSession.finish x port).1.reverse ++ log)
      (SerialCatSession.finish x port).2 := by
  constructor
  . intro x hx
    cases hx
  . intro before given response hmem
    rcases List.mem_cons.mp hmem with heq | hmem
    . injection heq with _ hdisposition _ hresponse
      rw [hresponse]
      apply hcut
      simpa using hdisposition
    . exact h.cut before given response hmem

theorem Followed.polled (h : Followed bus log s) (hx : s.exchange = some x)
    {result : Log Bus × SerialCatSession Bus} (hpolled : Polled x s.port result)
    : Followed bus (result.1.reverse ++ log) result.2 := by
  rcases h.reading x hx with ⟨hreading, hshort⟩
  cases hpolled with
  | failed e port =>
    constructor
    . intro x hx
      cases hx
    . intro before given response hmem
      rcases List.mem_cons.mp hmem with heq | hmem
      . cases heq
      . exact h.cut before given response hmem
  | begun =>
    refine ⟨?_, h.cut⟩
    rintro _ ⟨⟩
    exact ⟨⟨hreading.kind, hreading.given, hreading.stream, hreading.ending, hreading.part⟩, hshort⟩
  | read b rest hstream hpart hlength =>
    refine ⟨?_, h.cut⟩
    rintro _ ⟨⟩
    refine ⟨hreading.grown hstream hpart .reading, ?_⟩
    rw [hreading.text] at hlength
    simpa [Bus.grown] using hlength
  | complete b rest hstream hwhole =>
    apply h.finish
    intro _
    exact hreading.cut_frame hshort hstream hwhole
  | ended hstream hending =>
    apply h.finish
    exact hreading.cut_ended hshort hstream hending

theorem Followed.step (h : Followed bus log s) {a : Action Empty} {evs : Log Bus}
    {t : SerialCatSession Bus} (hok : offered bus s a) (taken : machine s a = some (evs, t))
    : Followed bus (evs.reverse ++ log) t := by
  unfold machine at taken
  revert taken
  fun_cases SerialCatSession.machine transport CivFormat.frameComplete s a
  case case1 request given _ =>
    rcases hok with ⟨rfl, rfl⟩
    rintro ⟨⟩
    refine ⟨?_, h.cut⟩
    rintro _ ⟨⟩
    exact ⟨⟨rfl, rfl, rfl, rfl, List.not_mem_nil⟩, Nat.zero_lt_succ 63⟩
  case case6 expired x hx =>
    intro taken
    exact h.polled hx (Bus.polled (h.reading x hx).1.kind taken)
  case case7 =>
    rintro ⟨⟩
    refine ⟨?_, h.cut⟩
    rintro _ ⟨⟩
  all_goals
    rintro ⟨⟩ <;> cases hok

theorem runs_cut {t : SerialCatSession Bus}
    (h : Machine.Runs machine (offered bus) { port := bus } log t) {before : Bus}
    {given : List UInt8} {response : List Received}
    (hreturned : .returned before .responseWritten given response ∈ log)
    : Cut bus (response.map Received.value) := by
  have hfollowed : Followed bus log t := by
    apply Machine.Runs.invariant (Followed bus) _ _ h
    . constructor
      . rintro _ ⟨⟩
      . rintro _ _ _ ⟨⟩
    . intro _ _ _ _ _ hI hok taken
      exact hI.step hok taken
  exact hfollowed.cut before given response hreturned

theorem runs_begun (bus : Bus) (request : List UInt8)
    : ∃ x, Machine.Runs machine (offered bus) { port := bus } []
        { port := bus, exchange := some x } ∧
      Reading bus x bus ∧ x.response = [] ∧ x.stage = .reading := by
  have hexecute : Machine.Step machine (offered bus) { port := bus } []
      { port := bus, exchange := some { before := bus, kind := .execute, request, given := [] } } :=
    .act (.execute request []) ⟨rfl, rfl⟩ rfl
  have hwrite : Machine.Step machine (offered bus)
      { port := bus, exchange := some { before := bus, kind := .execute, request, given := [] } } []
      { port := bus
        exchange := some
          { before := bus, kind := .execute, request, given := [], stage := .reading } } :=
    .act (.poll false) trivial rfl
  refine ⟨_, (Exec.single hexecute).trans (Exec.single hwrite), ?_, rfl, rfl⟩
  exact ⟨rfl, rfl, rfl, rfl, List.not_mem_nil⟩

theorem machine_poll (hstage : x.stage = .reading) {b : UInt8} {rest : List UInt8}
    (hstream : port.stream = b :: rest)
    : machine { port, exchange := some x } (.poll false)
      = some (SerialCatSession.push transport CivFormat.frameComplete false
        (grown x { value := b, arrival := port.arrivals }) (port.next rest)) := by
  simp [machine, SerialCatSession.machine, SerialCatSession.poll, hstage, transport, poll, hstream,
    grown]

theorem runs_part (h : Reading bus x port) (hstage : x.stage = .reading) {body rest : List UInt8}
    (hstream : port.stream = body ++ rest) (hbody : CivFormat.endOfMessage ∉ body)
    (hshort : x.response.length + body.length < maxFrameLen)
    : ∃ x' port', Machine.Runs machine (offered bus) { port, exchange := some x } []
        { port := port', exchange := some x' } ∧ Reading bus x' port' ∧ x'.stage = .reading ∧
      port'.stream = rest ∧ x'.response.length < maxFrameLen := by
  induction body generalizing x port with
  | nil => exact ⟨x, port, Exec.refl _, h, hstage, hstream, hshort⟩
  | cons b body ih =>
    rw [List.mem_cons, not_or] at hbody
    rw [List.length_cons] at hshort
    have hpart : CivFormat.frameComplete
        (grown x { value := b, arrival := port.arrivals }).text = false := by
      rw [h.text, frameComplete_append, beq_eq_false_iff_ne]
      exact Ne.symm hbody.1
    have hlength : (grown x { value := b, arrival := port.arrivals }).text.length
        = x.response.length + 1 := by
      rw [h.text, List.length_append, List.length_map, List.length_singleton]
    have hstep : Machine.Step machine (offered bus) { port, exchange := some x } []
        { port := port.next (body ++ rest),
          exchange := some { grown x { value := b, arrival := port.arrivals } with
            stage := .reading } } := by
      apply Machine.Step.act (.poll false) trivial
      rw [machine_poll hstage hstream, SerialCatSession.push, if_neg (by simp [hpart]),
        if_neg (by omega)]
      rfl
    have hgrown := h.grown (b := { value := b, arrival := port.arrivals }) hstream hpart .reading
    rcases ih hgrown rfl rfl hbody.2 (by simp [grown]; omega) with
      ⟨x', port', hruns, hreading, hstage', hrest, hshort'⟩
    exact ⟨x', port', (Exec.single hstep).trans hruns, hreading, hstage', hrest, hshort'⟩

theorem finish_written (hgiven : x.given = []) (hsome : x.response ≠ []) (port : Bus)
    : SerialCatSession.finish x port
      = ([.returned x.before .responseWritten [] x.response], { port }) := by
  simp [SerialCatSession.finish, Exchange.text, hgiven, hsome]

/-- Whatever a call can make of the bytes on the bus, some call returns. -/
theorem exists_runs_cut {frame : List UInt8} (h : Cut bus frame) (request : List UInt8)
    : ∃ before response log t, Machine.Runs machine (offered bus) { port := bus } log t ∧
      .returned before .responseWritten [] response ∈ log ∧
      response.map Received.value = frame := by
  rcases runs_begun bus request with ⟨x, hbegun, hreading, hempty, hstage⟩
  cases h with
  | frame body rest hbody hstream hshort =>
    rcases runs_part hreading hstage hstream hbody (by rw [hempty, List.length_nil]; omega) with
      ⟨x', port, hruns, hreading', hstage', hrest, _⟩
    have hbody' : x'.response.map Received.value = body := by
      have hsplit := hreading'.stream
      rw [hrest, hstream] at hsplit
      exact List.append_cancel_right hsplit
    have hlast : Machine.Step machine (offered bus) { port, exchange := some x' }
        [.returned x'.before .responseWritten []
          (x'.response ++ [{ value := CivFormat.endOfMessage, arrival := port.arrivals }])]
        { port := port.next rest } := by
      apply Machine.Step.act (.poll false) trivial
      rw [machine_poll hstage' hrest, SerialCatSession.push, if_pos]
      . rw [finish_written (x := grown x' _) hreading'.given (List.concat_ne_nil _ _)]
        rfl
      . rw [hreading'.text, frameComplete_append, beq_self_eq_true]
    refine ⟨_, _, _, _, (hbegun.trans hruns).trans (Exec.single hlast), .head _, ?_⟩
    rw [List.map_append, hbody']
    rfl
  | ended hending hstream hsome hshort =>
    rcases runs_part hreading hstage (List.append_nil bus.stream).symm hstream
        (by rw [hempty, List.length_nil]; omega) with
      ⟨x', port, hruns, hreading', hstage', hrest, _⟩
    have hall : x'.response.map Received.value = bus.stream := by
      have hsplit := hreading'.stream
      rw [hrest, List.append_nil] at hsplit
      exact hsplit
    have hlast : Machine.Step machine (offered bus) { port, exchange := some x' }
        [.returned x'.before .responseWritten [] x'.response] { port } := by
      apply Machine.Step.act (.poll false) trivial
      rw [← finish_written hreading'.given]
      . simp [machine, SerialCatSession.machine, SerialCatSession.poll, hstage', transport, poll,
          hrest, hreading'.ending, hending]
      . rintro hnil
        rw [hnil] at hall
        exact hsome hall.symm
    exact ⟨_, _, _, _, (hbegun.trans hruns).trans (Exec.single hlast), .head _, hall⟩

theorem Cut.answerFirst {format : CivFormat} {frame : List UInt8} (h : Cut bus frame)
    (hframe : format.isForUs frame = true) : AnswerFirst format bus := by
  rcases CivFormat.isForUs_iff.mp hframe with ⟨payload, hpayload, heq⟩
  cases h with
  | frame body rest hbody hstream hshort =>
    have hbody' : body = CivFormat.preamble :: CivFormat.preamble :: format.controller
        :: format.radio :: payload := by
      apply List.append_cancel_right heq
    refine ⟨payload, rest, hpayload, ?_, ?_⟩
    . intro hmem
      apply hbody
      rw [hbody']
      exact .tail _ (.tail _ hmem)
    . rw [hstream, hbody']
      rfl
  | ended hending hstream hsome hshort =>
    exfalso
    apply hstream
    rw [heq]
    simp

theorem Cut.not_noFrame {frame : List UInt8} (h : Cut bus frame) : ¬ NoFrame bus := by
  rintro ⟨hnone, hwhy⟩
  cases h with
  | frame body rest hbody hstream hshort =>
    apply hnone
    rw [hstream, List.take_append, List.take_of_length_le (by omega), List.take_cons (by omega)]
    simp
  | ended hending hstream hsome hshort =>
    rcases hwhy with hempty | hlong | hopen
    . exact hsome hempty
    . omega
    . exact hopen hending

theorem exists_cut (h : ¬ NoFrame bus) : ∃ frame, Cut bus frame := by
  by_cases hmem : CivFormat.endOfMessage ∈ bus.stream.take maxFrameLen
  . rcases List.eq_append_cons_of_mem hmem with ⟨body, rest, heq, hbody⟩
    have hstream : bus.stream
        = body ++ CivFormat.endOfMessage :: (rest ++ bus.stream.drop maxFrameLen) := by
      rw [← List.cons_append, ← List.append_assoc, ← heq, List.take_append_drop]
    have hlength := congrArg List.length heq
    rw [List.length_take, List.length_append, List.length_cons] at hlength
    exact ⟨_, .frame body _ hbody hstream (by omega)⟩
  . have hwhy : ¬ (bus.stream = [] ∨ maxFrameLen ≤ bus.stream.length ∨ bus.ending ≠ .eof) := by
      intro hwhy
      exact h ⟨hmem, hwhy⟩
    rw [not_or, not_or, not_not] at hwhy
    rcases hwhy with ⟨hsome, hshort, hending⟩
    rw [List.take_of_length_le (by omega)] at hmem
    exact ⟨_, .ended hending hmem hsome (by omega)⟩

theorem not_mem_preamble {body : List UInt8} (h : CivFormat.endOfMessage ∉ body)
    : CivFormat.endOfMessage ∉ CivFormat.preamble :: CivFormat.preamble :: body := by
  simpa [CivFormat.endOfMessage, CivFormat.preamble] using h

theorem takeWhile_body {body : List UInt8} (h : CivFormat.endOfMessage ∉ body) (rest : List UInt8)
    : (body ++ CivFormat.endOfMessage :: rest).takeWhile (· != CivFormat.endOfMessage) = body := by
  rw [List.takeWhile_append_of_pos]
  . simp
  . intro b hb
    rw [bne_iff_ne]
    rintro rfl
    exact h hb

theorem Cut.isForUs {format : CivFormat} {frame : List UInt8} (h : Cut bus frame)
    (hfirst : AnswerFirst format bus) : format.isForUs frame = true := by
  rcases hfirst with ⟨payload, rest', hpayload, hnot, hanswer⟩
  have hbody' := not_mem_preamble hnot
  cases h with
  | frame body rest hbody hstream hshort =>
    have hsame := takeWhile_body hbody rest
    rw [← hstream, hanswer] at hsame
    rw [← hsame, ← List.cons_append, ← List.cons_append, ← List.cons_append, ← List.cons_append,
      takeWhile_body hbody']
    exact CivFormat.isForUs_iff.mpr ⟨payload, hpayload, rfl⟩
  | ended hending hstream hsome hshort =>
    exfalso
    apply hstream
    rw [hanswer]
    simp

theorem exists_runs_echo (format : CivFormat) (code : CivFormat.Code) (params rest : List UInt8)
    (ending : Ending)
    (hclean : CivFormat.endOfMessage ∉
      format.radio :: format.controller :: code.1 :: (code.2.toList ++ params))
    (hshort : params.length + 7 ≤ maxFrameLen)
    : ∃ before response log t,
      Machine.Runs machine (offered { stream := format.encodeRequest code params ++ rest, ending })
        { port := { stream := format.encodeRequest code params ++ rest, ending } } log t ∧
      .returned before .responseWritten [] response ∈ log ∧
      response.map Received.value = format.encodeRequest code params := by
  have hcut : Cut { stream := format.encodeRequest code params ++ rest, ending }
      (format.encodeRequest code params) := by
    apply Cut.frame _ rest
    . exact not_mem_preamble hclean
    . simp [CivFormat.encodeRequest]
    . cases code.2 <;> simp <;> omega
  exact exists_runs_cut hcut (format.encodeRequest code params)

/-- The responses of a session are the radio's answers if and only if an answer is the first thing
on the bus, or nothing on it makes a response. -/
theorem answersOnly_iff {format : CivFormat} (h : format.radio ≠ format.controller) (bus : Bus)
    : AnswersOnly format bus ↔ AnswerFirst format bus ∨ NoFrame bus := by
  constructor
  . intro honly
    by_cases hnone : NoFrame bus
    . exact .inr hnone
    . rcases exists_cut hnone with ⟨frame, hcut⟩
      rcases exists_runs_cut hcut [] with ⟨before, response, log, t, hruns, hreturned, rfl⟩
      exact .inl (hcut.answerFirst (honly log t hruns _ _ _ hreturned).1)
  . intro hcases log t hruns before given response hreturned
    have hcut := runs_cut hruns hreturned
    have hfirst := hcases.resolve_right hcut.not_noFrame
    have hours := hcut.isForUs hfirst
    exact ⟨hours, CivFormat.not_isEcho_of_isForUs h hours⟩

theorem answersOnly_answer
    : (0x88 : UInt8) ≠ 0xE0 ∧
      AnswersOnly { radio := 0x88, controller := 0xE0 }
        { stream := [0xFE, 0xFE, 0xE0, 0x88, 0x03, 0x00, 0x00, 0x07, 0x14, 0x00, 0xFD, 0xFE]
          ending := .silent } := by
  refine ⟨by decide, (answersOnly_iff (by decide) _).mpr (.inl ?_)⟩
  exact ⟨[0x03, 0x00, 0x00, 0x07, 0x14, 0x00], [0xFE], by decide, by decide, rfl⟩

-- The frequency is asked for, and the question is taken for the answer.
theorem echo_returned
    : (0x88 : UInt8) ≠ 0xE0 ∧
      ¬ AnswersOnly { radio := 0x88, controller := 0xE0 }
        { stream := CivFormat.encodeRequest { radio := 0x88, controller := 0xE0 } (0x03, none) []
            ++ CivFormat.encodeResponse { radio := 0x88, controller := 0xE0 } (0x03, none)
              [0x00, 0x00, 0x07, 0x14, 0x00]
          ending := .silent } := by
  refine ⟨by decide, ?_⟩
  intro honly
  rcases exists_runs_echo { radio := 0x88, controller := 0xE0 } (0x03, none) [] _ .silent
      (by decide) (by decide) with
    ⟨before, response, log, t, hruns, hreturned, hecho⟩
  have hours := (honly log t hruns before [] response hreturned).1
  rw [hecho] at hours
  exact absurd hours (by decide)

end

end Bus

end Serial
