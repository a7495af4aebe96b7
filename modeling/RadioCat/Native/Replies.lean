import RadioCat.Native.Link
import RadioCat.Server.Wire

/-!
This module contains what a console makes of the bytes it reads from its server. The main result
says, over every run of the two, which reply the console takes for which of its messages.
-/

namespace Native

open Trace

variable {K : Kinds} {json : Json K} {env : Cw.Env}

def Json.decodeReply (json : Json K) (payload : List UInt8) : Item K :=
  (json.replyFromSlice payload).mapError .decode

/-- What goes into the inbox. -/
def Json.item (json : Json K) : Except FrameError Frame → Option (Item K)
  | .error e => some (.error (.frame e))
  | .ok (.control, payload) => some (json.decodeReply payload)
  | .ok _ => none

theorem filterMap_item (taken : List Frame)
    : (taken.map .ok).filterMap json.item = (controlPayloads taken).map json.decodeReply := by
  induction taken with
  | nil => rfl
  | cons frame taken ih =>
    rw [List.map_cons, controlPayloads_cons, List.map_append, ← ih]
    rcases frame with ⟨_ | _ | _, payload⟩
    all_goals rfl

theorem inbox_taken (c : Console (ServerMessage K) SpectrumFrame AudioFrame)
    (results : List (Except FrameError Frame))
    : (results.foldl (Console.take json.payloads) c).inbox
      = c.inbox ++ results.filterMap json.item := by
  induction results generalizing c with
  | nil => simp
  | cons result results ih =>
    rw [List.foldl_cons, ih]
    rcases result with e | ⟨_ | _ | _, payload⟩
    all_goals simp [Console.take, Json.item, Json.payloads, Json.decodeReply, List.filterMap_cons]

/-- What the calls of `decode_frame` return while the console reads these chunks. -/
def results (chunks : List (List UInt8)) : List (Except FrameError Frame) :=
  (Console.feed.run [] chunks).1

section

variable {σ μ γ ρ τ δ : Type} {P : Protocol σ μ γ ρ τ δ} {moments : Nat → Moment γ τ δ}

theorem serveOne_pass {c t : Connection σ} {chunk : List UInt8} {evs : List (Event ρ)}
    (h : serveOne P c (if chunk = [] then .idle moments else .read chunk moments) = some (evs, t))
    : c.isOpen = true ∧ ∃ passed, evs.filterMap Event.payload = passed.filterMap Event.payload
      ∧ evs.flatMap Event.chunk = chunk ++ passed.flatMap Event.chunk
      ∧ answerAll P moments c.session (frames.drain (c.pending ++ chunk)).1
        = (passed, t.session, t.isOpen) := by
  by_cases hchunk : chunk = []
  . subst hchunk
    simp only [if_true, serveOne, List.append_nil] at h ⊢
    split at h
    next hopen =>
      cases h
      exact ⟨hopen, _, rfl, rfl, rfl⟩
    next => cases h
  . simp only [if_neg hchunk, serveOne] at h
    split at h
    next hread =>
      cases h
      exact ⟨hread.1, (pass P moments { c with pending := c.pending ++ chunk }).1, rfl, rfl, rfl⟩
    next => cases h

theorem answerAll_prefix {session session' : σ} {taken : List Frame} {evs : List (Event ρ)}
    {ok : Bool} (h : answerAll P moments session taken = (evs, session', ok))
    : evs.filterMap Event.payload <+: controlPayloads taken ∧ evs.flatMap Event.chunk = [] := by
  fun_induction answerAll P moments session taken generalizing evs session' ok
  case case2 hrest ih =>
    cases h
    rcases ih hrest with ⟨hpayload, hchunk⟩
    rw [controlPayloads_cons, if_pos rfl]
    exact ⟨List.prefix_cons_inj _ |>.mpr hpayload, hchunk⟩
  case case4 hkind ih =>
    rcases ih h with ⟨hpayload, hchunk⟩
    rw [controlPayloads_cons, if_neg]
    . exact ⟨hpayload, hchunk⟩
    . intro hcontrol
      exact hkind _ (Prod.ext hcontrol rfl)
  all_goals
    cases h
    exact ⟨List.nil_prefix, rfl⟩

end

namespace Link

variable {log evs : Log K} {s t : Link K}

def replies (log : Log K) : List (ServerMessage K) :=
  log.reverse.filterMap Event.reply

theorem controlPayloads_control {α : Type} (toVec : α → List UInt8) (some : List α)
    : controlPayloads (some.map fun a => (.control, toVec a)) = some.map toVec := by
  simp [controlPayloads, List.filter_map, Function.comp_def]

/-- The bytes on both ways, and what became of the frames in them. -/
structure Holds (json : Json K) (log : Log K) (s : Link K) : Prop where
  up : s.up.Intact
  sent : s.up.written = s.sent.map json.messageFrame
  received : received log = s.up.reads.flatten
  collected : Collected log s.server
  answers : answered log <+: controlPayloads (frames.drain (Native.received log)).1
  down : s.down.Intact
  whole : s.server.isOpen = true → s.down.torn = none
  replied : controlPayloads s.down.written = (replies log).map json.replyToVec
  pending : s.console.pending = (Console.feed.run [] s.down.reads).2
  inbox : s.taken ++ s.console.inbox = (results s.down.reads).filterMap json.item

theorem Holds.serve {n : Nat} {moments : Nat → Moment Command RadioState (List K.DeviceList)}
    {torn : Option (Frame × Nat)} {server : Connection (NativeSession K)} (h : Holds json log s)
    (hserve : serveOne (NativeSession.protocol env json.messageFromSlice) s.server
      (if s.up.flight.take n = [] then .idle moments else .read (s.up.flight.take n) moments)
        = some (evs, server))
    (htorn : server.isOpen = true → torn = none)
    : Holds json (evs.reverse ++ log)
        { s with
          up := s.up.read n
          server
          down := s.down.write ((evs.filterMap Event.reply).map json.replyFrame) torn } := by
  rcases serveOne_pass hserve with ⟨hopen, passed, hpayload, hchunk, hpass⟩
  rcases answerAll_prefix hpass with ⟨hfirst, hnone⟩
  rcases h.collected hopen with ⟨hpending, hanswered⟩
  have hreceived : Native.received (evs.reverse ++ log)
      = Native.received log ++ s.up.flight.take n := by
    rw [received_append, hchunk, hnone, List.append_nil]
  constructor
  . exact h.up.read n
  . exact h.sent
  . rw [hreceived, h.received]
    simp [Pipe.read]
  . exact h.collected.step hserve
  . rw [hreceived, answered_append, hanswered, frames.drain_append, ← hpending,
      controlPayloads_append, hpayload]
    exact (List.prefix_append_right_inj _).mpr hfirst
  . exact h.down.write (h.whole hopen) _ _
  . exact htorn
  . simp [Pipe.write, controlPayloads_append, h.replied, replies]
    apply controlPayloads_control
  . exact h.pending
  . exact h.inbox

theorem Holds.fill (h : Holds json log s) (n : Nat)
    : Holds json log
        { s with
          console := (Console.read json.payloads s.console (s.down.flight.take n)).2
          down := s.down.read n } := by
  have hread := congrArg Prod.snd (Console.run_read json.payloads s.console [s.down.flight.take n])
  rw [Transducer.run_cons, Transducer.run_nil] at hread
  dsimp only at hread
  refine { h with down := h.down.read n, pending := ?_, inbox := ?_ }
  . rw [hread, Pipe.read, Transducer.run_append, ← h.pending]
  . rw [hread, Pipe.read, results, Transducer.run_append, List.filterMap_append, ← h.pending]
    dsimp only
    rw [inbox_taken, ← List.append_assoc, h.inbox]
    rfl

theorem Holds.step {a : Act K} (h : Holds json log s)
    (taken : machine env json s a = some (evs, t))
    : Holds json (evs.reverse ++ log) t := by
  revert taken
  fun_cases machine env json s a
  case case1 message hwhole =>
    rintro ⟨⟩
    have hup := h.up.write (Option.isNone_iff_eq_none.mp hwhole) [json.messageFrame message] none
    exact { h with up := hup, sent := by simp [Pipe.write, h.sent] }
  case case3 message accepted hwhole =>
    rintro ⟨⟩
    have hup := h.up.write (Option.isNone_iff_eq_none.mp hwhole) []
      (some (json.messageFrame message, accepted))
    exact { h with up := hup, sent := by simp [Pipe.write, h.sent] }
  case case5 n hn =>
    rintro ⟨⟩
    exact h.fill n
  case case8 item inbox hinbox =>
    rintro ⟨⟩
    refine { h with inbox := ?_ }
    rw [← h.inbox, hinbox, List.append_assoc]
    rfl
  case case9 | case10 =>
    rintro ⟨⟩
    exact { h with }
  case case12 hserve =>
    rintro ⟨⟩
    exact h.serve hserve fun hserver => if_pos hserver
  case case13 picture hpush =>
    rintro ⟨⟩
    have hnone : controlPayloads [picture] = [] := by simp [controlPayloads, hpush.2]
    exact { h with
      down := h.down.write (h.whole hpush.1) [picture] none
      whole := fun _ => rfl
      replied := by simp [Pipe.write, controlPayloads_append, hnone, h.replied] }
  case case15 picture accepted hpush =>
    rintro ⟨⟩
    exact { h with
      collected := by simp [Collected]
      down := h.down.write (h.whole hpush.1) [] (some (picture, accepted))
      whole := by simp
      replied := by simpa [Pipe.write] using h.replied }
  case case17 =>
    rintro ⟨⟩
    exact { h with collected := by simp [Collected], whole := by simp }
  all_goals rintro ⟨⟩

theorem runs_holds {session : NativeSession K}
    (h : (machine env json).Runs anything { server := { session } } log s)
    : Holds json log s := by
  apply Machine.Runs.invariant (Holds json) _ _ h
  . exact {
      up := rfl, sent := rfl, received := rfl, collected := fun _ => ⟨rfl, rfl⟩
      answers := List.prefix_refl _, down := rfl, whole := fun _ => rfl, replied := rfl
      pending := rfl, inbox := rfl }
  . intro _ _ _ _ _ hI _ taken
    exact hI.step taken

/-- What is written fits into its frame, and the replies survive their encoding. -/
structure Carried (json : Json K) (log : Log K) (s : Link K) : Prop where
  up : s.up.Fits
  down : s.down.Fits
  replies : ∀ reply ∈ replies log, json.replyFromSlice (json.replyToVec reply) = .ok reply

/-- The replies are taken in the order of the messages they answer. -/
structure Paired (json : Json K) (log : Log K) (s : Link K) : Prop where
  -- The items taken are replies, from the first on.
  inOrder : s.taken ++ s.console.inbox <+: (replies log).map .ok
  -- The replies answer the messages sent, from the first on.
  answers : answered log <+: s.sent.map json.messageToVec
  -- As soon as nothing is on its way, everything is answered, and every reply is there.
  complete : s.server.isOpen = true → s.up.torn = none → s.up.flight = [] → s.down.flight = [] →
    s.taken ++ s.console.inbox = (replies log).map .ok
      ∧ answered log = s.sent.map json.messageToVec

theorem Holds.heard (h : Holds json log s) (hfits : s.down.Fits)
    : results s.down.reads = (frames.drain s.down.reads.flatten).1.map .ok := by
  have hrun := @Console.run_feed _ hfits [] _ h.down.reads_prefix
  rw [show (frames.drain []).2 = [] from rfl, frames.run_feed _ rfl, List.nil_append] at hrun
  rw [results, hrun]

theorem controlPayloads_mono {some all : List Frame} (h : some <+: all)
    : controlPayloads some <+: controlPayloads all := by
  exact (h.filter _).map _

/-- Whatever pictures come in between, the reply a console takes next is the reply to the first of
its messages that it has taken none for. -/
theorem replies_paired {session : NativeSession K}
    (h : (machine env json).Runs anything { server := { session } } log s)
    (hcarried : Carried json log s)
    : Paired json log s := by
  have hI := runs_holds h
  have hdecoded : (controlPayloads s.down.written).map json.decodeReply
      = (replies log).map .ok := by
    rw [hI.replied, List.map_map]
    apply List.map_congr_left
    intro reply hmem
    simp only [Function.comp_apply, Json.decodeReply, hcarried.replies reply hmem]
    rfl
  have hsent : controlPayloads s.up.written = s.sent.map json.messageToVec := by
    rw [hI.sent]
    apply controlPayloads_control
  rcases hI.up.drain hcarried.up with ⟨hup, hupAll⟩
  rcases hI.down.drain hcarried.down with ⟨hdown, hdownAll⟩
  constructor
  . rw [hI.inbox, hI.heard hcarried.down, filterMap_item, ← hdecoded]
    exact (controlPayloads_mono hdown).map _
  . rw [← hsent]
    have hanswers := hI.answers
    rw [hI.received] at hanswers
    exact hanswers.trans (controlPayloads_mono hup)
  . intro hopen htorn hupward hdownward
    constructor
    . rw [hI.inbox, hI.heard hcarried.down, filterMap_item,
        hdownAll hdownward (hI.whole hopen), hdecoded]
    . rw [(hI.collected hopen).2, hI.received, hupAll hupward htorn, hsent]

namespace Bench

open NativeSession.Bench

def ping : List UInt8 :=
  Server.utf8 "\x7b\"type\":\"ping\"\x7d"

def setSplit : List UInt8 :=
  Server.utf8 "\x7b\"type\":\"command\",\"cmd\":\"set_split\",\"enabled\":true\x7d"

def pong : List UInt8 :=
  Server.utf8 "\x7b\"type\":\"pong\"\x7d"

def ack : List UInt8 :=
  Server.utf8 "\x7b\"type\":\"ack\"\x7d"

-- `serde_json` on the messages of the run.
def wire : Json kinds where
  messageToVec
    | .ping => ping
    | .command (.setSplit true) => setSplit
    | _ => []
  messageFromSlice bytes :=
    if bytes = ping then .ok .ping
    else if bytes = setSplit then .ok (.command (.setSplit true))
    else .error ""
  replyToVec
    | .pong => pong
    | .ack => ack
    | _ => []
  replyFromSlice bytes :=
    if bytes = pong then .ok .pong
    else if bytes = ack then .ok .ack
    else .error ""

def moments (_ : Nat) : Moment Command RadioState (List Unit) :=
  { state :=
      { vfoAHz := 14060000, vfoBHz := 14060000, mode := .usb, split := false, transmitting := false
        memoryChannel := none, ifShiftHz := none, filterWidthHz := none, meters := [] }
    applyAs := fun _ => .ok () }

def shown (r : Log kinds × Link kinds) :=
  (replies r.1, r.2.taken.length, r.2.up.written, r.2.up.torn, r.2.down.written, r.2.down.torn)

-- The server reads two messages in three parts, and a picture goes out between its replies.
theorem runs_two
    : ∃ log s, (machine renderings wire).Runs anything
        { server := { session := start.greet hello } } log s
      ∧ shown (log, s)
        = ([.pong, .ack], 2, [(.control, ping), (.control, setSplit)], none,
          [(.control, pong), (.spectrum, [7]), (.control, ack)], none) := by
  exact Machine.exists_runs_play
    [.send .ping, .send (.command (.setSplit true)), .serve 8 moments .ack 0,
      .serve 20 moments .ack 0, .push (.spectrum, [7]), .fill 22, .pendingControl,
      .serve 48 moments .ack 0, .fill 23, .pendingControl] rfl

end Bench

theorem replies_paired_interleaved
    : ∃ log s, (machine NativeSession.Bench.renderings Bench.wire).Runs anything
        { server := { session := NativeSession.Bench.start.greet NativeSession.Bench.hello } } log s
      ∧ replies log = [.pong, .ack] ∧ s.taken.length = 2 ∧ Paired Bench.wire log s := by
  rcases Bench.runs_two with ⟨log, s, hrun, hshown⟩
  simp only [Bench.shown, Prod.mk.injEq] at hshown
  rcases hshown with ⟨hreplies, htaken, hup, huptorn, hdown, hdowntorn⟩
  refine ⟨log, s, hrun, hreplies, htaken, replies_paired hrun ⟨?_, ?_, ?_⟩⟩
  . rw [Pipe.Fits, hup, huptorn]
    decide +kernel
  . rw [Pipe.Fits, hdown, hdowntorn]
    decide +kernel
  . rw [hreplies]
    intro reply hmem
    simp only [List.mem_cons, List.not_mem_nil, or_false] at hmem
    rcases hmem with rfl | rfl
    . rfl
    . rfl

end Link

end Native
