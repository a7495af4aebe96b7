import RadioCat.Transport.Tcp
import RadioCat.Trace.Reader

/-!
This module contains the reading side of the TCP framing. The socket hands out the stream in
segments of its own choosing, and the functions here put the frames together again.
-/

namespace Tcp

open Trace

/-- What one read of the socket comes to. Where none is left, the peer has closed. -/
inductive Delivery where
  | data (segment : List UInt8)
  | interrupted
  | failed
  deriving DecidableEq, Repr

abbrev Socket := List Delivery

namespace Socket

def bytes (socket : Socket) : List UInt8 :=
  socket.flatMap fun
    | .data segment => segment
    | _ => []

@[simp]
theorem bytes_data (segment : List UInt8) (socket : Socket)
    : bytes (.data segment :: socket) = segment ++ socket.bytes := by
  rfl

/-- No read fails, and one that brings data brings some. -/
def Sound (socket : Socket) : Prop :=
  ∀ d ∈ socket, d ≠ .failed ∧ d ≠ .data []

instance (socket : Socket) : Decidable socket.Sound :=
  inferInstanceAs (Decidable (∀ d ∈ socket, _))

end Socket

def checkFrameLen (len : Nat) : Except TcpSessionError Unit :=
  if len > maxFrameSize then
    .error (.frameTooLarge len)
  else
    .ok ()

def decodeLenPrefix : List UInt8 → Except TcpSessionError Nat
  | [a, b, c, d] => do
    let len := Native.fromBeBytes a b c d
    checkFrameLen len
    pure len
  -- The source takes an array of four bytes.
  | _ => .error .io

def closed (out : List UInt8) : Except TcpSessionError (Option (List UInt8)) :=
  if out.isEmpty then
    .ok none
  else
    .error .io

def readExactOrEof (len : Nat) (out : List UInt8) (socket : Socket)
    : Except TcpSessionError (Option (List UInt8)) × Socket :=
  -- What remains to be read is `len - out.length`.
  if len - out.length = 0 then
    (.ok (some out), socket)
  else
    match socket with
    | [] => (closed out, [])
    | .data [] :: socket => (closed out, socket)
    | .data segment :: socket =>
      if segment.length ≤ len - out.length then
        readExactOrEof len (out ++ segment) socket
      else
        -- The read fills the buffer, and what is left of the segment waits in the socket.
        (.ok (some (out ++ segment.take (len - out.length))),
          .data (segment.drop (len - out.length)) :: socket)
    | .interrupted :: socket => readExactOrEof len out socket
    | .failed :: socket => (.error .io, socket)

-- `read_exact` is the runtime's own.
abbrev ReadExact := Nat → Reader Socket (Except TcpSessionError (List UInt8))

def readFrameOrEof (readExact : ReadExact)
    : Reader Socket (Except TcpSessionError (Option (List UInt8))) := fun socket =>
  match readExactOrEof 4 [] socket with
  | (.error e, socket) => (.error e, socket)
  | (.ok none, socket) => (.ok none, socket)
  | (.ok (some lenBuf), socket) =>
    match decodeLenPrefix lenBuf with
    | .error e => (.error e, socket)
    | .ok len =>
      match readExact len socket with
      | (.error e, socket) => (.error e, socket)
      | (.ok payload, socket) => (.ok (some payload), socket)

/-- What a reader of frames is for: the next frame off the bytes, wherever the reads end. -/
def nextFrame : Reader (List UInt8) (Except TcpSessionError (Option (List UInt8))) := fun bytes =>
  match parse bytes with
  | .more _ => (closed bytes, [])
  | .tooLarge len => (.error (.frameTooLarge len), bytes.drop 4)
  | .frame payload rest => (.ok (some payload), rest)

/-- A socket that will deliver these bytes. -/
def Delivers (socket : Socket) (bytes : List UInt8) : Prop :=
  socket.Sound ∧ socket.bytes = bytes

theorem Delivers.tail {d : Delivery} {socket : Socket} {bytes : List UInt8}
    (h : Delivers (d :: socket) bytes) : Delivers socket socket.bytes := by
  constructor
  . intro e he
    apply h.1
    apply List.mem_cons_of_mem _ he
  . rfl

theorem Delivers.data {segment : List UInt8} {socket : Socket} {bytes : List UInt8}
    (h : Delivers socket bytes) (hsome : segment ≠ [])
    : Delivers (.data segment :: socket) (segment ++ bytes) := by
  constructor
  . intro d hd
    cases hd with
    | head => simpa using hsome
    | tail _ hd => apply h.1 d hd
  . rw [← h.2]
    rfl

theorem readExactOrEof_delivers (len : Nat) (out : List UInt8) {socket : Socket}
    {bytes : List UInt8} (h : Delivers socket bytes)
    : (readExactOrEof len out socket).1
        = (if len - out.length ≤ bytes.length then .ok (some (out ++ bytes.take (len - out.length)))
          else closed (out ++ bytes)) ∧
      Delivers (readExactOrEof len out socket).2 (bytes.drop (len - out.length)) := by
  fun_induction readExactOrEof len out socket generalizing bytes with
  | case1 out socket hfull =>
    rw [hfull, if_pos (Nat.zero_le _), List.take_zero, List.append_nil, List.drop_zero]
    exact ⟨rfl, h⟩
  | case2 out hmore =>
    cases h.2
    rw [if_neg, Socket.bytes, List.flatMap_nil, List.append_nil, List.drop_nil]
    . exact ⟨rfl, h⟩
    . apply hmore ∘ Nat.eq_zero_of_le_zero
  | case3 out hmore socket =>
    have hnone := (h.1 _ List.mem_cons_self).2
    contradiction
  | case4 out hmore segment socket hsome hfits ih =>
    rcases h with ⟨hsound, rfl⟩
    have hrest := ih (Delivers.tail ⟨hsound, rfl⟩)
    have hleft : len - (out ++ segment).length = len - out.length - segment.length := by
      rw [List.length_append]
      omega
    have henough : len - out.length ≤ segment.length + (Socket.bytes socket).length
        ↔ len - out.length - segment.length ≤ (Socket.bytes socket).length := by
      omega
    rw [hleft, List.append_assoc, List.append_assoc] at hrest
    rw [Socket.bytes_data, List.take_append, List.drop_append, List.take_of_length_le hfits,
      List.drop_of_length_le hfits, List.length_append]
    simp only [henough]
    exact hrest
  | case5 out hmore segment socket hsome hlong =>
    have hleft : segment.drop (len - out.length) ≠ [] := by
      rw [ne_eq, List.drop_eq_nil_iff]
      omega
    have hrest := (Delivers.tail h).data hleft
    rcases h with ⟨hsound, rfl⟩
    have hbelow : len - out.length ≤ segment.length := by
      omega
    rw [Socket.bytes_data, List.take_append_of_le_length hbelow,
      List.drop_append_of_le_length hbelow, if_pos]
    . exact ⟨rfl, hrest⟩
    . rw [List.length_append]
      omega
  | case6 out hmore socket ih =>
    rcases h with ⟨hsound, rfl⟩
    apply ih (Delivers.tail ⟨hsound, rfl⟩)
  | case7 out hmore socket =>
    have hfine := (h.1 _ List.mem_cons_self).1
    contradiction

theorem closed_of_ne_nil {out : List UInt8} (h : out ≠ []) : closed out = .error .io := by
  apply if_neg
  rwa [List.isEmpty_iff]

theorem readExactOrEof_enough (len : Nat) {socket : Socket} {bytes : List UInt8}
    (h : Delivers socket bytes) (hlen : len ≤ bytes.length)
    : ∃ rest, readExactOrEof len [] socket = (.ok (some (bytes.take len)), rest) ∧
      Delivers rest (bytes.drop len) := by
  have hread := readExactOrEof_delivers len [] h
  rw [List.length_nil, Nat.sub_zero, if_pos hlen] at hread
  exact ⟨_, Prod.ext hread.1 rfl, hread.2⟩

theorem readExactOrEof_short (len : Nat) {socket : Socket} {bytes : List UInt8}
    (h : Delivers socket bytes) (hlen : bytes.length < len)
    : ∃ rest, readExactOrEof len [] socket = (closed bytes, rest) ∧ Delivers rest [] := by
  have hread := readExactOrEof_delivers len [] h
  rw [List.length_nil, Nat.sub_zero, if_neg (Nat.not_le_of_gt hlen),
    List.drop_of_length_le (Nat.le_of_lt hlen)] at hread
  exact ⟨_, Prod.ext hread.1 rfl, hread.2⟩

section Frames

variable {readExact : ReadExact}

/-- What `read_exact` does on a socket none of whose reads fails: it waits for all it was asked for,
and a stream that ends earlier is an error. -/
structure ReadsExact (readExact : ReadExact) : Prop where
  enough : ∀ {len : Nat} {socket : Socket} {bytes : List UInt8}, Delivers socket bytes →
    len ≤ bytes.length →
    ∃ rest, readExact len socket = (.ok (bytes.take len), rest) ∧ Delivers rest (bytes.drop len)
  short : ∀ {len : Nat} {socket : Socket} {bytes : List UInt8}, Delivers socket bytes →
    bytes.length < len → ∃ rest, readExact len socket = (.error .io, rest) ∧ Delivers rest []

theorem decodeLenPrefix_eq (a b c d : UInt8)
    : decodeLenPrefix [a, b, c, d]
      = if Native.fromBeBytes a b c d > maxFrameSize
        then .error (.frameTooLarge (Native.fromBeBytes a b c d))
        else .ok (Native.fromBeBytes a b c d) := by
  unfold decodeLenPrefix checkFrameLen
  dsimp only
  split
  . rfl
  . rfl

/-- Reading a frame off the socket is reading it off the bytes the socket will deliver. -/
theorem readFrameOrEof_simulates (hexact : ReadsExact readExact)
    : Reader.Simulates Delivers (readFrameOrEof readExact) nextFrame := by
  intro socket bytes h
  unfold readFrameOrEof nextFrame
  match bytes with
  | [] | [_] | [_, _] | [_, _, _] =>
    rcases readExactOrEof_short 4 h (by simp) with ⟨rest, hread, hrest⟩
    rw [hread]
    exact ⟨rfl, hrest⟩
  | a :: b :: c :: d :: bytes =>
    rcases readExactOrEof_enough 4 h (by simp) with ⟨rest, hread, hrest⟩
    simp only [List.take_succ_cons, List.take_zero, List.drop_succ_cons, List.drop_zero]
      at hread hrest
    rw [hread]
    simp only [decodeLenPrefix_eq, parse]
    by_cases htoo : Native.fromBeBytes a b c d > maxFrameSize
    . simp only [if_pos htoo]
      exact ⟨trivial, hrest⟩
    simp only [if_neg htoo]
    by_cases hshort : bytes.length < Native.fromBeBytes a b c d
    . rcases hexact.short hrest hshort with ⟨last, hpayload, hlast⟩
      simp only [hpayload, if_pos hshort]
      exact ⟨rfl, hlast⟩
    . rcases hexact.enough hrest (Nat.le_of_not_lt hshort) with ⟨last, hpayload, hlast⟩
      simp only [hpayload, if_neg hshort]
      exact ⟨trivial, hlast⟩

theorem nextFrame_encodeFrame {payload frame : List UInt8} (h : encodeFrame payload = .ok frame)
    (rest : List UInt8) : nextFrame (frame ++ rest) = (.ok (some payload), rest) := by
  rcases encodeFrame_ok h with ⟨hsize, rfl⟩
  unfold nextFrame
  rw [List.append_assoc, parse_header hsize, if_neg]
  . simp
  . simp

theorem calls_nextFrame {payloads frames : List (List UInt8)}
    (h : payloads.map encodeFrame = frames.map .ok) (rest : List UInt8)
    : nextFrame.calls payloads.length (frames.flatten ++ rest)
      = (payloads.map fun payload => .ok (some payload), rest) := by
  induction payloads generalizing frames with
  | nil =>
    rw [List.map_nil, eq_comm, List.map_eq_nil_iff] at h
    rw [h]
    rfl
  | cons payload payloads ih =>
    cases frames with
    | nil => cases h
    | cons frame frames =>
      rw [List.map_cons, List.map_cons, List.cons.injEq] at h
      rw [List.flatten_cons, List.append_assoc, List.length_cons, List.map_cons]
      simp only [Reader.calls, nextFrame_encodeFrame h.1, ih h.2]

theorem calls_frames {payloads frames : List (List UInt8)} {socket : Socket}
    (hexact : ReadsExact readExact) (hframes : payloads.map encodeFrame = frames.map .ok)
    (rest : List UInt8) (h : Delivers socket (frames.flatten ++ rest))
    : ((readFrameOrEof readExact).calls (payloads.length + 1) socket).1
        = payloads.map (fun payload => .ok (some payload)) ++ [(nextFrame rest).1] ∧
      Delivers ((readFrameOrEof readExact).calls (payloads.length + 1) socket).2
        (nextFrame rest).2 := by
  have hcalls := (readFrameOrEof_simulates hexact).calls (payloads.length + 1) h
  rw [Reader.calls_add nextFrame, calls_nextFrame hframes] at hcalls
  exact hcalls

/-- Frames survive any cutting of their stream: what was framed comes out, a stream that ends in
the middle of a frame is an error, and so is a length above the limit, with nothing read behind
it. -/
theorem readFrameOrEof_frames (hexact : ReadsExact readExact)
    (payloads frames : List (List UInt8)) (socket : Socket)
    (hframes : payloads.map encodeFrame = frames.map .ok) (hsound : socket.Sound)
    : (socket.bytes = frames.flatten →
        ((readFrameOrEof readExact).calls (payloads.length + 1) socket).1
          = payloads.map (fun payload => .ok (some payload)) ++ [.ok none]) ∧
      (∀ part n, socket.bytes = frames.flatten ++ part → part ≠ [] → parse part = .more n →
        ((readFrameOrEof readExact).calls (payloads.length + 1) socket).1
          = payloads.map (fun payload => .ok (some payload)) ++ [.error .io]) ∧
      (∀ a b c d rest, socket.bytes = frames.flatten ++ a :: b :: c :: d :: rest →
        Native.fromBeBytes a b c d > maxFrameSize →
        ((readFrameOrEof readExact).calls (payloads.length + 1) socket).1
          = payloads.map (fun payload => .ok (some payload))
            ++ [.error (.frameTooLarge (Native.fromBeBytes a b c d))] ∧
        ((readFrameOrEof readExact).calls (payloads.length + 1) socket).2.bytes = rest) := by
  refine ⟨?_, ?_, ?_⟩
  . intro hbytes
    have hcalls := calls_frames hexact hframes [] ⟨hsound, by rw [hbytes, List.append_nil]⟩
    exact hcalls.1
  . intro part n hbytes hpart hmore
    have hcalls := calls_frames hexact hframes _ ⟨hsound, hbytes⟩
    rw [nextFrame, hmore] at hcalls
    rw [hcalls.1, closed_of_ne_nil hpart]
  . intro a b c d rest hbytes htoo
    have hcalls := calls_frames hexact hframes _ ⟨hsound, hbytes⟩
    have hparse : parse (a :: b :: c :: d :: rest) = .tooLarge (Native.fromBeBytes a b c d) := by
      apply if_pos htoo
    rw [nextFrame, hparse] at hcalls
    exact ⟨hcalls.1, hcalls.2.2⟩

end Frames

/-- The loop above, to which the end of the stream is an error. -/
def Bench.readExact : ReadExact := fun len socket =>
  match readExactOrEof len [] socket with
  | (.ok (some payload), socket) => (.ok payload, socket)
  | (.ok none, socket) => (.error .io, socket)
  | (.error e, socket) => (.error e, socket)

theorem Bench.readsExact : ReadsExact Bench.readExact where
  enough := by
    intro len socket bytes h hlen
    rcases readExactOrEof_enough len h hlen with ⟨rest, hread, hrest⟩
    rw [Bench.readExact, hread]
    exact ⟨rest, rfl, hrest⟩
  short := by
    intro len socket bytes h hlen
    rcases readExactOrEof_short len h hlen with ⟨rest, hread, hrest⟩
    rw [Bench.readExact, hread]
    cases bytes with
    | nil => exact ⟨rest, rfl, hrest⟩
    | cons byte bytes => exact ⟨rest, rfl, hrest⟩

theorem readFrameOrEof_frames_splits
    : ((readFrameOrEof Bench.readExact).calls 3
          [.data [0, 0], .data [0, 3, 70], .interrupted, .data [65, 59, 0, 0, 0], .data [0]]).1
        = [.ok (some [70, 65, 59]), .ok (some []), .ok none] ∧
      ((readFrameOrEof Bench.readExact).calls 2 [.data [0, 0, 0], .data [1, 70, 0], .data [0]]).1
        = [.ok (some [70]), .error .io] ∧
      ((readFrameOrEof Bench.readExact).calls 2
          [.data [0, 0, 0], .data [1, 70, 0, 1], .data [0, 1, 59]]).1
        = [.ok (some [70]), .error (.frameTooLarge 65537)] ∧
      ((readFrameOrEof Bench.readExact).calls 2
          [.data [0, 0, 0], .data [1, 70, 0, 1], .data [0, 1, 59]]).2.bytes
        = [59] := by
  refine ⟨?_, ?_, ?_⟩
  . have hread := (readFrameOrEof_frames Bench.readsExact [[70, 65, 59], []]
      [[0, 0, 0, 3, 70, 65, 59], [0, 0, 0, 0]]
      [.data [0, 0], .data [0, 3, 70], .interrupted, .data [65, 59, 0, 0, 0], .data [0]] rfl
      (by decide)).1
    exact hread rfl
  . have hread := (readFrameOrEof_frames Bench.readsExact [[70]] [[0, 0, 0, 1, 70]]
      [.data [0, 0, 0], .data [1, 70, 0], .data [0]] rfl (by decide)).2.1
    exact hread [0, 0] 2 rfl (by decide) rfl
  . have hread := (readFrameOrEof_frames Bench.readsExact [[70]] [[0, 0, 0, 1, 70]]
      [.data [0, 0, 0], .data [1, 70, 0, 1], .data [0, 1, 59]] rfl (by decide)).2.2
    exact hread 0 1 0 1 [59] rfl (by decide)

end Tcp
