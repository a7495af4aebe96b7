import RadioCat.Native.Frame

/-!
This module contains the way of frames over a stream: what one end encodes, in whatever chunks it
arrives, is what the loops at the other end take off.
-/

namespace Native

open Trace

def FrameKind.toU8 : FrameKind → UInt8
  | .control => 1
  | .spectrum => 2
  | .audio => 3

abbrev Frame := FrameKind × List UInt8

/-- The four bytes of a length as a 32-bit number: what does not fit is cut off. -/
def toBeBytes (n : Nat) : List UInt8 :=
  [UInt8.ofNat (n / 2 ^ 24), UInt8.ofNat (n / 2 ^ 16), UInt8.ofNat (n / 2 ^ 8), UInt8.ofNat n]

def encodeFrame (frame : Frame) : List UInt8 :=
  frame.1.toU8 :: toBeBytes frame.2.length ++ frame.2

/-- A frame whose length its header can state, and that the other end accepts. -/
def Encodable (frame : Frame) : Prop :=
  frame.2.length < 2 ^ 32 ∧ (frame.1 = .control → frame.2.length ≤ maxControlBytes)

instance (frame : Frame) : Decidable (Encodable frame) :=
  inferInstanceAs (Decidable (_ ∧ _))

theorem fromU8_toU8 (kind : FrameKind) : FrameKind.fromU8 kind.toU8 = some kind := by
  cases kind <;> rfl

theorem fromBeBytes_ofNat {n : Nat} (h : n < 2 ^ 32)
    : fromBeBytes (UInt8.ofNat (n / 2 ^ 24)) (UInt8.ofNat (n / 2 ^ 16)) (UInt8.ofNat (n / 2 ^ 8))
      (UInt8.ofNat n) = n := by
  simp only [fromBeBytes, UInt8.toNat_ofNat']
  omega

theorem nextFrame_encodeFrame {frame : Frame} (h : Encodable frame) (rest : List UInt8)
    : frames.next (encodeFrame frame ++ rest) = some (frame, rest) := by
  rcases h with ⟨hlen, hcontrol⟩
  rw [frames_eq]
  apply Splitter.upTo_next_some (a := { kind := frame.1.toU8, payload := frame.2 })
  . apply framing_frame
    apply fromBeBytes_ofNat hlen
  . simp only [RawFrame.accepted, fromU8_toU8]
    apply if_neg
    rintro ⟨hkind, hlarge⟩
    have hsmall := hcontrol hkind
    omega

theorem drain_encoded {stream : List Frame} (h : ∀ frame ∈ stream, Encodable frame)
    : frames.drain (stream.flatMap encodeFrame) = (stream, []) := by
  induction stream with
  | nil => rfl
  | cons frame stream ih =>
    rw [List.flatMap_cons, frames.drain_some (nextFrame_encodeFrame (h frame (.head _)) _),
      ih fun frame' hmem => h frame' (.tail _ hmem)]

theorem decodeFrame_part {frame : Frame} (h : Encodable frame) {part : List UInt8}
    (hpart : part <+: encodeFrame frame) (hproper : part ≠ encodeFrame frame)
    : decodeFrame part = .error .incomplete := by
  rcases h with ⟨hlen, hcontrol⟩
  rcases hpart with ⟨missing, hmissing⟩
  match part with
  | [] | [_] | [_, _] | [_, _, _] | [_, _, _, _] => rfl
  | k :: a :: b :: c :: d :: rest =>
    simp only [encodeFrame, toBeBytes, List.cons_append, List.nil_append, List.cons.injEq, ne_eq]
      at hmissing hproper
    rcases hmissing with ⟨rfl, rfl, rfl, rfl, rfl, hrest⟩
    have hshort : rest.length < frame.2.length := by
      cases missing with
      | nil =>
        rw [List.append_nil] at hrest
        exact absurd ⟨rfl, rfl, rfl, rfl, rfl, hrest⟩ hproper
      | cons b missing =>
        rw [← hrest, List.length_append, List.length_cons]
        omega
    simp only [decodeFrame, fromU8_toU8, fromBeBytes_ofNat hlen]
    rw [if_neg, if_pos hshort]
    rintro ⟨hkind, hlarge⟩
    have hsmall := hcontrol hkind
    omega

/-- Of a stream of frames that stopped anywhere, what is left after the whole frames is at most a
part of one. -/
theorem decodeFrame_drain {stream : List Frame} (h : ∀ frame ∈ stream, Encodable frame)
    {buf : List UInt8} (hbuf : buf <+: stream.flatMap encodeFrame)
    : decodeFrame (frames.drain buf).2 = .error .incomplete := by
  induction stream generalizing buf with
  | nil =>
    rw [List.prefix_nil.mp hbuf]
    rfl
  | cons frame stream ih =>
    rw [List.flatMap_cons] at hbuf
    have hframe := h frame (.head _)
    by_cases hwhole : encodeFrame frame <+: buf
    . rcases hwhole with ⟨rest, rfl⟩
      rw [frames.drain_some (nextFrame_encodeFrame hframe rest)]
      apply ih fun frame' hmem => h frame' (.tail _ hmem)
      exact (List.prefix_append_right_inj _).mp hbuf
    . have hpart : buf <+: encodeFrame frame :=
        (List.prefix_or_prefix_of_prefix hbuf (List.prefix_append _ _)).resolve_right hwhole
      have hincomplete : decodeFrame buf = .error .incomplete := by
        apply decodeFrame_part hframe hpart
        rintro rfl
        apply hwhole
        apply List.prefix_refl
      have hnext : frames.next buf = none := by
        simp [frames, nextFrame, hincomplete]
      rw [frames.drain_none hnext]
      exact hincomplete

inductive ClientError where
  | frame (error : FrameError)
  | decode (error : String)
  deriving DecidableEq, Repr

/-- The decoders of the payloads: messages, spectrum frames and audio frames. -/
structure Payloads (μ ς υ : Type) where
  fromSlice : List UInt8 → Except String μ
  decodeSpectrumPayload : List UInt8 → Option ς
  decodeAudioPayload : List UInt8 → Option υ

structure Console (μ ς υ : Type) where
  pending : List UInt8 := []
  inbox : List (Except ClientError μ) := []
  latestSpectrum : Option ς := none
  latestAudio : Option υ := none

namespace Console

variable {μ ς υ : Type} (P : Payloads μ ς υ)

def take (c : Console μ ς υ) : Except FrameError Frame → Console μ ς υ
  | .error e => { c with inbox := c.inbox ++ [.error (.frame e)] }
  | .ok (.control, payload) =>
    { c with inbox := c.inbox ++ [(P.fromSlice payload).mapError .decode] }
  | .ok (.spectrum, payload) =>
    { c with latestSpectrum := (P.decodeSpectrumPayload payload).or c.latestSpectrum }
  | .ok (.audio, payload) =>
    { c with latestAudio := (P.decodeAudioPayload payload).or c.latestAudio }

-- What the calls of `decode_frame` in one pass of the loop return, and what is left of the buffer.
def decodeFuel : Nat → List UInt8 → List (Except FrameError Frame) × List UInt8
  | 0, buf => ([], buf)
  | n + 1, buf =>
    match decodeFrame buf with
    | .error .incomplete => ([], buf)
    | .error e => ([.error e], [])
    | .ok (kind, payload, used) =>
      let (items, rest) := decodeFuel n (buf.drop used)
      (.ok (kind, payload) :: items, rest)

def decodeAll (buf : List UInt8) : List (Except FrameError Frame) × List UInt8 :=
  decodeFuel buf.length buf

theorem decodeFrame_of_next {buf : List UInt8} {item : Frame × List UInt8}
    (h : frames.next buf = some item)
    : ∃ used, decodeFrame buf = .ok (item.1.1, item.1.2, used) ∧ item.2 = buf.drop used := by
  simp only [frames, nextFrame] at h
  split at h
  next kind payload used hdecode =>
    cases h
    exact ⟨used, hdecode, rfl⟩
  next => cases h

theorem decodeFuel_drain {n : Nat} {buf : List UInt8} (hn : buf.length ≤ n)
    (h : decodeFrame (frames.drain buf).2 = .error .incomplete)
    : decodeFuel n buf = ((frames.drain buf).1.map .ok, (frames.drain buf).2) := by
  induction n generalizing buf with
  | zero =>
    rw [List.length_eq_zero_iff.mp (Nat.le_zero.mp hn)]
    rfl
  | succ n ih =>
    cases hnext : frames.next buf with
    | none =>
      rw [frames.drain_none hnext] at h ⊢
      simp [decodeFuel, h]
    | some item =>
      rcases decodeFrame_of_next hnext with ⟨used, hdecode, hrest⟩
      have hlt := frames.shorter hnext
      have hn' : item.2.length ≤ n := by omega
      rw [frames.drain_some hnext] at h ⊢
      simp only [decodeFuel, hdecode, ← hrest, ih hn' h, List.map_cons]

-- The buffer and the calls of `decode_frame`, one chunk after the other.
def feed : Transducer (List UInt8) (List UInt8) (Except FrameError Frame) := fun pending chunk =>
  decodeAll (pending ++ chunk)

theorem run_feed {stream : List Frame} (h : ∀ frame ∈ stream, Encodable frame)
    {seen : List UInt8} {chunks : List (List UInt8)}
    (hstream : seen ++ chunks.flatten <+: stream.flatMap encodeFrame)
    : feed.run (frames.drain seen).2 chunks
      = ((frames.feed.run (frames.drain seen).2 chunks).1.map .ok,
        (frames.feed.run (frames.drain seen).2 chunks).2) := by
  induction chunks generalizing seen with
  | nil => rfl
  | cons chunk chunks ih =>
    rw [List.flatten_cons, ← List.append_assoc] at hstream
    have hseen : (frames.drain ((frames.drain seen).2 ++ chunk)).2
        = (frames.drain (seen ++ chunk)).2 := by
      rw [frames.drain_append seen chunk]
    have hincomplete : decodeFrame (frames.drain ((frames.drain seen).2 ++ chunk)).2
        = .error .incomplete := by
      rw [hseen]
      apply decodeFrame_drain h
      exact (List.prefix_append _ _).trans hstream
    have hchunk : feed (frames.drain seen).2 chunk
        = ((frames.feed (frames.drain seen).2 chunk).1.map .ok,
          (frames.feed (frames.drain seen).2 chunk).2) := by
      apply decodeFuel_drain _ hincomplete
      omega
    have hrest := ih hstream
    rw [← hseen] at hrest
    rw [Transducer.run_cons, Transducer.run_cons, hchunk]
    dsimp only
    rw [Splitter.feed, hrest, List.map_append]

def took : Transducer (Console μ ς υ) (Except FrameError Frame) (Except FrameError Frame) :=
  fun c item => ([item], take P c item)

/-- The output is what the calls of `decode_frame` returned. -/
def drainFrames (c : Console μ ς υ) : List (Except FrameError Frame) × Console μ ς υ :=
  (took P).run { c with pending := (decodeAll c.pending).2 } (decodeAll c.pending).1

def fill (c : Console μ ς υ) (chunk : List UInt8) : Console μ ς υ :=
  { c with pending := c.pending ++ chunk }

def read : Transducer (Console μ ς υ) (List UInt8) (Except FrameError Frame) := fun c chunk =>
  drainFrames P (fill c chunk)

theorem run_took (c : Console μ ς υ) (items : List (Except FrameError Frame))
    : (took P).run c items = (items, items.foldl (take P) c) := by
  induction items generalizing c with
  | nil => rfl
  | cons item items ih =>
    rw [Transducer.run_cons, took, ih]
    rfl

def pendingPart : Part (Console μ ς υ) (List UInt8) where
  get := pending
  set c pending := { c with pending }
  get_set _ _ := rfl
  set_set _ _ _ := rfl
  set_get _ := rfl

theorem took_blind : Transducer.Blind pendingPart (took P) := by
  intro c pending item
  simp only [took, take, pendingPart]
  split
  all_goals rfl

theorem run_read (c : Console μ ς υ) (chunks : List (List UInt8))
    : (read P).run c chunks
      = ((feed.run c.pending chunks).1,
        { (feed.run c.pending chunks).1.foldl (take P) c with
          pending := (feed.run c.pending chunks).2 }) := by
  have hstage : (read P).run c chunks = _ := Transducer.run_stage feed (took_blind P) c chunks
  rw [hstage, run_took]
  rfl

end Console

/-- However the encoded frames are chunked, the loop of the server and that of the console take off
these frames and leave nothing; and a part of a frame is never taken for anything else. -/
theorem stream_roundtrip {μ ς υ : Type} (P : Payloads μ ς υ) (c : Console μ ς υ)
    (stream : List Frame) (hstream : ∀ frame ∈ stream, Encodable frame)
    (chunks : List (List UInt8)) (hchunks : chunks.flatten = stream.flatMap encodeFrame)
    : frames.feed.run [] chunks = (stream, [])
      ∧ (Console.read P).run { c with pending := [] } chunks
        = (stream.map .ok,
          { (stream.map .ok).foldl (Console.take P) { c with pending := [] } with pending := [] })
      ∧ ∀ frame ∈ stream, ∀ part, part <+: encodeFrame frame → part ≠ encodeFrame frame →
        decodeFrame part = .error .incomplete := by
  have hserver : frames.feed.run [] chunks = (stream, []) := by
    rw [frames.run_feed chunks rfl, List.nil_append, hchunks, drain_encoded hstream]
  have hconsole : Console.feed.run [] chunks = (stream.map .ok, []) := by
    have hprefix : [] ++ chunks.flatten <+: stream.flatMap encodeFrame := by
      rw [hchunks]
      apply List.prefix_refl
    have hrun := Console.run_feed hstream hprefix
    rw [show (frames.drain []).2 = [] from rfl, hserver] at hrun
    exact hrun
  refine ⟨hserver, ?_, ?_⟩
  . rw [Console.run_read, hconsole]
  . intro frame hmem part hpart hproper
    exact decodeFrame_part (hstream frame hmem) hpart hproper

theorem stream_roundtrip_bytewise
    : frames.feed.run []
        ((([(.control, [1]), (.audio, []), (.spectrum, [2, 3])] : List Frame).flatMap
          encodeFrame).map ([·]))
      = ([(.control, [1]), (.audio, []), (.spectrum, [2, 3])], []) :=
  (stream_roundtrip (μ := Unit) (ς := List UInt8) (υ := List UInt8)
    { fromSlice := fun _ => .ok (), decodeSpectrumPayload := some, decodeAudioPayload := some } {}
    [(.control, [1]), (.audio, []), (.spectrum, [2, 3])] (by decide) _ (by decide)).1

end Native
