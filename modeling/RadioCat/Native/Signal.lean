import Mathlib.Data.List.Basic
import RadioCat.Bytes.Codec

/-!
This module contains the binary payloads of spectrum and audio frames: fields of fixed width in
front, the counts among them, and then the values that were counted.
-/

namespace Native

open Bytes

/-- The 32 bits of a float, which the payloads carry as they are. -/
abbrev F32 := UInt32

structure SpectrumFrame where
  centerHz : UInt64
  spanHz : UInt32
  refLevelDbm : F32
  bins : List F32
  sequence : UInt64
  deriving DecidableEq, Repr

structure AudioScopeFrame where
  sampleRateHz : UInt32
  samples : List F32
  sequence : UInt64
  deriving DecidableEq, Repr

structure AudioSpectrumFrame where
  startHz : UInt32
  spanHz : UInt32
  bins : List F32
  sequence : UInt64
  deriving DecidableEq, Repr

structure AudioFrame where
  scope : AudioScopeFrame
  spectrum : AudioSpectrumFrame
  deriving DecidableEq, Repr

-- A count that does not fit in four bytes loses its upper ones, as with `as u32`.
def encodeSpectrumPayload (frame : SpectrumFrame) : List UInt8 :=
  toBe 8 frame.centerHz.toNat ++ toBe 4 frame.spanHz.toNat ++ toBe 4 frame.refLevelDbm.toNat
    ++ toBe 8 frame.sequence.toNat ++ toBe 4 frame.bins.length
    ++ frame.bins.flatMap fun bin => toBe 4 bin.toNat

def floats : List UInt8 → List F32
  | a :: b :: c :: d :: rest => UInt32.ofNat (beValue [a, b, c, d]) :: floats rest
  | _ => []

def decodeSpectrumPayload (payload : List UInt8) : Option SpectrumFrame :=
  if payload.length < 28 then
    none
  else
    let count := beValue (slice payload 24 28)
    if payload.length < 28 + count * 4 then
      none
    else
      some {
        centerHz := UInt64.ofNat (beValue (slice payload 0 8))
        spanHz := UInt32.ofNat (beValue (slice payload 8 12))
        refLevelDbm := UInt32.ofNat (beValue (slice payload 12 16))
        sequence := UInt64.ofNat (beValue (slice payload 16 24))
        bins := floats (slice payload 28 (28 + count * 4))
      }

def encodeAudioPayload (frame : AudioFrame) : List UInt8 :=
  toBe 8 frame.scope.sequence.toNat ++ toBe 4 frame.scope.sampleRateHz.toNat
    ++ toBe 4 frame.spectrum.startHz.toNat ++ toBe 4 frame.spectrum.spanHz.toNat
    ++ toBe 4 frame.scope.samples.length ++ toBe 4 frame.spectrum.bins.length
    ++ (frame.scope.samples.flatMap fun sample => toBe 4 sample.toNat)
    ++ frame.spectrum.bins.flatMap fun bin => toBe 4 bin.toNat

def decodeAudioPayload (payload : List UInt8) : Option AudioFrame :=
  if payload.length < 28 then
    none
  else
    let sequence := UInt64.ofNat (beValue (slice payload 0 8))
    let samples := beValue (slice payload 20 24)
    let bins := beValue (slice payload 24 28)
    if payload.length < 28 + samples * 4 + bins * 4 then
      none
    else
      let stop := 28 + samples * 4
      some {
        scope := {
          sampleRateHz := UInt32.ofNat (beValue (slice payload 8 12))
          samples := floats (slice payload 28 stop)
          sequence
        }
        spectrum := {
          startHz := UInt32.ofNat (beValue (slice payload 12 16))
          spanHz := UInt32.ofNat (beValue (slice payload 16 20))
          bins := floats (slice payload stop (stop + bins * 4))
          sequence
        }
      }

def u64 : Codec UInt8 UInt64 :=
  (word 8).map UInt64.ofNat UInt64.toNat fun _ h => UInt64.toNat_ofNat_of_lt' h

def u32 : Codec UInt8 UInt32 :=
  (word 4).map UInt32.ofNat UInt32.toNat fun _ h => UInt32.toNat_ofNat_of_lt' h

theorem u64_valid (value : UInt64) : u64.Valid value := by
  constructor
  . apply UInt64.toNat_lt
  . apply UInt64.ofNat_toNat

theorem u32_valid (value : UInt32) : u32.Valid value := by
  constructor
  . apply UInt32.toNat_lt
  . apply UInt32.ofNat_toNat

theorem u32_exactly_valid (values : List UInt32) : (u32.exactly values.length).Valid values := by
  constructor
  . rfl
  . intro value _
    apply u32_valid

theorem u64_decode {start : Nat} {buf : List UInt8} (h : start + 8 ≤ buf.length)
    : u64.decode (buf.drop start)
      = some (UInt64.ofNat (beValue (slice buf start (start + 8))), buf.drop (start + 8)) := by
  rw [u64, Codec.map_decode, word_decode_drop h, Option.map_some]

theorem u32_decode {start : Nat} {buf : List UInt8} (h : start + 4 ≤ buf.length)
    : u32.decode (buf.drop start)
      = some (UInt32.ofNat (beValue (slice buf start (start + 4))), buf.drop (start + 4)) := by
  rw [u32, Codec.map_decode, word_decode_drop h, Option.map_some]

theorem exists_four {buf : List UInt8} (h : 4 ≤ buf.length)
    : ∃ a b c d rest, buf = a :: b :: c :: d :: rest := by
  have hlen : (buf.take 4).length = 4 := by
    rw [List.length_take]
    omega
  rcases List.length_eq_four.mp hlen with ⟨a, b, c, d, hhead⟩
  refine ⟨a, b, c, d, buf.drop 4, ?_⟩
  have hbuf := List.take_append_drop 4 buf
  rw [hhead] at hbuf
  exact hbuf.symm

theorem floats_slice {n start : Nat} {buf : List UInt8} (h : start + (n + 1) * 4 ≤ buf.length)
    : floats (slice buf start (start + (n + 1) * 4))
      = UInt32.ofNat (beValue (slice buf start (start + 4)))
        :: floats (slice buf (start + 4) (start + 4 + n * 4)) := by
  simp only [slice, Nat.add_sub_cancel_left, ← List.drop_drop]
  have hlen : 4 ≤ (buf.drop start).length := by
    rw [List.length_drop]
    omega
  rcases exists_four hlen with ⟨a, b, c, d, rest, hbuf⟩
  rw [hbuf, Nat.add_mul]
  rfl

theorem u32_exactly {n start : Nat} {buf : List UInt8} (h : start + n * 4 ≤ buf.length)
    : (u32.exactly n).decode (buf.drop start)
      = some (floats (slice buf start (start + n * 4)), buf.drop (start + n * 4)) := by
  induction n generalizing start with
  | zero =>
    rw [slice, Nat.zero_mul, Nat.add_zero, Nat.sub_self, List.take_zero]
    rfl
  | succ n ih =>
    have hsum : start + 4 + n * 4 = start + (n + 1) * 4 := by
      omega
    rw [Codec.exactly_decode, u32_decode (by omega), Option.bind_some, ih (by omega),
      Option.map_some, floats_slice h, hsum]

theorem length_flatMap_u32 (values : List UInt32)
    : (values.flatMap u32.encode).length = values.length * 4 := by
  induction values with
  | nil => rfl
  | cons value values ih =>
    have hvalue : (u32.encode value).length = 4 := length_toBe 4 _
    rw [List.flatMap_cons, List.length_append, hvalue, ih, List.length_cons]
    omega

theorem u32_exactly_none {n start : Nat} {buf : List UInt8} (hstart : start ≤ buf.length)
    (h : buf.length < start + n * 4) : (u32.exactly n).decode (buf.drop start) = none := by
  apply Codec.decode_eq_none
  intro values hvalues
  rw [List.length_drop, Codec.exactly, length_flatMap_u32, hvalues.1]
  omega

def spectrum : Codec UInt8 SpectrumFrame :=
  (u64.andThen fun _ => u32.andThen fun _ => u32.andThen fun _ => u64.andThen fun _ =>
    (word 4).andThen fun count => u32.exactly count).map
    (fun x => {
      centerHz := x.1
      spanHz := x.2.1
      refLevelDbm := x.2.2.1
      sequence := x.2.2.2.1
      bins := x.2.2.2.2.2 })
    (fun frame => (frame.centerHz, frame.spanHz, frame.refLevelDbm, frame.sequence,
      frame.bins.length, frame.bins))
    (fun x h => by
      have hcount := h.2.2.2.2.2.1
      rw [hcount])

theorem encodeSpectrumPayload_eq (frame : SpectrumFrame)
    : encodeSpectrumPayload frame = spectrum.encode frame := by
  simp only [encodeSpectrumPayload, List.append_assoc]
  rfl

-- Dropping nothing puts the payload in the form the lemmas on single fields have.
theorem decodeSpectrumPayload_eq (payload : List UInt8)
    : decodeSpectrumPayload payload = (spectrum.decode (payload.drop 0)).map Prod.fst := by
  unfold decodeSpectrumPayload
  by_cases hshort : payload.length < 28
  . rw [if_pos hshort, spectrum.decode_eq_none]
    . rfl
    . intro frame _
      rw [← encodeSpectrumPayload_eq, List.drop_zero]
      simp only [encodeSpectrumPayload, List.length_append, length_toBe]
      omega
  simp (disch := omega) only [if_neg hshort, spectrum, Codec.map_decode, Codec.andThen_decode,
    u64_decode, u32_decode, word_decode_drop, Option.bind_some, Nat.reduceAdd]
  by_cases hcount : payload.length < 28 + beValue (slice payload 24 28) * 4
  . rw [if_pos hcount, u32_exactly_none (by omega) hcount]
    rfl
  . rw [if_neg hcount, u32_exactly (by omega)]
    rfl

theorem spectrum_valid_iff (frame : SpectrumFrame)
    : spectrum.Valid frame ↔ frame.bins.length < 2 ^ 32 := by
  constructor
  . intro h
    apply h.1.2.2.2.2.1
  . intro h
    exact ⟨⟨u64_valid _, u32_valid _, u32_valid _, u64_valid _, h, u32_exactly_valid _⟩, rfl⟩

/-- The layout of an audio payload. One sequence number serves both halves. -/
def audio : Codec UInt8 AudioFrame :=
  (u64.andThen fun _ => u32.andThen fun _ => u32.andThen fun _ => u32.andThen fun _ =>
    (word 4).andThen fun samples => (word 4).andThen fun bins =>
      (u32.exactly samples).andThen fun _ => u32.exactly bins).map
    (fun x => {
      scope := { sequence := x.1, sampleRateHz := x.2.1, samples := x.2.2.2.2.2.2.1 }
      spectrum := {
        sequence := x.1
        startHz := x.2.2.1
        spanHz := x.2.2.2.1
        bins := x.2.2.2.2.2.2.2 } })
    (fun frame => (frame.scope.sequence, frame.scope.sampleRateHz, frame.spectrum.startHz,
      frame.spectrum.spanHz, frame.scope.samples.length, frame.spectrum.bins.length,
      frame.scope.samples, frame.spectrum.bins))
    (fun x h => by
      have hsamples := h.2.2.2.2.2.2.1.1
      have hbins := h.2.2.2.2.2.2.2.1
      rw [hsamples, hbins])

theorem encodeAudioPayload_eq (frame : AudioFrame)
    : encodeAudioPayload frame = audio.encode frame := by
  simp only [encodeAudioPayload, List.append_assoc]
  rfl

theorem decodeAudioPayload_eq (payload : List UInt8)
    : decodeAudioPayload payload = (audio.decode (payload.drop 0)).map Prod.fst := by
  unfold decodeAudioPayload
  by_cases hshort : payload.length < 28
  . rw [if_pos hshort, audio.decode_eq_none]
    . rfl
    . intro frame _
      rw [← encodeAudioPayload_eq, List.drop_zero]
      simp only [encodeAudioPayload, List.length_append, length_toBe]
      omega
  simp (disch := omega) only [if_neg hshort, audio, Codec.map_decode, Codec.andThen_decode,
    u64_decode, u32_decode, word_decode_drop, Option.bind_some, Nat.reduceAdd]
  generalize beValue (slice payload 20 24) = samples
  generalize beValue (slice payload 24 28) = bins
  by_cases hcount : payload.length < 28 + samples * 4 + bins * 4
  . rw [if_pos hcount]
    by_cases hsamples : payload.length < 28 + samples * 4
    . rw [u32_exactly_none (by omega) hsamples]
      rfl
    . rw [u32_exactly (by omega), Option.bind_some, u32_exactly_none (by omega) hcount]
      rfl
  . rw [if_neg hcount, u32_exactly (by omega), Option.bind_some, u32_exactly (by omega)]
    rfl

theorem audio_valid_iff (frame : AudioFrame)
    : audio.Valid frame ↔
      frame.scope.samples.length < 2 ^ 32 ∧ frame.spectrum.bins.length < 2 ^ 32 ∧
      frame.scope.sequence = frame.spectrum.sequence := by
  constructor
  . intro h
    have hsequence := congrArg (fun frame => frame.spectrum.sequence) h.2
    exact ⟨h.1.2.2.2.2.1, h.1.2.2.2.2.2.1, hsequence⟩
  . rintro ⟨hsamples, hbins, hsequence⟩
    constructor
    . exact ⟨u64_valid _, u32_valid _, u32_valid _, u32_valid _, hsamples, hbins,
        u32_exactly_valid _, u32_exactly_valid _⟩
    . rcases frame with ⟨⟨rate, samples, sequence⟩, ⟨startHz, spanHz, bins, _⟩⟩
      cases hsequence
      rfl

theorem decodeSpectrumPayload_eq_some_iff {payload : List UInt8} {frame : SpectrumFrame}
    : decodeSpectrumPayload payload = some frame ↔
      frame.bins.length < 2 ^ 32 ∧ ∃ extra, payload = encodeSpectrumPayload frame ++ extra := by
  rw [decodeSpectrumPayload_eq, List.drop_zero, encodeSpectrumPayload_eq, ← spectrum_valid_iff]
  simp [spectrum.decode_eq_some_iff]

theorem decodeAudioPayload_eq_some_iff {payload : List UInt8} {frame : AudioFrame}
    : decodeAudioPayload payload = some frame ↔
      (frame.scope.samples.length < 2 ^ 32 ∧ frame.spectrum.bins.length < 2 ^ 32 ∧
        frame.scope.sequence = frame.spectrum.sequence) ∧
      ∃ extra, payload = encodeAudioPayload frame ++ extra := by
  rw [decodeAudioPayload_eq, List.drop_zero, encodeAudioPayload_eq, ← audio_valid_iff]
  simp [audio.decode_eq_some_iff]

/-- Both payloads survive the way over the wire, and none of their parts passes for a whole. Bytes
behind a payload are not looked at. -/
theorem signal_payloads
    : (∀ frame : SpectrumFrame, frame.bins.length < 2 ^ 32 →
        decodeSpectrumPayload (encodeSpectrumPayload frame) = some frame ∧
        ∀ part missing, encodeSpectrumPayload frame = part ++ missing → missing ≠ [] →
          decodeSpectrumPayload part = none) ∧
      (∀ frame : AudioFrame, frame.scope.samples.length < 2 ^ 32 →
        frame.spectrum.bins.length < 2 ^ 32 → frame.scope.sequence = frame.spectrum.sequence →
        decodeAudioPayload (encodeAudioPayload frame) = some frame ∧
        ∀ part missing, encodeAudioPayload frame = part ++ missing → missing ≠ [] →
          decodeAudioPayload part = none) ∧
      (∀ payload frame, decodeSpectrumPayload payload = some frame ↔
        frame.bins.length < 2 ^ 32 ∧ ∃ extra, payload = encodeSpectrumPayload frame ++ extra) ∧
      (∀ payload frame, decodeAudioPayload payload = some frame ↔
        (frame.scope.samples.length < 2 ^ 32 ∧ frame.spectrum.bins.length < 2 ^ 32 ∧
          frame.scope.sequence = frame.spectrum.sequence) ∧
        ∃ extra, payload = encodeAudioPayload frame ++ extra) := by
  refine ⟨?_, ?_, ?_, ?_⟩
  . intro frame hbins
    constructor
    . rw [decodeSpectrumPayload_eq_some_iff]
      exact ⟨hbins, [], by rw [List.append_nil]⟩
    . intro part missing hpart hmissing
      rw [encodeSpectrumPayload_eq] at hpart
      rw [← spectrum_valid_iff] at hbins
      rw [decodeSpectrumPayload_eq, List.drop_zero, spectrum.decode_part hbins hpart hmissing]
      rfl
  . intro frame hsamples hbins hsequence
    constructor
    . rw [decodeAudioPayload_eq_some_iff]
      exact ⟨⟨hsamples, hbins, hsequence⟩, [], by rw [List.append_nil]⟩
    . intro part missing hpart hmissing
      have hvalid := (audio_valid_iff frame).2 ⟨hsamples, hbins, hsequence⟩
      rw [encodeAudioPayload_eq] at hpart
      rw [decodeAudioPayload_eq, List.drop_zero, audio.decode_part hvalid hpart hmissing]
      rfl
  . intro payload frame
    apply decodeSpectrumPayload_eq_some_iff
  . intro payload frame
    apply decodeAudioPayload_eq_some_iff

theorem signal_payloads_frames
    : (∃ frame : SpectrumFrame, frame.bins = [7, 9] ∧
        decodeSpectrumPayload (encodeSpectrumPayload frame) = some frame ∧
        decodeSpectrumPayload ((encodeSpectrumPayload frame).take 30) = none) ∧
      (∃ frame : AudioFrame, frame.scope.samples = [1, 2, 3] ∧ frame.spectrum.bins = [4] ∧
        decodeAudioPayload (encodeAudioPayload frame) = some frame ∧
        decodeAudioPayload ((encodeAudioPayload frame).take 40) = none) := by
  constructor
  . have hframe := signal_payloads.1 ⟨14074000, 96000, 5, [7, 9], 1⟩ (by decide)
    exact ⟨_, rfl, hframe.1, hframe.2 _ _ (List.take_append_drop 30 _).symm (by decide)⟩
  . have hframe := signal_payloads.2.1 ⟨⟨8000, [1, 2, 3], 6⟩, ⟨0, 3000, [4], 6⟩⟩ (by decide)
      (by decide) rfl
    exact ⟨_, rfl, rfl, hframe.1, hframe.2 _ _ (List.take_append_drop 40 _).symm (by decide)⟩

theorem signal_payloads_trailing
    : (∃ payload frame, decodeSpectrumPayload payload = some frame ∧
        payload ≠ encodeSpectrumPayload frame) ∧
      (∃ payload frame, decodeAudioPayload payload = some frame ∧
        payload ≠ encodeAudioPayload frame) := by
  constructor
  . refine ⟨List.replicate 29 0, ⟨0, 0, 0, [], 0⟩, ?_, ?_⟩
    . decide
    . decide
  . refine ⟨List.replicate 29 0, ⟨⟨0, [], 0⟩, ⟨0, 0, [], 0⟩⟩, ?_, ?_⟩
    . decide
    . decide

end Native
