import RadioCat.Morse.Classifier

/-!
This module contains the tone detector with its envelope, and the search for a pitch. Samples are of
a narrow format `S`, and the measurements of a wide one `R`. Samples and measurements are kept in
lists, and a position that no list has reads as zero.
-/

namespace Morse

open Arith
open scoped Arith.FloatOps

section goertzel

variable {S R : Type} [FloatOps S] [FloatOps R] [FloatCast S R]

/-- The recurrence over one window: the last two of its terms. -/
def goertzel (coeff : R) (xs : List R) : R × R :=
  xs.foldl (fun (s1, s2) x => (x + coeff * s1 - s2, s1)) (0.0, 0.0)

def angle (sampleRate : Nat) (freqHz : S) : R :=
  2.0 * FloatOps.pi * FloatCast.widen freqHz / FloatOps.ofNat sampleRate

variable (R) in
def goertzelPower (samples : List S) (sampleRate : Nat) (freqHz : S) : S :=
  let n := samples.length
  if n = 0 ∨ sampleRate = 0 then
    0.0
  else
    let coeff : R := 2.0 * FloatOps.cos (angle sampleRate freqHz)
    let (s1, s2) := goertzel coeff (samples.map FloatCast.widen)
    let mag2 := s1 * s1 + s2 * s2 - coeff * s1 * s2
    FloatCast.narrow (2.0 * mag2 / (FloatOps.ofNat n * FloatOps.ofNat n))

structure GoertzelBin (R : Type) where
  coeff : R
  scale : R
  weights : List R

namespace GoertzelBin

def new (sampleRate : Nat) (freqHz : S) (len : Nat) : GoertzelBin R :=
  let weights := (List.range len).map fun i =>
    0.5 - 0.5 * FloatOps.cos (2.0 * FloatOps.pi * (FloatOps.ofNat i + 0.5) / FloatOps.ofNat len)
  let sum := FloatOps.sum weights
  { coeff := 2.0 * FloatOps.cos (angle sampleRate freqHz)
    scale := 2.0 / max (sum * sum) 1e-30
    weights }

def power (bin : GoertzelBin R) (a b : List S) : R :=
  let xs := ((a ++ b).zip bin.weights).map fun (x, w) => FloatCast.widen x * w
  let (s1, s2) := goertzel bin.coeff xs
  (s1 * s1 + s2 * s2 - bin.coeff * s1 * s2) * bin.scale

end GoertzelBin

end goertzel

inductive PitchMode (S : Type) where
  | fixed (pitch : S)
  | auto (minHz maxHz : S)

/-- The times are in nanoseconds. -/
structure DecoderConfig (S R : Type) where
  sampleRate : Nat
  pitch : PitchMode S
  hop : Nat
  window : Option Nat
  onThreshold : S
  offThreshold : S
  initialWpm : R
  squelchDb : S
  minLevelDbfs : S
  style : DecodeStyle

structure Detector (S R : Type) where
  sampleRate : R
  pitch : S
  fixedWindow : Option Nat
  len : Nat
  bin : GoertzelBin R
  ring : List S
  pos : Nat
  filled : Nat
  hop : Nat
  sinceHop : Nat
  samples : Nat
  amps : List R
  floorTick : Nat
  floor : R
  peak : R
  peakDecay : R
  warmup : Option (List (R × R))
  warmupHops : Nat
  markPeaks : List R
  lastMarkPeak : R
  on : Bool
  pending : Nat
  pendingT : R
  markStartRaw : R
  lastEnd : Option R
  hist : List (R × R)

section detector

variable {S R : Type} [FloatOps S] [FloatOps R] [FloatCast S R]

/-- The middle one of the sorted numbers. -/
def median (v : List R) : R :=
  (FloatOps.sort v).getD (v.length / 2) 0.0

namespace Detector

def setWindowFor (det : Detector S R) (dit : R) (sampleRate : Nat) : Detector S R :=
  let len := det.fixedWindow.getD
    (FloatOps.toNat (FloatOps.round (FloatOps.clamp (0.5 * dit) 0.008 0.040 * det.sampleRate)))
  let len := max 1 (min len det.ring.length)
  if det.len = 0 ∨ 0.15 * FloatOps.ofNat det.len <
      FloatOps.abs (FloatOps.ofNat len - FloatOps.ofNat det.len : R) then
    { det with len, bin := .new sampleRate det.pitch len }
  else
    det

def new (cfg : DecoderConfig S R) (pitch : S) (dit : R) : Detector S R :=
  let sr : R := FloatOps.ofNat cfg.sampleRate
  let hop := FloatOps.toNat (max (FloatOps.round (FloatOps.secs cfg.hop * sr)) 1.0)
  let longest : R := max 0.040 ((cfg.window.map FloatOps.secs).getD 0.0)
  let hopS : R := FloatOps.ofNat hop / sr
  let det : Detector S R :=
    { sampleRate := sr
      pitch
      fixedWindow := cfg.window.map fun w =>
        FloatOps.toNat (max (FloatOps.round (FloatOps.secs w * sr)) 1.0)
      len := 0
      bin := .new cfg.sampleRate pitch 1
      ring := List.replicate (FloatOps.toNat (FloatOps.ceil (longest * sr)) + 1) 0.0
      pos := 0
      filled := 0
      hop
      sinceHop := 0
      samples := 0
      amps := []
      floorTick := 0
      floor := 0.0
      peak := 0.0
      peakDecay := FloatOps.powf 10.0 (-6.0 * hopS / 20.0)
      warmup := some []
      warmupHops := max (FloatOps.toNat (FloatOps.ceil (0.3 / hopS))) 1
      markPeaks := []
      lastMarkPeak := 0.0
      on := false
      pending := 0
      pendingT := 0.0
      markStartRaw := 0.0
      lastEnd := none
      hist := [] }
  det.setWindowFor dit cfg.sampleRate

def amplitude (det : Detector S R) : R :=
  let n := det.len
  let cap := det.ring.length
  let start := (det.pos + cap - n) % cap
  let p :=
    if start + n ≤ cap then
      det.bin.power ((det.ring.drop start).take n) []
    else
      det.bin.power (det.ring.drop start) (det.ring.take ((start + n) % cap))
  FloatOps.sqrt (2.0 * p)

/-- One sample. The time and the amplitude come at each hop, once a full window has been heard. -/
def push (det : Detector S R) (x : S) : Option (R × R) × Detector S R :=
  let cap := det.ring.length
  let det :=
    { det with
      ring := det.ring.set det.pos x
      pos := (det.pos + 1) % cap
      filled := min (det.filled + 1) cap
      samples := det.samples + 1
      sinceHop := det.sinceHop + 1 }
  if det.sinceHop < det.hop then
    (none, det)
  else
    let det := { det with sinceHop := 0 }
    if det.filled < det.len then
      (none, det)
    else
      let t := (FloatOps.ofNat det.samples - FloatOps.ofNat det.len / 2.0) / det.sampleRate
      (some (t, det.amplitude), det)

def learnFloor (det : Detector S R) (amp : R) : Detector S R :=
  let amps := (if det.amps.length = 500 then det.amps.drop 1 else det.amps) ++ [amp]
  let floorTick := (det.floorTick + 1) % 2 ^ 32
  if amps.length > 64 ∧ floorTick % 4 ≠ 0 then
    { det with amps, floorTick }
  else
    { det with amps, floorTick, floor := FloatOps.select amps (amps.length / 10) / 0.366 }

def refPeak (det : Detector S R) : R :=
  if det.markPeaks.length ≥ 3 then min det.peak (median det.markPeaks) else det.peak

def remember (det : Detector S R) (t amp : R) : Detector S R :=
  { det with hist := (if det.hist.length = 512 then det.hist.drop 1 else det.hist) ++ [(t, amp)] }

/-- Where a line through two points reaches a level. -/
def lerp (level : R) (p0 p1 : R × R) : R :=
  if FloatOps.abs (p1.2 - p0.2) < 1e-30 then
    p1.1
  else
    p0.1 + (level - p0.2) / (p1.2 - p0.2) * (p1.1 - p0.1)

/-- The position of the last item that passes. -/
def rposition {α : Type} (p : α → Bool) (l : List α) : Option Nat :=
  (l.reverse.findIdx? p).map fun i => l.length - 1 - i

/-- The start and the end of the mark, timed again by its own peak. -/
def closeMark (det : Detector S R) (endRaw : R) : (R × R) × Detector S R :=
  let hop := FloatOps.ofNat det.hop / det.sampleRate
  let window := FloatOps.ofNat det.len / det.sampleRate
  let startRaw := det.markStartRaw
  let peak := ((det.hist.filter fun p => startRaw ≤ p.1 ∧ p.1 ≤ endRaw).map Prod.snd).foldl max 0.0
  let floor := max det.floor (peak * 0.01)
  let level := floor + 0.5 * (peak - floor)
  let pts := det.hist.filter fun p => startRaw - window - 2.0 * hop ≤ p.1 ∧ p.1 ≤ endRaw + hop
  let point (i : Nat) : R × R := pts.getD i (0.0, 0.0)
  let start :=
    match pts.findIdx? fun p => level ≤ p.2 with
    | some i => if i > 0 then lerp level (point (i - 1)) (point i) else (point i).1
    | none => startRaw
  let stop :=
    match rposition (fun p => level ≤ p.2 ∧ p.1 < endRaw) pts with
    | some i => if i + 1 < pts.length then lerp level (point i) (point (i + 1)) else endRaw
    | none => endRaw
  let edges := if stop ≤ start then (startRaw, endRaw) else (start, stop)
  (edges, { det with lastMarkPeak := peak })

end Detector

end detector

/-- The state of the search for a pitch. The candidates are the bins from the first number up to,
but without, the second one. -/
structure AutoPitch (S R : Type) where
  freqs : List S
  candidates : Nat × Nat
  block : List S
  blockLen : Nat
  smoothed : List R
  buffer : List S
  bufferCap : Nat

namespace AutoPitch

variable {S R : Type} [FloatOps S] [FloatOps R] [FloatCast S R]

/-- The loop that lays out the bins, with the first and the last one inside the range. -/
def layOut (lo hi minHz maxHz : S) (fuel : Nat) (freqs : List S) (first : Option Nat) (last : Nat)
    : Option (List S × Option Nat × Nat) :=
  match fuel with
  | 0 => none
  | fuel + 1 =>
    let f := lo + 10.0 * FloatOps.ofNat freqs.length
    if hi < f then
      some (freqs, first, last)
    else if minHz - 0.01 ≤ f ∧ f ≤ maxHz + 0.01 then
      layOut lo hi minHz maxHz fuel (freqs ++ [f]) (first.or (some freqs.length)) freqs.length
    else
      layOut lo hi minHz maxHz fuel (freqs ++ [f]) first last

def new (fuel sampleRate : Nat) (minHz maxHz : S) : Option (AutoPitch S R) := do
  let nyquist : S := FloatOps.ofNat sampleRate / 2.0
  let lo := max (minHz - 100.0) (100.0 / 2.0)
  let hi := min (maxHz + 100.0) (nyquist - 100.0 / 2.0)
  let (freqs, first, last) ← layOut lo hi minHz maxHz fuel [] none 0
  return {
    freqs
    candidates := (first.getD 0, last + 1)
    block := []
    blockLen := FloatOps.toNat (FloatOps.round (0.1 * FloatOps.ofNat sampleRate : R))
    smoothed := List.replicate freqs.length 0.0
    buffer := []
    bufferCap := FloatOps.toNat (2.0 * FloatOps.ofNat sampleRate : R) }

/-- The last of the greatest. -/
def strongest (smoothed : List R) : List Nat → Option Nat
  | [] => none
  | i :: is => some (is.foldl (fun a b =>
      if FloatOps.cmp (smoothed.getD a 0.0) (smoothed.getD b 0.0) = .gt then a else b) i)

/-- The pitch of the strongest tone in range, if it stands out from the band. -/
def pitch (freqs : List S) (candidates : Nat × Nat) (smoothed : List R) : Option S := do
  let best ← strongest smoothed
    (List.range' candidates.1 (candidates.2 - candidates.1))
  let power (i : Nat) : R := smoothed.getD i 0.0
  let band := (smoothed.zipIdx.filter fun (_, i) =>
    3 < max i best - min i best).map Prod.fst
  guard (!band.isEmpty)
  let reference := max ((FloatOps.sort band).getD (band.length / 2) 0.0) 1e-30
  guard (¬ 10.0 * FloatOps.log10 (power best / reference) < 15.0)
  let f := freqs.getD best 0.0
  if best = 0 ∨ best + 1 = freqs.length then
    return f
  else
    let l := FloatOps.ln (max (power (best - 1)) 1e-30)
    let c := FloatOps.ln (max (power best) 1e-30)
    let r := FloatOps.ln (max (power (best + 1)) 1e-30)
    let denom := l - 2.0 * c + r
    let delta :=
      if 1e-12 < FloatOps.abs denom then
        FloatOps.clamp (0.5 * (l - r) / denom) (-0.5) 0.5
      else
        0.0
    return f + FloatCast.narrow delta * 10.0

/-- The buffer keeps the last samples. -/
def keep (auto : AutoPitch S R) (x : S) : AutoPitch S R :=
  { auto with
    buffer :=
      (if auto.buffer.length = auto.bufferCap then auto.buffer.drop 1 else auto.buffer) ++ [x]
    block := auto.block ++ [x] }

def feed (auto : AutoPitch S R) (sampleRate : Nat) (x : S) : Option S × AutoPitch S R :=
  let auto := auto.keep x
  if auto.block.length < auto.blockLen then
    (none, auto)
  else
    let smoothed := List.zipWith (fun s f =>
      max (FloatCast.widen (goertzelPower R auto.block sampleRate f)) (0.7 * s))
      auto.smoothed auto.freqs
    (pitch auto.freqs auto.candidates smoothed, { auto with smoothed, block := [] })

end AutoPitch

end Morse
