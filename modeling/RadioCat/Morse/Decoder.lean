import RadioCat.Morse.Detector

/-!
This module contains the streaming decoder: samples and flushes in, decoded text out. Between a
detector and the classifier stand the warm-up, whose hops are replayed, and the lock on a pitch,
before which samples are kept to be replayed.
-/

namespace Morse

open Arith Trace
open scoped Arith.FloatOps

inductive DecoderError (S : Type) where
  | zeroSampleRate
  | pitchOutOfRange (pitch : S)
  | invalidConfig (setting : String)

section validate

variable {S R : Type} [FloatOps S] [FloatOps R]

def DecoderConfig.pitchOk (cfg : DecoderConfig S R) (f : S) : Bool :=
  FloatOps.isFinite f && decide ((100.0 : S) ≤ f) &&
    decide (f ≤ FloatOps.ofNat cfg.sampleRate / 2.0 - 100.0)

def thresholdOk (x : S) : Bool :=
  FloatOps.isFinite x && decide ((0.0 : S) < x) && decide (x < 1.0)

def DecoderConfig.validatePitch (cfg : DecoderConfig S R) : Except (DecoderError S) Unit :=
  match cfg.pitch with
  | .fixed f => if cfg.pitchOk f then .ok () else .error (.pitchOutOfRange f)
  | .auto minHz maxHz =>
    if !cfg.pitchOk minHz then
      .error (.pitchOutOfRange minHz)
    else if !cfg.pitchOk maxHz then
      .error (.pitchOutOfRange maxHz)
    else if maxHz < minHz + 20.0 then
      .error (.invalidConfig "auto pitch range must span at least 20 Hz")
    else
      .ok ()

def DecoderConfig.validate (cfg : DecoderConfig S R) : Except (DecoderError S) Unit := do
  if cfg.sampleRate = 0 then
    throw .zeroSampleRate
  cfg.validatePitch
  if FloatOps.secs cfg.hop * FloatOps.ofNat cfg.sampleRate < (1.0 : R) ∨ cfg.hop > 20000000 then
    throw (.invalidConfig "hop must be at least one sample and at most 20 ms")
  if cfg.window.any fun w => w < cfg.hop ∨ w > 200000000 then
    throw (.invalidConfig "window must be in [hop, 200 ms]")
  if !thresholdOk cfg.onThreshold ∨ !thresholdOk cfg.offThreshold ∨
      cfg.onThreshold < cfg.offThreshold then
    throw (.invalidConfig "thresholds must satisfy 0 < off ≤ on < 1")
  if ¬ (FloatOps.isFinite cfg.initialWpm ∧ 3.0 ≤ cfg.initialWpm ∧ cfg.initialWpm ≤ 80.0) then
    throw (.invalidConfig "initial_wpm must be in [3, 80]")
  if ¬ (FloatOps.isFinite cfg.minLevelDbfs ∧ cfg.minLevelDbfs ≤ 0.0) then
    throw (.invalidConfig "min_level_dbfs must be ≤ 0")
  if ¬ (FloatOps.isFinite cfg.squelchDb ∧ 0.0 ≤ cfg.squelchDb) then
    throw (.invalidConfig "squelch_db must be ≥ 0")

end validate

/-- A detector with the classifier that it feeds. -/
structure Receiver (S R : Type) where
  det : Detector S R
  cls : Classifier R
  lastActivity : Nat

def Receiver.withDet {S R : Type} (rx : Receiver S R) (det : Detector S R) : Receiver S R :=
  { rx with det }

namespace Receiver

variable {S R : Type} [FloatOps S] [FloatOps R] [FloatCast S R]
variable (cfg : DecoderConfig S R) (squelch minLevel : R) (total : Nat)

/-- The gap before a mark, if there was a mark before. -/
def gapBefore (cls : Classifier R) : Option R → List Decoded × Classifier R
  | some gap => cls.gapEnded gap
  | none => ([], cls)

/-- The rest of `markHeard`, for a mark that is neither a blip nor a crash. -/
def keepMark (rx : Receiver S R) (start stop : R) : List Decoded × Receiver S R :=
  let len := stop - start
  let markPeaks :=
    (if rx.det.markPeaks.length = 5 then rx.det.markPeaks.drop 1 else rx.det.markPeaks) ++
      [rx.det.lastMarkPeak]
  let gap := rx.det.lastEnd.map fun e => max (start - e) 0.0
  let det := { rx.det with markPeaks, lastEnd := some stop }
  andThen (gapBefore rx.cls gap) fun cls =>
    let (out, element, cls) := cls.mark len
    (out, { rx with
      det := if element then det.setWindowFor cls.dit cfg.sampleRate else det
      cls })

def markHeard (rx : Receiver S R) (edges : R × R) : List Decoded × Receiver S R :=
  let len := edges.2 - edges.1
  if len < 0.3 * rx.cls.dit then
    ([], rx)
  else if rx.det.markPeaks.length ≥ 3 ∧ len < rx.cls.dit ∧
      3.0 * median rx.det.markPeaks < rx.det.lastMarkPeak then
    ([], rx)
  else
    rx.keepMark cfg edges.1 edges.2

def markEnded (rx : Receiver S R) : Option (R × R) → List Decoded × Receiver S R
  | some edges => rx.markHeard cfg edges
  | none => ([], rx)

/-- While the key is up, the gap since the last mark is running. -/
def gapSince (rx : Receiver S R) (on : Bool) (t : R) : List Decoded × Receiver S R :=
  match on, rx.det.lastEnd with
  | false, some stop => andThen (rx.cls.gapRunning (t - stop)) fun cls => ([], { rx with cls })
  | _, _ => ([], rx)

/-- The state of the key as it appears at one hop, before the debounce. -/
def rawOn (det : Detector S R) (amp : R) : Bool :=
  let peak := det.refPeak
  let floor := max (max det.floor (peak * 0.01)) (minLevel / squelch)
  let span := max (peak - floor) 0.0
  let onLevel := max (floor + FloatCast.widen cfg.onThreshold * span) (floor * squelch)
  let offLevel := max (floor + FloatCast.widen cfg.offThreshold * span) (floor * squelch * 0.7)
  let threshold := if det.on then offLevel else onLevel
  decide (floor * squelch < peak) && decide (threshold < amp)

/-- A change of the key is taken once it has held for a number of hops. At the end of a mark its
edges come out. -/
def debounce (det : Detector S R) (raw : Bool) (t : R) (need : Nat)
    : Option (R × R) × Detector S R :=
  if raw ≠ det.on then
    let det := if det.pending = 0 then { det with pendingT := t } else det
    let det := { det with pending := det.pending + 1 }
    if det.pending ≥ need then
      let det := { det with on := raw, pending := 0 }
      if raw then
        (none, { det with markStartRaw := det.pendingT })
      else
        let (edges, det) := det.closeMark det.pendingT
        (some edges, det)
    else
      (none, det)
  else
    (none, { det with pending := 0 })

def hop : Transducer (Receiver S R) (R × R) Decoded := fun rx (t, amp) =>
  let peak := if rx.det.peak < amp then amp else max (rx.det.peak * rx.det.peakDecay) rx.det.floor
  let det := { rx.det with peak }
  let raw := rawOn cfg squelch minLevel det amp
  let det := det.remember t amp
  let hopS := FloatOps.ofNat det.hop / det.sampleRate
  let need := max (FloatOps.toNat (FloatOps.round (0.2 * rx.cls.dit / hopS))) 1
  let debounced := debounce det raw t need
  let on := debounced.2.on
  let rx := { rx with lastActivity := if on then total else rx.lastActivity }
  -- The end of a mark moves the end that the gap is counted from.
  andThen ((rx.withDet debounced.2).markEnded cfg debounced.1) fun rx => rx.gapSince on t

def finishWarmup (rx : Receiver S R) : List Decoded × Receiver S R :=
  match rx.det.warmup with
  | none => ([], rx)
  | some buffered =>
    (hop cfg squelch minLevel total).run (rx.withDet { rx.det with warmup := none }) buffered

/-- A hop during the warm-up is learned from and kept. -/
def warmUp (rx : Receiver S R) (buf : List (R × R)) (t amp : R) : List Decoded × Receiver S R :=
  let det := { rx.det with warmup := some (buf ++ [(t, amp)]), peak := max rx.det.peak amp }
  let rx := rx.withDet (det.learnFloor amp)
  if buf.length + 1 ≥ det.warmupHops then
    rx.finishWarmup cfg squelch minLevel total
  else
    ([], rx)

def step : Transducer (Receiver S R) S Decoded := fun rx x =>
  match rx.det.push x with
  | (none, det) => ([], rx.withDet det)
  | (some (t, amp), det) =>
    match det.warmup with
    | some buf => (rx.withDet det).warmUp cfg squelch minLevel total buf t amp
    | none =>
      let det := if det.on then det else det.learnFloor amp
      hop cfg squelch minLevel total (rx.withDet det) (t, amp)

/-- A mark that is still on is closed. -/
def closeOpen (rx : Receiver S R) : List Decoded × Receiver S R :=
  if rx.det.on then
    let det := { rx.det with on := false }
    let closed := det.closeMark (FloatOps.ofNat det.samples / det.sampleRate)
    (rx.withDet closed.2).markHeard cfg closed.1
  else
    ([], rx)

def flush (rx : Receiver S R) : List Decoded × Receiver S R :=
  andThen (rx.finishWarmup cfg squelch minLevel total) fun rx =>
    andThen (rx.closeOpen cfg) fun rx =>
      andThen rx.cls.flushChar fun cls => ([], { rx with cls })

end Receiver

/-- The detector and the search for a pitch. A decoder without a search has a detector. -/
inductive Tuning (S R : Type) where
  | fixed (det : Detector S R)
  | searching (auto : AutoPitch S R)
  | locked (auto : AutoPitch S R) (det : Detector S R)

namespace Tuning

variable {S R : Type}

def det? : Tuning S R → Option (Detector S R)
  | fixed det => some det
  | searching _ => none
  | locked _ det => some det

def auto? : Tuning S R → Option (AutoPitch S R)
  | fixed _ => none
  | searching auto => some auto
  | locked auto _ => some auto

def withDet : Tuning S R → Detector S R → Tuning S R
  | fixed _, det => fixed det
  | searching auto, det => locked auto det
  | locked auto _, det => locked auto det

end Tuning

structure Decoder (S R : Type) where
  cfg : DecoderConfig S R
  tuning : Tuning S R
  cls : Classifier R
  squelch : R
  minLevel : R
  total : Nat
  lastActivity : Nat

namespace Decoder

variable {S R : Type} [FloatOps S] [FloatOps R] [FloatCast S R]

/-- The loop that lays out the bins of the search takes fuel, and none is a loop that takes more. -/
def new (fuel : Nat) (cfg : DecoderConfig S R)
    : Except (DecoderError S) (Option (Decoder S R)) := do
  cfg.validate
  let cls := Classifier.new cfg.initialWpm cfg.style
  let tuning : Option (Tuning S R) :=
    match cfg.pitch with
    | .fixed p => some (.fixed (.new cfg p cls.dit))
    | .auto minHz maxHz => (AutoPitch.new fuel cfg.sampleRate minHz maxHz).map .searching
  return tuning.map fun tuning =>
    { cfg
      tuning
      cls
      squelch := FloatOps.powf 10.0 (FloatCast.widen cfg.squelchDb / 20.0)
      minLevel := FloatOps.powf 10.0 (FloatCast.widen cfg.minLevelDbfs / 20.0)
      total := 0
      lastActivity := 0 }

def putBack (d : Decoder S R) (rx : Receiver S R) : Decoder S R :=
  { d with tuning := d.tuning.withDet rx.det, cls := rx.cls, lastActivity := rx.lastActivity }

def steps (d : Decoder S R) (det : Detector S R) (xs : List S) : List Decoded × Decoder S R :=
  andThen ((Receiver.step d.cfg d.squelch d.minLevel d.total).run ⟨det, d.cls, d.lastActivity⟩ xs)
    fun rx => ([], d.putBack rx)

/-- What is left of a station that is given up: the end of its text, and the speed forgotten. -/
def finishStation (d : Decoder S R) : List Decoded × Classifier R :=
  match d.tuning.det? with
  | some _ =>
    andThen (andThen d.cls.flushChar Classifier.wordSpace) fun cls =>
      ([], cls.forgetTiming d.cfg.initialWpm)
  | none => ([], d.cls)

/-- The buffered audio is replayed through a new detector. -/
def lockOn (d : Decoder S R) (auto : AutoPitch S R) (pitch : S) : List Decoded × Decoder S R :=
  andThen d.finishStation fun cls =>
    let d := { d with cls }
    andThen (d.steps (.new d.cfg pitch cls.dit) auto.buffer) fun d =>
      ([], { d with lastActivity := d.total })

/-- A sample that is not a number, or far out of range, is replaced. -/
def clean (x : S) : S :=
  if FloatOps.isFinite x then FloatOps.clamp x (-4.0) 4.0 else 0.0

def reacquire (d : Decoder S R) : Nat :=
  FloatOps.toNat (2.0 * FloatOps.ofNat d.cfg.sampleRate : R)

/-- The pitch that the decoder gives up the one it is locked on for. -/
def relock (d : Decoder S R) (det : Detector S R) (lock : Option S) : Option S :=
  lock.filter fun p =>
    decide (30.0 ≤ FloatOps.abs (p - det.pitch)) && !det.on &&
      decide (d.total - d.lastActivity > d.reacquire)

inductive Move (S R : Type) where
  | wait
  | lock (auto : AutoPitch S R) (pitch : S)
  | step (det : Detector S R)

/-- The search hears every sample, also while a detector is locked on. -/
def hear (d : Decoder S R) (x : S) : Move S R × Decoder S R :=
  let d := { d with total := d.total + 1 }
  match d.tuning with
  | .fixed det => (.step det, d)
  | .searching auto =>
    let heard := auto.feed d.cfg.sampleRate x
    let d := { d with tuning := .searching heard.2 }
    match heard.1 with
    | some p => (.lock heard.2 p, d)
    | none => (.wait, d)
  | .locked auto det =>
    let heard := auto.feed d.cfg.sampleRate x
    let d := { d with tuning := .locked heard.2 det }
    match d.relock det heard.1 with
    | some p => (.lock heard.2 p, d)
    | none => (.step det, d)

def Move.handed (x : S) : Move S R → List S
  | .wait => []
  | .lock auto _ => auto.buffer
  | .step _ => [x]

def move (d : Decoder S R) (x : S) : Move S R → List Decoded × Decoder S R
  | .wait => ([], d)
  | .lock auto pitch => d.lockOn auto pitch
  | .step det => d.steps det [x]

def feedSample : Transducer (Decoder S R) S Decoded := fun d x =>
  let heard := d.hear (clean x)
  heard.2.move (clean x) heard.1

def feed (d : Decoder S R) (samples : List S) : List Decoded × Decoder S R :=
  feedSample.run d samples

def flush (d : Decoder S R) : List Decoded × Decoder S R :=
  match d.tuning.det? with
  | some det =>
    andThen (({ det, cls := d.cls, lastActivity := d.lastActivity } : Receiver S R).flush
      d.cfg d.squelch d.minLevel d.total) fun rx => ([], d.putBack rx)
  | none => andThen d.cls.flushChar fun cls => ([], { d with cls })

/-! The calls that a user of the decoder makes, and the stream that they amount to. -/

inductive Call (S : Type) where
  | feed (samples : List S)
  | flush

inductive Event (S : Type) where
  | sample (x : S)
  | flush

def Call.events : Call S → List (Event S)
  | .feed samples => samples.map .sample
  | .flush => [.flush]

def call : Transducer (Decoder S R) (Call S) Decoded := fun d c =>
  match c with
  | .feed samples => d.feed samples
  | .flush => d.flush

def event : Transducer (Decoder S R) (Event S) Decoded := fun d e =>
  match e with
  | .sample x => feedSample d x
  | .flush => d.flush

end Decoder

end Morse
