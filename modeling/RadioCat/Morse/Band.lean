import RadioCat.Arith.Float
import RadioCat.Morse.Keying

/-!
This module contains the band that an over is copied through: noise, fading, crashes and an
interfering station, drawn at random and wrapped around the signals of the over.
-/

namespace Morse

open Arith

structure Qsb where
  depthDb : F32
  period : Nat
  deriving DecidableEq, Repr

structure Qrn where
  crashesPerSec : F32
  levelDb : F32
  decay : Nat
  deriving DecidableEq, Repr

structure RxFilter where
  centerHz : F32
  bandwidthHz : F32
  deriving DecidableEq, Repr

def defaultRise : Nat := 5000000

structure Signal where
  keying : Keying
  start : Nat
  pitchHz : F32
  levelDb : F32
  qsb : Option Qsb
  rise : Nat
  deriving DecidableEq, Repr

def Signal.effectiveStart (s : Signal) : Nat :=
  max s.start (s.rise / 2)

def Signal.endsAt (s : Signal) : Nat :=
  s.effectiveStart + s.keying.total + s.rise / 2

def latestEnd (signals : List Signal) : Nat :=
  (signals.map Signal.endsAt).max?.getD 0

/-- The noise is given by its level over 500 Hz. The gain is one. -/
structure Channel where
  sampleRate : Nat
  signals : List Signal
  noise : Option F32
  qrn : Option Qrn
  filter : Option RxFilter
  padding : Nat
  seed : Nat
  deriving DecidableEq, Repr

def Channel.duration (ch : Channel) : Nat :=
  latestEnd ch.signals + ch.padding

structure QsbOdds where
  chance : F64
  depthDb : F32 × F32
  periodS : F32 × F32
  deriving DecidableEq, Repr

structure QrnOdds where
  chance : F64
  crashesPerSec : F32 × F32
  levelDb : F32 × F32
  decayMs : Nat × Nat
  deriving DecidableEq, Repr

structure QrmOdds where
  chance : F64
  offsetHz : F32 × F32
  levelDb : F32 × F32
  deriving DecidableEq, Repr

structure BandConditions where
  snrDb : Option (F32 × F32)
  qsb : Option QsbOdds
  qrn : Option QrnOdds
  qrm : Option QrmOdds
  rxBandwidthHz : Option F32
  deriving DecidableEq, Repr

inductive ScenarioError where
  | invalidSetting (why : String)
  | unencodable (text : String)
  deriving DecidableEq, Repr

namespace BandConditions

def range (r : F32 × F32) : Bool :=
  r.1.isFinite && r.2.isFinite && r.1.le r.2

def chanceOk (p : F64) : Bool :=
  F64.le ⟨0⟩ p && p.le ⟨0x3FF0000000000000⟩

def negative (x : F32) : Bool :=
  x.partialCmp ⟨0⟩ = some .lt

def positive (x : F32) : Bool :=
  x.partialCmp ⟨0⟩ = some .gt

def validateQsb (q : QsbOdds) : Except ScenarioError Unit :=
  if !chanceOk q.chance || !range q.depthDb || negative q.depthDb.1 then
    .error (.invalidSetting "QSB needs a chance in [0, 1] and a depth range ≥ 0")
  else if !range q.periodS || !positive q.periodS.1 then
    .error (.invalidSetting "QSB period range must be > 0")
  else
    .ok ()

def validateQrn (q : QrnOdds) : Except ScenarioError Unit :=
  if !chanceOk q.chance || !range q.crashesPerSec || negative q.crashesPerSec.1 then
    .error (.invalidSetting "QRN needs a chance in [0, 1] and a rate range ≥ 0")
  else if !range q.levelDb || q.decayMs.1 = 0 || q.decayMs.1 > q.decayMs.2 then
    .error (.invalidSetting "QRN needs a level range and a decay range > 0 ms")
  else
    .ok ()

def validateQrm (q : QrmOdds) : Except ScenarioError Unit :=
  if !chanceOk q.chance || !range q.offsetHz || negative q.offsetHz.1 || !range q.levelDb then
    .error (.invalidSetting
      "QRM needs a chance in [0, 1], an offset range ≥ 0 and a level range")
  else
    .ok ()

def validate (band : BandConditions) : Except ScenarioError Unit := do
  if let some r := band.snrDb then
    if !range r then
      throw (.invalidSetting "SNR range must be finite with lo ≤ hi")
  if let some q := band.qsb then
    validateQsb q
  if let some q := band.qrn then
    validateQrn q
  if let some q := band.qrm then
    validateQrm q
  if let some b := band.rxBandwidthHz then
    if !(b.isFinite && positive b) then
      throw (.invalidSetting "receive filter bandwidth must be > 0")

end BandConditions

structure QrmReport where
  call : String
  text : String
  offsetHz : F32
  levelDb : F32
  deriving DecidableEq, Repr

structure BandReport where
  snrDb : Option F32
  qsb : List (Option Qsb)
  qrn : Option Qrn
  qrm : Option QrmReport
  deriving DecidableEq, Repr

/-- The sums of single precision, and what is computed from a number alone: half the sample rate
less the margin, and a period in milliseconds. -/
structure Arithmetic where
  add : F32 → F32 → F32
  sub : F32 → F32 → F32
  top : Nat → F32
  periodMs : F32 → Nat

/-- All that is left to chance, and the keying of a text. The call of the interfering station is
drawn around the operator. -/
structure Draws where
  snr : F32
  fades : Nat → Bool × F32 × F32
  qrnHit : Bool
  crashesPerSec : F32
  crashLevel : F32
  decayMs : Nat
  qrmHit : Bool
  call : String
  phrase : Nat
  magnitude : F32
  wantBelow : Bool
  level : F32
  wpm : Nat
  fistSeed : Nat
  startMs : Nat → Nat
  startMs_le (maxMs : Nat) : startMs maxMs ≤ maxMs
  keyText : String → Nat → Nat → Except ScenarioError Keying

/-- 100 Hz. -/
def pitchMarginHz : F32 := ⟨0x42C80000⟩

namespace Draws

variable (ar : Arithmetic) (draws : Draws)

/-- A signal that fades already keeps its own fading. -/
def fade (odds : Option QsbOdds) (s : Signal) (i : Nat) : Signal × Option Qsb :=
  match s.qsb, odds with
  | none, some _ =>
    let (hit, depth, period) := draws.fades i
    if hit then
      let q : Qsb := ⟨depth, ar.periodMs period * 1000000⟩
      ({ s with qsb := some q }, some q)
    else
      (s, none)
  | _, _ => (s, none)

def text : String :=
  match draws.phrase with
  | 0 => "CQ CQ DE " ++ draws.call ++ " " ++ draws.call ++ " K"
  | 1 => "TEST " ++ draws.call ++ " " ++ draws.call ++ " TEST"
  | _ => "CQ TEST " ++ draws.call ++ " " ++ draws.call

def fits (sampleRate : Nat) (f : F32) : Bool :=
  pitchMarginHz.le f && f.le (ar.top sampleRate)

/-- Either side of the pitch; zero if neither fits. -/
def offset (sampleRate : Nat) (pitchHz : F32) : F32 :=
  let lo := ar.sub pitchHz draws.magnitude
  let hi := ar.add pitchHz draws.magnitude
  match draws.wantBelow, fits ar sampleRate lo, fits ar sampleRate hi with
  | true, true, _ => draws.magnitude.neg
  | false, true, false => draws.magnitude.neg
  | _, _, true => draws.magnitude
  | _, _, _ => ⟨0⟩

/-- Somewhere in the first half of the over. -/
def start (overEnd : Nat) : Nat :=
  draws.startMs (overEnd / 1000000 / 2 % 2 ^ 32) * 1000000

/-- The interfering station, cut off where the over ends. -/
def station (sampleRate : Nat) (pitchHz : F32) (overEnd : Nat)
    : Except ScenarioError (Option (Signal × QrmReport)) := do
  let keying ← draws.keyText draws.text draws.wpm draws.fistSeed
  let keying := keying.truncated (overEnd - draws.start overEnd)
  let offset := draws.offset ar sampleRate pitchHz
  if !keying.isEmpty && offset.partialCmp ⟨0⟩ ≠ some .eq then
    return some
      ({ keying
         start := draws.start overEnd
         pitchHz := ar.add pitchHz offset
         levelDb := draws.level
         qsb := none
         rise := defaultRise },
       ⟨draws.call, draws.text, offset, draws.level⟩)
  else
    return none

def qrm (odds : Option QrmOdds) (sampleRate : Nat) (pitchHz : F32) (overEnd : Nat)
    : Except ScenarioError (Option (Signal × QrmReport)) :=
  if odds.isSome && draws.qrmHit && overEnd ≥ 1000000000 then
    draws.station ar sampleRate pitchHz overEnd
  else
    .ok none

end Draws

def bandChannelFor (ar : Arithmetic) (draws : Draws) (band : BandConditions)
    (signals : List Signal) (sampleRate : Nat) (pitchHz : F32) (seed : Nat)
    : Except ScenarioError (Channel × BandReport) := do
  band.validate
  if !(pitchHz.isFinite && Draws.fits ar sampleRate pitchHz) then
    throw (.invalidSetting "pitch must be at least 100 Hz from 0 Hz and from Nyquist")
  let overEnd := latestEnd signals
  let faded := signals.mapIdx fun i s => draws.fade ar band.qsb s i
  let qrn : Option Qrn :=
    if band.qrn.isSome && draws.qrnHit then
      some ⟨draws.crashesPerSec, draws.crashLevel, draws.decayMs * 1000000⟩
    else
      none
  let qrm ← draws.qrm ar band.qrm sampleRate pitchHz overEnd
  let ch : Channel :=
    { sampleRate
      signals := faded.map Prod.fst ++ (qrm.map Prod.fst).toList
      noise := band.snrDb.map fun _ => draws.snr
      qrn
      filter := band.rxBandwidthHz.map fun bw => ⟨pitchHz, bw⟩
      padding := 0
      seed }
  let report : BandReport :=
    { snrDb := band.snrDb.map fun _ => draws.snr
      qsb := faded.map Prod.snd
      qrn
      qrm := qrm.map Prod.snd }
  return (ch, report)

/-- If a station is drawn, its key is up at the end of the over, for as long as the ramps of its
edges take. `t` counts from its first edge. -/
def KeyUpAtEnd (ar : Arithmetic) (draws : Draws) (band : BandConditions) (signals : List Signal)
    (sampleRate : Nat) (pitchHz : F32) : Prop :=
  let overEnd := latestEnd signals
  band.qrm.isSome → draws.qrmHit → overEnd ≥ 1000000000 →
    (draws.offset ar sampleRate pitchHz).partialCmp ⟨0⟩ ≠ some .eq →
    ∀ keying, draws.keyText draws.text draws.wpm draws.fistSeed = .ok keying →
      ∀ t, overEnd ≤ max (draws.start overEnd) (defaultRise / 2) + t + defaultRise / 2 →
        draws.start overEnd + t < overEnd → ¬ keying.Down t

section

variable {ar : Arithmetic} {draws : Draws} {band : BandConditions} {signals : List Signal}
  {sampleRate seed : Nat} {pitchHz : F32}

theorem endsAt_fade (odds : Option QsbOdds) (s : Signal) (i : Nat)
    : (draws.fade ar odds s i).1.endsAt = s.endsAt := by
  unfold Draws.fade
  split
  next =>
    dsimp only
    split <;> rfl
  next => rfl

theorem map_endsAt_fade (odds : Option QsbOdds) (signals : List Signal)
    : ((signals.mapIdx fun i s => draws.fade ar odds s i).map Prod.fst).map Signal.endsAt =
        signals.map Signal.endsAt := by
  apply List.ext_getElem
  . simp
  . simp [endsAt_fade]

theorem latestEnd_concat (signals : List Signal) (s : Signal)
    : latestEnd (signals ++ [s]) = max (latestEnd signals) s.endsAt := by
  cases signals with
  | nil => simp [latestEnd]
  | cons first signals =>
    simp only [latestEnd, List.cons_append, List.map_cons, List.map_append, List.map_nil,
      List.max?_cons', Option.getD_some, List.foldl_append, List.foldl_cons, List.foldl_nil]

theorem duration_bandChannelFor {ch : Channel} {report : BandReport}
    (h : bandChannelFor ar draws band signals sampleRate pitchHz seed = .ok (ch, report))
    : ∃ qrm, draws.qrm ar band.qrm sampleRate pitchHz (latestEnd signals) = .ok qrm ∧
        ch.duration = latestEnd (signals ++ (qrm.map Prod.fst).toList) := by
  unfold bandChannelFor at h
  cases hvalid : band.validate with
  | error e => simp [hvalid, bind, Except.bind] at h
  | ok u =>
    simp only [hvalid, bind, Except.bind] at h
    split at h
    next => cases h
    next =>
      cases hqrm : draws.qrm ar band.qrm sampleRate pitchHz (latestEnd signals) with
      | error e => simp [hqrm] at h
      | ok qrm =>
        refine ⟨qrm, rfl, ?_⟩
        simp only [hqrm, pure, Except.pure, Except.ok.injEq, Prod.mk.injEq] at h
        rw [← h.1, Channel.duration, Nat.add_zero, latestEnd, latestEnd, List.map_append,
          List.map_append, map_endsAt_fade]

theorem start_le (draws : Draws) (overEnd : Nat) : 2 * draws.start overEnd ≤ overEnd := by
  have hle := draws.startMs_le (overEnd / 1000000 / 2 % 2 ^ 32)
  have hmod := Nat.mod_le (overEnd / 1000000 / 2) (2 ^ 32)
  unfold Draws.start
  omega

theorem endsAt_le_iff (draws : Draws) (overEnd : Nat) (hlong : overEnd ≥ 1000000000)
    (keying : Keying)
    : max (draws.start overEnd) (defaultRise / 2) +
        (keying.truncated (overEnd - draws.start overEnd)).total + defaultRise / 2 ≤ overEnd ↔
      ∀ t, overEnd ≤ max (draws.start overEnd) (defaultRise / 2) + t + defaultRise / 2 →
        draws.start overEnd + t < overEnd → ¬ keying.Down t := by
  have hstart := start_le draws overEnd
  have hrise : defaultRise / 2 = 2500000 := rfl
  have hcut := keying.total_truncated_le_iff (overEnd - draws.start overEnd)
    (overEnd - max (draws.start overEnd) (defaultRise / 2) - defaultRise / 2)
  constructor
  . intro hle t hlate hbefore
    exact hcut.mp (by omega) t (by omega) (by omega)
  . intro hup
    have htotal := hcut.mpr fun t hlate hbefore => hup t (by omega) (by omega)
    omega

/-- A station is drawn whose tone differs from the operator's. -/
structure Drawn (ar : Arithmetic) (draws : Draws) (odds : Option QrmOdds) (sampleRate : Nat)
    (pitchHz : F32) (overEnd : Nat) : Prop where
  odds : odds.isSome
  hit : draws.qrmHit
  long : overEnd ≥ 1000000000
  apart : (draws.offset ar sampleRate pitchHz).partialCmp ⟨0⟩ ≠ some .eq

theorem qrm_cases {odds : Option QrmOdds} {overEnd : Nat} {qrm : Option (Signal × QrmReport)}
    (h : draws.qrm ar odds sampleRate pitchHz overEnd = .ok qrm)
    : ¬ Drawn ar draws odds sampleRate pitchHz overEnd ∧ qrm = none ∨
      ∃ keying, draws.keyText draws.text draws.wpm draws.fistSeed = .ok keying ∧
        Drawn ar draws odds sampleRate pitchHz overEnd ∧
        ((keying.truncated (overEnd - draws.start overEnd)).total = 0 ∧ qrm = none ∨
          ∃ s report, qrm = some (s, report) ∧
            s.endsAt = max (draws.start overEnd) (defaultRise / 2) +
              (keying.truncated (overEnd - draws.start overEnd)).total + defaultRise / 2) := by
  unfold Draws.qrm at h
  split at h
  next hdrawn =>
    simp only [Bool.and_eq_true, decide_eq_true_eq] at hdrawn
    unfold Draws.station at h
    cases hkeying : draws.keyText draws.text draws.wpm draws.fistSeed with
    | error e => simp [hkeying, bind, Except.bind] at h
    | ok keying =>
      simp only [hkeying, bind, Except.bind, pure, Except.pure] at h
      split at h
      next hadded =>
        simp only [Bool.and_eq_true, decide_eq_true_eq] at hadded
        cases h
        exact .inr ⟨keying, rfl, ⟨hdrawn.1.1, hdrawn.1.2, hdrawn.2, hadded.2⟩,
          .inr ⟨_, _, rfl, rfl⟩⟩
      next hskipped =>
        cases h
        by_cases hapart : (draws.offset ar sampleRate pitchHz).partialCmp ⟨0⟩ ≠ some .eq
        . refine .inr ⟨keying, rfl, ⟨hdrawn.1.1, hdrawn.1.2, hdrawn.2, hapart⟩, .inl ⟨?_, rfl⟩⟩
          have hempty : (keying.truncated (overEnd - draws.start overEnd)).isEmpty = true := by
            by_contra hne
            apply hskipped
            exact Bool.and_eq_true_iff.mpr ⟨by simpa using hne, decide_eq_true hapart⟩
          rw [Keying.isEmpty, List.isEmpty_iff] at hempty
          rw [Keying.total, hempty]
          rfl
        . exact .inl ⟨fun hdrawn => hapart hdrawn.apart, rfl⟩
  next hnot =>
    cases h
    refine .inl ⟨?_, rfl⟩
    intro hdrawn
    apply hnot
    simp [hdrawn.odds, hdrawn.hit, hdrawn.long]

/-- The added station does not make an over longer exactly when its key is up at the end. -/
theorem duration_eq_iff (ar : Arithmetic) (draws : Draws) (band : BandConditions)
    (signals : List Signal) (sampleRate : Nat) (pitchHz : F32) (seed : Nat)
    : match bandChannelFor ar draws band signals sampleRate pitchHz seed with
      | .ok (ch, _) =>
        ch.duration = latestEnd signals ↔
          KeyUpAtEnd ar draws band signals sampleRate pitchHz
      | .error _ => True := by
  cases hband : bandChannelFor ar draws band signals sampleRate pitchHz seed with
  | error e => trivial
  | ok res =>
    rcases res with ⟨ch, report⟩
    rcases duration_bandChannelFor hband with ⟨qrm, hqrm, hduration⟩
    have hiff := endsAt_le_iff draws (latestEnd signals)
    dsimp only
    rw [hduration]
    rcases qrm_cases hqrm with ⟨hnot, rfl⟩ | ⟨keying, hkeying, hdrawn, hqrm⟩
    . apply iff_of_true
      . simp
      . intro hodds hhit hlong hapart
        exact absurd ⟨hodds, hhit, hlong, hapart⟩ hnot
    . have hkeyUp : KeyUpAtEnd ar draws band signals sampleRate pitchHz ↔
          max (draws.start (latestEnd signals)) (defaultRise / 2) +
            (keying.truncated (latestEnd signals - draws.start (latestEnd signals))).total +
            defaultRise / 2 ≤ latestEnd signals := by
        rw [hiff hdrawn.long keying]
        constructor
        . intro hup
          exact hup hdrawn.odds hdrawn.hit hdrawn.long hdrawn.apart keying hkeying
        . intro hup _ _ _ _ keying' hkeying'
          rw [hkeying, Except.ok.injEq] at hkeying'
          rw [← hkeying']
          exact hup
      rw [hkeyUp]
      rcases hqrm with ⟨hzero, rfl⟩ | ⟨s, report, rfl, hends⟩
      . have hstart := start_le draws (latestEnd signals)
        have hlong := hdrawn.long
        have hrise : defaultRise / 2 = 2500000 := rfl
        apply iff_of_true
        . simp
        . rw [hzero]
          omega
      . rw [Option.map_some, Option.toList_some, latestEnd_concat, hends]
        omega

end

/-- Without jitter, at 20 words a minute. -/
def keyingOfCq : Keying :=
  let dit := 60000000
  let dah := 180000000
  ⟨[⟨true, dah⟩, ⟨false, dit⟩, ⟨true, dit⟩, ⟨false, dit⟩, ⟨true, dah⟩, ⟨false, dit⟩, ⟨true, dit⟩,
    ⟨false, dah⟩,
    ⟨true, dah⟩, ⟨false, dit⟩, ⟨true, dah⟩, ⟨false, dit⟩, ⟨true, dit⟩, ⟨false, dit⟩, ⟨true, dah⟩]⟩

/-- An over of 1.365 seconds at 600 Hz, and a station 200 Hz above it that begins after ten
milliseconds and is cut inside a dot: the audio is two and a half milliseconds longer than the
over. -/
theorem duration_keyDown_at_end
    : let ar : Arithmetic :=
        { add := fun _ _ => ⟨0x44480000⟩, sub := fun _ _ => ⟨0x43C80000⟩,
          top := fun _ => ⟨0x4573C000⟩, periodMs := fun _ => 0 }
      let draws : Draws :=
        { snr := ⟨0⟩, fades := fun _ => (false, ⟨0⟩, ⟨0⟩), qrnHit := false, crashesPerSec := ⟨0⟩,
          crashLevel := ⟨0⟩, decayMs := 0, qrmHit := true, call := "K1ABC", phrase := 2,
          magnitude := ⟨0x43480000⟩, wantBelow := false, level := ⟨0xC0C00000⟩, wpm := 20,
          fistSeed := 1, startMs := fun maxMs => min 10 maxMs, startMs_le := fun _ => by omega,
          keyText := fun _ _ _ => .ok keyingOfCq }
      let band : BandConditions :=
        { snrDb := none, qsb := none, qrn := none, rxBandwidthHz := none,
          qrm := some ⟨⟨0x3FF0000000000000⟩, (⟨0x43480000⟩, ⟨0x43C80000⟩),
            (⟨0xC0E00000⟩, ⟨0xC0A00000⟩)⟩ }
      let signals : List Signal :=
        [⟨⟨[⟨true, 1360000000⟩]⟩, 0, ⟨0x44160000⟩, ⟨0⟩, none, defaultRise⟩]
      latestEnd signals = 1365000000 ∧
        (bandChannelFor ar draws band signals 8000 ⟨0x44160000⟩ 7).toOption.map
          (fun res => res.1.duration) = some 1367500000 := by
  decide +kernel

end Morse
