import Mathlib.Tactic.SplitIfs
import RadioCat.Signal.Bounds

/-!
This module contains the two sources that publish settings, the dongle on the IF tap and the audio
stream, and in which runs of writes they keep to the bounds that they publish.
-/

namespace Signal

open Arith

def fftSizes : List String :=
  ["256", "512", "1024", "2048", "4096"]

def parseDigits (digits : List Char) : Option Nat :=
  if digits.isEmpty ∨ digits.any (!·.isDigit) then
    none
  else
    let n := digits.foldl (fun n digit => n * 10 + (digit.toNat - '0'.toNat)) 0
    if n < 2 ^ 64 then some n else none

def parseUsize (text : String) : Option Nat :=
  match text.toList with
  | '+' :: digits => parseDigits digits
  | digits => parseDigits digits

def fftSizeIndex (size : Nat) : BitVec 16 :=
  BitVec.ofNat 16 ((fftSizes.findIdx? fun text => parseUsize text = some size).getD 2)

/-- The size an index stands for; indexing past the table panics. -/
def fftSizeAt (index : BitVec 16) : Option Nat := do
  let text ← fftSizes[index.toNat]?
  parseUsize text

def i64Max : BitVec 64 := BitVec.ofNat 64 (2 ^ 63 - 1)

structure IfTapConfig where
  ifCenterHz : BitVec 64
  inverted : Bool
  trimHz : BitVec 32
  deriving DecidableEq, Repr

structure RtlSdrSource where
  framesDropped : BitVec 64
  config : IfTapConfig
  sampleRateHz : BitVec 32
  fftSize : Nat
  dialHz : BitVec 64
  gainDb : F64
  deriving DecidableEq, Repr

namespace RtlSdrSource

/-- 49.6 -/
def maxGainDb : F64 := ⟨0x4048CCCCCCCCCCCD⟩

def settings (s : RtlSdrSource) : SpectrumSettings := [
  { key := "if_center_hz", label := "IF centre", group := .source, access := .readOnly
    value := .int s.config.ifCenterHz 0 i64Max 1 .hz },
  { key := "inverted", label := "Inverted IF", group := .source, access := .readOnly
    value := .bool s.config.inverted },
  { key := "trim_hz", label := "Frequency trim", group := .calibration, access := .readWrite
    value := .int (s.config.trimHz.signExtend 64) (-50000) 50000 1 .hz },
  { key := "sample_rate_hz", label := "Sample rate", group := .source, access := .readOnly
    value := .int (s.sampleRateHz.setWidth 64) 225001 3200000 1 .sps },
  { key := "gain_db", label := "Gain", group := .source, access := .readWrite
    value := .float s.gainDb ⟨0⟩ maxGainDb .db },
  { key := "fft_size", label := "FFT size", group := .display, access := .readWrite
    value := .enum (fftSizeIndex s.fftSize) fftSizes },
  { key := "frames_dropped", label := "Frames dropped", group := .display, access := .readOnly
    value := .int s.framesDropped 0 i64Max 1 .none }]

def write (key : String) (value : SettingValue) (s : RtlSdrSource)
    : Option (Option RtlSdrSource) :=
  match key, value with
  | "trim_hz", .int v _ _ _ _ =>
    some (some { s with config := { s.config with trimHz := v.setWidth 32 } })
  | "gain_db", .float v _ _ _ => some (some { s with gainDb := v })
  | "fft_size", .enum v _ => do
    let fftSize ← fftSizeAt v
    some (some { s with fftSize })
  | _, _ => some none

inductive Event where
  | retune (dialHz : BitVec 64)
  | framesDropped (count : BitVec 64)

def elapse : Event → RtlSdrSource → RtlSdrSource
  | .retune dialHz, s => { s with dialHz }
  | .framesDropped count, s => { s with framesDropped := count }

end RtlSdrSource

def rtlSdr : Source RtlSdrSource RtlSdrSource.Event where
  settings := RtlSdrSource.settings
  write := RtlSdrSource.write
  elapse := RtlSdrSource.elapse

structure AudioPipelineConfig where
  sampleRateHz : BitVec 32
  fftSize : Nat
  spanHz : BitVec 32
  averaging : F32
  deriving DecidableEq, Repr

structure AudioStream where
  params : AudioPipelineConfig
  connected : Bool
  dropped : BitVec 64
  deriving DecidableEq, Repr

namespace AudioStream

/-- 0.95 -/
def maxAveraging : F64 := ⟨0x3FEE666666666666⟩

def settings (s : AudioStream) : SpectrumSettings :=
  let nyquist : BitVec 64 := (s.params.sampleRateHz / 2).setWidth 64
  [{ key := "sample_rate_hz", label := "Sample rate", group := .source, access := .readOnly
     value := .int (s.params.sampleRateHz.setWidth 64) 8000 192000 1 .sps },
   { key := "connected", label := "Connected", group := .source, access := .readOnly
     value := .bool s.connected },
   { key := "fft_size", label := "FFT size", group := .display, access := .readWrite
     value := .enum (fftSizeIndex s.params.fftSize) fftSizes },
   { key := "span_hz", label := "AF span", group := .display, access := .readWrite
     value := .int (s.params.spanHz.setWidth 64) 100 nyquist 100 .hz },
   { key := "averaging", label := "Spectrum averaging", group := .display, access := .readWrite
     value := .float s.params.averaging.widen ⟨0⟩ maxAveraging .none },
   { key := "frames_dropped", label := "Frames dropped", group := .display, access := .readOnly
     value := .int s.dropped 0 i64Max 1 .none }]

def write (key : String) (value : SettingValue) (s : AudioStream)
    : Option (Option AudioStream) :=
  match key, value with
  | "fft_size", .enum v _ => do
    let fftSize ← fftSizeAt v
    some (some { s with params := { s.params with fftSize } })
  | "span_hz", .int v _ _ _ _ =>
    some (some { s with params := { s.params with spanHz := v.setWidth 32 } })
  | "averaging", .float v _ _ _ =>
    some (some { s with params := { s.params with averaging := v.narrow } })
  | _, _ => some none

inductive Event where
  | disconnect
  | framesDropped (count : BitVec 64)

def elapse : Event → AudioStream → AudioStream
  | .disconnect, s => { s with connected := false }
  | .framesDropped count, s => { s with dropped := count }

end AudioStream

def audioStream : Source AudioStream AudioStream.Event where
  settings := AudioStream.settings
  write := AudioStream.write
  elapse := AudioStream.elapse

example : fftSizes.map parseUsize = [some 256, some 512, some 1024, some 2048, some 4096] := by
  decide

theorem exists_fftSizeAt {index : BitVec 16} (h : index.toNat < fftSizes.length)
    : ∃ size, fftSizeAt index = some size ∧ fftSizeIndex size = index := by
  have htable : ∀ i < fftSizes.length, ∃ size ∈ [256, 512, 1024, 2048, 4096],
      fftSizeAt (BitVec.ofNat 16 i) = some size ∧ fftSizeIndex size = BitVec.ofNat 16 i := by
    decide
  obtain ⟨size, -, hsize⟩ := htable index.toNat h
  rw [BitVec.ofNat_toNat, BitVec.setWidth_eq] at hsize
  exact ⟨size, hsize⟩

theorem signExtend_setWidth {v : BitVec 64} (hmin : -2147483648 ≤ v.toInt)
    (hmax : v.toInt < 2147483648)
    : (v.setWidth 32).signExtend 64 = v := by
  have hlt := v.isLt
  have hint : (v.setWidth 32).toInt = v.toInt := by
    rw [BitVec.toInt_eq_toNat_cond] at hmin hmax ⊢
    rw [BitVec.toInt_eq_toNat_cond, BitVec.toNat_setWidth]
    omega
  rw [BitVec.signExtend, hint, BitVec.ofInt_toInt]

theorem setWidth_setWidth {v : BitVec 64} (h : v.toNat < 2 ^ 32)
    : (v.setWidth 32).setWidth 64 = v := by
  apply BitVec.eq_of_toNat_eq
  rw [BitVec.toNat_setWidth, BitVec.toNat_setWidth]
  omega

theorem rtlSdr_published (s : RtlSdrSource) (key : String)
    : rtlSdr.published s key =
        if key = "trim_hz" then
          some (.int (s.config.trimHz.signExtend 64) (-50000) 50000 1 .hz)
        else if key = "gain_db" then
          some (.float s.gainDb ⟨0⟩ RtlSdrSource.maxGainDb .db)
        else if key = "fft_size" then
          some (.enum (fftSizeIndex s.fftSize) fftSizes)
        else
          none := by
  unfold Source.published SpectrumSettings.find rtlSdr RtlSdrSource.settings
  by_cases h : key ∈ ["if_center_hz", "inverted", "trim_hz", "sample_rate_hz", "gain_db",
    "fft_size", "frames_dropped"]
  . simp only [List.mem_cons, List.not_mem_nil, or_false] at h
    rcases h with rfl | rfl | rfl | rfl | rfl | rfl | rfl <;> rfl
  . simp only [List.mem_cons, List.not_mem_nil, or_false, not_or] at h
    simp [h, eq_comm]

theorem audioStream_published (s : AudioStream) (key : String)
    : audioStream.published s key =
        if key = "fft_size" then
          some (.enum (fftSizeIndex s.params.fftSize) fftSizes)
        else if key = "span_hz" then
          some (.int (s.params.spanHz.setWidth 64) 100 ((s.params.sampleRateHz / 2).setWidth 64)
            100 .hz)
        else if key = "averaging" then
          some (.float s.params.averaging.widen ⟨0⟩ AudioStream.maxAveraging .none)
        else
          none := by
  unfold Source.published SpectrumSettings.find audioStream AudioStream.settings
  by_cases h : key ∈ ["sample_rate_hz", "connected", "fft_size", "span_hz", "averaging",
    "frames_dropped"]
  . simp only [List.mem_cons, List.not_mem_nil, or_false] at h
    rcases h with rfl | rfl | rfl | rfl | rfl | rfl <;> rfl
  . simp only [List.mem_cons, List.not_mem_nil, or_false, not_or] at h
    simp [h, eq_comm]

theorem int_bounds {v v' min max step : BitVec 64} {unit : SettingUnit}
    (h : (SettingValue.int v' min max step unit).admits (.int v))
    : min.toInt ≤ v.toInt ∧ v.toInt ≤ max.toInt := by
  have hvalid := SettingValue.isValid_withPayload h
  rw [SettingValue.withPayload, SettingValue.isValid, Bool.and_eq_true, BitVec.sle_iff_toInt_le,
    BitVec.sle_iff_toInt_le] at hvalid
  exact hvalid

theorem enum_bound {v v' : BitVec 16} {options : List String}
    (h : (SettingValue.enum v' options).admits (.enum v)) : v.toNat < options.length := by
  have hvalid := SettingValue.isValid_withPayload h
  rw [SettingValue.withPayload, SettingValue.isValid, decide_eq_true_eq] at hvalid
  exact hvalid

section RtlSdr

variable (s : RtlSdrSource) (k : String)

theorem rtlSdr_published_trimHz (trimHz : BitVec 32)
    : rtlSdr.published { s with config := { s.config with trimHz } } k =
        if k = "trim_hz" then
          some (.int (trimHz.signExtend 64) (-50000) 50000 1 .hz)
        else
          rtlSdr.published s k := by
  rw [rtlSdr_published, rtlSdr_published]
  split <;> rfl

theorem rtlSdr_published_gainDb (gainDb : F64)
    : rtlSdr.published { s with gainDb } k =
        if k = "gain_db" then
          some (.float gainDb ⟨0⟩ RtlSdrSource.maxGainDb .db)
        else
          rtlSdr.published s k := by
  rw [rtlSdr_published, rtlSdr_published]
  by_cases hk : k = "gain_db"
  . subst hk
    rfl
  . simp only [if_neg hk]

theorem rtlSdr_published_fftSize (fftSize : Nat)
    : rtlSdr.published { s with fftSize } k =
        if k = "fft_size" then
          some (.enum (fftSizeIndex fftSize) fftSizes)
        else
          rtlSdr.published s k := by
  rw [rtlSdr_published, rtlSdr_published]
  by_cases hk : k = "fft_size"
  . subst hk
    rfl
  . simp only [if_neg hk]

end RtlSdr

theorem rtlSdr_stores : rtlSdr.Stores fun _ _ => True where
  write := by
    intro s key setting value hpublished hadmits _
    rw [rtlSdr_published] at hpublished
    split_ifs at hpublished with htrim hgain hfft
    . subst htrim
      cases hpublished
      cases value with
      | int v min max step unit =>
        obtain ⟨hmin, hmax⟩ := int_bounds hadmits
        have hlow : (-50000 : BitVec 64).toInt = -50000 := rfl
        have hhigh : (50000 : BitVec 64).toInt = 50000 := rfl
        refine ⟨_, rfl, fun k => ?_⟩
        rw [rtlSdr_published_trimHz, signExtend_setWidth (by omega) (by omega)]
        rfl
      | _ => cases hadmits
    . subst hgain
      cases hpublished
      cases value with
      | float v min max unit =>
        refine ⟨_, rfl, fun k => ?_⟩
        rw [rtlSdr_published_gainDb]
        rfl
      | _ => cases hadmits
    . subst hfft
      cases hpublished
      cases value with
      | enum v options =>
        obtain ⟨fftSize, hat, hindex⟩ := exists_fftSizeAt (enum_bound hadmits)
        refine ⟨{ s with fftSize }, by simp [rtlSdr, RtlSdrSource.write, hat], fun k => ?_⟩
        rw [rtlSdr_published_fftSize, hindex]
        rfl
      | _ => cases hadmits
  elapse := by
    intro event s key
    rw [rtlSdr_published, rtlSdr_published]
    cases event <;> rfl

/-- What single precision can hold, for the one setting that is held in it. -/
def AudioStream.Held (key : String) (payload : Payload) : Prop :=
  key = "averaging" → ∃ single : F32, payload = .float single.widen

theorem averaging_narrow {v v' min max : F64} {unit : SettingUnit}
    (h : (SettingValue.float v' min max unit).admits (.float v))
    (hheld : AudioStream.Held "averaging" (.float v)) : v.narrow.widen = v := by
  obtain ⟨single, hsingle⟩ := hheld rfl
  cases hsingle
  have hvalid := SettingValue.isValid_withPayload h
  rw [SettingValue.withPayload, SettingValue.isValid, Bool.and_eq_true] at hvalid
  have hnan : single.widen.isNan = false := by
    have := hvalid.2
    rw [F64.le, Bool.and_eq_true, Bool.and_eq_true, Bool.not_eq_true'] at this
    exact this.1.1
  rw [F32.narrow_widen hnan]

theorem span_lt {v rate : BitVec 64} {sampleRateHz : BitVec 32} (hmin : 0 ≤ v.toInt)
    (hrate : rate = (sampleRateHz / 2).setWidth 64) (hmax : v.toInt ≤ rate.toInt)
    : v.toNat < 2 ^ 32 := by
  have hv := v.isLt
  have hhalf : rate.toNat < 2 ^ 32 := by
    rw [hrate, BitVec.toNat_setWidth, Nat.mod_eq_of_lt (by omega)]
    exact (sampleRateHz / 2).isLt
  rw [BitVec.toInt_eq_toNat_cond] at hmin hmax
  rw [BitVec.toInt_eq_toNat_cond] at hmax
  omega

section AudioStream

variable (s : AudioStream) (k : String)

theorem audioStream_published_fftSize (fftSize : Nat)
    : audioStream.published { s with params := { s.params with fftSize } } k =
        if k = "fft_size" then
          some (.enum (fftSizeIndex fftSize) fftSizes)
        else
          audioStream.published s k := by
  rw [audioStream_published, audioStream_published]
  split <;> rfl

theorem audioStream_published_spanHz (spanHz : BitVec 32)
    : audioStream.published { s with params := { s.params with spanHz } } k =
        if k = "span_hz" then
          some (.int (spanHz.setWidth 64) 100 ((s.params.sampleRateHz / 2).setWidth 64) 100 .hz)
        else
          audioStream.published s k := by
  rw [audioStream_published, audioStream_published]
  by_cases hk : k = "span_hz"
  . subst hk
    rfl
  . simp only [if_neg hk]

theorem audioStream_published_averaging (averaging : F32)
    : audioStream.published { s with params := { s.params with averaging } } k =
        if k = "averaging" then
          some (.float averaging.widen ⟨0⟩ AudioStream.maxAveraging .none)
        else
          audioStream.published s k := by
  rw [audioStream_published, audioStream_published]
  by_cases hk : k = "averaging"
  . subst hk
    rfl
  . simp only [if_neg hk]

end AudioStream

theorem audioStream_stores : audioStream.Stores AudioStream.Held where
  write := by
    intro s key setting value hpublished hadmits hheld
    rw [audioStream_published] at hpublished
    split_ifs at hpublished with hfft hspan haveraging
    . subst hfft
      cases hpublished
      cases value with
      | enum v options =>
        obtain ⟨fftSize, hat, hindex⟩ := exists_fftSizeAt (enum_bound hadmits)
        refine ⟨{ s with params := { s.params with fftSize } },
          by simp [audioStream, AudioStream.write, hat], fun k => ?_⟩
        rw [audioStream_published_fftSize, hindex]
        rfl
      | _ => cases hadmits
    . subst hspan
      cases hpublished
      cases value with
      | int v min max step unit =>
        obtain ⟨hmin, hmax⟩ := int_bounds hadmits
        have hlow : (100 : BitVec 64).toInt = 100 := rfl
        have hlt := @span_lt v _ s.params.sampleRateHz (by omega) rfl hmax
        refine ⟨_, rfl, fun k => ?_⟩
        rw [audioStream_published_spanHz, setWidth_setWidth hlt]
        rfl
      | _ => cases hadmits
    . subst haveraging
      cases hpublished
      cases value with
      | float v min max unit =>
        refine ⟨_, rfl, fun k => ?_⟩
        rw [audioStream_published_averaging, averaging_narrow hadmits hheld]
        rfl
      | _ => cases hadmits
  elapse := by
    intro event s key
    rw [audioStream_published, audioStream_published]
    cases event <;> rfl

/-- In a run of writes that are inside the published bounds, and of averagings in single precision,
both sources keep to what they publish. -/
theorem apply_respects_bounds (rtl : RtlSdrSource) (rtlEvents : List (Event RtlSdrSource.Event))
    (audio : AudioStream) (audioEvents : List (Event AudioStream.Event))
    : (rtlSdr.AllMeet (fun _ _ => True) rtl rtlEvents → rtlSdr.Respected rtl rtlEvents) ∧
      (audioStream.AllMeet AudioStream.Held audio audioEvents →
        audioStream.Respected audio audioEvents) := by
  constructor
  . intro hmeet
    exact rtlSdr_stores.respected hmeet
  . intro hmeet
    exact audioStream_stores.respected hmeet

def rtlSdrExample : RtlSdrSource where
  framesDropped := 0
  config := { ifCenterHz := 73050000, inverted := true, trimHz := 0 }
  sampleRateHz := 1024000
  fftSize := 1024
  dialHz := 0
  gainDb := ⟨0⟩

def audioStreamExample : AudioStream where
  params := { sampleRateHz := 48000, fftSize := 1024, spanHz := 4000, averaging := ⟨0⟩ }
  connected := true
  dropped := 0

/-- A trim of 1200 Hz and an averaging of a half. -/
theorem apply_respects_bounds_small
    : rtlSdr.Respected rtlSdrExample
        [.elapse (.framesDropped 3), .apply "trim_hz" (.int 1200 (-50000) 50000 1 .hz)] ∧
      audioStream.Respected audioStreamExample
        [.apply "averaging" (.float ⟨0x3FE0000000000000⟩ ⟨0⟩ AudioStream.maxAveraging .none)] := by
  have hrespects := apply_respects_bounds rtlSdrExample
    [.elapse (.framesDropped 3), .apply "trim_hz" (.int 1200 (-50000) 50000 1 .hz)]
    audioStreamExample
    [.apply "averaging" (.float ⟨0x3FE0000000000000⟩ ⟨0⟩ AudioStream.maxAveraging .none)]
  constructor
  . apply hrespects.1
    refine ⟨?_, fun _ _ _ => trivial⟩
    intro descriptor hfind _ _ _
    cases hfind
    exact ⟨by decide, trivial⟩
  . apply hrespects.2
    refine ⟨?_, fun _ _ _ => trivial⟩
    intro descriptor hfind _ _ _
    cases hfind
    exact ⟨by decide, fun _ => ⟨⟨0x3F000000⟩, by decide⟩⟩

/-- Records with bounds and options of their own: the sixth FFT size of five, which panics, and a
trim past the published maximum, which is taken. An averaging of 0.1 comes back as another. -/
theorem apply_believes_the_record
    : rtlSdr.apply "fft_size" (.enum 5 ["", "", "", "", "", ""]) rtlSdrExample = none ∧
      ¬ rtlSdr.Respected rtlSdrExample [.apply "fft_size" (.enum 5 ["", "", "", "", "", ""])] ∧
      ¬ rtlSdr.Respected rtlSdrExample [.apply "trim_hz" (.int 60000 0 60000 1 .hz)] ∧
      ¬ audioStream.Respected audioStreamExample
        [.apply "averaging" (.float ⟨0x3FB999999999999A⟩ ⟨0⟩ AudioStream.maxAveraging .none)] := by
  refine ⟨by decide, ?_, ?_, ?_⟩
  . rintro ⟨calls, final, hrun, -⟩
    cases hrun
  . rintro ⟨calls, final, hrun, hcalls, -⟩
    cases hrun
    obtain ⟨descriptor, hfind, -, -, hadmits⟩ := hcalls _ (List.mem_singleton.mpr rfl) rfl
    cases hfind
    revert hadmits
    decide
  . rintro ⟨calls, final, hrun, -, hlast⟩
    cases hrun
    have hpayload := (hlast "averaging" _ rfl rfl _ rfl).1
    revert hpayload
    decide

end Signal
