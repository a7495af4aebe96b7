import RadioCat.Cw.Basic

/-!
This module contains what a radio model publishes about itself: the VFOs, modes, filters, meters and
memories a command is held against, and its CW control with the check that such a description can be
acted on.
-/

namespace Framework

section

variable {ε α β : Type}

/-- `if refused { return Err(error) }` -/
def refuseIf (refused : Prop) [Decidable refused] (error : ε) : Except ε Unit :=
  if refused then .error error else .ok ()

/-- `if let Some(b) = option { check(b) }` -/
def checkSome (option : Option β) (check : β → Except ε Unit) : Except ε Unit :=
  match option with
  | some b => check b
  | none => .ok ()

@[simp]
theorem refuseIf_eq_ok {refused : Prop} [Decidable refused] {error : ε}
    : refuseIf refused error = .ok () ↔ ¬ refused := by
  unfold refuseIf
  split <;> simp [*]

@[simp]
theorem checkSome_eq_ok {option : Option β} {check : β → Except ε Unit}
    : checkSome option check = .ok () ↔ ∀ b ∈ option, check b = .ok () := by
  cases option <;> simp [checkSome]

@[simp]
theorem bind_eq_ok {check : Except ε Unit} {next : Unit → Except ε α} {a : α}
    : (check >>= next) = .ok a ↔ check = .ok () ∧ next () = .ok a := by
  cases check <;> simp [bind, Except.bind]

end

structure FrequencyRange where
  minHz : UInt64
  maxHz : UInt64
  deriving DecidableEq, Repr

def FrequencyRange.contains (range : FrequencyRange) (hz : UInt64) : Bool :=
  range.minHz ≤ hz ∧ hz ≤ range.maxHz

structure RawRange where
  min : UInt16
  max : UInt16
  deriving DecidableEq, Repr

structure VfoCapability where
  count : UInt8
  split : Bool
  deriving DecidableEq, Repr

inductive ModeId where
  | lsb
  | usb
  | cwUpper
  | cwLower
  | am
  | amNarrow
  | fm
  | fmNarrow
  | rttyLsb
  | rttyUsb
  | dataLsb
  | dataUsb
  | dataFm
  | c4fm
  deriving DecidableEq, Repr

/-- `{:?}` -/
def ModeId.debug : ModeId → String
  | .lsb => "Lsb"
  | .usb => "Usb"
  | .cwUpper => "CwUpper"
  | .cwLower => "CwLower"
  | .am => "Am"
  | .amNarrow => "AmNarrow"
  | .fm => "Fm"
  | .fmNarrow => "FmNarrow"
  | .rttyLsb => "RttyLsb"
  | .rttyUsb => "RttyUsb"
  | .dataLsb => "DataLsb"
  | .dataUsb => "DataUsb"
  | .dataFm => "DataFm"
  | .c4fm => "C4fm"

structure ModeDescriptor where
  id : ModeId
  deriving DecidableEq, Repr

structure FilterCapability where
  ifShiftHz : Option Int32
  widthsHz : Option (List UInt32)
  deriving DecidableEq

inductive MeterKind where
  | s
  | po
  | swr
  | alc
  | id
  | vdd
  | comp
  deriving DecidableEq, Repr

/-- `{:?}` -/
def MeterKind.debug : MeterKind → String
  | .s => "S"
  | .po => "Po"
  | .swr => "Swr"
  | .alc => "Alc"
  | .id => "Id"
  | .vdd => "Vdd"
  | .comp => "Comp"

structure MeterDescriptor where
  kind : MeterKind
  deriving DecidableEq, Repr

structure MeterSet where
  meters : List MeterDescriptor
  deriving DecidableEq, Repr

namespace MeterSet

def find (set : MeterSet) (kind : MeterKind) : Option MeterDescriptor :=
  set.meters.find? (·.kind = kind)

def has (set : MeterSet) (kind : MeterKind) : Bool :=
  (set.find kind).isSome

end MeterSet

structure MemoryCapability where
  channels : RawRange
  deriving DecidableEq, Repr

structure HzRange where
  minHz : UInt32
  maxHz : UInt32
  deriving DecidableEq, Repr

structure TxGateCapability extends Cw.TxGateCapability where
  powerRaw : RawRange
  deriving DecidableEq, Repr

structure CwCapability where
  pitch : Option HzRange
  pitchWritable : Bool
  keyerWpm : Option Cw.WpmRange
  keyerWpmWritable : Bool
  breakIn : List Cw.BreakInKind
  sendText : Option Cw.CwSendText
  txGate : Option TxGateCapability
  deriving DecidableEq, Repr

inductive CwCapabilityError where
  | emptyPitchRange
  | emptyWpmRange
  | writableWithoutRange
  | zeroChunk
  | emptyCharset
  | charsetNotUppercase
  | requiredBreakInNotSelectable
  | sendWithoutTxGate
  | lowPowerOutOfRange
  deriving DecidableEq, Repr

namespace CwCapability

/-- What the supervisor of this radio's transmitter reads. -/
def supervised (cw : CwCapability) : Cw.CwCapability :=
  { keyerWpm := cw.keyerWpm
    sendText := cw.sendText
    txGate := cw.txGate.map (·.toTxGateCapability) }

-- `char::is_lowercase` goes by the Unicode tables.
def validate (isLowercase : Char → Bool) (cw : CwCapability) : Except CwCapabilityError Unit := do
  checkSome cw.pitch fun p => refuseIf (p.minHz > p.maxHz) .emptyPitchRange
  checkSome cw.keyerWpm fun w => refuseIf (w.min > w.max) .emptyWpmRange
  refuseIf ((cw.pitchWritable ∧ cw.pitch.isNone) ∨ (cw.keyerWpmWritable ∧ cw.keyerWpm.isNone))
    .writableWithoutRange
  checkSome cw.sendText fun send => do
    refuseIf (send.maxChunkChars = 0) .zeroChunk
    refuseIf (send.charset.isEmpty) .emptyCharset
    refuseIf (send.charset.any isLowercase) .charsetNotUppercase
    checkSome send.requiresBreakIn fun kind =>
      refuseIf (kind ∉ cw.breakIn) .requiredBreakInNotSelectable
    refuseIf (cw.txGate.isNone) .sendWithoutTxGate
  checkSome cw.txGate fun gate =>
    refuseIf (gate.lowPowerRaw < gate.powerRaw.min.toNat
      ∨ gate.lowPowerRaw > gate.powerRaw.max.toNat) .lowPowerOutOfRange

/-- A description a server can act on. -/
structure Actionable (isLowercase : Char → Bool) (cw : CwCapability) : Prop where
  pitch : ∀ p ∈ cw.pitch, p.minHz ≤ p.maxHz
  keyerWpm : ∀ w ∈ cw.keyerWpm, w.min ≤ w.max
  pitchWritable : cw.pitchWritable = true → cw.pitch ≠ none
  keyerWpmWritable : cw.keyerWpmWritable = true → cw.keyerWpm ≠ none
  sendText : ∀ send ∈ cw.sendText, send.maxChunkChars ≠ 0 ∧ send.charset ≠ []
    ∧ (∀ c ∈ send.charset, isLowercase c = false)
    ∧ (∀ kind ∈ send.requiresBreakIn, kind ∈ cw.breakIn) ∧ cw.txGate ≠ none
  txGate : ∀ gate ∈ cw.txGate,
    gate.powerRaw.min.toNat ≤ gate.lowPowerRaw ∧ gate.lowPowerRaw ≤ gate.powerRaw.max.toNat

theorem validate_ok_iff {isLowercase : Char → Bool} {cw : CwCapability}
    : cw.validate isLowercase = .ok () ↔ cw.Actionable isLowercase := by
  simp only [validate, bind_eq_ok, checkSome_eq_ok, refuseIf_eq_ok, not_or, not_and, not_lt,
    gt_iff_lt, List.isEmpty_iff, Option.isNone_iff_eq_none, List.any_eq_true, not_exists,
    Bool.not_eq_true, not_not, UInt32.not_lt]
  constructor
  . rintro ⟨hpitch, hwpm, ⟨hpitchW, hwpmW⟩, hsend, hgate⟩
    exact ⟨hpitch, hwpm, hpitchW, hwpmW, hsend, hgate⟩
  . intro h
    exact ⟨h.pitch, h.keyerWpm, ⟨h.pitchWritable, h.keyerWpmWritable⟩, h.sendText, h.txGate⟩

end CwCapability

structure RadioCapabilities where
  vfos : VfoCapability
  modes : List ModeDescriptor
  rxRange : FrequencyRange
  filters : FilterCapability
  meters : MeterSet
  memory : Option MemoryCapability
  cw : Option CwCapability
  deriving DecidableEq

def RadioCapabilities.supportsMode (caps : RadioCapabilities) (id : ModeId) : Bool :=
  caps.modes.any (·.id = id)

end Framework
