import Mathlib.Data.List.TakeWhile
import RadioCat.Framework.Capabilities
import RadioCat.Native.Serve

/-!
This module contains the session a server keeps for one console: the handshake, what a command is
held against, and what the host publishes to it. The main result says over every sequence of
messages and publications which commands are acknowledged.
-/

namespace Native

open Framework Trace

abbrev Text := Cw.Text

/-- What the session only stores and hands on. -/
structure Kinds where
  Installation : Type
  LayoutSpec : Type
  Theme : Type
  DeviceList : Type

def protocolVersion : UInt16 := 2

def maxCwTextChars : Nat := 256

inductive DeviceKind where
  | audioInput
  | sdr
  | audioOutput
  deriving DecidableEq, Repr

inductive Command where
  | setFrequency (vfo : UInt8) (hz : UInt64)
  | setMode (mode : ModeId)
  | setSplit (enabled : Bool)
  | setMemoryChannel (channel : UInt16)
  | setFilterWidth (hz : UInt32)
  | setIfShift (hz : Int32)
  | readMeter (kind : MeterKind)
  | retune (hz : UInt64)
  | readDevices
  | attachDevice (kind : DeviceKind) (spec : String)
  | readState
  | setKeyerSpeed (wpm : UInt16)
  | armCwTransmit (callsign : Text) (dummyLoadAcknowledged : Bool) (keyDownCapS : Option UInt16)
  | sendCwText (text : Text)
  | abortCw
  | disarmCw
  deriving DecidableEq

structure Hello where
  version : UInt16
  spectrum : Bool
  audio : Bool
  maxFps : Option UInt8
  deriving DecidableEq, Repr

inductive ClientMessage where
  | hello (hello : Hello)
  | command (command : Command)
  | ping
  deriving DecidableEq

structure MeterSample where
  kind : MeterKind
  raw : UInt16
  deriving DecidableEq, Repr

structure RadioState where
  vfoAHz : UInt64
  vfoBHz : UInt64
  mode : ModeId
  split : Bool
  transmitting : Bool
  memoryChannel : Option UInt16
  ifShiftHz : Option Int32
  filterWidthHz : Option UInt32
  meters : List MeterSample
  deriving DecidableEq

def RadioState.meter (state : RadioState) (kind : MeterKind) : Option UInt16 :=
  (state.meters.find? (·.kind = kind)).map (·.raw)

structure CapabilitiesWire (K : Kinds) extends RadioCapabilities where
  layout : Option K.LayoutSpec
  theme : Option K.Theme
  installation : K.Installation

inductive ServerMessage (K : Kinds) where
  | welcome (version : UInt16) (capabilities : CapabilitiesWire K)
  | ack
  | pong
  | state (state : RadioState)
  | meter (sample : MeterSample)
  | devices (lists : List K.DeviceList)
  | error (code : ErrorCode) (message : String)

structure NativeSession (K : Kinds) where
  capabilities : RadioCapabilities
  installation : K.Installation
  handshaken : Bool := false
  spectrum : Bool := false
  audio : Bool := false
  maxFps : Option UInt8 := none
  state : Option RadioState := none
  layout : Option K.LayoutSpec := none
  theme : Option K.Theme := none
  devices : Option (List K.DeviceList) := none
  servesCw : Bool := false

section

variable {K : Kinds}

def unsupported (message : String) : ServerMessage K :=
  .error .unsupported message

def outOfRange (message : String) : ServerMessage K :=
  .error .outOfRange message

def forbidden (message : String) : ServerMessage K :=
  .error .forbidden message

end

/-- `str::len` -/
def byteLen (text : Text) : Nat :=
  (text.flatMap String.utf8EncodeChar).length

/-- `str::trim` -/
def trim (text : Text) : Text :=
  ((text.dropWhile Cw.Text.isWhitespace).reverse.dropWhile Cw.Text.isWhitespace).reverse

def isCallsign (call : Text) : Bool :=
  (3 ≤ byteLen call ∧ byteLen call ≤ 10)
    && call.all (fun c => c.isAlphanum || c == '/')
    && call.any Char.isAlpha
    && call.any Char.isDigit

namespace NativeSession

variable {K : Kinds} (env : Cw.Env)

def withInstallation (capabilities : RadioCapabilities) (installation : K.Installation)
    : NativeSession K :=
  { capabilities, installation }

def reachesHost (s : NativeSession K) : Command → Bool
  | .abortCw => s.servesCw && s.capabilities.cw.isSome
  | _ => true

def wantsSpectrum (s : NativeSession K) : Bool :=
  s.handshaken && s.spectrum

def wantsAudio (s : NativeSession K) : Bool :=
  s.audio

def validateArm (send : Cw.CwSendText) (callsign : Text) (dummyLoadAcknowledged : Bool)
    (keyDownCapS : Option UInt16)
    : Except (ServerMessage K) Unit := do
  refuseIf (¬ dummyLoadAcknowledged)
    (forbidden "arming needs the operator's dummy-load acknowledgement")
  refuseIf (¬ isCallsign callsign)
    (forbidden (env.debugText callsign ++ " is not a callsign: 3-10 of A-Z 0-9 /, "
      ++ "with at least one letter and one digit"))
  checkSome (send.rejectedChar callsign) fun c =>
    .error (forbidden ("this keyer cannot send " ++ env.debugChar c ++ ", so "
      ++ String.ofList callsign ++ " could not be identified"))
  refuseIf (keyDownCapS = some 0) (outOfRange "a key-down cap of 0 s would refuse every send")

def validateSend (send : Cw.CwSendText) (text : Text) : Except (ServerMessage K) Unit := do
  refuseIf ((trim text).isEmpty) (outOfRange "nothing to send")
  refuseIf (text.length > maxCwTextChars)
    (outOfRange s!"{text.length} characters; one send is at most {maxCwTextChars}")
  checkSome (send.rejectedChar text) fun c =>
    .error (outOfRange s!"this keyer cannot send {env.debugChar c}")

def validateCw (s : NativeSession K) (command : Command) : Except (ServerMessage K) Unit :=
  match s.capabilities.cw, s.servesCw with
  | some cw, true =>
    match command, cw.sendText with
    | .setKeyerSpeed wpm, _ =>
      match cw.keyerWpm, cw.keyerWpmWritable with
      | some range, true =>
        refuseIf (¬ (wpm.toNat ≥ range.min ∧ wpm.toNat ≤ range.max))
          (outOfRange s!"{wpm} wpm is outside {range.min}-{range.max} wpm")
      | _, _ => .error (unsupported "this radio's keyer speed cannot be set over CAT")
    | _, none => .error (unsupported "this radio cannot send CW text over CAT")
    | .armCwTransmit callsign dummyLoadAcknowledged keyDownCapS, some send =>
      validateArm env send callsign dummyLoadAcknowledged keyDownCapS
    | .sendCwText text, some send => validateSend env send text
    | _, some _ => .ok ()
  | _, _ => .error (unsupported "this server does not offer CW control")

def validate (s : NativeSession K) (command : Command) : Except (ServerMessage K) Unit :=
  let caps := s.capabilities
  match command with
  | .setFrequency vfo hz => do
    refuseIf (vfo ≥ caps.vfos.count)
      (unsupported s!"radio has {caps.vfos.count} VFOs; asked for index {vfo}")
    refuseIf (¬ caps.rxRange.contains hz)
      (outOfRange s!"{hz} Hz is outside {caps.rxRange.minHz}-{caps.rxRange.maxHz} Hz")
  | .retune hz =>
    refuseIf (¬ caps.rxRange.contains hz)
      (outOfRange s!"{hz} Hz is outside this radio's range")
  | .setMode mode =>
    refuseIf (¬ caps.supportsMode mode)
      (unsupported s!"{mode.debug} is not a mode this radio has")
  | .setSplit _ => refuseIf (¬ caps.vfos.split) (unsupported "this radio has no split")
  | .setMemoryChannel channel =>
    match caps.memory with
    | none => .error (unsupported "this radio has no memory channels")
    | some memory =>
      refuseIf (channel < memory.channels.min ∨ channel > memory.channels.max)
        (outOfRange
          s!"channel {channel} is outside {memory.channels.min}-{memory.channels.max}")
  | .setFilterWidth hz =>
    match caps.filters.widthsHz with
    | none => .error (unsupported "this radio exposes no selectable filter widths")
    | some widths =>
      refuseIf (hz ∉ widths) (outOfRange s!"{hz} Hz is not one of this radio's widths")
  | .setIfShift hz =>
    match caps.filters.ifShiftHz with
    | none => .error (unsupported "this radio has no IF shift")
    -- `i32::abs`, which wraps at the least value.
    | some limit => refuseIf (hz.abs > limit) (outOfRange s!"IF shift limit is +/-{limit} Hz")
  | .readMeter kind =>
    refuseIf (¬ caps.meters.has kind) (unsupported s!"this radio has no {kind.debug} meter")
  | .readState => .ok ()
  | .readDevices => .ok ()
  | .attachDevice _ _ => .ok ()
  | .abortCw => .ok ()
  | .setKeyerSpeed _ => s.validateCw env command
  | .armCwTransmit _ _ _ => s.validateCw env command
  | .sendCwText _ => s.validateCw env command
  | .disarmCw => s.validateCw env command

def welcome (s : NativeSession K) : ServerMessage K :=
  .welcome protocolVersion
    { s.capabilities with
      cw := s.capabilities.cw.filter fun _ => s.servesCw
      layout := s.layout
      theme := s.theme
      installation := s.installation }

/-- The reply to a command that `validate` lets through. -/
def replyTo (s : NativeSession K) : Command → ServerMessage K
  | .readState =>
    match s.state with
    | some state => .state state
    | none => .error .notReady "the server has not heard from the radio yet"
  | .readMeter kind =>
    match s.state.bind (·.meter kind) with
    | some raw => .meter { kind, raw }
    | none => .error .notReady s!"no current reading for the {kind.debug} meter"
  | .readDevices =>
    match s.devices with
    | some devices => .devices devices
    | none => unsupported "this server does not offer device selection"
  | _ => .ack

def greet (s : NativeSession K) (hello : Hello) : NativeSession K :=
  { s with
    handshaken := true
    spectrum := hello.spectrum
    audio := hello.audio
    maxFps := hello.maxFps }

def handle (s : NativeSession K) (message : ClientMessage) : ServerMessage K × NativeSession K :=
  match message, s.handshaken with
  | .hello hello, _ =>
    if hello.version ≠ protocolVersion then
      (.error .versionMismatch
        s!"server speaks version {protocolVersion}, client offered {hello.version}", s)
    else
      ((s.greet hello).welcome, s.greet hello)
  | _, false => (.error .notReady "send hello first", s)
  | .ping, true => (.pong, s)
  | .command command, true =>
    match s.validate env command with
    | .error e => (e, s)
    | .ok () => (s.replyTo command, s)

end NativeSession

/-- The rule for callsigns, over characters. -/
structure Callsign (call : Text) : Prop where
  length : 3 ≤ call.length ∧ call.length ≤ 10
  chars : ∀ c ∈ call, c.isAlphanum = true ∨ c = '/'
  letter : ∃ c ∈ call, c.isAlpha = true
  digit : ∃ c ∈ call, c.isDigit = true

/-- The rules for the commands that need CW control. -/
def WithinCw (cw : CwCapability) : Command → Prop
  | .setKeyerSpeed wpm =>
    ∃ range, cw.keyerWpm = some range ∧ cw.keyerWpmWritable = true
      ∧ range.min ≤ wpm.toNat ∧ wpm.toNat ≤ range.max
  | .armCwTransmit callsign dummyLoadAcknowledged keyDownCapS =>
    ∃ send, cw.sendText = some send ∧ dummyLoadAcknowledged = true ∧ Callsign callsign
      ∧ (∀ c ∈ callsign, send.Sends c) ∧ keyDownCapS ≠ some 0
  | .sendCwText text =>
    ∃ send, cw.sendText = some send ∧ (∃ c ∈ text, Cw.Text.isWhitespace c = false)
      ∧ text.length ≤ maxCwTextChars ∧ (∀ c ∈ text, send.Sends c)
  | _ => ∃ send, cw.sendText = some send

/--
The values of a command lie within what is published, read as integers.
-/
def Within (caps : RadioCapabilities) (servesCw : Bool) (command : Command) : Prop :=
  match command with
  | .setFrequency vfo hz =>
    vfo.toNat < caps.vfos.count.toNat
      ∧ caps.rxRange.minHz.toNat ≤ hz.toNat ∧ hz.toNat ≤ caps.rxRange.maxHz.toNat
  | .retune hz => caps.rxRange.minHz.toNat ≤ hz.toNat ∧ hz.toNat ≤ caps.rxRange.maxHz.toNat
  | .setMode mode => ∃ m ∈ caps.modes, m.id = mode
  | .setSplit _ => caps.vfos.split = true
  | .setMemoryChannel channel =>
    ∃ memory, caps.memory = some memory
      ∧ memory.channels.min.toNat ≤ channel.toNat ∧ channel.toNat ≤ memory.channels.max.toNat
  | .setFilterWidth hz => ∃ widths, caps.filters.widthsHz = some widths ∧ hz ∈ widths
  | .setIfShift hz =>
    ∃ limit, caps.filters.ifShiftHz = some limit ∧ (hz.toInt.natAbs : Int) ≤ limit.toInt
  | .readMeter kind => ∃ m ∈ caps.meters.meters, m.kind = kind
  | .readState | .readDevices | .attachDevice _ _ | .abortCw => True
  | .setKeyerSpeed _ | .armCwTransmit _ _ _ | .sendCwText _ | .disarmCw =>
    servesCw = true ∧ ∃ cw, caps.cw = some cw ∧ WithinCw cw command

theorem utf8Size_callsign {c : Char} (h : c.isAlphanum = true ∨ c = '/')
    : (String.utf8EncodeChar c).length = 1 := by
  have hsmall : c.toNat ≤ 127 := by
    cases h with
    | inl h =>
      have hclass : ((decide ('A'.val ≤ c.val ∧ c.val ≤ 'Z'.val)
          || (decide ('a'.val ≤ c.val) && decide (c.val ≤ 'z'.val)))
          || (decide ('0'.val ≤ c.val) && decide (c.val ≤ '9'.val))) = true := h
      simp only [Bool.or_eq_true, Bool.and_eq_true, decide_eq_true_eq, UInt32.le_iff_toNat_le,
        Char.reduceVal, UInt32.reduceToNat] at hclass
      have htoNat : c.toNat = c.val.toNat := by rfl
      omega
    | inr h =>
      rw [h]
      decide
  rw [String.length_utf8EncodeChar, Char.utf8Size_eq_one_iff]
  exact hsmall

theorem byteLen_callsign {call : Text} (h : ∀ c ∈ call, c.isAlphanum = true ∨ c = '/')
    : byteLen call = call.length := by
  induction call with
  | nil => rfl
  | cons c call ih =>
    have hhead := utf8Size_callsign (h c (by simp))
    have htail := ih fun d hd => h d (by simp [hd])
    simp only [byteLen, List.flatMap_cons, List.length_append, List.length_cons] at htail ⊢
    omega

theorem isCallsign_iff {call : Text} : isCallsign call = true ↔ Callsign call := by
  simp only [isCallsign, Bool.and_eq_true, decide_eq_true_eq, List.all_eq_true, List.any_eq_true,
    Bool.or_eq_true, beq_iff_eq]
  constructor
  . rintro ⟨⟨⟨hlen, hchars⟩, hletter⟩, hdigit⟩
    rw [byteLen_callsign hchars] at hlen
    exact { length := hlen, chars := hchars, letter := hletter, digit := hdigit }
  . intro h
    rw [byteLen_callsign h.chars]
    exact ⟨⟨⟨h.length, h.chars⟩, h.letter⟩, h.digit⟩

theorem trim_eq_nil_iff {text : Text}
    : trim text = [] ↔ ∀ c ∈ text, Cw.Text.isWhitespace c = true := by
  simp only [trim, List.reverse_eq_nil_iff, List.dropWhile_eq_nil_iff,
    List.mem_reverse]
  constructor
  . intro h c hc
    rw [← List.takeWhile_append_dropWhile (p := Cw.Text.isWhitespace) (l := text),
      List.mem_append] at hc
    cases hc with
    | inl hc => exact List.mem_takeWhile_imp hc
    | inr hc => exact h c hc
  . intro h c hc
    exact h c ((List.dropWhile_sublist _).mem hc)

namespace NativeSession

variable {K : Kinds} {env : Cw.Env} {s : NativeSession K}

theorem validateArm_ok_iff {send : Cw.CwSendText} {callsign : Text} {acknowledged : Bool}
    {keyDownCapS : Option UInt16}
    : validateArm (K := K) env send callsign acknowledged keyDownCapS = .ok ()
      ↔ acknowledged = true ∧ Callsign callsign ∧ (∀ c ∈ callsign, send.Sends c)
        ∧ keyDownCapS ≠ some 0 := by
  rw [← isCallsign_iff, ← Cw.CwSendText.rejectedChar_eq_none]
  simp [validateArm, Option.eq_none_iff_forall_ne_some]

theorem validateSend_ok_iff {send : Cw.CwSendText} {text : Text}
    : validateSend (K := K) env send text = .ok ()
      ↔ (∃ c ∈ text, Cw.Text.isWhitespace c = false) ∧ text.length ≤ maxCwTextChars
        ∧ (∀ c ∈ text, send.Sends c) := by
  rw [← Cw.CwSendText.rejectedChar_eq_none]
  simp [validateSend, trim_eq_nil_iff, Option.eq_none_iff_forall_ne_some]

theorem validateCw_ok_iff {command : Command}
    : s.validateCw env command = .ok ()
      ↔ s.servesCw = true ∧ ∃ cw, s.capabilities.cw = some cw ∧ WithinCw cw command := by
  unfold validateCw
  cases s.capabilities.cw with
  | none => simp
  | some cw =>
    cases s.servesCw with
    | false => simp
    | true =>
      simp only [true_and, Option.some.injEq, exists_eq_left']
      cases command with
      | setKeyerSpeed wpm =>
        cases hwpm : cw.keyerWpm with
        | none => simp [WithinCw, hwpm]
        | some range => cases hwritable : cw.keyerWpmWritable <;> simp [WithinCw, hwpm, hwritable]
      | armCwTransmit callsign acknowledged cap =>
        cases hsend : cw.sendText <;> simp [WithinCw, hsend, validateArm_ok_iff]
      | sendCwText text =>
        cases hsend : cw.sendText <;> simp [WithinCw, hsend, validateSend_ok_iff]
      | _ => cases hsend : cw.sendText <;> simp [WithinCw, hsend]

theorem toInt_abs {a : Int32} (h : a ≠ Int32.minValue) : a.abs.toInt = a.toInt.natAbs := by
  have hne : a.toBitVec ≠ BitVec.intMin 32 := by
    intro heq
    apply h
    apply Int32.toBitVec_inj.mp
    rw [heq]
    rfl
  change (a.toBitVec.abs).toInt = _
  rw [BitVec.toInt_abs_eq_natAbs, if_neg hne]
  rfl

theorem validate_ok_iff {command : Command} (h : command ≠ .setIfShift Int32.minValue)
    : s.validate env command = .ok () ↔ Within s.capabilities s.servesCw command := by
  cases command with
  | setFrequency vfo hz =>
    simp [validate, Within, FrequencyRange.contains, UInt8.lt_iff_toNat_lt, UInt64.le_iff_toNat_le]
  | retune hz => simp [validate, Within, FrequencyRange.contains, UInt64.le_iff_toNat_le]
  | setMode mode => simp [validate, Within, RadioCapabilities.supportsMode]
  | setSplit enabled => simp [validate, Within]
  | setMemoryChannel channel =>
    cases hmemory : s.capabilities.memory <;>
      simp [validate, Within, hmemory, UInt16.le_iff_toNat_le]
  | setFilterWidth hz => cases hwidths : s.capabilities.filters.widthsHz <;>
      simp [validate, Within, hwidths]
  | setIfShift hz =>
    have hne : hz ≠ Int32.minValue := by
      intro heq
      rw [heq] at h
      contradiction
    cases hlimit : s.capabilities.filters.ifShiftHz <;>
      simp [validate, Within, hlimit, Int32.lt_iff_toInt_lt, toInt_abs hne]
  | readMeter kind => simp [validate, Within, MeterSet.has, MeterSet.find]
  | readState => simp [validate, Within]
  | readDevices => simp [validate, Within]
  | attachDevice kind spec => simp [validate, Within]
  | abortCw => simp [validate, Within]
  | setKeyerSpeed wpm => simp only [validate, Within, validateCw_ok_iff]
  | armCwTransmit callsign acknowledged cap => simp only [validate, Within, validateCw_ok_iff]
  | sendCwText text => simp only [validate, Within, validateCw_ok_iff]
  | disarmCw => simp only [validate, Within, validateCw_ok_iff]

/-- `i32::abs` wraps here, so that the least shift passes for one within every limit. -/
theorem validate_setIfShift_minValue
    : s.validate env (.setIfShift Int32.minValue) = .ok ()
      ↔ s.capabilities.filters.ifShiftHz ≠ none := by
  cases hlimit : s.capabilities.filters.ifShiftHz with
  | none => simp [validate, hlimit]
  | some limit =>
    have habs : Int32.minValue.abs = Int32.minValue := by decide
    have hmin := Int32.le_toInt limit
    simp only [validate, hlimit, refuseIf_eq_ok, habs, gt_iff_lt, Int32.lt_iff_toInt_lt,
      Int32.toInt_minValue]
    simp only [ne_eq, reduceCtorEq, not_false_eq_true, iff_true]
    omega

theorem not_within_minValue {caps : RadioCapabilities} {servesCw : Bool}
    : ¬ Within caps servesCw (.setIfShift Int32.minValue) := by
  rintro ⟨limit, _, hlimit⟩
  have hmax := Int32.toInt_lt limit
  rw [Int32.toInt_minValue] at hlimit
  omega

/-- A check that fails does so with an error message. -/
def Refuses (check : Except (ServerMessage K) Unit) : Prop :=
  ∀ e, check = .error e → ∃ code text, e = .error code text

theorem refuses_error {code : ErrorCode} {text : String}
    : Refuses (K := K) (.error (.error code text)) := by
  intro e he
  cases he
  exact ⟨code, text, rfl⟩

theorem refuses_ok : Refuses (K := K) (.ok ()) := by
  intro e he
  contradiction

theorem refuses_refuseIf {refused : Prop} [Decidable refused] {code : ErrorCode} {text : String}
    : Refuses (K := K) (refuseIf refused (.error code text)) := by
  unfold refuseIf
  split
  . exact refuses_error
  . exact refuses_ok

theorem refuses_checkSome {β : Type} {option : Option β}
    {check : β → Except (ServerMessage K) Unit} (h : ∀ b, Refuses (check b))
    : Refuses (checkSome option check) := by
  cases option with
  | none => exact refuses_ok
  | some b => exact h b

theorem refuses_bind {check : Except (ServerMessage K) Unit}
    {next : Unit → Except (ServerMessage K) Unit} (h : Refuses check) (hnext : Refuses (next ()))
    : Refuses (check >>= next) := by
  cases check with
  | error e => exact h
  | ok => exact hnext

theorem validateArm_refuses {send : Cw.CwSendText} {callsign : Text} {acknowledged : Bool}
    {keyDownCapS : Option UInt16}
    : Refuses (K := K) (validateArm env send callsign acknowledged keyDownCapS) := by
  apply refuses_bind refuses_refuseIf
  apply refuses_bind refuses_refuseIf
  apply refuses_bind _ refuses_refuseIf
  apply refuses_checkSome
  intro c
  exact refuses_error

theorem validateSend_refuses {send : Cw.CwSendText} {text : Text}
    : Refuses (K := K) (validateSend env send text) := by
  apply refuses_bind refuses_refuseIf
  apply refuses_bind refuses_refuseIf
  apply refuses_checkSome
  intro c
  exact refuses_error

theorem validateCw_refuses {command : Command} : Refuses (s.validateCw env command) := by
  fun_cases validateCw env s command with
  | case1 => exact refuses_refuseIf
  | case4 => exact validateArm_refuses
  | case5 => exact validateSend_refuses
  | case6 => exact refuses_ok
  | _ => exact refuses_error

theorem validate_refuses {command : Command} : Refuses (s.validate env command) := by
  fun_cases validate env s command with
  | case1 => exact refuses_bind refuses_refuseIf refuses_refuseIf
  | case5 | case7 | case9 => exact refuses_error
  | case12 | case13 | case14 | case15 => exact refuses_ok
  | case16 | case17 | case18 | case19 => exact validateCw_refuses
  | _ => exact refuses_refuseIf

theorem handle_ack_iff {command : Command}
    : (s.handle env (.command command)).1 = .ack
      ↔ s.handshaken = true ∧ s.validate env command = .ok () ∧ s.replyTo command = .ack := by
  unfold handle
  cases s.handshaken with
  | false => simp
  | true =>
    simp only [true_and]
    cases hvalidate : s.validate env command with
    | ok => simp
    | error e =>
      rcases validate_refuses e hvalidate with ⟨code, text, rfl⟩
      simp

inductive Publication (K : Kinds) where
  | setServesCw (servesCw : Bool)
  | setLayout (layout : Option K.LayoutSpec)
  | setTheme (theme : Option K.Theme)
  | publishState (state : RadioState)
  | publishDevices (devices : List K.DeviceList)

def publish (s : NativeSession K) : Publication K → NativeSession K
  | .setServesCw servesCw => { s with servesCw }
  | .setLayout layout => { s with layout }
  | .setTheme theme => { s with theme }
  | .publishState state => { s with state := some state }
  | .publishDevices devices => { s with devices := some devices }

inductive Input (K : Kinds) where
  | client (message : ClientMessage)
  | host (publication : Publication K)

inductive Event (K : Kinds) where
  | answered (message : ClientMessage) (reply : ServerMessage K)

def machine (env : Cw.Env) : Machine (NativeSession K) (Input K) (Event K)
  | s, .client message =>
    some ([.answered message (s.handle env message).1], (s.handle env message).2)
  | s, .host publication => some ([], s.publish publication)

/-- The Hello of an exchange that was welcomed. -/
def Event.welcomed : Event K → Option Hello
  | .answered (.hello hello) (.welcome _ _) => some hello
  | _ => none

def lastHello (log : List (Event K)) : Option Hello :=
  log.findSome? Event.welcomed

/-- What the log tells about a session. -/
structure Follows (caps : RadioCapabilities) (log : List (Event K)) (s : NativeSession K)
    : Prop where
  capabilities : s.capabilities = caps
  handshaken : s.handshaken = (lastHello log).isSome
  spectrum : s.spectrum = (lastHello log).any (·.spectrum)
  audio : s.audio = (lastHello log).any (·.audio)
  version : ∀ hello ∈ lastHello log, hello.version = protocolVersion

theorem handle_command (command : Command) : (s.handle env (.command command)).2 = s := by
  unfold handle
  cases s.handshaken with
  | false => rfl
  | true =>
    simp only
    cases s.validate env command <;> rfl

theorem handle_ping : (s.handle env .ping).2 = s := by
  unfold handle
  cases s.handshaken <;> rfl

theorem handle_hello (env : Cw.Env) (s : NativeSession K) (hello : Hello)
    : (hello.version = protocolVersion
        ∧ s.handle env (.hello hello) = ((s.greet hello).welcome, s.greet hello))
      ∨ ∃ text, s.handle env (.hello hello) = (.error .versionMismatch text, s) := by
  by_cases hversion : hello.version = protocolVersion
  . left
    exact ⟨hversion, by simp [handle, hversion]⟩
  . right
    rw [handle, if_pos hversion]
    exact ⟨_, rfl⟩

theorem handle_error {message : ClientMessage} {code : ErrorCode} {text : String}
    (h : (s.handle env message).1 = .error code text)
    : (s.handle env message).2 = s := by
  cases message with
  | command command => apply handle_command
  | ping => apply handle_ping
  | hello hello =>
    cases handle_hello env s hello with
    | inl hwelcome =>
      rw [hwelcome.2] at h
      contradiction
    | inr hrefused =>
      rcases hrefused with ⟨text, hrefused⟩
      rw [hrefused]

theorem Follows.quiet {caps : RadioCapabilities} {log : List (Event K)} {e : Event K}
    (h : Follows caps log s) (he : e.welcomed = none)
    : Follows caps (e :: log) s := by
  have hlast : lastHello (e :: log) = lastHello log := by
    simp [lastHello, he]
  exact { h with
    handshaken := hlast ▸ h.handshaken
    spectrum := hlast ▸ h.spectrum
    audio := hlast ▸ h.audio
    version := hlast ▸ h.version }

theorem Follows.handle {caps : RadioCapabilities} {log : List (Event K)} (h : Follows caps log s)
    (message : ClientMessage)
    : Follows caps (.answered message (s.handle env message).1 :: log)
        (s.handle env message).2 := by
  cases message with
  | command command =>
    rw [handle_command]
    apply h.quiet
    rfl
  | ping =>
    rw [handle_ping]
    apply h.quiet
    rfl
  | hello hello =>
    cases handle_hello env s hello with
    | inl hwelcome =>
      rw [hwelcome.2]
      exact {
        capabilities := h.capabilities
        handshaken := rfl
        spectrum := rfl
        audio := rfl
        version := by
          intro other hother
          cases hother
          exact hwelcome.1 }
    | inr hrefused =>
      rcases hrefused with ⟨text, hrefused⟩
      rw [hrefused]
      apply h.quiet
      rfl

theorem Follows.publish {caps : RadioCapabilities} {log : List (Event K)} (h : Follows caps log s)
    (publication : Publication K)
    : Follows caps log (s.publish publication) := by
  cases publication <;> exact { h with }

theorem follows_of_runs {caps : RadioCapabilities} {installation : K.Installation}
    {log : List (Event K)}
    (hrun : Machine.Runs (machine env) anything (withInstallation caps installation) log s)
    : Follows caps log s := by
  apply Machine.Runs.invariant (Follows caps) _ _ hrun
  . exact {
      capabilities := rfl
      handshaken := rfl
      spectrum := rfl
      audio := rfl
      version := by simp [lastHello] }
  . intro log s input evs t h _ taken
    cases input with
    | client message =>
      cases taken
      apply h.handle
    | host publication =>
      cases taken
      apply h.publish

/-- A Hello with the server's own version was welcomed. -/
def Welcomed (log : List (Event K)) : Prop :=
  ∃ hello, hello.version = protocolVersion ∧ ∃ e ∈ log, e.welcomed = some hello

theorem Follows.welcomed {caps : RadioCapabilities} {log : List (Event K)} (h : Follows caps log s)
    (hs : s.handshaken = true)
    : Welcomed log := by
  rw [h.handshaken, Option.isSome_iff_exists] at hs
  rcases hs with ⟨hello, hhello⟩
  exact ⟨hello, h.version hello hhello, List.exists_of_findSome?_eq_some hhello⟩

theorem Follows.ack_iff {caps : RadioCapabilities} {log : List (Event K)} (h : Follows caps log s)
    (command : Command)
    : ((s.handle env (.command command)).1 = .ack
        → Welcomed log ∧ Within caps s.servesCw command)
      ↔ ¬ (s.handshaken = true ∧ caps.filters.ifShiftHz ≠ none
        ∧ command = .setIfShift Int32.minValue) := by
  rw [handle_ack_iff, ← h.capabilities]
  constructor
  . rintro hgate ⟨hs, hlimit, rfl⟩
    have hok : s.validate env (.setIfShift Int32.minValue) = .ok () :=
      validate_setIfShift_minValue.mpr hlimit
    exact not_within_minValue (hgate ⟨hs, hok, rfl⟩).2
  . rintro hcondition ⟨hs, hok, _⟩
    apply And.intro (h.welcomed hs)
    apply (validate_ok_iff _).mp hok
    rintro rfl
    exact hcondition ⟨hs, validate_setIfShift_minValue.mp hok, rfl⟩

/--
A command is acknowledged only after a Hello in the server's version, and only when its values lie
within the published capabilities; the one exception is the least IF shift an `i32` can hold, whose
absolute value wraps. Streams go only to a console whose last Hello asked for them, and what is
refused changes nothing.
-/
theorem handle_gated {caps : RadioCapabilities} {installation : K.Installation}
    {log : List (Event K)}
    (hrun : Machine.Runs (machine env) anything (withInstallation caps installation) log s)
    : (∀ command,
        ((s.handle env (.command command)).1 = .ack
          → Welcomed log ∧ Within caps s.servesCw command)
        ↔ ¬ (s.handshaken = true ∧ caps.filters.ifShiftHz ≠ none
          ∧ command = .setIfShift Int32.minValue))
      ∧ (s.wantsSpectrum = true → ∃ hello, lastHello log = some hello ∧ hello.spectrum = true)
      ∧ (s.wantsAudio = true → ∃ hello, lastHello log = some hello ∧ hello.audio = true)
      ∧ (∀ message code text, (s.handle env message).1 = .error code text
        → (s.handle env message).2 = s) := by
  have h := follows_of_runs hrun
  refine ⟨h.ack_iff, ?_, ?_, fun _ _ _ => handle_error⟩
  . intro hwants
    simp only [wantsSpectrum, Bool.and_eq_true, h.spectrum, Option.any_eq_true] at hwants
    exact hwants.2
  . intro hwants
    simp only [wantsAudio, h.audio, Option.any_eq_true] at hwants
    exact hwants

namespace Bench

def kinds : Kinds :=
  { Installation := Unit, LayoutSpec := Unit, Theme := Unit, DeviceList := Unit }

def caps : RadioCapabilities :=
  { vfos := { count := 2, split := true }
    modes := [{ id := .usb }, { id := .cwUpper }]
    rxRange := { minHz := 500000, maxHz := 60000000 }
    filters := { ifShiftHz := some 1000, widthsHz := some [500, 2400] }
    meters := { meters := [{ kind := .s }] }
    memory := none
    cw := none }

def hello : Hello :=
  { version := 2, spectrum := true, audio := false, maxFps := none }

def start : NativeSession kinds :=
  withInstallation caps ()

def renderings : Cw.Env where
  estimate _ _ := 0
  secs _ := ""
  debugChar _ := ""
  debugText _ := ""
  debugDuration _ := ""

theorem runs_hello
    : Machine.Runs (machine renderings) anything start
        [.answered (.hello hello) (start.greet hello).welcome] (start.greet hello) := by
  have hstep : Machine.Step (machine renderings) anything start
      [.answered (.hello hello) (start.greet hello).welcome] (start.greet hello) :=
    .act (.client (.hello hello)) trivial rfl
  exact Exec.single hstep

end Bench

theorem handle_gated_retune
    : ∃ log s, Machine.Runs (machine Bench.renderings) anything Bench.start log s
        ∧ (s.handle Bench.renderings (.command (.retune 14060000))).1 = .ack
        ∧ Welcomed log ∧ Within Bench.caps s.servesCw (.retune 14060000) := by
  have hrun := Bench.runs_hello
  have hack : ((Bench.start.greet Bench.hello).handle Bench.renderings
      (.command (.retune 14060000))).1 = .ack := by
    rfl
  refine ⟨_, _, hrun, hack, ((handle_gated hrun).1 _).mpr ?_ hack⟩
  rintro ⟨_, _, h⟩
  contradiction

theorem handle_gated_counterexample
    : ∃ log s, Machine.Runs (machine Bench.renderings) anything Bench.start log s
        ∧ (s.handle Bench.renderings (.command (.setIfShift (-2147483648)))).1 = .ack
        ∧ ¬ Within Bench.caps s.servesCw (.setIfShift (-2147483648)) := by
  refine ⟨_, _, Bench.runs_hello, ?_, not_within_minValue⟩
  apply handle_ack_iff.mpr
  refine ⟨rfl, validate_setIfShift_minValue.mpr ?_, rfl⟩
  decide

/-- What the loop that serves a console calls. -/
def protocol (env : Cw.Env) (fromSlice : List UInt8 → Except String ClientMessage)
    : Protocol (NativeSession K) ClientMessage Command (ServerMessage K) RadioState
        (List K.DeviceList) where
  fromSlice
  command
    | .command command => some command
    | _ => none
  isAck
    | .ack => true
    | _ => false
  error := .error
  publishState state s := s.publish (.publishState state)
  publishDevices devices s := s.publish (.publishDevices devices)
  setServesCw servesCw s := s.publish (.setServesCw servesCw)
  handle message s := s.handle env message
  reachesHost s command := s.reachesHost command

def Reached (env : Cw.Env) (start s : NativeSession K) : Prop :=
  ∃ log, Machine.Runs (machine env) anything start log s

section

variable {start : NativeSession K} {fromSlice : List UInt8 → Except String ClientMessage}

theorem Reached.step (h : Reached env start s) (input : Input K) {evs : List (Event K)}
    {t : NativeSession K} (taken : machine env s input = some (evs, t))
    : Reached env start t := by
  rcases h with ⟨log, hrun⟩
  exact ⟨_, hrun.tail (.act input trivial taken)⟩

theorem Reached.publish (h : Reached env start s) (publication : Publication K)
    : Reached env start (s.publish publication) :=
  h.step (.host publication) rfl

theorem Reached.handle (h : Reached env start s) (message : ClientMessage)
    : Reached env start (s.handle env message).2 :=
  h.step (.client message) rfl

theorem protocol_keeps : (protocol env fromSlice).Keeps (Reached env start) where
  publishState state h := h.publish (.publishState state)
  publishDevices devices h := h.publish (.publishDevices devices)
  setServesCw servesCw h := h.publish (.setServesCw servesCw)
  handle message h := h.handle message

/-- All that holds of every sequence of messages and publications holds in the serving loop. -/
theorem serveOne_reached {log : List (Native.Event (ServerMessage K))}
    {c : Connection (NativeSession K)}
    (h : (serveOne (protocol env fromSlice)).Runs anything { session := start } log c)
    : Reached env start c.session := by
  apply serveOne_keeps protocol_keeps _ h
  exact ⟨[], .refl start⟩

end

end NativeSession

end Native
