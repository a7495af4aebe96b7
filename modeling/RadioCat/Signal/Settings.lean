import RadioCat.Arith.Float

/-!
This module contains the settings that a signal source publishes, the writing of one by its key
and runs of such writes.
-/

namespace Signal

open Arith

inductive SettingUnit where
  | none
  | hz
  | db
  | dbm
  | sps
  | percent
  | seconds
  deriving DecidableEq, Repr

inductive Access where
  | readOnly
  | readWrite
  deriving DecidableEq, Repr

inductive SettingGroup where
  | source
  | display
  | calibration
  deriving DecidableEq, Repr

inductive SettingValue where
  | int (value min max step : BitVec 64) (unit : SettingUnit)
  | float (value min max : F64) (unit : SettingUnit)
  | bool (value : Bool)
  | enum (value : BitVec 16) (options : List String)
  deriving DecidableEq, Repr

namespace SettingValue

def isValid : SettingValue → Bool
  | int value min max _ _ => min.sle value && value.sle max
  | float value min max _ => min.le value && value.le max
  | bool _ => true
  | enum value options => value.toNat < options.length

def sameKindAs : SettingValue → SettingValue → Bool
  | int .., int .. => true
  | float .., float .. => true
  | bool _, bool _ => true
  | enum .., enum .. => true
  | _, _ => false

end SettingValue

structure SettingDescriptor where
  key : String
  label : String
  group : SettingGroup
  access : Access
  value : SettingValue
  deriving DecidableEq, Repr

abbrev SpectrumSettings := List SettingDescriptor

def SpectrumSettings.find (settings : SpectrumSettings) (key : String)
    : Option SettingDescriptor :=
  settings.find? fun descriptor => descriptor.key = key

inductive SettingError where
  | unknownSetting (key : String)
  | readOnly (key : String)
  | wrongKind (key : String)
  | outOfRange (key : String)
  deriving DecidableEq, Repr

/-- A source by what it publishes, what its `apply` does with a value that passed the checks, and
what else happens to it. A write that panics has no result; one that no arm takes gives none. -/
structure Source (σ ε : Type) where
  settings : σ → SpectrumSettings
  write : String → SettingValue → σ → Option (Option σ)
  elapse : ε → σ → σ

inductive Event (ε : Type) where
  | apply (key : String) (value : SettingValue)
  | elapse (event : ε)

structure Call (σ : Type) where
  before : σ
  key : String
  value : SettingValue
  result : Except SettingError Unit

namespace Source

variable {σ ε : Type}

def apply (source : Source σ ε) (key : String) (value : SettingValue) (s : σ)
    : Option (Except SettingError Unit × σ) :=
  match SpectrumSettings.find (source.settings s) key with
  | none => some (.error (.unknownSetting key), s)
  | some descriptor =>
    if descriptor.access = .readOnly then
      some (.error (.readOnly descriptor.key), s)
    else if descriptor.value.sameKindAs value = false then
      some (.error (.wrongKind descriptor.key), s)
    else if value.isValid = false then
      some (.error (.outOfRange descriptor.key), s)
    else
      match source.write descriptor.key value s with
      | none => none
      | some none => some (.error (.unknownSetting key), s)
      | some (some s') => some (.ok (), s')

def run (source : Source σ ε) : σ → List (Event ε) → Option (List (Call σ) × σ)
  | s, [] => some ([], s)
  | s, .apply key value :: events => do
    let (result, s') ← source.apply key value s
    let (calls, final) ← source.run s' events
    some ({ before := s, key, value, result } :: calls, final)
  | s, .elapse event :: events => source.run (source.elapse event s) events

end Source

inductive Payload where
  | int (value : BitVec 64)
  | float (value : F64)
  | bool (value : Bool)
  | enum (value : BitVec 16)
  deriving DecidableEq, Repr

namespace SettingValue

def payload : SettingValue → Payload
  | int value _ _ _ _ => .int value
  | float value _ _ _ => .float value
  | bool value => .bool value
  | enum value _ => .enum value

def withPayload : SettingValue → Payload → SettingValue
  | int _ min max step unit, .int value => int value min max step unit
  | float _ min max unit, .float value => float value min max unit
  | bool _, .bool value => bool value
  | enum _ options, .enum value => enum value options
  | setting, _ => setting

/-- Of the setting's kind and inside its bounds or its option list. -/
def admits (setting : SettingValue) (payload : Payload) : Bool :=
  (setting.withPayload payload).payload == payload && (setting.withPayload payload).isValid

theorem payload_withPayload {setting : SettingValue} {payload : Payload}
    (h : setting.admits payload) : (setting.withPayload payload).payload = payload := by
  rw [admits, Bool.and_eq_true, beq_iff_eq] at h
  exact h.1

theorem isValid_withPayload {setting : SettingValue} {payload : Payload}
    (h : setting.admits payload) : (setting.withPayload payload).isValid := by
  rw [admits, Bool.and_eq_true] at h
  exact h.2

end SettingValue

/-- The value of the last call that was accepted for a key. -/
def lastAccepted {σ : Type} : List (Call σ) → String → Option SettingValue
  | [], _ => none
  | call :: calls, key =>
    (lastAccepted calls key).or
      (if call.key = key ∧ call.result.isOk then some call.value else none)

namespace Source

variable {σ ε : Type}

/-- No call panics, what is accepted is writable and inside the published bounds, and a writable
setting for which a value was accepted is published with the last such value. -/
def Respected (source : Source σ ε) (start : σ) (events : List (Event ε)) : Prop :=
  ∃ calls final, source.run start events = some (calls, final) ∧
    (∀ call ∈ calls, call.result.isOk →
      ∃ descriptor, SpectrumSettings.find (source.settings call.before) call.key = some descriptor ∧
        descriptor.access = .readWrite ∧ descriptor.value.sameKindAs call.value ∧
        descriptor.value.admits call.value.payload) ∧
    ∀ key descriptor, SpectrumSettings.find (source.settings final) key = some descriptor →
      descriptor.access = .readWrite → ∀ value, lastAccepted calls key = some value →
        descriptor.value.payload = value.payload ∧ descriptor.value.isValid

/-- What passes its own record's check is inside what the source publishes, and the source can hold
it. -/
def Meets (source : Source σ ε) (Held : String → Payload → Prop) (s : σ) (key : String)
    (value : SettingValue) : Prop :=
  ∀ descriptor, SpectrumSettings.find (source.settings s) key = some descriptor →
    descriptor.access = .readWrite → descriptor.value.sameKindAs value → value.isValid →
      descriptor.value.admits value.payload ∧ Held key value.payload

def AllMeet (source : Source σ ε) (Held : String → Payload → Prop) : σ → List (Event ε) → Prop
  | _, [] => True
  | s, .apply key value :: events =>
    source.Meets Held s key value ∧
      ∀ result s', source.apply key value s = some (result, s') → source.AllMeet Held s' events
  | s, .elapse event :: events => source.AllMeet Held (source.elapse event s) events

end Source

end Signal
