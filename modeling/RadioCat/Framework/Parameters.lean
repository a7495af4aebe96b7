import Mathlib.Data.Nat.Digits.Defs
import Mathlib.Tactic.Ring
import RadioCat.Arith.Checked
import RadioCat.Framework.Formats

/-!
This module contains what a command handler reads off the parameters of a text line: the text
itself and the unsigned number it spells.
-/

namespace Framework

open Arith

inductive ParameterAccessError where
  | invalidUnsigned
  deriving DecidableEq, Repr

namespace ParameterValues

/-- `str::as_bytes` -/
def asBytes (text : List Char) : List UInt8 :=
  text.flatMap String.utf8EncodeChar

/-- `raw()`; there is no text where the `expect` on `from_utf8` fails. -/
def raw (parameters : List UInt8) : Option (List Char) :=
  parameters.toByteArray.utf8Decode?.map Array.toList

def isDigit (byte : UInt8) : Bool :=
  0x30 ≤ byte && byte ≤ 0x39

/-- `u64::from_str`. A sign alone is no number, and of the signs only `+` goes before one. -/
def parseU64 : List UInt8 → Option (BitVec 64)
  | [] => none
  | [0x2B] => none
  | [0x2D] => none
  | 0x2B :: digits => go digits 0
  | digits => go digits 0
where
  go : List UInt8 → BitVec 64 → Option (BitVec 64)
    | [], result => some result
    | byte :: digits, result => do
      let product ← checkedMul result 10
      if isDigit byte then
        let sum ← checkedAdd product ((byte - 0x30).toBitVec.setWidth 64)
        go digits sum
      else
        none

/-- `unsigned()`, which reads `raw()` first. -/
def unsigned (parameters : List UInt8)
    : Option (Except ParameterAccessError (BitVec 64)) :=
  (raw parameters).map fun text =>
    match parseU64 (asBytes text) with
    | some v => .ok v
    | none => .error .invalidUnsigned

theorem raw_eq_some_iff {parameters : List UInt8} {text : List Char}
    : raw parameters = some text ↔ asBytes text = parameters := by
  have hencode : text.utf8Encode = (asBytes text).toByteArray := by
    rfl
  constructor
  . intro h
    rcases Option.map_eq_some_iff.mp h with ⟨chars, hdecode, rfl⟩
    have hget := @ByteArray.utf8Encode_get_utf8Decode? parameters.toByteArray
      (by rw [hdecode]; rfl)
    simp only [hdecode, Option.get_some] at hget
    rw [hencode] at hget
    rw [← @List.toList_data_toByteArray (asBytes _), hget, List.toList_data_toByteArray]
  . intro h
    rw [raw, ← h, ← hencode, List.utf8Decode?_utf8Encode, Option.map_some]

/-- A non-empty string of ASCII digits. -/
def Digits (bytes : List UInt8) : Prop :=
  bytes ≠ [] ∧ ∀ byte ∈ bytes, isDigit byte = true

instance (bytes : List UInt8) : Decidable (Digits bytes) :=
  inferInstanceAs (Decidable (_ ∧ _))

def number (bytes : List UInt8) : Nat :=
  Nat.ofDigits 10 (bytes.reverse.map fun byte => (byte - 0x30).toNat)

@[simp]
theorem number_nil : number [] = 0 := by
  rfl

theorem number_cons (byte : UInt8) (bytes : List UInt8)
    : number (byte :: bytes) = (byte - 0x30).toNat * 10 ^ bytes.length + number bytes := by
  rw [number, List.reverse_cons, List.map_append, List.map_singleton, Nat.ofDigits_append,
    Nat.ofDigits_singleton, List.length_map, List.length_reverse, Nat.add_comm, Nat.mul_comm]
  rfl

theorem go_eq_some_iff {digits : List UInt8} {result v : BitVec 64}
    : parseU64.go digits result = some v ↔
      (∀ byte ∈ digits, isDigit byte = true)
        ∧ result.toNat * 10 ^ digits.length + number digits = v.toNat := by
  induction digits generalizing result with
  | nil =>
    simp [parseU64.go, BitVec.toNat_eq]
  | cons byte digits ih =>
    have hdigit : ((byte - 0x30).toBitVec.setWidth 64 : BitVec 64).toNat = (byte - 0x30).toNat := by
      have hlt := (byte - 0x30).toNat_lt
      rw [BitVec.toNat_setWidth, UInt8.toNat_toBitVec]
      omega
    have hpos : 0 < 10 ^ digits.length := Nat.pow_pos (by decide)
    have hsplit (n : Nat) : n * 10 ^ (digits.length + 1) = n * 10 * 10 ^ digits.length := by
      ring
    rw [List.forall_mem_cons, number_cons, List.length_cons, hsplit, ← Nat.add_assoc,
      ← Nat.add_mul]
    simp only [parseU64.go, Option.bind_eq_bind]
    constructor
    . intro h
      rcases Option.bind_eq_some_iff.mp h with ⟨product, hproduct, hrest⟩
      split at hrest
      next hbyte =>
        rcases Option.bind_eq_some_iff.mp hrest with ⟨sum, hsum, hgo⟩
        rw [checkedMul_eq_some_iff] at hproduct
        rw [checkedAdd_eq_some_iff, hproduct, hdigit] at hsum
        rw [ih, hsum] at hgo
        exact ⟨⟨hbyte, hgo.1⟩, hgo.2⟩
      next => cases hrest
    . rintro ⟨⟨hbyte, hdigits⟩, hvalue⟩
      have hv := v.isLt
      have hle : result.toNat * 10 + (byte - 0x30).toNat
          ≤ (result.toNat * 10 + (byte - 0x30).toNat) * 10 ^ digits.length :=
        Nat.le_mul_of_pos_right _ hpos
      have hproduct : checkedMul result 10 = checked 64 (result.toNat * 10) := by
        rfl
      have hsum : checkedAdd (BitVec.ofNat 64 (result.toNat * 10))
            ((byte - 0x30).toBitVec.setWidth 64)
          = some (BitVec.ofNat 64 (result.toNat * 10 + (byte - 0x30).toNat)) := by
        rw [checkedAdd, hdigit, BitVec.toNat_ofNat, Nat.mod_eq_of_lt (by omega)]
        exact checked_of_lt (by omega)
      rw [hproduct, checked_of_lt (by omega), Option.bind_some, if_pos hbyte, hsum,
        Option.bind_some, ih, BitVec.toNat_ofNat, Nat.mod_eq_of_lt (by omega)]
      exact ⟨hdigits, hvalue⟩

theorem parseU64_eq_some_iff {bytes : List UInt8} {v : BitVec 64}
    : parseU64 bytes = some v ↔
      ∃ digits, (bytes = digits ∨ bytes = 0x2B :: digits)
        ∧ Digits digits ∧ number digits = v.toNat := by
  have hgo (digits : List UInt8) : parseU64.go digits 0 = some v ↔
      (∀ byte ∈ digits, isDigit byte = true) ∧ number digits = v.toNat := by
    rw [go_eq_some_iff]
    simp
  have hsign : isDigit 0x2B = false := by
    decide
  fun_cases parseU64 bytes
  case case1 => simp [Digits]
  case case2 => simp [Digits, hsign]
  case case3 =>
    have hminus : isDigit 0x2D = false := by
      decide
    simp [Digits, hminus]
  case case4 digits hne =>
    rw [hgo]
    constructor
    . rintro ⟨hdigits, hvalue⟩
      exact ⟨digits, Or.inr rfl, ⟨hne, hdigits⟩, hvalue⟩
    . rintro ⟨rest, rfl | hrest, hdigits, hvalue⟩
      . have hplus := hdigits.2 0x2B List.mem_cons_self
        rw [hsign] at hplus
        cases hplus
      . rw [(List.cons.inj hrest).2]
        exact ⟨hdigits.2, hvalue⟩
  case case5 hnil _ _ hplus =>
    rw [hgo]
    constructor
    . rintro ⟨hdigits, hvalue⟩
      exact ⟨bytes, Or.inl rfl, ⟨hnil, hdigits⟩, hvalue⟩
    . rintro ⟨rest, rfl | hrest, hdigits, hvalue⟩
      . exact ⟨hdigits.2, hvalue⟩
      . exact absurd hrest (hplus rest)

/-- What a handler may expect of the parameters: they are a text, and an unsigned number is read
off them exactly when they are digits whose value fits. -/
structure Sound (parameters : List UInt8) : Prop where
  raw : ∃ text, raw parameters = some text ∧ asBytes text = parameters
  unsigned : ∀ v, unsigned parameters = some (.ok v) ↔
    Digits parameters ∧ number parameters = v.toNat

theorem unsigned_eq_ok_iff {parameters : List UInt8} {text : List Char}
    (h : asBytes text = parameters) (v : BitVec 64)
    : unsigned parameters = some (.ok v) ↔ parseU64 parameters = some v := by
  rw [ParameterValues.unsigned, raw_eq_some_iff.mpr h, Option.map_some, h, Option.some.injEq]
  cases parseU64 parameters with
  | none => simp
  | some v' => simp

theorem sound_iff (parameters : List UInt8)
    : Sound parameters ↔
      (∃ text, asBytes text = parameters)
        ∧ ¬∃ digits, parameters = 0x2B :: digits ∧ Digits digits ∧ number digits < 2 ^ 64 := by
  constructor
  . intro h
    rcases h.raw with ⟨text, _, htext⟩
    refine ⟨⟨text, htext⟩, ?_⟩
    rintro ⟨digits, hplus, hdigits, hfits⟩
    have hnumber : number digits = (BitVec.ofNat 64 (number digits)).toNat := by
      rw [BitVec.toNat_ofNat, Nat.mod_eq_of_lt hfits]
    have hparse := parseU64_eq_some_iff.mpr ⟨digits, Or.inr hplus, hdigits, hnumber⟩
    have hall := ((h.unsigned _).mp ((unsigned_eq_ok_iff htext _).mpr hparse)).1.2
    have hsign := hall 0x2B (by rw [hplus]; exact List.mem_cons_self)
    exact absurd hsign (by decide)
  . rintro ⟨⟨text, htext⟩, hplus⟩
    refine ⟨⟨text, raw_eq_some_iff.mpr htext, htext⟩, ?_⟩
    intro v
    rw [unsigned_eq_ok_iff htext, parseU64_eq_some_iff]
    constructor
    . rintro ⟨digits, rfl | hdigits, h⟩
      . exact h
      . refine absurd ⟨digits, hdigits, h.1, ?_⟩ hplus
        rw [h.2]
        exact v.isLt
    . intro h
      exact ⟨parameters, Or.inl rfl, h⟩

theorem parameters_of_parse {ι : Type} {table : CommandTable ι AsciiLineFormat.Code}
    {frame : List UInt8} {request : CommandRequest ι AsciiLineFormat.Code}
    (h : table.parse (AsciiLineFormat.mk) frame = .ok request)
    : request.parameters = frame.dropLast.drop 2 := by
  rcases CommandTable.findCommand_of_parse h with ⟨definition, hfind, _⟩
  have hfind : AsciiLineFormat.findCommand table frame = .ok (definition, request.parameters) :=
    hfind
  revert hfind
  fun_cases AsciiLineFormat.findCommand table frame
  case case1 hsplit _ _ _ =>
    intro hfind
    cases hfind
    rw [hsplit]
    rfl
  all_goals
    intro hfind
    cases hfind

/-- A frame is accepted by its code and the width of its parameters. These are what a handler may
expect exactly when the bytes before the terminator are UTF-8 and no number with a sign before
it. -/
theorem parameters_sound_iff {ι : Type} (table : CommandTable ι AsciiLineFormat.Code)
    (frame : List UInt8) (request : CommandRequest ι AsciiLineFormat.Code)
    (h : table.parse (AsciiLineFormat.mk) frame = .ok request)
    : Sound request.parameters ↔
      (∃ text, asBytes text = frame.dropLast.drop 2)
        ∧ ¬∃ digits, frame.dropLast.drop 2 = 0x2B :: digits ∧ Digits digits
            ∧ number digits < 2 ^ 64 := by
  rw [parameters_of_parse h]
  exact sound_iff _

namespace Bench

/-- `MD`, which sets one character, and `FR`, which sets two. -/
def table : CommandTable Nat AsciiLineFormat.Code where
  definitions :=
    [{ id := 0, code := [0x4D, 0x44], name := "mode", setForms := [.fixed .set 1],
       readable := false, writable := true },
     { id := 1, code := [0x46, 0x52], name := "receiver", setForms := [.fixed .set 2],
       readable := false, writable := true }]

def mode (parameter : UInt8) : CommandRequest Nat AsciiLineFormat.Code :=
  { id := 0, code := [0x4D, 0x44], operation := .set, parameters := [parameter] }

def receiver (parameters : List UInt8) : CommandRequest Nat AsciiLineFormat.Code :=
  { id := 1, code := [0x46, 0x52], operation := .set, parameters }

end Bench

theorem parameters_sound_digits
    : Bench.table.parse (AsciiLineFormat.mk) [0x46, 0x52, 0x34, 0x32, 0x3B]
        = .ok (Bench.receiver [0x34, 0x32])
      ∧ Sound (Bench.receiver [0x34, 0x32]).parameters := by
  have hparse : Bench.table.parse (AsciiLineFormat.mk) [0x46, 0x52, 0x34, 0x32, 0x3B]
      = .ok (Bench.receiver [0x34, 0x32]) := by
    decide
  refine ⟨hparse, (parameters_sound_iff _ _ _ hparse).mpr ⟨⟨['4', '2'], by decide⟩, ?_⟩⟩
  rintro ⟨digits, hplus, _⟩
  cases hplus

theorem raw_invalid : raw [0xFF] = none := by
  cases h : raw [0xFF] with
  | none => rfl
  | some text =>
    have htext := raw_eq_some_iff.mp h
    have hvalid : ByteArray.IsValidUTF8 [0xFF].toByteArray :=
      ⟨text, (congrArg List.toByteArray htext).symm⟩
    have hfirst := hvalid.isUTF8FirstByte_getElem_zero (by decide)
    exact absurd hfirst (by decide)

/-- A byte that is no text is accepted where one character goes, and reading it fails; and `+5`
is accepted and read as a number. -/
theorem parameters_sound_counterexample
    : (Bench.table.parse (AsciiLineFormat.mk) [0x4D, 0x44, 0xFF, 0x3B] = .ok (Bench.mode 0xFF)
        ∧ raw (Bench.mode 0xFF).parameters = none)
      ∧ Bench.table.parse (AsciiLineFormat.mk) [0x46, 0x52, 0x2B, 0x35, 0x3B]
          = .ok (Bench.receiver [0x2B, 0x35])
        ∧ unsigned (Bench.receiver [0x2B, 0x35]).parameters = some (.ok 5)
        ∧ ¬Digits (Bench.receiver [0x2B, 0x35]).parameters := by
  have htext : asBytes ['+', '5'] = [0x2B, 0x35] := by
    decide
  refine ⟨⟨by decide, raw_invalid⟩, by decide, ?_, by decide⟩
  exact (unsigned_eq_ok_iff htext 5).mpr (by decide)

end ParameterValues

end Framework
