import RadioCat.Framework.Table

/-!
This module contains the two wire formats of the CAT framework: text lines that end in `;` and the
addressed binary frames of CI-V.
-/

namespace Framework

structure AsciiLineFormat where
  deriving DecidableEq, Repr

namespace AsciiLineFormat

/-- The bytes of a `&str`. -/
abbrev Code := List UInt8

def terminator : UInt8 := 0x3B

-- What `core::str::from_utf8` accepts of two bytes.
def utf8Pair (a b : UInt8) : Bool :=
  (a < 0x80 && b < 0x80) || (0xC2 ≤ a && a ≤ 0xDF && 0x80 ≤ b && b ≤ 0xBF)

def findCommand {ι : Type} (table : CommandTable ι Code) (frame : List UInt8)
    : Except (ParseError Code) (CommandDefinition ι Code × List UInt8) :=
  if frame.getLast? = some terminator then
    match frame.dropLast with
    | a :: b :: parameters =>
      if utf8Pair a b then
        match table.find [a, b] with
        | some definition => .ok (definition, parameters)
        | none => .error (.unknownCommand [a, b])
      else
        .error .invalidSyntax
    | _ => .error .invalidSyntax
  else
    .error .missingTerminator

def encodeRequest (code : Code) (params : List UInt8) : List UInt8 :=
  code ++ params ++ [terminator]

instance : CatWireFormat AsciiLineFormat Code where
  findCommand _ table frame := AsciiLineFormat.findCommand table frame
  encodeRequest _ code params := AsciiLineFormat.encodeRequest code params

theorem encodeRequest_of_findCommand {ι : Type} {table : CommandTable ι Code}
    {frame params : List UInt8} {definition : CommandDefinition ι Code}
    (h : findCommand table frame = .ok (definition, params))
    : encodeRequest definition.code params = frame := by
  revert h
  fun_cases AsciiLineFormat.findCommand table frame
  case case1 hlast a b parameters hsplit _ found hfind =>
    intro h
    cases h
    rw [CommandTable.code_of_find hfind]
    have hframe := List.dropLast_append_getLast? terminator hlast
    rw [hsplit] at hframe
    exact hframe
  all_goals
    intro h
    cases h

end AsciiLineFormat

structure CivFormat where
  radio : UInt8
  controller : UInt8
  deriving DecidableEq, Repr

namespace CivFormat

abbrev Code := UInt8 × Option UInt8

def preamble : UInt8 := 0xFE

def endOfMessage : UInt8 := 0xFD

structure Envelope where
  «to» : UInt8
  «from» : UInt8
  payload : List UInt8
  deriving DecidableEq, Repr

def parseEnvelope (frame : List UInt8) : Option Envelope :=
  if frame.length < 6 then
    none
  else
    match frame with
    | p :: q :: «to» :: «from» :: rest =>
      if p ≠ preamble ∨ q ≠ preamble then
        none
      else if rest.getLast? ≠ some endOfMessage then
        none
      else if rest.dropLast.isEmpty then
        none
      else
        some { «to», «from», payload := rest.dropLast }
    | _ => none

def findCommand {ι : Type} (table : CommandTable ι Code) (frame : List UInt8)
    : Except (ParseError Code) (CommandDefinition ι Code × List UInt8) :=
  match parseEnvelope frame with
  | some { payload := command :: rest, .. } =>
    match bySub table command rest with
    | some found => .ok found
    | none =>
      match table.find (command, none) with
      | some definition => .ok (definition, rest)
      | none => .error (.unknownCommand (command :: rest.take 1))
  | _ => .error .invalidSyntax
where
  -- Looking for the bare command first would shadow every sub-command it has.
  bySub (table : CommandTable ι Code) (command : UInt8)
      : List UInt8 → Option (CommandDefinition ι Code × List UInt8)
    | sub :: parameters => (table.find (command, some sub)).map fun definition =>
        (definition, parameters)
    | [] => none

def encodeRequest (format : CivFormat) (code : Code) (params : List UInt8) : List UInt8 :=
  [preamble, preamble, format.radio, format.controller, code.1] ++ code.2.toList ++ params
    ++ [endOfMessage]

/-- Whether a frame is addressed to this controller by this radio. -/
def isForUs (format : CivFormat) (frame : List UInt8) : Bool :=
  match parseEnvelope frame with
  | some envelope => envelope.to == format.controller && envelope.from == format.radio
  | none => false

/-- Whether a frame is a request of this controller, which every bus sends back. -/
def isEcho (format : CivFormat) (frame : List UInt8) : Bool :=
  match parseEnvelope frame with
  | some envelope => envelope.to == format.radio && envelope.from == format.controller
  | none => false

def frameComplete (buffer : List UInt8) : Bool :=
  buffer.getLast? == some endOfMessage

/-- The addresses of a reply are those of the request, the other way around. -/
def encodeResponse (format : CivFormat) (code : Code) (params : List UInt8) : List UInt8 :=
  [preamble, preamble, format.controller, format.radio, code.1] ++ code.2.toList ++ params
    ++ [endOfMessage]

def ok : UInt8 := 0xFB

def ng : UInt8 := 0xFA

def encodeOk (format : CivFormat) : List UInt8 :=
  [preamble, preamble, format.controller, format.radio, ok, endOfMessage]

def encodeNg (format : CivFormat) : List UInt8 :=
  [preamble, preamble, format.controller, format.radio, ng, endOfMessage]

instance : CatWireFormat CivFormat Code where
  findCommand _ table frame := CivFormat.findCommand table frame
  encodeRequest := CivFormat.encodeRequest

theorem payload_of_parseEnvelope {frame : List UInt8} {envelope : Envelope}
    (h : parseEnvelope frame = some envelope)
    : envelope.payload ++ [endOfMessage] = frame.drop 4 := by
  revert h
  fun_cases parseEnvelope frame
  case case5 _ hlast _ _ =>
    intro h
    cases h
    exact List.dropLast_append_getLast? endOfMessage (not_not.mp hlast)
  all_goals
    intro h
    cases h

theorem parseEnvelope_frame («to» «from» : UInt8) {payload : List UInt8} (h : payload ≠ [])
    : parseEnvelope (preamble :: preamble :: «to» :: «from» :: (payload ++ [endOfMessage]))
      = some { «to», «from», payload } := by
  have hlength := List.length_pos_iff.mpr h
  simp only [parseEnvelope, List.length_cons, List.length_append, List.length_nil]
  rw [if_neg (by omega)]
  simp [h]

theorem frame_of_parseEnvelope {frame : List UInt8} {envelope : Envelope}
    (h : parseEnvelope frame = some envelope)
    : envelope.payload ≠ [] ∧
      frame = preamble :: preamble :: envelope.to :: envelope.from
        :: (envelope.payload ++ [endOfMessage]) := by
  have hpayload := payload_of_parseEnvelope h
  revert h
  fun_cases parseEnvelope frame
  case case5 p q to' from' rest hpreamble _ hempty _ =>
    intro h
    cases h
    rw [not_or, not_not, not_not] at hpreamble
    refine ⟨by simpa using hempty, ?_⟩
    rw [hpayload, hpreamble.1, hpreamble.2]
    rfl
  all_goals
    intro h
    cases h

theorem isForUs_iff {format : CivFormat} {frame : List UInt8}
    : format.isForUs frame = true ↔
      ∃ payload, payload ≠ [] ∧
        frame = preamble :: preamble :: format.controller :: format.radio
          :: (payload ++ [endOfMessage]) := by
  constructor
  . intro h
    unfold isForUs at h
    split at h
    next envelope henvelope =>
      rcases frame_of_parseEnvelope henvelope with ⟨hpayload, hframe⟩
      rw [Bool.and_eq_true, beq_iff_eq, beq_iff_eq] at h
      refine ⟨envelope.payload, hpayload, ?_⟩
      rw [← h.1, ← h.2]
      exact hframe
    next => cases h
  . rintro ⟨payload, hpayload, rfl⟩
    simp [isForUs, parseEnvelope_frame _ _ hpayload]

theorem not_isEcho_of_isForUs {format : CivFormat} (h : format.radio ≠ format.controller)
    {frame : List UInt8} (hframe : format.isForUs frame = true) : format.isEcho frame = false := by
  rcases isForUs_iff.mp hframe with ⟨payload, hpayload, rfl⟩
  simp [isEcho, parseEnvelope_frame _ _ hpayload, h.symm]

theorem isEcho_iff {format : CivFormat} {frame : List UInt8}
    : format.isEcho frame = true ↔
      ∃ payload, payload ≠ [] ∧
        frame = preamble :: preamble :: format.radio :: format.controller
          :: (payload ++ [endOfMessage]) := by
  -- The echo of one station is the answer to the station at the other address.
  exact @isForUs_iff { radio := format.controller, controller := format.radio } frame

theorem payload_of_bySub {ι : Type} {table : CommandTable ι Code} {command : UInt8}
    {rest params : List UInt8} {definition : CommandDefinition ι Code}
    (h : findCommand.bySub table command rest = some (definition, params))
    : definition.code.1 :: (definition.code.2.toList ++ params) = command :: rest := by
  cases rest with
  | nil => cases h
  | cons sub parameters =>
    simp only [findCommand.bySub, Option.map_eq_some_iff, Prod.mk.injEq] at h
    obtain ⟨_, hfind, rfl, rfl⟩ := h
    rw [CommandTable.code_of_find hfind]
    rfl

theorem encodeRequest_of_findCommand {ι : Type} {table : CommandTable ι Code}
    {frame params : List UInt8} {definition : CommandDefinition ι Code} (format : CivFormat)
    (h : findCommand table frame = .ok (definition, params))
    : ∃ payload, frame.drop 4 = payload ++ [endOfMessage]
      ∧ format.encodeRequest definition.code params
        = [preamble, preamble, format.radio, format.controller] ++ payload ++ [endOfMessage] := by
  revert h
  fun_cases CivFormat.findCommand table frame
  case case1 command rest henvelope found hsub =>
    intro h
    cases h
    refine ⟨command :: rest, (payload_of_parseEnvelope henvelope).symm, ?_⟩
    rw [encodeRequest, ← payload_of_bySub hsub]
    simp
  case case2 command _ henvelope _ _ hbare =>
    intro h
    cases h
    refine ⟨command :: params, (payload_of_parseEnvelope henvelope).symm, ?_⟩
    rw [encodeRequest, CommandTable.code_of_find hbare]
    simp
  all_goals
    intro h
    cases h

theorem isEcho_encodeRequest (format : CivFormat) (code : Code) (params : List UInt8)
    : format.isEcho (format.encodeRequest code params) = true := by
  apply isEcho_iff.mpr
  refine ⟨code.1 :: (code.2.toList ++ params), List.cons_ne_nil _ _, ?_⟩
  simp [encodeRequest]

theorem isForUs_encodeResponse (format : CivFormat) (code : Code) (params : List UInt8)
    : format.isForUs (format.encodeResponse code params) = true := by
  apply isForUs_iff.mpr
  refine ⟨code.1 :: (code.2.toList ++ params), List.cons_ne_nil _ _, ?_⟩
  simp [encodeResponse]

theorem isForUs_encodeOk (format : CivFormat) : format.isForUs format.encodeOk = true := by
  exact isForUs_iff.mpr ⟨[ok], List.cons_ne_nil _ _, rfl⟩

theorem isForUs_encodeNg (format : CivFormat) : format.isForUs format.encodeNg = true := by
  exact isForUs_iff.mpr ⟨[ng], List.cons_ne_nil _ _, rfl⟩

theorem not_isForUs_of_isEcho {format : CivFormat} (h : format.radio ≠ format.controller)
    {frame : List UInt8} (hframe : format.isEcho frame = true) : format.isForUs frame = false := by
  cases hus : format.isForUs frame with
  | false => rfl
  | true =>
    have hecho := not_isEcho_of_isForUs h hus
    rw [hframe] at hecho
    cases hecho

theorem findCommand_frame {ι : Type} (table : CommandTable ι Code) («to» «from» command : UInt8)
    (rest : List UInt8)
    : findCommand table
        (preamble :: preamble :: «to» :: «from» :: (command :: rest ++ [endOfMessage]))
      = match findCommand.bySub table command rest with
        | some found => .ok found
        | none =>
          match table.find (command, none) with
          | some definition => .ok (definition, rest)
          | none => .error (.unknownCommand (command :: rest.take 1)) := by
  rw [findCommand, parseEnvelope_frame _ _ (List.cons_ne_nil command rest)]

/-- A bare command has no sub-command that its first parameter could be taken for. -/
theorem bySub_bare {ι : Type} {table : CommandTable ι Code} {command : UInt8}
    (h : ∀ definition ∈ table.definitions, definition.code.1 = command → definition.code.2 = none)
    (params : List UInt8) : findCommand.bySub table command params = none := by
  cases params with
  | nil => rfl
  | cons sub params =>
    rw [findCommand.bySub, Option.map_eq_none_iff]
    cases hfind : table.find (command, some sub) with
    | none => rfl
    | some definition =>
      have hcode := CommandTable.code_of_find hfind
      have hbare := h definition (CommandTable.mem_of_find hfind) (by rw [hcode])
      rw [hcode] at hbare
      cases hbare

/-- In a table where no command byte is both bare and sub-commanded, a request is read back as
the command and the parameters it was made from, whatever the parameters look like. -/
theorem findCommand_encodeRequest {ι : Type} (format : CivFormat) {table : CommandTable ι Code}
    (hcodes : (table.definitions.map CommandDefinition.code).Nodup)
    (hbare : ∀ definition ∈ table.definitions, ∀ definition' ∈ table.definitions,
      definition.code.2 = none → definition'.code.1 = definition.code.1
        → definition'.code.2 = none)
    {definition : CommandDefinition ι Code} (h : definition ∈ table.definitions)
    (params : List UInt8)
    : findCommand table (format.encodeRequest definition.code params) =
        .ok (definition, params) := by
  have hfind := CommandTable.find_of_mem hcodes h
  rcases hcode : definition.code with ⟨command, sub⟩
  rw [hcode] at hfind
  cases sub with
  | some sub =>
    have hframe := findCommand_frame table format.radio format.controller command (sub :: params)
    rw [findCommand.bySub, hfind] at hframe
    exact hframe
  | none =>
    have hsubs : ∀ definition' ∈ table.definitions,
        definition'.code.1 = command → definition'.code.2 = none := by
      intro definition' h' heq
      exact hbare definition h definition' h' (by rw [hcode]) (by rw [hcode, heq])
    have hnone := bySub_bare hsubs params
    have hframe := findCommand_frame table format.radio format.controller command params
    rw [hnone, hfind] at hframe
    exact hframe

/-- The codec of CI-V: requests are read back as they were made and are seen as this controller's
own, and what a radio answers is seen as an answer to this controller. -/
theorem civ_codec {ι : Type} (format : CivFormat) (hformat : format.radio ≠ format.controller)
    (table : CommandTable ι Code)
    (hcodes : (table.definitions.map CommandDefinition.code).Nodup)
    (hbare : ∀ definition ∈ table.definitions, ∀ definition' ∈ table.definitions,
      definition.code.2 = none → definition'.code.1 = definition.code.1
        → definition'.code.2 = none)
    : (∀ definition ∈ table.definitions, ∀ params,
        findCommand table (format.encodeRequest definition.code params)
          = .ok (definition, params))
      ∧ (∀ code params, format.isEcho (format.encodeRequest code params) = true
          ∧ format.isForUs (format.encodeRequest code params) = false)
      ∧ (∀ code params, format.isForUs (format.encodeResponse code params) = true
          ∧ format.isEcho (format.encodeResponse code params) = false)
      ∧ (format.isForUs format.encodeOk = true ∧ format.isEcho format.encodeOk = false)
      ∧ (format.isForUs format.encodeNg = true ∧ format.isEcho format.encodeNg = false) := by
  have hanswer {frame : List UInt8} (h : format.isForUs frame = true)
      : format.isForUs frame = true ∧ format.isEcho frame = false :=
    ⟨h, not_isEcho_of_isForUs hformat h⟩
  refine ⟨?_, ?_, ?_, ?_, ?_⟩
  . intro definition h params
    exact findCommand_encodeRequest format hcodes hbare h params
  . intro code params
    have hecho := isEcho_encodeRequest format code params
    exact ⟨hecho, not_isForUs_of_isEcho hformat hecho⟩
  . intro code params
    exact hanswer (isForUs_encodeResponse format code params)
  . exact hanswer (isForUs_encodeOk format)
  . exact hanswer (isForUs_encodeNg format)

/-- The frequency and the S-meter of an IC-7100, asked with parameters that look like a
sub-command and like the end of a frame. -/
theorem civ_codec_meter
    : let frequency : CommandDefinition Nat Code :=
        { id := 0, code := (0x03, none), name := "frequency", readable := true, writable := false }
      let meter : CommandDefinition Nat Code :=
        { id := 1, code := (0x15, some 0x02), name := "meter", readable := true, writable := false }
      let format : CivFormat := { radio := 0x88, controller := 0xE0 }
      findCommand { definitions := [frequency, meter] }
          (format.encodeRequest frequency.code [0x02, 0xFD]) = .ok (frequency, [0x02, 0xFD])
        ∧ findCommand { definitions := [frequency, meter] }
          (format.encodeRequest meter.code [0x02]) = .ok (meter, [0x02]) := by
  intro frequency meter format
  have hcodec := civ_codec format (by decide) { definitions := [frequency, meter] } (by decide)
    (by decide)
  constructor
  . exact hcodec.1 frequency (by simp) _
  . exact hcodec.1 meter (by simp) _

end CivFormat

end Framework
