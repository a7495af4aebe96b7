import RadioCat.Server.Dispatch

/-!
This module contains what the broker lets through to the radio: which call a request leads to, for
every table, and what becomes of a frame that was addressed to another station.
-/

namespace Framework

/-- The definition a format finds for a frame is the one the table has for its code. -/
class LawfulWireFormat (F : Type) {κ : Type} [CatWireFormat F κ] [DecidableEq κ] : Prop where
  find_of_findCommand {ι : Type} {format : F} {table : CommandTable ι κ} {frame : List UInt8}
    {definition : CommandDefinition ι κ} {params : List UInt8}
    : findCommand format table frame = .ok (definition, params) →
      table.find definition.code = some definition

instance : LawfulWireFormat AsciiLineFormat where
  find_of_findCommand {_ _ table frame definition params} h := by
    revert h
    change AsciiLineFormat.findCommand table frame = _ → _
    fun_cases AsciiLineFormat.findCommand table frame
    case case1 found hfind =>
      intro h
      cases h
      rw [CommandTable.code_of_find hfind, hfind]
    all_goals
      intro h
      cases h

instance : LawfulWireFormat CivFormat where
  find_of_findCommand {_ _ table frame definition params} h := by
    revert h
    change CivFormat.findCommand table frame = _ → _
    fun_cases CivFormat.findCommand table frame
    case case1 command rest henvelope found hsub =>
      intro h
      cases h
      cases rest with
      | nil => cases hsub
      | cons sub parameters =>
        simp only [CivFormat.findCommand.bySub, Option.map_eq_some_iff, Prod.mk.injEq] at hsub
        rcases hsub with ⟨_, hfind, rfl, rfl⟩
        rw [CommandTable.code_of_find hfind, hfind]
    case case2 hbare =>
      intro h
      cases h
      rw [CommandTable.code_of_find hbare, hbare]
    all_goals
      intro h
      cases h

end Framework

namespace Server

open Framework

/-- The rule for a read: a query of this width, or else a set that is one by its form or because the
command cannot be written. -/
def Reads {ι κ : Type} (definition : CommandDefinition ι κ) (len : Nat) : Prop :=
  definition.supports .query len ∨
  ¬ (len = 0 ∧ definition.supports .action 0) ∧
  (definition.isSelectorRead len ∨ definition.supports .set len ∧ ¬ definition.writable)

theorem isSelectorRead_supports {ι κ : Type} {definition : CommandDefinition ι κ} {len : Nat}
    (h : definition.isSelectorRead len) : definition.supports .set len := by
  simp only [CommandDefinition.isSelectorRead, List.any_eq_true, Bool.and_eq_true] at h
  rcases h with ⟨form, hform, hmatches, _⟩
  apply List.any_eq_true.2
  exact ⟨form, hform, hmatches⟩

instance {ι κ : Type} (definition : CommandDefinition ι κ) (len : Nat)
    : Decidable (Reads definition len) :=
  inferInstanceAs (Decidable (_ ∨ _))

section

variable {F ι κ ε : Type} [CatWireFormat F κ] [DecidableEq κ]
  {table : CommandTable ι κ} {format : F} {request : List UInt8}
  {broker : Broker F ι κ} {session : CatSession ε}

theorem of_parse [LawfulWireFormat F] {parsed : CommandRequest ι κ}
    (h : table.parse format request = .ok parsed)
    : ∃ definition, findCommand format table request = .ok (definition, parsed.parameters) ∧
      table.find parsed.code = some definition ∧ definition.id = parsed.id ∧
      match parsed.operation with
      | .query => definition.supports .query parsed.parameters.length
      | .action => ¬ definition.supports .query parsed.parameters.length ∧
          parsed.parameters.length = 0 ∧ definition.supports .action 0
      | .set => ¬ definition.supports .query parsed.parameters.length ∧
          ¬ (parsed.parameters.length = 0 ∧ definition.supports .action 0) ∧
          definition.supports .set parsed.parameters.length
      | .response => False := by
  revert h
  fun_cases CommandTable.parse table format request
  case case2 definition parameters hfind _ hquery =>
    intro h
    cases h
    exact ⟨definition, hfind, LawfulWireFormat.find_of_findCommand hfind, rfl, hquery⟩
  case case3 definition parameters hfind _ hquery haction =>
    intro h
    cases h
    rw [List.isEmpty_iff_length_eq_zero] at haction
    exact ⟨definition, hfind, LawfulWireFormat.find_of_findCommand hfind, rfl, hquery, haction⟩
  case case4 definition parameters hfind _ hquery haction hset =>
    intro h
    cases h
    rw [List.isEmpty_iff_length_eq_zero] at haction
    have hlisted := LawfulWireFormat.find_of_findCommand hfind
    exact ⟨definition, hfind, hlisted, rfl, hquery, haction, hset⟩
  all_goals
    intro h
    cases h

def sendExchange (session : CatSession ε) (wire : List UInt8) : Exchange κ ε Unit where
  calls := [.send wire]
  result := (session.send wire).map fun
    | .error e => .error (.transport e)
    | .ok () => .ok ()

/-- What becomes of a request that parsing has accepted. -/
inductive Routed (broker : Broker F ι κ) (session : CatSession ε) (code : κ) (params : List UInt8)
    (definition : CommandDefinition ι κ)
    : List SessionCall × Except (DispatchError κ ε) DispatchOutcome → Prop where
  | read (hreads : Reads definition params.length) (hreadable : definition.readable)
    : Routed broker session code params definition
        (broker.withRequestTimeout .response
          (CatClient.executeQueryBytes session (encodeRequest broker.format code params)))
  | notReadable (hreads : Reads definition params.length) (hreadable : ¬ definition.readable)
    : Routed broker session code params definition
        ([], .error (.session (.commandNotReadable definition.name)))
  | neither (hreads : Reads definition params.length) (hreadable : ¬ definition.readable)
    : Routed broker session code params definition
        ([], .error (.malformed (.unsupportedOperation code)))
  | write (hreads : ¬ Reads definition params.length) (hwritable : definition.writable)
    : Routed broker session code params definition
        (broker.withRequestTimeout (fun _ => .noResponse)
          (sendExchange session (encodeRequest broker.format code params)))
  | notWritable (hreads : ¬ Reads definition params.length) (hwritable : ¬ definition.writable)
    : Routed broker session code params definition
        ([], .error (.session (.commandNotWritable code)))

section

variable {code : κ} {params : List UInt8} {definition : CommandDefinition ι κ}

theorem routed_query (hfind : broker.table.find code = some definition)
    (hreads : Reads definition params.length)
    : Routed broker session code params definition
        (broker.withRequestTimeout .response
          (broker.client.queryWithBytes session code params)) := by
  unfold CatClient.queryWithBytes
  rw [show broker.client.table.find code = some definition from hfind]
  dsimp only
  split
  next hreadable => exact .read hreads hreadable
  next hreadable => exact .notReadable hreads hreadable

theorem routed_set (hfind : broker.table.find code = some definition)
    (hreads : ¬ Reads definition params.length)
    : Routed broker session code params definition
        (broker.withRequestTimeout (fun _ => .noResponse)
          (broker.client.set session code params)) := by
  unfold CatClient.set
  rw [show broker.client.table.find code = some definition from hfind]
  dsimp only
  split
  next hwritable => exact .write hreads hwritable
  next hwritable => exact .notWritable hreads hwritable

end

theorem dispatch_of_parse_error {e : ParseError κ}
    (h : broker.table.parse broker.format request = .error e)
    : broker.dispatch session request = ([], .error (.malformed e)) := by
  rw [Broker.dispatch, h]

theorem dispatch_routed [LawfulWireFormat F] (session : CatSession ε)
    {parsed : CommandRequest ι κ} (h : broker.table.parse broker.format request = .ok parsed)
    : ∃ definition,
      findCommand broker.format broker.table request = .ok (definition, parsed.parameters) ∧
      broker.table.find parsed.code = some definition ∧
      Routed broker session parsed.code parsed.parameters definition
        (broker.dispatch session request) := by
  rcases of_parse h with ⟨definition, hcommand, hfind, -, hoperation⟩
  refine ⟨definition, hcommand, hfind, ?_⟩
  rcases parsed with ⟨id, code, operation, params⟩
  rw [Broker.dispatch, h]
  simp only [hfind]
  cases operation with
  | query => exact routed_query hfind (.inl hoperation)
  | action =>
    rcases hoperation with ⟨hquery, haction⟩
    apply routed_set hfind
    rintro (hreads | hreads)
    . exact hquery hreads
    . exact hreads.1 haction
  | set =>
    rcases hoperation with ⟨hquery, haction, hset⟩
    simp only [Broker.isRead]
    by_cases hselector : definition.isSelectorRead params.length
    . simp only [if_pos hselector]
      exact routed_query hfind (.inr ⟨haction, .inl hselector⟩)
    simp only [if_neg hselector]
    by_cases hwritable : definition.writable
    . simp only [if_pos hwritable]
      apply routed_set hfind
      rintro (hreads | ⟨-, hreads | hreads⟩)
      . exact hquery hreads
      . exact hselector hreads
      . exact hreads.2 hwritable
    simp only [if_neg hwritable]
    have hreads : Reads definition params.length := .inr ⟨haction, .inr ⟨hset, hwritable⟩⟩
    by_cases hreadable : definition.readable
    . simp only [if_pos hreadable]
      exact routed_query hfind hreads
    . simp only [if_neg hreadable]
      exact .neither hreads hreadable
  | response => cases hoperation

/-- The call an accepted request leads to, if any. -/
def gate (definition : CommandDefinition ι κ) (len : Nat) (wire : List UInt8) : List SessionCall :=
  if Reads definition len then
    if definition.readable then [.execute wire] else []
  else
    if definition.writable then [.send wire] else []

omit [DecidableEq κ] in
theorem calls_of_routed {code : κ} {params : List UInt8} {definition : CommandDefinition ι κ}
    {outcome : List SessionCall × Except (DispatchError κ ε) DispatchOutcome}
    (h : Routed broker session code params definition outcome)
    : outcome.1 = gate definition params.length (encodeRequest broker.format code params) := by
  cases h with
  | read hreads hreadable => rw [gate, if_pos hreads, if_pos hreadable]; rfl
  | notReadable hreads hreadable => rw [gate, if_pos hreads, if_neg hreadable]
  | neither hreads hreadable => rw [gate, if_pos hreads, if_neg hreadable]
  | write hreads hwritable => rw [gate, if_neg hreads, if_pos hwritable]; rfl
  | notWritable hreads hwritable => rw [gate, if_neg hreads, if_neg hwritable]

/-- The calls of one request: none for one that parsing rejects, and otherwise what the gate has for
the definition. -/
def Gated (broker : Broker F ι κ) (session : CatSession ε) (request : List UInt8) : Prop :=
  match broker.table.parse broker.format request with
  | .error _ => (broker.dispatch session request).1 = []
  | .ok parsed => ∃ definition ∈ broker.table.definitions,
      findCommand broker.format broker.table request = .ok (definition, parsed.parameters) ∧
      definition.code = parsed.code ∧
      (broker.dispatch session request).1 = gate definition parsed.parameters.length request

theorem gated_of_encodeRequest [LawfulWireFormat F]
    (h : ∀ definition params,
      findCommand broker.format broker.table request = .ok (definition, params) →
      encodeRequest broker.format definition.code params = request)
    : Gated broker session request := by
  unfold Gated
  split
  next e hparse => rw [dispatch_of_parse_error hparse]
  next parsed hparse =>
    rcases dispatch_routed session hparse with ⟨definition, hcommand, hfind, hrouted⟩
    have hcode := CommandTable.code_of_find hfind
    have hwire := h definition parsed.parameters hcommand
    refine ⟨definition, List.mem_of_find?_eq_some hfind, hcommand, hcode, ?_⟩
    rw [calls_of_routed hrouted, ← hcode, hwire]

end

theorem civ_encodeRequest_of_isEcho {ι : Type} {format : CivFormat}
    {table : CommandTable ι CivFormat.Code} {request params : List UInt8}
    {definition : CommandDefinition ι CivFormat.Code} (hecho : format.isEcho request = true)
    (h : findCommand format table request = .ok (definition, params))
    : encodeRequest format definition.code params = request := by
  rcases CivFormat.encodeRequest_of_findCommand format h with ⟨payload, hpayload, hencoded⟩
  unfold CivFormat.isEcho at hecho
  split at hecho
  next envelope henvelope =>
    rw [Bool.and_eq_true, beq_iff_eq, beq_iff_eq] at hecho
    have hframe := (CivFormat.frame_of_parseEnvelope henvelope).2
    rw [← CivFormat.payload_of_parseEnvelope henvelope, List.append_cancel_right_eq] at hpayload
    rw [hecho.1, hecho.2, hpayload] at hframe
    rw [hframe]
    exact hencoded
  next => cases hecho

/-- The broker is a gate: each request leads to no call or to one with the request's own bytes, and
the forms and flags of its command decide between a read and a write. -/
theorem dispatch_gated {ι ε : Type} (session : CatSession ε) (request : List UInt8)
    : (∀ broker : Broker AsciiLineFormat ι AsciiLineFormat.Code, Gated broker session request) ∧
      (∀ broker : Broker CivFormat ι CivFormat.Code, broker.format.isEcho request = true →
        Gated broker session request) := by
  constructor
  . intro broker
    apply gated_of_encodeRequest
    intro definition params hfind
    apply AsciiLineFormat.encodeRequest_of_findCommand hfind
  . intro broker hecho
    apply gated_of_encodeRequest
    intro definition params hfind
    apply civ_encodeRequest_of_isEcho hecho hfind

theorem dispatch_gated_civ
    : Gated civBroker silent
        [0xFE, 0xFE, 0x88, 0xE0, 0x05, 0x00, 0x00, 0x25, 0x14, 0x00, 0xFD] := by
  apply (dispatch_gated silent _).2
  decide

/-- The definition a payload names, and the bytes left for its parameters: the command with its
sub-command if the table has that, and the bare command otherwise. -/
def lookup {ι : Type} (table : CommandTable ι CivFormat.Code)
    : List UInt8 → Option (CommandDefinition ι CivFormat.Code × List UInt8)
  | [] => none
  | command :: rest =>
    (CivFormat.findCommand.bySub table command rest).or
      ((table.find (command, none)).map fun definition => (definition, rest))

/-- A width that a command takes, in one way or another. -/
def Takes {ι κ : Type} (definition : CommandDefinition ι κ) (len : Nat) : Prop :=
  definition.supports .query len ∨ len = 0 ∧ definition.supports .action 0 ∨
  definition.supports .set len

/-- A payload that is a request by the table. -/
def Listed {ι : Type} (table : CommandTable ι CivFormat.Code) (payload : List UInt8) : Prop :=
  ∃ definition params, lookup table payload = some (definition, params) ∧
    Takes definition params.length

theorem parse_ok_iff {F ι κ : Type} [CatWireFormat F κ] {table : CommandTable ι κ} {format : F}
    {frame : List UInt8}
    : (∃ parsed, table.parse format frame = .ok parsed) ↔
      ∃ definition params, findCommand format table frame = .ok (definition, params) ∧
        Takes definition params.length := by
  unfold CommandTable.parse
  cases hfind : findCommand format table frame with
  | error e => simp
  | ok found =>
    rcases found with ⟨definition, params⟩
    have htakes : (∃ d p, (Except.ok (definition, params) : Except (ParseError κ) _) = .ok (d, p) ∧
        Takes d p.length) ↔ Takes definition params.length := by
      simp
    rw [htakes, Takes, ← List.isEmpty_iff_length_eq_zero]
    dsimp only
    by_cases hquery : definition.supports .query params.length
    . rw [if_pos hquery]
      exact ⟨fun _ => .inl hquery, fun _ => ⟨_, rfl⟩⟩
    rw [if_neg hquery]
    by_cases haction : params.isEmpty ∧ definition.supports .action 0
    . rw [if_pos haction]
      exact ⟨fun _ => .inr (.inl haction), fun _ => ⟨_, rfl⟩⟩
    rw [if_neg haction]
    by_cases hset : definition.supports .set params.length
    . rw [if_pos hset]
      exact ⟨fun _ => .inr (.inr hset), fun _ => ⟨_, rfl⟩⟩
    rw [if_neg hset]
    constructor
    . rintro ⟨parsed, hparsed⟩
      split at hparsed
      . cases hparsed
      . cases hparsed
    . rintro (h | h | h)
      . contradiction
      . contradiction
      . contradiction

theorem findCommand_ok_iff {ι : Type} {table : CommandTable ι CivFormat.Code} {frame : List UInt8}
    {found : CommandDefinition ι CivFormat.Code × List UInt8}
    : CivFormat.findCommand table frame = .ok found ↔
      ∃ envelope, CivFormat.parseEnvelope frame = some envelope ∧
        lookup table envelope.payload = some found := by
  unfold CivFormat.findCommand
  cases henvelope : CivFormat.parseEnvelope frame with
  | none => simp
  | some envelope =>
    rcases envelope with ⟨_, _, payload⟩
    cases payload with
    | nil => simp [lookup]
    | cons command rest =>
      simp only [Option.some.injEq, exists_eq_left', lookup]
      cases CivFormat.findCommand.bySub table command rest with
      | some found => simp
      | none =>
        cases table.find (command, none) with
        | some definition => simp
        | none => simp

/-- Frames for other stations are rejected exactly if their payload is not a request by the table:
the addresses of a frame play no part. -/
theorem civ_addressing_iff {ι ε : Type} (broker : Broker CivFormat ι CivFormat.Code)
    (session : CatSession ε) (frame : List UInt8)
    : (broker.format.isEcho frame = false →
        (∃ e, broker.table.parse broker.format frame = .error e) ∧
        (broker.dispatch session frame).1 = []) ↔
      (broker.format.isEcho frame = false →
        ∀ envelope, CivFormat.parseEnvelope frame = some envelope →
          ¬ Listed broker.table envelope.payload) := by
  have haccepted : (∃ parsed, broker.table.parse broker.format frame = .ok parsed) ↔
      ∃ envelope, CivFormat.parseEnvelope frame = some envelope ∧
        Listed broker.table envelope.payload := by
    rw [parse_ok_iff]
    constructor
    . rintro ⟨definition, params, hfind, htakes⟩
      rcases findCommand_ok_iff.1 hfind with ⟨envelope, henvelope, hlookup⟩
      exact ⟨envelope, henvelope, definition, params, hlookup, htakes⟩
    . rintro ⟨envelope, henvelope, definition, params, hlookup, htakes⟩
      exact ⟨definition, params, findCommand_ok_iff.2 ⟨envelope, henvelope, hlookup⟩, htakes⟩
  apply imp_congr_right
  intro _
  cases hparse : broker.table.parse broker.format frame with
  | error e =>
    rw [hparse] at haccepted
    simp only [reduceCtorEq, exists_false, false_iff] at haccepted
    rw [dispatch_of_parse_error hparse]
    constructor
    . intro _ envelope henvelope hlisted
      exact haccepted ⟨envelope, henvelope, hlisted⟩
    . intro _
      exact ⟨⟨e, rfl⟩, rfl⟩
  | ok parsed =>
    rcases haccepted.1 ⟨parsed, hparse⟩ with ⟨envelope, henvelope, hlisted⟩
    constructor
    . rintro ⟨⟨e, he⟩, _⟩
      cases he
    . intro hnone
      exact absurd hlisted (hnone envelope henvelope)

-- The frame is for the station at 0x94, and the radio at 0x88 is set to its frequency.
theorem civ_addressing_counterexample
    : let frame : List UInt8 := [0xFE, 0xFE, 0x94, 0xE0, 0x05, 0x00, 0x00, 0x25, 0x14, 0x00, 0xFD]
      civBroker.format.isEcho frame = false ∧
      (civBroker.dispatch silent frame).1
        = [.send [0xFE, 0xFE, 0x88, 0xE0, 0x05, 0x00, 0x00, 0x25, 0x14, 0x00, 0xFD]] := by
  decide

end Server
