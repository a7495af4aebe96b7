import RadioCat.Framework.Formats

/-!
This module contains the broker's dispatch: a raw request is checked against the command table,
classified as a read or a write, and handed to the radio's session as at most one wire request.
-/

namespace Server

open Framework

inductive ProtocolErrorKind where
  | unknownCommand
  | invalidSyntax
  | invalidParameter
  | unsupportedOperation
  deriving DecidableEq, Repr

inductive ResponseDisposition where
  | responseWritten
  | noResponse
  | protocolError (kind : ProtocolErrorKind)
  deriving DecidableEq, Repr

inductive ClientError (κ ε : Type) where
  | unknownCommand (code : κ)
  | commandNotReadable (name : String)
  | commandNotWritable (code : κ)
  | protocolError (kind : ProtocolErrorKind)
  | transport (e : ε)
  deriving DecidableEq, Repr

inductive DispatchError (κ ε : Type) where
  | malformed (e : ParseError κ)
  | timeout (duration : Nat)
  | session (e : ClientError κ ε)
  -- `expect` on a code that parsing has just resolved.
  | panicked
  deriving DecidableEq, Repr

inductive DispatchOutcome where
  | response (bytes : List UInt8)
  | noResponse
  deriving DecidableEq, Repr

/--
What the session does with the one call it gets. `none` is a call that is still running when the
request timeout elapses.
-/
structure CatSession (ε : Type) where
  execute : List UInt8 → Option (Except ε (ResponseDisposition × List UInt8))
  send : List UInt8 → Option (Except ε Unit)

inductive SessionCall where
  | execute (wire : List UInt8)
  | send (wire : List UInt8)
  deriving DecidableEq, Repr

def SessionCall.wire : SessionCall → List UInt8
  | .execute wire => wire
  | .send wire => wire

structure Exchange (κ ε α : Type) where
  calls : List SessionCall := []
  result : Option (Except (ClientError κ ε) α)

structure CatClient (F ι κ : Type) where
  table : CommandTable ι κ
  format : F

namespace CatClient

variable {F ι κ ε : Type} [CatWireFormat F κ] [DecidableEq κ]

def executeQueryBytes (session : CatSession ε) (wire : List UInt8) : Exchange κ ε (List UInt8) where
  calls := [.execute wire]
  result := (session.execute wire).map fun
    | .error e => .error (.transport e)
    | .ok (.protocolError kind, _) => .error (.protocolError kind)
    | .ok (_, response) => .ok response

def queryWithBytes (client : CatClient F ι κ) (session : CatSession ε) (code : κ)
    (params : List UInt8) : Exchange κ ε (List UInt8) :=
  match client.table.find code with
  | none => { result := some (.error (.unknownCommand code)) }
  | some definition =>
    if definition.readable then
      executeQueryBytes session (encodeRequest client.format code params)
    else
      { result := some (.error (.commandNotReadable definition.name)) }

def set (client : CatClient F ι κ) (session : CatSession ε) (code : κ) (params : List UInt8)
    : Exchange κ ε Unit :=
  match client.table.find code with
  | none => { result := some (.error (.unknownCommand code)) }
  | some definition =>
    if definition.writable then
      let wire := encodeRequest client.format code params
      { calls := [.send wire]
        result := (session.send wire).map fun
          | .error e => .error (.transport e)
          | .ok () => .ok () }
    else
      { result := some (.error (.commandNotWritable code)) }

end CatClient

structure Broker (F ι κ : Type) where
  table : CommandTable ι κ
  format : F
  requestTimeout : Nat

namespace Broker

variable {F ι κ ε : Type}

-- Every constructor of the source gives the client the broker's own table and format.
def client (broker : Broker F ι κ) : CatClient F ι κ :=
  { table := broker.table, format := broker.format }

variable [CatWireFormat F κ] [DecidableEq κ]

def isRead (definition : CommandDefinition ι κ) (code : κ) (params : List UInt8)
    : CommandOperation → Except (DispatchError κ ε) Bool
  | .query => .ok true
  | .action => .ok false
  | .set =>
    if definition.isSelectorRead params.length then
      .ok true
    else if definition.writable then
      .ok false
    else if definition.readable then
      .ok true
    else
      .error (.malformed (.unsupportedOperation code))
  | .response => .error (.session (.unknownCommand code))

def withRequestTimeout {α : Type} (broker : Broker F ι κ) (outcome : α → DispatchOutcome)
    (exchange : Exchange κ ε α)
    : List SessionCall × Except (DispatchError κ ε) DispatchOutcome :=
  (exchange.calls,
    match exchange.result with
    | none => .error (.timeout broker.requestTimeout)
    | some (.error e) => .error (.session e)
    | some (.ok a) => .ok (outcome a))

def dispatch (broker : Broker F ι κ) (session : CatSession ε) (request : List UInt8)
    : List SessionCall × Except (DispatchError κ ε) DispatchOutcome :=
  match broker.table.parse broker.format request with
  | .error e => ([], .error (.malformed e))
  | .ok { code, parameters := params, operation, .. } =>
    match broker.table.find code with
    | none => ([], .error .panicked)
    | some definition =>
      match isRead definition code params operation with
      | .error e => ([], .error e)
      | .ok true => broker.withRequestTimeout .response
          (broker.client.queryWithBytes session code params)
      | .ok false => broker.withRequestTimeout (fun _ => .noResponse)
          (broker.client.set session code params)

end Broker

section

variable {F ι κ ε : Type} [CatWireFormat F κ] [DecidableEq κ]
  {client : CatClient F ι κ} {broker : Broker F ι κ} {session : CatSession ε}
  {code : κ} {params request : List UInt8} {call : SessionCall}

theorem CatClient.wire_of_queryWithBytes
    (h : call ∈ (client.queryWithBytes session code params).calls)
    : call.wire = encodeRequest client.format code params := by
  revert h
  fun_cases CatClient.queryWithBytes client session code params
  case case2 =>
    intro h
    rw [List.mem_singleton.mp h]
    rfl
  all_goals simp

theorem CatClient.wire_of_set (h : call ∈ (client.set session code params).calls)
    : call.wire = encodeRequest client.format code params := by
  revert h
  fun_cases CatClient.set client session code params
  case case2 =>
    intro h
    rw [List.mem_singleton.mp h]
    rfl
  all_goals simp

/-- Only the code and the parameters of an accepted request are encoded again. -/
theorem Broker.wire_of_dispatch (h : call ∈ (broker.dispatch session request).1)
    : ∃ definition params, findCommand broker.format broker.table request = .ok (definition, params)
      ∧ call.wire = encodeRequest broker.format definition.code params := by
  revert h
  fun_cases Broker.dispatch broker session request
  case case4 parsed _ _ _ =>
    intro h
    rcases CommandTable.findCommand_of_parse parsed with ⟨definition, hfind, hcode⟩
    refine ⟨definition, _, hfind, ?_⟩
    rw [hcode]
    exact CatClient.wire_of_queryWithBytes h
  case case5 parsed _ _ _ =>
    intro h
    rcases CommandTable.findCommand_of_parse parsed with ⟨definition, hfind, hcode⟩
    refine ⟨definition, _, hfind, ?_⟩
    rw [hcode]
    exact CatClient.wire_of_set h
  all_goals simp

end

def OneFrame (terminator : UInt8) (wire : List UInt8) : Prop :=
  ∃ body, wire = body ++ [terminator] ∧ terminator ∉ body

theorem oneFrame_concat {terminator : UInt8} {body : List UInt8}
    : OneFrame terminator (body ++ [terminator]) ↔ terminator ∉ body := by
  constructor
  . rintro ⟨body', heq, hbody⟩
    rwa [List.append_cancel_right heq]
  . intro hbody
    exact ⟨body, rfl, hbody⟩

section

variable {ι ε : Type} {session : CatSession ε} {request : List UInt8} {call : SessionCall}

theorem ascii_oneFrame_iff {broker : Broker AsciiLineFormat ι AsciiLineFormat.Code}
    (h : call ∈ (broker.dispatch session request).1)
    : OneFrame AsciiLineFormat.terminator call.wire
      ↔ AsciiLineFormat.terminator ∉ request.dropLast := by
  rcases Broker.wire_of_dispatch h with ⟨definition, params, hfind, hwire⟩
  have hrequest := AsciiLineFormat.encodeRequest_of_findCommand hfind
  change call.wire = AsciiLineFormat.encodeRequest definition.code params at hwire
  rw [hwire, ← hrequest, AsciiLineFormat.encodeRequest, oneFrame_concat, List.dropLast_concat]

theorem civ_oneFrame_iff {broker : Broker CivFormat ι CivFormat.Code}
    (h : call ∈ (broker.dispatch session request).1)
    : OneFrame CivFormat.endOfMessage call.wire
      ↔ broker.format.radio ≠ CivFormat.endOfMessage
        ∧ broker.format.controller ≠ CivFormat.endOfMessage
        ∧ CivFormat.endOfMessage ∉ (request.drop 4).dropLast := by
  rcases Broker.wire_of_dispatch h with ⟨definition, params, hfind, hwire⟩
  rcases CivFormat.encodeRequest_of_findCommand broker.format hfind
    with ⟨payload, hpayload, hencoded⟩
  change call.wire = CivFormat.encodeRequest broker.format definition.code params at hwire
  rw [hwire, hencoded, hpayload, oneFrame_concat, List.dropLast_concat]
  have hpreamble : CivFormat.endOfMessage ≠ CivFormat.preamble := by decide
  simp [hpreamble, eq_comm]

end

/--
An accepted request reaches the radio as one frame exactly when it has no terminator of its own
before the last byte, and no address is one.
-/
theorem one_frame_iff {ι ε : Type} (session : CatSession ε) (request : List UInt8)
    (call : SessionCall)
    : (∀ broker : Broker AsciiLineFormat ι AsciiLineFormat.Code,
        call ∈ (broker.dispatch session request).1 →
          (OneFrame AsciiLineFormat.terminator call.wire
            ↔ AsciiLineFormat.terminator ∉ request.dropLast))
      ∧ (∀ broker : Broker CivFormat ι CivFormat.Code,
        call ∈ (broker.dispatch session request).1 →
          (OneFrame CivFormat.endOfMessage call.wire
            ↔ broker.format.radio ≠ CivFormat.endOfMessage
              ∧ broker.format.controller ≠ CivFormat.endOfMessage
              ∧ CivFormat.endOfMessage ∉ (request.drop 4).dropLast)) := by
  exact ⟨fun _ h => ascii_oneFrame_iff h, fun _ h => civ_oneFrame_iff h⟩

/-- A frequency of eleven digits, as the tables of the tests have it. -/
def frequencyTable : CommandTable Unit AsciiLineFormat.Code where
  definitions := [{
    id := ()
    code := [0x46, 0x41]
    name := "Frequency"
    queryForms := [.fixed .query 0]
    setForms := [.fixed .set 11]
    readable := true
    writable := true }]

def frequencyBroker : Broker AsciiLineFormat Unit AsciiLineFormat.Code :=
  { table := frequencyTable, format := {}, requestTimeout := 5 }

def civBroker : Broker CivFormat Unit CivFormat.Code where
  table :=
    { definitions := [{
        id := ()
        code := (0x05, none)
        name := "Set frequency"
        setForms := [.fixed .set 5]
        readable := false
        writable := true }] }
  format := { radio := 0x88, controller := 0xE0 }
  requestTimeout := 5

def silent : CatSession Unit :=
  { execute := fun _ => none, send := fun _ => none }

theorem one_frame_iff_frequency
    : let request : List UInt8 :=
        [0x46, 0x41, 0x30, 0x30, 0x30, 0x31, 0x34, 0x32, 0x35, 0x30, 0x30, 0x30, 0x30, 0x3B]
      .send request ∈ (frequencyBroker.dispatch silent request).1
        ∧ OneFrame AsciiLineFormat.terminator request := by
  intro request
  have hcall : .send request ∈ (frequencyBroker.dispatch silent request).1 := by decide
  exact ⟨hcall, ((one_frame_iff silent request (.send request)).1 _ hcall).mpr (by decide)⟩

/-- The radio reads `FA0000000;`, `TX;` and `;`: the second starts a transmission. -/
theorem smuggled_command
    : (let request : List UInt8 :=
        [0x46, 0x41, 0x30, 0x30, 0x30, 0x30, 0x30, 0x30, 0x30, 0x3B, 0x54, 0x58, 0x3B, 0x3B]
      .send request ∈ (frequencyBroker.dispatch silent request).1
        ∧ ¬ OneFrame AsciiLineFormat.terminator request)
      ∧ (let request : List UInt8 :=
        [0xFE, 0xFE, 0x88, 0xE0, 0x05, 0x00, 0x00, 0xFD, 0x14, 0x00, 0xFD]
      .send request ∈ (civBroker.dispatch silent request).1
        ∧ ¬ OneFrame CivFormat.endOfMessage request) := by
  refine ⟨⟨by decide, ?_⟩, by decide, ?_⟩
  . change ¬ OneFrame _ ([0x46, 0x41, 0x30, 0x30, 0x30, 0x30, 0x30, 0x30, 0x30, 0x3B, 0x54, 0x58,
      0x3B] ++ [AsciiLineFormat.terminator])
    rw [oneFrame_concat]
    decide
  . change ¬ OneFrame _ ([0xFE, 0xFE, 0x88, 0xE0, 0x05, 0x00, 0x00, 0xFD, 0x14, 0x00]
      ++ [CivFormat.endOfMessage])
    rw [oneFrame_concat]
    decide

end Server
