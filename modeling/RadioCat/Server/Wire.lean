import RadioCat.Server.Gate

/-!
This module contains the convention by which the outcome of a request goes over the wire. Errors
travel as text behind `ERR `, between responses of the radio that are not marked as such, and a
session on the other side tells the two apart again.
-/

namespace Server

open Framework

def utf8 (text : String) : List UInt8 :=
  text.toList.flatMap String.utf8EncodeChar

def semicolon : UInt8 := 0x3B

/-- Bytes that no reader of CAT lines takes for a complete one. -/
def Open (bytes : List UInt8) : Prop :=
  bytes.getLast? ≠ some semicolon

instance (bytes : List UInt8) : Decidable (Open bytes) :=
  inferInstanceAs (Decidable (_ ≠ _))

theorem open_append {first : List UInt8} (h : Open first) (second : List UInt8)
    : Open (first ++ second) ↔ Open second := by
  unfold Open at *
  rw [List.getLast?_append]
  cases hsecond : second.getLast? with
  | none => simpa using h
  | some b => simp

theorem open_append_of_ne_nil (first : List UInt8) {second : List UInt8} (h : second ≠ [])
    : Open (first ++ second) ↔ Open second := by
  unfold Open
  rw [List.getLast?_append]
  cases hsecond : second.getLast? with
  | none => exact absurd (List.getLast?_eq_none_iff.1 hsecond) h
  | some b => simp

theorem open_of_notMem {bytes : List UInt8} (h : semicolon ∉ bytes) : Open bytes := by
  intro hlast
  apply h
  apply List.mem_of_getLast? hlast

theorem open_number (n : Nat) : Open (utf8 (toString n)) := by
  apply open_of_notMem
  intro hmem
  simp only [utf8, List.mem_flatMap] at hmem
  rcases hmem with ⟨c, hc, hbyte⟩
  have hlist : (toString n).toList = Nat.toDigits 10 n := by
    simp [toString, Nat.repr]
  rw [hlist] at hc
  have hdigit := Nat.isDigit_of_mem_toDigits (by decide) (by decide) hc
  simp only [Char.isDigit, Bool.and_eq_true, decide_eq_true_eq, ge_iff_le] at hdigit
  have hhigh : c.val.toNat ≤ 57 := UInt32.le_iff_toNat_le.1 hdigit.2
  rw [String.utf8EncodeChar, if_pos (by omega), List.mem_singleton] at hbyte
  have hvalue := congrArg UInt8.toNat hbyte
  rw [UInt8.toNat_ofNat', show semicolon.toNat = 59 from rfl] at hvalue
  omega

/-- How the values inside an error are written. A code and a duration are written with `{:?}`, which
puts a code in quotes or in parentheses and ends a duration with its unit. -/
structure Rendering (κ ε : Type) where
  unknown : List UInt8 → List UInt8
  code : κ → List UInt8
  duration : Nat → List UInt8
  session : ε → List UInt8
  code_open (c : κ) : Open (code c)
  duration_open (d : Nat) : Open (duration d)

section

variable {F ι κ ε : Type} (R : Rendering κ ε)

def parseErrorText : ParseError κ → List UInt8
  | .missingTerminator => utf8 "missing CAT frame terminator"
  | .invalidSyntax => utf8 "invalid CAT frame syntax"
  | .unknownCommand code => utf8 "unknown command: " ++ R.unknown code
  | .unsupportedOperation code => utf8 "unsupported operation for command: " ++ R.code code
  | .invalidParameterWidth code len =>
    utf8 "invalid parameter width for " ++ R.code code ++ utf8 ": " ++ utf8 (toString len)

def protocolErrorKindText : ProtocolErrorKind → List UInt8
  | .unknownCommand => utf8 "UnknownCommand"
  | .invalidSyntax => utf8 "InvalidSyntax"
  | .invalidParameter => utf8 "InvalidParameter"
  | .unsupportedOperation => utf8 "UnsupportedOperation"

def clientErrorText : ClientError κ ε → List UInt8
  | .unknownCommand code => utf8 "unknown command: " ++ R.code code
  | .commandNotReadable name =>
    utf8 "command " ++ utf8 name ++ utf8 " does not support read (query)"
  | .commandNotWritable code =>
    utf8 "command " ++ R.code code ++ utf8 " does not support write (set)"
  | .protocolError kind =>
    utf8 "session reported a protocol error: " ++ protocolErrorKindText kind
  | .transport e => utf8 "transport error: " ++ R.session e

def dispatchErrorText : DispatchError κ ε → List UInt8
  | .malformed e => utf8 "malformed request: " ++ parseErrorText R e
  | .timeout duration =>
    utf8 "physical radio session did not respond within " ++ R.duration duration
  | .session e => utf8 "physical radio session error: " ++ clientErrorText R e
  -- A panic has no text of its own on the wire.
  | .panicked => []

def errPrefix : List UInt8 := utf8 "ERR "

def outcomeToWire : Except (DispatchError κ ε) DispatchOutcome → List UInt8
  | .ok (.response bytes) => bytes
  | .ok .noResponse => []
  | .error e => errPrefix ++ dispatchErrorText R e

end

/-- What a session over the broker makes of the bytes it gets, with the text of its error. -/
def BrokerCatSession.execute (wire : List UInt8)
    : Except (List UInt8) (ResponseDisposition × List UInt8) :=
  if wire.isEmpty then
    .ok (.noResponse, [])
  else if errPrefix.isPrefixOf wire then
    .error (wire.drop errPrefix.length)
  else
    .ok (.responseWritten, wire)

theorem execute_error (message : List UInt8)
    : BrokerCatSession.execute (errPrefix ++ message) = .error message := by
  have herr : errPrefix.isPrefixOf (errPrefix ++ message) = true := by
    rw [List.isPrefixOf_iff_prefix]
    apply List.prefix_append
  rw [BrokerCatSession.execute, if_neg, if_pos herr, List.drop_left]
  rw [List.isEmpty_iff, List.append_eq_nil_iff, not_and]
  intro hnil
  cases hnil

theorem execute_response_iff {bytes : List UInt8} (h : bytes ≠ [])
    : BrokerCatSession.execute bytes = .ok (.responseWritten, bytes) ↔ ¬ errPrefix <+: bytes := by
  rw [BrokerCatSession.execute, if_neg (by rwa [List.isEmpty_iff])]
  by_cases herr : errPrefix <+: bytes
  . rw [if_pos (List.isPrefixOf_iff_prefix.2 herr)]
    simpa using herr
  . rw [if_neg (by rwa [List.isPrefixOf_iff_prefix])]
    simpa using herr

section

variable {κ ε : Type} (R : Rendering κ ε)

/-- The outcome can be read off its bytes, and no error looks like a line of CAT. -/
def Recovers (result : Except (DispatchError κ ε) DispatchOutcome) : Prop :=
  match result with
  | .ok (.response bytes) => bytes ≠ [] →
      BrokerCatSession.execute (outcomeToWire R result) = .ok (.responseWritten, bytes)
  | .ok .noResponse => BrokerCatSession.execute (outcomeToWire R result) = .ok (.noResponse, [])
  | .error _ => (∃ message, BrokerCatSession.execute (outcomeToWire R result) = .error message) ∧
      Open (outcomeToWire R result)

/-- What the radio may answer to a request. -/
def Plain (answer : Option (Except ε (ResponseDisposition × List UInt8))) : Prop :=
  match answer with
  | none => True
  | some (.error e) => Open (R.session e)
  | some (.ok (.protocolError _, _)) => True
  | some (.ok (_, response)) => ¬ errPrefix <+: response

theorem recovers_error_iff (e : DispatchError κ ε)
    : Recovers R (.error e) ↔ Open (dispatchErrorText R e) := by
  unfold Recovers
  rw [outcomeToWire, execute_error, open_append (by decide)]
  simp

/-- The text of a parse error is open but for the code of an unknown command. -/
theorem open_malformed_iff (e : ParseError κ)
    : Open (dispatchErrorText R (.malformed e)) ↔
      ∀ code, e = .unknownCommand code → Open (R.unknown code) := by
  rw [dispatchErrorText, open_append (by decide)]
  cases e with
  | missingTerminator =>
    simp only [parseErrorText, reduceCtorEq, false_implies, implies_true, iff_true]
    decide
  | invalidSyntax =>
    simp only [parseErrorText, reduceCtorEq, false_implies, implies_true, iff_true]
    decide
  | unknownCommand code =>
    rw [parseErrorText, open_append (by decide)]
    simp
  | unsupportedOperation code =>
    rw [parseErrorText, open_append (by decide)]
    simp [R.code_open code]
  | invalidParameterWidth code len =>
    have hcode : Open (utf8 "invalid parameter width for " ++ R.code code) :=
      (open_append (by decide) _).2 (R.code_open code)
    have hcolon := (open_append hcode (utf8 ": ")).2 (by decide)
    rw [parseErrorText, open_append hcolon]
    simp only [reduceCtorEq, false_implies, implies_true, iff_true]
    apply open_number

theorem open_session_iff (e : ClientError κ ε)
    : Open (dispatchErrorText R (.session e)) ↔ ∀ t, e = .transport t → Open (R.session t) := by
  rw [dispatchErrorText, open_append (by decide)]
  cases e with
  | unknownCommand code =>
    rw [clientErrorText, open_append (by decide)]
    simp [R.code_open code]
  | commandNotReadable name =>
    rw [clientErrorText, open_append_of_ne_nil _ (by decide)]
    simp only [reduceCtorEq, false_implies, implies_true, iff_true]
    decide
  | commandNotWritable code =>
    rw [clientErrorText, open_append_of_ne_nil _ (by decide)]
    simp only [reduceCtorEq, false_implies, implies_true, iff_true]
    decide
  | protocolError kind =>
    rw [clientErrorText, open_append (by decide)]
    simp only [reduceCtorEq, false_implies, implies_true, iff_true]
    cases kind <;> decide
  | transport t =>
    rw [clientErrorText, open_append (by decide)]
    simp

theorem recovers_malformed_iff (e : ParseError κ)
    : Recovers R (.error (.malformed e)) ↔
      ∀ code, e = .unknownCommand code → Open (R.unknown code) := by
  rw [recovers_error_iff, open_malformed_iff]

theorem recovers_session_iff (e : ClientError κ ε)
    : Recovers R (.error (.session e)) ↔ ∀ t, e = .transport t → Open (R.session t) := by
  rw [recovers_error_iff, open_session_iff]

theorem recovers_timeout (duration : Nat) : Recovers R (.error (.timeout duration)) := by
  rw [recovers_error_iff, dispatchErrorText, open_append (by decide)]
  apply R.duration_open

theorem recovers_response_iff (bytes : List UInt8)
    : Recovers R (.ok (.response bytes)) ↔ ¬ errPrefix <+: bytes := by
  cases bytes with
  | nil =>
    simp only [Recovers, ne_eq, not_true_eq_false, false_implies, true_iff, List.prefix_nil]
    decide
  | cons b bytes =>
    rw [← execute_response_iff (List.cons_ne_nil b bytes)]
    simp [Recovers, outcomeToWire]

variable {F ι : Type} [CatWireFormat F κ] [DecidableEq κ]

/-- No text of the client's or the radio's own choosing that the convention cannot carry: a code
that is not in the table, the error of the session, and the radio's response. -/
structure Carried (broker : Broker F ι κ) (session : CatSession ε) (request : List UInt8)
    : Prop where
  code : ∀ code, broker.table.parse broker.format request = .error (.unknownCommand code) →
    Open (R.unknown code)
  read : ∀ parsed definition, broker.table.parse broker.format request = .ok parsed →
    broker.table.find parsed.code = some definition →
    Reads definition parsed.parameters.length → definition.readable →
    Plain R (session.execute (encodeRequest broker.format parsed.code parsed.parameters))
  write : ∀ parsed definition, broker.table.parse broker.format request = .ok parsed →
    broker.table.find parsed.code = some definition →
    ¬ Reads definition parsed.parameters.length → definition.writable →
    ∀ e, session.send (encodeRequest broker.format parsed.code parsed.parameters)
      = some (.error e) → Open (R.session e)

section

variable {broker : Broker F ι κ} {session : CatSession ε} {request : List UInt8}

omit [CatWireFormat F κ] [DecidableEq κ] in
theorem recovers_read_iff (wire : List UInt8)
    : Recovers R (broker.withRequestTimeout .response
        (CatClient.executeQueryBytes session wire)).2 ↔ Plain R (session.execute wire) := by
  unfold Broker.withRequestTimeout CatClient.executeQueryBytes Plain
  dsimp only
  cases session.execute wire with
  | none => simpa using recovers_timeout R _
  | some answer =>
    cases answer with
    | error e =>
      dsimp only [Option.map_some]
      rw [recovers_session_iff]
      simp
    | ok answer =>
      rcases answer with ⟨disposition, response⟩
      cases disposition with
      | protocolError kind =>
        dsimp only [Option.map_some]
        rw [recovers_session_iff]
        simp
      | responseWritten => apply recovers_response_iff
      | noResponse => apply recovers_response_iff

omit [CatWireFormat F κ] [DecidableEq κ] in
theorem recovers_write_iff (wire : List UInt8)
    : Recovers R (broker.withRequestTimeout (fun _ => .noResponse) (sendExchange session wire)).2 ↔
      ∀ e, session.send wire = some (.error e) → Open (R.session e) := by
  unfold Broker.withRequestTimeout sendExchange
  dsimp only
  cases session.send wire with
  | none => simpa using recovers_timeout R _
  | some answer =>
    cases answer with
    | error e =>
      dsimp only [Option.map_some]
      rw [recovers_session_iff]
      simp
    | ok answer => simp [Recovers, outcomeToWire, BrokerCatSession.execute]

theorem carried_iff {parsed : CommandRequest ι κ} {definition : CommandDefinition ι κ}
    (hparse : broker.table.parse broker.format request = .ok parsed)
    (hfind : broker.table.find parsed.code = some definition)
    : Carried R broker session request ↔
      (Reads definition parsed.parameters.length → definition.readable →
        Plain R (session.execute (encodeRequest broker.format parsed.code parsed.parameters))) ∧
      (¬ Reads definition parsed.parameters.length → definition.writable →
        ∀ e, session.send (encodeRequest broker.format parsed.code parsed.parameters)
          = some (.error e) → Open (R.session e)) := by
  constructor
  . intro h
    exact ⟨h.read parsed definition hparse hfind, h.write parsed definition hparse hfind⟩
  . rintro ⟨hread, hwrite⟩
    constructor
    . intro code herror
      rw [hparse] at herror
      cases herror
    . intro other found hother hfound
      rw [hparse] at hother
      cases hother
      rw [hfind] at hfound
      cases hfound
      exact hread
    . intro other found hother hfound
      rw [hparse] at hother
      cases hother
      rw [hfind] at hfound
      cases hfound
      exact hwrite

end

/-- The outcome of a request can be read off the wire exactly if no text of the client's or the
radio's choosing is in the way. -/
theorem wire_recovers_iff [LawfulWireFormat F] (broker : Broker F ι κ) (session : CatSession ε)
    (request : List UInt8)
    : Recovers R (broker.dispatch session request).2 ↔ Carried R broker session request := by
  cases hparse : broker.table.parse broker.format request with
  | error e =>
    rw [dispatch_of_parse_error hparse, recovers_malformed_iff]
    constructor
    . intro h
      constructor
      . intro code herror
        rw [hparse] at herror
        cases herror
        exact h code rfl
      . intro parsed definition hother
        rw [hparse] at hother
        cases hother
      . intro parsed definition hother
        rw [hparse] at hother
        cases hother
    . rintro h code rfl
      exact h.code code hparse
  | ok parsed =>
    rcases dispatch_routed session hparse with ⟨definition, -, hfind, hrouted⟩
    rw [carried_iff R hparse hfind]
    revert hrouted
    generalize broker.dispatch session request = outcome
    intro hrouted
    cases hrouted with
    | read hreads hreadable =>
      rw [recovers_read_iff]
      simp [hreads, hreadable]
    | notReadable hreads hreadable =>
      rw [recovers_session_iff]
      simp [hreads, hreadable]
    | neither hreads hreadable =>
      rw [recovers_malformed_iff]
      simp [hreads, hreadable]
    | write hreads hwritable =>
      rw [recovers_write_iff]
      simp [hreads, hwritable]
    | notWritable hreads hwritable =>
      rw [recovers_session_iff]
      simp [hreads, hwritable]

end

/-- The texts of the line format: an unknown code is shown as it came, and a known one in quotes. -/
def asciiRendering : Rendering AsciiLineFormat.Code String where
  unknown := id
  code code := [0x22] ++ code ++ [0x22]
  duration seconds := utf8 (toString seconds) ++ utf8 "s"
  session := utf8
  code_open code := by
    rw [open_append_of_ne_nil _ (by decide)]
    decide
  duration_open seconds := by
    rw [open_append_of_ne_nil _ (by decide)]
    decide

def answering (response : List UInt8) : CatSession String :=
  { execute := fun _ => some (.ok (.responseWritten, response)), send := fun _ => none }

def failing (message : String) : CatSession String :=
  { execute := fun _ => some (.error message), send := fun _ => none }

theorem wire_recovers_frequency
    : Recovers asciiRendering
        (frequencyBroker.dispatch (answering [0x46, 0x41, 0x31, 0x3B]) [0x46, 0x41, 0x3B]).2 := by
  have hparse : frequencyBroker.table.parse frequencyBroker.format [0x46, 0x41, 0x3B]
      = .ok { id := (), code := [0x46, 0x41], operation := .query, parameters := [] } := by
    rfl
  have hfind : frequencyBroker.table.find [0x46, 0x41] = frequencyTable.definitions.head? := by
    rfl
  rw [wire_recovers_iff, carried_iff asciiRendering hparse hfind]
  constructor
  . intro _ _
    change ¬ errPrefix <+: [0x46, 0x41, 0x31, 0x3B]
    decide
  . intro hwrites
    exact absurd (by decide) hwrites

/-- An unknown code, the radio's response and the session's own error each break the convention. -/
theorem wire_recovers_counterexample
    : ¬ Recovers asciiRendering
        (frequencyBroker.dispatch (failing "") [0x78, 0x3B, 0x3B]).2 ∧
      ¬ Recovers asciiRendering
        (frequencyBroker.dispatch (answering [0x45, 0x52, 0x52, 0x20, 0x3B]) [0x46, 0x41, 0x3B]).2 ∧
      ¬ Recovers asciiRendering
        (frequencyBroker.dispatch (failing "unexpected FA;") [0x46, 0x41, 0x3B]).2 := by
  refine ⟨?_, ?_, ?_⟩
  . change ¬ Recovers asciiRendering (.error (.malformed (.unknownCommand [0x78, 0x3B])))
    rw [recovers_malformed_iff]
    intro h
    exact absurd (h _ rfl) (by decide)
  . change ¬ Recovers asciiRendering (.ok (.response [0x45, 0x52, 0x52, 0x20, 0x3B]))
    rw [recovers_response_iff, not_not]
    decide
  . change ¬ Recovers asciiRendering (.error (.session (.transport "unexpected FA;")))
    rw [recovers_session_iff]
    intro h
    exact absurd (h _ rfl) (by decide)

end Server
