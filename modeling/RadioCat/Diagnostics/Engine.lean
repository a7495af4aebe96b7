import RadioCat.Server.Gate

/-!
This module contains the diagnostics engine, which goes through a command table and reads from the
radio what can be read without knowing the radio.
-/

namespace Diagnostics

open Framework Server

abbrev Code := AsciiLineFormat.Code

inductive CommandResult where
  | success (response : String)
  | failure (message : String)
  | timeout
  | skipped (reason : String)
  deriving DecidableEq, Repr

structure CommandOutcome (ι : Type) where
  id : ι
  code : Code
  name : String
  request : List UInt8
  result : CommandResult
  deriving DecidableEq, Repr

/-- How bytes and errors become text: `from_utf8_lossy`, `{:?}` of a code, `to_string`. -/
structure Texts (ε : Type) where
  lossy : List UInt8 → String
  debug : Code → String
  display : ClientError Code ε → String

section

variable {ι ε : Type}

def chooseProbe (definition : CommandDefinition ι Code) : Option (List UInt8) :=
  let hasZeroWidthQuery := definition.queryForms.any fun form =>
    form.operation = .query && form.minLen == 0 && form.maxLen == 0
  if hasZeroWidthQuery then
    some []
  else
    (definition.setForms.find? (·.isSelectorRead)).map fun form => List.replicate form.minLen 0x30

def queryWithParam (T : Texts ε) (client : CatClient AsciiLineFormat ι Code)
    (session : CatSession ε) (code : Code) (params : List UInt8) : Exchange Code ε String :=
  match client.table.find code with
  | none => { result := some (.error (.unknownCommand code)) }
  | some definition =>
    if definition.readable then
      let exchange := CatClient.executeQueryBytes session (encodeRequest client.format code params)
      { calls := exchange.calls, result := exchange.result.map (Except.map T.lossy) }
    else
      { result := some (.error (.commandNotReadable (T.debug code))) }

def probe (T : Texts ε) (client : CatClient AsciiLineFormat ι Code) (session : CatSession ε)
    (definition : CommandDefinition ι Code) : List SessionCall × CommandOutcome ι :=
  let { id, code, name, .. } := definition
  match chooseProbe definition with
  | none =>
    ([], { id, code, name, request := [], result :=
        .skipped "no generic-safe read form (write/action-only command)" })
  | some params =>
    let exchange := queryWithParam T client session code params
    let result :=
      match exchange.result with
      | none => .timeout
      | some (.ok response) => .success response
      | some (.error e) => .failure (T.display e)
    (exchange.calls, { id, code, name, request := code ++ params ++ [0x3B], result })

/-- The loop over the table. What the session does may depend on all calls before. -/
def runDiagnosticsWith.go (T : Texts ε) (client : CatClient AsciiLineFormat ι Code)
    (session : List SessionCall → CatSession ε)
    : List (CommandDefinition ι Code) → List SessionCall →
        List SessionCall × List (CommandOutcome ι)
  | [], calls => (calls, [])
  | definition :: definitions, calls =>
    let probed := probe T client (session calls) definition
    let rest := go T client session definitions (calls ++ probed.1)
    (rest.1, probed.2 :: rest.2)

def runDiagnosticsWith (T : Texts ε) (client : CatClient AsciiLineFormat ι Code)
    (table : CommandTable ι Code) (session : List SessionCall → CatSession ε)
    : List SessionCall × List (CommandOutcome ι) :=
  runDiagnosticsWith.go T client session table.definitions []

/-- A form that one of the constructors made, with something in a selector. -/
inductive Built : CommandForm → Prop where
  | fixed (operation : CommandOperation) (len : Nat) : Built (.fixed operation len)
  | ranged (operation : CommandOperation) (minLen maxLen : Nat)
    : Built (.variable operation minLen maxLen)
  | selectorRead (len : Nat) (h : 1 ≤ len) : Built (.selectorRead len)

/-- What the tables of the radios look like. -/
structure Proper (table : CommandTable ι Code) : Prop where
  distinct : (table.definitions.map (·.code)).Nodup
  ascii : ∀ definition ∈ table.definitions, ∃ a b, definition.code = [a, b] ∧ a < 0x80 ∧ b < 0x80
  built : ∀ definition ∈ table.definitions, ∀ form ∈ definition.setForms, Built form

variable {table : CommandTable ι Code} {definition : CommandDefinition ι Code}
  {params : List UInt8}

theorem find_of_nodup {definitions : List (CommandDefinition ι Code)}
    (h : (definitions.map (·.code)).Nodup) (hmem : definition ∈ definitions)
    : definitions.find? (fun other => other.code = definition.code) = some definition := by
  induction definitions with
  | nil => cases hmem
  | cons first definitions ih =>
    rw [List.map_cons, List.nodup_cons] at h
    cases hmem with
    | head => simp
    | tail _ hmem =>
      have hother : first.code ≠ definition.code := by
        intro hsame
        apply h.1
        rw [hsame]
        apply List.mem_map_of_mem hmem
      rw [List.find?_cons_of_neg (by simpa using hother)]
      apply ih h.2 hmem

theorem Proper.findCommand (h : Proper table) (hmem : definition ∈ table.definitions)
    (params : List UInt8)
    : AsciiLineFormat.findCommand table (AsciiLineFormat.encodeRequest definition.code params)
      = .ok (definition, params) := by
  rcases h.ascii definition hmem with ⟨a, b, hcode, ha, hb⟩
  have hfind : table.find [a, b] = some definition := by
    rw [← hcode]
    apply find_of_nodup h.distinct hmem
  have hpair : AsciiLineFormat.utf8Pair a b = true := by
    simp [AsciiLineFormat.utf8Pair, ha, hb]
  unfold AsciiLineFormat.findCommand AsciiLineFormat.encodeRequest
  rw [hcode, List.getLast?_concat, if_pos rfl, List.dropLast_concat]
  simp only [List.cons_append, List.nil_append, hpair, if_true, hfind]

theorem chooseProbe_reads (hbuilt : ∀ form ∈ definition.setForms, Built form)
    (h : chooseProbe definition = some params)
    : definition.supports .query params.length ∨
      params ≠ [] ∧ definition.isSelectorRead params.length := by
  unfold chooseProbe at h
  dsimp only at h
  split at h
  next hquery =>
    cases h
    left
    rw [List.any_eq_true] at hquery
    rcases hquery with ⟨form, hform, hzero⟩
    simp only [Bool.and_eq_true, decide_eq_true_eq, beq_iff_eq] at hzero
    apply List.any_eq_true.2
    refine ⟨form, hform, ?_⟩
    simp [CommandForm.matches, hzero]
  next =>
    right
    rw [Option.map_eq_some_iff] at h
    rcases h with ⟨form, hfind, rfl⟩
    have hselector := List.find?_some hfind
    have hform := List.mem_of_find?_eq_some hfind
    cases hbuilt form hform with
    | fixed operation len => cases hselector
    | ranged operation minLen maxLen => cases hselector
    | selectorRead len hlen =>
      constructor
      . rw [ne_eq, List.replicate_eq_nil_iff]
        change len ≠ 0
        omega
      . apply List.any_eq_true.2
        refine ⟨_, hform, ?_⟩
        simp [CommandForm.matches, CommandForm.selectorRead]

/-- A request that parsing accepts for this definition, and that the broker would read with. -/
def ReadRequest (table : CommandTable ι Code) (definition : CommandDefinition ι Code)
    (params : List UInt8) : Prop :=
  ∃ operation,
    table.parse ({} : AsciiLineFormat) (AsciiLineFormat.encodeRequest definition.code params)
      = .ok { id := definition.id, code := definition.code, operation, parameters := params } ∧
    (Broker.isRead definition definition.code params operation
        : Except (DispatchError Code Empty) _)
      = .ok true ∧
    (operation = .query ∨ operation = .set ∧ definition.isSelectorRead params.length)

theorem readRequest_of_chooseProbe (h : Proper table) (hmem : definition ∈ table.definitions)
    (hprobe : chooseProbe definition = some params) : ReadRequest table definition params := by
  have hfind : findCommand ({} : AsciiLineFormat) table
      (AsciiLineFormat.encodeRequest definition.code params) = .ok (definition, params) :=
    h.findCommand hmem params
  by_cases hquery : definition.supports .query params.length
  . refine ⟨.query, ?_, rfl, .inl rfl⟩
    rw [CommandTable.parse, hfind]
    apply if_pos hquery
  . rcases chooseProbe_reads (h.built definition hmem) hprobe with hreads | ⟨hsome, hselector⟩
    . exact absurd hreads hquery
    . refine ⟨.set, ?_, ?_, .inr ⟨rfl, hselector⟩⟩
      . rw [CommandTable.parse, hfind]
        dsimp only
        rw [if_neg hquery, if_neg, if_pos (isSelectorRead_supports hselector)]
        rw [List.isEmpty_iff]
        intro haction
        exact hsome haction.1
      . rw [Broker.isRead, if_pos hselector]

theorem probe_calls (T : Texts ε) (client : CatClient AsciiLineFormat ι Code)
    (session : CatSession ε) (definition : CommandDefinition ι Code)
    : (probe T client session definition).1 = [] ∨
      ∃ params, chooseProbe definition = some params ∧
        (probe T client session definition).1
          = [.execute (AsciiLineFormat.encodeRequest definition.code params)] := by
  cases hprobe : chooseProbe definition with
  | none =>
    left
    simp only [probe, hprobe]
  | some params =>
    simp only [probe, hprobe, queryWithParam]
    split
    . exact .inl rfl
    . split
      . exact .inr ⟨params, rfl, rfl⟩
      . exact .inl rfl

theorem go_calls (T : Texts ε) (client : CatClient AsciiLineFormat ι Code)
    (session : List SessionCall → CatSession ε) (definitions : List (CommandDefinition ι Code))
    (calls : List SessionCall)
    : ∃ probed : List (CommandDefinition ι Code × List UInt8),
      (probed.map Prod.fst).Sublist definitions ∧
      (∀ p ∈ probed, chooseProbe p.1 = some p.2) ∧
      (runDiagnosticsWith.go T client session definitions calls).1
        = calls ++ probed.map fun p =>
          .execute (AsciiLineFormat.encodeRequest p.1.code p.2) := by
  induction definitions generalizing calls with
  | nil =>
    refine ⟨[], List.Sublist.refl _, ?_, ?_⟩
    . intro p hp
      cases hp
    . rw [List.map_nil, List.append_nil]
      rfl
  | cons definition definitions ih =>
    rcases ih (calls ++ (probe T client (session calls) definition).1)
      with ⟨probed, hsub, hprobed, hcalls⟩
    rcases probe_calls T client (session calls) definition with hnone | ⟨params, hprobe, hone⟩
    . refine ⟨probed, hsub.cons _, hprobed, ?_⟩
      rw [hnone, List.append_nil] at hcalls
      rw [runDiagnosticsWith.go, hnone, List.append_nil]
      exact hcalls
    . refine ⟨(definition, params) :: probed, hsub.cons_cons _, ?_, ?_⟩
      . rw [List.forall_mem_cons]
        exact ⟨hprobe, hprobed⟩
      . rw [hone, List.append_assoc] at hcalls
        rw [runDiagnosticsWith.go, hone]
        exact hcalls

/-- Diagnostics only reads: at most once for each definition, in the order of the table, and with
requests that the broker would take for reads as well. -/
theorem runDiagnosticsWith_reads (T : Texts ε) (client : CatClient AsciiLineFormat ι Code)
    (table : CommandTable ι Code) (session : List SessionCall → CatSession ε) (h : Proper table)
    : ∃ probed : List (CommandDefinition ι Code × List UInt8),
      (probed.map Prod.fst).Sublist table.definitions ∧
      (runDiagnosticsWith T client table session).1
        = probed.map (fun p => .execute (AsciiLineFormat.encodeRequest p.1.code p.2)) ∧
      ∀ p ∈ probed, ReadRequest table p.1 p.2 := by
  rcases go_calls T client session table.definitions []
    with ⟨probed, hsub, hprobe, hcalls⟩
  refine ⟨probed, hsub, hcalls, ?_⟩
  intro p hp
  apply readRequest_of_chooseProbe h
  . apply hsub.subset
    apply List.mem_map_of_mem hp
  . apply hprobe p hp

end

/-- The frequency, and a meter that is read by its number. -/
def benchTable : CommandTable Unit Code where
  definitions := frequencyTable.definitions ++ [{
    id := ()
    code := [0x53, 0x4D]
    name := "S-Meter"
    setForms := [.selectorRead 1]
    readable := true
    writable := false }]

theorem benchTable_proper : Proper benchTable := by
  constructor
  . decide
  . intro definition hmem
    rcases List.mem_cons.1 hmem with rfl | hmem
    . exact ⟨0x46, 0x41, rfl, by decide, by decide⟩
    . rw [List.mem_singleton.1 hmem]
      exact ⟨0x53, 0x4D, rfl, by decide, by decide⟩
  . intro definition hmem form hform
    rcases List.mem_cons.1 hmem with rfl | hmem
    . rw [List.mem_singleton.1 hform]
      apply Built.fixed
    . rw [List.mem_singleton.1 hmem] at hform
      rw [List.mem_singleton.1 hform]
      exact .selectorRead 1 (Nat.le_refl _)

def benchCalls : List SessionCall :=
  (runDiagnosticsWith { lossy := fun _ => "", debug := fun _ => "", display := fun _ => "" }
    { table := benchTable, format := {} } benchTable fun _ => silent).1

-- The meter is asked for by `SM0;`.
theorem runDiagnosticsWith_reads_meter
    : benchCalls = [.execute [0x46, 0x41, 0x3B], .execute [0x53, 0x4D, 0x30, 0x3B]] ∧
      ∃ probed : List (CommandDefinition Unit Code × List UInt8),
        (probed.map Prod.fst).Sublist benchTable.definitions ∧
        benchCalls
          = probed.map (fun p => .execute (AsciiLineFormat.encodeRequest p.1.code p.2)) ∧
        ∀ p ∈ probed, ReadRequest benchTable p.1 p.2 :=
  ⟨rfl, runDiagnosticsWith_reads _ _ _ _ benchTable_proper⟩

end Diagnostics
