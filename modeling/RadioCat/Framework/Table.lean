import Mathlib.Data.List.Nodup

/-!
This module contains the command tables of the CAT framework: which requests a table accepts, for
any wire format that can split a command's code off a frame.
-/

namespace Framework

inductive CommandOperation where
  | query
  | set
  | action
  | response
  deriving DecidableEq, Repr

structure CommandForm where
  operation : CommandOperation
  minLen : Nat
  maxLen : Nat
  isSelectorRead : Bool := false
  deriving DecidableEq, Repr

namespace CommandForm

def fixed (operation : CommandOperation) (len : Nat) : CommandForm :=
  { operation, minLen := len, maxLen := len }

def «variable» (operation : CommandOperation) (minLen maxLen : Nat) : CommandForm :=
  { operation, minLen, maxLen }

def selectorRead (len : Nat) : CommandForm :=
  { operation := .set, minLen := len, maxLen := len, isSelectorRead := true }

def «matches» (form : CommandForm) (operation : CommandOperation) (len : Nat) : Bool :=
  form.operation = operation ∧ form.minLen ≤ len ∧ len ≤ form.maxLen

end CommandForm

structure CommandDefinition (ι κ : Type) where
  id : ι
  code : κ
  name : String
  queryForms : List CommandForm := []
  setForms : List CommandForm := []
  actionForms : List CommandForm := []
  responseForms : List CommandForm := []
  readable : Bool
  writable : Bool
  deriving DecidableEq, Repr

namespace CommandDefinition

variable {ι κ : Type}

def supports (definition : CommandDefinition ι κ) (operation : CommandOperation) (paramLen : Nat)
    : Bool :=
  let forms :=
    match operation with
    | .query => definition.queryForms
    | .set => definition.setForms
    | .action => definition.actionForms
    | .response => definition.responseForms
  forms.any (·.matches operation paramLen)

def isSelectorRead (definition : CommandDefinition ι κ) (paramLen : Nat) : Bool :=
  definition.setForms.any fun form => form.matches .set paramLen && form.isSelectorRead

end CommandDefinition

structure CommandTable (ι κ : Type) where
  definitions : List (CommandDefinition ι κ)
  deriving DecidableEq, Repr

def CommandTable.find {ι κ : Type} [DecidableEq κ] (table : CommandTable ι κ) (code : κ)
    : Option (CommandDefinition ι κ) :=
  table.definitions.find? fun definition => definition.code = code

theorem CommandTable.code_of_find {ι κ : Type} [DecidableEq κ] {table : CommandTable ι κ}
    {code : κ} {definition : CommandDefinition ι κ} (h : table.find code = some definition)
    : definition.code = code := by
  have hcode := List.find?_some h
  exact of_decide_eq_true hcode

theorem CommandTable.mem_of_find {ι κ : Type} [DecidableEq κ] {table : CommandTable ι κ}
    {code : κ} {definition : CommandDefinition ι κ} (h : table.find code = some definition)
    : definition ∈ table.definitions := by
  exact List.mem_of_find?_eq_some h

theorem CommandTable.find_of_mem {ι κ : Type} [DecidableEq κ] {table : CommandTable ι κ}
    (hcodes : (table.definitions.map CommandDefinition.code).Nodup)
    {definition : CommandDefinition ι κ} (h : definition ∈ table.definitions)
    : table.find definition.code = some definition := by
  cases hfind : table.find definition.code with
  | none =>
    have hnone := List.find?_eq_none.mp hfind definition h
    simp at hnone
  | some found =>
    have hcode := CommandTable.code_of_find hfind
    rw [List.inj_on_of_nodup_map hcodes (CommandTable.mem_of_find hfind) h hcode]

-- The source renders the codes as text; here an error carries the code itself.
inductive ParseError (κ : Type) where
  | missingTerminator
  | invalidSyntax
  | unknownCommand (code : List UInt8)
  | unsupportedOperation (code : κ)
  | invalidParameterWidth (code : κ) (len : Nat)
  deriving DecidableEq, Repr

class CatWireFormat (F : Type) (κ : outParam Type) where
  findCommand {ι : Type} (format : F) (table : CommandTable ι κ) (frame : List UInt8)
    : Except (ParseError κ) (CommandDefinition ι κ × List UInt8)
  encodeRequest (format : F) (code : κ) (params : List UInt8) : List UInt8

export CatWireFormat (findCommand encodeRequest)

structure CommandRequest (ι κ : Type) where
  id : ι
  code : κ
  operation : CommandOperation
  parameters : List UInt8
  deriving DecidableEq, Repr

section

variable {F ι κ : Type} [CatWireFormat F κ]

/--
A query is tried before a set: a width that both declare is read as the one that changes nothing.
-/
def CommandTable.parse (table : CommandTable ι κ) (format : F) (frame : List UInt8)
    : Except (ParseError κ) (CommandRequest ι κ) :=
  match findCommand format table frame with
  | .error e => .error e
  | .ok (definition, parameters) =>
    let request (operation : CommandOperation) : CommandRequest ι κ :=
      { id := definition.id, code := definition.code, operation, parameters }
    if definition.supports .query parameters.length then
      .ok (request .query)
    else if parameters.isEmpty ∧ definition.supports .action 0 then
      .ok (request .action)
    else if definition.supports .set parameters.length then
      .ok (request .set)
    else if parameters.isEmpty then
      .error (.unsupportedOperation definition.code)
    else
      .error (.invalidParameterWidth definition.code parameters.length)

variable {table : CommandTable ι κ} {format : F} {frame : List UInt8}
  {parsed : CommandRequest ι κ}

theorem CommandTable.findCommand_of_parse (h : table.parse format frame = .ok parsed)
    : ∃ definition, findCommand format table frame = .ok (definition, parsed.parameters)
      ∧ definition.code = parsed.code := by
  revert h
  fun_cases CommandTable.parse table format frame
  case case2 definition parameters hfind _ _ | case3 definition parameters hfind _ _ _
      | case4 definition parameters hfind _ _ _ _ =>
    intro h
    cases h
    exact ⟨definition, hfind, rfl⟩
  all_goals
    intro h
    cases h

end

end Framework
