import RadioCat.Trace.Transducer

/-!
This module contains the Telnet and RFC 2217 codec: the encoders, and the decoder that takes the
stream apart byte by byte, in whatever chunks the socket delivers it.
-/

namespace Rfc2217

open Trace

namespace Codec

abbrev iac : UInt8 := 255
abbrev se : UInt8 := 240
abbrev sb : UInt8 := 250
abbrev will : UInt8 := 251
abbrev wont : UInt8 := 252
abbrev doVerb : UInt8 := 253
abbrev dont : UInt8 := 254

abbrev optBinary : UInt8 := 0
abbrev optSuppressGoAhead : UInt8 := 3
abbrev optComPort : UInt8 := 44

def escape (bytes : List UInt8) : List UInt8 :=
  bytes.flatMap fun b => if b = iac then [b, iac] else [b]

def encodeData (data : List UInt8) : List UInt8 :=
  escape data

def negotiate (verb option : UInt8) : List UInt8 :=
  [iac, verb, option]

def comPort (command : UInt8) (params : List UInt8) : List UInt8 :=
  [iac, sb, optComPort, command] ++ escape params ++ [iac, se]

theorem escape_cons (b : UInt8) (bytes : List UInt8)
    : escape (b :: bytes) = (if b = iac then [b, iac] else [b]) ++ escape bytes := by
  rfl

end Codec

open Codec

inductive Event where
  | data (bytes : List UInt8)
  | comPort (command : UInt8) (params : List UInt8)
  | negotiate (verb option : UInt8)
  | otherSubnegotiation (option : UInt8) (body : List UInt8)
  deriving DecidableEq, Repr

def Event.pieces : Pieces UInt8 Event where
  piece
    | .data bytes => some bytes
    | _ => none
  ofPiece := .data
  piece_ofPiece _ := rfl

inductive State where
  | data
  | iac
  | verb (verb : UInt8)
  | subOption
  | subBody
  | subIac
  deriving DecidableEq, Repr

structure Decoder where
  state : State := .data
  subOption : UInt8 := 0
  subBody : List UInt8 := []
  data : List UInt8 := []
  deriving DecidableEq, Repr

namespace Decoder

def flushData (d : Decoder) : List Event × Decoder :=
  if d.data = [] then ([], d) else ([.data d.data], { d with data := [] })

/-- What the end of a subnegotiation reports; a Com Port one without a command is nothing. -/
def subnegotiation (option : UInt8) (body : List UInt8) : List Event :=
  if option = optComPort then
    match body with
    | [] => []
    | command :: params => [.comPort command params]
  else
    [.otherSubnegotiation option body]

def step : Transducer Decoder UInt8 Event := fun d b =>
  match d.state with
  | .data =>
    if b = iac then
      ([], { d with state := .iac })
    else
      ([], { d with data := d.data ++ [b] })
  | .iac =>
    if b = iac then
      -- A doubled IAC is one literal 255 in the data stream.
      ([], { d with data := d.data ++ [iac], state := .data })
    else if b = will ∨ b = wont ∨ b = doVerb ∨ b = dont then
      ([], { d with state := .verb b })
    else if b = sb then
      ([], { d with state := .subOption })
    else
      ([], { d with state := .data })
  | .verb verb =>
    (d.flushData.1 ++ [.negotiate verb b], { d.flushData.2 with state := .data })
  | .subOption => ([], { d with subOption := b, subBody := [], state := .subBody })
  | .subBody =>
    if b = iac then
      ([], { d with state := .subIac })
    else
      ([], { d with subBody := d.subBody ++ [b] })
  | .subIac =>
    if b = iac then
      ([], { d with subBody := d.subBody ++ [iac], state := .subBody })
    else if b = se then
      (d.flushData.1 ++ subnegotiation d.subOption d.subBody,
        { d.flushData.2 with subBody := [], state := .data })
    else
      -- Malformed: the subnegotiation is given up.
      ([], { d with subBody := [], state := .data })

def push : Transducer Decoder (List UInt8) Event := fun d bytes =>
  ((step.run d bytes).1 ++ (step.run d bytes).2.flushData.1, (step.run d bytes).2.flushData.2)

/-- The decoder with no data pending. -/
def bare (d : Decoder) : Decoder :=
  { d with data := [] }

theorem flat_flushData (d : Decoder)
    : Event.pieces.flat d.flushData.1 = d.data.map .inl := by
  fun_cases flushData d
  case case1 hdata => rw [hdata]; rfl
  case case2 => apply Event.pieces.flat_piece

theorem flushData_snd (d : Decoder) : d.flushData.2 = d.bare := by
  fun_cases flushData d
  case case1 hdata => rw [bare, ← hdata]
  case case2 => rfl

/-- One step of a decoder that holds no data back. -/
def plain : Transducer Decoder UInt8 (UInt8 ⊕ Event) := fun d b =>
  (Event.pieces.flat (step d.bare b).1 ++ (step d.bare b).2.data.map .inl, (step d.bare b).2.bare)

theorem step_plain (d : Decoder) (b : UInt8)
    : Event.pieces.flat (step d b).1 ++ (step d b).2.data.map .inl
        = d.data.map .inl ++ (plain d b).1
      ∧ (step d b).2.bare = (plain d b).2 := by
  cases d with
  | mk state subOption subBody data =>
    cases state with
    | data =>
      by_cases hb : b = iac
      . simp [plain, step, bare, hb, Pieces.flat]
      . simp [plain, step, bare, hb, Pieces.flat]
    | iac =>
      by_cases hb : b = iac
      . simp [plain, step, bare, hb, Pieces.flat]
      . by_cases hverb : b = will ∨ b = wont ∨ b = doVerb ∨ b = dont
        . simp [plain, step, bare, hb, hverb, Pieces.flat]
        . by_cases hsb : b = sb
          . simp [plain, step, bare, if_neg hb, if_neg hverb, if_pos hsb, Pieces.flat]
          . simp [plain, step, bare, hb, hverb, hsb, Pieces.flat]
    | verb verb => simp [plain, step, Pieces.flat_append, flat_flushData, flushData_snd, bare]
    | subOption => simp [plain, step, bare, Pieces.flat]
    | subBody =>
      by_cases hb : b = iac
      . simp [plain, step, bare, hb, Pieces.flat]
      . simp [plain, step, bare, hb, Pieces.flat]
    | subIac =>
      by_cases hb : b = iac
      . simp [plain, step, bare, hb, Pieces.flat]
      . by_cases hse : b = se
        . simp [plain, step, if_neg hb, if_pos hse, Pieces.flat_append, flat_flushData,
            flushData_snd, bare]
        . simp [plain, step, bare, hb, hse, Pieces.flat]

theorem plain_bare (d : Decoder) : plain d.bare = plain d := by
  rfl

theorem run_plain_bare (d : Decoder) (bytes : List UInt8) (h : d.data = [])
    : plain.run d.bare bytes = plain.run d bytes := by
  rw [bare, ← h]

/-- What the decoder has shown and what it holds back are together what the plain one shows. -/
theorem run_plain (d : Decoder) (bytes : List UInt8)
    : Event.pieces.flat (step.run d bytes).1 ++ (step.run d bytes).2.data.map .inl
        = d.data.map .inl ++ (plain.run d.bare bytes).1
      ∧ (step.run d bytes).2.bare = (plain.run d.bare bytes).2 := by
  induction bytes generalizing d with
  | nil =>
    constructor
    . exact (List.append_nil _).symm
    . rfl
  | cons b bytes ih =>
    rcases step_plain d b with ⟨hitems, hstate⟩
    rcases ih (step d b).2 with ⟨hrest, hlast⟩
    rw [Transducer.run_cons, Transducer.run_cons, plain_bare, ← hstate]
    constructor
    . rw [Pieces.flat_append, List.append_assoc, hrest, ← List.append_assoc, hitems,
        List.append_assoc]
    . exact hlast

theorem flat_push (d : Decoder) (bytes : List UInt8)
    : Event.pieces.flat (push d bytes).1 = d.data.map .inl ++ (plain.run d.bare bytes).1 := by
  rw [push, Pieces.flat_append, flat_flushData]
  exact (run_plain d bytes).1

theorem push_snd (d : Decoder) (bytes : List UInt8)
    : (push d bytes).2 = (plain.run d.bare bytes).2 := by
  rw [push, flushData_snd]
  exact (run_plain d bytes).2

theorem data_push (d : Decoder) (bytes : List UInt8) : (push d bytes).2.data = [] := by
  rw [push, flushData_snd]
  rfl

theorem run_push (d : Decoder) (chunks : List (List UInt8)) (h : d.data = [])
    : Event.pieces.flat (push.run d chunks).1 = (plain.run d chunks.flatten).1
      ∧ (push.run d chunks).2 = (plain.run d chunks.flatten).2 := by
  induction chunks generalizing d with
  | nil => exact ⟨rfl, rfl⟩
  | cons chunk chunks ih =>
    rcases ih (push d chunk).2 (data_push d chunk) with ⟨hrest, hlast⟩
    have hflat : Event.pieces.flat (push d chunk).1 = (plain.run d chunk).1 := by
      rw [flat_push, run_plain_bare d chunk h, h]
      rfl
    have hstate : (push d chunk).2 = (plain.run d chunk).2 := by
      rw [push_snd, run_plain_bare d chunk h]
    rw [Transducer.run_cons, List.flatten_cons, Transducer.run_append, Pieces.flat_append, hflat,
      hrest, hlast, hstate]
    exact ⟨rfl, rfl⟩

/-- However the bytes are split across calls, the events are the same once adjacent data is merged,
and so is the state in the end. -/
theorem push_chunking (d : Decoder) (chunk : List UInt8) (chunks : List (List UInt8))
    : Event.pieces.merge (push.run d (chunk :: chunks)).1
        = Event.pieces.merge (push d (chunk :: chunks).flatten).1
      ∧ (push.run d (chunk :: chunks)).2 = (push d (chunk :: chunks).flatten).2 := by
  rcases run_push (push d chunk).2 chunks (data_push d chunk) with ⟨hflat, hstate⟩
  rw [Transducer.run_cons, List.flatten_cons]
  constructor
  . apply Event.pieces.merge_eq_of_flat
    rw [Pieces.flat_append, hflat, flat_push, flat_push, Transducer.run_append, push_snd,
      List.append_assoc]
  . rw [push_snd d (chunk ++ chunks.flatten), Transducer.run_append, ← push_snd]
    exact hstate

/-- Between two commands, with nothing held back. -/
def AtRest (d : Decoder) : Prop :=
  d.state = .data ∧ d.data = []

theorem AtRest.eq {d : Decoder} (h : d.AtRest) : d = ⟨.data, d.subOption, d.subBody, []⟩ := by
  cases d
  rcases h with ⟨rfl, rfl⟩
  rfl

section

variable (option : UInt8) (body : List UInt8)

theorem run_escape_data (bytes : List UInt8)
    : plain.run ⟨.data, option, body, []⟩ (escape bytes)
      = (bytes.map .inl, ⟨.data, option, body, []⟩) := by
  induction bytes with
  | nil => rfl
  | cons b bytes ih =>
    rw [escape_cons, Transducer.run_append]
    split
    next hb => simp [Transducer.run, plain, step, bare, Pieces.flat, hb, ih]
    next hb => simp [Transducer.run, plain, step, bare, Pieces.flat, hb, ih]

theorem run_escape_subBody (bytes : List UInt8)
    : plain.run ⟨.subBody, option, body, []⟩ (escape bytes)
      = ([], ⟨.subBody, option, body ++ bytes, []⟩) := by
  induction bytes generalizing body with
  | nil => rw [List.append_nil]; rfl
  | cons b bytes ih =>
    rw [escape_cons, Transducer.run_append]
    split
    next hb => simp [Transducer.run, plain, step, bare, Pieces.flat, hb, ih]
    next hb => simp [Transducer.run, plain, step, bare, Pieces.flat, hb, ih]

theorem run_comPort_head {command : UInt8} (hcommand : command ≠ iac)
    : plain.run ⟨.data, option, body, []⟩ [iac, sb, optComPort, command]
      = ([], ⟨.subBody, optComPort, [command], []⟩) := by
  simp [Transducer.run, plain, step, bare, Pieces.flat, hcommand, sb, iac, will, wont, doVerb, dont]

theorem run_comPort_tail (command : UInt8) (params : List UInt8)
    : plain.run ⟨.subBody, optComPort, command :: params, []⟩ [iac, se]
      = ([.inr (.comPort command params)], ⟨.data, optComPort, [], []⟩) := by
  rfl

end

theorem yields_encodeData (bytes : List UInt8)
    : plain.Yields AtRest (encodeData bytes) (bytes.map .inl) := by
  intro d hd
  rw [hd.eq, encodeData, run_escape_data]
  exact ⟨rfl, rfl, rfl⟩

theorem yields_negotiate {verb : UInt8} (option : UInt8)
    (hverb : verb = will ∨ verb = wont ∨ verb = doVerb ∨ verb = dont)
    : plain.Yields AtRest (Codec.negotiate verb option) [.inr (.negotiate verb option)] := by
  intro d hd
  rw [hd.eq]
  rcases hverb with rfl | rfl | rfl | rfl
  all_goals exact ⟨rfl, rfl, rfl⟩

theorem yields_comPort {command : UInt8} (params : List UInt8) (hcommand : command ≠ iac)
    : plain.Yields AtRest (Codec.comPort command params) [.inr (.comPort command params)] := by
  intro d hd
  rw [hd.eq, Codec.comPort, Transducer.run_append, Transducer.run_append,
    run_comPort_head _ _ hcommand, run_escape_subBody]
  dsimp only
  rw [List.singleton_append, run_comPort_tail]
  exact ⟨rfl, rfl, rfl⟩

end Decoder

end Rfc2217
