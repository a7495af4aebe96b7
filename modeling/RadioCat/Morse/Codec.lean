import RadioCat.Cw.Lemmas.Chunks

/-!
This module contains the tokens of Morse text and the two tokenizers, the strict one for what is
sent and the lenient one for what an operator typed.
-/

namespace Morse

open Cw (Text)
open Cw.Text (isWhitespace)

inductive Prosign where
  | ar | sk | bt | kn | as | hh | sos
  deriving DecidableEq, Repr

namespace Prosign

def all : List Prosign :=
  [.ar, .sk, .bt, .kn, .as, .hh, .sos]

def name : Prosign → Text
  | .ar => ['A', 'R']
  | .sk => ['S', 'K']
  | .bt => ['B', 'T']
  | .kn => ['K', 'N']
  | .as => ['A', 'S']
  | .hh => ['H', 'H']
  | .sos => ['S', 'O', 'S']

/-- The names are compared without regard to ASCII case. -/
def fromName (name : Text) : Option Prosign :=
  all.find? fun p => p.name.map Char.toLower = name.map Char.toLower

end Prosign

inductive Token where
  | char (c : Char)
  | prosign (p : Prosign)
  | wordSpace
  deriving DecidableEq, Repr

instance : Inhabited Token := ⟨.wordSpace⟩

def Token.toText : Token → Text
  | .char c => [c]
  | .prosign p => ['<'] ++ p.name ++ ['>']
  | .wordSpace => [' ']

def tokensToText (tokens : List Token) : Text :=
  tokens.flatMap Token.toText

def sharedPatterns : List (Prosign × Char) :=
  [(.bt, '='), (.ar, '+'), (.kn, '('), (.as, '&')]

def canonical : Token → Token
  | .char c =>
    match sharedPatterns.find? fun shared => shared.2 = c.toUpper with
    | some (p, _) => .prosign p
    | none => .char c.toUpper
  | token => token

theorem canonical_char (c : Char)
    : (∃ p, canonical (.char c) = .prosign p) ∨
      canonical (.char c) = .char c.toUpper ∧
        sharedPatterns.find? (fun shared => shared.2 = c.toUpper) = none := by
  simp only [canonical]
  cases hfind : sharedPatterns.find? fun shared => shared.2 = c.toUpper with
  | none => exact .inr ⟨rfl, rfl⟩
  | some shared => exact .inl ⟨shared.1, rfl⟩

theorem canonical_canonical (token : Token) : canonical (canonical token) = canonical token := by
  cases token with
  | char c =>
    rcases canonical_char c with ⟨p, hp⟩ | ⟨hchar, hfind⟩
    . rw [hp]
      rfl
    . rw [hchar]
      simp only [canonical, Cw.Text.toUpper_toUpper, hfind]
  | prosign p => rfl
  | wordSpace => rfl

theorem canonical_eq_wordSpace {token : Token}
    : canonical token = .wordSpace ↔ token = .wordSpace := by
  cases token with
  | char c =>
    rcases canonical_char c with ⟨p, hp⟩ | ⟨hchar, -⟩
    . simp [hp]
    . simp [hchar]
  | prosign p => simp [canonical]
  | wordSpace => simp [canonical]

/-- The characters of the table. Nothing here depends on their patterns. -/
def tableChars : List Char :=
  "ABCDEFGHIJKLMNOPQRSTUVWXYZ0123456789.,?/=-':\"()@+!&".toList

inductive CodecError where
  | unknownChar (ch : Char) (offset : Nat)
  | unknownProsign (name : Text) (offset : Nat)
  | unterminatedProsign (offset : Nat)
  deriving DecidableEq, Repr

/-- What a tokenizer keeps from one character to the next. -/
structure Output where
  out : List Token
  pendingSpace : Bool
  deriving DecidableEq, Repr

namespace Output

def empty : Output := ⟨[], false⟩

def space (o : Output) : Output :=
  { o with pendingSpace := !o.out.isEmpty }

def push (o : Output) (token : Token) : Output where
  out := (if o.pendingSpace then o.out ++ [.wordSpace] else o.out) ++ [token]
  pendingSpace := false

end Output

mutual

def tokenizeFrom (o : Output) (offset : Nat) : Text → Except CodecError (List Token)
  | [] => .ok o.out
  | ch :: rest =>
    if isWhitespace ch then
      tokenizeFrom o.space (offset + ch.utf8Size) rest
    else if ch = '<' then
      prosignFrom o offset (offset + ch.utf8Size) [] rest
    else if ch.toUpper ∈ tableChars then
      tokenizeFrom (o.push (.char ch.toUpper)) (offset + ch.utf8Size) rest
    else
      .error (.unknownChar ch offset)

/-- The inner loop, which takes its characters from the same iterator. -/
def prosignFrom (o : Output) (start offset : Nat) (name : Text)
    : Text → Except CodecError (List Token)
  | [] => .error (.unterminatedProsign start)
  | c :: rest =>
    if c = '>' then
      match Prosign.fromName name with
      | some p => tokenizeFrom (o.push (.prosign p)) (offset + c.utf8Size) rest
      | none => .error (.unknownProsign name start)
    else
      prosignFrom o start (offset + c.utf8Size) (name ++ [c]) rest

end

def tokenize (text : Text) : Except CodecError (List Token) :=
  tokenizeFrom .empty 0 text

/-- A prosign that starts here, with the position of its end in the rest. -/
def prosignAhead (ch : Char) (rest : Text) : Option (Prosign × Nat) := do
  guard (ch = '<')
  let close ← rest.findIdx? (· = '>')
  let p ← Prosign.fromName (rest.take close)
  return (p, close)

/-- The first number counts the characters that are still to be stepped over. -/
def tokenizeCopyFrom (o : Output) : Nat → Text → List Token
  | _, [] => o.out
  | skip + 1, _ :: rest => tokenizeCopyFrom o skip rest
  | 0, ch :: rest =>
    if isWhitespace ch then
      tokenizeCopyFrom o.space 0 rest
    else
      match prosignAhead ch rest with
      | some (p, close) => tokenizeCopyFrom (o.push (.prosign p)) (close + 1) rest
      | none => tokenizeCopyFrom (o.push (.char ch.toUpper)) 0 rest

def tokenizeCopy (text : Text) : List Token :=
  tokenizeCopyFrom .empty 0 text

end Morse
