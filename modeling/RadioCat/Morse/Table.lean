import RadioCat.Morse.Codec

/-!
This module contains the table of Morse patterns and the lookups in both directions.
-/

namespace Morse

inductive Element where
  | dit | dah
  deriving DecidableEq, Repr

inductive DecodeStyle where
  | prosigns
  | characters
  deriving DecidableEq, Repr

def textTable : List (Token × String) :=
  [(.char 'A', ".-"), (.char 'B', "-..."), (.char 'C', "-.-."), (.char 'D', "-.."),
    (.char 'E', "."), (.char 'F', "..-."), (.char 'G', "--."), (.char 'H', "...."),
    (.char 'I', ".."), (.char 'J', ".---"), (.char 'K', "-.-"), (.char 'L', ".-.."),
    (.char 'M', "--"), (.char 'N', "-."), (.char 'O', "---"), (.char 'P', ".--."),
    (.char 'Q', "--.-"), (.char 'R', ".-."), (.char 'S', "..."), (.char 'T', "-"),
    (.char 'U', "..-"), (.char 'V', "...-"), (.char 'W', ".--"), (.char 'X', "-..-"),
    (.char 'Y', "-.--"), (.char 'Z', "--.."), (.char '0', "-----"), (.char '1', ".----"),
    (.char '2', "..---"), (.char '3', "...--"), (.char '4', "....-"), (.char '5', "....."),
    (.char '6', "-...."), (.char '7', "--..."), (.char '8', "---.."), (.char '9', "----."),
    (.char '.', ".-.-.-"), (.char ',', "--..--"), (.char '?', "..--.."), (.char '/', "-..-."),
    (.char '=', "-...-"), (.char '-', "-....-"), (.char '\'', ".----."), (.char ':', "---..."),
    (.char '"', ".-..-."), (.char '(', "-.--."), (.char ')', "-.--.-"), (.char '@', ".--.-."),
    (.char '+', ".-.-."), (.char '!', "-.-.--"), (.char '&', ".-..."), (.prosign .ar, ".-.-."),
    (.prosign .sk, "...-.-"), (.prosign .bt, "-...-"), (.prosign .kn, "-.--."),
    (.prosign .as, ".-..."), (.prosign .hh, "........"), (.prosign .sos, "...---...")]

def tableStorage : List (Token × List Element) :=
  textTable.map fun (t, s) => (t, s.toList.map fun c => if c = '.' then .dit else .dah)

def pattern (token : Token) : Option (List Element) :=
  let token :=
    match token with
    | .char c => .char c.toUpper
    | token => token
  (tableStorage.find? fun entry => entry.1 = token).map Prod.snd

/-- The entry is of the kind that the style asks for. -/
def wanted : DecodeStyle → Token → Bool
  | .prosigns, .prosign _ => true
  | .characters, .char _ => true
  | _, _ => false

/-- The loop of `decodeGroupWith`: the first entry that is wanted, else the first that was found. -/
def decodeFrom (elements : List Element) (style : DecodeStyle) (found : Option Token)
    : List (Token × List Element) → Option Token
  | [] => found
  | (t, e) :: table =>
    if e = elements then
      if wanted style t then some t else decodeFrom elements style (found.or (some t)) table
    else
      decodeFrom elements style found table

def decodeGroupWith (elements : List Element) (style : DecodeStyle) : Option Token :=
  decodeFrom elements style none tableStorage

theorem mem_of_decodeFrom {elements : List Element} {style : DecodeStyle} {found : Option Token}
    {table : List (Token × List Element)} {t : Token}
    (h : decodeFrom elements style found table = some t)
    : found = some t ∨ t ∈ table.map Prod.fst := by
  induction table generalizing found with
  | nil => exact .inl h
  | cons entry table ih =>
    rw [decodeFrom] at h
    split at h
    next =>
      split at h
      next =>
        cases h
        exact .inr List.mem_cons_self
      next =>
        rcases ih h with hfound | hmem
        . cases found with
          | none =>
            cases hfound
            exact .inr List.mem_cons_self
          | some _ => exact .inl hfound
        . exact .inr (List.mem_cons_of_mem _ hmem)
    next =>
      rcases ih h with hfound | hmem
      . exact .inl hfound
      . exact .inr (List.mem_cons_of_mem _ hmem)

theorem decodeGroupWith_ne_wordSpace (elements : List Element) (style : DecodeStyle)
    : decodeGroupWith elements style ≠ some .wordSpace := by
  intro h
  have hmem : Token.wordSpace ∈ tableStorage.map Prod.fst := by
    rcases mem_of_decodeFrom h with hnone | hmem
    . cases hnone
    . exact hmem
  exact absurd hmem (by decide)

end Morse
