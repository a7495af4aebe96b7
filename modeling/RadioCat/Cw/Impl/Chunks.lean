import RadioCat.Cw.Basic

/-!
This module contains the splitting of a text into the chunks handed to the radio.
-/

namespace Cw

variable (env : Env)

/--
Split `text` into chunks of at most `maxChars` that each key within `maxDuration`. Words are kept
whole where they fit, and a single character always goes.
-/
def chunks (text : Text) (maxChars : Nat) (maxDuration : Option Duration) (wpm : Nat)
    : List Text :=
  let res := text.splitWhitespace.foldl (word (fits maxChars maxDuration wpm)) ([], [])
  if res.2.isEmpty then res.1 else res.1 ++ [res.2]
where
  fits (maxChars : Nat) (maxDuration : Option Duration) (wpm : Nat) (s : Text) : Bool :=
    decide (s.length ≤ Nat.max maxChars 1)
      && maxDuration.all fun d => decide (env.estimate s wpm ≤ d)
  word (fits : Text → Bool) (acc : List Text × Text) (w : Text) : List Text × Text :=
    if acc.2.isEmpty then
      place fits acc.1 w
    else
      let joined := acc.2 ++ ' ' :: w
      if fits joined then
        (acc.1, joined)
      else
        place fits (acc.1 ++ [acc.2]) w
  place (fits : Text → Bool) (out : List Text) (w : Text) : List Text × Text :=
    if fits w then
      (out, w)
    else
      w.foldl (char fits) (out, [])
  char (fits : Text → Bool) (acc : List Text × Text) (c : Char) : List Text × Text :=
    let longer := acc.2 ++ [c]
    if acc.2.isEmpty || fits longer then
      (acc.1, longer)
    else
      (acc.1 ++ [acc.2], [c])

end Cw
