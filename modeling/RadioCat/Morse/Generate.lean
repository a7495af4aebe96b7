import RadioCat.Morse.Pileup

/-!
This module contains the generator of scripts.
-/

namespace Morse

open Arith Program
open Cw (Text)
open scoped Arith.FloatOps

variable {S R : Type} [World] [FloatOps S] [FloatOps R] [FloatCast S R]

/-- The contacts of a kind. The generator that the operator was drawn from goes on being used. -/
def contacts (cfg : ScenarioConfig S R) (meRng : Rng) : Build S R Unit :=
  match cfg.kind with
  | .ragChew => ragChew cfg
  | .contest exchange cutNumbers => contest cfg exchange cutNumbers
  | .pota parkToPark => pota cfg parkToPark meRng
  | .sota summitToSummit => sota cfg summitToSummit meRng
  | .dxPileup callers => pileup cfg callers
  | .dxChase callers => chase cfg callers

def build (cfg : ScenarioConfig S R) (rng : Rng) : Except Stop (Script S R) := do
  let (me, meRng) ← myPersona cfg.myCall (rng.fork 1)
  let (_, b) ← contacts cfg meRng
    { me
      stations := []
      tx := []
      stRng := rng.fork 2
      avoid := none
      text := rng.fork 3
      timing := rng.fork 4 }
  return { kind := cfg.kind, me := b.me, stations := b.stations, transmissions := b.tx }

def ScenarioKind.callers? : ScenarioKind → Option Nat
  | .dxPileup callers | .dxChase callers => some callers
  | _ => none

/-- Every transmission has to encode. -/
def encodable (t : Transmission) : Except Stop Unit :=
  match tokenize t.text with
  | .ok _ => .ok ()
  | .error source => .error (.unencodable t.text source)

def generate (cfg : ScenarioConfig S R) : Except Stop (Script S R) := do
  ofScenario cfg.difficulty.validate
  if cfg.kind.callers?.any fun callers => !(decide (1 ≤ callers) && decide (callers ≤ 12)) then
    throw (.error (.invalidSetting "a pileup needs 1 to 12 callers"))
  else
    let script ← build cfg (Rng.new cfg.seed)
    script.transmissions.forM encodable
    return script

end Morse
