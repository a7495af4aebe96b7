import RadioCat.Morse.Scenario

/-!
This module contains the builder that a script is put together in, and the dialogues between the
operator and the stations. The type of a dialogue says which stations may speak in it.
-/

namespace Morse

open Arith Program
open Cw (Text)
open Draw
open scoped Arith.FloatOps

structure Builder (S R : Type) where
  me : Persona
  stations : List (Station S R)
  tx : List Transmission
  stRng : Rng
  avoid : Option Nat
  text : Rng
  timing : Rng

abbrev Build (S R : Type) := Fallible (Builder S R) Stop

/-- The builder has gone on by transmissions of a kind, and no station or operator has changed. -/
structure Says {S R : Type} (kind : Transmission → Prop) (b b' : Builder S R) : Prop where
  me : b'.me = b.me
  stations : b'.stations = b.stations
  tx : ∃ more, b'.tx = b.tx ++ more ∧ ∀ t ∈ more, kind t

section preorder

variable {S R : Type} {kind kind' : Transmission → Prop} {b b' b'' : Builder S R}

theorem Says.refl (b : Builder S R) : Says kind b b := by
  exact ⟨rfl, rfl, [], (List.append_nil _).symm, fun _ ht => absurd ht List.not_mem_nil⟩

theorem Says.trans (h : Says kind b b') (h' : Says kind b' b'') : Says kind b b'' := by
  rcases h.tx with ⟨more, hmore, hkind⟩
  rcases h'.tx with ⟨more', hmore', hkind'⟩
  refine ⟨h'.me.trans h.me, h'.stations.trans h.stations, more ++ more', ?_, ?_⟩
  . rw [hmore', hmore, List.append_assoc]
  . intro t ht
    rcases List.mem_append.mp ht with ht | ht
    . exact hkind t ht
    . exact hkind' t ht

theorem Says.imp (h : Says kind b b') (himp : ∀ t, kind t → kind' t) : Says kind' b b' := by
  rcases h.tx with ⟨more, hmore, hkind⟩
  exact ⟨h.me, h.stations, more, hmore, fun t ht => himp t (hkind t ht)⟩

instance : IsPreorder (Builder S R) (Says kind) where
  refl := Says.refl
  trans := fun _ _ _ => Says.trans

end preorder

/-- A program that only says things of a kind. -/
abbrev Over (S R : Type) (kind : Transmission → Prop) := Within (Says (S := S) (R := R) kind) Stop

namespace Over

variable {S R α : Type} {kind : Transmission → Prop}

/-- A draw from one of the generators of the builder. -/
def draw (get : Builder S R → Rng) (set : Builder S R → Rng → Builder S R)
    (hset : ∀ b rng, Says kind b (set b rng)) (m : Draw α) : Over S R kind α where
  run b := (m (get b)).map fun r => (r.1, set b r.2)
  within := by
    intro b a b' hrun
    rcases exists_of_map hrun with ⟨r, -, hr⟩
    cases hr
    exact hset b r.2

theorem of_draw {get : Builder S R → Rng} {set : Builder S R → Rng → Builder S R}
    {hset : ∀ b rng, Says kind b (set b rng)} {m : Draw α} {b b' : Builder S R} {a : α}
    (h : (draw get set hset m).run b = .ok (a, b'))
    : ∃ rng, m (get b) = .ok (a, rng) := by
  rcases exists_of_map h with ⟨r, hr, hset⟩
  cases hset
  exact ⟨r.2, hr⟩

def onStations (m : Draw α) : Over S R kind α :=
  draw Builder.stRng (fun b rng => { b with stRng := rng })
    (fun b _ => ⟨rfl, rfl, (Says.refl b).tx⟩) m

def onText (m : Draw α) : Over S R kind α :=
  draw Builder.text (fun b rng => { b with text := rng })
    (fun b _ => ⟨rfl, rfl, (Says.refl b).tx⟩) m

def onTiming (m : Draw α) : Over S R kind α :=
  draw Builder.timing (fun b rng => { b with timing := rng })
    (fun b _ => ⟨rfl, rfl, (Says.refl b).tx⟩) m

def read (f : Builder S R → Except Stop α) : Over S R kind α where
  run b := (f b).map fun a => (a, b)
  within := by
    intro b a b' hrun
    rcases exists_of_map hrun with ⟨r, -, hr⟩
    cases hr
    exact Says.refl b

def push (party : Party) (text : Text) (start : Start)
    (h : kind { party, text := normalised text, start }) : Over S R kind Unit where
  run b := .ok ((), { b with tx := b.tx ++ [{ party, text := normalised text, start }] })
  within := by
    intro b a b' hrun
    cases hrun
    refine ⟨rfl, rfl, [_], rfl, ?_⟩
    intro t ht
    rw [List.mem_singleton.mp ht]
    exact h

def stationAt (i : Nat) : Over S R kind (Station S R) :=
  read fun b => index b.stations i

def callOf (i : Nat) : Over S R kind Text := do
  return (← stationAt i).persona.call.text

def me : Over S R kind Persona :=
  read fun b => .ok b.me

def meCall : Over S R kind Text := do
  return (← me).call.text

variable [World]

def gap : Over S R kind Start := do
  return .afterPrevious ((← onTiming (rangeU32 300 1200)) * 1000000)

def say (party : Party) (text : Text) (h : ∀ start, kind { party, text := normalised text, start })
    : Over S R kind Unit := do
  let start ← gap
  push party text start (h start)

end Over

/-- No stations but those of a list speak. -/
def Among (who : List Nat) (t : Transmission) : Prop :=
  ∀ i, t.party = .them i → i ∈ who

/-- A party to a dialogue with the stations of a list. -/
def Speaker (who : List Nat) := { party : Party // ∀ i, party = .them i → i ∈ who }

namespace Speaker

variable {who : List Nat}

def you : Speaker who :=
  ⟨.you, fun _ h => Party.noConfusion h⟩

def them (i : Nat) (h : i ∈ who) : Speaker who :=
  ⟨.them i, fun j hj => by rw [← Party.them.inj hj]; exact h⟩

def only (i : Nat) : Speaker [i] :=
  them i (List.mem_singleton_self i)

end Speaker

namespace Over

variable {S R : Type} {who : List Nat} [World]

def speak (s : Speaker who) (text : Text) : Over S R (Among who) Unit :=
  say s.1 text fun _ => s.2

end Over

end Morse
