import RadioCat.Morse.Contacts

/-!
This module contains the pileup that the operator works out: everyone who is waiting calls, one of
them is picked, gets a report and confirms it.
-/

namespace Morse

open Arith Program
open Cw (Text)
open Cw.Text (isWhitespace splitWhitespace)
open Draw
open scoped Arith.FloatOps

section words

def isWord (w : Text) : Bool :=
  !w.isEmpty && w.all fun c => !isWhitespace c

theorem isWord_iff {w : Text} : isWord w = true ↔ w ≠ [] ∧ ∀ c ∈ w, isWhitespace c = false := by
  simp [isWord]

theorem blank_notMem_of_isWord {w : Text} (h : isWord w = true) : ' ' ∉ w := by
  intro hblank
  have := (isWord_iff.mp h).2 ' ' hblank
  contradiction

theorem isWord_call (call : Callsign) : isWord call.text = true := by
  rw [isWord_iff]
  refine ⟨?_, fun c hc => isWhitespace_of_isCallChar (call.wellFormed.chars c hc)⟩
  rcases call.wellFormed.based with ⟨p, hp, hdigit⟩
  rintro hnil
  rw [hnil, pieces_eq_singleton List.not_mem_nil, List.mem_singleton] at hp
  rw [hp] at hdigit
  contradiction

theorem isWord_decimal (n : Nat) : isWord (decimal n) = true := by
  rw [isWord_iff]
  refine ⟨Nat.toDigits_ne_nil, ?_⟩
  intro c hc
  apply isWhitespace_of_isCallChar
  rw [isCallChar, Nat.isDigit_of_mem_toDigits (by decide) (by decide) hc]
  simp

theorem unwords_singleton (w : Text) : unwords [w] = w := by
  exact List.intercalate_singleton

theorem unwords_cons_cons (w w' : Text) (words : List Text)
    : unwords (w :: w' :: words) = w ++ ' ' :: unwords (w' :: words) := by
  rw [unwords, List.intercalate_cons_cons, List.append_assoc]
  rfl

theorem splitWhitespace_unwords {words : List Text} (h : words.all isWord = true)
    : splitWhitespace (unwords words) = words := by
  induction words with
  | nil => rfl
  | cons w words ih =>
    rw [List.all_cons, Bool.and_eq_true] at h
    rcases isWord_iff.mp h.1 with ⟨hne, hchars⟩
    have hrest := ih h.2
    unfold splitWhitespace at hrest ⊢
    cases words with
    | nil =>
      rw [unwords_singleton, List.splitOnP_eq_singleton hchars]
      simp [hne]
    | cons w' words =>
      rw [unwords_cons_cons, List.splitOnP_append_cons _ _ (by decide), List.filter_append, hrest,
        List.splitOnP_eq_singleton hchars]
      simp [hne]

/-- The words that are sent. -/
structure Spoken (words : List Text) (t : Transmission) : Prop where
  proper : words.all isWord = true
  text : t.text = unwords words

theorem spoken {text : Text} (words : List Text) (htext : text = unwords words)
    (hwords : words.all isWord = true) (party : Party) (start : Start)
    : Spoken words { party, text := normalised text, start } := by
  refine ⟨hwords, ?_⟩
  rw [normalised, htext, splitWhitespace_unwords hwords]

end words

/-- The operator asks for a call of which only a part came through. -/
def Asks (them : Nat) (t : Transmission) : Prop :=
  t.party = .them them ∨ (t.party = .you ∧ ∃ w, Spoken [w] t)

/-- The operator sends something that does not start with a call. -/
def ToAll (t : Transmission) : Prop :=
  t.party = .you ∧ ∃ w words, Spoken (w :: words) t ∧ hasDigit w = false

/-- A station has its report, and the operator goes on. -/
def Confirms (them : Nat) (t : Transmission) : Prop :=
  (t.party = .them them ∧ ∃ words, Spoken words t ∧ 3 ≤ words.length) ∨ ToAll t

theorem isWord_partialCall [World] (front : Bool) (call : Callsign)
    : isWord (partialCall front call.base) = true := by
  have hchars : ∀ c ∈ call.base, isWhitespace c = false :=
    fun c hc => isWhitespace_of_isCallChar (call.chars_base c hc)
  rw [isWord_iff]
  cases front with
  | true =>
    refine ⟨List.concat_ne_nil _ _, ?_⟩
    intro c hc
    rcases List.mem_append.mp hc with hc | hc
    . exact hchars c (List.mem_of_mem_take hc)
    . rw [List.mem_singleton.mp hc]
      rfl
  | false =>
    refine ⟨List.cons_ne_nil _ _, ?_⟩
    intro c hc
    rcases List.mem_cons.mp hc with rfl | hc
    . rfl
    . exact hchars c (List.mem_of_mem_drop hc)

/-- A caller has two forms for the confirmation of its report. -/
def confirmation (short : Bool) (zone : Nat) : Text :=
  if short then format "TU 5NN %" [decimal zone] else format "R 5NN % TU" [decimal zone]

def closing (last : Bool) (me : Callsign) : Text :=
  if last then format "TU % QRT" [me.text] else format "TU % QRZ?" [me.text]

theorem confirms_confirmation (short : Bool) (zone them : Nat) (start : Start)
    : Confirms them
        { party := .them them
          text := normalised (confirmation short zone)
          start } := by
  have hzone := isWord_decimal zone
  refine .inl ⟨rfl, ?_⟩
  cases short with
  | true =>
    refine ⟨["TU".toList, "5NN".toList, decimal zone], spoken _ rfl ?_ _ _, Nat.le_refl 3⟩
    exact congrArg (· && true) hzone
  | false =>
    refine ⟨["R".toList, "5NN".toList, decimal zone, "TU".toList], spoken _ rfl ?_ _ _,
      Nat.le_succ 3⟩
    exact congrArg (· && true) hzone

theorem confirms_again (zone them : Nat) (start : Start)
    : Confirms them
        { party := .them them
          text := normalised (format "5NN % %" [decimal zone, decimal zone])
          start } := by
  have hzone := isWord_decimal zone
  refine .inl ⟨rfl, ["5NN".toList, decimal zone, decimal zone], spoken _ rfl ?_ _ _, Nat.le_refl 3⟩
  simp only [List.all_cons, hzone]
  rfl

theorem toAll_cq (me : Callsign) (start : Start)
    : ToAll
        { party := .you
          text := normalised (format "CQ CQ DE % % K" [me.text, me.text])
          start } := by
  have hme := isWord_call me
  refine ⟨rfl, "CQ".toList, ["CQ".toList, "DE".toList, me.text, me.text, "K".toList],
    spoken _ rfl ?_ _ _, rfl⟩
  simp only [List.all_cons, hme]
  rfl

theorem confirms_closing (last : Bool) (me : Callsign) (them : Nat) (start : Start)
    : Confirms them { party := .you, text := normalised (closing last me), start } := by
  have hme := isWord_call me
  refine .inr ⟨rfl, "TU".toList, ?_⟩
  cases last with
  | true =>
    refine ⟨[me.text, "QRT".toList], spoken _ rfl ?_ _ _, rfl⟩
    exact congrArg (· && true) hme
  | false =>
    refine ⟨[me.text, "QRZ?".toList], spoken _ rfl ?_ _ _, rfl⟩
    exact congrArg (· && true) hme

namespace Over

variable {S R : Type} [World] [FloatOps R] (cfg : ScenarioConfig S R)

/-- Only a part of the call came through. -/
def askAgain (them : Nat) (call : Callsign) : Over S R (Asks them) Unit := do
  let front ← onText (chance (0.5 : R))
  say .you (partialCall front call.base) fun _ =>
    .inr ⟨rfl, _, spoken [_] (unwords_singleton _).symm
      (congrArg (· && true) (isWord_partialCall front call)) _ _⟩
  say (.them them) (format "% %" [call.text, call.text]) fun _ => .inl rfl

/-- The end of a contact, up to the next call of the operator. -/
def confirm (me : Callsign) (them zone : Nat) (last : Bool) : Over S R (Confirms them) Unit := do
  let short ← onText (chance (0.5 : R))
  say (.them them) (confirmation short zone) (confirms_confirmation short zone them)
  if ← asksRepeat cfg then
    say .you "AGN?".toList fun _ => .inr ⟨rfl, "AGN?".toList, [], spoken _ rfl rfl _ _, rfl⟩
    say (.them them) (format "5NN % %" [decimal zone, decimal zone]) (confirms_again zone them)
  say .you (closing last me) (confirms_closing last me them)

def cq (me : Callsign) : Over S R ToAll Unit :=
  say .you (format "CQ CQ DE % % K" [me.text, me.text]) (toAll_cq me)

def report (call : Callsign) (myZone : Nat) : Over S R (fun t => t.party = .you) Unit :=
  say .you (format "% 5NN %" [call.text, decimal myZone]) fun _ => rfl

end Over

section pileup

variable {S R : Type} [World] [FloatOps S] [FloatOps R] [FloatCast S R] (cfg : ScenarioConfig S R)

/-- One turn of the pileup. Those who are still waiting after it come out. -/
def pileupTurn (me : Persona) (waiting : List Nat) : Build S R (List Nat) := do
  (Over.allCall waiting.attach none).run
  let pick ← (Over.onText (rangeU32 0 (waiting.length - 1))).silent
  let them ← index waiting pick
  let rest := waiting.eraseIdx pick
  let p ← (Over.stationAt them).silent
  let asked ← (Over.asksRepeat cfg).silent
  whenever (asked || decide (rest.length ≥ 4)) (Over.askAgain them p.persona.call).run
  (Over.report p.persona.call me.zone).run
  (Over.confirm cfg me.call them p.persona.zone rest.isEmpty).run
  return rest

/-- The turns of the pileup, as many as there are callers. -/
def pileupTurns (me : Persona) : Nat → List Nat → Build S R Unit
  | _, [] => pure ()
  | 0, _ :: _ => throw .unending
  | n + 1, waiting => do
    let rest ← pileupTurn cfg me waiting
    pileupTurns me n rest

def pileup (callers : Nat) : Build S R Unit := do
  let me ← Over.me.silent
  let myHome ← homeOf cfg.myCall
  let own := (myHome.map fun h => h.entity.dxcc).getD 0
  let waiting ← placeCallers cfg myHome [own] callers
  (Over.cq me.call).run
  pileupTurns cfg me waiting.length waiting

end pileup

end Morse
