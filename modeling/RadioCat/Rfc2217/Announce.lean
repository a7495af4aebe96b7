import RadioCat.Rfc2217.Modem
import RadioCat.Trace.Basic

/-!
This module contains when the server announces the modem state: what a client that subscribes, and
subscribes again, can conclude from an announcement and from there being none.
-/

namespace Rfc2217

open Trace Codec Rfc2217Peer

inductive Line where
  | cts
  | dsr
  | ri
  | dcd
  deriving DecidableEq, Repr

namespace Line

def level : Line → UInt8
  | cts => Modem.cts
  | dsr => Modem.dsr
  | ri => Modem.ri
  | dcd => Modem.dcd

def delta : Line → Option UInt8
  | cts => some Modem.deltaCts
  | dsr => some Modem.deltaDsr
  | ri => none
  | dcd => some Modem.deltaDcd

def bit : Line → Nat
  | cts => 4
  | dsr => 5
  | ri => 6
  | dcd => 7

end Line

instance Line.decidableForall {P : Line → Prop} [DecidablePred P] : Decidable (∀ line, P line) :=
  decidable_of_iff (P .cts ∧ P .dsr ∧ P .ri ∧ P .dcd)
    ⟨fun ⟨hcts, hdsr, hri, hdcd⟩ line => by cases line <;> assumption,
      fun h => ⟨h .cts, h .dsr, h .ri, h .dcd⟩⟩

/-- Bit `k` of a modem state. -/
def up (state : UInt8) (k : Nat) : Bool :=
  state.toBitVec.getLsbD k

section up

variable (x y : UInt8) (k : Nat)

@[simp]
theorem up_and : up (x &&& y) k = (up x k && up y k) := by
  simp [up]

@[simp]
theorem up_or : up (x ||| y) k = (up x k || up y k) := by
  simp [up]

@[simp]
theorem up_xor : up (x ^^^ y) k = (up x k != up y k) := by
  simp [up]

@[simp]
theorem up_zero : up 0 k = false := by
  simp [up]

theorem eq_iff_up {x y : UInt8} : x = y ↔ ∀ k < 8, up x k = up y k := by
  constructor
  . intro h _ _
    rw [h]
  . intro h
    apply UInt8.toBitVec_inj.mp
    exact BitVec.eq_of_getLsbD_eq h

theorem and_ne_zero_iff_up {mask : UInt8} {b : Nat} (hb : b < 8)
    (hmask : ∀ k < 8, up mask k = decide (k = b)) (state : UInt8)
    : state &&& mask ≠ 0 ↔ up state b = true := by
  rw [Ne, eq_iff_up]
  constructor
  . intro h
    rw [← Bool.not_eq_false]
    intro hdown
    apply h
    intro k hk
    rw [up_and, hmask k hk]
    by_cases heq : k = b
    . simp [heq, hdown]
    . simp [heq]
  . intro hup hzero
    have hbit := hzero b hb
    rw [up_and, hmask b hb, hup] at hbit
    simp at hbit

theorem Line.and_level_ne_zero (line : Line) (state : UInt8)
    : state &&& line.level ≠ 0 ↔ up state line.bit = true := by
  apply and_ne_zero_iff_up
  . cases line <;> decide
  . cases line <;> decide

theorem Line.and_level_eq_zero (line : Line) (state : UInt8)
    : state &&& line.level = 0 ↔ up state line.bit = false := by
  rw [← not_iff_not, ← Ne, line.and_level_ne_zero, Bool.not_eq_false]

theorem Line.exists_bit {k : Nat} (hlow : 4 ≤ k) (hk : k < 8) : ∃ line : Line, line.bit = k := by
  have hall : ∀ k < 8, 4 ≤ k → k = Line.cts.bit ∨ k = Line.dsr.bit ∨ k = Line.ri.bit
      ∨ k = Line.dcd.bit := by
    decide
  rcases hall k hk hlow with h | h | h | h
  . exact ⟨.cts, h.symm⟩
  . exact ⟨.dsr, h.symm⟩
  . exact ⟨.ri, h.symm⟩
  . exact ⟨.dcd, h.symm⟩

theorem levels_iff {state : UInt8}
    : state &&& Modem.allLevels = state ↔ ∀ k < 4, up state k = false := by
  have hlevels : ∀ k < 8, up Modem.allLevels k = decide (4 ≤ k) := by
    decide
  rw [eq_iff_up]
  constructor
  . intro h k hk
    have hbit := h k (by omega)
    rw [up_and, hlevels k (by omega), decide_eq_false (by omega), Bool.and_false] at hbit
    exact hbit.symm
  . intro h k hk
    rw [up_and, hlevels k hk]
    by_cases hlow : k < 4
    . rw [h k hlow, Bool.false_and]
    . rw [decide_eq_true (by omega), Bool.and_true]

end up

namespace Link

/-- What the server hears of the modem state: a client's subscription, or the host program handing
over the state of its lines, with the bytes that go out for it. -/
inductive Heard where
  | subscribed (mask : UInt8)
  | handed (state : UInt8) (announced : Option (List UInt8))
  deriving DecidableEq, Repr

def subscription : Event → Option Heard
  | .comPort command params =>
    if command = Client.setModemstateMask then params.head?.map .subscribed else none
  | _ => none

def hear : Transducer Rfc2217Peer Action Heard := fun p action =>
  match action with
  | .push bytes => ((p.decoder.push bytes).1.filterMap subscription, (push p bytes).2)
  | .modemState state => ([.handed state (p.modemState state).1], (p.modemState state).2)
  | .send _ => ([], p)

/-- An announcement: the state that was handed over, the mask it was under and the bytes sent. -/
structure Announcement where
  state : UInt8
  mask : UInt8
  bytes : List UInt8
  deriving DecidableEq, Repr

/-- What a history comes to. `fresh` says that no state was handed over since the client
subscribed. -/
structure Account where
  mask : UInt8 := 0
  fresh : Bool := false
  last : Option Announcement := none
  deriving DecidableEq, Repr

def Account.note (a : Account) : Heard → Account
  | .subscribed mask => { a with mask, fresh := true }
  | .handed state announced =>
    { a with
      fresh := false
      last :=
        match announced with
        | some bytes => some { state, mask := a.mask, bytes }
        | none => a.last }

def account : List Heard → Account :=
  observe Account.note {}

/-- What a client that has subscribed may conclude: it is told the state when it asks, from then
on whenever a line it asked for moves, and a delta names a line that moved. -/
structure Lawful (a : Account) (state : UInt8) (announced : Option (List UInt8)) : Prop where
  first : a.fresh = true → announced ≠ none
  later : a.fresh = false → (announced ≠ none ↔
    ∃ line : Line, a.mask &&& line.level ≠ 0 ∧
      ∀ last ∈ a.last, ∀ out, last.bytes = notifyModemState out →
        (out ^^^ state) &&& line.level ≠ 0)
  deltas : ∀ out, announced = some (notifyModemState out) →
    ∀ line : Line, ∀ delta ∈ line.delta, out &&& delta ≠ 0 →
      ∃ last ∈ a.last, (last.state ^^^ state) &&& line.level ≠ 0

/-- The state differs from the last announcement where the client asks for it now, if it has just
asked; and no line it has come to ask for since is up as it was then. -/
structure Clear (a : Account) (state : UInt8) : Prop where
  first : a.fresh = true → ∀ last ∈ a.last,
    last.state &&& last.mask &&& a.mask ≠ state &&& a.mask
  added : ∀ last ∈ a.last, ∀ line : Line, line.delta ≠ none →
    a.mask &&& line.level ≠ 0 → last.mask &&& line.level = 0 →
      last.state &&& line.level ≠ 0 → state &&& line.level = 0

theorem clear_iff {a : Account} {state : UInt8}
    : (a.fresh = true → ∀ last ∈ a.last, last.state &&& last.mask &&& a.mask ≠ state &&& a.mask)
        ∧ (∀ last ∈ a.last, ∀ line : Line, line.delta ≠ none →
            a.mask &&& line.level ≠ 0 → last.mask &&& line.level = 0 →
              last.state &&& line.level ≠ 0 → state &&& line.level = 0)
      ↔ Clear a state := by
  exact ⟨fun h => ⟨h.1, h.2⟩, fun h => ⟨h.first, h.added⟩⟩

instance (a : Account) (state : UInt8) : Decidable (Clear a state) :=
  decidable_of_iff _ clear_iff

def LawfulAt (e : Heard) (log : List Heard) : Prop :=
  match e with
  | .subscribed _ => True
  | .handed state announced => (account log).mask ≠ 0 → Lawful (account log) state announced

def ClearAt (e : Heard) (log : List Heard) : Prop :=
  match e with
  | .subscribed _ => True
  | .handed state _ => (account log).mask ≠ 0 → Clear (account log) state

/-- Of the state handed over the client asked for levels only. -/
def LevelsAt (e : Heard) (log : List Heard) : Prop :=
  match e with
  | .subscribed _ => True
  | .handed state _ =>
    state &&& (account log).mask &&& Modem.allLevels = state &&& (account log).mask

instance LevelsAt.decidable : (e : Heard) → (log : List Heard) → Decidable (LevelsAt e log)
  | .subscribed _, _ => isTrue trivial
  | .handed _ _, _ => inferInstanceAs (Decidable (_ = _))

instance ClearAt.decidable : (e : Heard) → (log : List Heard) → Decidable (ClearAt e log)
  | .subscribed _, _ => isTrue trivial
  | .handed state _, log =>
    inferInstanceAs (Decidable ((account log).mask ≠ 0 → Clear (account log) state))

/-- The server remembers of its last announcement what was asked for then. -/
structure Tracks (p : Rfc2217Peer) (a : Account) : Prop where
  mask : p.modemMask = a.mask
  last : p.lastNotified = a.last.map fun last => last.state &&& last.mask
  levels : ∀ last ∈ a.last,
    last.state &&& last.mask &&& Modem.allLevels = last.state &&& last.mask
  bytes : ∀ last ∈ a.last, ∃ out, last.bytes = notifyModemState out
    ∧ out &&& Modem.allLevels = last.state &&& last.mask
  told : a.last = none → a.mask ≠ 0 → a.fresh = true

theorem notifyModemState_inj {out out' : UInt8} (h : notifyModemState out = notifyModemState out')
    : out = out' := by
  have hread (out : UInt8)
      : (Reader.readerLoop.run {} [notifyModemState out]).2.modemState = out :=
    (Notes.notifyModemState out).readerLoop (by simp)
  rw [← hread out, h, hread]

theorem and_delta_ne_zero {previous masked : UInt8} (hmasked : ∀ k < 4, up masked k = false)
    (line : Line) {delta : UInt8} (hdelta : delta ∈ line.delta)
    : (masked ||| deltas previous masked) &&& delta ≠ 0
      ↔ up previous line.bit ≠ up masked line.bit := by
  have hdeltas (k : Nat) : up (deltas previous masked) k
      = (up previous 4 != up masked 4 && up Modem.deltaCts k
        || up previous 5 != up masked 5 && up Modem.deltaDsr k
        || up previous 7 != up masked 7 && up Modem.deltaDcd k) := by
    have hcts := Line.cts.and_level_ne_zero (previous ^^^ masked)
    have hdsr := Line.dsr.and_level_ne_zero (previous ^^^ masked)
    have hdcd := Line.dcd.and_level_ne_zero (previous ^^^ masked)
    simp only [Line.level, Line.bit, up_xor] at hcts hdsr hdcd
    simp only [deltas, hcts, hdsr, hdcd, up_or]
    congr 1
    . congr 1
      . split <;> simp_all
      . split <;> simp_all
    . split <;> simp_all
  have hcts : ∀ k < 8, up Modem.deltaCts k = decide (k = 0) := by
    decide
  have hdsr : ∀ k < 8, up Modem.deltaDsr k = decide (k = 1) := by
    decide
  have hdcd : ∀ k < 8, up Modem.deltaDcd k = decide (k = 3) := by
    decide
  cases line with
  | cts =>
    rw [← Option.some.inj hdelta, and_ne_zero_iff_up (b := 0) (by decide) hcts, up_or, hdeltas]
    simp [hmasked, hcts, hdsr, hdcd, Line.bit]
  | dsr =>
    rw [← Option.some.inj hdelta, and_ne_zero_iff_up (b := 1) (by decide) hdsr, up_or, hdeltas]
    simp [hmasked, hcts, hdsr, hdcd, Line.bit]
  | ri => cases hdelta
  | dcd =>
    rw [← Option.some.inj hdelta, and_ne_zero_iff_up (b := 3) (by decide) hdcd, up_or, hdeltas]
    simp [hmasked, hcts, hdsr, hdcd, Line.bit]

section Tracks

variable {p : Rfc2217Peer} {a : Account} {state : UInt8}

theorem Tracks.up_bytes (h : Tracks p a) {last : Announcement} (hlast : last ∈ a.last)
    {out : UInt8} (hout : last.bytes = notifyModemState out) (line : Line)
    : up out line.bit = (up last.state line.bit && up last.mask line.bit) := by
  rcases h.bytes last hlast with ⟨out', hout', hlevels⟩
  rw [hout] at hout'
  rw [← notifyModemState_inj hout', eq_iff_up] at hlevels
  have hbit := hlevels line.bit (by cases line <;> decide)
  have hlevel : up Modem.allLevels line.bit = true := by
    cases line <;> decide
  rw [up_and, up_and, hlevel, Bool.and_true] at hbit
  exact hbit

/-- No announcement goes out: the lines asked for are as they were last announced. -/
theorem Tracks.lawful_iff_of_silent (h : Tracks p a) {last : Announcement} (hlast : last ∈ a.last)
    (hsame : last.state &&& last.mask &&& a.mask = state &&& a.mask)
    : Lawful a state none ↔ Clear a state := by
  have hbit (line : Line) (hasked : up a.mask line.bit = true)
      : (up last.state line.bit && up last.mask line.bit) = up state line.bit := by
    have hbit := eq_iff_up.mp hsame line.bit (by cases line <;> decide)
    rwa [up_and, up_and, up_and, hasked, Bool.and_true, Bool.and_true] at hbit
  have hunique {last' : Announcement} (h' : last' ∈ a.last) : last' = last := by
    rw [Option.mem_def] at h' hlast
    rw [h', Option.some.injEq] at hlast
    exact hlast
  constructor
  . intro hlaw
    constructor
    . intro hfresh
      exact absurd rfl (hlaw.first hfresh)
    . intro last' hlast' line _ hasked hadded _
      rw [hunique hlast', line.and_level_eq_zero] at hadded
      rw [line.and_level_ne_zero] at hasked
      rw [line.and_level_eq_zero, ← hbit line hasked, hadded, Bool.and_false]
  . intro hclear
    constructor
    . intro hfresh
      exact absurd hsame (hclear.first hfresh last hlast)
    . intro _
      constructor
      . intro hnone
        exact absurd rfl hnone
      . rintro ⟨line, hasked, hmoved⟩
        rcases h.bytes last hlast with ⟨out, hout, _⟩
        have hdiff := hmoved last hlast out hout
        rw [line.and_level_ne_zero] at hasked hdiff
        rw [up_xor, h.up_bytes hlast hout, hbit line hasked] at hdiff
        simp at hdiff
    . intro out hnone
      cases hnone

theorem Tracks.exists_moved (h : Tracks p a)
    (hlevels : state &&& a.mask &&& Modem.allLevels = state &&& a.mask) {last : Announcement}
    (hlast : last ∈ a.last) (hdiff : last.state &&& last.mask &&& a.mask ≠ state &&& a.mask)
    : ∃ line : Line, up a.mask line.bit = true
      ∧ (up last.state line.bit && up last.mask line.bit) ≠ up state line.bit := by
  rw [Ne, eq_iff_up] at hdiff
  push Not at hdiff
  rcases hdiff with ⟨k, hk, hbit⟩
  have hlow : 4 ≤ k := by
    by_contra hlow
    rw [levels_iff.mp hlevels k (by omega), up_and,
      levels_iff.mp (h.levels last hlast) k (by omega)] at hbit
    simp at hbit
  rw [up_and, up_and, up_and] at hbit
  rcases Line.exists_bit hlow hk with ⟨line, rfl⟩
  refine ⟨line, ?_, ?_⟩
  . rw [← Bool.not_eq_false]
    intro hmask
    rw [hmask, Bool.and_false, Bool.and_false] at hbit
    exact hbit rfl
  . intro heq
    rw [heq] at hbit
    exact hbit rfl

def announcement (a : Account) (state : UInt8) : UInt8 :=
  match a.last with
  | none => state &&& a.mask
  | some last =>
    state &&& a.mask ||| deltas (last.state &&& last.mask &&& a.mask) (state &&& a.mask)

theorem and_delta_announcement
    (hlevels : state &&& a.mask &&& Modem.allLevels = state &&& a.mask) (line : Line)
    {delta : UInt8} (hdelta : delta ∈ line.delta)
    : announcement a state &&& delta ≠ 0 ↔
      up a.mask line.bit = true ∧ ∃ last ∈ a.last,
        (up last.state line.bit && up last.mask line.bit) ≠ up state line.bit := by
  have hmasked := levels_iff.mp hlevels
  unfold announcement
  cases a.last with
  | none =>
    have hsame : deltas (state &&& a.mask) (state &&& a.mask) = 0 := by
      simp [deltas]
    have hbyte : state &&& a.mask = (state &&& a.mask)
        ||| deltas (state &&& a.mask) (state &&& a.mask) := by
      rw [hsame, UInt8.or_zero]
    dsimp only
    rw [hbyte, and_delta_ne_zero hmasked line hdelta]
    simp
  | some last =>
    dsimp only
    rw [and_delta_ne_zero hmasked line hdelta, up_and, up_and, up_and]
    cases up a.mask line.bit <;> simp

theorem clear_added_of_deltas
    (hlevels : state &&& a.mask &&& Modem.allLevels = state &&& a.mask)
    (hlaw : Lawful a state (some (notifyModemState (announcement a state))))
    {last : Announcement} (hlast : last ∈ a.last) {line : Line} (hdelta : line.delta ≠ none)
    (hasked : up a.mask line.bit = true) (hadded : up last.mask line.bit = false)
    (hwas : up last.state line.bit = true) : up state line.bit = false := by
  rcases Option.ne_none_iff_exists.mp hdelta with ⟨delta, hdelta⟩
  by_contra hup
  rw [Bool.not_eq_false] at hup
  have hset := (and_delta_announcement hlevels line hdelta.symm).mpr
    ⟨hasked, last, hlast, by simp [hadded, hup]⟩
  rcases hlaw.deltas _ rfl line delta hdelta.symm hset with ⟨last', hlast', hmoved⟩
  rw [Option.mem_def] at hlast hlast'
  rw [hlast, Option.some.injEq] at hlast'
  rw [line.and_level_ne_zero, up_xor, ← hlast', hwas, hup] at hmoved
  simp at hmoved

theorem Clear.moved (hclear : Clear a state) {last : Announcement} (hlast : last ∈ a.last)
    {line : Line} (hdelta : line.delta ≠ none) (hasked : up a.mask line.bit = true)
    (hseen : (up last.state line.bit && up last.mask line.bit) ≠ up state line.bit)
    : up last.state line.bit ≠ up state line.bit := by
  intro hsame
  have hnew := hclear.added last hlast line hdelta ((line.and_level_ne_zero _).mpr hasked)
  rw [line.and_level_eq_zero, line.and_level_ne_zero, line.and_level_eq_zero] at hnew
  cases hthen : up last.mask line.bit with
  | true =>
    rw [hthen, Bool.and_true] at hseen
    exact hseen hsame
  | false =>
    rw [hthen, Bool.and_false] at hseen
    have hup : up state line.bit = true := by
      simpa using hseen.symm
    rw [hnew hthen (hsame.trans hup)] at hup
    cases hup

theorem Tracks.lawful_iff_of_announced (h : Tracks p a) (hmask : a.mask ≠ 0)
    (hlevels : state &&& a.mask &&& Modem.allLevels = state &&& a.mask)
    (hdiff : ∀ last ∈ a.last, last.state &&& last.mask &&& a.mask ≠ state &&& a.mask)
    : Lawful a state (some (notifyModemState (announcement a state))) ↔ Clear a state := by
  constructor
  . intro hlaw
    constructor
    . intro _
      exact hdiff
    . intro last hlast line hdelta hasked hadded hwas
      rw [line.and_level_ne_zero] at hasked hwas
      rw [line.and_level_eq_zero] at hadded ⊢
      exact clear_added_of_deltas hlevels hlaw hlast hdelta hasked hadded hwas
  . intro hclear
    constructor
    . intro _
      exact Option.some_ne_none _
    . intro hfresh
      refine iff_of_true (Option.some_ne_none _) ?_
      cases hlast : a.last with
      | none =>
        rw [h.told hlast hmask] at hfresh
        cases hfresh
      | some last =>
        rcases h.exists_moved hlevels hlast (hdiff last hlast) with ⟨line, hasked, hmoved⟩
        refine ⟨line, (line.and_level_ne_zero _).mpr hasked, ?_⟩
        intro last' hlast' out hout
        cases hlast'
        rw [line.and_level_ne_zero, up_xor, h.up_bytes hlast hout, bne_iff_ne]
        exact hmoved
    . intro out hout line delta hdelta hset
      rw [← notifyModemState_inj (Option.some.inj hout), and_delta_announcement hlevels line hdelta]
        at hset
      rcases hset with ⟨hasked, last, hlast, hseen⟩
      refine ⟨last, hlast, ?_⟩
      rw [line.and_level_ne_zero, up_xor, bne_iff_ne]
      exact hclear.moved hlast (by rw [hdelta]; exact Option.some_ne_none _) hasked hseen

theorem Tracks.modemState_eq (h : Tracks p a) (state : UInt8)
    : p.modemState state
      = if a.mask = 0 ∨ ∃ last ∈ a.last, last.state &&& last.mask &&& a.mask = state &&& a.mask then
          (none, p)
        else
          (some (notifyModemState (announcement a state)),
            { p with lastNotified := some (state &&& a.mask) }) := by
  unfold Rfc2217Peer.modemState announcement
  rw [h.mask, h.last]
  dsimp only
  by_cases hmask : a.mask = 0
  . rw [if_pos hmask, if_pos (Or.inl hmask)]
  . rw [if_neg hmask]
    cases a.last with
    | none => simp [hmask]
    | some last => simp [hmask]

theorem Tracks.lawful_iff (h : Tracks p a) (hmask : a.mask ≠ 0)
    (hlevels : state &&& a.mask &&& Modem.allLevels = state &&& a.mask)
    : Lawful a state (p.modemState state).1 ↔ Clear a state := by
  rw [h.modemState_eq]
  split
  next hsilent =>
    rcases hsilent.resolve_left hmask with ⟨last, hlast, hsame⟩
    exact h.lawful_iff_of_silent hlast hsame
  next hnews =>
    rw [not_or, not_exists] at hnews
    apply h.lawful_iff_of_announced hmask hlevels
    intro last hlast hsame
    exact hnews.2 last ⟨hlast, hsame⟩

theorem Tracks.modemState (h : Tracks p a)
    (hlevels : state &&& a.mask &&& Modem.allLevels = state &&& a.mask)
    : Tracks (p.modemState state).2 (a.note (.handed state (p.modemState state).1)) := by
  rw [h.modemState_eq]
  split
  next hsilent =>
    refine ⟨h.mask, h.last, h.levels, h.bytes, ?_⟩
    intro hnone hmask
    rcases hsilent.resolve_left hmask with ⟨last, hlast, _⟩
    rw [Option.mem_def, show a.last = none from hnone] at hlast
    cases hlast
  next =>
    have hout : announcement a state &&& Modem.allLevels = state &&& a.mask := by
      unfold announcement
      split
      next => exact hlevels
      next => rw [or_and_levels (deltas_levels _ _), hlevels]
    refine ⟨h.mask, rfl, ?_, ?_, ?_⟩
    . rintro _ ⟨⟩
      exact hlevels
    . rintro _ ⟨⟩
      exact ⟨_, rfl, hout⟩
    . intro hnone
      cases hnone

theorem Tracks.congr (h : Tracks p a) {q : Rfc2217Peer} (hmask : q.modemMask = p.modemMask)
    (hlast : q.lastNotified = p.lastNotified) : Tracks q a := by
  exact ⟨hmask.trans h.mask, hlast.trans h.last, h.levels, h.bytes, h.told⟩

theorem Tracks.subscribed (h : Tracks p a) {q : Rfc2217Peer}
    (hlast : q.lastNotified = p.lastNotified) : Tracks q (a.note (.subscribed q.modemMask)) := by
  refine ⟨rfl, hlast.trans h.last, h.levels, h.bytes, ?_⟩
  intro _ _
  rfl

/-- The mask changes by a subscription and by nothing else the client sends. -/
theorem subscription_cases (p : Rfc2217Peer) (event : Event)
    : subscription event = none ∧ (handle p event).2.modemMask = p.modemMask
      ∨ subscription event = some (.subscribed (handle p event).2.modemMask) := by
  fun_cases handle p event
  case case3 command params =>
    fun_cases handleComPort p command params
    case case2 hcontrol value _ =>
      apply Or.inl
      constructor
      . rw [hcontrol]
        rfl
      . fun_cases handleControl p value <;> rfl
    all_goals simp_all [subscription]
  all_goals simp [subscription]

theorem tracks_handle {log : List Heard} (decoded : List Event) (h : Tracks p (account log))
    : Tracks (handle.run p decoded).2
        (account ((decoded.filterMap subscription).reverse ++ log)) := by
  induction decoded generalizing p log with
  | nil => exact h
  | cons event decoded ih =>
    rw [Transducer.run_cons, List.filterMap_cons]
    rcases subscription_cases p event with ⟨hnone, hmask⟩ | hsome
    . rw [hnone]
      exact ih (h.congr hmask (lastNotified_handle p event))
    . rw [hsome, List.reverse_cons, List.append_assoc]
      apply ih
      exact h.subscribed (lastNotified_handle p event)

def Agree (e : Heard) (log : List Heard) : Prop :=
  LawfulAt e log ↔ ClearAt e log

theorem agree_subscriptions {log : List Heard} (decoded : List Event) (h : Each Agree log)
    : Each Agree ((decoded.filterMap subscription).reverse ++ log) := by
  apply h.append
  intro e he log
  rcases List.mem_filterMap.mp he with ⟨event, _, hevent⟩
  rcases subscription_cases {} event with ⟨hnone, _⟩ | hsome
  . rw [hnone] at hevent
    cases hevent
  . rw [hsome] at hevent
    cases hevent
    exact Iff.rfl

end Tracks

/-- Over a whole run the server keeps track of what it announced, and every time a state is handed
over it meets the law exactly when the condition holds. -/
theorem hear_agree {p : Rfc2217Peer} {log : List Heard} (actions : List Action)
    (hlevels : Each LevelsAt ((hear.run p actions).1.reverse ++ log))
    (h : Tracks p (account log)) (hlog : Each Agree log)
    : Each Agree ((hear.run p actions).1.reverse ++ log) := by
  induction actions generalizing p log with
  | nil => exact hlog
  | cons action actions ih =>
    rw [Transducer.run_cons, List.reverse_append, List.append_assoc] at hlevels ⊢
    cases action with
    | push bytes =>
      apply ih hlevels
      . apply tracks_handle
        exact h.congr rfl rfl
      . exact agree_subscriptions _ hlog
    | modemState state =>
      have hstate := hlevels.of_append
      apply ih hlevels
      . exact h.modemState hstate
      . refine ⟨?_, hlog⟩
        exact imp_congr_right fun hmask => h.lawful_iff hmask hstate
    | send data => exact ih hlevels h hlog

/-- However subscriptions and hand-overs come, as long as levels are asked for, what the client is
told is lawful exactly when every subscription after an announcement is followed by a state that
differs from it, and no line the client comes to ask for is up as it was at that announcement. -/
theorem announcements_lawful_iff (actions : List Action)
    (hlevels : Each LevelsAt (hear.run {} actions).1.reverse)
    : Each LawfulAt (hear.run {} actions).1.reverse
      ↔ Each ClearAt (hear.run {} actions).1.reverse := by
  have hstart : Tracks {} (account []) := by
    refine ⟨rfl, rfl, ?_, ?_, ?_⟩
    . rintro last ⟨⟩
    . rintro last ⟨⟩
    . intro _ hmask
      exact absurd rfl hmask
  rw [← List.append_nil (hear.run {} actions).1.reverse] at hlevels ⊢
  have hagree := hear_agree actions hlevels hstart trivial
  exact hagree.congr

/-- A client that asks for CTS, then for all lines when DSR has gone down, and DSR comes up. -/
theorem announcements_lawful_widened
    : Each LawfulAt (hear.run {} [subscribe Modem.cts, .modemState 0x30, subscribe Modem.allLevels,
        .modemState 0x00, .modemState 0x20, .modemState 0x20]).1.reverse := by
  apply (announcements_lawful_iff _ _).mpr
  . decide
  . decide

/-- A client that subscribes again is told nothing while the state is the same; and one that asks
for DSR as well is told that DSR moved, while it was up all along. -/
theorem announcements_unlawful
    : ¬Each LawfulAt (hear.run {} [subscribe Modem.cts, .modemState 0x10, subscribe Modem.cts,
        .modemState 0x10]).1.reverse
      ∧ ¬Each LawfulAt (hear.run {} [subscribe Modem.cts, .modemState 0x30,
        subscribe (Modem.cts ||| Modem.dsr), .modemState 0x30]).1.reverse := by
  constructor
  . have hlog : (hear.run {} [subscribe Modem.cts, .modemState 0x10, subscribe Modem.cts,
          .modemState 0x10]).1.reverse
        = [.handed 0x10 none, .subscribed 0x10, .handed 0x10 (some (notifyModemState 0x10)),
          .subscribed 0x10] := by
      decide
    rw [hlog]
    intro h
    exact (h.1 (by decide)).first rfl rfl
  . have hlog : (hear.run {} [subscribe Modem.cts, .modemState 0x30,
          subscribe (Modem.cts ||| Modem.dsr), .modemState 0x30]).1.reverse
        = [.handed 0x30 (some (notifyModemState 0x32)), .subscribed 0x30,
          .handed 0x30 (some (notifyModemState 0x10)), .subscribed 0x10] := by
      decide
    rw [hlog]
    intro h
    rcases (h.1 (by decide)).deltas 0x32 rfl .dsr Modem.deltaDsr rfl (by decide)
      with ⟨last, hlast, hmoved⟩
    cases hlast
    exact hmoved (by decide)

end Link

end Rfc2217
