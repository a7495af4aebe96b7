import RadioCat.Morse.Stations

/-!
This module contains what holds of a pileup over its whole run: each caller gets one report, and
does not call any more once it has it.
-/

namespace Morse

open Arith Program
open Cw (Text)
open Cw.Text (splitWhitespace)
open Draw

/-- A text that starts with a report to a call. -/
def Reports (c text : Text) : Prop :=
  c ++ [' ', '5', 'N', 'N'] <+: text

/-- A text as it is sent in a pileup: the call once or twice. -/
def IsCall (c text : Text) : Prop :=
  text = c ∨ text = unwords [c, c]

namespace Transmission

def ReportTo (c : Callsign) (t : Transmission) : Prop :=
  t.party = .you ∧ Reports c.text t.text

def CallBy (i : Nat) (c : Callsign) (t : Transmission) : Prop :=
  t.party = .them i ∧ IsCall c.text t.text

end Transmission

theorem unwords_inj {words words' : List Text} (hwords : words.all isWord = true)
    (hwords' : words'.all isWord = true) (h : unwords words = unwords words')
    : words = words' := by
  rw [← splitWhitespace_unwords hwords, ← splitWhitespace_unwords hwords', h]

theorem takeWhile_blank {w rest : Text} (h : isWord w = true)
    : (w ++ ' ' :: rest).takeWhile (· ≠ ' ') = w := by
  rw [List.takeWhile_append_of_pos, List.takeWhile_cons_of_neg (by decide), List.append_nil]
  intro c hc
  rw [decide_eq_true_eq]
  rintro rfl
  exact blank_notMem_of_isWord h hc

theorem Reports.head {c w : Text} {words : List Text} (h : Reports c (unwords (w :: words)))
    (hc : isWord c = true) (hwords : (w :: words).all isWord = true)
    : w = c ∧ words ≠ [] := by
  rcases h with ⟨more, hmore⟩
  rw [List.append_assoc] at hmore
  have hfirst : (unwords (w :: words)).takeWhile (· ≠ ' ') = c := by
    rw [← hmore]
    exact takeWhile_blank hc
  rw [List.all_cons, Bool.and_eq_true] at hwords
  cases words with
  | nil =>
    have hblank : ' ' ∈ w := by
      rw [← unwords_singleton w, ← hmore]
      exact List.mem_append_right c List.mem_cons_self
    exact absurd hblank (blank_notMem_of_isWord hwords.1)
  | cons w' words =>
    rw [unwords_cons_cons, takeWhile_blank hwords.1] at hfirst
    exact ⟨hfirst, List.cons_ne_nil w' words⟩

theorem Callsign.hasDigit_text (c : Callsign) : hasDigit c.text = true := by
  rcases c.wellFormed.based with ⟨p, hp, hdigit⟩
  rw [hasDigit, List.any_eq_true] at hdigit ⊢
  rcases hdigit with ⟨ch, hch, hdigit⟩
  exact ⟨ch, (mem_pieces hp).2 hch, hdigit⟩

theorem IsCall.words {c : Callsign} {text : Text} (h : IsCall c.text text)
    : ∃ words, words.all isWord = true ∧ text = unwords words ∧ words.length ≤ 2 := by
  have hc := isWord_call c
  rcases h with rfl | rfl
  . refine ⟨[c.text], ?_, (unwords_singleton _).symm, Nat.le_succ 1⟩
    rw [List.all_cons, hc]
    rfl
  . refine ⟨[c.text, c.text], ?_, rfl, Nat.le_refl 2⟩
    rw [List.all_cons, List.all_cons, hc]
    rfl

section kinds

variable {t : Transmission} {them : Nat} (c : Callsign)

theorem Calls.not_reportTo {who : List Nat} (h : Over.Calls who none t) : ¬ t.ReportTo c := by
  intro hreport
  exact Bool.false_ne_true (h.2 hreport.1)

theorem ToAll.not_reportTo (h : ToAll t) : ¬ t.ReportTo c := by
  rintro ⟨-, hreport⟩
  rcases h with ⟨-, w, words, hspoken, hdigit⟩
  rw [hspoken.text] at hreport
  rw [(hreport.head (isWord_call c) hspoken.proper).1, c.hasDigit_text] at hdigit
  cases hdigit

theorem Asks.not_reportTo (h : Asks them t) : ¬ t.ReportTo c := by
  rintro ⟨hyou, hreport⟩
  rcases h with hthem | ⟨-, w, hspoken⟩
  . cases hyou.symm.trans hthem
  . rw [hspoken.text] at hreport
    exact (hreport.head (isWord_call c) hspoken.proper).2 rfl

theorem Confirms.not_reportTo (h : Confirms them t) : ¬ t.ReportTo c := by
  intro hreport
  rcases h with ⟨hthem, -⟩ | hall
  . cases hreport.1.symm.trans hthem
  . exact hall.not_reportTo c hreport

theorem Confirms.not_callBy (h : Confirms them t) (i : Nat) : ¬ t.CallBy i c := by
  rintro ⟨hthem, hcall⟩
  rcases h with ⟨-, words, hspoken, hlong⟩ | ⟨hyou, -⟩
  . rcases hcall.words with ⟨words', hwords', htext, hshort⟩
    have hsame := unwords_inj hspoken.proper hwords' (hspoken.text.symm.trans htext)
    rw [hsame] at hlong
    omega
  . cases hyou.symm.trans hthem

end kinds

/-- A report as it is sent to a call. -/
def IsReport (c : Callsign) (t : Transmission) : Prop :=
  t.party = .you ∧ ∃ zone, Spoken [c.text, ['5', 'N', 'N'], zone] t

theorem IsReport.reportTo {c : Callsign} {t : Transmission} (h : IsReport c t) : t.ReportTo c := by
  rcases h with ⟨hyou, zone, hspoken⟩
  refine ⟨hyou, ?_⟩
  rw [hspoken.text, unwords_cons_cons, unwords_cons_cons]
  exact ⟨' ' :: unwords [zone], by simp⟩

theorem IsReport.text_eq {c c' : Callsign} {t : Transmission} (h : IsReport c t)
    (h' : t.ReportTo c')
    : c.text = c'.text := by
  rcases h with ⟨-, zone, hspoken⟩
  have hreport := h'.2
  rw [hspoken.text] at hreport
  exact (hreport.head (isWord_call c') hspoken.proper).1

/-- No report to a call is among the transmissions. -/
def Unreported (c : Callsign) (txs : List Transmission) : Prop :=
  ∀ t ∈ txs, ¬ t.ReportTo c

/-- There is exactly one report to a call, and the station does not call after it. -/
def Worked (i : Nat) (c : Callsign) (txs : List Transmission) : Prop :=
  ∃ before report after, txs = before ++ report :: after ∧ report.ReportTo c ∧
    Unreported c (before ++ after) ∧ ∀ t ∈ after, ¬ t.CallBy i c

theorem Unreported.append {c : Callsign} {txs more : List Transmission} (h : Unreported c txs)
    (hmore : Unreported c more)
    : Unreported c (txs ++ more) := by
  intro t ht
  rcases List.mem_append.mp ht with ht | ht
  . exact h t ht
  . exact hmore t ht

theorem Worked.append {i : Nat} {c : Callsign} {txs more : List Transmission} (h : Worked i c txs)
    (hreports : Unreported c more) (hcalls : ∀ t ∈ more, ¬ t.CallBy i c)
    : Worked i c (txs ++ more) := by
  rcases h with ⟨before, report, after, rfl, hreport, hothers, hquiet⟩
  refine ⟨before, report, after ++ more, List.append_assoc _ _ _, hreport, ?_, ?_⟩
  . rw [← List.append_assoc]
    exact hothers.append hreports
  . intro t ht
    rcases List.mem_append.mp ht with ht | ht
    . exact hquiet t ht
    . exact hcalls t ht

section turn

variable {S R : Type} {b b' : Builder S R}

theorem said_of_whenever {kind : Transmission → Prop} {m : Over S R kind Unit} {c : Bool} {u : Unit}
    (h : whenever c m.run b = .ok (u, b'))
    : Says kind b b' := by
  cases c with
  | true => exact m.within h
  | false =>
    cases h
    exact Says.refl b

theorem of_stationAt {i : Nat} {s : Station S R}
    (h : (Over.stationAt i).silent b = .ok (s, b'))
    : b.stations[i]? = some s := by
  rcases exists_of_map h with ⟨s', hs', hs⟩
  cases hs
  exact getElem?_of_index hs'

variable [World]

theorem of_say {kind : Transmission → Prop} {party : Party} {text : Text}
    {hkind : ∀ start, kind { party, text := normalised text, start }} {u : Unit}
    (h : (Over.say party text hkind).run b = .ok (u, b'))
    : b'.stations = b.stations ∧
      ∃ start, b'.tx = b.tx ++ [{ party, text := normalised text, start }] := by
  rcases Within.exists_of_run_bind h with ⟨start, mid, hgap, hpush⟩
  have hsilent : (Over.gap : Over S R _ Start).silent b = .ok (start, mid) := hgap
  rcases of_silent hsilent with ⟨hstations, htx⟩
  cases hpush
  exact ⟨hstations, start, congrArg (· ++ _) htx⟩

variable [FloatOps R] {cfg : ScenarioConfig S R}

/-- What a turn has added: the calls of those who wait, what led to the report to one of them, the
report, and what followed it. -/
structure Turn (waiting : List Nat) (pick them : Nat) (call : Callsign)
    (calls asks : List Transmission) (report : Transmission) (confirms : List Transmission)
    : Prop where
  picked : waiting[pick]? = some them
  calls : ∀ t ∈ calls, Over.Calls waiting none t
  asks : ∀ t ∈ asks, Asks them t
  report : IsReport call report
  confirms : ∀ t ∈ confirms, Confirms them t

theorem of_pileupTurn {me : Persona} {waiting rest : List Nat}
    (h : pileupTurn cfg me waiting b = .ok (rest, b'))
    : b'.stations = b.stations ∧ ∃ pick them s calls asks report confirms,
        rest = waiting.eraseIdx pick ∧ b.stations[them]? = some s ∧
        Turn waiting pick them s.persona.call calls asks report confirms ∧
        b'.tx = b.tx ++ (calls ++ asks ++ report :: confirms) := by
  rcases exists_of_bind h with ⟨_, b₁, hcalls, h⟩
  rcases exists_of_bind h with ⟨pick, b₂, hpick, h⟩
  rcases exists_of_bind h with ⟨them, b₃, hthem, h⟩
  rcases exists_of_bind h with ⟨s, b₄, hs, h⟩
  rcases exists_of_bind h with ⟨asked, b₅, hasked, h⟩
  rcases exists_of_bind h with ⟨_, b₆, hasks, h⟩
  rcases exists_of_bind h with ⟨_, b₇, hreport, h⟩
  rcases exists_of_bind h with ⟨_, b₈, hconfirms, h⟩
  cases h
  have hsaid := (Over.allCall waiting.attach none).within hcalls
  have hasking := said_of_whenever hasks
  have hconfirming := (Over.confirm cfg _ _ _ _).within hconfirms
  rcases hsaid.tx with ⟨calls, htx₁, hcalls⟩
  rcases of_silent hpick with ⟨hst₂, htx₂⟩
  rcases of_lift hthem with ⟨hindex, rfl⟩
  rcases of_silent hs with ⟨hst₄, htx₄⟩
  rcases of_silent hasked with ⟨hst₅, htx₅⟩
  rcases hasking.tx with ⟨asks, htx₆, hasks⟩
  rcases of_say hreport with ⟨hst₇, start, htx₇⟩
  rcases hconfirming.tx with ⟨confirms, htx₈, hconfirms⟩
  have hbefore : b₃.stations = b.stations := hst₂.trans hsaid.stations
  have hmid : b₆.stations = b₃.stations := hasking.stations.trans (hst₅.trans hst₄)
  have hspoken : Spoken [s.persona.call.text, ['5', 'N', 'N'], decimal me.zone]
      { party := .you
        text := normalised (format "% 5NN %" [s.persona.call.text, decimal me.zone])
        start } := by
    refine spoken _ rfl ?_ _ _
    simp only [List.all_cons, isWord_call, isWord_decimal]
    rfl
  refine ⟨?_, pick, them, s, calls, asks, _, confirms, rfl, ?_,
    ⟨getElem?_of_index hindex, hcalls, hasks, ⟨rfl, _, hspoken⟩, hconfirms⟩, ?_⟩
  . rw [hconfirming.stations, hst₇, hmid, hbefore]
  . rw [← hbefore]
    exact of_stationAt hs
  . rw [htx₈, htx₇, htx₆, htx₅, htx₄, htx₂, htx₁]
    simp only [List.append_assoc, List.singleton_append]

end turn

namespace Turn

variable {waiting : List Nat} {pick them : Nat} {call : Callsign}
variable {calls asks confirms txs : List Transmission} {report : Transmission}

theorem unreported_before (h : Turn waiting pick them call calls asks report confirms)
    (c : Callsign)
    : Unreported c (calls ++ asks) := by
  refine Unreported.append ?_ ?_
  . intro t ht
    exact Calls.not_reportTo c (h.calls t ht)
  . intro t ht
    exact (h.asks t ht).not_reportTo c

theorem unreported_after (h : Turn waiting pick them call calls asks report confirms)
    (c : Callsign)
    : Unreported c confirms := by
  intro t ht
  exact (h.confirms t ht).not_reportTo c

theorem unreported (h : Turn waiting pick them call calls asks report confirms) {c : Callsign}
    (hc : call.text ≠ c.text)
    : Unreported c (calls ++ asks ++ report :: confirms) := by
  refine (h.unreported_before c).append ?_
  intro t ht hreport
  rcases List.mem_cons.mp ht with rfl | ht
  . exact hc (h.report.text_eq hreport)
  . exact h.unreported_after c t ht hreport

theorem among (h : Turn waiting pick them call calls asks report confirms)
    : ∀ t ∈ calls ++ asks ++ report :: confirms, Among waiting t := by
  have hthem := List.mem_of_getElem? h.picked
  intro t ht i hi
  rcases List.mem_append.mp ht with ht | ht
  . rcases List.mem_append.mp ht with ht | ht
    . exact (h.calls t ht).1 i hi
    . rcases h.asks t ht with hparty | ⟨hparty, -⟩
      . cases hi.symm.trans hparty
        exact hthem
      . cases hi.symm.trans hparty
  . rcases List.mem_cons.mp ht with rfl | ht
    . cases hi.symm.trans h.report.1
    . rcases h.confirms t ht with ⟨hparty, -⟩ | ⟨hparty, -⟩
      . cases hi.symm.trans hparty
        exact hthem
      . cases hi.symm.trans hparty

theorem not_callBy (h : Turn waiting pick them call calls asks report confirms) {i : Nat}
    (hi : i ∉ waiting) (c : Callsign)
    : ∀ t ∈ calls ++ asks ++ report :: confirms, ¬ t.CallBy i c := by
  intro t ht hcall
  exact hi (h.among t ht i hcall.1)

theorem worked (h : Turn waiting pick them call calls asks report confirms)
    (htxs : Unreported call txs)
    : Worked them call (txs ++ (calls ++ asks ++ report :: confirms)) := by
  refine ⟨txs ++ (calls ++ asks), report, confirms, (List.append_assoc _ _ _).symm,
    h.report.reportTo, ?_, ?_⟩
  . exact (htxs.append (h.unreported_before call)).append (h.unreported_after call)
  . intro t ht
    exact (h.confirms t ht).not_callBy call them

end Turn

/-- Of the callers, those who wait have no report, and all the others have been worked. -/
structure Working {S R : Type} (callers : Nat) (waiting : List Nat) (b : Builder S R) : Prop where
  callers : b.stations.length = callers
  nodup : waiting.Nodup
  unreported : ∀ i ∈ waiting, ∀ s, b.stations[i]? = some s → Unreported s.persona.call b.tx
  worked : ∀ i ∉ waiting, ∀ s, b.stations[i]? = some s → Worked i s.persona.call b.tx

section run

variable {S R : Type} [World] {cfg : ScenarioConfig S R} {callers : Nat} {who waiting : List Nat}
variable {b b' : Builder S R}

theorem Sound.text_ne {i j : Nat} {s s' : Station S R} (h : Sound cfg who b)
    (hi : b.stations[i]? = some s) (hj : b.stations[j]? = some s') (hne : i ≠ j)
    : s.persona.call.text ≠ s'.persona.call.text := by
  intro htext
  have hbase : s.persona.call.base = s'.persona.call.base := by
    rw [Callsign.base, Callsign.base, htext]
  have hbases := (List.nodup_cons.mp h.distinct).2
  refine hne ((List.getElem?_inj ?_ hbases).mp ?_)
  . rw [List.length_map, taken, List.length_map]
    exact (List.getElem?_eq_some_iff.mp hi).1
  . rw [List.getElem?_map, List.getElem?_map, taken, List.getElem?_map, List.getElem?_map, hi, hj]
    exact congrArg some hbase

variable [FloatOps R]

theorem leads_pileupTurn (me : Persona)
    : Leads (fun b => Sound cfg waiting b ∧ Working callers waiting b) (pileupTurn cfg me waiting)
        fun rest b => Sound cfg rest b ∧ Working callers rest b := by
  rintro b rest b' ⟨hsound, hworking⟩ hrun
  rcases of_pileupTurn hrun with
    ⟨hstations, pick, them, s, calls, asks, report, confirms, rfl, hs, hturn, htx⟩
  rcases List.getElem?_eq_some_iff.mp hturn.picked with ⟨hpick, hthem⟩
  have hrest : waiting.eraseIdx pick = waiting.erase them := by
    rw [← hthem, hworking.nodup.erase_getElem]
  rw [hrest]
  have hsound' : Sound cfg waiting b' := hsound.append hstations htx hturn.among
  refine ⟨hsound'.mono List.erase_subset, ?_, hworking.nodup.erase them, ?_, ?_⟩
  . rw [hstations]
    exact hworking.callers
  . rw [hstations, htx]
    intro i hi s' hs'
    rcases hworking.nodup.mem_erase_iff.mp hi with ⟨hne, hwaits⟩
    exact (hworking.unreported i hwaits s' hs').append
      (hturn.unreported (hsound.text_ne hs hs' hne.symm))
  . rw [hstations, htx]
    intro i hi s' hs'
    by_cases hsame : i = them
    . have hcaller : s' = s := by
        rw [hsame, hs] at hs'
        exact (Option.some.inj hs').symm
      rw [hsame, hcaller]
      exact hturn.worked (hworking.unreported them (List.mem_of_getElem? hturn.picked) s hs)
    . have hout : i ∉ waiting := fun hwaits =>
        hi (hworking.nodup.mem_erase_iff.mpr ⟨hsame, hwaits⟩)
      refine (hworking.worked i hout s' hs').append ?_ (hturn.not_callBy hout _)
      exact hturn.unreported (hsound.text_ne hs hs' (Ne.symm hsame))

theorem leads_pileupTurns (me : Persona) (n : Nat) (waiting : List Nat)
    : Leads (fun b => Sound cfg waiting b ∧ Working callers waiting b)
        (pileupTurns cfg me n waiting)
        fun _ b => Sound cfg [] b ∧ Working callers [] b := by
  induction n generalizing waiting with
  | zero =>
    cases waiting with
    | nil => exact Leads.pure id
    | cons i waiting =>
      intro b _ b' h hrun
      cases hrun
  | succ n ih =>
    cases waiting with
    | nil => exact Leads.pure id
    | cons i waiting => exact Leads.bind (leads_pileupTurn me) ih

variable [FloatCast S R]

theorem of_placeCallers {me : Option Home} {avoided : List Nat} {n : Nat}
    (h : placeCallers cfg me avoided n b = .ok (waiting, b'))
    : waiting = List.range' b.stations.length n ∧ b'.stations.length = b.stations.length + n ∧
      b'.tx = b.tx := by
  induction n generalizing b waiting with
  | zero =>
    cases h
    exact ⟨rfl, rfl, rfl⟩
  | succ n ih =>
    rcases exists_of_bind h with ⟨home, b₁, hhome, h⟩
    rcases exists_of_bind h with ⟨i, b₂, hplace, h⟩
    rcases exists_of_bind h with ⟨rest, b₃, hrest, h⟩
    cases h
    rcases of_silent hhome with ⟨hst₁, htx₁⟩
    rcases of_place hplace with ⟨station, -, hi, hst₂, htx₂⟩
    rcases ih hrest with ⟨hwaiting, hlength, htx₃⟩
    have hlength₂ : b₂.stations.length = b.stations.length + 1 := by
      rw [hst₂, hst₁, List.length_append, List.length_singleton]
    refine ⟨?_, ?_, ?_⟩
    . rw [hwaiting, hlength₂, hi, hst₁, List.range'_succ]
    . rw [hlength, hlength₂]
      omega
    . rw [htx₃, htx₂, htx₁]

/-- A pileup that nobody has been placed for works out all of its callers. -/
theorem working_of_pileup {u : Unit} (hsound : Sound cfg [] b) (hstations : b.stations = [])
    (htx : b.tx = []) (h : pileup cfg callers b = .ok (u, b'))
    : Sound cfg [] b' ∧ Working callers [] b' := by
  rcases exists_of_bind h with ⟨me, b₁, hme, h⟩
  rcases exists_of_bind h with ⟨myHome, b₂, hhome, h⟩
  rcases exists_of_bind h with ⟨waiting, b₃, hplaced, h⟩
  rcases exists_of_bind h with ⟨_, b₄, hcq, hturns⟩
  rcases of_silent hme with ⟨hst₁, htx₁⟩
  rcases of_lift hhome with ⟨-, rfl⟩
  rcases of_placeCallers hplaced with ⟨hwaiting, hlength, htx₃⟩
  have hsaid := (Over.cq me.call).within hcq
  rcases hsaid.tx with ⟨more, hmore, htoAll⟩
  have hsound₃ : Sound cfg waiting b₃ := by
    have hplacing := leads_placeCallers myHome _ callers (leads_silent Over.me hsound hme) hplaced
    exact hplacing.mono (List.subset_append_left waiting [])
  have hsound₄ : Sound cfg waiting b₄ := by
    refine hsound₃.append hsaid.stations hmore ?_
    intro t ht i hi
    cases hi.symm.trans (htoAll t ht).1
  rw [hst₁, hstations] at hwaiting hlength
  have hwaits : ∀ i, i < callers → i ∈ waiting := by
    intro i hi
    rw [hwaiting, List.mem_range'_1]
    exact ⟨Nat.zero_le i, by simpa using hi⟩
  have hworking : Working callers waiting b₄ := by
    refine ⟨?_, ?_, ?_, ?_⟩
    . rw [hsaid.stations, hlength]
      simp
    . rw [hwaiting]
      exact List.nodup_range'
    . intro i hi s hs t ht
      rw [hmore, htx₃, htx₁, htx, List.nil_append] at ht
      exact (htoAll t ht).not_reportTo _
    . intro i hi s hs
      have hlt := (List.getElem?_eq_some_iff.mp hs).1
      rw [hsaid.stations, hlength] at hlt
      exact absurd (hwaits i (by simpa using hlt)) hi
  exact leads_pileupTurns me waiting.length waiting ⟨hsound₄, hworking⟩ hturns

theorem sound_of_contacts {meRng : Rng} {u : Unit} (hsound : Sound cfg [] b)
    (hstations : b.stations = []) (htx : b.tx = []) (h : contacts cfg meRng b = .ok (u, b'))
    : Sound cfg [] b' := by
  unfold contacts at h
  cases hkind : cfg.kind
  all_goals rw [hkind] at h
  case ragChew => exact leads_ragChew hsound h
  case contest exchange cutNumbers => exact leads_contest exchange cutNumbers hsound h
  case pota parkToPark => exact leads_pota parkToPark meRng hsound h
  case sota summitToSummit => exact leads_sota summitToSummit meRng hsound h
  case dxPileup callers => exact (working_of_pileup hsound hstations htx h).1
  case dxChase callers => exact leads_chase callers hsound h

theorem of_build {rng : Rng} {script : Script S R} (h : build cfg rng = .ok script)
    : ∃ meRng b u b', b.stations = [] ∧ b.tx = [] ∧ contacts cfg meRng b = .ok (u, b') ∧
      script.stations = b'.stations ∧ script.transmissions = b'.tx := by
  rcases exists_of_except_bind h with ⟨drawn, hdrawn, h⟩
  rcases exists_of_except_bind h with ⟨r, hr, h⟩
  cases h
  exact ⟨_, _, _, _, rfl, rfl, hr, rfl, rfl⟩

variable [FloatOps S]

theorem build_of_generate {script : Script S R} (h : generate cfg = .ok script)
    : build cfg (Rng.new cfg.seed) = .ok script := by
  rcases exists_of_except_bind h with ⟨_, -, h⟩
  split at h
  next => cases h
  next =>
    rcases exists_of_except_bind h with ⟨built, hbuilt, h⟩
    rcases exists_of_except_bind h with ⟨_, -, h⟩
    cases h
    exact hbuilt

/-- The operator and the stations of a script all have different bases, nobody speaks who is not
there, and a pileup is worked out. -/
theorem generate_distinct {script : Script S R} (h : generate cfg = .ok script)
    : (cfg.myCall.base :: script.stations.map fun s => s.persona.call.base).Nodup ∧
      (∀ t ∈ script.transmissions, ∀ i, t.party = .them i → i < script.stations.length) ∧
      ∀ callers, cfg.kind = .dxPileup callers →
        script.stations.length = callers ∧
        ∀ i s, script.stations[i]? = some s →
          Worked i s.persona.call script.transmissions := by
  rcases of_build (build_of_generate h) with
    ⟨meRng, b, u, b', hempty, hquiet, hcontacts, hstations, htransmissions⟩
  have hstart : Sound cfg [] b := by
    refine ⟨?_, ?_, fun i hi => absurd hi List.not_mem_nil⟩
    . rw [taken, hempty]
      exact List.nodup_singleton _
    . rw [hquiet]
      exact fun t ht => absurd ht List.not_mem_nil
  have hsound := sound_of_contacts hstart hempty hquiet hcontacts
  rw [hstations, htransmissions]
  refine ⟨?_, hsound.valid, ?_⟩
  . have hdistinct := hsound.distinct
    rw [taken, List.map_map] at hdistinct
    exact hdistinct
  . intro callers hkind
    unfold contacts at hcontacts
    rw [hkind] at hcontacts
    have hworking := (working_of_pileup hstart hempty hquiet hcontacts).2
    exact ⟨hworking.callers, fun i s hs => hworking.worked i List.not_mem_nil s hs⟩

end run

namespace TwoEntities

open scoped Arith.FloatOps

def entity (dxcc : Nat) (start : Text) (continent : Continent) (town : String) : Entity :=
  { dxcc
    name := start
    continent
    cq := 14
    prefixes := [start]
    formats := [{ prefixes := [start], digit := .oneOf [1, 9], suffix := (2, 3), weight := 1 }]
    regions := []
    tag := none
    iso := none
    activity := .common
    names := ["BOB".toList]
    towns := [town.toList] }

/-- One entity for the operator and one for the callers. -/
scoped instance : World where
  entities := [entity usa ['W'] .na "CHICAGO", entity 230 ['D', 'L'] .eu "BERLIN"]
  fuel := 64

def fist : Fist Milli :=
  { dashRatio := 3.0
    weight := 0.0
    elementJitter := 0.0
    letterGapJitter := 0.0
    wordGapJitter := 0.0
    speedDrift := 0.0 }

def cfg : ScenarioConfig Milli Milli :=
  { kind := .dxPileup 2
    myCall := ⟨"W9XYZ".toList, List.all_eq_true.mp rfl, List.any_eq_true.mp rfl⟩
    difficulty :=
      { wpm := (20, 20)
        farnsworthEffective := none
        fists := [fist]
        strengthDb := (0.0, 0.0)
        pitchOffsetHz := (0.0, 0.0)
        repeatRequests := 0.0
        band := { snrDb := none, qsb := none, qrn := none, qrm := none, rxBandwidthHz := none }
        hfBand := none }
    seed := 1 }

end TwoEntities

open scoped TwoEntities in
theorem generate_distinct_two
    : ∃ script, generate TwoEntities.cfg = .ok script ∧ script.stations.length = 2 ∧
      (TwoEntities.cfg.myCall.base :: script.stations.map fun s => s.persona.call.base).Nodup ∧
      ∀ i s, script.stations[i]? = some s → Worked i s.persona.call script.transmissions := by
  cases h : generate TwoEntities.cfg with
  | error e =>
    have hsome : (generate TwoEntities.cfg).toOption.isSome = true := by decide +kernel
    rw [h] at hsome
    cases hsome
  | ok script =>
    rcases generate_distinct h with ⟨hdistinct, -, hpileup⟩
    exact ⟨script, rfl, (hpileup 2 rfl).1, hdistinct, (hpileup 2 rfl).2⟩

end Morse
