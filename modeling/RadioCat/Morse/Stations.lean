import RadioCat.Morse.Generate

/-!
This module contains what holds of the stations of a script: no two of them have the same base, and
no transmission comes from a station that is not there.
-/

namespace Morse

open Arith Program
open Cw (Text)
open Draw

variable {S R : Type}

/-! The rules for the parts of a contact that are not about stations. -/

theorem leads_whenever {P : Builder S R → Prop} {m : Build S R Unit}
    (h : Leads P m fun _ => P) (c : Bool)
    : Leads P (whenever c m) fun _ => P := by
  cases c with
  | true => exact h
  | false => exact Leads.pure id

theorem of_lift {α : Type} {x : Except Stop α} {a : α} {b b' : Builder S R}
    (h : (liftM x : Build S R α) b = .ok (a, b'))
    : x = .ok a ∧ b' = b := by
  cases x with
  | error e => cases h
  | ok a =>
    cases h
    exact ⟨rfl, rfl⟩

theorem leads_lift {α : Type} {P : Builder S R → Prop} (x : Except Stop α)
    : Leads P (liftM x : Build S R α) fun _ => P := by
  intro b a b' h hrun
  rw [(of_lift hrun).2]
  exact h

theorem of_silent {α : Type} {m : Over S R (fun _ => False) α} {a : α} {b b' : Builder S R}
    (h : m.silent b = .ok (a, b'))
    : b'.stations = b.stations ∧ b'.tx = b.tx := by
  have hsaid := m.within h
  rcases hsaid.tx with ⟨more, hmore, hnone⟩
  refine ⟨hsaid.stations, ?_⟩
  rw [hmore, List.eq_nil_iff_forall_not_mem.mpr hnone, List.append_nil]

theorem set_eq_self {α : Type} {l : List α} {i : Nat} {a : α} (h : l[i]? = some a)
    : l.set i a = l := by
  rcases List.getElem?_eq_some_iff.mp h with ⟨hi, rfl⟩
  exact List.set_getElem_self hi

variable [World]

/-- The base of a call is not the operator's and none of those on the air. -/
def Fresh (myCall : Callsign) (taken : List Callsign) (c : Callsign) : Prop :=
  c.base ≠ myCall.base ∧ ∀ t ∈ taken, t.base ≠ c.base

theorem fresh_of_freshCallTries {make : Draw Text} {myCall c : Callsign} {taken : List Callsign}
    {tries : Nat} {rng rng' : Rng}
    (h : freshCallTries make myCall taken tries rng = .ok (some c, rng'))
    : Fresh myCall taken c := by
  induction tries generalizing rng with
  | zero => cases h
  | succ tries ih =>
    unfold freshCallTries at h
    rcases exists_of_bind h with ⟨s, rng, -, h⟩
    split at h
    next => exact ih h
    next =>
      cases hparse : Callsign.parse s with
      | error e =>
        rw [hparse] at h
        cases h
      | ok c' =>
        rw [hparse] at h
        dsimp only at h
        split at h
        next => exact ih h
        next htaken =>
          cases h
          simp only [List.any_eq_true, beq_iff_eq, not_or, not_exists, not_and] at htaken
          exact htaken

theorem call_of_persona {call : Callsign} {home : Option Home} {portable : Bool} {p : Persona}
    {rng rng' : Rng} (h : persona call home portable rng = .ok (p, rng'))
    : p.call = call := by
  unfold persona at h
  rcases exists_of_bind h with ⟨who, rng, -, h⟩
  rcases exists_of_bind h with ⟨gear, rng, -, h⟩
  rcases exists_of_bind h with ⟨rig, rng, -, h⟩
  cases h
  rfl

variable {cfg : ScenarioConfig S R} {kind : Transmission → Prop} {b b' : Builder S R}

/-- The bases are all different, nobody speaks who is not there, and the stations of a list are. -/
structure Sound (cfg : ScenarioConfig S R) (who : List Nat) (b : Builder S R) : Prop where
  distinct : (cfg.myCall.base :: (taken b).map Callsign.base).Nodup
  valid : ∀ t ∈ b.tx, ∀ i, t.party = .them i → i < b.stations.length
  present : ∀ i ∈ who, i < b.stations.length

variable {who who' : List Nat}

theorem Sound.mono (h : Sound cfg who b) (hwho : who' ⊆ who) : Sound cfg who' b := by
  exact ⟨h.distinct, h.valid, fun i hi => h.present i (hwho hi)⟩

theorem Sound.append {more : List Transmission} (h : Sound cfg who b)
    (hstations : b'.stations = b.stations) (htx : b'.tx = b.tx ++ more)
    (hamong : ∀ t ∈ more, Among who t)
    : Sound cfg who b' := by
  refine ⟨?_, ?_, ?_⟩
  . rw [taken, hstations]
    exact h.distinct
  . rw [htx, hstations]
    intro t ht i hi
    rcases List.mem_append.mp ht with ht | ht
    . exact h.valid t ht i hi
    . exact h.present i (hamong t ht i hi)
  . rw [hstations]
    exact h.present

theorem Sound.of_said (h : Sound cfg who b) (hsaid : Says (Among who) b b') : Sound cfg who b' := by
  rcases hsaid.tx with ⟨more, hmore, hamong⟩
  exact h.append hsaid.stations hmore hamong

theorem leads_over {α : Type} (m : Over S R kind α) (hkind : ∀ t, kind t → Among who t)
    : Leads (Sound cfg who) m.run fun _ => Sound cfg who := by
  intro b a b' h hrun
  exact h.of_said ((m.within hrun).imp hkind)

theorem leads_last {α : Type} (m : Over S R kind α) (hkind : ∀ t, kind t → Among who t)
    : Leads (Sound cfg who) m.run fun _ => Sound cfg [] := by
  exact (leads_over m hkind).imp id fun h => h.mono (List.nil_subset who)

theorem leads_silent {α : Type} (m : Over S R (fun _ => False) α)
    : Leads (Sound cfg who) m.silent fun _ => Sound cfg who := by
  exact leads_over m fun t ht => ht.elim

omit [World] in
theorem of_modifyPersona {i : Nat} {f : Persona → Except Stop Persona} {u : Unit}
    (h : modifyPersona i f b = .ok (u, b'))
    : ∃ station persona, b.stations[i]? = some station ∧ f station.persona = .ok persona ∧
      b' = { b with stations := b.stations.set i { station with persona } } := by
  rcases exists_of_except_bind h with ⟨station, hstation, h⟩
  rcases exists_of_except_bind h with ⟨persona, hpersona, h⟩
  cases h
  exact ⟨station, persona, getElem?_of_index hstation, hpersona, rfl⟩

theorem leads_modifyPersona {f : Persona → Except Stop Persona}
    (hf : ∀ {p p'}, f p = .ok p' → p'.call.base = p.call.base) (i : Nat)
    : Leads (Sound cfg who) (modifyPersona i f) fun _ => Sound cfg who := by
  intro b _ b' h hrun
  rcases of_modifyPersona hrun with ⟨station, persona, hstation, hpersona, rfl⟩
  have hbases : ((b.stations.set i { station with persona }).map fun s => s.persona.call).map
      Callsign.base = (taken b).map Callsign.base := by
    rw [taken, List.map_set, List.map_set, hf hpersona]
    apply set_eq_self
    rw [List.getElem?_map, List.getElem?_map, hstation]
    rfl
  refine ⟨?_, ?_, ?_⟩
  . rw [taken, hbases]
    exact h.distinct
  . rw [List.length_set]
    exact h.valid
  . rw [List.length_set]
    exact h.present

theorem leads_modifyPersona_ok {f : Persona → Persona}
    (hf : ∀ p, (f p).call.base = p.call.base) (i : Nat)
    : Leads (Sound cfg who) (modifyPersona i fun p => .ok (f p)) fun _ => Sound cfg who := by
  refine leads_modifyPersona ?_ i
  intro p p' h
  cases h
  exact hf p

theorem leads_activate (them : Nat) (reference : Text)
    : Leads (Sound cfg who) (activate them reference) fun _ => Sound cfg who := by
  refine Leads.bind (leads_silent _) fun powerW => ?_
  refine Leads.bind (leads_silent _) fun antenna => ?_
  refine leads_modifyPersona_ok ?_ them
  intro p
  rfl

theorem leads_activateMe (reference : Text)
    : Leads (Sound cfg who) (activateMe reference) fun _ => Sound cfg who := by
  intro b _ b' h hrun
  cases hrun
  exact ⟨h.distinct, h.valid, h.present⟩

theorem leads_settle (home : Home) (assoc : String) (them : Nat)
    : Leads (Sound cfg who) (settle home assoc them) fun _ => Sound cfg who := by
  unfold settle
  split
  next area state =>
    split
    next towns =>
      refine Leads.bind (leads_silent _) fun town => ?_
      refine leads_modifyPersona_ok ?_ them
      intro p
      rfl
    next => exact Leads.pure id
  next => exact Leads.pure id

theorem base_of_maritime {p p' : Persona} (h : maritime p = .ok p')
    : p'.call.base = p.call.base := by
  unfold maritime at h
  cases hparse : Callsign.parse p.call.base with
  | error e =>
    rw [hparse] at h
    cases h
  | ok base =>
    rw [hparse] at h
    cases h
    rw [Callsign.base_withSuffix base rfl rfl]
    exact Callsign.base_of_parse_base hparse

theorem base_portable (p : Persona) : (portable p).call.base = p.call.base := by
  exact Callsign.base_withSuffix p.call rfl rfl

variable [FloatOps R]

theorem fresh_of_freshHome {decorate : Bool} {taken : List Callsign} {fuel : Nat} {home : Home}
    {r : Callsign × Home}
    (h : (freshHome cfg decorate taken fuel home : Over S R kind _).run b = .ok (r, b'))
    : Fresh cfg.myCall taken r.1 := by
  induction fuel generalizing home b with
  | zero => cases h
  | succ fuel ih =>
    unfold freshHome at h
    rcases Within.exists_of_run_bind h with ⟨found, t, hfound, h⟩
    cases found with
    | some c =>
      cases h
      rcases Over.of_draw hfound with ⟨rng, hdraw⟩
      exact fresh_of_freshCallTries hdraw
    | none =>
      rcases Within.exists_of_run_bind h with ⟨me, t, -, h⟩
      rcases Within.exists_of_run_bind h with ⟨avoid, t, -, h⟩
      rcases Within.exists_of_run_bind h with ⟨home, t, -, h⟩
      exact ih h

variable [FloatCast S R]

theorem fresh_of_newStation {decorate : Bool} {taken : List Callsign} {home : Home}
    {station : Station S R}
    (h : (newStation cfg home decorate taken : Over S R kind _).run b = .ok (station, b'))
    : Fresh cfg.myCall taken station.persona.call := by
  unfold newStation at h
  rcases Within.exists_of_run_bind h with ⟨fresh, t, hfresh, h⟩
  rcases Within.exists_of_run_bind h with ⟨p, t, hp, h⟩
  rcases Within.exists_of_run_bind h with ⟨signal, t, -, h⟩
  cases h
  rcases Over.of_draw hp with ⟨rng, hdraw⟩
  rw [call_of_persona hdraw]
  exact fresh_of_freshHome hfresh

theorem of_place {home : Home} {decorate : Bool} {i : Nat}
    (h : place cfg home decorate b = .ok (i, b'))
    : ∃ station, Fresh cfg.myCall (taken b) station.persona.call ∧ i = b.stations.length ∧
      b'.stations = b.stations ++ [station] ∧ b'.tx = b.tx := by
  rcases exists_of_except_bind h with ⟨r, hnew, h⟩
  cases h
  rcases of_silent hnew with ⟨hstations, htx⟩
  refine ⟨r.1, fresh_of_newStation hnew, ?_, ?_, htx⟩
  . rw [hstations]
  . rw [← hstations]

theorem Sound.of_place {home : Home} {decorate : Bool} {i : Nat} (h : Sound cfg who b)
    (hplace : place cfg home decorate b = .ok (i, b'))
    : Sound cfg (i :: who) b' := by
  rcases Morse.of_place hplace with ⟨station, hfresh, hi, hstations, htx⟩
  have hlength : b'.stations.length = b.stations.length + 1 := by
    rw [hstations, List.length_append, List.length_singleton]
  refine ⟨?_, ?_, ?_⟩
  . have hbases : (taken b').map Callsign.base =
        (taken b).map Callsign.base ++ [station.persona.call.base] := by
      rw [taken, hstations, List.map_append, List.map_append]
      rfl
    rw [hbases, ← List.cons_append, ← List.concat_eq_append]
    refine List.Nodup.concat ?_ h.distinct
    intro hmem
    rcases List.mem_cons.mp hmem with hmine | htaken
    . exact hfresh.1 hmine
    . rcases List.mem_map.mp htaken with ⟨c, hc, hbase⟩
      exact hfresh.2 c hc hbase
  . rw [htx, hlength]
    intro t ht j hj
    exact Nat.lt_succ_of_lt (h.valid t ht j hj)
  . rw [hlength]
    intro j hj
    rcases List.mem_cons.mp hj with rfl | hj
    . rw [hi]
      exact Nat.lt_succ_self _
    . exact Nat.lt_succ_of_lt (h.present j hj)

theorem leads_place (home : Home) (decorate : Bool)
    : Leads (Sound cfg who) (place cfg home decorate) fun i => Sound cfg (i :: who) := by
  intro b i b' h hrun
  exact h.of_place hrun

theorem leads_addStation (home : Option Home) (dxShare : R)
    : Leads (Sound cfg who) (addStation cfg home dxShare) fun i => Sound cfg (i :: who) := by
  cases home with
  | some h => exact leads_place h false
  | none =>
    unfold addStation
    exact Leads.bind (leads_silent _) fun home => leads_place home true

theorem leads_ragChew
    : Leads (Sound cfg []) (ragChew cfg) fun _ => Sound cfg [] := by
  unfold ragChew
  refine Leads.bind (leads_addStation none _) fun them => ?_
  refine Leads.bind (leads_silent _) fun atSea => ?_
  refine Leads.bind (leads_whenever (leads_modifyPersona base_of_maritime them) atSea) fun _ => ?_
  exact leads_last (Over.ragChew cfg them) fun _ ht => ht

theorem leads_contestContacts (exchange : ContestExchange) (cutNumbers : Bool) (me : Text)
    (n mySerial : Nat)
    : Leads (Sound cfg []) (contestContacts cfg exchange cutNumbers me n mySerial)
        fun _ => Sound cfg [] := by
  induction n generalizing mySerial with
  | zero => exact Leads.pure id
  | succ n ih =>
    refine Leads.bind (leads_addStation none _) fun them => ?_
    exact Leads.bind (leads_last _ fun _ ht => ht) ih

theorem leads_contest (exchange : ContestExchange) (cutNumbers : Bool)
    : Leads (Sound cfg []) (contest cfg exchange cutNumbers) fun _ => Sound cfg [] := by
  refine Leads.bind (leads_silent _) fun n => ?_
  refine Leads.bind (leads_silent _) fun me => ?_
  refine Leads.bind (leads_silent _) fun mySerial => ?_
  exact leads_contestContacts exchange cutNumbers me n mySerial

omit [FloatCast S R] in
theorem leads_activateMyPark (meRng : Rng)
    : Leads (Sound cfg who) (activateMyPark meRng) fun _ => Sound cfg who := by
  refine Leads.bind (leads_silent _) fun me => ?_
  refine Leads.bind (leads_lift _) fun iso => ?_
  exact Leads.bind (leads_lift _) fun reference => leads_activateMe reference.1

theorem leads_pota (p2p : Bool) (meRng : Rng)
    : Leads (Sound cfg []) (pota cfg p2p meRng) fun _ => Sound cfg [] := by
  refine Leads.bind (leads_silent _) fun drawn => ?_
  rcases drawn with ⟨home, iso⟩
  refine Leads.bind (leads_addStation (some home) _) fun them => ?_
  refine Leads.bind (leads_silent _) fun park => ?_
  refine Leads.bind (leads_activate them park) fun _ => ?_
  refine Leads.bind (leads_whenever (leads_activateMyPark meRng) p2p) fun _ => ?_
  exact leads_last _ fun _ ht => ht

theorem leads_sota (s2s : Bool) (meRng : Rng)
    : Leads (Sound cfg []) (sota cfg s2s meRng) fun _ => Sound cfg [] := by
  refine Leads.bind (leads_silent _) fun drawn => ?_
  rcases drawn with ⟨summit, assoc⟩
  refine Leads.bind (leads_silent _) fun home => ?_
  refine Leads.bind (leads_addStation (some home) _) fun them => ?_
  refine Leads.bind (leads_settle home assoc them) fun _ => ?_
  refine Leads.bind (leads_silent _) fun away => ?_
  refine Leads.bind (leads_whenever (leads_modifyPersona_ok base_portable them) away) fun _ => ?_
  refine Leads.bind (leads_activate them summit) fun _ => ?_
  have hmine : Leads (Sound cfg [them]) (activateMySummit meRng) fun _ => Sound cfg [them] :=
    Leads.bind (leads_lift _) fun reference => leads_activateMe reference.1.1
  refine Leads.bind (leads_whenever hmine s2s) fun _ => ?_
  exact leads_last _ fun _ ht => ht

theorem leads_placeCallers (me : Option Home) (avoided : List Nat) (n : Nat)
    : Leads (Sound cfg who) (placeCallers cfg me avoided n) fun waiting =>
        Sound cfg (waiting ++ who) := by
  induction n generalizing who with
  | zero => exact Leads.pure id
  | succ n ih =>
    refine Leads.bind (leads_silent _) fun home => ?_
    refine Leads.bind (leads_place home true) fun i => ?_
    refine Leads.bind ih fun waiting => ?_
    exact Leads.pure fun h => h.mono (by simp)

theorem leads_chase (callers : Nat)
    : Leads (Sound cfg []) (chase cfg callers) fun _ => Sound cfg [] := by
  refine Leads.bind (leads_lift _) fun myHome => ?_
  refine Leads.bind (leads_silent _) fun dxHome => ?_
  refine Leads.bind (leads_place dxHome false) fun dx => ?_
  have havoid : Leads (Sound cfg [dx])
      (modify fun b => { b with avoid := some dxHome.entity.dxcc } : Build S R Unit)
      fun _ => Sound cfg [dx] := by
    intro b _ b' h hrun
    cases hrun
    exact ⟨h.distinct, h.valid, h.present⟩
  refine Leads.bind havoid fun _ => ?_
  refine Leads.bind (leads_placeCallers myHome _ callers) fun waiting => ?_
  have hwho : dx :: waiting ⊆ waiting ++ [dx] := by simp
  exact leads_last (Over.chase cfg callers dx waiting) fun t ht i hi => hwho (ht i hi)

end Morse
