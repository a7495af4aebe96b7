import Mathlib.Data.List.Nodup
import RadioCat.Morse.Decoder

/-!
This module contains what holds of the decoder over a whole stream: the borders of the calls make no
difference, the text that comes out is legible, and a lock loses and repeats no sample.
-/

namespace Morse

open Arith Trace
open scoped Arith.FloatOps

namespace Decoder

variable {S R : Type} [FloatOps S] [FloatOps R] [FloatCast S R]

end Decoder

/-! What is put out is legible, whatever the numbers are. -/

namespace Receiver

variable {S R : Type} {since : Nat} {text : List Decoded} {rx : Receiver S R}

/-- The classifier knows how the text ends, and the key was not last seen down before `since`. -/
def Tracks (since : Nat) (text : List Decoded) (rx : Receiver S R) : Prop :=
  rx.cls.Tracks text ∧ since ≤ rx.lastActivity

theorem Tracks.append_nil (h : Tracks since text rx) : Tracks since (text ++ []) rx := by
  exact ⟨h.1.append_nil, h.2⟩

theorem Tracks.withDet (h : Tracks since text rx) (det : Detector S R)
    : Tracks since text (rx.withDet det) := by
  exact h

theorem Tracks.withCls {r : List Decoded × Classifier R} (hsince : since ≤ rx.lastActivity)
    (h : r.2.Tracks (text ++ r.1))
    : Tracks since (text ++ (andThen r fun cls => ([], { rx with cls })).1)
        (andThen r fun cls => ([], { rx with cls })).2 := by
  exact andThen_invariant h fun h => ⟨h.append_nil, hsince⟩

variable [FloatOps R]

theorem tracks_gapBefore {cls : Classifier R} (h : cls.Tracks text) (gap : Option R)
    : (gapBefore cls gap).2.Tracks (text ++ (gapBefore cls gap).1) := by
  cases gap with
  | none => exact h.append_nil
  | some gap => exact h.gapEnded gap

theorem Tracks.gapSince (h : Tracks since text rx) (on : Bool) (t : R)
    : Tracks since (text ++ (rx.gapSince on t).1) (rx.gapSince on t).2 := by
  unfold Receiver.gapSince
  split
  next => exact Tracks.withCls h.2 (h.1.gapRunning _)
  next => exact h.append_nil

variable [FloatCast S R] {cfg : DecoderConfig S R}

theorem Tracks.keepMark (h : Tracks since text rx) (start stop : R)
    : Tracks since (text ++ (rx.keepMark cfg start stop).1) (rx.keepMark cfg start stop).2 := by
  exact andThen_invariant (tracks_gapBefore h.1 _) fun hcls => ⟨hcls.mark _, h.2⟩

theorem Tracks.markHeard (h : Tracks since text rx) (edges : R × R)
    : Tracks since (text ++ (rx.markHeard cfg edges).1) (rx.markHeard cfg edges).2 := by
  unfold Receiver.markHeard
  simp only
  split
  next => exact h.append_nil
  next =>
    split
    next => exact h.append_nil
    next => exact h.keepMark _ _

theorem Tracks.markEnded (h : Tracks since text rx) (ended : Option (R × R))
    : Tracks since (text ++ (rx.markEnded cfg ended).1) (rx.markEnded cfg ended).2 := by
  cases ended with
  | none => exact h.append_nil
  | some edges => exact h.markHeard edges

theorem Tracks.closeOpen (h : Tracks since text rx)
    : Tracks since (text ++ (rx.closeOpen cfg).1) (rx.closeOpen cfg).2 := by
  unfold Receiver.closeOpen
  split
  next => exact (h.withDet _).markHeard _
  next => exact h.append_nil

variable {squelch minLevel : R} {total : Nat} (hsince : since ≤ total)
include hsince

theorem Tracks.hop (h : Tracks since text rx) (p : R × R)
    : Tracks since (text ++ (hop cfg squelch minLevel total rx p).1)
        (hop cfg squelch minLevel total rx p).2 := by
  have hactive : ∀ on : Bool,
      Tracks since text { rx with lastActivity := if on then total else rx.lastActivity } := by
    intro on
    cases on with
    | false => exact h
    | true => exact ⟨h.1, hsince⟩
  exact andThen_invariant (((hactive _).withDet _).markEnded _) fun h => h.gapSince _ _

theorem Tracks.finishWarmup (h : Tracks since text rx)
    : Tracks since (text ++ (rx.finishWarmup cfg squelch minLevel total).1)
        (rx.finishWarmup cfg squelch minLevel total).2 := by
  unfold Receiver.finishWarmup
  split
  next => exact h.append_nil
  next =>
    exact Transducer.run_invariant (I := Tracks since) (fun p h => h.hop hsince p) (h.withDet _) _

theorem Tracks.flush (h : Tracks since text rx)
    : Tracks since (text ++ (rx.flush cfg squelch minLevel total).1)
        (rx.flush cfg squelch minLevel total).2 := by
  refine andThen_invariant (h.finishWarmup hsince) fun h => ?_
  exact andThen_invariant h.closeOpen fun h => Tracks.withCls h.2 h.1.flushChar

theorem Tracks.step (h : Tracks since text rx) (x : S)
    : Tracks since (text ++ (step cfg squelch minLevel total rx x).1)
        (step cfg squelch minLevel total rx x).2 := by
  unfold Receiver.step
  split
  next => exact (h.withDet _).append_nil
  next =>
    split
    next =>
      unfold warmUp
      simp only
      split
      next => exact ((h.withDet _).withDet _).finishWarmup hsince
      next => exact ((h.withDet _).withDet _).append_nil
    next => exact (h.withDet _).hop hsince _

end Receiver

namespace Tuning

variable {S R : Type}

@[simp]
theorem auto?_withDet (t : Tuning S R) (det : Detector S R) : (t.withDet det).auto? = t.auto? := by
  cases t <;> rfl

end Tuning

namespace Decoder

variable {S R : Type} {since : Nat} {text : List Decoded} {d : Decoder S R}

def Tracks (since : Nat) (text : List Decoded) (d : Decoder S R) : Prop :=
  d.cls.Tracks text ∧ since ≤ d.lastActivity ∧ since ≤ d.total

theorem Tracks.append_nil (h : Tracks since text d) : Tracks since (text ++ []) d := by
  exact ⟨h.1.append_nil, h.2⟩

theorem Tracks.receiver (h : Tracks since text d) (det : Detector S R)
    : Receiver.Tracks since text ⟨det, d.cls, d.lastActivity⟩ := by
  exact ⟨h.1, h.2.1⟩

theorem Tracks.putBack (h : Tracks since text d) {r : List Decoded × Receiver S R}
    (hr : Receiver.Tracks since (text ++ r.1) r.2)
    : Tracks since (text ++ (andThen r fun rx => ([], d.putBack rx)).1)
        (andThen r fun rx => ([], d.putBack rx)).2 := by
  exact andThen_invariant hr fun hrx => ⟨hrx.append_nil.1, hrx.2, h.2.2⟩

variable [FloatOps R]

theorem tracks_finishStation (h : d.cls.Tracks text)
    : d.finishStation.2.Tracks (text ++ d.finishStation.1) := by
  unfold finishStation
  split
  next =>
    have hspaced := andThen_invariant h.flushChar Classifier.Tracks.wordSpace
    exact andThen_invariant hspaced fun h => (h.forgetTiming _).append_nil
  next => exact h.append_nil

variable [FloatCast S R]

theorem Tracks.steps (h : Tracks since text d) (det : Detector S R) (xs : List S)
    : Tracks since (text ++ (d.steps det xs).1) (d.steps det xs).2 := by
  have hrun := Transducer.run_invariant (I := Receiver.Tracks since)
    (T := Receiver.step d.cfg d.squelch d.minLevel d.total) (fun x hrx => hrx.step h.2.2 x)
    (h.receiver det) xs
  exact h.putBack hrun

theorem Tracks.flush (h : Tracks since text d)
    : Tracks since (text ++ d.flush.1) d.flush.2 := by
  unfold Decoder.flush
  split
  next det _ => exact h.putBack ((h.receiver det).flush h.2.2)
  next => exact andThen_invariant h.1.flushChar fun hcls => ⟨hcls.append_nil, h.2⟩

variable [FloatOps S]

theorem Tracks.lockOn (h : Tracks since text d) (auto : AutoPitch S R) (pitch : S)
    : Tracks since (text ++ (d.lockOn auto pitch).1) (d.lockOn auto pitch).2 := by
  refine andThen_invariant (tracks_finishStation h.1) fun {text cls} hcls => ?_
  have hstation : Tracks since text { d with cls } := ⟨hcls, h.2⟩
  exact andThen_invariant (hstation.steps _ _) fun hrest =>
    ⟨hrest.1.append_nil, hrest.2.2, hrest.2.2⟩

theorem Tracks.move (h : Tracks since text d) (x : S) (m : Move S R)
    : Tracks since (text ++ (d.move x m).1) (d.move x m).2 := by
  cases m with
  | wait => exact h.append_nil
  | lock auto pitch => exact h.lockOn auto pitch
  | step det => exact h.steps det [x]

/-- What hearing a sample can come to, with the tuning after it. -/
inductive Hears (d : Decoder S R) (x : S) : Move S R → Tuning S R → Prop where
  | fixed {det} (htuning : d.tuning = .fixed det) : Hears d x (.step det) d.tuning
  | wait {auto} (htuning : d.tuning = .searching auto)
    : Hears d x .wait (.searching (auto.feed d.cfg.sampleRate x).2)
  | lock {auto p} (htuning : d.tuning = .searching auto)
    : Hears d x (.lock (auto.feed d.cfg.sampleRate x).2 p)
        (.searching (auto.feed d.cfg.sampleRate x).2)
  | relock {auto det p} (htuning : d.tuning = .locked auto det)
    (hquiet : d.total + 1 - d.lastActivity > d.reacquire)
    : Hears d x (.lock (auto.feed d.cfg.sampleRate x).2 p)
        (.locked (auto.feed d.cfg.sampleRate x).2 det)
  | step {auto det} (htuning : d.tuning = .locked auto det)
    : Hears d x (.step det) (.locked (auto.feed d.cfg.sampleRate x).2 det)

omit [FloatCast S R] in
theorem quiet_of_relock {det : Detector S R} {lock : Option S} {p : S}
    (h : d.relock det lock = some p)
    : d.total - d.lastActivity > d.reacquire := by
  rw [relock, Option.filter_eq_some_iff] at h
  simp only [Bool.and_eq_true, decide_eq_true_eq] at h
  exact h.2.2

theorem hears_hear (d : Decoder S R) (x : S)
    : Hears d x (d.hear x).1 (d.hear x).2.tuning := by
  unfold hear
  simp only
  split
  next det htuning => exact .fixed htuning
  next auto htuning =>
    split
    next => exact .lock htuning
    next => exact .wait htuning
  next auto det htuning =>
    split
    next p hp => exact .relock htuning (quiet_of_relock hp)
    next => exact .step htuning

theorem hear_rest (d : Decoder S R) (x : S)
    : (d.hear x).2 = { d with tuning := (d.hear x).2.tuning, total := d.total + 1 } := by
  unfold hear
  simp only
  split
  next => rfl
  next => split <;> rfl
  next => split <;> rfl

theorem Tracks.hear (h : Tracks since text d) (x : S)
    : Tracks since text (d.hear x).2 := by
  rw [hear_rest]
  exact ⟨h.1, h.2.1, Nat.le_succ_of_le h.2.2⟩

theorem Tracks.event (h : Tracks since text d) (e : Event S)
    : Tracks since (text ++ (event d e).1) (event d e).2 := by
  cases e with
  | sample x => exact (h.hear (clean x)).move (clean x) _
  | flush => exact h.flush

theorem Tracks.run (h : Tracks since text d) (es : List (Event S))
    : Tracks since (text ++ (Decoder.event.run d es).1) (Decoder.event.run d es).2 := by
  exact Transducer.run_invariant (fun e h => h.event e) h es

variable {fuel : Nat} {cfg : DecoderConfig S R}

end Decoder

/-! The samples around a lock. -/

namespace AutoPitch

variable {S R : Type} {cap : Nat} {xs : List S} {auto : AutoPitch S R}

/-- The buffer holds the end of the samples, as many of them as it has room for. Without any room
it is never cut. -/
structure Holds (cap : Nat) (xs : List S) (auto : AutoPitch S R) : Prop where
  cap_eq : auto.bufferCap = cap
  suffix : auto.buffer <:+ xs
  long : min xs.length cap ≤ auto.buffer.length
  short : 0 < cap → auto.buffer.length ≤ cap

theorem Holds.keep (h : Holds cap xs auto) (x : S) : Holds cap (xs ++ [x]) (auto.keep x) := by
  rcases h with ⟨rfl, hsuffix, hlong, hshort⟩
  unfold AutoPitch.keep
  split
  next hfull =>
    have hdrop : (auto.buffer.drop 1).length = auto.buffer.length - 1 := List.length_drop
    refine ⟨rfl, ?_, ?_, ?_⟩
    . exact List.suffix_append_self_iff.mpr ((List.drop_suffix 1 auto.buffer).trans hsuffix)
    . simp only [List.length_append, List.length_singleton, hdrop]
      omega
    . intro hcap
      simp only [List.length_append, List.length_singleton, hdrop]
      omega
  next hroom =>
    refine ⟨rfl, ?_, ?_, ?_⟩
    . exact List.suffix_append_self_iff.mpr hsuffix
    . simp only [List.length_append, List.length_singleton]
      omega
    . intro hcap
      have := hshort hcap
      simp only [List.length_append, List.length_singleton]
      omega

variable [FloatOps S] [FloatOps R]

variable [FloatCast S R]

theorem Holds.feed (h : Holds cap xs auto) (sampleRate : Nat) (x : S)
    : Holds cap (xs ++ [x]) (auto.feed sampleRate x).2 := by
  have hkeep := h.keep x
  unfold AutoPitch.feed
  simp only
  split
  next => exact hkeep
  next => exact ⟨hkeep.cap_eq, hkeep.suffix, hkeep.long, hkeep.short⟩

end AutoPitch

namespace Decoder

variable {S R : Type} {since cap : Nat} {text : List Decoded} {xs : List S} {d d' : Decoder S R}

/-- Nothing but the detector, the classifier and the time of the last activity has changed. -/
structure SameSearch (d d' : Decoder S R) : Prop where
  cfg : d'.cfg = d.cfg
  total : d'.total = d.total
  auto : d'.tuning.auto? = d.tuning.auto?

variable [FloatOps R]

/-- The decoder has heard `xs`, and its search holds the end of them. -/
structure Aligned (cap : Nat) (xs : List S) (d : Decoder S R) : Prop where
  total : d.total = xs.length
  reacquire : d.reacquire = cap
  auto : ∀ auto ∈ d.tuning.auto?, auto.Holds cap xs

theorem Aligned.of_sameSearch (h : Aligned cap xs d) (hsame : SameSearch d d')
    : Aligned cap xs d' := by
  refine ⟨?_, ?_, ?_⟩
  . rw [hsame.total, h.total]
  . rw [← h.reacquire]
    unfold Decoder.reacquire
    rw [hsame.cfg]
  . rw [hsame.auto]
    exact h.auto

variable [FloatCast S R]

theorem sameSearch_steps (d : Decoder S R) (det : Detector S R) (xs : List S)
    : SameSearch d (d.steps det xs).2 := by
  exact ⟨rfl, rfl, Tuning.auto?_withDet _ _⟩

theorem sameSearch_flush (d : Decoder S R) : SameSearch d d.flush.2 := by
  unfold Decoder.flush
  split
  next => exact ⟨rfl, rfl, Tuning.auto?_withDet _ _⟩
  next => exact ⟨rfl, rfl, rfl⟩

variable [FloatOps S]

theorem sameSearch_move (d : Decoder S R) (x : S) (m : Move S R)
    : SameSearch d (d.move x m).2 := by
  cases m with
  | wait => exact ⟨rfl, rfl, rfl⟩
  | lock auto pitch => exact ⟨rfl, rfl, Tuning.auto?_withDet _ _⟩
  | step det => exact sameSearch_steps d det [x]

theorem Hears.auto?_eq {x : S} {m : Move S R} {t : Tuning S R} (h : Hears d x m t)
    : t.auto? = d.tuning.auto?.map fun auto => (auto.feed d.cfg.sampleRate x).2 := by
  cases h with
  | fixed htuning =>
    rw [htuning]
    rfl
  | wait htuning | lock htuning | relock htuning | step htuning =>
    rw [htuning]
    rfl

theorem Aligned.hear (h : Aligned cap xs d) (x : S) : Aligned cap (xs ++ [x]) (d.hear x).2 := by
  refine ⟨?_, ?_, ?_⟩
  . rw [hear_rest, List.length_append, List.length_singleton, h.total]
  . rw [hear_rest]
    exact h.reacquire
  . intro auto hauto
    rw [(hears_hear d x).auto?_eq] at hauto
    rcases Option.map_eq_some_iff.mp hauto with ⟨before, hbefore, rfl⟩
    exact (h.auto before hbefore).feed _ _

/-- The samples of the stream that an event stands for, as the decoder hears them. -/
def Event.heard : Event S → List S
  | .sample x => [clean x]
  | .flush => []

theorem Aligned.event (h : Aligned cap xs d) (e : Event S)
    : Aligned cap (xs ++ e.heard) (event d e).2 := by
  cases e with
  | sample x => exact (h.hear (clean x)).of_sameSearch (sameSearch_move _ _ _)
  | flush =>
    rw [Event.heard, List.append_nil]
    exact h.of_sameSearch (sameSearch_flush d)

/-- The samples that the detector is handed for an event, with their places in the stream. They are
the last ones that have been heard. -/
def handedFor (d : Decoder S R) : Event S → List (S × Nat)
  | .sample x =>
    let heard := d.hear (clean x)
    let handed := heard.1.handed (clean x)
    handed.zipIdx (heard.2.total - handed.length)
  | .flush => []

theorem Hears.handed_suffix {x : S} {m : Move S R} {t : Tuning S R} (h : Hears d x m t)
    (hd : Aligned cap xs d)
    : m.handed x <:+ xs ++ [x] := by
  cases h with
  | wait htuning => exact List.nil_suffix
  | fixed htuning | step htuning => exact List.suffix_append xs [x]
  | @lock auto _ htuning | @relock auto _ _ htuning hquiet =>
    have hauto : auto ∈ d.tuning.auto? := by rw [htuning]; rfl
    exact ((hd.auto auto hauto).feed _ x).suffix

theorem Aligned.handedFor (h : Aligned cap xs d) (e : Event S)
    : ∀ p ∈ d.handedFor e, (xs ++ e.heard)[p.2]? = some p.1 := by
  intro p hp
  cases e with
  | flush => cases hp
  | sample x =>
    rcases (hears_hear d (clean x)).handed_suffix h with ⟨skipped, hskipped⟩
    have htotal := (h.hear (clean x)).total
    rw [Decoder.handedFor, htotal, ← hskipped, List.length_append, Nat.add_sub_cancel,
      List.mem_zipIdx_iff_le_and_getElem?_sub] at hp
    rw [Event.heard, ← hskipped, List.getElem?_append_right hp.1]
    exact hp.2

theorem Aligned.run (h : Aligned cap xs d) (es : List (Event S))
    : Aligned cap (xs ++ es.flatMap Event.heard) (Decoder.event.run d es).2 := by
  induction es generalizing xs d with
  | nil => simpa using h
  | cons e es ih =>
    rw [List.flatMap_cons, ← List.append_assoc, Transducer.run_cons]
    exact ih (h.event e)

theorem Hears.det?_eq {x : S} {m : Move S R} {t : Tuning S R} (h : Hears d x m t)
    : t.det? = d.tuning.det? := by
  cases h with
  | fixed htuning => rfl
  | wait htuning | lock htuning | relock htuning | step htuning =>
    rw [htuning]
    rfl

theorem Hears.lock_of_searching {x : S} {m : Move S R} {t : Tuning S R} (h : Hears d x m t)
    (hbefore : d.tuning.det? = none) (hmove : m ≠ .wait)
    : ∃ auto p, m = .lock auto p ∧ auto ∈ t.auto? := by
  cases h with
  | wait htuning => exact absurd rfl hmove
  | lock htuning => exact ⟨_, _, rfl, rfl⟩
  | fixed htuning | relock htuning | step htuning =>
    rw [htuning] at hbefore
    cases hbefore

theorem Aligned.lock {x : S} (h : Aligned cap xs d) (hbefore : d.tuning.det? = none)
    (hafter : (Decoder.event d (.sample x)).2.tuning.det? ≠ none)
    : ∃ auto p, (d.hear (clean x)).1 = .lock auto p ∧ auto.Holds cap (xs ++ [clean x]) := by
  have hheard := hears_hear d (clean x)
  have hmove : (d.hear (clean x)).1 ≠ .wait := by
    intro hwait
    rw [Decoder.event, feedSample, hwait] at hafter
    exact hafter (hheard.det?_eq.trans hbefore)
  rcases hheard.lock_of_searching hbefore hmove with ⟨auto, p, hlock, hauto⟩
  exact ⟨auto, p, hlock, (h.hear (clean x)).auto auto hauto⟩

/-- After a lock no sample from before it comes to a detector. -/
theorem Hears.since_le {x : S} {m : Move S R} {t : Tuning S R} (h : Hears d x m t) (hcap : 0 < cap)
    (haligned : Aligned cap xs d) (htracks : Tracks since text d) (hdet : d.tuning.det? ≠ none)
    : since ≤ d.total + 1 - (m.handed x).length := by
  rcases htracks with ⟨-, hactive, htotal⟩
  cases h with
  | wait htuning | lock htuning =>
    rw [htuning] at hdet
    exact absurd rfl hdet
  | fixed htuning | step htuning => exact htotal
  | @relock auto _ _ htuning hquiet =>
    have hauto : auto ∈ d.tuning.auto? := by rw [htuning]; rfl
    have hshort := ((haligned.auto auto hauto).feed d.cfg.sampleRate x).short hcap
    rw [haligned.reacquire] at hquiet
    rw [Move.handed]
    omega

theorem Tracks.handedFor (h : Tracks since text d) (hcap : 0 < cap) (haligned : Aligned cap xs d)
    (hdet : d.tuning.det? ≠ none) (e : Event S)
    : ∀ p ∈ d.handedFor e, since ≤ p.2 := by
  intro p hp
  cases e with
  | flush => cases hp
  | sample x =>
    have hle := (hears_hear d (clean x)).since_le hcap haligned h hdet
    rw [Decoder.handedFor, hear_rest, List.mem_zipIdx_iff_le_and_getElem?_sub] at hp
    exact hle.trans hp.1

end Decoder

end Morse
