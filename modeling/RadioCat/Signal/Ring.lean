import RadioCat.Arith.Float
import RadioCat.Bytes.Pairs
import RadioCat.Trace.Transducer

/-!
This module contains the ring between a capture callback and the reader thread: a bounded queue of
wire-format samples that drops its oldest bytes when it is full.
-/

namespace Signal

open Arith Bytes Trace

namespace Pcm

def bytesPerSample : Nat := 2

/-- The product of a magnitude of at most one with the full scale, rounded to single precision and
then to an integer, halves away from zero. -/
def scale (magnitude : Nat) : Nat :=
  let exponent := max (magnitude / 2 ^ 23) 1
  let significand :=
    if magnitude / 2 ^ 23 = 0 then magnitude else 2 ^ 23 + magnitude % 2 ^ 23
  let product := significand * 32767
  let excess := Nat.log 2 product + 1 - 24
  let places := 150 - exponent - excess
  (roundShift product excess + 2 ^ (places - 1)) / 2 ^ places

def toI16 (sample : F32) : BitVec 16 :=
  if sample.isNan then
    0
  else
    -- clamped to one, `0x3F800000`
    let scaled := BitVec.ofNat 16 (scale (min sample.magnitude 0x3F800000))
    if sample.negative then -scaled else scaled

def toLeBytes (sample : BitVec 16) : UInt8 × UInt8 :=
  (⟨sample.setWidth 8⟩, ⟨(sample >>> 8).setWidth 8⟩)

def fromLeBytes (bytes : UInt8 × UInt8) : BitVec 16 :=
  bytes.2.toBitVec ++ bytes.1.toBitVec

end Pcm

/-- The queue and the counter. `capacity` counts bytes. -/
structure PcmRing where
  bytes : List UInt8
  closed : Option String
  capacity : Nat
  overruns : Nat
  even : capacity % 2 = 0
  bounded : bytes.length ≤ capacity

inductive ReadResult where
  | ok (bytes : List UInt8)
  | closed (reason : String)
  -- the ring is empty and open: the reader goes to sleep until it is woken, and then tries again
  | waiting
  deriving DecidableEq, Repr

namespace PcmRing

/-- The product is taken modulo the word, as a release build does. -/
def new (capacitySamples : Nat) : PcmRing where
  bytes := []
  closed := none
  capacity := max capacitySamples 1 * Pcm.bytesPerSample % 2 ^ 64
  overruns := 0
  even := by
    rw [Pcm.bytesPerSample, Nat.mod_mod_of_dvd _ (by decide)]
    exact Nat.mul_mod_left _ 2
  bounded := Nat.zero_le _

section push

variable (ring : PcmRing) (samples : List F32)

def skipped : Nat :=
  samples.length - ring.capacity / Pcm.bytesPerSample

def kept : List F32 :=
  samples.drop (ring.skipped samples)

def excess : Nat :=
  ring.bytes.length + (ring.kept samples).length * Pcm.bytesPerSample - ring.capacity

def encode (samples : List F32) : List UInt8 :=
  unpairs ((samples.map Pcm.toI16).map Pcm.toLeBytes)

@[simp]
theorem length_encode : (encode samples).length = 2 * samples.length := by
  simp [encode]

theorem length_kept_le : (ring.kept samples).length * 2 ≤ ring.capacity := by
  have heven := ring.even
  rw [kept, skipped, List.length_drop, Pcm.bytesPerSample]
  omega

theorem excess_le : ring.excess samples ≤ ring.bytes.length := by
  have hkept := ring.length_kept_le samples
  rw [excess, Pcm.bytesPerSample]
  omega

def push : PcmRing :=
  if samples = [] then
    ring
  else if ring.closed.isSome then
    ring
  else
    { ring with
      bytes := ring.bytes.drop (ring.excess samples) ++ encode (ring.kept samples)
      overruns :=
        ring.overruns + (ring.skipped samples + ring.excess samples / Pcm.bytesPerSample)
      bounded := by
        have hbounded := ring.bounded
        have hkept := ring.length_kept_le samples
        rw [List.length_append, List.length_drop, length_encode, excess, Pcm.bytesPerSample]
        omega }

end push

def close (ring : PcmRing) (reason : String) : PcmRing :=
  { ring with closed := ring.closed.or (some reason) }

theorem length_drop_le (ring : PcmRing) (n : Nat)
    : (ring.bytes.drop n).length ≤ ring.capacity := by
  have hbounded := ring.bounded
  rw [List.length_drop]
  omega

def read (ring : PcmRing) (len : Nat) : ReadResult × PcmRing :=
  if len = 0 then
    (.ok [], ring)
  else if ring.bytes.isEmpty then
    match ring.closed with
    | some reason => (.closed reason, ring)
    | none => (.waiting, ring)
  else
    let n := min ring.bytes.length len
    (.ok (ring.bytes.take n),
      { ring with
        bytes := ring.bytes.drop n
        bounded := ring.length_drop_le n })

inductive Action where
  | push (samples : List F32)
  | close (reason : String)
  | read (len : Nat)
  deriving DecidableEq, Repr

inductive Event where
  | pushed (samples : List F32)
  | closed (reason : String)
  | read (result : ReadResult)
  deriving DecidableEq, Repr

/-- Each call holds the lock from its first look at the queue to its end, so the calls of all
threads come one after the other. -/
def call : Transducer PcmRing Action Event
  | ring, .push samples => ([.pushed samples], ring.push samples)
  | ring, .close reason => ([.closed reason], ring.close reason)
  | ring, .read len => ([.read (ring.read len).1], (ring.read len).2)

def Event.bytes : Event → List UInt8
  | .read (.ok bytes) => bytes
  | _ => []

def Event.samples : Event → List F32
  | .pushed samples => samples
  | _ => []

def Event.isClosed : Event → Bool
  | .closed _ => true
  | _ => false

def delivered (events : List Event) : List UInt8 :=
  events.flatMap Event.bytes

/-- The samples that were pushed before the ring was closed. -/
def pushed (events : List Event) : List F32 :=
  (events.takeWhile fun e => !e.isClosed).flatMap Event.samples

/-- What is promised of the events of a run and of the ring at its end. Bytes are counted, for a
sample may be half read. -/
structure Whole (capacitySamples : Nat) (events : List Event) (ring : PcmRing) : Prop where
  aligned :
    ((pairs (delivered events)).map Pcm.fromLeBytes).Sublist ((pushed events).map Pcm.toI16)
  conserved :
    (delivered events).length + ring.bytes.length + 2 * ring.overruns = 2 * (pushed events).length
  bounded : ring.bytes.length ≤ 2 * max capacitySamples 1
  ended : ∀ reason, ring.closed = some reason → ring.bytes = [] →
    ∀ len ≠ 0, (ring.read len).1 = .closed reason
  nonempty : ∀ len ≠ 0, (ring.read len).1 ≠ .ok []

/-- A push that finds half a sample in the ring does not have to drop anything. -/
def Fits (ring : PcmRing) : Action → Prop
  | .push samples => ring.bytes.length % 2 = 1 → ring.closed = none →
      ring.bytes.length + 2 * samples.length ≤ ring.capacity
  | _ => True

theorem fromLeBytes_toLeBytes (sample : BitVec 16)
    : Pcm.fromLeBytes (Pcm.toLeBytes sample) = sample := by
  have hlt := sample.isLt
  apply BitVec.eq_of_toNat_eq
  simp only [Pcm.fromLeBytes, Pcm.toLeBytes, BitVec.toNat_append, BitVec.toNat_setWidth,
    BitVec.toNat_ushiftRight, Nat.shiftLeft_eq, Nat.shiftRight_eq_div_pow]
  rw [← Nat.shiftLeft_eq, ← Nat.shiftLeft_add_eq_or_of_lt (by omega), Nat.shiftLeft_eq]
  omega

section

variable {ring : PcmRing} {samples : List F32}

theorem push_of_closed (hclosed : ring.closed ≠ none) : ring.push samples = ring := by
  unfold push
  split
  next => rfl
  next => rw [if_pos (Option.isSome_iff_ne_none.mpr hclosed)]

/-- What a push does to an open ring, the empty one included. -/
structure Pushed (ring : PcmRing) (samples : List F32) (ring' : PcmRing) : Prop where
  bytes : ring'.bytes = ring.bytes.drop (ring.excess samples) ++ encode (ring.kept samples)
  overruns : ring'.overruns = ring.overruns + (ring.skipped samples + ring.excess samples / 2)
  closed : ring'.closed = none
  capacity : ring'.capacity = ring.capacity

theorem push_of_open (hclosed : ring.closed = none)
    : Pushed ring samples (ring.push samples) := by
  unfold push
  split
  next hnil =>
    have hbounded := ring.bounded
    have hzero : ring.excess [] = 0 := by
      simp [excess, kept]
      omega
    constructor
    . simp [hnil, hzero, kept, encode]
    . simp [hnil, hzero, skipped]
    . exact hclosed
    . rfl
  next =>
    rw [if_neg (by simp [hclosed])]
    exact ⟨rfl, rfl, hclosed, rfl⟩

/-- A read takes what it delivers from the front and changes nothing else. -/
structure Taken (ring : PcmRing) (result : ReadResult) (ring' : PcmRing) : Prop where
  bytes : Event.bytes (.read result) ++ ring'.bytes = ring.bytes
  overruns : ring'.overruns = ring.overruns
  closed : ring'.closed = ring.closed
  capacity : ring'.capacity = ring.capacity

theorem read_taken (ring : PcmRing) (len : Nat)
    : Taken ring (ring.read len).1 (ring.read len).2 := by
  fun_cases read ring len
  case case4 n => exact ⟨List.take_append_drop n ring.bytes, rfl, rfl, rfl⟩
  all_goals exact ⟨rfl, rfl, rfl, rfl⟩

end

theorem delivered_append (events : List Event) (e : Event)
    : delivered (events ++ [e]) = delivered events ++ e.bytes := by
  simp [delivered]

theorem pushed_append (events : List Event) (e : Event)
    : pushed (events ++ [e]) =
        pushed events ++ if events.any Event.isClosed then [] else e.samples := by
  induction events with
  | nil => cases e <;> simp [pushed, Event.isClosed, Event.samples]
  | cons e' events ih =>
    simp only [pushed] at ih ⊢
    by_cases hclosed : e'.isClosed
    . simp [hclosed]
    . simp [hclosed, ih]

/-- The events so far and the ring belong together: the ring is open as long as nobody closed it,
and it does not count more than was pushed. -/
structure Tracks (capacitySamples : Nat) (events : List Event) (ring : PcmRing) : Prop where
  closed : ring.closed = none ↔ events.any Event.isClosed = false
  capacity : ring.capacity = (new capacitySamples).capacity
  counted :
    (delivered events).length + ring.bytes.length + 2 * ring.overruns ≤ 2 * (pushed events).length

/-- The bytes that were dropped and not counted. -/
def lost (events : List Event) (ring : PcmRing) : Nat :=
  2 * (pushed events).length -
    ((delivered events).length + ring.bytes.length + 2 * ring.overruns)

section

variable {capacitySamples : Nat} {events : List Event} {ring : PcmRing} {samples : List F32}

theorem Tracks.pushed (h : Tracks capacitySamples events ring) (samples : List F32)
    : pushed (events ++ [.pushed samples]) =
        pushed events ++ if ring.closed = none then samples else [] := by
  rw [pushed_append]
  by_cases hclosed : ring.closed = none
  . rw [if_pos hclosed, h.closed.mp hclosed]
    rfl
  . have hany := mt h.closed.mpr hclosed
    rw [Bool.not_eq_false] at hany
    rw [if_neg hclosed, if_pos hany]

/-- A push loses the odd byte of what it drops. -/
theorem Tracks.lost_push (h : Tracks capacitySamples events ring) (hclosed : ring.closed = none)
    (samples : List F32)
    : 2 * (PcmRing.pushed (events ++ [.pushed samples])).length =
      (delivered (events ++ [.pushed samples])).length + (ring.push samples).bytes.length +
        2 * (ring.push samples).overruns + (lost events ring + ring.excess samples % 2) := by
  have hpushed : Pushed ring samples (ring.push samples) := push_of_open hclosed
  have hexcess := ring.excess_le samples
  have hcounted := h.counted
  rw [h.pushed, if_pos hclosed, delivered_append, hpushed.bytes, hpushed.overruns, lost]
  simp only [Event.bytes, List.length_append, List.length_drop, List.length_nil, length_encode,
    kept, skipped, Pcm.bytesPerSample]
  omega

theorem Tracks.after (h : Tracks capacitySamples events ring) (a : Action)
    : Tracks capacitySamples (events ++ (call ring a).1) (call ring a).2 := by
  have hcounted := h.counted
  cases a with
  | push samples =>
    by_cases hclosed : ring.closed = none
    . have hpushed : Pushed ring samples (ring.push samples) := push_of_open hclosed
      refine ⟨?_, hpushed.capacity.trans h.capacity, ?_⟩
      . have hany := h.closed.mp hclosed
        simp [call, hpushed.closed, hany, Event.isClosed]
      . have hlost := h.lost_push hclosed samples
        simp only [call]
        omega
    . simp only [call, push_of_closed hclosed]
      refine ⟨?_, h.capacity, ?_⟩
      . simp [h.closed, Event.isClosed]
      . rw [h.pushed, if_neg hclosed, delivered_append]
        simpa [Event.bytes] using hcounted
  | close reason =>
    refine ⟨?_, h.capacity, ?_⟩
    . simp [call, close, Event.isClosed]
    . simpa [call, close, delivered_append, pushed_append, Event.bytes, Event.samples]
        using hcounted
  | read len =>
    have htaken := ring.read_taken len
    refine ⟨?_, htaken.capacity.trans h.capacity, ?_⟩
    . simp [call, htaken.closed, h.closed, Event.isClosed]
    . have hlength := congrArg List.length htaken.bytes
      rw [List.length_append] at hlength
      simp only [call, delivered_append, pushed_append, Event.samples, htaken.overruns, ite_self,
        List.append_nil, List.length_append]
      omega

theorem Tracks.lost_after (h : Tracks capacitySamples events ring) (a : Action)
    : lost events ring ≤ lost (events ++ (call ring a).1) (call ring a).2 ∧
      (lost (events ++ (call ring a).1) (call ring a).2 = lost events ring ↔ Fits ring a) := by
  cases a with
  | push samples =>
    by_cases hclosed : ring.closed = none
    . have hlost := h.lost_push hclosed samples
      have heven := ring.even
      have hbounded := ring.bounded
      have hfits : Fits ring (.push samples) ↔ ring.excess samples % 2 = 0 := by
        simp only [Fits, hclosed, forall_const, excess, kept, skipped, List.length_drop,
          Pcm.bytesPerSample]
        omega
      rw [hfits]
      simp only [call, lost] at hlost ⊢
      omega
    . simp [call, push_of_closed hclosed, lost, h.pushed, hclosed, delivered_append, Event.bytes,
        Fits]
  | close reason =>
    simp [call, close, lost, delivered_append, pushed_append, Event.bytes, Event.samples, Fits]
  | read len =>
    have htaken := ring.read_taken len
    have hlength := congrArg List.length htaken.bytes
    rw [List.length_append] at hlength
    simp only [call, lost, delivered_append, pushed_append, Event.samples, htaken.overruns,
      ite_self, List.append_nil, List.length_append, Fits, iff_true]
    omega

end

/-- What was delivered and what is buffered are together whole samples of those pushed. -/
def Aligned (delivered : List UInt8) (ring : PcmRing) (pushed : List F32) : Prop :=
  ∃ whole : List (BitVec 16), whole.Sublist (pushed.map Pcm.toI16) ∧
    delivered ++ ring.bytes = unpairs (whole.map Pcm.toLeBytes)

theorem Aligned.push {ring ring' : PcmRing} {samples pushed : List F32} {out : List UInt8}
    (h : Aligned out ring pushed) (hpushed : Pushed ring samples ring')
    (hfits : ring.bytes.length % 2 = 1 → ring.excess samples = 0)
    : Aligned out ring' (pushed ++ samples) := by
  rcases h with ⟨whole, hsub, hstream⟩
  have hkept : (ring.kept samples).Sublist samples := List.drop_sublist _ _
  have hlength := congrArg List.length hstream
  rw [List.length_append, length_unpairs, List.length_map] at hlength
  by_cases hzero : ring.excess samples = 0
  . refine ⟨whole ++ (ring.kept samples).map Pcm.toI16, ?_, ?_⟩
    . rw [List.map_append]
      exact hsub.append (hkept.map _)
    . rw [hpushed.bytes, hzero, List.drop_zero, ← List.append_assoc, hstream, List.map_append,
        unpairs_append]
      rfl
  . -- a whole number of samples was delivered, and a whole number of samples is dropped
    have heven := ring.even
    obtain ⟨k, hk⟩ : ∃ k, out.length = 2 * k := ⟨out.length / 2, by omega⟩
    obtain ⟨e, he⟩ : ∃ e, ring.excess samples = 2 * e := by
      refine ⟨ring.excess samples / 2, ?_⟩
      have hodd := mt hfits hzero
      rw [excess, Pcm.bytesPerSample]
      omega
    have hout : out = unpairs ((whole.take k).map Pcm.toLeBytes) := by
      rw [List.map_take, ← take_unpairs, ← hstream, ← hk, List.take_left]
    have hbytes : ring.bytes = unpairs ((whole.drop k).map Pcm.toLeBytes) := by
      rw [List.map_drop, ← drop_unpairs, ← hstream, ← hk, List.drop_left]
    refine ⟨whole.take k ++ ((whole.drop k).drop e ++ (ring.kept samples).map Pcm.toI16), ?_, ?_⟩
    . rw [List.map_append, ← List.append_assoc]
      have hdrop := (List.Sublist.refl (whole.take k)).append (List.drop_sublist e (whole.drop k))
      rw [List.take_append_drop] at hdrop
      exact (hdrop.trans hsub).append (hkept.map _)
    . rw [hpushed.bytes, he, hbytes, drop_unpairs, ← List.map_drop, List.map_append,
        unpairs_append, ← hout, List.map_append, unpairs_append]
      rfl

theorem Aligned.after {capacitySamples : Nat} {events : List Event} {ring : PcmRing} {a : Action}
    (h : Aligned (delivered events) ring (pushed events))
    (htracks : Tracks capacitySamples events ring) (hfits : Fits ring a)
    : Aligned (delivered (events ++ (call ring a).1)) (call ring a).2
        (pushed (events ++ (call ring a).1)) := by
  cases a with
  | push samples =>
    simp only [call, delivered_append, htracks.pushed, Event.bytes, List.append_nil]
    by_cases hclosed : ring.closed = none
    . rw [if_pos hclosed]
      apply h.push (push_of_open hclosed)
      intro hodd
      have hroom := hfits hodd hclosed
      rw [excess, kept, skipped, List.length_drop, Pcm.bytesPerSample]
      omega
    . rw [if_neg hclosed, push_of_closed hclosed, List.append_nil]
      exact h
  | close reason =>
    simp only [call, delivered_append, pushed_append, Event.bytes, Event.samples, ite_self,
      List.append_nil]
    exact h
  | read len =>
    simp only [call, delivered_append, pushed_append, Event.samples, ite_self, List.append_nil]
    rcases h with ⟨whole, hsub, hstream⟩
    refine ⟨whole, hsub, ?_⟩
    rw [List.append_assoc, (ring.read_taken len).bytes, hstream]

theorem Aligned.sublist {ring : PcmRing} {pushed : List F32} {out : List UInt8}
    (h : Aligned out ring pushed)
    : ((pairs out).map Pcm.fromLeBytes).Sublist (pushed.map Pcm.toI16) := by
  rcases h with ⟨whole, hsub, hstream⟩
  have hprefix : pairs out <+: whole.map Pcm.toLeBytes :=
    pairs_isPrefix ⟨ring.bytes, hstream⟩
  have hback : (whole.map Pcm.toLeBytes).map Pcm.fromLeBytes = whole := by
    rw [List.map_map]
    exact List.map_id'' fromLeBytes_toLeBytes whole
  have hmap := hprefix.map Pcm.fromLeBytes
  rw [hback] at hmap
  exact hmap.sublist.trans hsub

/-- A run keeps its samples whole, and counts all that it loses, exactly when no push has to make
room while a sample is half read. -/
theorem whole_iff (capacitySamples : Nat) (actions : List Action)
    : Whole capacitySamples (call.run (new capacitySamples) actions).1
        (call.run (new capacitySamples) actions).2 ↔
      call.Throughout Fits (new capacitySamples) actions := by
  have hstart : Tracks capacitySamples [] (new capacitySamples) :=
    ⟨iff_of_true rfl rfl, rfl, Nat.le_refl 0⟩
  have htracks := Transducer.run_invariant (fun a h => h.after a) hstart actions
  have hlost := Transducer.run_raised_iff (I := Tracks capacitySamples) (f := lost)
    (fun a h => h.after a) (fun a h => h.lost_after a) hstart actions
  have hzero : lost [] (new capacitySamples) = 0 := rfl
  have hcounted := htracks.counted
  rw [List.nil_append] at htracks hlost hcounted
  rw [hzero] at hlost
  constructor
  . intro hwhole
    rw [← hlost.2, lost, hwhole.conserved, Nat.sub_self]
  . intro hfit
    have haligned := Transducer.Throughout.invariant
      (I := fun events ring =>
        Aligned (delivered events) ring (pushed events) ∧ Tracks capacitySamples events ring)
      (fun h hfits => ⟨h.1.after h.2 hfits, h.2.after _⟩)
      ⟨⟨[], List.Sublist.refl _, rfl⟩, hstart⟩ hfit
    rw [List.nil_append] at haligned
    constructor
    . exact haligned.1.sublist
    . have hnone := hlost.2.mpr hfit
      rw [lost] at hnone
      omega
    . have hbounded := (call.run (new capacitySamples) actions).2.bounded
      have hcapacity : (new capacitySamples).capacity = max capacitySamples 1 * 2 % 2 ^ 64 := rfl
      have hmod := Nat.mod_le (max capacitySamples 1 * 2) (2 ^ 64)
      rw [htracks.capacity, hcapacity] at hbounded
      omega
    . intro reason hclosed hbytes len hlen
      rw [read, if_neg hlen, if_pos (List.isEmpty_iff.mpr hbytes), hclosed]
    . intro len hlen
      by_cases hbytes : (call.run (new capacitySamples) actions).2.bytes = []
      . rw [read, if_neg hlen, if_pos (List.isEmpty_iff.mpr hbytes)]
        split <;> simp
      . rw [read, if_neg hlen, if_neg (List.isEmpty_iff.not.mpr hbytes)]
        have hpos := List.length_pos_of_ne_nil hbytes
        simp [hbytes]
        omega

/-- A ring of two samples. A sample is half read when the third one comes: its second byte is
dropped and not counted, and what is read from then on is put together from two samples each. -/
theorem whole_half_read
    : let actions : List Action :=
        [.push [⟨0x3F800000⟩, ⟨0x3F000000⟩], .read 1, .push [⟨0x3E800000⟩], .read 4]
      let res := call.run (new 2) actions
      (pushed res.1).map Pcm.toI16 = [0x7FFF#16, 0x4000#16, 0x2000#16] ∧
        (pairs (delivered res.1)).map Pcm.fromLeBytes = [0x00FF#16, 0x0040#16] ∧
        res.2.overruns = 0 ∧ ¬ Whole 2 res.1 res.2 := by
  intro actions res
  refine ⟨by decide +kernel, by decide +kernel, by decide +kernel, ?_⟩
  intro hwhole
  exact absurd hwhole.conserved (by decide +kernel)

end PcmRing

end Signal
