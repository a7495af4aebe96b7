import Mathlib.Algebra.Ring.Nat
import RadioCat.Trace.Splitter

/-!
This module contains the frames of the native protocol: a byte for the kind, the length of the
payload in four bytes, most significant first, and the payload.
-/

namespace Native

open Trace

inductive FrameKind where
  | control
  | spectrum
  | audio
  deriving DecidableEq, Repr

def FrameKind.fromU8 : UInt8 → Option FrameKind
  | 1 => some .control
  | 2 => some .spectrum
  | 3 => some .audio
  | _ => none

inductive FrameError where
  | incomplete
  | unknownKind (kind : UInt8)
  | tooLarge (len : Nat)
  deriving DecidableEq, Repr

def maxControlBytes : Nat := 2 ^ 20

def fromBeBytes (a b c d : UInt8) : Nat :=
  ((a.toNat * 256 + b.toNat) * 256 + c.toNat) * 256 + d.toNat

def decodeFrame : List UInt8 → Except FrameError (FrameKind × List UInt8 × Nat)
  | k :: a :: b :: c :: d :: rest =>
    match FrameKind.fromU8 k with
    | none => .error (.unknownKind k)
    | some kind =>
      let len := fromBeBytes a b c d
      if kind = .control ∧ len > maxControlBytes then
        .error (.tooLarge len)
      else if rest.length < len then
        .error .incomplete
      else
        .ok (kind, rest.take len, 5 + len)
  | _ => .error .incomplete

/-- A frame as its length field cuts it out of the stream, whatever its kind and its length. -/
structure RawFrame where
  kind : UInt8
  payload : List UInt8
  deriving DecidableEq, Repr

def RawFrame.next : List UInt8 → Option (RawFrame × List UInt8)
  | k :: a :: b :: c :: d :: rest =>
    let len := fromBeBytes a b c d
    if rest.length < len then
      none
    else
      some ({ kind := k, payload := rest.take len }, rest.drop len)
  | _ => none

theorem RawFrame.next_eq_some_iff {buf rest : List UInt8} {frame : RawFrame}
    : RawFrame.next buf = some (frame, rest) ↔
      ∃ a b c d, fromBeBytes a b c d = frame.payload.length
        ∧ buf = frame.kind :: a :: b :: c :: d :: (frame.payload ++ rest) := by
  constructor
  . fun_cases RawFrame.next buf
    case case2 k a b c d tail len hlen =>
      intro h
      cases h
      refine ⟨a, b, c, d, ?_, ?_⟩
      . rw [List.length_take]
        omega
      . rw [List.take_append_drop]
    all_goals simp
  . rintro ⟨a, b, c, d, hlen, rfl⟩
    simp [RawFrame.next, hlen]

def framing : Splitter UInt8 RawFrame where
  next := RawFrame.next
  shorter := by
    intro buf frame rest h
    rcases RawFrame.next_eq_some_iff.mp h with ⟨a, b, c, d, _, rfl⟩
    simp only [List.length_cons, List.length_append]
    omega
  extend := by
    intro buf frame rest more h
    rcases RawFrame.next_eq_some_iff.mp h with ⟨a, b, c, d, hlen, rfl⟩
    apply RawFrame.next_eq_some_iff.mpr
    exact ⟨a, b, c, d, hlen, by simp⟩

theorem framing_next : framing.next = RawFrame.next := by
  rfl

section

variable {k a b c d : UInt8} {rest : List UInt8}

theorem drop_header (n : Nat) : (k :: a :: b :: c :: d :: rest).drop (5 + n) = rest.drop n := by
  rw [Nat.add_comm]
  rfl

theorem framing_part (h : rest.length < fromBeBytes a b c d)
    : framing.next (k :: a :: b :: c :: d :: rest) = none := by
  simp [framing, RawFrame.next, h]

theorem framing_whole (h : ¬ rest.length < fromBeBytes a b c d)
    : framing.next (k :: a :: b :: c :: d :: rest)
      = some ({ kind := k, payload := rest.take (fromBeBytes a b c d) },
        rest.drop (fromBeBytes a b c d)) := by
  simp [framing, RawFrame.next, h]

theorem framing_frame (payload : List UInt8) (h : fromBeBytes a b c d = payload.length)
    : framing.next (k :: a :: b :: c :: d :: (payload ++ rest))
      = some ({ kind := k, payload }, rest) := by
  rw [framing_next, RawFrame.next_eq_some_iff]
  exact ⟨a, b, c, d, h, rfl⟩

theorem length_take_whole (h : ¬ rest.length < fromBeBytes a b c d)
    : (rest.take (fromBeBytes a b c d)).length = fromBeBytes a b c d := by
  rw [List.length_take]
  omega

end

/-- What `decode_frame` makes of a frame that is there as a whole. -/
def RawFrame.accepted (frame : RawFrame) : Option (FrameKind × List UInt8) :=
  match FrameKind.fromU8 frame.kind with
  | some kind =>
    if kind = .control ∧ frame.payload.length > maxControlBytes then
      none
    else
      some (kind, frame.payload)
  | none => none

def nextFrame (buf : List UInt8) : Option ((FrameKind × List UInt8) × List UInt8) :=
  match decodeFrame buf with
  | .ok (kind, payload, used) => some ((kind, payload), buf.drop used)
  | .error _ => none

theorem nextFrame_eq (buf : List UInt8)
    : nextFrame buf = (framing.upTo RawFrame.accepted).next buf := by
  unfold nextFrame
  fun_cases decodeFrame buf
  case case1 k a b c d rest hkind =>
    by_cases hlen : rest.length < fromBeBytes a b c d
    . rw [Splitter.upTo_next_none _ _ (framing_part hlen)]
    . rw [Splitter.upTo_next_refused _ _ (framing_whole hlen)]
      simp [RawFrame.accepted, hkind]
  case case2 k a b c d rest kind hkind len hlarge =>
    by_cases hlen : rest.length < fromBeBytes a b c d
    . rw [Splitter.upTo_next_none _ _ (framing_part hlen)]
    . rw [Splitter.upTo_next_refused _ _ (framing_whole hlen)]
      simp only [RawFrame.accepted, hkind, length_take_whole hlen]
      exact if_pos hlarge
  case case3 hlen =>
    rw [Splitter.upTo_next_none _ _ (framing_part hlen)]
  case case4 k a b c d rest kind hkind len hlarge hlen =>
    simp only [drop_header]
    apply Eq.symm
    apply Splitter.upTo_next_some _ _ (framing_whole hlen)
    simp only [RawFrame.accepted, hkind, length_take_whole hlen]
    exact if_neg hlarge
  case case5 hshort =>
    rw [Splitter.upTo_next_none]
    simp [framing, RawFrame.next]

/-- The frames that the loops over `decode_frame` take off a stream. -/
def frames : Splitter UInt8 (FrameKind × List UInt8) where
  next := nextFrame
  shorter := by
    intro buf frame rest h
    rw [nextFrame_eq] at h
    exact (framing.upTo RawFrame.accepted).shorter h
  extend := by
    intro buf frame rest more h
    rw [nextFrame_eq] at h ⊢
    exact (framing.upTo RawFrame.accepted).extend more h

theorem frames_eq : frames = framing.upTo RawFrame.accepted := by
  apply Splitter.ext
  funext buf
  exact nextFrame_eq buf

end Native
