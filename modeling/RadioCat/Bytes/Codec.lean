import Mathlib.Algebra.Ring.Nat
import Mathlib.Data.List.Induction

/-!
This module contains codecs: encodings that can be taken off the front of a buffer again. A codec
carries both directions of its inversion as fields, so that one that is put together from smaller
ones has them too.
-/

namespace Bytes

/-- `Valid` says which values the encoding has room for. -/
structure Codec (β α : Type) where
  Valid : α → Prop
  encode : α → List β
  decode : List β → Option (α × List β)
  decode_encode : ∀ {a : α} (rest : List β), Valid a → decode (encode a ++ rest) = some (a, rest)
  encode_decode : ∀ {buf rest : List β} {a : α},
    decode buf = some (a, rest) → Valid a ∧ buf = encode a ++ rest

namespace Codec

variable {β α γ : Type}

theorem decode_eq_some_iff (c : Codec β α) {buf rest : List β} {a : α}
    : c.decode buf = some (a, rest) ↔ c.Valid a ∧ buf = c.encode a ++ rest := by
  constructor
  . apply c.encode_decode
  . rintro ⟨hvalid, rfl⟩
    apply c.decode_encode rest hvalid

/-- No part of an encoding is one, so that a decoder waits for the rest of it. -/
theorem decode_part (c : Codec β α) {a : α} {part missing : List β} (hvalid : c.Valid a)
    (h : c.encode a = part ++ missing) (hmissing : missing ≠ []) : c.decode part = none := by
  cases hpart : c.decode part with
  | none => rfl
  | some got =>
    rcases got with ⟨b, rest⟩
    rcases c.encode_decode hpart with ⟨hb, hbuf⟩
    have hwhole := c.decode_encode [] hvalid
    rw [List.append_nil, h, hbuf, List.append_assoc, c.decode_encode _ hb] at hwhole
    rw [Option.some.injEq, Prod.mk.injEq, List.append_eq_nil_iff] at hwhole
    exact absurd hwhole.2.2 hmissing

theorem decode_eq_none (c : Codec β α) {buf : List β}
    (h : ∀ a, c.Valid a → buf.length < (c.encode a).length) : c.decode buf = none := by
  cases hbuf : c.decode buf with
  | none => rfl
  | some got =>
    rcases got with ⟨a, rest⟩
    rcases c.encode_decode hbuf with ⟨ha, rfl⟩
    have hshort := h a ha
    rw [List.length_append] at hshort
    omega

/-- One value after the other, where the first says how to read the second. -/
def andThen (c : Codec β α) (d : α → Codec β γ) : Codec β (α × γ) where
  Valid x := c.Valid x.1 ∧ (d x.1).Valid x.2
  encode x := c.encode x.1 ++ (d x.1).encode x.2
  decode buf :=
    (c.decode buf).bind fun x => ((d x.1).decode x.2).map fun y => ((x.1, y.1), y.2)
  decode_encode rest h := by
    rw [List.append_assoc, c.decode_encode _ h.1, Option.bind_some, (d _).decode_encode _ h.2,
      Option.map_some]
  encode_decode h := by
    simp only [Option.bind_eq_some_iff, Option.map_eq_some_iff, Prod.mk.injEq] at h
    rcases h with ⟨⟨a, tail⟩, hfirst, ⟨b, rest⟩, hsecond, rfl, rfl⟩
    rcases c.encode_decode hfirst with ⟨ha, rfl⟩
    rcases (d a).encode_decode hsecond with ⟨hb, rfl⟩
    rw [List.append_assoc]
    exact ⟨⟨ha, hb⟩, rfl⟩

theorem andThen_decode (c : Codec β α) (d : α → Codec β γ) (buf : List β)
    : (c.andThen d).decode buf
      = (c.decode buf).bind fun x => ((d x.1).decode x.2).map fun y => ((x.1, y.1), y.2) := by
  rfl

/-- The same encoding for another presentation of the values. -/
def map (c : Codec β α) (out : α → γ) (into : γ → α) (h : ∀ a, c.Valid a → into (out a) = a)
    : Codec β γ where
  Valid x := c.Valid (into x) ∧ out (into x) = x
  encode x := c.encode (into x)
  decode buf := (c.decode buf).map fun x => (out x.1, x.2)
  decode_encode rest hvalid := by
    rw [c.decode_encode rest hvalid.1, Option.map_some, hvalid.2]
  encode_decode hdecode := by
    simp only [Option.map_eq_some_iff, Prod.mk.injEq] at hdecode
    rcases hdecode with ⟨⟨a, rest⟩, hfirst, rfl, rfl⟩
    rcases c.encode_decode hfirst with ⟨ha, rfl⟩
    rw [h a ha]
    exact ⟨⟨ha, rfl⟩, rfl⟩

theorem map_decode (c : Codec β α) (out : α → γ) (into : γ → α)
    (h : ∀ a, c.Valid a → into (out a) = a) (buf : List β)
    : (c.map out into h).decode buf = (c.decode buf).map fun x => (out x.1, x.2) := by
  rfl

/-- As many values as the reader is told to expect. -/
def take (c : Codec β α) : Nat → List β → Option (List α × List β)
  | 0, buf => some ([], buf)
  | n + 1, buf => (c.decode buf).bind fun x => (c.take n x.2).map fun y => (x.1 :: y.1, y.2)

theorem take_flatMap (c : Codec β α) {as : List α} (h : ∀ a ∈ as, c.Valid a) (rest : List β)
    : c.take as.length (as.flatMap c.encode ++ rest) = some (as, rest) := by
  induction as with
  | nil => rfl
  | cons a as ih =>
    rw [List.forall_mem_cons] at h
    rw [List.flatMap_cons, List.append_assoc, List.length_cons, take, c.decode_encode _ h.1,
      Option.bind_some, ih h.2, Option.map_some]

theorem of_take (c : Codec β α) {n : Nat} {buf rest : List β} {as : List α}
    (h : c.take n buf = some (as, rest))
    : (as.length = n ∧ ∀ a ∈ as, c.Valid a) ∧ buf = as.flatMap c.encode ++ rest := by
  induction n generalizing buf as with
  | zero =>
    cases h
    simp
  | succ n ih =>
    simp only [take, Option.bind_eq_some_iff, Option.map_eq_some_iff, Prod.mk.injEq] at h
    rcases h with ⟨⟨a, tail⟩, hfirst, ⟨as, rest⟩, hmore, rfl, rfl⟩
    rcases c.encode_decode hfirst with ⟨ha, rfl⟩
    rcases ih hmore with ⟨⟨hlen, has⟩, rfl⟩
    rw [List.length_cons, hlen, List.forall_mem_cons, List.flatMap_cons, List.append_assoc]
    exact ⟨⟨rfl, ha, has⟩, rfl⟩

def exactly (c : Codec β α) (n : Nat) : Codec β (List α) where
  Valid as := as.length = n ∧ ∀ a ∈ as, c.Valid a
  encode as := as.flatMap c.encode
  decode := c.take n
  decode_encode rest h := by
    rw [← h.1, take_flatMap c h.2]
  encode_decode h := c.of_take h

theorem exactly_decode (c : Codec β α) (n : Nat) (buf : List β)
    : (c.exactly (n + 1)).decode buf
      = (c.decode buf).bind fun x => ((c.exactly n).decode x.2).map fun y => (x.1 :: y.1, y.2) := by
  rfl

end Codec

/-- The number that the bytes write down, the most significant one first. -/
def beValue (bytes : List UInt8) : Nat :=
  bytes.foldl (fun value byte => value * 256 + byte.toNat) 0

/-- The last `n` bytes of a number, the most significant one first. -/
def toBe : Nat → Nat → List UInt8
  | 0, _ => []
  | n + 1, value => toBe n (value / 256) ++ [UInt8.ofNat value]

@[simp]
theorem length_toBe (n value : Nat) : (toBe n value).length = n := by
  induction n generalizing value with
  | zero => rfl
  | succ n ih => rw [toBe, List.length_append, ih, List.length_singleton]

theorem beValue_append (bytes : List UInt8) (byte : UInt8)
    : beValue (bytes ++ [byte]) = beValue bytes * 256 + byte.toNat := by
  rw [beValue, List.foldl_append]
  rfl

theorem beValue_toBe {n value : Nat} (h : value < 256 ^ n) : beValue (toBe n value) = value := by
  induction n generalizing value with
  | zero =>
    rw [Nat.pow_zero, Nat.lt_one_iff] at h
    rw [h]
    rfl
  | succ n ih =>
    rw [Nat.pow_succ, ← Nat.div_lt_iff_lt_mul (by decide)] at h
    rw [toBe, beValue_append, ih h, UInt8.toNat_ofNat']
    omega

theorem toBe_beValue (bytes : List UInt8) : toBe bytes.length (beValue bytes) = bytes := by
  induction bytes using List.reverseRecOn with
  | nil => rfl
  | append_singleton bytes byte ih =>
    have hbyte := byte.toNat_lt
    have hdiv : (beValue bytes * 256 + byte.toNat) / 256 = beValue bytes := by
      omega
    have hlast : UInt8.ofNat (beValue bytes * 256 + byte.toNat) = byte := by
      rw [← UInt8.toNat_inj, UInt8.toNat_ofNat']
      omega
    rw [List.length_append, List.length_singleton, toBe, beValue_append, hdiv, ih, hlast]

theorem beValue_lt (bytes : List UInt8) : beValue bytes < 256 ^ bytes.length := by
  induction bytes using List.reverseRecOn with
  | nil => decide
  | append_singleton bytes byte ih =>
    have hbyte := byte.toNat_lt
    rw [List.length_append, List.length_singleton, Nat.pow_succ, beValue_append]
    omega

/-- A number as `n` bytes. -/
def word (n : Nat) : Codec UInt8 Nat where
  Valid value := value < 256 ^ n
  encode := toBe n
  decode buf := if n ≤ buf.length then some (beValue (buf.take n), buf.drop n) else none
  decode_encode rest h := by
    rw [if_pos (by simp), List.take_left' (length_toBe n _), List.drop_left' (length_toBe n _),
      beValue_toBe h]
  encode_decode {buf rest value} h := by
    split at h
    next hlen =>
      cases h
      have htake : (buf.take n).length = n := by
        rw [List.length_take]
        omega
      have hback := toBe_beValue (buf.take n)
      have hlt := beValue_lt (buf.take n)
      rw [htake] at hback hlt
      rw [hback, List.take_append_drop]
      exact ⟨hlt, rfl⟩
    next => cases h

/-- The bytes from one place in a buffer up to another. -/
def slice (buf : List UInt8) (start stop : Nat) : List UInt8 :=
  (buf.drop start).take (stop - start)

theorem word_decode_drop {n start : Nat} {buf : List UInt8} (h : start + n ≤ buf.length)
    : (word n).decode (buf.drop start)
      = some (beValue (slice buf start (start + n)), buf.drop (start + n)) := by
  rw [slice, Nat.add_sub_cancel_left, ← List.drop_drop]
  apply if_pos
  rw [List.length_drop]
  omega

end Bytes
