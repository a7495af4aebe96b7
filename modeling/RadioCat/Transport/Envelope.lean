import Mathlib.Algebra.Ring.Nat
import Mathlib.Data.List.Basic

/-!
This module contains the envelopes of the UDP transport: the session and the number of the request
in eight bytes each, most significant first, and the payload as it is.
-/

namespace Datagram

def maxPayloadSize : Nat := 1024

def toBeBytes (x : UInt64) : List UInt8 :=
  [56, 48, 40, 32, 24, 16, 8, 0].map fun shift => UInt8.ofNat (x.toNat / 2 ^ shift)

def fromBeBytes (bytes : List UInt8) : UInt64 :=
  UInt64.ofNat (bytes.foldl (fun n byte => n * 256 + byte.toNat) 0)

theorem length_toBeBytes (x : UInt64) : (toBeBytes x).length = 8 := by
  rfl

theorem shift_add_byte (n s : Nat) : n / 2 ^ (s + 8) * 256 + n / 2 ^ s % 256 = n / 2 ^ s := by
  rw [Nat.pow_add, ← Nat.div_div_eq_div_mul]
  omega

theorem fromBeBytes_toBeBytes (x : UInt64) : fromBeBytes (toBeBytes x) = x := by
  have hx := x.toNat_lt
  have htop : 0 * 256 + x.toNat / 2 ^ 56 % 2 ^ 8 = x.toNat / 2 ^ (48 + 8) := by omega
  have hvalue : (toBeBytes x).foldl (fun n byte => n * 256 + byte.toNat) 0 = x.toNat := by
    simp only [toBeBytes, List.map_cons, List.map_nil, List.foldl_cons, List.foldl_nil,
      UInt8.toNat_ofNat', htop]
    rw [shift_add_byte _ 48, shift_add_byte _ 40, shift_add_byte _ 32, shift_add_byte _ 24,
      shift_add_byte _ 16, shift_add_byte _ 8, shift_add_byte _ 0, Nat.pow_zero, Nat.div_one]
  rw [fromBeBytes, hvalue, UInt64.ofNat_toNat]

def encodeEnvelope (sessionId requestId : UInt64) (payload : List UInt8) : Option (List UInt8) :=
  if payload.length > maxPayloadSize then
    none
  else
    some (toBeBytes sessionId ++ toBeBytes requestId ++ payload)

def decodeEnvelope (datagram : List UInt8) : Option (UInt64 × UInt64 × List UInt8) :=
  if datagram.length < 16 then
    none
  else
    some (fromBeBytes (datagram.take 8), fromBeBytes ((datagram.drop 8).take 8), datagram.drop 16)

theorem decodeEnvelope_encodeEnvelope {sessionId requestId : UInt64}
    {payload datagram : List UInt8}
    (h : encodeEnvelope sessionId requestId payload = some datagram)
    : decodeEnvelope datagram = some (sessionId, requestId, payload) := by
  unfold encodeEnvelope at h
  split at h
  next => cases h
  next =>
    cases h
    have hsession := length_toBeBytes sessionId
    have hrequest := length_toBeBytes requestId
    have hlength : ¬ (toBeBytes sessionId ++ toBeBytes requestId ++ payload).length < 16 := by
      rw [List.length_append, List.length_append]
      omega
    rw [decodeEnvelope, if_neg hlength, List.append_assoc]
    have htake : (toBeBytes sessionId ++ (toBeBytes requestId ++ payload)).take 8
        = toBeBytes sessionId := List.take_left' hsession
    have hdrop : (toBeBytes sessionId ++ (toBeBytes requestId ++ payload)).drop 8
        = toBeBytes requestId ++ payload := List.drop_left' hsession
    have hdrop' : (toBeBytes sessionId ++ (toBeBytes requestId ++ payload)).drop 16
        = payload := by
      rw [← List.append_assoc]
      apply List.drop_left'
      rw [List.length_append]
      omega
    rw [htake, hdrop, hdrop', List.take_left' hrequest, fromBeBytes_toBeBytes,
      fromBeBytes_toBeBytes]

end Datagram
