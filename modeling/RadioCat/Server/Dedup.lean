import Mathlib.Data.List.AList
import Mathlib.Data.List.DropRight

/-!
This module contains the cache of the answers that a UDP server has given: first in, first out, with
room for so many keys.
-/

namespace Server

universe u v

variable {κ : Type u} {ν : Type v} [DecidableEq κ]

def dedupCacheCapacity : Nat := 256

/--
`order` names the keys that have an answer, oldest first.
-/
structure DedupCache (κ : Type u) (ν : Type v) [DecidableEq κ] where
  order : List κ := []
  responses : AList (fun _ : κ => ν) := ∅
  nodup : order.Nodup := by exact List.nodup_nil
  keys : ∀ key, key ∈ order ↔ key ∈ responses := by simp
  bounded : order.length ≤ dedupCacheCapacity := by exact Nat.zero_le _

namespace DedupCache

def get (cache : DedupCache κ ν) (key : κ) : Option ν :=
  cache.responses.lookup key

def popFront (cache : DedupCache κ ν) : DedupCache κ ν :=
  match h : cache.order with
  | [] => cache
  | oldest :: order =>
    { order
      responses := cache.responses.erase oldest
      nodup := by
        have hnodup := cache.nodup
        rw [h] at hnodup
        exact hnodup.of_cons
      keys := by
        intro key
        have hnodup := cache.nodup
        have hkeys := cache.keys key
        rw [h] at hnodup hkeys
        rw [AList.mem_erase, ← hkeys, List.mem_cons]
        grind
      bounded := by
        have hbounded := cache.bounded
        rw [h, List.length_cons] at hbounded
        omega }

def makeRoom (cache : DedupCache κ ν) : DedupCache κ ν :=
  if cache.order.length ≥ dedupCacheCapacity then cache.popFront else cache

theorem order_popFront (cache : DedupCache κ ν) : cache.popFront.order = cache.order.tail := by
  unfold popFront
  split
  next h => simp [h]
  next h => simp [h]

theorem length_makeRoom (cache : DedupCache κ ν)
    : cache.makeRoom.order.length < dedupCacheCapacity := by
  have hbounded := cache.bounded
  have hpos : 0 < dedupCacheCapacity := by decide
  unfold makeRoom
  split
  . rw [order_popFront, List.length_tail]
    omega
  . omega

theorem mem_order_of_makeRoom {cache : DedupCache κ ν} {key : κ} (h : key ∈ cache.makeRoom.order)
    : key ∈ cache.order := by
  unfold makeRoom at h
  split at h
  . rw [order_popFront] at h
    exact List.mem_of_mem_tail h
  . exact h

def insert (cache : DedupCache κ ν) (key : κ) (response : ν) : DedupCache κ ν :=
  if h : key ∈ cache.responses then
    { cache with
      responses := cache.responses.insert key response
      keys := by
        intro key'
        rw [AList.mem_insert, cache.keys]
        grind }
  else
    { order := cache.makeRoom.order ++ [key]
      responses := cache.makeRoom.responses.insert key response
      nodup := by
        have hnew : key ∉ cache.makeRoom.order := by
          intro hmem
          exact h ((cache.keys key).mp (mem_order_of_makeRoom hmem))
        rw [← List.concat_eq_append]
        apply List.Nodup.concat hnew cache.makeRoom.nodup
      keys := by
        intro key'
        rw [AList.mem_insert, List.mem_append, List.mem_singleton, cache.makeRoom.keys, or_comm]
      bounded := by
        have hlength := length_makeRoom cache
        rw [List.length_append, List.length_singleton]
        omega }

/-- The key is in the cache, with at most `n` keys that are younger. -/
def Keeps (cache : DedupCache κ ν) (key : κ) (n : Nat) : Prop :=
  ∃ older newer, cache.order = older ++ key :: newer ∧ newer.length ≤ n

variable {cache : DedupCache κ ν} {key key' : κ} {response : ν} {n : Nat}

theorem Keeps.get_isSome (h : cache.Keeps key n) : (cache.get key).isSome := by
  rcases h with ⟨older, newer, horder, _⟩
  apply AList.lookup_isSome.mpr
  rw [← cache.keys, horder]
  simp

theorem order_insert_old (h : key ∈ cache.responses)
    : (cache.insert key response).order = cache.order := by
  simp [insert, h]

theorem order_insert_new (h : key ∉ cache.responses)
    : (cache.insert key response).order = cache.makeRoom.order ++ [key] := by
  simp [insert, h]

theorem keeps_insert (h : key ∉ cache.responses) : (cache.insert key response).Keeps key 0 := by
  exact ⟨cache.makeRoom.order, [], order_insert_new h, Nat.le_refl 0⟩

theorem Keeps.makeRoom (h : cache.Keeps key n) (hn : n + 1 < dedupCacheCapacity)
    : cache.makeRoom.Keeps key n := by
  unfold DedupCache.makeRoom
  split
  next hfull =>
    rcases h with ⟨older, newer, horder, hnewer⟩
    cases older with
    | nil =>
      rw [horder, List.nil_append, List.length_cons] at hfull
      omega
    | cons oldest older =>
      refine ⟨older, newer, ?_, hnewer⟩
      rw [order_popFront, horder]
      rfl
  next => exact h

theorem Keeps.insert (h : cache.Keeps key n) (hn : n + 1 < dedupCacheCapacity) (key' : κ)
    (response : ν)
    : (cache.insert key' response).Keeps key (n + 1) := by
  by_cases hmem : key' ∈ cache.responses
  . rcases h with ⟨older, newer, horder, hnewer⟩
    refine ⟨older, newer, ?_, by omega⟩
    rw [order_insert_old hmem, horder]
  . rcases h.makeRoom hn with ⟨older, newer, horder, hnewer⟩
    refine ⟨older, newer ++ [key'], ?_, ?_⟩
    . rw [order_insert_new hmem, horder, List.append_assoc, List.cons_append]
    . rw [List.length_append, List.length_singleton]
      omega

theorem get_insert (cache : DedupCache κ ν) (key : κ) (response : ν)
    : (cache.insert key response).get key = some response := by
  unfold insert get
  split
  . exact AList.lookup_insert _
  . exact AList.lookup_insert _

theorem get_of_popFront {r : ν} (h : cache.popFront.get key = some r)
    : cache.get key = some r := by
  unfold popFront at h
  split at h
  . exact h
  next oldest _ _ =>
    by_cases heq : key = oldest
    . rw [heq, DedupCache.get, AList.lookup_erase] at h
      cases h
    . rwa [DedupCache.get, AList.lookup_erase_ne heq] at h

theorem get_of_makeRoom {r : ν} (h : cache.makeRoom.get key = some r)
    : cache.get key = some r := by
  unfold makeRoom at h
  split at h
  . exact get_of_popFront h
  . exact h

theorem get_of_insert {r : ν} (h : (cache.insert key response).get key' = some r)
    : key' = key ∧ r = response ∨ cache.get key' = some r := by
  by_cases heq : key' = key
  . rw [heq, get_insert] at h
    exact Or.inl ⟨heq, (Option.some.inj h).symm⟩
  . apply Or.inr
    unfold insert get at h
    split at h
    . rwa [AList.lookup_insert_ne heq] at h
    . rw [AList.lookup_insert_ne heq] at h
      exact get_of_makeRoom h

theorem order_makeRoom (cache : DedupCache κ ν)
    : cache.makeRoom.order = cache.order.drop (cache.order.length + 1 - dedupCacheCapacity) := by
  have hbounded := cache.bounded
  unfold makeRoom
  split
  next hfull =>
    have hone : cache.order.length + 1 - dedupCacheCapacity = 1 := by omega
    rw [order_popFront, hone, List.drop_one]
  next hroom =>
    have hzero : cache.order.length + 1 - dedupCacheCapacity = 0 := by omega
    rw [hzero, List.drop_zero]

def fill (key : Nat → κ) (response : ν) : Nat → DedupCache κ ν
  | 0 => {}
  | n + 1 => (fill key response n).insert (key n) response

theorem order_fill {key : Nat → κ} (hkey : Function.Injective key) (response : ν) (n : Nat)
    : (fill key response n).order = ((List.range n).drop (n - dedupCacheCapacity)).map key := by
  induction n with
  | zero => rfl
  | succ n ih =>
    have hnew : key n ∉ (fill key response n).responses := by
      rw [← (fill key response n).keys, ih]
      intro hmem
      rcases List.mem_map.mp hmem with ⟨i, hi, heq⟩
      have hlt := List.mem_range.mp (List.mem_of_mem_drop hi)
      rw [hkey heq] at hlt
      omega
    have hlength : (fill key response n).order.length = n - (n - dedupCacheCapacity) := by
      rw [ih, List.length_map, List.length_drop, List.length_range]
    have hdrop : n - dedupCacheCapacity + (n - (n - dedupCacheCapacity) + 1 - dedupCacheCapacity)
        = n + 1 - dedupCacheCapacity := by
      omega
    have hpos : 0 < dedupCacheCapacity := by decide
    rw [fill, order_insert_new hnew, order_makeRoom, hlength, ih, ← List.map_drop, List.drop_drop,
      hdrop, List.range_succ, List.drop_append_of_le_length, List.map_append]
    . rfl
    . rw [List.length_range]
      omega

def inserts (calls : List (κ × ν)) : DedupCache κ ν :=
  calls.foldl (fun cache call => cache.insert call.1 call.2) {}

/-- The keys a sequence of inserts admits, oldest first. A key that is among the last so many is
present and keeps its age. -/
def admitted (calls : List (κ × ν)) : List κ :=
  calls.foldl next []
where
  next (keys : List κ) (call : κ × ν) : List κ :=
    if call.1 ∈ keys.rtake dedupCacheCapacity then keys else keys ++ [call.1]

/-- The response inserted last for a key. -/
def latest (calls : List (κ × ν)) (key : κ) : Option ν :=
  (calls.reverse.find? (·.1 = key)).map Prod.snd

theorem inserts_append (calls : List (κ × ν)) (call : κ × ν)
    : inserts (calls ++ [call]) = (inserts calls).insert call.1 call.2 := by
  apply List.foldl_concat

theorem admitted_append (calls : List (κ × ν)) (call : κ × ν)
    : admitted (calls ++ [call]) = admitted.next (admitted calls) call := by
  apply List.foldl_concat

theorem latest_append (calls : List (κ × ν)) (key key' : κ) (response : ν)
    : latest (calls ++ [(key, response)]) key'
      = if key = key' then some response else latest calls key' := by
  simp only [latest, List.reverse_append, List.reverse_singleton, List.singleton_append,
    List.find?_cons]
  by_cases heq : key = key'
  . simp [heq]
  . simp [heq]

omit [DecidableEq κ] in
theorem rtake_append_singleton (keys : List κ) (key : κ) {n : Nat} (hn : 0 < n)
    : (keys ++ [key]).rtake n
      = (keys.rtake n).drop ((keys.rtake n).length + 1 - n) ++ [key] := by
  have hle : keys.length + 1 - n ≤ keys.length := by omega
  have hsum : keys.length - n + ((keys.length - (keys.length - n)) + 1 - n)
      = keys.length + 1 - n := by
    omega
  rw [List.rtake, List.length_append, List.length_singleton, List.drop_append_of_le_length hle,
    List.rtake, List.length_drop, List.drop_drop, hsum]

theorem get_makeRoom (h : key ∈ cache.makeRoom.order) : cache.makeRoom.get key = cache.get key := by
  rw [cache.makeRoom.keys] at h
  rcases Option.isSome_iff_exists.mp (AList.lookup_isSome.mpr h) with ⟨r, hr⟩
  have hroom : cache.makeRoom.get key = some r := hr
  rw [hroom, get_of_makeRoom hroom]

theorem get_insert_ne (hne : key' ≠ key) (h : key' ∈ (cache.insert key response).order)
    : (cache.insert key response).get key' = cache.get key' := by
  by_cases hmem : key ∈ cache.responses
  . simp only [insert, hmem, dif_pos, get]
    exact AList.lookup_insert_ne hne
  . rw [order_insert_new hmem, List.mem_append, List.mem_singleton] at h
    rw [← get_makeRoom (h.resolve_right hne)]
    simp only [insert, hmem, dif_neg, not_false_eq_true, get]
    exact AList.lookup_insert_ne hne

/-- The cache holds the keys admitted last, each with the response inserted last for it. -/
structure Follows (cache : DedupCache κ ν) (calls : List (κ × ν)) : Prop where
  order : cache.order = (admitted calls).rtake dedupCacheCapacity
  get : ∀ key ∈ cache.order, cache.get key = latest calls key

theorem Follows.insert {calls : List (κ × ν)} (h : cache.Follows calls) (key : κ) (response : ν)
    : (cache.insert key response).Follows (calls ++ [(key, response)]) := by
  constructor
  . rw [admitted_append, admitted.next, ← h.order]
    split
    next hold =>
      have hmem := (cache.keys key).mp hold
      rw [order_insert_old hmem, h.order]
    next hnew =>
      have hmem := mt (cache.keys key).mpr hnew
      rw [order_insert_new hmem, order_makeRoom, rtake_append_singleton _ _ (by decide), h.order]
  . intro key' hkey
    rw [latest_append]
    split
    next heq => rw [← heq, get_insert]
    next hne =>
      have hold : key' ∈ cache.order := by
        by_cases hmem : key ∈ cache.responses
        . rwa [order_insert_old hmem] at hkey
        . rw [order_insert_new hmem, List.mem_append, List.mem_singleton] at hkey
          exact mem_order_of_makeRoom (hkey.resolve_right (Ne.symm hne))
      rw [get_insert_ne (Ne.symm hne) hkey, h.get key' hold]

theorem inserts_follows (calls : List (κ × ν)) : (inserts calls).Follows calls := by
  induction calls using List.reverseRecOn with
  | nil =>
    constructor
    . simp [inserts, admitted, List.rtake]
    . simp [inserts]
  | append_singleton calls call ih =>
    rw [inserts_append]
    exact ih.insert call.1 call.2

/-- After any inserts the two containers hold the same keys, each once and no more than there is
room for, and a key is answered, as it was inserted last, while it is among those admitted last. -/
theorem inserts_window (calls : List (κ × ν))
    : (inserts calls).order.Nodup
      ∧ (∀ key, key ∈ (inserts calls).order ↔ key ∈ (inserts calls).responses)
      ∧ (inserts calls).order.length ≤ dedupCacheCapacity
      ∧ (∀ key ∈ (admitted calls).rtake dedupCacheCapacity,
          ∃ response, latest calls key = some response ∧ (inserts calls).get key = some response)
      ∧ ∀ key ∉ (admitted calls).rtake dedupCacheCapacity, (inserts calls).get key = none := by
  have hfollows := inserts_follows calls
  refine ⟨(inserts calls).nodup, (inserts calls).keys, (inserts calls).bounded, ?_, ?_⟩
  . intro key hkey
    rw [← hfollows.order] at hkey
    have hsome := AList.lookup_isSome.mpr (((inserts calls).keys key).mp hkey)
    rcases Option.isSome_iff_exists.mp hsome with ⟨response, hresponse⟩
    refine ⟨response, ?_, hresponse⟩
    rw [← hfollows.get key hkey]
    exact hresponse
  . intro key hkey
    rw [← hfollows.order, (inserts calls).keys] at hkey
    exact AList.lookup_eq_none.mpr hkey

end DedupCache

end Server
