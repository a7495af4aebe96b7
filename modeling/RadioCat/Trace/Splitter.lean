import RadioCat.Trace.Transducer

/-!
This module contains splitters: what takes items off the front of a buffer that grows at its end.
The items do not depend on the pieces in which the buffer was filled.
-/

universe u v

namespace Trace

@[ext]
structure Splitter (β : Type u) (α : Type v) where
  next : List β → Option (α × List β)
  shorter {buf : List β} {a : α} {rest : List β}
    : next buf = some (a, rest) → rest.length < buf.length
  extend {buf : List β} {a : α} {rest : List β} (more : List β)
    : next buf = some (a, rest) → next (buf ++ more) = some (a, rest ++ more)

namespace Splitter

variable {β : Type u} {α : Type v} (S : Splitter β α) {buf rest : List β} {a : α}

def drainFuel : Nat → List β → List α × List β
  | 0, buf => ([], buf)
  | n + 1, buf =>
    match S.next buf with
    | none => ([], buf)
    | some (a, rest) => (a :: (drainFuel n rest).1, (drainFuel n rest).2)

-- Every item takes something off the buffer, so its length is fuel enough.
def drain (buf : List β) : List α × List β :=
  S.drainFuel buf.length buf

theorem drainFuel_none (n : Nat) (h : S.next buf = none) : S.drainFuel n buf = ([], buf) := by
  cases n with
  | zero => rfl
  | succ n => simp [drainFuel, h]

theorem drainFuel_fuel {n m : Nat} (hn : buf.length ≤ n) (hm : buf.length ≤ m)
    : S.drainFuel n buf = S.drainFuel m buf := by
  induction n generalizing buf m with
  | zero =>
    have hnext : S.next buf = none := by
      apply Option.eq_none_iff_forall_ne_some.mpr
      intro item hitem
      have hlt := S.shorter hitem
      omega
    rw [S.drainFuel_none 0 hnext, S.drainFuel_none m hnext]
  | succ n ih =>
    cases hnext : S.next buf with
    | none => rw [S.drainFuel_none _ hnext, S.drainFuel_none _ hnext]
    | some item =>
      have hlt := S.shorter hnext
      cases m with
      | zero => omega
      | succ m =>
        have hrest : S.drainFuel n item.2 = S.drainFuel m item.2 := by
          apply ih
          . omega
          . omega
        simp only [drainFuel, hnext, hrest]

theorem drain_none (h : S.next buf = none) : S.drain buf = ([], buf) := by
  apply S.drainFuel_none _ h

theorem drain_some (h : S.next buf = some (a, rest))
    : S.drain buf = (a :: (S.drain rest).1, (S.drain rest).2) := by
  have hlt := S.shorter h
  have hrest : S.drainFuel (buf.length - 1) rest = S.drain rest := by
    apply S.drainFuel_fuel
    . omega
    . omega
  have hfuel : buf.length = buf.length - 1 + 1 := by omega
  rw [drain, hfuel, drainFuel, h]
  simp only [hrest]

/-- The induction that follows the items as they are taken off. -/
theorem drain_induction {motive : List β → Prop}
    (stop : ∀ buf, S.next buf = none → motive buf)
    (item : ∀ buf a rest, S.next buf = some (a, rest) → motive rest → motive buf)
    (buf : List β) : motive buf := by
  induction hn : buf.length using Nat.strongRecOn generalizing buf with
  | _ n ih =>
    cases hnext : S.next buf with
    | none => exact stop buf hnext
    | some taken =>
      apply item buf taken.1 taken.2 hnext
      apply ih taken.2.length _ taken.2 rfl
      rw [← hn]
      exact S.shorter hnext

theorem next_drain (buf : List β) : S.next (S.drain buf).2 = none := by
  induction buf using S.drain_induction with
  | stop buf h =>
    rw [S.drain_none h]
    exact h
  | item buf a rest h ih =>
    rw [S.drain_some h]
    exact ih

theorem drain_append (buf more : List β)
    : S.drain (buf ++ more)
      = ((S.drain buf).1 ++ (S.drain ((S.drain buf).2 ++ more)).1,
        (S.drain ((S.drain buf).2 ++ more)).2) := by
  induction buf using S.drain_induction with
  | stop buf h => simp [S.drain_none h]
  | item buf a rest h ih =>
    rw [S.drain_some (S.extend more h), S.drain_some h, ih]
    rfl

/-- The loop that fills the buffer chunk by chunk, and drains it after each. -/
def feed : Transducer (List β) (List β) α := fun pending chunk =>
  S.drain (pending ++ chunk)

theorem run_feed (chunks : List (List β)) {pending : List β} (h : S.next pending = none)
    : S.feed.run pending chunks = S.drain (pending ++ chunks.flatten) := by
  induction chunks generalizing pending with
  | nil => rw [List.flatten_nil, List.append_nil, S.drain_none h, Transducer.run_nil]
  | cons chunk chunks ih =>
    have hnext := S.next_drain (pending ++ chunk)
    rw [Transducer.run_cons, feed, ih hnext, List.flatten_cons, ← List.append_assoc,
      S.drain_append (pending ++ chunk)]

section

variable {γ : Type*} (f : α → Option γ)

/-- What `f` makes of the items. One that it refuses is never taken off. -/
def upTo : Splitter β γ where
  next buf := (S.next buf).bind fun item => (f item.1).map fun c => (c, item.2)
  shorter := by
    intro buf item rest h
    simp only [Option.bind_eq_some_iff, Option.map_eq_some_iff] at h
    rcases h with ⟨taken, hnext, c, _, heq⟩
    cases heq
    exact S.shorter hnext
  extend := by
    intro buf item rest more h
    simp only [Option.bind_eq_some_iff, Option.map_eq_some_iff] at h ⊢
    rcases h with ⟨taken, hnext, c, hf, heq⟩
    cases heq
    exact ⟨(taken.1, taken.2 ++ more), S.extend more hnext, item, hf, rfl⟩

theorem upTo_next_some {c : γ} (h : S.next buf = some (a, rest)) (hf : f a = some c)
    : (S.upTo f).next buf = some (c, rest) := by
  simp [upTo, h, hf]

theorem upTo_next_none (h : S.next buf = none) : (S.upTo f).next buf = none := by
  simp [upTo, h]

theorem upTo_next_refused (h : S.next buf = some (a, rest)) (hf : f a = none)
    : (S.upTo f).next buf = none := by
  simp [upTo, h, hf]

theorem drain_upTo (h : ∀ a ∈ (S.drain buf).1, (f a).isSome)
    : (S.upTo f).drain buf
      = ((S.drain buf).1.filterMap f, (S.drain buf).2) := by
  induction buf using S.drain_induction with
  | stop buf hnext =>
    rw [S.drain_none hnext, drain_none _ (S.upTo_next_none f hnext)]
    rfl
  | item buf a rest hnext ih =>
    rw [S.drain_some hnext] at h ⊢
    rcases Option.isSome_iff_exists.mp (h a List.mem_cons_self) with ⟨c, hc⟩
    rw [drain_some _ (S.upTo_next_some f hnext hc), ih fun a ha => h a (List.mem_cons_of_mem _ ha)]
    simp [hc]

end

end Splitter

end Trace
