import Mathlib.Data.List.Nodup

/-!
This module contains queues of writes in which a write supersedes the queued ones to the same
register. What the registers hold in the end does not depend on the superseded writes.
-/

universe u v w

namespace Trace

namespace Latest

variable {α : Type u} {κ : Type v} {ν : Type w} [DecidableEq κ]
variable (key : α → Option κ) (val : α → ν)

def write (regs : κ → Option ν) (a : α) (k : κ) : Option ν :=
  if key a = some k then some (val a) else regs k

def writeAll (regs : κ → Option ν) (queue : List α) : κ → Option ν :=
  queue.foldl (write key val) regs

/-- Both write, and to the same register. -/
def Contends (a b : α) : Prop :=
  key a ≠ none ∧ key b = key a

instance (a b : α) : Decidable (Contends key a b) :=
  inferInstanceAs (Decidable (_ ∧ _))

def superseded (queue : List α) (a : α) : List α :=
  queue.filter (Contends key a ·)

def kept (queue : List α) (a : α) : List α :=
  queue.filter (¬ Contends key a ·)

def push (queue : List α) (a : α) : List α :=
  kept key queue a ++ [a]

variable {key val} {queue : List α} {a b : α} {k : κ}

omit [DecidableEq κ] in
theorem not_contends (h : key a = none) : ¬ Contends key a b := by
  rintro ⟨hkey, _⟩
  exact hkey h

theorem kept_none (h : key a = none) : kept key queue a = queue := by
  apply List.filter_eq_self.mpr
  intro b _
  exact decide_eq_true (not_contends h)

theorem superseded_none (h : key a = none) : superseded key queue a = [] := by
  apply List.filter_eq_nil_iff.mpr
  intro b _
  simp [not_contends h]

omit [DecidableEq κ] in
theorem contends_some (h : key a = some k) : Contends key a b ↔ key b = some k := by
  simp [Contends, h]

theorem superseded_perm_kept : (superseded key queue a ++ kept key queue a).Perm queue := by
  have h := List.filter_append_perm (fun b => decide (Contends key a b)) queue
  simpa [superseded, kept] using h

theorem kept_sublist : (kept key queue a).Sublist queue := by
  apply List.filter_sublist

theorem writeAll_append (regs : κ → Option ν) (older newer : List α)
    : writeAll key val regs (older ++ newer)
      = writeAll key val (writeAll key val regs older) newer := by
  apply List.foldl_append

theorem write_congr {regs regs' : κ → Option ν} (h : regs k = regs' k)
    : write key val regs a k = write key val regs' a k := by
  rw [write, write, h]

theorem writeAll_filter (p : α → Bool) (h : ∀ b, p b = false → key b ≠ some k)
    {regs regs' : κ → Option ν} (hregs : regs k = regs' k)
    : writeAll key val regs (queue.filter p) k = writeAll key val regs' queue k := by
  induction queue generalizing regs regs' with
  | nil => exact hregs
  | cons b queue ih =>
    cases hp : p b with
    | true =>
      rw [List.filter_cons_of_pos hp]
      apply ih
      exact write_congr hregs
    | false =>
      rw [List.filter_cons_of_neg (by simp [hp])]
      apply ih
      rw [write, if_neg (h b hp)]
      exact hregs

theorem writeAll_push (regs : κ → Option ν) (queue : List α) (a : α)
    : writeAll key val regs (push key queue a) = writeAll key val regs (queue ++ [a]) := by
  funext k
  rw [push, writeAll_append, writeAll_append]
  show write key val _ a k = write key val _ a k
  by_cases hkey : key a = some k
  . rw [write, write, if_pos hkey, if_pos hkey]
  . apply write_congr
    apply writeAll_filter _ _ rfl
    intro b hb hk
    -- What is dropped contends with `a`, which writes to another register.
    have hcontends : Contends key a b := by simpa using hb
    exact hkey (hcontends.2.symm.trans hk)

theorem nodup_push (h : (queue.filterMap key).Nodup) (a : α)
    : ((push key queue a).filterMap key).Nodup := by
  have hkept : ((kept key queue a).filterMap key).Nodup :=
    h.sublist (kept_sublist.filterMap key)
  rw [push, List.filterMap_append]
  cases hkey : key a with
  | none => simpa [hkey] using hkept
  | some k =>
    have hfresh : k ∉ (kept key queue a).filterMap key := by
      simp [kept, contends_some hkey]
    have hlast : [a].filterMap key = [k] := by simp [hkey]
    rw [hlast]
    apply List.nodup_append.mpr
    refine ⟨hkept, List.nodup_singleton k, ?_⟩
    rintro j hj j' hj' rfl
    rw [List.mem_singleton.mp hj'] at hj
    exact hfresh hj

end Latest

end Trace
