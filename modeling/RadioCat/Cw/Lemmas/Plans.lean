import RadioCat.Cw.Lemmas.Chunks

/-!
This module contains the chunks of the plans a job is sent by.
-/

namespace Cw

variable {env : Env} {s : CwSupervisor} {send : CwSendText} {wpm : Nat}

def sends (plan : List Step) : List Chunk :=
  plan.filterMap Step.chunk

@[simp]
theorem sends_nil : sends [] = [] := by
  rfl

@[simp]
theorem sends_append (plan plan' : List Step)
    : sends (plan ++ plan') = sends plan ++ sends plan' := by
  simp [sends]

theorem mem_sends {plan : List Step} {c : Chunk} : c ∈ sends plan ↔ .send c ∈ plan := by
  rw [sends, List.mem_filterMap]
  constructor
  . rintro ⟨x, hx, hc⟩
    cases x <;> simp [Step.chunk] at hc
    rwa [← hc]
  . intro hx
    exact ⟨_, hx, rfl⟩

theorem chunkPlan.markLast_fst (l : List Text) : (markLast l).map Prod.fst = l := by
  induction l using markLast.induct with
  | case1 => rfl
  | case2 t => rfl
  | case3 t ts h ih =>
    rw [markLast, List.map_cons, ih]
    exact h

theorem chunkPlan.sends_paced (n : Nat) (x : (Text × Bool) × Nat)
    : sends (paced send n x) = [{ text := x.1.1, last := x.2 + 1 == n, endsId := x.1.2 }] := by
  unfold paced
  split <;> split <;> rfl

theorem replan.sends_paced (x : Chunk × Nat) : sends (paced send x) = [x.1] := by
  unfold paced
  split
  . split <;> rfl
  . rfl

theorem sends_flatMap {α : Type} {f : α → List Step} {g : α → Chunk} (l : List α)
    (h : ∀ x, sends (f x) = [g x]) : sends (l.flatMap f) = l.map g := by
  induction l with
  | nil => rfl
  | cons x l ih => rw [List.flatMap_cons, sends_append, h, ih, List.map_cons, List.singleton_append]

def pieces (env : Env) (s : CwSupervisor) (send : CwSendText) (operator : Text)
    (idText : Option Text) (idFirst : Bool) (wpm : Nat) : List (Text × Bool) :=
  let piece := fun text => chunks env text send.maxChunkChars (drainBoundOf s send) wpm
  let operator := (piece operator).map fun t => (t, false)
  let id := chunkPlan.markLast (idText.elim [] piece)
  if idFirst then id ++ operator else operator ++ id

theorem sends_chunkPlan_zipIdx (operator : Text) (idText : Option Text) (idFirst : Bool)
    : sends (chunkPlan env s send operator idText idFirst wpm)
        = (pieces env s send operator idText idFirst wpm).zipIdx.map fun x =>
            { text := x.1.1
              last := x.2 + 1 == (pieces env s send operator idText idFirst wpm).length
              endsId := x.1.2 } := by
  have hpieces : chunkPlan env s send operator idText idFirst wpm
      = (pieces env s send operator idText idFirst wpm).zipIdx.flatMap
          (chunkPlan.paced send (pieces env s send operator idText idFirst wpm).length)
        ++ [.waitKeyed s.config.pacingMargin] := by
    cases idText <;> rfl
  rw [hpieces, sends_append, sends_flatMap _ (chunkPlan.sends_paced _)]
  simp [sends, Step.chunk]

theorem sends_chunkPlan (operator : Text) (idText : Option Text) (idFirst : Bool)
    : (sends (chunkPlan env s send operator idText idFirst wpm)).map (fun c => (c.text, c.endsId))
        = pieces env s send operator idText idFirst wpm := by
  rw [sends_chunkPlan_zipIdx]
  simp [Function.comp_def]

theorem text_of_mem_chunkPlan {c : Chunk} {operator : Text} {idText : Option Text} {idFirst : Bool}
    (hc : .send c ∈ chunkPlan env s send operator idText idFirst wpm)
    : ∃ text, c.text ∈ chunks env text send.maxChunkChars (drainBoundOf s send) wpm
        ∧ (text = operator ∨ idText = some text) := by
  have hmem : (c.text, c.endsId) ∈ pieces env s send operator idText idFirst wpm := by
    rw [← sends_chunkPlan]
    exact List.mem_map_of_mem (mem_sends.mpr hc)
  have hid : c.text ∈ (chunkPlan.markLast (idText.elim [] fun text =>
      chunks env text send.maxChunkChars (drainBoundOf s send) wpm)).map Prod.fst →
      ∃ text, c.text ∈ chunks env text send.maxChunkChars (drainBoundOf s send) wpm
        ∧ idText = some text := by
    rw [chunkPlan.markLast_fst]
    cases idText with
    | none => simp
    | some text => exact fun h => ⟨text, h, rfl⟩
  unfold pieces at hmem
  grind

theorem text_of_mem_rechunk {c : Chunk} (hc : c ∈ rechunk env s send wpm)
    : ∃ chunk, c.text ∈ chunks env chunk.text send.maxChunkChars (drainBoundOf s send) wpm
        ∧ .send chunk ∈ s.plan := by
  simp only [rechunk, List.mem_flatMap, List.mem_map] at hc
  obtain ⟨chunk, hchunk, x, hx, rfl⟩ := hc
  exact ⟨chunk, List.fst_mem_of_mem_zipIdx hx, mem_sends.mp hchunk⟩

theorem sends_replan (l : List (Chunk × Nat)) (margin : Duration)
    : sends (l.flatMap (replan.paced send) ++ [.waitKeyed margin]) = l.map Prod.fst := by
  rw [sends_append, sends_flatMap _ replan.sends_paced]
  simp [sends, Step.chunk]

theorem texts_rechunk
    : (rechunk env s send wpm).map Chunk.text
        = ((sends s.plan).map Chunk.text).flatMap fun text =>
            chunks env text send.maxChunkChars (drainBoundOf s send) wpm := by
  simp only [rechunk, sends, List.map_flatMap, List.flatMap_map, List.map_map, Function.comp_def,
    List.zipIdx_map_fst]

theorem status_not_mem_chunkPlan (operator : Text) (idText : Option Text) (idFirst : Bool)
    : .status ∉ chunkPlan env s send operator idText idFirst wpm := by
  simp only [chunkPlan, List.mem_append, List.mem_flatMap, List.mem_singleton, not_or]
  refine ⟨?_, by simp⟩
  rintro ⟨x, _, hx⟩
  unfold chunkPlan.paced at hx
  split at hx <;> split at hx <;> simp at hx

theorem status_not_mem_replan (pieces : List (Chunk × Nat)) (margin : Duration)
    : .status ∉ pieces.flatMap (replan.paced send) ++ [.waitKeyed margin] := by
  simp only [List.mem_append, List.mem_flatMap, List.mem_singleton, not_or]
  refine ⟨?_, by simp⟩
  rintro ⟨x, _, hx⟩
  unfold replan.paced at hx
  split at hx
  . split at hx <;> simp at hx
  . simp at hx

def EndsId (l : List Chunk) : Prop :=
  ∃ c ∈ l, c.endsId = true ∧ c.text.strip ≠ []

theorem EndsId.append_left {l : List Chunk} (h : EndsId l) (l' : List Chunk)
    : EndsId (l' ++ l) := by
  obtain ⟨c, hc, hends⟩ := h
  exact ⟨c, List.mem_append_right l' hc, hends⟩

theorem chunkPlan.exists_last {l : List Text} (hl : l ≠ []) : ∃ t, (t, true) ∈ markLast l := by
  induction l using markLast.induct with
  | case1 => contradiction
  | case2 t => exact ⟨t, List.mem_singleton_self _⟩
  | case3 t ts h ih =>
    obtain ⟨t', ht'⟩ := ih h
    rw [markLast]
    . exact ⟨t', List.mem_cons_of_mem _ ht'⟩
    . exact h

theorem chunks_ne_nil {text : Text} {maxChars : Nat} {maxDuration : Option Duration}
    (h : text.strip ≠ []) : chunks env text maxChars maxDuration wpm ≠ [] := by
  intro hnil
  have hstrip : Text.strip (chunks env text maxChars maxDuration wpm).flatten = text.strip :=
    strip_chunks text
  rw [hnil] at hstrip
  exact h hstrip.symm

theorem endsId_chunkPlan {operator text : Text} {idFirst : Bool} (h : text.strip ≠ [])
    : EndsId (sends (chunkPlan env s send operator (some text) idFirst wpm)) := by
  have hne : chunks env text send.maxChunkChars (drainBoundOf s send) wpm ≠ [] := chunks_ne_nil h
  obtain ⟨t, ht⟩ := chunkPlan.exists_last hne
  have hmem : (t, true) ∈ pieces env s send operator (some text) idFirst wpm := by
    unfold pieces
    dsimp only [Option.elim_some]
    split
    . exact List.mem_append_left _ ht
    . exact List.mem_append_right _ ht
  rw [← sends_chunkPlan, List.mem_map] at hmem
  obtain ⟨c, hc, heq⟩ := hmem
  rw [Prod.mk.injEq] at heq
  obtain ⟨_, htext, _⟩ := text_of_mem_chunkPlan (mem_sends.mp hc)
  exact ⟨c, hc, heq.2, strip_ne_nil_of_mem_chunks htext⟩

theorem exists_zipIdx_last {α : Type} {l : List α} (h : l ≠ [])
    : ∃ x ∈ l.zipIdx, x.2 + 1 = l.length := by
  refine ⟨(l.getLast h, l.length - 1), ?_, Nat.sub_add_cancel (List.length_pos_of_ne_nil h)⟩
  rw [List.mk_mem_zipIdx_iff_getElem?, ← List.getLast?_eq_getElem?, List.getLast?_eq_some_getLast]

theorem endsId_rechunk (h : EndsId (sends s.plan)) : EndsId (rechunk env s send wpm) := by
  obtain ⟨c, hc, hends, hstrip⟩ := h
  have hne : chunks env c.text send.maxChunkChars (drainBoundOf s send) wpm ≠ [] :=
    chunks_ne_nil hstrip
  -- Its flag goes to the last of the pieces it is cut into.
  obtain ⟨x, hx, htail⟩ := exists_zipIdx_last hne
  refine ⟨_, List.mem_flatMap.mpr ⟨c, hc, List.mem_map.mpr ⟨x, hx, rfl⟩⟩, ?_, ?_⟩
  . simp [hends, htail]
  . exact strip_ne_nil_of_mem_chunks (List.fst_mem_of_mem_zipIdx hx)

end Cw
