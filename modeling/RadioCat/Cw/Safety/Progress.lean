import Mathlib.Algebra.Order.BigOperators.Group.List
import Mathlib.Algebra.Order.Ring.Nat
import RadioCat.Cw.Safety.Text

/-!
This module contains the progress reported of a job: how many characters of its text count as sent
once the radio has taken some of its chunks.
-/

namespace Cw

open Trace

namespace Text

/-- The characters of the words of a text, with a separator after each word. -/
def reach (text : Text) : Nat :=
  (text.splitWhitespace.map fun w => w.length + 1).sum

/-- One whitespace character stands between two words and none at the ends. -/
def Spaced (text : Text) : Prop :=
  [] ∉ List.splitOnP isWhitespace text

theorem sum_splitOnP (p : Char → Bool) (text : Text)
    : ((List.splitOnP p text).map fun w => w.length + 1).sum = text.length + 1 := by
  induction text with
  | nil => rfl
  | cons c text ih =>
    obtain ⟨piece, pieces, hsplit⟩ := List.exists_cons_of_ne_nil (List.splitOnP_ne_nil p text)
    rw [hsplit, List.map_cons, List.sum_cons] at ih
    rw [List.splitOnP_cons_eq_if_modifyHead, hsplit]
    split
    next =>
      simp only [List.map_cons, List.sum_cons, List.length_nil, List.length_cons]
      omega
    next =>
      simp only [List.modifyHead_cons, List.map_cons, List.sum_cons, List.length_cons]
      omega

theorem reach_le (text : Text) : text.reach ≤ text.length + 1 := by
  rw [← sum_splitOnP isWhitespace text]
  apply List.Sublist.sum_le_sum
  . exact List.Sublist.map _ List.filter_sublist
  . simp

theorem Spaced.reach {text : Text} (h : text.Spaced) : text.reach = text.length + 1 := by
  have hfilter : text.splitWhitespace = List.splitOnP isWhitespace text := by
    apply List.filter_eq_self.mpr
    intro w hw
    cases w with
    | nil => exact absurd hw h
    | cons c w => rfl
  rw [Text.reach, hfilter, sum_splitOnP]

theorem spaced_of_all {w : Text} (hne : w ≠ []) (hw : ∀ c ∈ w, isWhitespace c = false)
    : w.Spaced := by
  rw [Spaced, List.splitOnP_eq_singleton hw, List.mem_singleton]
  exact hne.symm

theorem splitOnP_concat {p : Char → Bool} {c : Char} (hc : p c = false) (text : Text)
    : ∃ pre last, List.splitOnP p text = pre ++ [last] ∧
        List.splitOnP p (text ++ [c]) = pre ++ [last ++ [c]] := by
  induction text with
  | nil => exact ⟨[], [], rfl, by simp [List.splitOnP_cons_eq_if_modifyHead, hc]⟩
  | cons d text ih =>
    obtain ⟨pre, last, hsplit, hconcat⟩ := ih
    rw [List.cons_append, List.splitOnP_cons_eq_if_modifyHead, List.splitOnP_cons_eq_if_modifyHead,
      hsplit, hconcat]
    split
    next => exact ⟨[] :: pre, last, rfl, rfl⟩
    next =>
      cases pre with
      | nil => exact ⟨[], d :: last, rfl, rfl⟩
      | cons piece pre => exact ⟨(d :: piece) :: pre, last, rfl, rfl⟩

theorem Spaced.concat {text : Text} {c : Char} (h : text.Spaced) (hc : isWhitespace c = false)
    : Spaced (text ++ [c]) := by
  obtain ⟨pre, last, hsplit, hconcat⟩ := splitOnP_concat hc text
  rw [Spaced, hsplit] at h
  rw [Spaced, hconcat]
  simp only [List.mem_append, not_or, List.mem_singleton] at h ⊢
  exact ⟨h.1, by simp⟩

theorem Spaced.join {text w : Text} (h : text.Spaced) (hw : w.Spaced)
    : Spaced (text ++ ' ' :: w) := by
  rw [Spaced, List.splitOnP_append_cons _ _ (by decide), List.mem_append, not_or]
  exact ⟨h, hw⟩

end Text

section

variable {env : Env} {s s' : CwSupervisor} {send : CwSendText} {wpm : Nat}

theorem spaced_of_mem_chunks {text x : Text} {maxChars : Nat} {maxDuration : Option Duration}
    (hx : x ∈ chunks env text maxChars maxDuration wpm) : x.Spaced := by
  apply of_mem_chunks (P := Text.Spaced) _ hx
  intro w hw
  have hchar (c : Char) (hc : c ∈ w) : Text.isWhitespace c = false := by
    simpa using List.of_mem_filter (Text.mem_strip_of_mem_word hw hc)
  have hword : w.Spaced := Text.spaced_of_all (Text.trimmed_word hw).ne_nil hchar
  constructor
  . intro _
    exact hword
  . intro c hc
    apply Text.spaced_of_all (by simp)
    simpa using hchar c hc
  . intro c hc x hx _
    exact hx.concat (hchar c hc)
  . intro x hx _
    exact hx.join hword

/-- Only the last of the chunks is marked as the last. -/
def LastMarked (l : List Chunk) : Prop :=
  ∃ pre c, l = pre ++ [c] ∧ c.last = true ∧ ∀ d ∈ pre, d.last = false

theorem lastMarked_zipIdx {α : Type} {l : List α} {f : α × Nat → Chunk} (hne : l ≠ [])
    (hf : ∀ x, (f x).last = (x.2 + 1 == l.length)) : LastMarked (l.zipIdx.map f) := by
  obtain ⟨pre, x, rfl⟩ := (List.eq_nil_or_concat' l).resolve_left hne
  rw [List.zipIdx_append, List.map_append]
  refine ⟨pre.zipIdx.map f, f (x, pre.length), by simp, by simp [hf], ?_⟩
  intro d hd
  obtain ⟨y, hy, rfl⟩ := List.mem_map.mp hd
  have hlt := List.snd_lt_of_mem_zipIdx hy
  rw [hf, List.length_append, List.length_singleton, beq_eq_false_iff_ne]
  omega

theorem LastMarked.flatMap {a l : List Chunk} {f : Chunk → List Chunk} (h : LastMarked (a ++ l))
    (hfalse : ∀ c, c.last = false → ∀ d ∈ f c, d.last = false)
    (htrue : ∀ c ∈ l, c.last = true → LastMarked (f c)) : LastMarked (a ++ l.flatMap f) := by
  rcases List.eq_nil_or_concat' l with rfl | ⟨l', x, rfl⟩
  . exact h
  obtain ⟨pre, c, heq, hlast, hpre⟩ := h
  rw [← List.append_assoc] at heq
  obtain ⟨hinit, hone⟩ := List.append_inj' heq rfl
  rw [List.cons.injEq] at hone
  rw [← hone.1] at hlast
  obtain ⟨pre', d, heq', hlast', hpre'⟩ := htrue x (by simp) hlast
  refine ⟨a ++ l'.flatMap f ++ pre', d, by simp [heq'], hlast', ?_⟩
  intro e he
  rcases List.mem_append.mp he with he | he
  . rcases List.mem_append.mp he with he | he
    . exact hpre e (hinit ▸ List.mem_append_left l' he)
    . obtain ⟨c', hc', he⟩ := List.mem_flatMap.mp he
      exact hfalse c' (hpre c' (hinit ▸ List.mem_append_right a hc')) e he
  . exact hpre' e he

theorem LastMarked.ne_nil {a l : List Chunk} (h : LastMarked (a ++ l))
    (ha : ∀ c ∈ a, c.last = false) : l ≠ [] := by
  intro hnil
  rw [hnil, List.append_nil] at h
  obtain ⟨pre, c, rfl, hlast, -⟩ := h
  have hfalse := ha c (by simp)
  rw [hlast] at hfalse
  cases hfalse

theorem LastMarked.unmarked {a l : List Chunk} {c : Chunk} (h : LastMarked (a ++ c :: l))
    : ∀ d ∈ a, d.last = false := by
  obtain ⟨pre, x, heq, -, hpre⟩ := h
  intro d hd
  apply hpre
  have hprefix : a <+: pre := by
    apply List.prefix_of_prefix_length_le (List.prefix_append a (c :: l))
    . rw [heq]
      exact List.prefix_append pre [x]
    . have hlength := congrArg List.length heq
      simp only [List.length_append, List.length_cons, List.length_nil] at hlength
      omega
  exact hprefix.subset hd

def span (l : List Chunk) : Nat :=
  (l.map fun c => c.text.length + 1).sum

/-- How much of a job counts as sent once the radio has taken some chunks. -/
def Job.counted (job : Job) (taken : List Chunk) : Nat :=
  if taken.any Chunk.last then job.total else min (span taken) job.total

/-- What is known of a job while it is being sent. -/
structure Counts (taken : List Chunk) (job : Job) (todo : List Step) : Prop where
  total : job.total = job.text.length % 2 ^ 32
  text : job.text.strip = job.halves.1 ++ job.halves.2
  words : job.text.strip ≠ []
  sent : job.sent = job.counted taken
  pieces : (∃ max, todo = [.status, .powerAtMost max]) ∧ taken = []
    ∨ .status ∉ todo ∧ LastMarked (taken ++ sends todo)
      ∧ (∀ c ∈ taken ++ sends todo, c.text.Spaced ∧ c.text.strip ≠ [])
      ∧ Text.strip ((taken ++ sends todo).map Chunk.text).flatten = job.text.strip

theorem span_append (l l' : List Chunk) : span (l ++ l') = span l + span l' := by
  simp [span]

theorem strip_operatorText_ne_nil {text : Text} (h : text.splitWhitespace.isEmpty = false)
    : (operatorText text).strip ≠ [] := by
  obtain ⟨w, ws, hwords⟩ := List.exists_cons_of_ne_nil (by simpa using h)
  have hw : w ≠ [] := (Text.trimmed_word (hwords ▸ List.mem_cons_self)).ne_nil
  rw [strip_operatorText, Text.strip_toAsciiUppercase, ← Text.flatten_splitWhitespace, hwords]
  simp [Text.toAsciiUppercase, hw]

theorem strip_jobFor (env : Env) (s : CwSupervisor) (a : Arm) (operator : Text) (now : Instant)
    : (jobFor env s a operator now).1.text.strip
        = (jobFor env s a operator now).1.halves.1 ++ (jobFor env s a operator now).1.halves.2 := by
  cases hdue : idDue s a now with
  | false => simp [jobFor, Job.halves, hdue]
  | true =>
    cases hfirst : a.idFirst <;> simp [jobFor, Job.halves, hdue, hfirst]

theorem counts_jobFor {a : Arm} {text : Text} {now : Instant}
    (hwords : text.splitWhitespace.isEmpty = false) (max : Nat)
    : Counts [] (jobFor env s a (operatorText text) now).1 [.status, .powerAtMost max] := by
  have hstrip := strip_jobFor env s a (operatorText text) now
  have hne := strip_operatorText_ne_nil hwords
  refine ⟨rfl, hstrip, ?_, ?_, Or.inl ⟨⟨max, rfl⟩, rfl⟩⟩
  . rw [hstrip]
    unfold Job.halves
    split <;> simp [jobFor, hne]
  . simp [Job.counted, span, jobFor]

variable {job : Job} {taken : List Chunk} {todo : List Step}

theorem pieces_chunkPlan {operator : Text} {idText : Option Text} {idFirst : Bool} {c : Chunk}
    (hc : c ∈ sends (chunkPlan env s send operator idText idFirst wpm))
    : c.text.Spaced ∧ c.text.strip ≠ [] := by
  obtain ⟨text, htext, -⟩ := text_of_mem_chunkPlan (mem_sends.mp hc)
  exact ⟨spaced_of_mem_chunks htext, strip_ne_nil_of_mem_chunks htext⟩

theorem Counts.plan {max : Nat} (h : Counts [] job todo)
    : Counts [] job
        (.powerAtMost max :: chunkPlan env s send job.operator job.idText job.idFirst wpm) := by
  have hsends : sends (.powerAtMost max
      :: chunkPlan env s send job.operator job.idText job.idFirst wpm)
      = sends (chunkPlan env s send job.operator job.idText job.idFirst wpm) := rfl
  obtain ⟨p, q, hpq, hp, hq⟩ := @halves_chunkPlan env s job send wpm
  have hstrip : Text.strip ((sends (chunkPlan env s send job.operator job.idText job.idFirst
      wpm)).map Chunk.text).flatten = job.text.strip := by
    rw [hpq, List.flatten_append, Text.strip_append, hp, hq, h.text]
  refine ⟨h.total, h.text, h.words, h.sent, Or.inr ?_⟩
  rw [hsends, List.nil_append]
  refine ⟨?_, ?_, fun c hc => pieces_chunkPlan hc, hstrip⟩
  . exact List.not_mem_cons_of_ne_of_not_mem (by simp) (status_not_mem_chunkPlan _ _ _)
  . have hne : Cw.pieces env s send job.operator job.idText job.idFirst wpm ≠ [] := by
      intro hnil
      rw [sends_chunkPlan_zipIdx, hnil] at hstrip
      exact h.words hstrip.symm
    rw [sends_chunkPlan_zipIdx]
    exact lastMarked_zipIdx hne fun x => rfl

theorem Counts.planned {step : Step} {rest : List Step} (h : Counts taken job (step :: rest))
    (hstep : step ≠ .status)
    : .status ∉ rest ∧ LastMarked (taken ++ sends (step :: rest))
        ∧ (∀ c ∈ taken ++ sends (step :: rest), c.text.Spaced ∧ c.text.strip ≠ [])
        ∧ Text.strip ((taken ++ sends (step :: rest)).map Chunk.text).flatten = job.text.strip := by
  rcases h.pieces with ⟨⟨max, hstart⟩, _⟩ | ⟨hmem, hplanned⟩
  . rw [List.cons.injEq] at hstart
    exact absurd hstart.1 hstep
  . exact ⟨fun h => hmem (List.mem_cons_of_mem _ h), hplanned⟩

theorem Counts.pass {step : Step} {rest : List Step} (h : Counts taken job (step :: rest))
    (hstep : step ≠ .status) (hchunk : step.chunk = none) : Counts taken job rest := by
  have hplanned := h.planned hstep
  rw [sends, List.filterMap_cons_none hchunk] at hplanned
  exact ⟨h.total, h.text, h.words, h.sent, Or.inr hplanned⟩

theorem Counts.replan {plan : List Step} (h : Counts taken job (.checkSpeed :: s.plan))
    (hsends : sends plan = rechunk env s send wpm) (hstatus : .status ∉ plan)
    : Counts taken job plan := by
  obtain ⟨_, hmarked, hall, hstrip⟩ := h.planned (by simp)
  have hpass : sends (.checkSpeed :: s.plan) = sends s.plan := rfl
  rw [hpass] at hmarked hall hstrip
  refine ⟨h.total, h.text, h.words, h.sent, Or.inr ⟨hstatus, ?_, ?_, ?_⟩⟩
  . rw [hsends]
    apply hmarked.flatMap
    . intro c hc d hd
      obtain ⟨x, _, rfl⟩ := List.mem_map.mp hd
      simp [hc]
    . intro c hc hlast
      have hne := (hall c (List.mem_append_right taken hc)).2
      exact lastMarked_zipIdx (chunks_ne_nil hne) fun x => by simp [hlast]
  . rw [hsends]
    intro c hc
    rcases List.mem_append.mp hc with hc | hc
    . exact hall c (List.mem_append_left _ hc)
    . obtain ⟨_, htext, _⟩ := text_of_mem_rechunk hc
      exact ⟨spaced_of_mem_chunks htext, strip_ne_nil_of_mem_chunks htext⟩
  . rw [← hstrip, hsends, List.map_append, List.map_append, texts_rechunk, List.flatten_append,
      List.flatten_append, Text.strip_append, Text.strip_append,
      strip_flatMap fun text => strip_chunks text]

theorem any_last_of_unmarked {l : List Chunk} (h : ∀ c ∈ l, c.last = false)
    : l.any Chunk.last = false := by
  rw [List.any_eq_false]
  intro c hc
  simp [h c hc]

theorem Counts.took {chunk : Chunk} {rest : List Step}
    (h : Counts taken job (.send chunk :: rest))
    : Counts (taken ++ [chunk]) (job.took chunk) rest := by
  obtain ⟨hstatus, hplanned⟩ := h.planned (by simp)
  have hmarked : LastMarked (taken ++ chunk :: sends rest) := hplanned.1
  have hany := any_last_of_unmarked hmarked.unmarked
  have hsent := h.sent
  have hsends : taken ++ sends (.send chunk :: rest) = taken ++ [chunk] ++ sends rest := by
    rw [List.append_assoc]
    rfl
  rw [hsends] at hplanned
  refine ⟨h.total, h.text, h.words, ?_, Or.inr ⟨hstatus, hplanned⟩⟩
  unfold Job.counted at hsent ⊢
  rw [hany, if_neg Bool.false_ne_true] at hsent
  rw [List.any_append, hany, Bool.false_or, span_append]
  simp only [Job.took, List.any_cons, List.any_nil, Bool.or_false]
  split
  . rfl
  . simp only [span, List.map_cons, List.map_nil, List.sum_cons, List.sum_nil] at hsent ⊢
    omega

/-- The chunks that the radio has taken since the last send was accepted. -/
def takenChunks : Log → List Chunk :=
  observe next []
where
  next (taken : List Chunk) (e : Entry) : List Chunk :=
    match e.event with
    | .sent .. => []
    | .answered _ (.send chunk) .done => taken ++ [chunk]
    | _ => taken

def Counted (log : Log) (s : CwSupervisor) : Prop :=
  ∀ job, s.activity = .sending job → Counts (takenChunks log) job s.todo

variable {now : Instant} {evs : List Event} {log : Log}

theorem Move.counted (hs : Shape s) (hI : Counted log s) (h : Move env now s evs s')
    : Counted ((evs.map (Entry.mk now)).reverse ++ log) s' := by
  intro job hact'
  cases h with
  | takeNotices | shutdown => exact hI job hact'
  | send text hwords _ hact harm =>
    obtain ⟨_, out, _⟩ := hs.of_armed hact harm
    cases hact'
    simp only [CwSupervisor.todo, out, Option.toList_none, List.nil_append]
    exact counts_jobFor hwords s.lowPowerRaw
  | keyed out hplan =>
    have hc := hI job hact'
    rw [CwSupervisor.todo_of_none out, hplan] at hc
    simp only [CwSupervisor.todo, out, Option.toList_none, List.nil_append]
    exact hc.pass (by simp) rfl
  | @issue step rest _ _ out hplan haction =>
    have hc := hI job hact'
    rw [CwSupervisor.todo_of_none out, hplan] at hc
    exact hc
  | @planned send _ _ _ wpm out hsend hact harm _ hplan =>
    have hc := hI _ hact
    cases hact'
    rw [CwSupervisor.todo_of_some out] at hc
    rcases hc.pieces with ⟨⟨max, htodo⟩, hnone⟩ | ⟨hmem, _⟩
    . rw [List.cons.injEq] at htodo
      rw [hnone] at hc
      have hplanned := @Counts.plan env s send (s.reported wpm) _ _ max hc
      rw [← hnone, ← List.singleton_append, ← htodo.2, ← hplan] at hplanned
      exact ⟨hplanned.total, hplanned.text, hplanned.words, hplanned.sent, hplanned.pieces⟩
    . exact absurd List.mem_cons_self hmem
  | @replanned send _ _ _ plan _ _ wpm out hsend hact harm hpieces _ _ hplan =>
    have hc := hI _ hact
    rw [CwSupervisor.todo_of_some out] at hc
    cases hact'
    have hsends : sends plan = rechunk env s send (s.reported wpm) := by
      rw [hplan, sends_replan, List.zipIdx_map_fst, hpieces]
    have hstatus : .status ∉ plan := by
      rw [hplan]
      exact status_not_mem_replan _ _
    have hreplan := hc.replan hsends hstatus
    exact ⟨hreplan.total, hreplan.text, hreplan.words, hreplan.sent, hreplan.pieces⟩
  | sameSpeed _ wpm out hact harm same =>
    have hc := hI _ hact'
    rw [CwSupervisor.todo_of_some out] at hc
    exact hc.pass (by simp) rfl
  | sendAnswer outcome out meets _ check hact =>
    have hc := hI _ hact'
    rw [CwSupervisor.todo_of_some out] at hc
    rcases check with rfl | ⟨max, rfl⟩
    . exact hc.pass (by simp) rfl
    . exact hc.pass (by simp) rfl
  | sent out hact harm =>
    have hc := hI _ hact
    rw [CwSupervisor.todo_of_some out] at hc
    cases hact'
    exact hc.took
  | busy out =>
    have hc := hI _ hact'
    rw [CwSupervisor.todo_of_some out] at hc
    exact hc
  | snapPower p out | snapBreakIn k out | silenced out =>
    obtain ⟨_, _, _, out'⟩ := hs.of_sending hact'
    have := out' _ out
    contradiction
  | _ => first | cases hact' | exact absurd hact' (by simp_all [CwSupervisor.answered])

/-- The chunks are whole words of the text, from its beginning on. -/
def Whole (taken : List Chunk) (text : Text) : Prop :=
  (taken.flatMap fun c => c.text.splitWhitespace) <+: text.splitWhitespace

theorem flatten_words (l : List Chunk)
    : (l.flatMap fun c => c.text.splitWhitespace).flatten
        = Text.strip (l.map Chunk.text).flatten := by
  induction l with
  | nil => rfl
  | cons c l ih =>
    rw [List.flatMap_cons, List.flatten_append, ih, Text.flatten_splitWhitespace, List.map_cons,
      List.flatten_cons, Text.strip_append]

theorem sum_words {l : List Chunk} (h : ∀ c ∈ l, c.text.Spaced)
    : ((l.flatMap fun c => c.text.splitWhitespace).map fun w => w.length + 1).sum = span l := by
  induction l with
  | nil => rfl
  | cons c l ih =>
    rw [List.forall_mem_cons] at h
    rw [List.flatMap_cons, List.map_append, List.sum_append, ih h.2, span, span, List.map_cons,
      List.sum_cons, ← h.1.reach]
    rfl

theorem span_lt {text : Text} (hspaced : ∀ c ∈ taken, c.text.Spaced) (hwhole : Whole taken text)
    (hrest : Text.strip (taken.map Chunk.text).flatten ≠ text.strip)
    : span taken < text.length := by
  obtain ⟨rest, hwords⟩ := hwhole
  cases rest with
  | nil =>
    rw [List.append_nil] at hwords
    rw [← flatten_words, hwords, Text.flatten_splitWhitespace] at hrest
    contradiction
  | cons w rest =>
    have hmem : w ∈ text.splitWhitespace := by simp [← hwords]
    have hpos := List.length_pos_of_ne_nil (Text.trimmed_word hmem).ne_nil
    have hreach := text.reach_le
    rw [Text.reach, ← hwords, List.map_append, List.sum_append, sum_words hspaced, List.map_cons,
      List.sum_cons] at hreach
    omega

theorem Counts.rest (h : Counts taken job todo) (hlast : ∀ c ∈ taken, c.last = false)
    : (∀ c ∈ taken, c.text.Spaced)
        ∧ Text.strip (taken.map Chunk.text).flatten ≠ job.text.strip := by
  rcases h.pieces with ⟨_, hnone⟩ | ⟨_, hmarked, hall, hstrip⟩
  . rw [hnone]
    exact ⟨by simp, h.words.symm⟩
  . refine ⟨fun c hc => (hall c (List.mem_append_left _ hc)).1, ?_⟩
    intro htaken
    obtain ⟨c, l, hsends⟩ := List.exists_cons_of_ne_nil (hmarked.ne_nil hlast)
    have hc := (hall c (by simp [hsends])).2
    rw [List.map_append, List.flatten_append, Text.strip_append, htaken, hsends] at hstrip
    simp [hc] at hstrip

theorem Counts.sent_le (h : Counts taken job todo) : job.sent ≤ job.total := by
  rw [h.sent, Job.counted]
  split
  . exact Nat.le_refl _
  . exact Nat.min_le_right _ _

/-- Where no chunk that was taken ends inside a word, the characters of the chunks are counted with
the separator after each, and the count is the total only when the last chunk was taken. -/
theorem Counts.truthful (h : Counts taken job todo) (hwhole : Whole taken job.text)
    (hlength : job.text.length < 2 ^ 32)
    : job.sent = (if taken.any Chunk.last then job.total else span taken)
        ∧ (job.sent = job.total → ∃ c ∈ taken, c.last = true) := by
  have hsent := h.sent
  have htotal := h.total
  rw [Nat.mod_eq_of_lt hlength] at htotal
  unfold Job.counted at hsent
  cases hany : taken.any Chunk.last with
  | true =>
    rw [hany] at hsent
    exact ⟨hsent, fun _ => List.any_eq_true.mp hany⟩
  | false =>
    rw [hany, if_neg Bool.false_ne_true] at hsent
    have hlast : ∀ c ∈ taken, c.last = false := by simpa using hany
    obtain ⟨hspaced, hrest⟩ := h.rest hlast
    have hlt := span_lt hspaced hwhole hrest
    rw [if_neg Bool.false_ne_true]
    constructor
    . omega
    . omega

def Event.accepts : Event → Bool
  | .sent .. => true
  | _ => false

theorem Move.sent_le {job' : Job} (hs : Shape s) (hI : Counted log s) (h : Move env now s evs s')
    (hquiet : ∀ e ∈ evs, e.accepts = false) (hact' : s'.activity = .sending job')
    : ∃ job, s.activity = .sending job ∧ job'.id = job.id ∧ job'.total = job.total
        ∧ job.sent ≤ job'.sent := by
  cases h with
  | send =>
    have := hquiet _ List.mem_cons_self
    cases this
  | planned _ _ _ hact | replanned _ _ _ _ hact =>
    cases hact'
    exact ⟨_, hact, rfl, rfl, Nat.le_refl _⟩
  | sent out hact =>
    have hle := (hI _ hact).sent_le
    cases hact'
    refine ⟨_, hact, rfl, rfl, ?_⟩
    simp only [Job.took]
    split <;> omega
  | snapPower p out | snapBreakIn k out | silenced out =>
    obtain ⟨_, _, _, out'⟩ := hs.of_sending hact'
    have := out' _ out
    contradiction
  | takeNotices | shutdown | keyed | issue | sameSpeed | sendAnswer | busy =>
    exact ⟨job', hact', rfl, rfl, Nat.le_refl _⟩
  | _ => first | cases hact' | exact absurd hact' (by simp_all [CwSupervisor.answered])

variable {capability : CwCapability} {config : CwConfig} {w w' : Timed} {log' : Log}

theorem Run.counted (h : Run env capability config log w) : Counted log w.sup := by
  apply Run.invariant (fun log _ s => Counted log s) _ _ _ h
  . intro job hact
    cases hact
  . intro _ _ _ _ hI _
    exact hI
  . intro _ _ _ _ _ hs hI hmove
    exact hmove.counted hs hI

theorem Calls.sent_le {job' : Job} (hs : Shape w.sup) (hI : Counted log w.sup)
    (h : Calls env w log' w') (hquiet : ∀ e ∈ log', e.event.accepts = false)
    (hact' : w'.sup.activity = .sending job')
    : ∃ job, w.sup.activity = .sending job ∧ job'.id = job.id ∧ job'.total = job.total
        ∧ job.sent ≤ job'.sent := by
  let Kept := fun (log' : Log) (s : CwSupervisor) => (∀ e ∈ log', e.event.accepts = false) →
    ∀ job', s.activity = .sending job' →
      ∃ job, w.sup.activity = .sending job ∧ job'.id = job.id ∧ job'.total = job.total
        ∧ job.sent ≤ job'.sent
  suffices Shape w'.sup ∧ Counted (log' ++ log) w'.sup ∧ Kept log' w'.sup from
    this.2.2 hquiet job' hact'
  apply Exec.invariant (fun log' u => Shape u.sup ∧ Counted (log' ++ log) u.sup ∧ Kept log' u.sup)
    _ _ (Calls.moves hs h)
  . exact ⟨hs, hI, fun _ job hact => ⟨job, hact, rfl, rfl, Nat.le_refl _⟩⟩
  . rintro log'' t evs u ⟨hs, hI, hkept⟩ hstep
    refine ⟨hstep.shape hs, ?_⟩
    cases hstep with
    | wait s le => exact ⟨hI, hkept⟩
    | @move _ _ now evs hmove =>
      rw [List.append_assoc]
      refine ⟨hmove.counted hs hI, ?_⟩
      intro hquiet job' hact'
      rw [List.forall_mem_append] at hquiet
      have hevs : ∀ e ∈ evs, e.accepts = false := by
        intro e he
        exact hquiet.1 ⟨now, e⟩ (by simpa using he)
      obtain ⟨job, hact, hid, htotal, hsent⟩ := hmove.sent_le hs hI hevs hact'
      obtain ⟨job₀, hact₀, hid₀, htotal₀, hsent₀⟩ := hkept hquiet.2 job hact
      exact ⟨job₀, hact₀, hid.trans hid₀, htotal.trans htotal₀, Nat.le_trans hsent₀ hsent⟩

/-- The progress of a job never goes back and never passes its total. As long as the radio has
taken whole words it is what the radio has taken, with the separator after each chunk, and it is
the total only when the last chunk was taken. -/
theorem progress_truthful {job : Job} (h : Run env capability config log w)
    (hact : w.sup.activity = .sending job)
    : w.sup.sender = .sending job.id job.sent job.total
        ∧ job.sent ≤ job.total
        ∧ (∀ log' w' job', Calls env w log' w' → (∀ e ∈ log', e.event.accepts = false) →
            w'.sup.activity = .sending job' →
              job'.id = job.id ∧ job'.total = job.total ∧ job.sent ≤ job'.sent)
        ∧ (Whole (takenChunks log) job.text → job.text.length < 2 ^ 32 →
            job.sent = (if (takenChunks log).any Chunk.last then job.total
              else span (takenChunks log))
            ∧ (job.sent = job.total → ∃ c ∈ takenChunks log, c.last = true)) := by
  have hcounts := h.counted job hact
  refine ⟨by rw [CwSupervisor.sender, hact], hcounts.sent_le, ?_, hcounts.truthful⟩
  intro log' w' job' hcalls hquiet hact'
  obtain ⟨job₀, hact₀, hkept⟩ := Calls.sent_le h.shape h.counted hcalls hquiet hact'
  rw [hact, Activity.sending.injEq] at hact₀
  rw [hact₀]
  exact hkept

def Bench.oneChunk : List (Duration × Call) :=
  kenwoodKeying ++ [(0, .complete .done)]

theorem progress_truthful_oneChunk
    : let run := Bench.run Bench.kenwood Bench.oneChunk
      ∃ job, run.2.sup.activity = .sending job ∧ Whole (takenChunks run.1) job.text
        ∧ job.sent = span (takenChunks run.1) ∧ job.sent = 3 := by
  intro run
  refine ⟨_, rfl, ⟨[['D', 'E'], ['N', '0', 'C', 'A', 'L', 'L']], rfl⟩, ?_, rfl⟩
  have hprogress := progress_truthful (Bench.isRun Bench.kenwood Bench.oneChunk) rfl
  exact (hprogress.2.2.2 ⟨[['D', 'E'], ['N', '0', 'C', 'A', 'L', 'L']], rfl⟩ (by decide)).1

/-- The separator after the first of two words is counted before the second is taken. -/
theorem progress_counts_separator
    : let run := Bench.run Bench.kenwood Bench.oneChunk
      Run Bench.env Bench.kenwood {} run.1 run.2
        ∧ run.2.sup.sender = .sending 1 3 12
        ∧ (List.intercalate [' '] ((takenChunks run.1).map Chunk.text)).length = 2 := by
  refine ⟨Bench.isRun _ _, ?_, ?_⟩
  . rfl
  . rfl

end

end Cw
