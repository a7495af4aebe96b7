import RadioCat.Cw.Impl.Api

/-!
This module contains what splitting a text into chunks keeps: every character that is not
whitespace, in order; and what it guarantees: no chunk is larger than it may be.
-/

namespace Cw

namespace Text

@[simp]
theorem strip_nil : strip [] = [] := by
  rfl

@[simp]
theorem strip_append (x y : Text) : strip (x ++ y) = strip x ++ strip y := by
  simp [strip]

@[simp]
theorem strip_space (x : Text) : strip (' ' :: x) = strip x := by
  rfl

@[simp]
theorem strip_strip (x : Text) : strip (strip x) = strip x := by
  simp [strip]

theorem strip_flatten (l : List Text) : strip l.flatten = (l.map strip).flatten := by
  rw [strip, List.filter_flatten]
  rfl

theorem flatten_splitOnP {p : Char → Bool} (text : Text)
    : (text.splitOnP p).flatten = text.filter (!p ·) := by
  induction text with
  | nil => rfl
  | cons c text ih =>
    obtain ⟨piece, pieces, hsplit⟩ := List.exists_cons_of_ne_nil (List.splitOnP_ne_nil p text)
    rw [List.splitOnP_cons_eq_if_modifyHead, List.filter_cons]
    cases hc : p c with
    | true => simpa using ih
    | false =>
      rw [hsplit] at ih ⊢
      simpa using ih

theorem flatten_splitWhitespace (text : Text) : text.splitWhitespace.flatten = text.strip := by
  have hfilter (l : List Text) : (l.filter (!·.isEmpty)).flatten = l.flatten := by
    induction l with
    | nil => rfl
    | cons x l ih => cases x <;> simp [ih]
  rw [splitWhitespace, hfilter, flatten_splitOnP]
  rfl

theorem mem_strip_of_mem_word {text w : Text} {c : Char} (hw : w ∈ text.splitWhitespace)
    (hc : c ∈ w)
    : c ∈ text.strip := by
  rw [← flatten_splitWhitespace]
  exact List.mem_flatten_of_mem hw hc

theorem toUpper_cases {P : Char → Char → Prop} (same : ∀ c : Char, c.toUpper = c → P c c)
    (letters : ∀ n < 26, P (Char.ofNat (97 + n)) (Char.ofNat (97 + n)).toUpper) (c : Char)
    : P c c.toUpper := by
  by_cases hlower : 'a'.val ≤ c.val ∧ c.val ≤ 'z'.val
  . have hlow : 97 ≤ c.toNat := hlower.1
    have hhigh : c.toNat ≤ 122 := hlower.2
    have hc : Char.ofNat (97 + (c.toNat - 97)) = c := by
      rw [Nat.add_sub_cancel' hlow, Char.ofNat_toNat]
    have hletter := letters (c.toNat - 97) (by omega)
    rwa [hc] at hletter
  . have hsame : c.toUpper = c := dif_neg hlower
    rw [hsame]
    exact same c hsame

theorem isWhitespace_toUpper (c : Char) : isWhitespace c.toUpper = isWhitespace c := by
  apply toUpper_cases (P := fun c d => isWhitespace d = isWhitespace c)
  . intro _ _
    rfl
  . decide

theorem toUpper_toUpper (c : Char) : c.toUpper.toUpper = c.toUpper := by
  apply toUpper_cases (P := fun _ d => d.toUpper = d)
  . intro _ h
    exact h
  . decide

theorem strip_toAsciiUppercase (text : Text)
    : strip text.toAsciiUppercase = (strip text).toAsciiUppercase := by
  have : (fun c => !isWhitespace c) ∘ Char.toUpper = (fun c => !isWhitespace c) := by
    funext c
    simp [isWhitespace_toUpper]
  simp only [strip, toAsciiUppercase, List.filter_map, this]

theorem strip_intercalate (l : List Text)
    : strip (List.intercalate [' '] l) = (l.map strip).flatten := by
  induction l with
  | nil => rfl
  | cons x l ih =>
    cases l with
    | nil => simp
    | cons y l =>
      rw [List.intercalate_cons_cons, strip_append, strip_append, ih, strip_space, strip_nil,
        List.append_nil]
      rfl

end Text

theorem strip_operatorText (text : Text)
    : (operatorText text).strip = text.toAsciiUppercase.strip := by
  have hwords : (text.splitWhitespace.map Text.toAsciiUppercase).flatten
      = text.strip.toAsciiUppercase := by
    rw [← Text.flatten_splitWhitespace, Text.toAsciiUppercase, List.map_flatten]
    rfl
  rw [operatorText, Text.strip_intercalate, ← Text.strip_flatten, hwords,
    Text.strip_toAsciiUppercase, Text.strip_strip, Text.strip_toAsciiUppercase]

theorem strip_idTextOf (callsign : Text) : (idTextOf callsign).strip ≠ [] := by
  simp [idTextOf, Text.strip, Text.isWhitespace]

section chunks

variable {env : Env} {fits : Text → Bool} {maxChars wpm : Nat} {maxDuration : Option Duration}

def placed (acc : List Text × Text) : Text :=
  Text.strip acc.1.flatten ++ acc.2.strip

theorem placed_char (acc : List Text × Text) (c : Char)
    : placed (chunks.char fits acc c) = placed acc ++ Text.strip [c] := by
  unfold chunks.char placed
  dsimp only
  split <;> simp

theorem placed_place (out : List Text) (w : Text)
    : placed (chunks.place fits out w) = Text.strip out.flatten ++ w.strip := by
  have hchars (acc : List Text × Text)
      : placed (w.foldl (chunks.char fits) acc) = placed acc ++ w.strip := by
    induction w generalizing acc with
    | nil => simp
    | cons c w ih =>
      rw [List.foldl_cons, ih, placed_char, List.append_assoc, ← Text.strip_append]
      rfl
  unfold chunks.place
  split
  . rfl
  . rw [hchars]
    simp [placed]

theorem placed_word (acc : List Text × Text) (w : Text)
    : placed (chunks.word fits acc w) = placed acc ++ w.strip := by
  unfold chunks.word
  split
  next hempty =>
    rw [placed_place]
    simp_all [placed]
  next =>
    dsimp only
    split
    . simp [placed]
    . rw [placed_place]
      simp [placed]

theorem strip_chunks (text : Text)
    : Text.strip (chunks env text maxChars maxDuration wpm).flatten = text.strip := by
  have hwords (fits : Text → Bool) (ws : List Text) (acc : List Text × Text)
      : placed (ws.foldl (chunks.word fits) acc) = placed acc ++ Text.strip ws.flatten := by
    induction ws generalizing acc with
    | nil => simp
    | cons w ws ih =>
      rw [List.foldl_cons, ih, placed_word]
      simp
  have hplaced := hwords (chunks.fits env maxChars maxDuration wpm) text.splitWhitespace ([], [])
  rw [Text.flatten_splitWhitespace, Text.strip_strip] at hplaced
  rw [← List.nil_append text.strip]
  refine Eq.trans ?_ hplaced
  unfold chunks placed
  dsimp only
  split
  next hempty => simp_all
  next => simp

def Filled (P : Text → Prop) (acc : List Text × Text) : Prop :=
  (∀ x ∈ acc.1, P x) ∧ (acc.2 = [] ∨ P acc.2)

structure Grows (fits : Text → Bool) (P : Text → Prop) (w : Text) : Prop where
  word : fits w = true → P w
  one : ∀ c ∈ w, P [c]
  char : ∀ c ∈ w, ∀ x, P x → fits (x ++ [c]) = true → P (x ++ [c])
  join : ∀ x, P x → fits (x ++ ' ' :: w) = true → P (x ++ ' ' :: w)

section Filled

variable {P : Text → Prop} {w : Text}

theorem Filled.char {acc : List Text × Text} {c : Char} (hw : Grows fits P w) (h : Filled P acc)
    (hc : c ∈ w) : Filled P (chunks.char fits acc c) := by
  unfold chunks.char
  dsimp only
  rcases h.2 with hempty | hlast
  . rw [hempty]
    exact ⟨h.1, Or.inr (hw.one c hc)⟩
  . split
    next hgrow =>
      refine ⟨h.1, Or.inr ?_⟩
      rw [Bool.or_eq_true, List.isEmpty_iff] at hgrow
      rcases hgrow with hempty | hgrow
      . rw [hempty]
        exact hw.one c hc
      . exact hw.char c hc _ hlast hgrow
    next =>
      refine ⟨?_, Or.inr (hw.one c hc)⟩
      rw [List.forall_mem_append]
      exact ⟨h.1, by simpa using hlast⟩

theorem Filled.place {out : List Text} (hw : Grows fits P w) (h : ∀ x ∈ out, P x)
    : Filled P (chunks.place fits out w) := by
  have hchars (cs : List Char) (hcs : ∀ c ∈ cs, c ∈ w) (acc : List Text × Text)
      (hacc : Filled P acc) : Filled P (cs.foldl (chunks.char fits) acc) := by
    induction cs generalizing acc with
    | nil => exact hacc
    | cons c cs ih =>
      rw [List.forall_mem_cons] at hcs
      exact ih hcs.2 _ (hacc.char hw hcs.1)
  unfold chunks.place
  split
  next hfits => exact ⟨h, Or.inr (hw.word hfits)⟩
  next => exact hchars w (fun _ => id) _ ⟨h, Or.inl rfl⟩

theorem Filled.word {acc : List Text × Text} (hw : Grows fits P w) (h : Filled P acc)
    : Filled P (chunks.word fits acc w) := by
  unfold chunks.word
  split
  next => exact Filled.place hw h.1
  next hne =>
    rw [List.isEmpty_iff] at hne
    have hlast := h.2.resolve_left hne
    dsimp only
    split
    next hjoined => exact ⟨h.1, Or.inr (hw.join _ hlast hjoined)⟩
    next =>
      apply Filled.place hw
      rw [List.forall_mem_append]
      exact ⟨h.1, by simpa using hlast⟩

end Filled

theorem of_mem_chunks {P : Text → Prop} {text x : Text}
    (hP : ∀ w ∈ text.splitWhitespace, Grows (chunks.fits env maxChars maxDuration wpm) P w)
    (hx : x ∈ chunks env text maxChars maxDuration wpm) : P x := by
  have hwords (ws : List Text) (hws : ∀ w ∈ ws, w ∈ text.splitWhitespace)
      (acc : List Text × Text) (hacc : Filled P acc)
      : Filled P (ws.foldl (chunks.word (chunks.fits env maxChars maxDuration wpm)) acc) := by
    induction ws generalizing acc with
    | nil => exact hacc
    | cons w ws ih =>
      rw [List.forall_mem_cons] at hws
      exact ih hws.2 _ (hacc.word (hP w hws.1))
  have hall := hwords text.splitWhitespace (fun _ => id) ([], []) ⟨by simp, Or.inl rfl⟩
  unfold chunks at hx
  dsimp only at hx
  split at hx
  next => exact hall.1 x hx
  next hne =>
    rw [List.mem_append, List.mem_singleton] at hx
    rw [List.isEmpty_iff] at hne
    rcases hx with hx | rfl
    . exact hall.1 x hx
    . exact hall.2.resolve_left hne

theorem fits_of_mem_chunks {text x : Text} (hx : x ∈ chunks env text maxChars maxDuration wpm)
    : chunks.fits env maxChars maxDuration wpm x = true ∨ x.length = 1 := by
  apply of_mem_chunks
    (P := fun x => chunks.fits env maxChars maxDuration wpm x = true ∨ x.length = 1) _ hx
  intro w _
  constructor
  . exact Or.inl
  . exact fun _ _ => Or.inr rfl
  . exact fun _ _ _ _ => Or.inl
  . exact fun _ _ => Or.inl

theorem char_of_mem_chunks {text x : Text} {c : Char}
    (hx : x ∈ chunks env text maxChars maxDuration wpm) (hc : c ∈ x)
    : c = ' ' ∨ c ∈ text := by
  apply of_mem_chunks (P := fun x => ∀ c ∈ x, c = ' ' ∨ c ∈ text) _ hx c hc
  intro w hw
  have hchar (c : Char) (hc : c ∈ w) : c ∈ text :=
    List.mem_of_mem_filter (Text.mem_strip_of_mem_word hw hc)
  constructor
  . intro _ c hc
    exact Or.inr (hchar c hc)
  . intro c hc d hd
    rw [List.mem_singleton.mp hd]
    exact Or.inr (hchar c hc)
  . intro c hc x hx _
    rw [List.forall_mem_append, List.forall_mem_singleton]
    exact ⟨hx, Or.inr (hchar c hc)⟩
  . intro x hx _
    rw [List.forall_mem_append, List.forall_mem_cons]
    exact ⟨hx, Or.inl rfl, fun c hc => Or.inr (hchar c hc)⟩

theorem strip_ne_nil_of_mem_chunks {text x : Text}
    (hx : x ∈ chunks env text maxChars maxDuration wpm) : x.strip ≠ [] := by
  apply of_mem_chunks (P := fun x => x.strip ≠ []) _ hx
  intro w hw
  have hone (c : Char) (hc : c ∈ w) : Text.strip [c] ≠ [] := by
    have hspace := List.of_mem_filter (Text.mem_strip_of_mem_word hw hc)
    simp only [Text.strip, List.filter_cons, hspace, if_true]
    simp
  constructor
  . intro _ hstrip
    cases w with
    | nil => simp [Text.splitWhitespace] at hw
    | cons c w =>
      rw [show c :: w = [c] ++ w from rfl, Text.strip_append, List.append_eq_nil_iff] at hstrip
      exact hone c List.mem_cons_self hstrip.1
  . exact hone
  . intro c hc x hx _
    simp [Text.strip_append, hx]
  . intro x hx _
    simp [Text.strip_append, hx]

/-- The text starts and ends with a character that is not whitespace. -/
structure Text.Trimmed (x : Text) : Prop where
  head : ∃ c, x.head? = some c ∧ Text.isWhitespace c = false
  last : ∃ c, x.getLast? = some c ∧ Text.isWhitespace c = false

theorem Text.Trimmed.ne_nil {x : Text} (h : x.Trimmed) : x ≠ [] := by
  rcases h.head with ⟨c, hc, _⟩
  intro hnil
  rw [hnil] at hc
  cases hc

theorem Text.trimmed_word {text w : Text} (hw : w ∈ text.splitWhitespace) : w.Trimmed := by
  have hne : w ≠ [] := by
    intro hnil
    rw [hnil] at hw
    simp [Text.splitWhitespace] at hw
  have hchar (c : Char) (hc : c ∈ w) : Text.isWhitespace c = false := by
    simpa using List.of_mem_filter (Text.mem_strip_of_mem_word hw hc)
  constructor
  . exact ⟨w.head hne, List.head?_eq_some_head hne, hchar _ (List.head_mem hne)⟩
  . exact ⟨w.getLast hne, List.getLast?_eq_some_getLast hne, hchar _ (List.getLast_mem hne)⟩

theorem Text.Trimmed.append {x y : Text} (hx : x.Trimmed) (hy : y.Trimmed) (sep : Text)
    : Text.Trimmed (x ++ (sep ++ y)) := by
  rcases hx.head with ⟨c, hc, hspace⟩
  rcases hy.last with ⟨d, hd, hspace'⟩
  constructor
  . exact ⟨c, by rw [List.head?_append, hc, Option.some_or], hspace⟩
  . refine ⟨d, ?_, hspace'⟩
    rw [List.getLast?_append, List.getLast?_append, hd, Option.some_or, Option.some_or]

theorem trimmed_of_mem_chunks {text x : Text}
    (hx : x ∈ chunks env text maxChars maxDuration wpm) : x.Trimmed := by
  apply of_mem_chunks (P := Text.Trimmed) _ hx
  intro w hw
  have hone (c : Char) (hc : c ∈ w) : Text.Trimmed [c] := by
    have hspace : Text.isWhitespace c = false := by
      simpa using List.of_mem_filter (Text.mem_strip_of_mem_word hw hc)
    exact ⟨⟨c, rfl, hspace⟩, ⟨c, rfl, hspace⟩⟩
  constructor
  . intro _
    exact Text.trimmed_word hw
  . exact hone
  . intro c hc x hx _
    exact hx.append (hone c hc) []
  . intro x hx _
    exact hx.append (Text.trimmed_word hw) [' ']

/-- No piece is empty or begins or ends in whitespace, none is larger than it may be unless it is
a single character, and together they spell the text. -/
theorem chunks_pieces (env : Env) (text : Text) (maxChars : Nat) (hmax : 1 ≤ maxChars)
    (maxDuration : Option Duration) (wpm : Nat)
    : (∀ x ∈ chunks env text maxChars maxDuration wpm,
        x ≠ []
        ∧ (∃ c, x.head? = some c ∧ Text.isWhitespace c = false)
        ∧ (∃ c, x.getLast? = some c ∧ Text.isWhitespace c = false)
        ∧ (x.length ≤ maxChars ∧ (∀ d, maxDuration = some d → env.estimate x wpm ≤ d)
            ∨ x.length = 1))
      ∧ Text.strip (chunks env text maxChars maxDuration wpm).flatten = text.strip := by
  refine ⟨?_, strip_chunks text⟩
  intro x hx
  have htrimmed := trimmed_of_mem_chunks hx
  refine ⟨htrimmed.ne_nil, htrimmed.head, htrimmed.last, ?_⟩
  rcases fits_of_mem_chunks hx with hfits | hone
  . apply Or.inl
    rw [chunks.fits, Bool.and_eq_true, decide_eq_true_eq] at hfits
    constructor
    . exact Nat.le_trans hfits.1 (Nat.max_le.mpr ⟨Nat.le_refl _, hmax⟩)
    . intro d hd
      rw [hd] at hfits
      exact of_decide_eq_true hfits.2
  . exact Or.inr hone

/-- With a second for each character and a bound of three, a word of five is cut. -/
theorem chunks_pieces_cut
    : let env : Env :=
        { estimate := fun x _ => x.length
          secs := fun _ => ""
          debugChar := fun _ => ""
          debugText := fun _ => ""
          debugDuration := fun _ => "" }
      let pieces := chunks env ['C', 'Q', ' ', 'P', 'A', 'R', 'I', 'S', ' ', 'K'] 4 (some 3) 20
      pieces = [['C', 'Q'], ['P', 'A', 'R'], ['I', 'S'], ['K']]
        ∧ (∀ x ∈ pieces, x ≠ [])
        ∧ Text.strip pieces.flatten = ['C', 'Q', 'P', 'A', 'R', 'I', 'S', 'K'] := by
  intro env pieces
  have hpieces := chunks_pieces env ['C', 'Q', ' ', 'P', 'A', 'R', 'I', 'S', ' ', 'K'] 4
    (by decide) (some 3) 20
  refine ⟨by decide, ?_, hpieces.2⟩
  intro x hx
  exact (hpieces.1 x hx).1

end chunks

end Cw
