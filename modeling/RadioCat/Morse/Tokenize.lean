import Mathlib.Data.List.Chain
import Mathlib.Data.List.Induction
import RadioCat.Morse.Codec

/-!
This module contains what the two tokenizers make of a text. A text is read as a list of items, a
token or a stretch of white space each, and both tokenizers put out what its items amount to.
-/

namespace Morse

open Cw (Text)
open Cw.Text (isWhitespace)

/-- The token that an item stands for, or none for a character of white space. -/
abbrev Item := Option Token

def Output.put (o : Output) : Item → Output
  | none => o.space
  | some token => o.push token

/-- The reading of a text that is accepted. -/
inductive Reads : Text → List Item → Prop where
  | nil : Reads [] []
  | space {ch : Char} {rest : Text} {items : List Item} (hspace : isWhitespace ch = true)
      (h : Reads rest items) : Reads (ch :: rest) (none :: items)
  | char {ch : Char} {rest : Text} {items : List Item} (htable : ch.toUpper ∈ tableChars)
      (h : Reads rest items) : Reads (ch :: rest) (some (.char ch.toUpper) :: items)
  | prosign {name rest : Text} {p : Prosign} {items : List Item} (hname : '>' ∉ name)
      (hp : Prosign.fromName name = some p) (h : Reads rest items)
      : Reads ('<' :: (name ++ '>' :: rest)) (some (.prosign p) :: items)

theorem not_special_of_mem_tableChars {c : Char} (h : c ∈ tableChars)
    : isWhitespace c = false ∧ c ≠ '<' := by
  have hall : tableChars.all (fun c => !isWhitespace c && c != '<') = true := by decide
  simpa using List.all_eq_true.mp hall c h

theorem not_special_of_toUpper_mem {c : Char} (h : c.toUpper ∈ tableChars)
    : isWhitespace c = false ∧ c ≠ '<' := by
  have hupper := not_special_of_mem_tableChars h
  rw [Cw.Text.isWhitespace_toUpper] at hupper
  refine ⟨hupper.1, ?_⟩
  rintro rfl
  exact hupper.2 rfl

theorem prosignFrom_of_fromName {o : Output} {name more rest : Text} {p : Prosign}
    {tokens : List Token} (hmore : '>' ∉ more) (hp : Prosign.fromName (name ++ more) = some p)
    (h : ∀ offset, tokenizeFrom (o.push (.prosign p)) offset rest = .ok tokens) (start offset : Nat)
    : prosignFrom o start offset name (more ++ '>' :: rest) = .ok tokens := by
  induction more generalizing offset name with
  | nil =>
    rw [List.append_nil] at hp
    simp only [List.nil_append, prosignFrom, if_true, hp]
    exact h _
  | cons c more ih =>
    rw [List.mem_cons, not_or] at hmore
    rw [List.cons_append, prosignFrom, if_neg (Ne.symm hmore.1)]
    apply ih hmore.2
    rw [List.append_assoc]
    exact hp

theorem exists_of_prosignFrom {o : Output} {start offset : Nat} {name text : Text}
    {tokens : List Token} (h : prosignFrom o start offset name text = .ok tokens)
    : ∃ more rest p offset', text = more ++ '>' :: rest ∧ '>' ∉ more ∧
        Prosign.fromName (name ++ more) = some p ∧
        tokenizeFrom (o.push (.prosign p)) offset' rest = .ok tokens := by
  induction text generalizing offset name with
  | nil => cases h
  | cons c text ih =>
    rw [prosignFrom] at h
    split at h
    next hc =>
      subst hc
      split at h
      next p hp =>
        refine ⟨[], text, p, _, rfl, List.not_mem_nil, ?_, h⟩
        rw [List.append_nil]
        exact hp
      next => cases h
    next hc =>
      obtain ⟨more, rest, p, offset', htext, hmore, hp, htokens⟩ := ih h
      refine ⟨c :: more, rest, p, offset', ?_, ?_, ?_, htokens⟩
      . rw [htext, List.cons_append]
      . rw [List.mem_cons, not_or]
        exact ⟨Ne.symm hc, hmore⟩
      . rw [List.append_cons]
        exact hp

theorem Reads.tokenizeFrom {text : Text} {items : List Item} (h : Reads text items) (o : Output)
    (offset : Nat) : tokenizeFrom o offset text = .ok (items.foldl Output.put o).out := by
  induction h generalizing o offset with
  | nil => rfl
  | space hspace h ih =>
    rw [Morse.tokenizeFrom, if_pos hspace]
    exact ih _ _
  | char htable h ih =>
    have hspecial := not_special_of_toUpper_mem htable
    rw [Morse.tokenizeFrom, hspecial.1, if_neg Bool.false_ne_true, if_neg hspecial.2, if_pos htable]
    exact ih _ _
  | prosign hname hp h ih =>
    rw [Morse.tokenizeFrom, if_neg (by decide), if_pos rfl]
    apply prosignFrom_of_fromName hname (by rw [List.nil_append, hp])
    intro offset
    exact ih _ _

theorem exists_reads_of_tokenizeFrom {o : Output} {offset : Nat} {text : Text}
    {tokens : List Token} (h : tokenizeFrom o offset text = .ok tokens)
    : ∃ items, Reads text items := by
  -- The inner loop takes more than one character, so the induction is on the length.
  induction hlength : text.length using Nat.strong_induction_on generalizing o offset text with
  | h n ih =>
    cases text with
    | nil => exact ⟨[], .nil⟩
    | cons ch rest =>
      rw [tokenizeFrom] at h
      split at h
      next hspace =>
        obtain ⟨items, hitems⟩ := ih _ (by rw [← hlength]; exact Nat.lt_succ_self _) h rfl
        exact ⟨_, .space hspace hitems⟩
      next =>
        split at h
        next hch =>
          subst hch
          obtain ⟨more, rest', p, offset', hrest, hmore, hp, htokens⟩ := exists_of_prosignFrom h
          subst hrest
          obtain ⟨items, hitems⟩ := ih _ (by simp [← hlength]; omega) htokens rfl
          exact ⟨_, .prosign hmore hp hitems⟩
        next =>
          split at h
          next htable =>
            obtain ⟨items, hitems⟩ := ih _ (by rw [← hlength]; exact Nat.lt_succ_self _) h rfl
            exact ⟨_, .char htable hitems⟩
          next => cases h

theorem tokenize_eq_ok_iff {text : Text} {tokens : List Token}
    : tokenize text = .ok tokens ↔
        ∃ items, Reads text items ∧ (items.foldl Output.put .empty).out = tokens := by
  constructor
  . intro h
    obtain ⟨items, hitems⟩ := exists_reads_of_tokenizeFrom h
    refine ⟨items, hitems, ?_⟩
    rw [tokenize, hitems.tokenizeFrom] at h
    exact Except.ok.inj h
  . rintro ⟨items, hitems, rfl⟩
    exact hitems.tokenizeFrom _ _

theorem tokenizeCopyFrom_skip (o : Output) (n : Nat) (text : Text)
    : tokenizeCopyFrom o n text = tokenizeCopyFrom o 0 (text.drop n) := by
  induction n generalizing text with
  | zero => rfl
  | succ n ih =>
    cases text with
    | nil => rfl
    | cons ch rest =>
      rw [tokenizeCopyFrom, List.drop_succ_cons]
      exact ih rest

theorem prosignAhead_of_fromName {name rest : Text} {p : Prosign} (hname : '>' ∉ name)
    (hp : Prosign.fromName name = some p)
    : prosignAhead '<' (name ++ '>' :: rest) = some (p, name.length) := by
  have hclose : (name ++ '>' :: rest).findIdx? (· = '>') = some name.length := by
    rw [List.findIdx?_append, List.findIdx?_eq_none_iff.mpr]
    . simp [List.findIdx?_cons]
    . rintro c hc
      rw [decide_eq_false_iff_not]
      rintro rfl
      exact hname hc
  rw [prosignAhead, guard, if_pos rfl, hclose]
  simp [hp]

theorem Reads.tokenizeCopyFrom {text : Text} {items : List Item} (h : Reads text items) (o : Output)
    : tokenizeCopyFrom o 0 text = (items.foldl Output.put o).out := by
  induction h generalizing o with
  | nil => rfl
  | space hspace h ih =>
    rw [Morse.tokenizeCopyFrom, if_pos hspace]
    exact ih _
  | @char ch rest items htable h ih =>
    have hspecial := not_special_of_toUpper_mem htable
    have hahead : prosignAhead ch rest = none := by
      rw [prosignAhead, guard, if_neg hspecial.2]
      rfl
    rw [Morse.tokenizeCopyFrom, hspecial.1, if_neg Bool.false_ne_true, hahead]
    exact ih _
  | @prosign name rest p items hname hp h ih =>
    rw [Morse.tokenizeCopyFrom, if_neg (by decide), prosignAhead_of_fromName hname hp]
    simp only
    rw [tokenizeCopyFrom_skip, List.append_cons, List.drop_left' (by simp)]
    exact ih _

/-! Word spaces stand between tokens only. -/

structure WellSpaced (tokens : List Token) : Prop where
  head : tokens.head? ≠ some .wordSpace
  last : tokens.getLast? ≠ some .wordSpace
  single : tokens.IsChain fun token token' => ¬ (token = .wordSpace ∧ token' = .wordSpace)

/-- A space is pending after a token only. -/
structure Output.Spaced (o : Output) : Prop where
  out : WellSpaced o.out
  pending : o.pendingSpace = true → o.out ≠ []

theorem Output.spaced_empty : Output.Spaced .empty := by
  exact ⟨⟨nofun, nofun, List.isChain_nil⟩, nofun⟩

theorem Output.Spaced.space {o : Output} (h : o.Spaced) : o.space.Spaced := by
  refine ⟨h.out, ?_⟩
  intro hpending hnil
  simp [Output.space, show o.out = [] from hnil] at hpending

theorem WellSpaced.push {tokens : List Token} (h : WellSpaced tokens) {token : Token}
    (htoken : token ≠ .wordSpace) : WellSpaced (tokens ++ [token]) := by
  refine ⟨?_, ?_, ?_⟩
  . cases tokens with
    | nil => simpa using htoken
    | cons first tokens => exact h.head
  . simpa using htoken
  . rw [List.isChain_append]
    refine ⟨h.single, List.isChain_singleton _, ?_⟩
    intro last _ first hfirst
    cases hfirst
    exact fun hspaces => htoken hspaces.2

theorem WellSpaced.push_space {tokens : List Token} (h : WellSpaced tokens) (hne : tokens ≠ [])
    {token : Token} (htoken : token ≠ .wordSpace)
    : WellSpaced (tokens ++ [.wordSpace] ++ [token]) := by
  refine ⟨?_, ?_, ?_⟩
  . cases tokens with
    | nil => exact absurd rfl hne
    | cons first tokens => exact h.head
  . simpa using htoken
  . rw [List.append_assoc, List.isChain_append]
    refine ⟨h.single, ?_, ?_⟩
    . simpa using htoken
    . intro last hlast first hfirst
      rintro ⟨rfl, -⟩
      exact h.last hlast

theorem Output.Spaced.push {o : Output} (h : o.Spaced) {token : Token}
    (htoken : token ≠ .wordSpace) : (o.push token).Spaced := by
  refine ⟨?_, nofun⟩
  unfold Output.push
  cases hpending : o.pendingSpace with
  | false => exact h.out.push htoken
  | true => exact h.out.push_space (h.pending hpending) htoken

theorem wellSpaced_tokenizeCopyFrom {o : Output} {n : Nat} {text : Text} (h : o.Spaced)
    : WellSpaced (tokenizeCopyFrom o n text) := by
  fun_induction tokenizeCopyFrom o n text
  case case1 => exact h.out
  case case2 ih => exact ih h
  case case3 ih => exact ih h.space
  case case4 ih => exact ih (h.push nofun)
  case case5 ih => exact ih (h.push nofun)

theorem wellSpaced_tokenizeCopy (text : Text) : WellSpaced (tokenizeCopy text) := by
  exact wellSpaced_tokenizeCopyFrom Output.spaced_empty

/-! What is put out can be read again. -/

/-- The tokens that a text can be read as. -/
def Token.Sendable : Token → Prop
  | .char c => c ∈ tableChars
  | .prosign _ => True
  | .wordSpace => True

def Token.item : Token → Item
  | .wordSpace => none
  | token => some token

theorem toUpper_of_mem_tableChars {c : Char} (h : c ∈ tableChars) : c.toUpper = c := by
  have hall : tableChars.all (fun c => c.toUpper == c) = true := by decide
  simpa using List.all_eq_true.mp hall c h

theorem reads_tokensToText {tokens : List Token} (h : ∀ token ∈ tokens, token.Sendable)
    : Reads (tokensToText tokens) (tokens.map Token.item) := by
  induction tokens with
  | nil => exact .nil
  | cons token tokens ih =>
    rw [List.forall_mem_cons] at h
    have hrest := ih h.2
    cases token with
    | char c =>
      have hupper := toUpper_of_mem_tableChars h.1
      have hchar := Reads.char (by rw [hupper]; exact h.1) hrest
      rw [hupper] at hchar
      exact hchar
    | prosign p =>
      have hname : '>' ∉ p.name := by
        cases p <;> decide
      have hp : Prosign.fromName p.name = some p := by
        cases p <;> decide
      simpa [tokensToText, Token.toText, Token.item] using Reads.prosign hname hp hrest
    | wordSpace => exact .space (by decide) hrest

/-- What comes out of tokens whose spaces are single and not in front: all but a space at the
end, which stays pending. -/
theorem foldl_put_item (tokens : List Token) (hhead : tokens.head? ≠ some .wordSpace)
    (hsingle : tokens.IsChain fun token token' => ¬ (token = .wordSpace ∧ token' = .wordSpace))
    : (tokens.map Token.item).foldl Output.put .empty =
        if tokens.getLast? = some .wordSpace then ⟨tokens.dropLast, true⟩ else ⟨tokens, false⟩ := by
  induction tokens using List.reverseRecOn with
  | nil => rfl
  | append_singleton tokens token ih =>
    rw [List.isChain_append] at hsingle
    have hbefore : tokens.head? ≠ some .wordSpace := by
      cases tokens with
      | nil => nofun
      | cons first tokens => exact hhead
    rw [List.map_append, List.foldl_append, ih hbefore hsingle.1, List.getLast?_concat,
      List.dropLast_concat]
    by_cases htoken : token = .wordSpace
    . subst htoken
      have hlast : tokens.getLast? ≠ some .wordSpace := by
        intro hlast
        exact hsingle.2.2 _ hlast _ rfl ⟨rfl, rfl⟩
      have hne : tokens ≠ [] := by
        rintro rfl
        exact hhead rfl
      rw [if_neg hlast, if_pos rfl]
      simp [Token.item, Output.put, Output.space, hne]
    . have hitem : token.item = some token := by
        cases token with
        | wordSpace => exact absurd rfl htoken
        | _ => rfl
      have hnot : ¬ some token = some .wordSpace := by
        simpa using htoken
      rw [if_neg hnot, List.map_singleton, hitem]
      split
      next hlast =>
        change Output.mk (tokens.dropLast ++ [.wordSpace] ++ [token]) false = _
        rw [List.dropLast_append_getLast? _ hlast]
      next => rfl

theorem WellSpaced.foldl_put {tokens : List Token} (h : WellSpaced tokens)
    : ((tokens.map Token.item).foldl Output.put .empty).out = tokens := by
  rw [foldl_put_item tokens h.head h.single, if_neg h.last]

theorem Reads.sendable {text : Text} {items : List Item} (h : Reads text items)
    : ∀ token, some token ∈ items → token.Sendable := by
  induction h with
  | nil => nofun
  | space hspace h ih =>
    intro token htoken
    rcases List.mem_cons.mp htoken with hnone | hmem
    . cases hnone
    . exact ih token hmem
  | char htable h ih =>
    intro token htoken
    rcases List.mem_cons.mp htoken with hchar | hmem
    . cases hchar
      exact htable
    . exact ih token hmem
  | prosign hname hp h ih =>
    intro token htoken
    rcases List.mem_cons.mp htoken with hprosign | hmem
    . cases hprosign
      exact trivial
    . exact ih token hmem

theorem sendable_foldl_put {items : List Item} {o : Output}
    (hitems : ∀ token, some token ∈ items → token.Sendable)
    (ho : ∀ token ∈ o.out, token.Sendable)
    : ∀ token ∈ (items.foldl Output.put o).out, token.Sendable := by
  induction items generalizing o with
  | nil => exact ho
  | cons item items ih =>
    apply ih
    . intro token htoken
      exact hitems token (List.mem_cons_of_mem item htoken)
    . cases item with
      | none => exact ho
      | some token =>
        have htoken := hitems token List.mem_cons_self
        intro token' htoken'
        simp only [Output.put, Output.push, List.mem_append, List.mem_singleton] at htoken'
        rcases htoken' with hout | rfl
        . split at hout
          next =>
            rcases List.mem_append.mp hout with hout | hspace
            . exact ho token' hout
            . rw [List.mem_singleton.mp hspace]
              exact trivial
          next => exact ho token' hout
        . exact htoken

/-! The letters may be of either case. -/

/-- The texts differ in the case of ASCII letters only. -/
def SameLetters (text text' : Text) : Prop :=
  text.map Char.toUpper = text'.map Char.toUpper

theorem toLower_of_toUpper_eq {c c' : Char} (h : c.toUpper = c'.toUpper)
    : c.toLower = c'.toLower := by
  have hlower : ∀ c : Char, c.toUpper.toLower = c.toLower := by
    intro c
    apply Cw.Text.toUpper_cases (P := fun c d => d.toLower = c.toLower)
    . intro _ _
      rfl
    . decide
  rw [← hlower c, h, hlower c']

theorem fromName_of_sameLetters {name name' : Text} (h : SameLetters name name')
    : Prosign.fromName name = Prosign.fromName name' := by
  have hlower : name.map Char.toLower = name'.map Char.toLower := by
    rw [SameLetters, ← List.forall₂_eq_eq_eq, List.forall₂_map_left_iff,
      List.forall₂_map_right_iff] at h
    rw [← List.forall₂_eq_eq_eq, List.forall₂_map_left_iff, List.forall₂_map_right_iff]
    exact h.imp fun c c' => toLower_of_toUpper_eq
  rw [Prosign.fromName, hlower, Prosign.fromName]

theorem eq_of_toUpper_eq {c d : Char} (hd : ∀ n < 26, (Char.ofNat (97 + n)).toUpper ≠ d)
    (h : c.toUpper = d) : c = d := by
  revert h
  apply Cw.Text.toUpper_cases (P := fun c u => u = d → c = d)
  . intro c _ hc
    exact hc
  . intro n hn hc
    exact absurd hc (hd n hn)

theorem Reads.of_sameLetters {text text' : Text} {items : List Item} (h : Reads text items)
    (hsame : SameLetters text text') : Reads text' items := by
  induction h generalizing text' with
  | nil =>
    rw [List.map_eq_nil_iff.mp hsame.symm]
    exact .nil
  | @space ch rest items hspace h ih =>
    obtain ⟨ch', rest', rfl, hch, hrest⟩ := List.map_eq_cons_iff.mp hsame.symm
    refine .space ?_ (ih hrest.symm)
    rw [← Cw.Text.isWhitespace_toUpper, hch, Cw.Text.isWhitespace_toUpper]
    exact hspace
  | @char ch rest items htable h ih =>
    obtain ⟨ch', rest', rfl, hch, hrest⟩ := List.map_eq_cons_iff.mp hsame.symm
    rw [← hch]
    refine .char ?_ (ih hrest.symm)
    rw [hch]
    exact htable
  | @prosign name rest p items hname hp h ih =>
    obtain ⟨ch', tail', rfl, hch, htail⟩ := List.map_eq_cons_iff.mp hsame.symm
    rw [List.map_append, List.map_cons] at htail
    obtain ⟨name', tail'', rfl, hname', htail'⟩ := List.map_eq_append_iff.mp htail
    obtain ⟨close, rest', rfl, hclose, hrest⟩ := List.map_eq_cons_iff.mp htail'
    obtain rfl : ch' = '<' := eq_of_toUpper_eq (by decide) hch
    obtain rfl : close = '>' := eq_of_toUpper_eq (by decide) hclose
    refine .prosign ?_ ?_ (ih hrest.symm)
    . intro hmem
      have hupper := List.mem_map_of_mem (f := Char.toUpper) hmem
      rw [hname'] at hupper
      obtain ⟨c, hc, hcupper⟩ := List.mem_map.mp hupper
      rw [eq_of_toUpper_eq (by decide) hcupper] at hc
      exact hname hc
    . rw [← hp]
      exact fromName_of_sameLetters hname'

/-! A run of white space may be any other. -/

def IsRun (ws : Text) : Prop :=
  ws ≠ [] ∧ ∀ c ∈ ws, isWhitespace c = true

instance (ws : Text) : Decidable (IsRun ws) :=
  decidable_of_iff ((!ws.isEmpty && ws.all isWhitespace) = true) (by simp [IsRun])

/-- The second text has other runs of white space in the place of those that the first one has
outside of brackets. -/
inductive Respaced : Text → Text → Prop where
  | nil : Respaced [] []
  | run {ws ws' rest rest' : Text} (hws : IsRun ws) (hws' : IsRun ws') (h : Respaced rest rest')
      : Respaced (ws ++ rest) (ws' ++ rest')
  | bracket {name rest rest' : Text} (hname : '>' ∉ name) (h : Respaced rest rest')
      : Respaced ('<' :: (name ++ '>' :: rest)) ('<' :: (name ++ '>' :: rest'))
  | char {ch : Char} {rest rest' : Text} (hspace : isWhitespace ch = false) (hch : ch ≠ '<')
      (h : Respaced rest rest') : Respaced (ch :: rest) (ch :: rest')

theorem Reads.of_space {c : Char} {rest : Text} {items : List Item} (h : Reads (c :: rest) items)
    (hc : isWhitespace c = true) : ∃ items', items = none :: items' ∧ Reads rest items' := by
  cases h with
  | space hspace h => exact ⟨_, rfl, h⟩
  | char htable h =>
    rw [(not_special_of_toUpper_mem htable).1] at hc
    cases hc
  | prosign => exact absurd hc (by decide)

theorem reads_run {ws rest : Text} {items : List Item} (hws : ∀ c ∈ ws, isWhitespace c = true)
    : Reads (ws ++ rest) items ↔
        ∃ items', items = List.replicate ws.length none ++ items' ∧ Reads rest items' := by
  induction ws generalizing items with
  | nil => simp
  | cons c ws ih =>
    rw [List.forall_mem_cons] at hws
    constructor
    . intro h
      obtain ⟨items, rfl, htail⟩ := h.of_space hws.1
      obtain ⟨items', rfl, hrest⟩ := (ih hws.2).mp htail
      exact ⟨items', rfl, hrest⟩
    . rintro ⟨items', rfl, hrest⟩
      exact .space hws.1 ((ih hws.2).mpr ⟨items', rfl, hrest⟩)

theorem Output.foldl_put_run (o : Output) {n : Nat} (hn : n ≠ 0)
    : (List.replicate n none).foldl Output.put o = o.space := by
  induction n with
  | zero => exact absurd rfl hn
  | succ n ih =>
    cases n with
    | zero => rfl
    | succ n =>
      rw [List.replicate_succ', List.foldl_append, ih (Nat.succ_ne_zero n)]
      rfl

theorem append_close_inj {name name' rest rest' : Text} (hname : '>' ∉ name) (hname' : '>' ∉ name')
    (h : name ++ '>' :: rest = name' ++ '>' :: rest') : name = name' ∧ rest = rest' := by
  have htake : ∀ {name rest : Text}, '>' ∉ name →
      (name ++ '>' :: rest).takeWhile (· ≠ '>') = name := by
    intro name rest hname
    rw [List.takeWhile_append_of_pos]
    . simp
    . intro c hc
      rw [decide_eq_true_iff]
      rintro rfl
      exact hname hc
  have heq : name = name' := by
    rw [← htake hname, h, htake hname']
  subst heq
  exact ⟨rfl, (List.cons.inj (List.append_cancel_left h)).2⟩

theorem reads_bracket {name rest : Text} {items : List Item} (hname : '>' ∉ name)
    (h : Reads ('<' :: (name ++ '>' :: rest)) items)
    : ∃ p items', items = some (.prosign p) :: items' ∧ Prosign.fromName name = some p ∧
        Reads rest items' := by
  generalize htext : '<' :: (name ++ '>' :: rest) = text at h
  cases h with
  | nil => cases htext
  | space hspace h =>
    rw [← (List.cons.inj htext).1] at hspace
    exact absurd hspace (by decide)
  | char htable h =>
    rw [← (List.cons.inj htext).1] at htable
    exact absurd rfl (not_special_of_toUpper_mem htable).2
  | prosign hname' hp h =>
    obtain ⟨rfl, rfl⟩ := append_close_inj hname hname' (List.cons.inj htext).2
    exact ⟨_, _, rfl, hp, h⟩

theorem Respaced.exists_reads {text text' : Text} {items : List Item}
    (hrespaced : Respaced text text') (h : Reads text items)
    : ∃ items', Reads text' items' ∧
        ∀ o, items'.foldl Output.put o = items.foldl Output.put o := by
  induction hrespaced generalizing items with
  | nil => exact ⟨items, h, fun o => rfl⟩
  | run hws hws' _ ih =>
    obtain ⟨items, rfl, hrest⟩ := (reads_run hws.2).mp h
    obtain ⟨items', hrest', hput⟩ := ih hrest
    refine ⟨_, (reads_run hws'.2).mpr ⟨items', rfl, hrest'⟩, ?_⟩
    intro o
    rw [List.foldl_append, List.foldl_append, o.foldl_put_run (by simpa using hws'.1),
      o.foldl_put_run (by simpa using hws.1), hput]
  | bracket hname _ ih =>
    obtain ⟨p, items, rfl, hp, hrest⟩ := reads_bracket hname h
    obtain ⟨items', hrest', hput⟩ := ih hrest
    exact ⟨_, .prosign hname hp hrest', fun o => hput _⟩
  | char hspace hch _ ih =>
    cases h with
    | space hspace' h =>
      rw [hspace] at hspace'
      cases hspace'
    | char htable h =>
      obtain ⟨items', hrest', hput⟩ := ih h
      exact ⟨_, .char htable hrest', fun o => hput _⟩
    | prosign => exact absurd rfl hch

theorem tokenize_normalises
    : (∀ text tokens, tokenize text = .ok tokens →
        tokenize (tokensToText tokens) = .ok tokens ∧ WellSpaced tokens ∧
        (∀ text', SameLetters text text' → tokenize text' = .ok tokens) ∧
        (∀ text', Respaced text text' → tokenize text' = .ok tokens) ∧
        tokenizeCopy text = tokens) ∧
      ∀ text, WellSpaced (tokenizeCopy text) := by
  refine ⟨?_, wellSpaced_tokenizeCopy⟩
  intro text tokens h
  obtain ⟨items, hitems, rfl⟩ := tokenize_eq_ok_iff.mp h
  have hcopy : tokenizeCopy text = (items.foldl Output.put .empty).out := hitems.tokenizeCopyFrom _
  have hspaced := wellSpaced_tokenizeCopy text
  rw [hcopy] at hspaced
  have hsendable := sendable_foldl_put hitems.sendable (o := .empty) nofun
  refine ⟨?_, hspaced, ?_, ?_, hcopy⟩
  . exact tokenize_eq_ok_iff.mpr ⟨_, reads_tokensToText hsendable, hspaced.foldl_put⟩
  . intro text' hsame
    exact tokenize_eq_ok_iff.mpr ⟨items, hitems.of_sameLetters hsame, rfl⟩
  . intro text' hrespaced
    obtain ⟨items', hitems', hput⟩ := hrespaced.exists_reads hitems
    exact tokenize_eq_ok_iff.mpr ⟨items', hitems', by rw [hput]⟩

def btTokens : List Token :=
  [.char 'A', .wordSpace, .prosign .bt]

theorem respaced_bt
    : Respaced [' ', 'a', ' ', '\t', '<', 'b', 'T', '>', '\n']
        ['\t', '\n', 'a', ' ', '<', 'b', 'T', '>', ' '] := by
  apply @Respaced.run [' '] ['\t', '\n'] _ _ (by decide) (by decide)
  apply Respaced.char (by decide) (by decide)
  apply @Respaced.run [' ', '\t'] [' '] _ _ (by decide) (by decide)
  apply @Respaced.bracket ['b', 'T'] _ _ (by decide)
  exact @Respaced.run ['\n'] [' '] _ _ (by decide) (by decide) .nil

/-- White space at both ends, a prosign in mixed case and a run of two characters, and the same text
with other letters and with other runs. -/
theorem tokenize_normalises_bt
    : tokenize [' ', 'a', ' ', '\t', '<', 'b', 'T', '>', '\n'] = .ok btTokens ∧
      tokenize (tokensToText btTokens) = .ok btTokens ∧
      tokenize [' ', 'A', ' ', '\t', '<', 'B', 't', '>', '\n'] = .ok btTokens ∧
      tokenize ['\t', '\n', 'a', ' ', '<', 'b', 'T', '>', ' '] = .ok btTokens ∧
      tokenizeCopy [' ', 'a', ' ', '\t', '<', 'b', 'T', '>', '\n'] = btTokens := by
  have haccepted : tokenize [' ', 'a', ' ', '\t', '<', 'b', 'T', '>', '\n'] = .ok btTokens := by
    decide
  have h := tokenize_normalises.1 _ _ haccepted
  exact ⟨haccepted, h.1, h.2.2.1 _ rfl, h.2.2.2.1 _ respaced_bt, h.2.2.2.2⟩

end Morse
