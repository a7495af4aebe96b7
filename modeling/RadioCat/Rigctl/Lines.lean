import RadioCat.Trace.Reader
import RadioCat.Trace.Splitter

/-!
This module contains the line reader of the rigctl server. The limit on a line is tested on the
buffer between two reads, after the complete lines were taken out of it, so what happens to a long
line depends on where the reads end.
-/

namespace Rigctl.Lines

open Trace

def maxLineLen : Nat := 512

/-- The size of the buffer for one read. -/
def chunkLen : Nat := 4096

def newline : UInt8 := 0x0A

def carriageReturn : UInt8 := 0x0D

inductive ReadError where
  | invalidData (message : String)
  deriving DecidableEq, Repr

def overLimit : ReadError :=
  .invalidData s!"rigctl line exceeded maximum length of {maxLineLen} bytes without a newline"

/-- The line up to the first newline, and what follows the newline. -/
def cut (buf : List UInt8) : Option (List UInt8 × List UInt8) :=
  (buf.findIdx? (· == newline)).map fun pos => (buf.take pos, buf.drop (pos + 1))

theorem cut_cons (b : UInt8) (buf : List UInt8)
    : cut (b :: buf)
      = if b = newline then some ([], buf) else (cut buf).map fun x => (b :: x.1, x.2) := by
  simp only [cut, List.findIdx?_cons, beq_iff_eq]
  split
  . rfl
  . rw [Option.map_map, Option.map_map]
    rfl

theorem cut_line {line : List UInt8} (h : newline ∉ line) (rest : List UInt8)
    : cut (line ++ newline :: rest) = some (line, rest) := by
  induction line with
  | nil => rw [List.nil_append, cut_cons, if_pos rfl]
  | cons b line ih =>
    rw [List.mem_cons, not_or] at h
    rw [List.cons_append, cut_cons, if_neg (Ne.symm h.1), ih h.2, Option.map_some]

theorem of_cut {buf line rest : List UInt8} (h : cut buf = some (line, rest))
    : buf = line ++ newline :: rest ∧ newline ∉ line := by
  induction buf generalizing line with
  | nil => cases h
  | cons b buf ih =>
    rw [cut_cons] at h
    split at h
    next hb =>
      cases h
      rw [hb, List.nil_append]
      exact ⟨rfl, List.not_mem_nil⟩
    next hb =>
      simp only [Option.map_eq_some_iff, Prod.mk.injEq] at h
      rcases h with ⟨⟨line, rest⟩, hcut, rfl, rfl⟩
      rcases ih hcut with ⟨rfl, hline⟩
      rw [List.cons_append, List.mem_cons, not_or]
      exact ⟨rfl, Ne.symm hb, hline⟩

theorem length_le_of_cut {buf more line rest : List UInt8} (h : cut buf = none)
    (hcut : cut (buf ++ more) = some (line, rest)) : buf.length ≤ line.length := by
  rcases List.append_eq_append_iff.1 (of_cut hcut).1 with ⟨tail, rfl, _⟩ | ⟨tail, rfl, htail⟩
  . rw [List.length_append]
    omega
  . cases tail with
    | nil =>
      rw [List.length_append, List.length_nil]
      omega
    | cons b tail =>
      rw [List.cons_append, List.cons.injEq] at htail
      rw [← htail.1, cut_line (of_cut hcut).2] at h
      cases h

/-- What the client sent, cut at every newline. -/
def splitter : Splitter UInt8 (List UInt8) where
  next := cut
  shorter h := by
    rw [(of_cut h).1, List.length_append, List.length_cons]
    omega
  extend more h := by
    rw [(of_cut h).1, List.append_assoc, List.cons_append]
    apply cut_line (of_cut h).2

/-- The line without the carriage return at its end. -/
def trim (line : List UInt8) : List UInt8 :=
  if line.getLast? = some carriageReturn then
    line.dropLast
  else
    line

section Reading

-- `String::from_utf8_lossy`.
variable {τ : Type} (lossy : List UInt8 → τ)

def tryTakeLine (buf : List UInt8) : Option (τ × List UInt8) :=
  (cut buf).map fun x => (lossy (trim x.1), x.2)

def isOverLimit (buf : List UInt8) : Bool :=
  buf.length > maxLineLen

def takeFinalPartialLine (buf : List UInt8) : Option τ :=
  if buf.isEmpty then
    none
  else
    some (lossy buf)

abbrev Connection := List UInt8 × List (List UInt8)

def readLineFrom (buf : List UInt8) (chunks : List (List UInt8))
    : Except ReadError (Option τ) × Connection :=
  match tryTakeLine lossy buf with
  | some (line, rest) => (.ok (some line), rest, chunks)
  | none =>
    if isOverLimit buf then
      (.error overLimit, buf, chunks)
    else
      match chunks with
      | [] => (.ok (takeFinalPartialLine lossy buf), [], [])
      | [] :: chunks => (.ok (takeFinalPartialLine lossy buf), [], chunks)
      | chunk :: chunks => readLineFrom (buf ++ chunk) chunks

def readLine : Reader Connection (Except ReadError (Option τ)) := fun c =>
  readLineFrom lossy c.1 c.2

/-- A way for these bytes to arrive: in reads that bring something, and no more than fits. -/
def Arrives (bytes : List UInt8) (chunks : List (List UInt8)) : Prop :=
  chunks.flatten = bytes ∧ ∀ chunk ∈ chunks, chunk ≠ [] ∧ chunk.length ≤ chunkLen

theorem Arrives.cons {chunk bytes : List UInt8} {chunks : List (List UInt8)}
    (h : Arrives bytes chunks) (hsome : chunk ≠ []) (hfits : chunk.length ≤ chunkLen)
    : Arrives (chunk ++ bytes) (chunk :: chunks) := by
  constructor
  . rw [List.flatten_cons, h.1]
  . rw [List.forall_mem_cons]
    exact ⟨⟨hsome, hfits⟩, h.2⟩

theorem Arrives.append {first second : List UInt8} {chunks more : List (List UInt8)}
    (h : Arrives first chunks) (hmore : Arrives second more)
    : Arrives (first ++ second) (chunks ++ more) := by
  constructor
  . rw [List.flatten_append, h.1, hmore.1]
  . intro chunk hchunk
    cases List.mem_append.1 hchunk with
    | inl hchunk => apply h.2 chunk hchunk
    | inr hchunk => apply hmore.2 chunk hchunk

theorem arrives_bytes (bytes : List UInt8) : Arrives bytes (bytes.map fun b => [b]) := by
  induction bytes with
  | nil => simp [Arrives]
  | cons b bytes ih =>
    rw [List.map_cons, ← List.singleton_append]
    apply ih.cons
    . simp
    . rw [List.length_singleton, chunkLen]
      decide

/-- The first line above the limit, if one is ended at all, is so long that the limit is passed
before its newline can be in the buffer. -/
def Steady (bytes : List UInt8) : Prop :=
  ∀ line ∈ (splitter.drain bytes).1.find? (fun line => maxLineLen < line.length),
    maxLineLen + chunkLen ≤ line.length

instance (bytes : List UInt8) : Decidable (Steady bytes) :=
  inferInstanceAs (Decidable (∀ line ∈ List.find? _ _, _))

/-- The next line of a stream whose long lines are all refused. -/
def nextLine : Reader (List UInt8) (Except ReadError (Option τ)) := fun bytes =>
  match cut bytes with
  | some (line, rest) =>
    if maxLineLen < line.length then
      (.error overLimit, bytes)
    else
      (.ok (some (lossy (trim line))), rest)
  | none =>
    if maxLineLen < bytes.length then
      (.error overLimit, bytes)
    else
      (.ok (takeFinalPartialLine lossy bytes), [])

theorem Steady.head {bytes line rest : List UInt8} (h : Steady bytes)
    (hcut : cut bytes = some (line, rest)) (hlong : maxLineLen < line.length)
    : maxLineLen + chunkLen ≤ line.length := by
  apply h
  rw [splitter.drain_some hcut]
  simp [hlong]

theorem Steady.tail {bytes line rest : List UInt8} (h : Steady bytes)
    (hcut : cut bytes = some (line, rest)) (hshort : ¬ maxLineLen < line.length)
    : Steady rest := by
  intro long hlong
  apply h
  rw [splitter.drain_some hcut]
  simpa [hshort] using hlong

/-- What the reader knows of the stream, in every state of the connection. -/
structure Follows (c : Connection) (bytes : List UInt8) : Prop where
  arrives : ∃ rest, Arrives rest c.2 ∧ c.1 ++ rest = bytes
  room : c.1.length ≤ maxLineLen + chunkLen
  steady : Steady bytes

theorem follows_nil : Follows ([], []) [] := by
  refine ⟨⟨[], ⟨rfl, ?_⟩, rfl⟩, Nat.zero_le _, ?_⟩
  . intro chunk hchunk
    cases hchunk
  . decide

theorem readLineFrom_simulates {buf : List UInt8} {chunks : List (List UInt8)} {bytes : List UInt8}
    (h : Follows (buf, chunks) bytes)
    : (readLineFrom lossy buf chunks).1 = (nextLine lossy bytes).1 ∧
      Follows (readLineFrom lossy buf chunks).2 (nextLine lossy bytes).2 := by
  fun_induction readLineFrom lossy buf chunks with
  | case1 chunks buf line rest htake =>
    rcases h with ⟨⟨more, harrives, rfl⟩, hroom, hsteady⟩
    simp only [tryTakeLine, Option.map_eq_some_iff, Prod.mk.injEq] at htake
    rcases htake with ⟨⟨raw, rest⟩, hcut, rfl, rfl⟩
    have hwhole : cut (buf ++ more) = some (raw, rest ++ more) := splitter.extend more hcut
    have hlen : raw.length + rest.length < buf.length := by
      rw [(of_cut hcut).1, List.length_append, List.length_cons]
      omega
    have hshort : ¬ maxLineLen < raw.length := by
      intro hlong
      have hhead := hsteady.head hwhole hlong
      dsimp only at hroom
      omega
    simp only [nextLine, hwhole, if_neg hshort]
    refine ⟨trivial, ⟨more, harrives, rfl⟩, ?_, hsteady.tail hwhole hshort⟩
    dsimp only at hroom ⊢
    omega
  | case2 chunks buf htake hover =>
    rw [tryTakeLine, Option.map_eq_none_iff] at htake
    rw [isOverLimit, decide_eq_true_eq] at hover
    have hrefuse : nextLine lossy bytes = (.error overLimit, bytes) := by
      rcases h.arrives with ⟨more, harrives, rfl⟩
      unfold nextLine
      split
      next line rest hcut =>
        have hle := length_le_of_cut htake hcut
        apply if_pos
        omega
      next =>
        apply if_pos
        rw [List.length_append]
        apply Nat.lt_add_right _ hover
    rw [hrefuse]
    exact ⟨rfl, h⟩
  | case3 buf htake hover =>
    rw [tryTakeLine, Option.map_eq_none_iff] at htake
    rw [isOverLimit, decide_eq_true_eq] at hover
    rcases h.arrives with ⟨more, ⟨rfl, _⟩, rfl⟩
    simp only [List.flatten_nil, List.append_nil, nextLine, htake, if_neg hover]
    exact ⟨trivial, follows_nil⟩
  | case4 buf htake hover chunks =>
    rcases h.arrives with ⟨more, ⟨_, hchunks⟩, _⟩
    have hsome := (hchunks [] List.mem_cons_self).1
    contradiction
  | case5 buf htake hover chunk chunks hsome ih =>
    apply ih
    rw [isOverLimit, decide_eq_true_eq] at hover
    rcases h with ⟨⟨more, ⟨rfl, hchunks⟩, rfl⟩, hroom, hsteady⟩
    rw [List.forall_mem_cons] at hchunks
    refine ⟨⟨_, ⟨rfl, hchunks.2⟩, ?_⟩, ?_, hsteady⟩
    . rw [List.flatten_cons, List.append_assoc]
    . have hchunk := hchunks.1.2
      rw [List.length_append]
      omega

/-- The reader of a steady stream does not see how the stream was cut into reads. -/
theorem readLine_simulates : Reader.Simulates Follows (readLine lossy) (nextLine lossy) := by
  intro c bytes h
  apply readLineFrom_simulates lossy h

theorem Arrives.follows {bytes : List UInt8} {chunks : List (List UInt8)}
    (h : Arrives bytes chunks) (hsteady : Steady bytes) : Follows ([], chunks) bytes := by
  exact ⟨⟨bytes, h, rfl⟩, Nat.zero_le _, hsteady⟩

/-- Behind a buffer of `pos` bytes, some read ends after the one position and not after the
other. -/
def EndsWithin (pos : Nat) (chunks : List (List UInt8)) (lo hi : Nat) : Prop :=
  ∃ k, lo < pos + (chunks.take k).flatten.length ∧ pos + (chunks.take k).flatten.length ≤ hi

theorem endsWithin_add (n pos : Nat) (chunks : List (List UInt8)) (lo hi : Nat)
    : EndsWithin (n + pos) chunks (n + lo) (n + hi) ↔ EndsWithin pos chunks lo hi := by
  simp only [EndsWithin, Nat.add_assoc, Nat.add_lt_add_iff_left, Nat.add_le_add_iff_left]

theorem endsWithin_cons {pos lo : Nat} (h : pos ≤ lo) (chunk : List UInt8)
    (chunks : List (List UInt8)) (hi : Nat)
    : EndsWithin pos (chunk :: chunks) lo hi ↔ EndsWithin (pos + chunk.length) chunks lo hi := by
  constructor
  . rintro ⟨k, hk⟩
    cases k with
    | zero =>
      rw [List.take_zero, List.flatten_nil, List.length_nil] at hk
      omega
    | succ k => exact ⟨k, by simpa [Nat.add_assoc] using hk⟩
  . rintro ⟨k, hk⟩
    exact ⟨k + 1, by simpa [Nat.add_assoc] using hk⟩

theorem cut_of_drain {bytes line : List UInt8} {lines : List (List UInt8)}
    (h : (splitter.drain bytes).1 = line :: lines)
    : ∃ rest, cut bytes = some (line, rest) ∧ (splitter.drain rest).1 = lines := by
  cases hcut : cut bytes with
  | none =>
    rw [splitter.drain_none hcut] at h
    cases h
  | some taken =>
    rw [splitter.drain_some hcut] at h
    cases h
    exact ⟨_, rfl, rfl⟩

/-- A line that will be ended is refused if a read ends beyond the limit and before its newline,
and is taken off the stream if none does. -/
theorem readLineFrom_line {buf more line rest : List UInt8} {chunks : List (List UInt8)}
    (h : Arrives more chunks) (hcut : cut (buf ++ more) = some (line, rest))
    : (EndsWithin buf.length chunks maxLineLen line.length →
        (readLineFrom lossy buf chunks).1 = .error overLimit) ∧
      (¬ EndsWithin buf.length chunks maxLineLen line.length →
        ∃ left later after,
          readLineFrom lossy buf chunks = (.ok (some (lossy (trim line))), left, later) ∧
          Arrives after later ∧ left ++ after = rest ∧
          ∀ lo hi, EndsWithin left.length later lo hi
            ↔ EndsWithin buf.length chunks (line.length + 1 + lo) (line.length + 1 + hi)) := by
  fun_induction readLineFrom lossy buf chunks generalizing more with
  | case1 chunks buf taken left htake =>
    simp only [tryTakeLine, Option.map_eq_some_iff, Prod.mk.injEq] at htake
    rcases htake with ⟨⟨raw, left⟩, htake, rfl, rfl⟩
    cases (splitter.extend more htake).symm.trans hcut
    have hlen : buf.length = line.length + 1 + left.length := by
      rw [(of_cut htake).1, List.length_append, List.length_cons]
      omega
    constructor
    . rintro ⟨k, _, hle⟩
      omega
    . refine fun _ => ⟨left, chunks, more, rfl, h, rfl, ?_⟩
      intro lo hi
      rw [hlen, endsWithin_add]
  | case2 chunks buf htake hover =>
    rw [tryTakeLine, Option.map_eq_none_iff] at htake
    rw [isOverLimit, decide_eq_true_eq] at hover
    refine ⟨fun _ => rfl, fun hends => absurd ⟨0, ?_⟩ hends⟩
    exact ⟨hover, length_le_of_cut htake hcut⟩
  | case3 buf htake hover =>
    rw [tryTakeLine, Option.map_eq_none_iff] at htake
    rw [← h.1, List.flatten_nil, List.append_nil, htake] at hcut
    cases hcut
  | case4 buf htake hover chunks =>
    have hsome := (h.2 [] List.mem_cons_self).1
    contradiction
  | case5 buf htake hover chunk chunks hsome ih =>
    rw [tryTakeLine, Option.map_eq_none_iff] at htake
    rw [isOverLimit, decide_eq_true_eq, Nat.not_lt] at hover
    rcases h with ⟨rfl, hchunks⟩
    have hle := length_le_of_cut htake hcut
    have hlater : ∀ lo hi, EndsWithin buf.length (chunk :: chunks) (line.length + 1 + lo) hi
        ↔ EndsWithin (buf.length + chunk.length) chunks (line.length + 1 + lo) hi := by
      intro lo hi
      apply endsWithin_cons
      omega
    simp only [endsWithin_cons hover, hlater, ← List.length_append]
    apply ih ⟨rfl, (List.forall_mem_cons.1 hchunks).2⟩
    rwa [List.append_assoc]

def joined (lines : List (List UInt8)) : List UInt8 :=
  (lines.map (· ++ [newline])).flatten

theorem joined_cons (line : List UInt8) (lines : List (List UInt8))
    : joined (line :: lines) = line ++ newline :: joined lines := by
  simp [joined]

theorem bytes_of_drain {bytes line : List UInt8} {before after : List (List UInt8)}
    (h : (splitter.drain bytes).1 = before ++ line :: after)
    : ∃ rest, bytes = joined before ++ (line ++ newline :: rest) := by
  induction before generalizing bytes with
  | nil =>
    rcases cut_of_drain h with ⟨rest, hcut, _⟩
    exact ⟨rest, (of_cut hcut).1⟩
  | cons l before ih =>
    rcases cut_of_drain h with ⟨rest, hcut, hdrain⟩
    rcases ih hdrain with ⟨tail, rfl⟩
    refine ⟨tail, ?_⟩
    rw [(of_cut hcut).1, joined_cons, List.append_assoc, List.cons_append]

theorem calls_readLine {before after chunks : List (List UInt8)} {more line : List UInt8}
    (buf : List UInt8) (h : Arrives more chunks)
    (hdrain : (splitter.drain (buf ++ more)).1 = before ++ line :: after)
    (hshort : ∀ l ∈ before, l.length ≤ maxLineLen)
    : ∃ result, ((readLine lossy).calls (before.length + 1) (buf, chunks)).1
        = before.map (fun l => .ok (some (lossy (trim l)))) ++ [result] ∧
      (EndsWithin buf.length chunks ((joined before).length + maxLineLen)
        ((joined before).length + line.length) → result = .error overLimit) ∧
      (¬ EndsWithin buf.length chunks ((joined before).length + maxLineLen)
        ((joined before).length + line.length) → result = .ok (some (lossy (trim line)))) := by
  induction before generalizing buf more chunks with
  | nil =>
    rcases cut_of_drain hdrain with ⟨rest, hcut, _⟩
    rcases readLineFrom_line lossy h hcut with ⟨hrefused, haccepted⟩
    simp only [joined, List.map_nil, List.flatten_nil, List.length_nil, Nat.zero_add]
    refine ⟨_, rfl, hrefused, ?_⟩
    intro hends
    rcases haccepted hends with ⟨left, later, last, hread, _⟩
    rw [readLine, hread]
  | cons l before ih =>
    rw [List.forall_mem_cons] at hshort
    rcases cut_of_drain hdrain with ⟨rest, hcut, hrest⟩
    have hread := (readLineFrom_line lossy h hcut).2 (by rintro ⟨k, hlo, hhi⟩; omega)
    rcases hread with ⟨left, later, last, hread, hlater, rfl, hends⟩
    rcases ih left hlater hrest hshort.2 with ⟨result, hcalls, hmore⟩
    refine ⟨result, ?_, ?_⟩
    . rw [List.length_cons, Reader.calls, readLine, hread, hcalls]
      rfl
    . simpa only [hends, joined_cons, List.length_append, List.length_cons, Nat.add_assoc,
        Nat.add_comm 1] using hmore

theorem exists_arrives_endsWithin {bytes line rest : List UInt8} {before : List (List UInt8)}
    (hbytes : bytes = joined before ++ (line ++ newline :: rest)) (hlong : maxLineLen < line.length)
    : ∃ chunks, Arrives bytes chunks ∧
        EndsWithin 0 chunks ((joined before).length + maxLineLen)
          ((joined before).length + line.length) := by
  refine ⟨_, arrives_bytes bytes, (joined before).length + line.length, ?_⟩
  rw [← List.map_take, (arrives_bytes _).1, List.length_take, hbytes, List.length_append,
    List.length_append]
  omega

theorem not_endsWithin_chunk {head more : List (List UInt8)} {chunk : List UInt8} {pos lo hi : Nat}
    (hlo : pos + head.flatten.length ≤ lo) (hhi : hi < pos + head.flatten.length + chunk.length)
    : ¬ EndsWithin pos (head ++ chunk :: more) lo hi := by
  induction head generalizing pos with
  | nil =>
    rw [List.flatten_nil, List.length_nil, Nat.add_zero] at hlo hhi
    rw [List.nil_append, endsWithin_cons hlo]
    rintro ⟨k, _, hle⟩
    omega
  | cons first head ih =>
    rw [List.flatten_cons, List.length_append, ← Nat.add_assoc] at hlo hhi
    rw [List.cons_append, endsWithin_cons (by omega)]
    exact ih hlo hhi

theorem exists_arrives_not_endsWithin {bytes line rest : List UInt8} {before : List (List UInt8)}
    (hbytes : bytes = joined before ++ (line ++ newline :: rest)) (hlong : maxLineLen < line.length)
    (hfits : line.length < maxLineLen + chunkLen)
    : ∃ chunks, Arrives bytes chunks ∧
        ¬ EndsWithin 0 chunks ((joined before).length + maxLineLen)
          ((joined before).length + line.length) := by
  -- From the limit on, the line comes with its newline in one read.
  have hchunk : (line.drop maxLineLen ++ [newline]).length = line.length - maxLineLen + 1 := by
    rw [List.length_append, List.length_drop, List.length_singleton]
  have hsome : line.drop maxLineLen ++ [newline] ≠ [] := by
    simp
  have harrives := (arrives_bytes (joined before ++ line.take maxLineLen)).append
    ((arrives_bytes rest).cons hsome (by omega))
  have hwhole : joined before ++ line.take maxLineLen
      ++ (line.drop maxLineLen ++ [newline] ++ rest) = bytes := by
    rw [hbytes, List.append_assoc, List.append_assoc, ← List.append_assoc (line.take _),
      List.take_append_drop, List.singleton_append]
  have hhead : (joined before ++ line.take maxLineLen).length
      = (joined before).length + maxLineLen := by
    rw [List.length_append, List.length_take]
    omega
  refine ⟨_, hwhole ▸ harrives, ?_⟩
  apply not_endsWithin_chunk
  all_goals rw [(arrives_bytes _).1, hhead]
  all_goals omega

/-- What a client gets does not depend on how its bytes arrive exactly if the stream is steady. The
first line above the limit is refused if a read ends beyond the limit and before its newline, and is
accepted like any other if none does. -/
theorem readLine_arrival_iff (bytes : List UInt8)
    : ((∀ first second, Arrives bytes first → Arrives bytes second → ∀ n,
        ((readLine lossy).calls n ([], first)).1 = ((readLine lossy).calls n ([], second)).1) ↔
      Steady bytes) ∧
      ∀ chunks before line after, Arrives bytes chunks →
        (splitter.drain bytes).1 = before ++ line :: after →
        (∀ l ∈ before, l.length ≤ maxLineLen) →
        ∃ result, ((readLine lossy).calls (before.length + 1) ([], chunks)).1
            = before.map (fun l => .ok (some (lossy (trim l)))) ++ [result] ∧
          (EndsWithin 0 chunks ((joined before).length + maxLineLen)
            ((joined before).length + line.length) → result = .error overLimit) ∧
          (¬ EndsWithin 0 chunks ((joined before).length + maxLineLen)
            ((joined before).length + line.length) → result = .ok (some (lossy (trim line)))) := by
  refine ⟨⟨?_, ?_⟩, ?_⟩
  . intro hsame line hline
    rw [Option.mem_def, List.find?_eq_some_iff_append] at hline
    rcases hline with ⟨hlong, before, after, hdrain, hbefore⟩
    rw [decide_eq_true_eq] at hlong
    by_contra hfits
    rw [Nat.not_le] at hfits
    have hshort : ∀ l ∈ before, l.length ≤ maxLineLen := by
      intro l hl
      simpa using hbefore l hl
    rcases bytes_of_drain hdrain with ⟨rest, hbytes⟩
    rcases exists_arrives_endsWithin hbytes hlong with ⟨first, hfirst, hends⟩
    rcases exists_arrives_not_endsWithin hbytes hlong hfits with ⟨second, hsecond, hwhole⟩
    rcases calls_readLine lossy [] hfirst hdrain hshort with ⟨_, hone, hover, _⟩
    rcases calls_readLine lossy [] hsecond hdrain hshort with ⟨_, htwo, _, htaken⟩
    have hcalls := hsame _ _ hfirst hsecond (before.length + 1)
    rw [hone, htwo, hover hends, htaken hwhole] at hcalls
    cases List.append_cancel_left hcalls
  . intro hsteady first second hfirst hsecond n
    have hone := (readLine_simulates lossy).calls n (hfirst.follows hsteady)
    have htwo := (readLine_simulates lossy).calls n (hsecond.follows hsteady)
    rw [hone.1, htwo.1]
  . intro chunks before line after harrives hdrain hshort
    exact calls_readLine lossy [] harrives hdrain hshort

end Reading

theorem readLine_arrival_counterexample
    : ∃ bytes first second, Arrives bytes first ∧ Arrives bytes second ∧
      ((readLine id).calls 1 ([], first)).1 = [.error overLimit] ∧
      ((readLine id).calls 1 ([], second)).1 = [.ok (some (List.replicate 513 0x78))] := by
  refine ⟨List.replicate 513 0x78 ++ [newline], [List.replicate 513 0x78, [newline]],
    [List.replicate 512 0x78, [0x78, newline]], ?_, ?_, ?_, ?_⟩
  . unfold Arrives
    decide +kernel
  . unfold Arrives
    decide +kernel
  . decide +kernel
  . decide +kernel

end Rigctl.Lines
