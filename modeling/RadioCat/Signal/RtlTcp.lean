import RadioCat.Arith.Float
import RadioCat.Bytes.Pairs
import RadioCat.Trace.Transducer

/-!
This module contains the dongle at the other end of a socket: reads of a number of samples from a
stream of bytes that the socket splits as it likes, and that may fail on the way.
-/

namespace Signal

open Arith Bytes Trace

variable {β γ : Type}

/-- What the socket has for one read. -/
inductive Outcome where
  | ready (n : Nat)
  | fail (e : String)
  deriving DecidableEq, Repr

/-- No read fails before so many bytes are there. -/
def succeed : List Outcome → Nat → Bool
  | [], _ => true
  | .fail _ :: _, needed => needed = 0
  | .ready n :: outcomes, needed => succeed outcomes (needed - (n + 1))

theorem succeed_zero (outcomes : List Outcome) : succeed outcomes 0 = true := by
  induction outcomes with
  | nil => rfl
  | cons outcome outcomes ih =>
    cases outcome with
    | ready n => rw [succeed, Nat.zero_sub, ih]
    | fail e => rfl

/-- What the peer is still to send, and how much of it was taken so far. -/
structure Socket (β : Type) where
  rest : List β
  taken : Nat
  outcomes : List Outcome
  deriving DecidableEq, Repr

namespace Socket

def take (socket : Socket β) (n : Nat) (outcomes : List Outcome) : List β × Socket β :=
  (socket.rest.take n,
    { rest := socket.rest.drop n
      taken := socket.taken + (socket.rest.take n).length
      outcomes })

/-- A read waits for one byte at least, so that an empty one is the end of the stream. Where no
outcome is given everything is ready. -/
def read (socket : Socket β) (needed : Nat) : Except String (List β) × Socket β :=
  match socket.outcomes with
  | .fail e :: outcomes => (.error e, { socket with outcomes })
  | .ready n :: outcomes =>
    let res := socket.take (min (n + 1) needed) outcomes
    (.ok res.1, res.2)
  | [] =>
    let res := socket.take needed []
    (.ok res.1, res.2)

/-- The peer will send so many bytes more, and no read fails before they are there. -/
def Has (socket : Socket β) (needed : Nat) : Prop :=
  needed ≤ socket.rest.length ∧ succeed socket.outcomes needed = true

end Socket

inductive RtlTcpError where
  | io (e : String)
  | closed
  deriving DecidableEq, Repr

structure Complex32 where
  re : F32
  im : F32
  deriving DecidableEq, Repr

/-- `(b - 127.5) / 127.5`, that is `(2 * b - 255) / 255`, to the nearest. The denominator is odd, so
that no two are equally near. -/
def component (b : UInt8) : F32 :=
  let numerator := (2 * (b.toNat : Int) - 255).natAbs
  let places := 31 - Nat.log 2 numerator
  let significand := (2 * numerator * 2 ^ places + 255) / 510
  F32.ofParts (b < 128) ((149 - places) * 2 ^ 23 + significand)

def complex (pair : UInt8 × UInt8) : Complex32 :=
  ⟨component pair.1, component pair.2⟩

/-- The bytes are of any type, for the source does not look at them before it converts them. -/
structure RtlTcpSource (β : Type) where
  stream : Socket β
  partialByte : Option β
  deriving DecidableEq, Repr

namespace RtlTcpSource

/-- The loop of `read`: `bytes` is what the call has so far. -/
def fill (len : Nat) (stream : Socket β) (bytes : List β)
    : Except RtlTcpError (List β) × Socket β :=
  if bytes.length < len then
    match stream.read (len - bytes.length) with
    | (.error e, stream) => (.error (.io e), stream)
    | (.ok [], stream) => (.error .closed, stream)
    | (.ok (b :: more), stream) => fill len stream (bytes ++ b :: more)
  else
    (.ok bytes, stream)
termination_by len - bytes.length
decreasing_by
  rw [List.length_append, List.length_cons]
  omega

def read (convert : β × β → γ) (source : RtlTcpSource β) (wanted : Nat)
    : Except RtlTcpError (List γ) × RtlTcpSource β :=
  -- the product is taken modulo the word, as a release build does
  match fill (wanted * 2 % 2 ^ 64) source.stream source.partialByte.toList with
  | (.error e, stream) => (.error e, ⟨stream, none⟩)
  | (.ok bytes, stream) =>
    if bytes.length % 2 = 1 then
      (.ok ((pairs bytes.dropLast).map convert), ⟨stream, bytes.getLast?⟩)
    else
      (.ok ((pairs bytes).map convert), ⟨stream, none⟩)

/-- A source that has read the greeting. -/
def connected (stream : List β) (outcomes : List Outcome) : RtlTcpSource β :=
  ⟨⟨stream, 0, outcomes⟩, none⟩

structure Event (γ : Type) where
  wanted : Nat
  result : Except RtlTcpError (List γ)

def Event.map {δ : Type} (f : γ → δ) (e : Event γ) : Event δ :=
  ⟨e.wanted, e.result.map (List.map f)⟩

def Event.samples (e : Event γ) : List γ :=
  match e.result with
  | .ok samples => samples
  | .error _ => []

def call (convert : β × β → γ) : Transducer (RtlTcpSource β) Nat (Event γ) :=
  fun source wanted =>
    ([⟨wanted, (source.read convert wanted).1⟩], (source.read convert wanted).2)

/-- The stream positions of the two bytes of each sample, where each byte carries its position. -/
def offsets (events : List (Event ((β × Nat) × (β × Nat)))) : List (Nat × Nat) :=
  (events.flatMap Event.samples).map fun sample => (sample.1.2, sample.2.2)

/-- What is promised of the calls of a run. -/
structure Aligned (events : List (Event ((β × Nat) × (β × Nat)))) : Prop where
  exact : ∀ e ∈ events, ∀ samples, e.result = .ok samples → samples.length = e.wanted
  paired : ∀ o ∈ offsets events, ∃ k, o = (2 * k, 2 * k + 1)
  increasing : (offsets events).Pairwise fun o o' => o.1 < o'.1

/-- A call that will be answered asks for a number of samples whose bytes can be counted in a word,
and for none at all if the bytes that were taken before it are half a sample too many. -/
def Sound (source : RtlTcpSource β) (wanted : Nat) : Prop :=
  source.stream.Has (wanted * 2 % 2 ^ 64) →
    wanted < 2 ^ 63 ∧ (wanted = 0 ∨ source.stream.taken % 2 = 0)

end RtlTcpSource

/-- A part of the stream is taken from its front. -/
structure Socket.Advances (socket : Socket β) (chunk : List β) (socket' : Socket β) : Prop where
  rest : socket.rest = chunk ++ socket'.rest
  taken : socket'.taken = socket.taken + chunk.length

namespace Socket

theorem take_advances (socket : Socket β) (n : Nat) (outcomes : List Outcome)
    : socket.Advances (socket.take n outcomes).1 (socket.take n outcomes).2 := by
  constructor
  . exact (List.take_append_drop n socket.rest).symm
  . rfl

theorem Advances.trans {s s' s'' : Socket β} {chunk chunk' : List β} (h : s.Advances chunk s')
    (h' : s'.Advances chunk' s'') : s.Advances (chunk ++ chunk') s'' := by
  constructor
  . rw [h.rest, h'.rest, List.append_assoc]
  . rw [h'.taken, h.taken, List.length_append]
    omega

theorem read_advances (socket : Socket β) (needed : Nat)
    : (∃ e, (socket.read needed).1 = .error e ∧ socket.Advances [] (socket.read needed).2) ∨
      ∃ chunk, (socket.read needed).1 = .ok chunk ∧ chunk.length ≤ needed ∧
        socket.Advances chunk (socket.read needed).2 := by
  fun_cases read socket needed
  case case1 e outcomes hout => exact .inl ⟨e, rfl, rfl, rfl⟩
  case case2 n outcomes hout res =>
    refine .inr ⟨res.1, rfl, ?_, take_advances socket _ outcomes⟩
    simp only [res, take, List.length_take]
    omega
  case case3 hout res =>
    refine .inr ⟨res.1, rfl, ?_, take_advances socket needed []⟩
    simp only [res, take, List.length_take]
    omega

theorem has_read {socket socket' : Socket β} {needed : Nat} {chunk : List β}
    (hpos : 0 < needed) (h : socket.read needed = (.ok chunk, socket'))
    : socket.Has needed ↔ chunk ≠ [] ∧ socket'.Has (needed - chunk.length) := by
  rw [← List.length_pos_iff]
  revert h
  fun_cases read socket needed with
  | case1 e outcomes hout => simp
  | case2 n outcomes hout res =>
    rintro ⟨⟩
    simp only [Has, hout, succeed, res, take, List.length_take, List.length_drop]
    by_cases hle : needed ≤ socket.rest.length
    . have hleft : needed - min (min (n + 1) needed) socket.rest.length = needed - (n + 1) := by
        omega
      rw [hleft]
      grind
    . omega
  | case3 hout res =>
    rintro ⟨⟩
    simp only [Has, hout, succeed, res, take, List.length_take, List.length_drop, and_true]
    omega

end Socket

namespace RtlTcpSource

theorem fill_ok_iff (len : Nat) (stream : Socket β) (bytes : List β)
    : (∃ bytes', (fill len stream bytes).1 = .ok bytes') ↔ stream.Has (len - bytes.length) := by
  fun_induction fill len stream bytes with
  | case1 stream bytes hlt e stream' hread =>
    revert hread
    fun_cases Socket.read stream (len - bytes.length) with
    | case1 e outcomes hout =>
      rintro ⟨⟩
      simp [Socket.Has, hout, succeed]
      omega
    | _ => rintro ⟨⟩
  | case2 stream bytes hlt stream' hread =>
    simp [Socket.has_read (Nat.sub_pos_of_lt hlt) hread]
  | case3 stream bytes hlt b more stream' hread ih =>
    rw [ih, Socket.has_read (Nat.sub_pos_of_lt hlt) hread, List.length_append, Nat.sub_sub]
    simp
  | case4 stream bytes hlt =>
    simp [Socket.Has, succeed_zero, Nat.sub_eq_zero_of_le (Nat.le_of_not_lt hlt)]

theorem read_ok_iff (convert : β × β → γ) (source : RtlTcpSource β) (wanted : Nat)
    (hnone : source.partialByte = none)
    : (∃ samples, (source.read convert wanted).1 = .ok samples)
      ↔ source.stream.Has (wanted * 2 % 2 ^ 64) := by
  have hfill := fill_ok_iff (wanted * 2 % 2 ^ 64) source.stream []
  rw [List.length_nil, Nat.sub_zero] at hfill
  rw [← hfill, read, hnone, Option.toList_none]
  rcases fill (wanted * 2 % 2 ^ 64) source.stream [] with ⟨e | bytes, stream⟩
  . simp
  . dsimp only
    split <;> simp

theorem fill_advances (len : Nat) (stream : Socket β) (bytes : List β)
    (hbytes : bytes.length ≤ len)
    : ∃ chunk, stream.Advances chunk (fill len stream bytes).2 ∧
        ∀ bytes', (fill len stream bytes).1 = .ok bytes' →
          bytes' = bytes ++ chunk ∧ bytes'.length = len := by
  fun_induction fill len stream bytes
  case case1 stream bytes hlt e stream' hread =>
    rcases stream.read_advances (len - bytes.length) with ⟨e', -, hadv⟩ | ⟨chunk, hok, -⟩
    . rw [hread] at hadv
      exact ⟨[], hadv, nofun⟩
    . simp [hread] at hok
  case case2 stream bytes hlt stream' hread =>
    rcases stream.read_advances (len - bytes.length) with ⟨e', herr, -⟩ | ⟨chunk, hok, -, hadv⟩
    . simp [hread] at herr
    . rw [hread] at hadv
      exact ⟨chunk, hadv, nofun⟩
  case case3 stream bytes hlt b more stream' hread ih =>
    rcases stream.read_advances (len - bytes.length) with ⟨e', herr, -⟩ | ⟨chunk, hok, hle, hadv⟩
    . simp [hread] at herr
    . simp only [hread, Except.ok.injEq] at hok hadv
      rw [← hok, List.length_cons] at hle
      rw [← hok] at hadv
      rcases ih (by rw [List.length_append, List.length_cons]; omega) with ⟨rest, hrest, hall⟩
      refine ⟨b :: more ++ rest, hadv.trans hrest, ?_⟩
      intro bytes' hbytes'
      rw [← List.append_assoc]
      exact hall bytes' hbytes'
  case case4 stream bytes hlt =>
    refine ⟨[], ⟨rfl, rfl⟩, ?_⟩
    rintro bytes' ⟨⟩
    exact ⟨(List.append_nil _).symm, by omega⟩

theorem read_advances (convert : β × β → γ) (source : RtlTcpSource β) (wanted : Nat)
    (hnone : source.partialByte = none)
    : ∃ chunk, source.stream.Advances chunk (source.read convert wanted).2.stream ∧
        (source.read convert wanted).2.partialByte = none ∧
        ∀ samples, (source.read convert wanted).1 = .ok samples →
          chunk.length = wanted * 2 % 2 ^ 64 ∧ samples = (pairs chunk).map convert := by
  rcases fill_advances (wanted * 2 % 2 ^ 64) source.stream [] (Nat.zero_le _) with
    ⟨chunk, hadv, hok⟩
  refine ⟨chunk, ?_⟩
  unfold read
  rw [hnone, Option.toList_none]
  rcases hfill : fill (wanted * 2 % 2 ^ 64) source.stream [] with ⟨e | bytes, stream⟩
  . rw [hfill] at hadv
    exact ⟨hadv, rfl, nofun⟩
  . rw [hfill] at hadv hok
    rcases hok bytes rfl with ⟨hbytes, hlen⟩
    rw [List.nil_append] at hbytes
    have heven : ¬ bytes.length % 2 = 1 := by omega
    dsimp only
    rw [if_neg heven]
    refine ⟨hadv, rfl, ?_⟩
    rintro samples ⟨⟩
    exact ⟨hbytes ▸ hlen, by rw [hbytes]⟩

/-- The events so far and the source belong together, where the bytes of a stream carry their
positions: the next byte is the one at the position reached, and all samples lie before it. -/
structure Tracks (events : List (Event ((β × Nat) × (β × Nat))))
    (source : RtlTcpSource (β × Nat)) : Prop where
  none : source.partialByte = none
  rest : ∃ left : List β, source.stream.rest = left.zipIdx source.stream.taken
  before : ∀ o ∈ offsets events, o.1 < source.stream.taken

theorem offsets_append (events : List (Event ((β × Nat) × (β × Nat))))
    (e : Event ((β × Nat) × (β × Nat)))
    : offsets (events ++ [e]) = offsets events ++ offsets [e] := by
  simp [offsets]

theorem offsets_pairs_zipIdx (bytes : List β) (wanted taken : Nat)
    : offsets [⟨wanted, .ok (pairs (bytes.zipIdx taken))⟩] =
        (List.range' taken (bytes.length / 2) 2).map fun o => (o, o + 1) := by
  simp only [offsets, List.flatMap_singleton, Event.samples]
  induction bytes using pairs.induct generalizing taken with
  | case1 a b rest ih =>
    have hlength : (a :: b :: rest).length / 2 = rest.length / 2 + 1 := by
      simp only [List.length_cons]
      omega
    rw [hlength, List.range'_succ, List.map_cons, ← ih]
    rfl
  | case2 bytes h =>
    rcases bytes with _ | ⟨a, _ | ⟨b, rest⟩⟩
    . simp [pairs]
    . simp [pairs]
    . exact absurd rfl (h a b rest)

/-- The source goes on by `n` bytes of a stream whose bytes carry their positions. -/
structure Moves (source : RtlTcpSource (β × Nat)) (n : Nat) (source' : RtlTcpSource (β × Nat))
    : Prop where
  none : source'.partialByte = none
  taken : source'.stream.taken = source.stream.taken + n
  rest : ∃ left : List β, source'.stream.rest = left.zipIdx source'.stream.taken

section

variable {events : List (Event ((β × Nat) × (β × Nat)))} {source : RtlTcpSource (β × Nat)}

theorem Tracks.read_cases (h : Tracks events source) (wanted : Nat)
    : (∃ e n, (source.read id wanted).1 = .error e ∧
        Moves source n (source.read id wanted).2) ∨
      ∃ samples, (source.read id wanted).1 = .ok samples ∧
        Moves source (wanted * 2 % 2 ^ 64) (source.read id wanted).2 ∧
        samples.length = wanted * 2 % 2 ^ 64 / 2 ∧
        offsets [⟨wanted, .ok samples⟩] =
          (List.range' source.stream.taken (wanted * 2 % 2 ^ 64 / 2) 2).map
            fun o => (o, o + 1) := by
  rcases read_advances id source wanted h.none with ⟨chunk, hadv, hnone, hok⟩
  rcases h.rest with ⟨left, hleft⟩
  have hsplit := hadv.rest
  rw [hleft, List.zipIdx_eq_append_iff] at hsplit
  rcases hsplit with ⟨bytes, left', -, hchunk, hleft'⟩
  have hlength : chunk.length = bytes.length := by
    rw [hchunk, List.length_zipIdx]
  have hmoves : Moves source chunk.length (source.read id wanted).2 := by
    refine ⟨hnone, hadv.taken, left', ?_⟩
    rw [hleft', hadv.taken, hlength]
  cases hresult : (source.read id wanted).1 with
  | error e => exact .inl ⟨e, chunk.length, rfl, hmoves⟩
  | ok samples =>
    rcases hok samples hresult with ⟨hn, hsamples⟩
    have hoffsets := offsets_pairs_zipIdx bytes wanted source.stream.taken
    rw [List.map_id, hchunk] at hsamples
    rw [← hsamples, ← hlength, hn] at hoffsets
    refine .inr ⟨samples, rfl, hn ▸ hmoves, ?_, hoffsets⟩
    have hcount := congrArg List.length hoffsets
    simpa [offsets, Event.samples] using hcount

theorem Tracks.after (h : Tracks events source) (wanted : Nat)
    : Tracks (events ++ (call id source wanted).1) (call id source wanted).2 := by
  have hbefore := h.before
  simp only [call]
  rcases h.read_cases wanted with ⟨e, n, hresult, hmoves⟩ | ⟨samples, hresult, hmoves, -, hoffsets⟩
  . refine ⟨hmoves.none, hmoves.rest, ?_⟩
    intro o ho
    rw [hresult, offsets_append] at ho
    have hlt := hbefore o (by simpa [offsets, Event.samples] using ho)
    rw [hmoves.taken]
    omega
  . refine ⟨hmoves.none, hmoves.rest, ?_⟩
    intro o ho
    rw [hresult, offsets_append, hoffsets, List.mem_append, List.mem_map] at ho
    rw [hmoves.taken]
    rcases ho with ho | ⟨o', ho', rfl⟩
    . have hlt := hbefore o ho
      omega
    . rw [List.mem_range'] at ho'
      omega

theorem Aligned.of_append {events' : List (Event ((β × Nat) × (β × Nat)))}
    (h : Aligned (events ++ events')) : Aligned events := by
  have hoffsets : offsets (events ++ events') = offsets events ++ offsets events' := by
    simp [offsets]
  constructor
  . intro e he
    exact h.exact e (List.mem_append_left _ he)
  . intro o ho
    apply h.paired o
    rw [hoffsets]
    exact List.mem_append_left _ ho
  . have hincreasing := h.increasing
    rw [hoffsets, List.pairwise_append] at hincreasing
    exact hincreasing.1

theorem Tracks.aligned_after_iff (h : Tracks events source) (haligned : Aligned events)
    (wanted : Nat)
    : Aligned (events ++ (call id source wanted).1) ↔ Sound source wanted := by
  simp only [call]
  rcases h.read_cases wanted with ⟨e, n, hresult, -⟩ | ⟨samples, hresult, -, hlength, hoffsets⟩
  . have hempty : offsets (events ++ [⟨wanted, .error e⟩]) = offsets events := by
      simp [offsets, Event.samples]
    rw [hresult]
    apply iff_of_true
    . refine ⟨?_, hempty ▸ haligned.paired, hempty ▸ haligned.increasing⟩
      simpa [or_imp, forall_and] using haligned.exact
    . intro hhas
      rcases (read_ok_iff id source wanted h.none).mpr hhas with ⟨samples, hok⟩
      rw [hresult] at hok
      cases hok
  . rw [hresult]
    constructor
    . intro hall _
      have hexact := hall.exact ⟨wanted, .ok samples⟩ (by simp) samples rfl
      rw [hlength] at hexact
      refine ⟨by dsimp only at hexact; omega, ?_⟩
      rw [or_iff_not_imp_left]
      intro hpos
      have hfirst : (source.stream.taken, source.stream.taken + 1) ∈
          offsets (events ++ [⟨wanted, .ok samples⟩]) := by
        rw [offsets_append, hoffsets, List.mem_append, List.mem_map]
        refine .inr ⟨source.stream.taken, ?_, rfl⟩
        rw [List.mem_range']
        exact ⟨0, by dsimp only at hexact; omega, rfl⟩
      rcases hall.paired _ hfirst with ⟨k, hk⟩
      rw [Prod.mk.injEq] at hk
      omega
    . intro hsound
      rcases hsound ((read_ok_iff id source wanted h.none).mp ⟨samples, hresult⟩) with ⟨hlt, hpos⟩
      refine ⟨?_, ?_, ?_⟩
      . intro e he samples' hok
        rw [List.mem_append, List.mem_singleton] at he
        rcases he with he | rfl
        . exact haligned.exact e he samples' hok
        . cases hok
          dsimp only
          rw [hlength]
          omega
      . intro o ho
        rw [offsets_append, hoffsets, List.mem_append, List.mem_map] at ho
        rcases ho with ho | ⟨o', ho', rfl⟩
        . exact haligned.paired o ho
        . rw [List.mem_range'] at ho'
          rcases ho' with ⟨j, hj, rfl⟩
          refine ⟨source.stream.taken / 2 + j, ?_⟩
          rw [Prod.mk.injEq]
          omega
      . rw [offsets_append, hoffsets, List.pairwise_append]
        refine ⟨haligned.increasing, ?_, ?_⟩
        . rw [List.pairwise_map]
          exact List.pairwise_lt_range' 2
        . intro o ho o' ho'
          have hbefore := h.before o ho
          rw [List.mem_map] at ho'
          rcases ho' with ⟨start, hstart, rfl⟩
          rw [List.mem_range'] at hstart
          omega

end

end RtlTcpSource

/-! The positions are only carried along: with them or without, the source does the same. -/

section map

variable {δ : Type} (f : β → δ)

def Socket.map (socket : Socket β) : Socket δ :=
  { socket with rest := socket.rest.map f }

theorem Socket.read_map (socket : Socket β) (needed : Nat)
    : (socket.map f).read needed =
        ((socket.read needed).1.map (List.map f), (socket.read needed).2.map f) := by
  unfold read
  simp only [map]
  split <;> simp [take, Except.map, List.map_take, List.map_drop]

namespace RtlTcpSource

def map (source : RtlTcpSource β) : RtlTcpSource δ :=
  ⟨source.stream.map f, source.partialByte.map f⟩

theorem fill_map (len : Nat) (stream : Socket β) (bytes : List β)
    : fill len (stream.map f) (bytes.map f) =
        ((fill len stream bytes).1.map (List.map f), (fill len stream bytes).2.map f) := by
  fun_induction fill len stream bytes
  case case1 stream bytes hlt e stream' hread =>
    rw [fill, List.length_map, if_pos hlt, stream.read_map, hread]
    rfl
  case case2 stream bytes hlt stream' hread =>
    rw [fill, List.length_map, if_pos hlt, stream.read_map, hread]
    rfl
  case case3 stream bytes hlt b more stream' hread ih =>
    rw [fill, List.length_map, if_pos hlt, stream.read_map, hread, ← ih, List.map_append]
    rfl
  case case4 stream bytes hlt =>
    rw [fill, List.length_map, if_neg hlt]
    rfl

theorem read_map (convert : δ × δ → γ) (source : RtlTcpSource β) (wanted : Nat)
    : (source.map f).read convert wanted =
        ((source.read id wanted).1.map (List.map fun pair => convert (f pair.1, f pair.2)),
          (source.read id wanted).2.map f) := by
  have hfill := fill_map f (wanted * 2 % 2 ^ 64) source.stream source.partialByte.toList
  have hodd : (source.map f).partialByte.toList = source.partialByte.toList.map f :=
    Option.toList_map
  unfold read
  rw [hodd]
  simp only [map, hfill]
  rcases fill (wanted * 2 % 2 ^ 64) source.stream source.partialByte.toList with
    ⟨e | bytes, stream⟩
  . rfl
  . simp only [Except.map, List.length_map, List.map_id]
    split <;> simp [pairs_map, ← List.map_dropLast]

end RtlTcpSource

end map

namespace RtlTcpSource

/-- The samples of a run are the pairs of the stream, as many as each call asked for, exactly when
no call is answered after an odd number of bytes was taken. Only a call that fails on the way takes
an odd number. -/
theorem aligned_iff (stream : List UInt8) (outcomes : List Outcome) (calls : List Nat)
    : ((call complex).run (connected stream outcomes) calls).1 =
        ((call id).run (connected stream.zipIdx outcomes) calls).1.map
          (Event.map fun sample => complex (sample.1.1, sample.2.1)) ∧
      (Aligned ((call id).run (connected stream.zipIdx outcomes) calls).1 ↔
        (call id).Throughout Sound (connected stream.zipIdx outcomes) calls) := by
  constructor
  . have hsource : connected stream outcomes = (connected stream.zipIdx outcomes).map Prod.fst := by
      simp [connected, map, Socket.map]
    rw [hsource, Transducer.run_map (T := call id) (g := map Prod.fst)]
    intro source wanted
    simp only [call]
    rw [read_map]
    rfl
  . have hstart : Tracks (β := UInt8) [] (connected stream.zipIdx outcomes) :=
      ⟨rfl, ⟨stream, rfl⟩, nofun⟩
    have haligned : Aligned (β := UInt8) [] := ⟨nofun, nofun, List.Pairwise.nil⟩
    exact Transducer.run_iff_throughout (I := Tracks) Aligned.of_append
      (fun wanted h => h.after wanted)
      (fun wanted h hevents => h.aligned_after_iff hevents wanted) hstart haligned calls

/-- One byte arrives, and the read fails before the second: the byte is lost, and the sample of the
next call is put together from two. -/
theorem aligned_failed_read
    : let stream : List UInt8 := [1, 2, 3, 4, 5]
      let res := (call id).run (connected stream.zipIdx [.ready 0, .fail "timed out"]) [1, 1]
      res.1.map Event.samples = [[], [((2, 1), (3, 2))]] ∧ ¬ Aligned res.1 := by
  intro stream res
  have hsamples : res.1.map Event.samples = [[], [((2, 1), (3, 2))]] := by
    decide +kernel
  refine ⟨hsamples, ?_⟩
  intro haligned
  have hmem : (1, 2) ∈ offsets res.1 := by
    rw [offsets, List.flatMap_def, hsamples]
    decide
  rcases haligned.paired _ hmem with ⟨k, hk⟩
  rw [Prod.mk.injEq] at hk
  omega

end RtlTcpSource

end Signal
