import RadioCat.Arith.Float
import RadioCat.Trace.Transducer

/-!
This module contains the queue between an application and an output callback: the application
writes what fits, and the callback takes what is there and fills up with silence.
-/

namespace Signal

open Arith Trace

def silence : F32 := ⟨0⟩

/-- `x.clamp(-1.0, 1.0)`, with nothing for what is not a number. -/
def clean (x : F32) : F32 :=
  if x.isNan then
    silence
  else if x.partialCmp ⟨0xBF800000⟩ = some .lt then
    ⟨0xBF800000⟩
  else if x.partialCmp ⟨0x3F800000⟩ = some .gt then
    ⟨0x3F800000⟩
  else
    x

structure PlaybackQueue where
  samples : List F32
  playing : Bool
  closed : Option String
  capacity : Nat
  underruns : Nat
  busy : Nat
  bounded : samples.length ≤ capacity

namespace PlaybackQueue

def new (capacitySamples : Nat) : PlaybackQueue where
  samples := []
  playing := false
  closed := none
  capacity := max capacitySamples 1
  underruns := 0
  busy := 0
  bounded := Nat.zero_le _

def room (queue : PlaybackQueue) (mono : List F32) : Nat :=
  min (queue.capacity - queue.samples.length) mono.length

def write (queue : PlaybackQueue) (mono : List F32) : Except String Nat × PlaybackQueue :=
  match queue.closed with
  | some why => (.error why, queue)
  | none =>
    (.ok (queue.room mono),
      { queue with
        samples := queue.samples ++ (mono.map clean).take (queue.room mono)
        bounded := by
          have hbounded := queue.bounded
          rw [List.length_append, List.length_take, List.length_map, room]
          omega })

def clear (queue : PlaybackQueue) : PlaybackQueue :=
  { queue with
    samples := []
    playing := false
    bounded := Nat.zero_le _ }

def close (queue : PlaybackQueue) (why : String) : PlaybackQueue :=
  { queue with closed := queue.closed.or (some why) }

/-- The whole frames of a buffer; no channel at all counts as one. -/
def frames (len channels : Nat) : Nat :=
  len / max channels 1

/-- The samples a callback takes, when it gets the lock. -/
def taken (queue : PlaybackQueue) (len channels : Nat) : List F32 :=
  queue.samples.take (frames len channels)

/-- The buffer of a callback: each sample on every channel of one frame, and silence after them. -/
def filled (taken : List F32) (len channels : Nat) : List F32 :=
  taken.flatMap (List.replicate (max channels 1)) ++
    List.replicate (len - taken.length * max channels 1) silence

/-- A callback with a buffer of `len` samples, and whether it finds the lock held. -/
def render (queue : PlaybackQueue) (len channels : Nat) (held : Bool)
    : List F32 × PlaybackQueue :=
  if frames len channels = 0 then
    (List.replicate len silence, queue)
  else if held then
    (List.replicate len silence, { queue with busy := queue.busy + 1 })
  else
    let taken := queue.taken len channels
    (filled taken len channels,
      { queue with
        samples := queue.samples.drop taken.length
        playing := taken.length = frames len channels
        underruns :=
          if taken.length < frames len channels ∧ queue.playing then
            queue.underruns + 1
          else
            queue.underruns
        bounded := by
          have hbounded := queue.bounded
          rw [List.length_drop]
          omega })

inductive Action where
  | write (mono : List F32)
  | clear
  | close (why : String)
  | render (len channels : Nat) (held : Bool)
  deriving DecidableEq, Repr

/-- A callback that is passed over: it has no frame to fill or does not get the lock. -/
def passed (len channels : Nat) (held : Bool) : Bool :=
  frames len channels = 0 || held

/-- What a call shows, with the samples a callback took out. -/
inductive Event where
  | wrote (mono : List F32) (result : Except String Nat)
  | cleared
  | closed
  | rendered (len channels : Nat) (held : Bool) (out taken : List F32)
  deriving DecidableEq

def call : Transducer PlaybackQueue Action Event
  | queue, .write mono => ([.wrote mono (queue.write mono).1], (queue.write mono).2)
  | queue, .clear => ([.cleared], queue.clear)
  | queue, .close why => ([.closed], queue.close why)
  | queue, .render len channels held =>
    let left := (queue.render len channels held).2.samples.length
    let taken := queue.samples.take (queue.samples.length - left)
    ([.rendered len channels held (queue.render len channels held).1 taken],
      (queue.render len channels held).2)

def accepted (mono : List F32) : Except String Nat → List F32
  | .ok n => (mono.map clean).take n
  | .error _ => []

/-- What the events of a run come to. -/
structure Account where
  -- the samples accepted, without those a clear discarded
  kept : List F32 := []
  played : List F32 := []
  -- the last callback that was not passed over filled its whole buffer, with no clear since
  full : Bool := false
  underruns : Nat := 0

def Account.note (a : Account) : Event → Account
  | .wrote mono result => { a with kept := a.kept ++ accepted mono result }
  -- what was accepted and not played yet is discarded
  | .cleared => { a with kept := a.kept.take a.played.length, full := false }
  | .closed => a
  | .rendered len channels held _ taken =>
    if passed len channels held then
      { a with played := a.played ++ taken }
    else
      { a with
        played := a.played ++ taken
        full := taken.length = frames len channels
        underruns :=
          if a.full ∧ 0 < taken.length ∧ taken.length < frames len channels then
            a.underruns + 1
          else
            a.underruns }

def account (events : List Event) : Account :=
  events.foldl Account.note {}

/-- A callback fills its buffer from the front with what it takes, and one that is passed over
takes nothing. -/
def Event.Proper : Event → Prop
  | .rendered len channels held out taken =>
    out = filled taken len channels ∧ taken.length ≤ frames len channels ∧
      (passed len channels held → taken = [])
  | _ => True

structure Lawful (capacitySamples : Nat) (events : List Event) (queue : PlaybackQueue)
    : Prop where
  inOrder : (account events).played <+: (account events).kept
  proper : ∀ e ∈ events, e.Proper
  bounded : queue.samples.length ≤ max capacitySamples 1
  counted : queue.underruns = (account events).underruns

/-- A callback does not find the queue empty right after one that was filled completely. -/
def Fed (queue : PlaybackQueue) : Action → Prop
  | .render len channels held =>
    passed len channels held = false → queue.playing = true → queue.samples ≠ []
  | _ => True

theorem account_append (events : List Event) (e : Event)
    : account (events ++ [e]) = (account events).note e := by
  rw [account, List.foldl_append]
  rfl

theorem write_samples (queue : PlaybackQueue) (mono : List F32)
    : (queue.write mono).2.samples = queue.samples ++ accepted mono (queue.write mono).1 := by
  fun_cases write queue mono
  . exact (List.append_nil _).symm
  . rfl

theorem write_other (queue : PlaybackQueue) (mono : List F32)
    : (queue.write mono).2.playing = queue.playing ∧
      (queue.write mono).2.underruns = queue.underruns ∧
      (queue.write mono).2.capacity = queue.capacity := by
  fun_cases write queue mono
  . exact ⟨rfl, rfl, rfl⟩
  . exact ⟨rfl, rfl, rfl⟩

theorem length_taken (queue : PlaybackQueue) (len channels : Nat)
    : (queue.taken len channels).length = min (frames len channels) queue.samples.length := by
  rw [taken, List.length_take]

theorem take_taken (queue : PlaybackQueue) (len channels : Nat)
    : queue.samples.take (queue.taken len channels).length = queue.taken len channels := by
  rw [taken, List.length_take, ← List.take_eq_take_min]

/-- A callback that gets the lock and has a frame to fill. -/
structure Rendered (queue : PlaybackQueue) (len channels : Nat) (out : List F32)
    (queue' : PlaybackQueue) : Prop where
  out : out = filled (queue.taken len channels) len channels
  samples : queue'.samples = queue.samples.drop (queue.taken len channels).length
  playing : queue'.playing = decide ((queue.taken len channels).length = frames len channels)
  underruns : queue'.underruns =
    if (queue.taken len channels).length < frames len channels ∧ queue.playing then
      queue.underruns + 1
    else
      queue.underruns
  capacity : queue'.capacity = queue.capacity

theorem render_rendered (queue : PlaybackQueue) {len channels : Nat} {held : Bool}
    (h : passed len channels held = false)
    : Rendered queue len channels (queue.render len channels held).1
        (queue.render len channels held).2 := by
  rw [passed, Bool.or_eq_false_iff, decide_eq_false_iff_not] at h
  rw [render, if_neg h.1, if_neg (by simp [h.2])]
  exact ⟨rfl, rfl, rfl, rfl, rfl⟩

theorem render_passed (queue : PlaybackQueue) {len channels : Nat} {held : Bool}
    (h : passed len channels held = true)
    : (queue.render len channels held).1 = filled [] len channels ∧
      (queue.render len channels held).2 = { queue with
        busy := (queue.render len channels held).2.busy } := by
  have hsilent : filled [] len channels = List.replicate len silence := by
    simp [filled]
  rw [hsilent]
  fun_cases render queue len channels held
  . exact ⟨rfl, rfl⟩
  . exact ⟨rfl, rfl⟩
  . simp_all [passed]

theorem call_rendered (queue : PlaybackQueue) {len channels : Nat} {held : Bool}
    (h : passed len channels held = false)
    : (call queue (.render len channels held)).1 =
        [.rendered len channels held (filled (queue.taken len channels) len channels)
          (queue.taken len channels)] := by
  have hrender := render_rendered queue h
  have hcount : queue.samples.length - (queue.samples.length - (queue.taken len channels).length) =
      (queue.taken len channels).length := by
    have hle := queue.length_taken len channels
    omega
  simp only [call, hrender.out, hrender.samples, List.length_drop, hcount, take_taken]

theorem call_passed (queue : PlaybackQueue) {len channels : Nat} {held : Bool}
    (h : passed len channels held = true)
    : (call queue (.render len channels held)).1 =
        [.rendered len channels held (filled [] len channels) []] := by
  rcases render_passed queue h with ⟨hout, hqueue⟩
  simp only [call, hout]
  rw [hqueue]
  simp

/-- The queue holds what was accepted and neither played nor discarded. -/
structure Tracks (capacitySamples : Nat) (events : List Event) (queue : PlaybackQueue)
    : Prop where
  kept : (account events).kept = (account events).played ++ queue.samples
  full : (account events).full = queue.playing
  proper : ∀ e ∈ events, e.Proper
  capacity : queue.capacity = max capacitySamples 1
  underruns : (account events).underruns ≤ queue.underruns

section

variable {capacitySamples : Nat} {events : List Event} {queue : PlaybackQueue}

theorem proper_append {e : Event} (h : ∀ e ∈ events, e.Proper) (he : e.Proper)
    : ∀ e' ∈ events ++ [e], e'.Proper := by
  intro e' he'
  rcases List.mem_append.mp he' with hold | hnew
  . exact h e' hold
  . rw [List.mem_singleton.mp hnew]
    exact he

theorem Tracks.rendered (h : Tracks capacitySamples events queue) {len channels : Nat}
    {held : Bool} (hpassed : passed len channels held = false)
    : Tracks capacitySamples (events ++ (call queue (.render len channels held)).1)
        (call queue (.render len channels held)).2 := by
  have hrender := render_rendered queue hpassed
  have hle := queue.length_taken len channels
  have hnote := account_append events (.rendered len channels held
    (filled (queue.taken len channels) len channels) (queue.taken len channels))
  rw [Account.note, if_neg (by simp [hpassed])] at hnote
  have hunderruns := h.underruns
  have hfull := h.full
  rw [call_rendered queue hpassed]
  constructor
  . rw [hnote]
    simp only [call, hrender.samples, h.kept, List.append_assoc]
    have hsplit := List.take_append_drop (queue.taken len channels).length queue.samples
    rw [take_taken] at hsplit
    rw [hsplit]
  . rw [hnote]
    exact hrender.playing.symm
  . apply proper_append h.proper
    refine ⟨rfl, by omega, ?_⟩
    intro htrue
    cases hpassed.symm.trans htrue
  . exact hrender.capacity.trans h.capacity
  . rw [hnote]
    simp only [call, hrender.underruns, hfull]
    split
    next hcounted =>
      rw [if_pos ⟨hcounted.2.2, hcounted.1⟩]
      omega
    next => split <;> omega

theorem Tracks.passed (h : Tracks capacitySamples events queue) {len channels : Nat}
    {held : Bool} (hpassed : PlaybackQueue.passed len channels held = true)
    : Tracks capacitySamples (events ++ (call queue (.render len channels held)).1)
        (call queue (.render len channels held)).2 := by
  have hqueue := (render_passed queue hpassed).2
  have hnote := account_append events (.rendered len channels held (filled [] len channels) [])
  rw [Account.note, if_pos hpassed, List.append_nil] at hnote
  rw [call_passed queue hpassed]
  simp only [call]
  rw [hqueue]
  refine ⟨?_, ?_, ?_, h.capacity, ?_⟩
  . rw [hnote]
    exact h.kept
  . rw [hnote]
    exact h.full
  . apply proper_append h.proper
    exact ⟨rfl, Nat.zero_le _, fun _ => rfl⟩
  . rw [hnote]
    exact h.underruns

theorem Tracks.after (h : Tracks capacitySamples events queue) (a : Action)
    : Tracks capacitySamples (events ++ (call queue a).1) (call queue a).2 := by
  cases a with
  | write mono =>
    rcases queue.write_other mono with ⟨hplaying, hunderruns, hcapacity⟩
    have hnote := account_append events (.wrote mono (queue.write mono).1)
    refine ⟨?_, ?_, ?_, hcapacity.trans h.capacity, ?_⟩
    . simp only [call, hnote, Account.note, write_samples, h.kept, List.append_assoc]
    . simp only [call, hnote, Account.note, hplaying, h.full]
    . exact proper_append h.proper trivial
    . simp only [call, hnote, Account.note, hunderruns, h.underruns]
  | clear =>
    have hnote := account_append events .cleared
    refine ⟨?_, ?_, ?_, h.capacity, ?_⟩
    . simp only [call, hnote, Account.note, clear, h.kept, List.take_left, List.append_nil]
    . simp only [call, hnote, Account.note, clear]
    . exact proper_append h.proper trivial
    . simp only [call, hnote, Account.note, clear, h.underruns]
  | close why =>
    have hnote := account_append events .closed
    refine ⟨?_, ?_, ?_, h.capacity, ?_⟩
    . simp only [call, hnote, Account.note, close, h.kept]
    . simp only [call, hnote, Account.note, close, h.full]
    . exact proper_append h.proper trivial
    . simp only [call, hnote, Account.note, close, h.underruns]
  | render len channels held =>
    cases hpassed : PlaybackQueue.passed len channels held with
    | false => exact h.rendered hpassed
    | true => exact h.passed hpassed

/-- How many more underruns the queue counted than there were. -/
def overcount (events : List Event) (queue : PlaybackQueue) : Nat :=
  queue.underruns - (account events).underruns

theorem Tracks.overcount_rendered (h : Tracks capacitySamples events queue) {len channels : Nat}
    {held : Bool} (hpassed : PlaybackQueue.passed len channels held = false)
    : overcount (events ++ (call queue (.render len channels held)).1)
        (call queue (.render len channels held)).2 =
      overcount events queue + if queue.playing = true ∧ queue.samples = [] then 1 else 0 := by
  have hrender := render_rendered queue hpassed
  have hle := queue.length_taken len channels
  have hunderruns := h.underruns
  have hframes : 0 < frames len channels := by
    rw [PlaybackQueue.passed, Bool.or_eq_false_iff, decide_eq_false_iff_not] at hpassed
    omega
  rw [call_rendered queue hpassed, overcount, overcount, account_append, Account.note,
    if_neg (by simp [hpassed])]
  simp only [call, hrender.underruns, h.full]
  cases hplaying : queue.playing with
  | false => simp
  | true =>
    simp only [true_and, and_true, ← List.length_eq_zero_iff]
    split <;> split <;> split <;> omega

theorem Tracks.overcount_after (h : Tracks capacitySamples events queue) (a : Action)
    : overcount events queue ≤ overcount (events ++ (call queue a).1) (call queue a).2 ∧
      (overcount (events ++ (call queue a).1) (call queue a).2 = overcount events queue ↔
        Fed queue a) := by
  cases a with
  | write mono => simp [overcount, call, account_append, Account.note, write_other, Fed]
  | clear => simp [overcount, call, account_append, Account.note, clear, Fed]
  | close why => simp [overcount, call, account_append, Account.note, close, Fed]
  | render len channels held =>
    cases hpassed : PlaybackQueue.passed len channels held with
    | false =>
      rw [h.overcount_rendered hpassed, Fed]
      split
      next hempty => simp [hpassed, hempty]
      next hempty => simpa [hpassed] using hempty
    | true =>
      have hsame : overcount (events ++ (call queue (.render len channels held)).1)
          (call queue (.render len channels held)).2 = overcount events queue := by
        rw [call_passed queue hpassed, overcount, account_append, Account.note, if_pos hpassed]
        simp only [call]
        rw [(render_passed queue hpassed).2]
        rfl
      rw [hsame]
      simp [Fed, hpassed]

end

/-- A run keeps to what is documented exactly when no callback finds the queue empty right after
one that was filled completely. -/
theorem playback_lawful_iff (capacitySamples : Nat) (actions : List Action)
    : Lawful capacitySamples (call.run (new capacitySamples) actions).1
        (call.run (new capacitySamples) actions).2 ↔
      call.Throughout Fed (new capacitySamples) actions := by
  have hstart : Tracks capacitySamples [] (new capacitySamples) := by
    refine ⟨rfl, rfl, ?_, rfl, Nat.le_refl 0⟩
    intro e he
    cases he
  have htracks := Transducer.run_invariant (fun a h => h.after a) hstart actions
  have hovercount := Transducer.run_raised_iff (I := Tracks capacitySamples) (f := overcount)
    (fun a h => h.after a) (fun a h => h.overcount_after a) hstart actions
  rw [List.nil_append] at htracks hovercount
  have hunderruns := htracks.underruns
  have hzero : overcount [] (new capacitySamples) = 0 := rfl
  rw [← hovercount.2, hzero]
  constructor
  . intro hlawful
    rw [overcount, hlawful.counted, Nat.sub_self]
  . intro hnone
    constructor
    . exact ⟨_, htracks.kept.symm⟩
    . exact htracks.proper
    . exact Nat.le_trans (PlaybackQueue.bounded _) (Nat.le_of_eq htracks.capacity)
    . rw [overcount] at hnone
      omega

/-- Four samples played by one callback of four frames: the next one finds nothing, and counts as an
underrun although the audio ended on the boundary. -/
theorem boundary_counted
    : let actions : List Action :=
        [.write (List.replicate 4 ⟨0x3F000000⟩), .render 4 1 false, .render 4 1 false]
      let res := call.run (new 16) actions
      res.2.underruns = 1 ∧ (account res.1).underruns = 0 ∧ ¬ Lawful 16 res.1 res.2 := by
  intro actions res
  refine ⟨by decide +kernel, by decide +kernel, ?_⟩
  intro hlawful
  exact absurd hlawful.counted (by decide +kernel)

end PlaybackQueue

end Signal
