import RadioCat.Native.Serve
import RadioCat.Native.Session
import RadioCat.Native.Signal
import RadioCat.Native.Stream

/-!
This module contains a console and its server with the stream between them: what the console sends
and reads, what the server answers and pushes, and the bytes that are on their way.
-/

namespace Native

open Trace

/-- One direction of the stream. A write that fails leaves a part of its frame there. -/
structure Pipe where
  flight : List UInt8 := []
  torn : Option (Frame × Nat) := none
  -- The frames written as a whole and the chunks read, which no step looks at.
  written : List Frame := []
  reads : List (List UInt8) := []

namespace Pipe

variable {p : Pipe}

def part (torn : Frame × Nat) : List UInt8 :=
  (encodeFrame torn.1).dropLast.take torn.2

/-- Frames, and behind them perhaps a part of one more. -/
def write (p : Pipe) (whole : List Frame) (torn : Option (Frame × Nat) := none) : Pipe :=
  { p with
    flight := p.flight ++ (whole.flatMap encodeFrame ++ torn.toList.flatMap part)
    torn
    written := p.written ++ whole }

def read (p : Pipe) (n : Nat) : Pipe :=
  { p with flight := p.flight.drop n, reads := p.reads ++ [p.flight.take n] }

/-- What was read, and what is still on its way, is what was written. -/
def Intact (p : Pipe) : Prop :=
  p.reads.flatten ++ p.flight = p.written.flatMap encodeFrame ++ p.torn.toList.flatMap part

def Fits (p : Pipe) : Prop :=
  ∀ frame ∈ p.written ++ p.torn.toList.map Prod.fst, Encodable frame

theorem Intact.write (h : p.Intact) (hwhole : p.torn = none) (whole : List Frame)
    (torn : Option (Frame × Nat))
    : (p.write whole torn).Intact := by
  simp only [Intact, hwhole, Option.toList_none, List.flatMap_nil, List.append_nil] at h
  simp only [Intact, Pipe.write, List.flatMap_append]
  rw [← List.append_assoc, h, List.append_assoc]

theorem Intact.read (h : p.Intact) (n : Nat) : (p.read n).Intact := by
  simpa [Intact, Pipe.read] using h

theorem decodeFrame_torn {torn : Frame × Nat} (h : Encodable torn.1)
    : decodeFrame (part torn) = .error .incomplete := by
  apply decodeFrame_part h
  . exact (List.take_prefix _ _).trans (List.dropLast_prefix _)
  . intro hpart
    have hlength := congrArg List.length hpart
    simp only [part, encodeFrame, List.length_take, List.length_dropLast, List.length_append,
      List.length_cons] at hlength
    omega

theorem Intact.reads_prefix (h : p.Intact)
    : p.reads.flatten <+: (p.written ++ p.torn.toList.map Prod.fst).flatMap encodeFrame := by
  apply (List.prefix_append _ p.flight).trans
  rw [h, List.flatMap_append, List.flatMap_map]
  apply (List.prefix_append_right_inj _).mpr
  cases p.torn with
  | none => exact List.prefix_refl _
  | some torn =>
    simp only [Option.toList_some, List.flatMap_singleton]
    exact (List.take_prefix _ _).trans (List.dropLast_prefix _)

theorem Intact.drain (h : p.Intact) (hfits : p.Fits)
    : (frames.drain p.reads.flatten).1 <+: p.written
      ∧ (p.flight = [] → p.torn = none → frames.drain p.reads.flatten = (p.written, [])) := by
  have hwritten : frames.drain (p.written.flatMap encodeFrame) = (p.written, []) := by
    apply drain_encoded
    intro frame hmem
    exact hfits frame (List.mem_append_left _ hmem)
  constructor
  . have htorn : frames.drain (p.torn.toList.flatMap part) = ([], p.torn.toList.flatMap part) := by
      apply frames.drain_none
      cases htorn : p.torn with
      | none => rfl
      | some torn =>
        have hincomplete := decodeFrame_torn (hfits torn.1 (by simp [htorn]))
        simp [frames, nextFrame, hincomplete]
    have hdrain := frames.drain_append p.reads.flatten p.flight
    rw [h, frames.drain_append, hwritten, List.nil_append, htorn, List.append_nil] at hdrain
    exact ⟨_, (Prod.mk.inj hdrain).1.symm⟩
  . intro hflight hwhole
    simp only [Intact, hflight, hwhole, List.append_nil, Option.toList_none, List.flatMap_nil] at h
    rw [h, hwritten]

end Pipe

/-- `serde_json` over the messages of both ends. -/
structure Json (K : Kinds) where
  messageToVec : ClientMessage → List UInt8
  messageFromSlice : List UInt8 → Except String ClientMessage
  replyToVec : ServerMessage K → List UInt8
  replyFromSlice : List UInt8 → Except String (ServerMessage K)

namespace Json

variable {K : Kinds} (json : Json K)

def messageFrame (message : ClientMessage) : Frame :=
  (.control, json.messageToVec message)

def replyFrame (reply : ServerMessage K) : Frame :=
  (.control, json.replyToVec reply)

def payloads : Payloads (ServerMessage K) SpectrumFrame AudioFrame :=
  { fromSlice := json.replyFromSlice, decodeSpectrumPayload, decodeAudioPayload }

end Json

abbrev Item (K : Kinds) := Except ClientError (ServerMessage K)

abbrev Log (K : Kinds) := List (Event (ServerMessage K))

def Event.reply {ρ : Type} : Event ρ → Option ρ
  | .received _ => none
  | .answered _ reply => some reply

structure Link (K : Kinds) where
  console : Console (ServerMessage K) SpectrumFrame AudioFrame := {}
  up : Pipe := {}
  server : Connection (NativeSession K)
  down : Pipe := {}
  -- The messages sent and the items taken, which no step looks at.
  sent : List ClientMessage := []
  taken : List (Item K) := []

namespace Link

variable {K : Kinds}

/-- A write that fails does so after as many bytes as given, and is the last one of its end. -/
inductive Act (K : Kinds) where
  | send (message : ClientMessage)
  | sendFails (message : ClientMessage) (accepted : Nat)
  -- `fill` with as many bytes, and `drain_frames`.
  | fill (n : Nat)
  | pendingControl
  | takeSpectrum
  | takeAudio
  -- The server reads as many bytes, or none when its timeout elapses, and answers. `torn` is the
  -- reply that could not be written, if there is one.
  | serve (n : Nat) (moments : Nat → Moment Command RadioState (List K.DeviceList))
      (torn : ServerMessage K) (accepted : Nat)
  -- Pictures go out on their own clock: any picture, at any time.
  | push (picture : Frame)
  | pushFails (picture : Frame) (accepted : Nat)
  | hangUp

def readBufLen : Nat := 16 * 1024

/-- The log is that of the server's loop. -/
def machine (env : Cw.Env) (json : Json K) : Machine (Link K) (Act K) (Event (ServerMessage K))
  | s, .send message =>
    if s.up.torn.isNone then
      some ([],
        { s with up := s.up.write [json.messageFrame message], sent := s.sent ++ [message] })
    else
      none
  | s, .sendFails message accepted =>
    if s.up.torn.isNone then
      some ([], { s with up := s.up.write [] (some (json.messageFrame message, accepted)) })
    else
      none
  | s, .fill n =>
    if 0 < n ∧ n ≤ readBufLen ∧ n ≤ s.down.flight.length then
      some ([],
        { s with
          console := (Console.read json.payloads s.console (s.down.flight.take n)).2
          down := s.down.read n })
    else
      none
  | s, .pendingControl =>
    match s.console.inbox with
    | [] => none
    | item :: inbox =>
      some ([], { s with console := { s.console with inbox }, taken := s.taken ++ [item] })
  | s, .takeSpectrum => some ([], { s with console := { s.console with latestSpectrum := none } })
  | s, .takeAudio => some ([], { s with console := { s.console with latestAudio := none } })
  | s, .serve n moments torn accepted =>
    let chunk := s.up.flight.take n
    let input := if chunk = [] then .idle moments else .read chunk moments
    match serveOne (NativeSession.protocol env json.messageFromSlice) s.server input with
    | none => none
    | some (served, server) =>
      some (served,
        { s with
          up := s.up.read n
          server
          down := s.down.write ((served.filterMap Event.reply).map json.replyFrame)
            (if server.isOpen then none else some (json.replyFrame torn, accepted)) })
  | s, .push picture =>
    if s.server.isOpen ∧ picture.1 ≠ .control then
      some ([], { s with down := s.down.write [picture] })
    else
      none
  | s, .pushFails picture accepted =>
    if s.server.isOpen ∧ picture.1 ≠ .control then
      some ([],
        { s with
          down := s.down.write [] (some (picture, accepted))
          server := { s.server with isOpen := false } })
    else
      none
  | s, .hangUp =>
    if s.server.isOpen then
      some ([], { s with server := { s.server with isOpen := false } })
    else
      none

end Link

end Native
