import RadioCat.Rfc2217.Modem

/-!
This module contains the way of the data from the server to the client. Whatever else the server
sends needs no answer, so that a negotiation ends with the server's side of it.
-/

namespace Rfc2217

open Trace Codec Rfc2217Peer

/-- What the reader thread writes to the socket on one item of the plain stream. -/
def Reader.written : UInt8 ⊕ Event → List UInt8
  | .inr (.negotiate verb option) => Rfc2217Port.answerNegotiation verb option
  | _ => []

theorem Reader.run_heard (r : Reader) (decoded : List Event)
    : (handle.run r decoded).1 = (Event.pieces.flat decoded).flatMap written
      ∧ (handle.run r decoded).2.inbox
        = r.inbox ++ (Event.pieces.flat decoded).filterMap Sum.getLeft? := by
  induction decoded generalizing r with
  | nil => exact ⟨rfl, (List.append_nil _).symm⟩
  | cons event decoded ih =>
    rcases ih (handle r event).2 with ⟨hrest, hlast⟩
    rw [Transducer.run_cons, hrest, hlast]
    cases event with
    | data bytes => simp [handle, written, Pieces.flat, Event.pieces, List.flatMap_map,
        List.filterMap_map, Function.comp_def]
    | comPort command params =>
      simp only [handle]
      repeat' split
      all_goals exact ⟨rfl, rfl⟩
    | _ => exact ⟨rfl, rfl⟩

namespace Link

def Action.data : Action → List UInt8
  | .send data => data
  | _ => []

/-- From rest the bytes carry the data, and nothing that the client answers. -/
def Carries (bytes data : List UInt8) : Prop :=
  ∃ items, Decoder.plain.Yields Decoder.AtRest bytes items
    ∧ items.flatMap Reader.written = [] ∧ items.filterMap Sum.getLeft? = data

theorem Carries.nil : Carries [] [] :=
  ⟨[], .nil, rfl, rfl⟩

theorem Carries.append {bytes bytes' data data' : List UInt8} (h : Carries bytes data)
    (h' : Carries bytes' data') : Carries (bytes ++ bytes') (data ++ data') := by
  rcases h with ⟨items, hyields, hwritten, rfl⟩
  rcases h' with ⟨items', hyields', hwritten', rfl⟩
  refine ⟨items ++ items', hyields.append hyields', ?_, List.filterMap_append⟩
  rw [List.flatMap_append, hwritten, hwritten', List.append_nil]

theorem Carries.comPort {command : UInt8} (params : List UInt8) (h : command ≠ iac)
    : Carries (Codec.comPort command params) [] :=
  ⟨_, Decoder.yields_comPort params h, rfl, rfl⟩

theorem Reply.carries {bytes : List UInt8} (h : Reply bytes) : Carries bytes [] := by
  cases h with
  | nil => exact Carries.nil
  | negotiate option h hsilent =>
    exact ⟨_, Decoder.yields_negotiate option h, by simp [Reader.written, hsilent], rfl⟩
  | comPort params hiac => exact Carries.comPort params hiac

theorem carries_serve (p : Rfc2217Peer) (action : Action)
    : Carries (serve p action).1 action.data := by
  cases action with
  | push bytes =>
    simp only [serve, push]
    generalize (p.decoder.push bytes).1 = decoded
    generalize { p with decoder := _ } = p
    induction decoded generalizing p with
    | nil => exact Carries.nil
    | cons event decoded ih =>
      rw [Transducer.run_cons, reply_append]
      exact (reply_handle p event).carries.append (ih _)
  | modemState state =>
    simp only [serve]
    fun_cases Rfc2217Peer.modemState p state
    case case3 => exact Carries.comPort _ (by decide)
    all_goals exact Carries.nil
  | send data =>
    refine ⟨_, Decoder.yields_encodeData data, ?_, ?_⟩
    all_goals simp [Reader.written, List.flatMap_map, List.filterMap_map, Function.comp_def,
        Action.data]

/-- Whatever the server is asked and whatever it announces in between, the client reads the data it
was sent, and has nothing to answer. -/
theorem data_arrives (actions : List Action) (chunks : List (List UInt8))
    (hchunks : chunks.flatten = (serve.run {} actions).1)
    : (Reader.readerLoop.run {} chunks).1 = []
      ∧ (Reader.readerLoop.run {} chunks).2.inbox = actions.flatMap Action.data := by
  have hcarries (p : Rfc2217Peer)
      : Carries (serve.run p actions).1 (actions.flatMap Action.data) := by
    clear hchunks
    induction actions generalizing p with
    | nil => exact Carries.nil
    | cons action actions ih => exact (carries_serve p action).append (ih _)
  rcases hcarries {} with ⟨items, hyields, hwritten, hdata⟩
  have hrun : Reader.readerLoop.run {} chunks = _ :=
    Transducer.run_stage Decoder.push Reader.handle_blind {} chunks
  rcases Reader.run_heard {} (Decoder.push.run {} chunks).1 with ⟨hanswer, hinbox⟩
  rw [(Decoder.run_push {} chunks rfl).1, hchunks, (hyields {} ⟨rfl, rfl⟩).1] at hanswer hinbox
  rw [hrun]
  exact ⟨hanswer.trans hwritten, hinbox.trans hdata⟩

def busy : List Action :=
  [.push (Codec.negotiate will 24), .send [255], subscribe Modem.cts, .modemState 0x10, .send [2]]

theorem data_arrives_bytewise
    : (Reader.readerLoop.run {} ((serve.run {} busy).1.map ([·]))).2.inbox = [255, 2] :=
  (data_arrives busy _ (by decide)).2

end Link

end Rfc2217
