import RadioCat.Rfc2217.Port

/-!
This module contains the way of the modem state from the server to the client: what the server
announces is what the reader thread of the client holds, whatever else goes over the link.
-/

namespace Rfc2217

open Trace Codec Rfc2217Peer

namespace Link

/-- What happens at the server: bytes come in, the host program hands over the state of its lines,
or it has data for the client. -/
inductive Action where
  | push (bytes : List UInt8)
  | modemState (state : UInt8)
  | send (data : List UInt8)
  deriving DecidableEq, Repr

def serve : Transducer Rfc2217Peer Action UInt8 := fun p action =>
  match action with
  | .push bytes => (reply (push p bytes).1, (push p bytes).2)
  | .modemState state => ((p.modemState state).1.getD [], (p.modemState state).2)
  | .send data => (encodeData data, p)

/-- From rest the bytes change the modem state the client holds by `f`. -/
def Notes (bytes : List UInt8) (f : UInt8 → UInt8) : Prop :=
  ∃ items, Decoder.plain.Yields Decoder.AtRest bytes items
    ∧ ∀ state, items.foldl Reader.noted state = f state

abbrev Quiet (bytes : List UInt8) : Prop :=
  Notes bytes id

theorem Notes.append {bytes bytes' : List UInt8} {f f' : UInt8 → UInt8} (h : Notes bytes f)
    (h' : Notes bytes' f') : Notes (bytes ++ bytes') (f' ∘ f) := by
  rcases h with ⟨items, hyields, hitems⟩
  rcases h' with ⟨items', hyields', hitems'⟩
  refine ⟨items ++ items', hyields.append hyields', ?_⟩
  intro state
  rw [List.foldl_append, hitems, hitems']
  rfl

theorem Notes.readerLoop {bytes : List UInt8} {f : UInt8 → UInt8} {chunks : List (List UInt8)}
    (h : Notes bytes f) (hchunks : chunks.flatten = bytes)
    : (Reader.readerLoop.run {} chunks).2.modemState = f 0 := by
  rcases h with ⟨items, hyields, hitems⟩
  rw [Reader.modemState_readerLoop, hchunks, (hyields {} ⟨rfl, rfl⟩).1, hitems]

theorem Quiet.nil : Quiet [] :=
  ⟨[], .nil, fun _ => rfl⟩

theorem Quiet.encodeData (bytes : List UInt8) : Quiet (encodeData bytes) := by
  refine ⟨_, Decoder.yields_encodeData bytes, ?_⟩
  intro state
  rw [List.foldl_map]
  simp [Reader.noted]

theorem Notes.notifyModemState (state : UInt8) : Notes (notifyModemState state) (fun _ => state) :=
  ⟨_, Decoder.yields_comPort [state] (by decide), fun _ => rfl⟩

/-- What the server replies to something: no announcement, and nothing that the client answers. -/
inductive Reply : List UInt8 → Prop where
  | nil : Reply []
  | negotiate {verb : UInt8} (option : UInt8)
    (h : verb = will ∨ verb = wont ∨ verb = doVerb ∨ verb = dont)
    (hsilent : Rfc2217Port.answerNegotiation verb option = []) : Reply (Codec.negotiate verb option)
  | comPort {command : UInt8} (params : List UInt8) (hiac : command ≠ iac)
    (hnotify : command ≠ Server.notifyModemstate) : Reply (Codec.comPort command params)

theorem Reply.quiet {bytes : List UInt8} (h : Reply bytes) : Quiet bytes := by
  cases h with
  | nil => exact Quiet.nil
  | negotiate option h => exact ⟨_, Decoder.yields_negotiate option h, fun _ => rfl⟩
  | comPort params hiac hnotify =>
    refine ⟨_, Decoder.yields_comPort params hiac, ?_⟩
    intro state
    simp [Reader.noted, Reader.handle, hnotify]

-- The client supports what the server agrees to, and what it refuses needs no answer.
theorem reply_answerNegotiation (verb option : UInt8)
    : Reply (Rfc2217Peer.answerNegotiation verb option) := by
  unfold Rfc2217Peer.answerNegotiation
  dsimp only
  repeat' split
  case isFalse.isFalse => exact Reply.nil
  all_goals
    refine Reply.negotiate option (by decide) ?_
    simp [Rfc2217Port.answerNegotiation, will, wont, doVerb, dont, *]

theorem reply_handleComPort (p : Rfc2217Peer) (command : UInt8) (params : List UInt8)
    : Reply (reply (p.handleComPort command params).1) := by
  fun_cases handleComPort p command params
  case case2 value _ =>
    fun_cases handleControl p value
    all_goals
      simp only [reply_cons, reply_reply]
      exact Reply.comPort [_] (by decide) (by decide)
  case case5 hsetting =>
    rw [reply_reply]
    apply Reply.comPort
    . rcases hsetting with rfl | rfl | rfl | rfl <;> decide
    . rcases hsetting with rfl | rfl | rfl | rfl <;> decide
  case case4 | case6 =>
    rw [reply_reply]
    exact Reply.comPort _ (by decide) (by decide)
  all_goals exact Reply.nil

theorem reply_handle (p : Rfc2217Peer) (event : Event) : Reply (reply (handle p event).1) := by
  cases event with
  | data bytes => exact Reply.nil
  | negotiate verb option =>
    simp only [handle, reply_reply]
    apply reply_answerNegotiation
  | comPort command params => apply reply_handleComPort
  | otherSubnegotiation option body => exact Reply.nil

theorem lastNotified_handle (p : Rfc2217Peer) (event : Event)
    : (handle p event).2.lastNotified = p.lastNotified := by
  fun_cases handle p event
  case case3 command params =>
    fun_cases handleComPort p command params
    case case2 value _ => fun_cases handleControl p value <;> rfl
    all_goals rfl
  all_goals rfl

theorem run_handle_quiet (p : Rfc2217Peer) (decoded : List Event)
    : Quiet (reply (handle.run p decoded).1)
      ∧ (handle.run p decoded).2.lastNotified = p.lastNotified := by
  induction decoded generalizing p with
  | nil => exact ⟨Quiet.nil, rfl⟩
  | cons event decoded ih =>
    rcases ih (handle p event).2 with ⟨hquiet, hlast⟩
    rw [Transducer.run_cons, reply_append, hlast, lastNotified_handle]
    exact ⟨(reply_handle p event).quiet.append hquiet, rfl⟩

theorem or_and_levels {d : UInt8} (h : d &&& Modem.allLevels = 0) (state : UInt8)
    : (state ||| d) &&& Modem.allLevels = state &&& Modem.allLevels := by
  apply UInt8.toBitVec_inj.mp
  have hbits := congrArg UInt8.toBitVec h
  rw [UInt8.toBitVec_and] at hbits
  rw [UInt8.toBitVec_and, UInt8.toBitVec_or, BitVec.and_or_distrib_right, hbits, UInt8.toBitVec_and]
  exact BitVec.or_zero

theorem deltas_levels (previous masked : UInt8)
    : deltas previous masked &&& Modem.allLevels = 0 := by
  unfold deltas
  dsimp only
  split <;> split <;> split <;> decide

theorem and_mask_levels {held last state mask levels : UInt8}
    (hlevels : held &&& levels = last &&& levels) (hmask : last &&& mask = state &&& mask)
    : held &&& (mask &&& levels) = state &&& (mask &&& levels) := by
  calc
    held &&& (mask &&& levels)
    _ = last &&& levels &&& mask := by rw [UInt8.and_comm mask, ← UInt8.and_assoc, hlevels]
    _ = last &&& mask &&& levels := by rw [UInt8.and_assoc, UInt8.and_comm levels, UInt8.and_assoc]
    _ = state &&& (mask &&& levels) := by rw [hmask, UInt8.and_assoc]

/-- The client holds the levels that were announced last. -/
def Agrees (p : Rfc2217Peer) (held : UInt8) : Prop :=
  ∀ last, p.lastNotified = some last → held &&& Modem.allLevels = last &&& Modem.allLevels

/-- Handing a state over makes the client agree with it on the lines it asked for. -/
theorem Agrees.modemState {p : Rfc2217Peer} {held : UInt8} (h : Agrees p held) (state : UInt8)
    : ∃ f, Notes ((p.modemState state).1.getD []) f
      ∧ Agrees (p.modemState state).2 (f held)
      ∧ f held &&& (p.modemMask &&& Modem.allLevels)
        = state &&& (p.modemMask &&& Modem.allLevels) := by
  fun_cases Rfc2217Peer.modemState p state
  case case1 hmask =>
    refine ⟨id, Quiet.nil, h, ?_⟩
    simp [hmask]
  case case2 masked previous hprevious =>
    refine ⟨id, Quiet.nil, h, ?_⟩
    rcases Option.map_eq_some_iff.mp hprevious with ⟨last, hlast, hmasked⟩
    exact and_mask_levels (h last hlast) hmasked
  case case3 masked previous hprevious out =>
    have hlevels : out &&& Modem.allLevels = masked &&& Modem.allLevels := by
      cases hlast : previous with
      | none => simp only [out, hlast]
      | some last =>
        simp only [out, hlast]
        apply or_and_levels
        apply deltas_levels
    refine ⟨fun _ => out, Notes.notifyModemState out, ?_, ?_⟩
    . rintro last ⟨⟩
      exact hlevels
    . apply and_mask_levels hlevels
      rw [UInt8.and_assoc, UInt8.and_self]

theorem Agrees.step {p : Rfc2217Peer} {held : UInt8} (h : Agrees p held) (action : Action)
    : ∃ f, Notes (serve p action).1 f ∧ Agrees (serve p action).2 (f held) := by
  cases action with
  | push bytes =>
    rcases run_handle_quiet { p with decoder := (p.decoder.push bytes).2 }
      (p.decoder.push bytes).1 with ⟨hquiet, hlast⟩
    refine ⟨id, hquiet, ?_⟩
    intro last hnotified
    apply h
    exact hlast.symm.trans hnotified
  | modemState state =>
    rcases h.modemState state with ⟨f, hnotes, hagrees, _⟩
    exact ⟨f, hnotes, hagrees⟩
  | send data => exact ⟨id, Quiet.encodeData data, h⟩

theorem Agrees.run {p : Rfc2217Peer} {held : UInt8} (h : Agrees p held) (actions : List Action)
    : ∃ f, Notes (serve.run p actions).1 f ∧ Agrees (serve.run p actions).2 (f held) := by
  induction actions generalizing p held with
  | nil => exact ⟨id, Quiet.nil, h⟩
  | cons action actions ih =>
    rcases h.step action with ⟨f, hnotes, hstep⟩
    rcases ih hstep with ⟨f', hnotes', hrest⟩
    exact ⟨f' ∘ f, hnotes.append hnotes', hrest⟩

theorem quiet_run (p : Rfc2217Peer) {actions : List Action}
    (h : ∀ action ∈ actions, ∀ state, action ≠ .modemState state)
    : Quiet (serve.run p actions).1 := by
  induction actions generalizing p with
  | nil => exact Quiet.nil
  | cons action actions ih =>
    have hrest := ih (serve p action).2 fun action' hmem => h action' (.tail _ hmem)
    have hfirst : Quiet (serve p action).1 := by
      cases action with
      | push bytes => exact (run_handle_quiet _ _).1
      | modemState state => exact absurd rfl (h _ (.head _) state)
      | send data => apply Quiet.encodeData
    exact hfirst.append hrest

/-- Whatever came before and whatever was done since, short of handing over another state, the
client holds the state handed over last, on the lines it had then asked for. -/
theorem modemState_converges (before after : List Action) (state : UInt8)
    (hafter : ∀ action ∈ after, ∀ state', action ≠ .modemState state')
    (chunks : List (List UInt8))
    (hchunks : chunks.flatten = (serve.run {} (before ++ .modemState state :: after)).1)
    : (Reader.readerLoop.run {} chunks).2.modemState
        &&& ((serve.run {} before).2.modemMask &&& Modem.allLevels)
      = state &&& ((serve.run {} before).2.modemMask &&& Modem.allLevels) := by
  have hinitial : Agrees {} 0 := by
    rintro last ⟨⟩
  rcases hinitial.run before with ⟨f, hbefore, hagrees⟩
  rcases hagrees.modemState state with ⟨g, hstate, _, hlevels⟩
  have hrest := quiet_run (serve (serve.run {} before).2 (.modemState state)).2 hafter
  have hall : Notes (serve.run {} (before ++ .modemState state :: after)).1 (g ∘ f) := by
    rw [Transducer.run_append, Transducer.run_cons]
    exact hbefore.append (hstate.append hrest)
  rw [hall.readerLoop hchunks]
  exact hlevels

def subscribe (mask : UInt8) : Action :=
  .push (comPort Client.setModemstateMask [mask])

/-- A state with CTS and DCD up, told byte by byte to a client that then asks for less. -/
theorem modemState_converges_bytewise
    : (Reader.readerLoop.run {} ((serve.run {}
        ([subscribe Modem.allLevels] ++
          .modemState 0x90 :: [.send [255], subscribe Modem.cts])).1.map ([·]))).2.modemState
            &&& 0xF0 = 0x90 :=
  modemState_converges [subscribe Modem.allLevels] [.send [255], subscribe Modem.cts] 0x90
    (by simp [subscribe]) _ (by decide)

/-- A client that asks for DSR after the state was handed over is not told of it before the next
one: it holds DSR low while it is up. -/
theorem subscription_without_state
    : ((Reader.readerLoop.run {} [(serve.run {} [subscribe Modem.cts, .modemState 0x30,
          subscribe (Modem.cts ||| Modem.dsr)]).1]).2.modemState
        &&& ((serve.run {} [subscribe Modem.cts, .modemState 0x30,
          subscribe (Modem.cts ||| Modem.dsr)]).2.modemMask &&& Modem.allLevels))
      ≠ 0x30 &&& ((serve.run {} [subscribe Modem.cts, .modemState 0x30,
          subscribe (Modem.cts ||| Modem.dsr)]).2.modemMask &&& Modem.allLevels) := by
  decide

end Link

end Rfc2217
