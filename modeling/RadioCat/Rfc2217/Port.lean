import RadioCat.Rfc2217.Peer

/-!
This module contains the client half of RFC 2217: the opening exchange, the operations of the port,
and the reader thread that decodes what the server sends.
-/

namespace Rfc2217

open Trace Codec

inductive Parity where
  | none
  | odd
  | even
  | mark
  | space
  deriving DecidableEq, Repr

def Parity.wire : Parity → UInt8
  | .none => 1
  | .odd => 2
  | .even => 3
  | .mark => 4
  | .space => 5

structure Rfc2217Config where
  baudRate : UInt32 := 9600
  dataBits : UInt8 := 8
  stopBits : UInt8 := 2
  parity : Parity := .none
  initialRts : Bool := true
  initialDtr : Bool := false
  deriving DecidableEq, Repr

def toBeBytes (n : UInt32) : List UInt8 :=
  [(n >>> 24).toUInt8, (n >>> 16).toUInt8, (n >>> 8).toUInt8, n.toUInt8]

def setBaudRate (baud : UInt32) : List UInt8 :=
  comPort Client.setBaudrate (toBeBytes baud)

namespace Rfc2217Port

def setLine (on : Bool) (onValue offValue : UInt8) : List UInt8 :=
  setControl (if on then onValue else offValue)

def negotiate (config : Rfc2217Config) : List UInt8 :=
  [will, doVerb].flatMap (fun verb =>
    Codec.negotiate verb optBinary ++ Codec.negotiate verb optSuppressGoAhead)
  ++ Codec.negotiate will optComPort
  ++ setBaudRate config.baudRate
  ++ comPort Client.setDatasize [config.dataBits]
  ++ comPort Client.setParity [config.parity.wire]
  ++ comPort Client.setStopsize [config.stopBits]
  ++ setControl Control.flowNone
  ++ setLine config.initialDtr Control.dtrOn Control.dtrOff
  ++ setLine config.initialRts Control.rtsOn Control.rtsOff
  ++ comPort Client.setModemstateMask [Modem.allLevels]

def answerNegotiation (verb option : UInt8) : List UInt8 :=
  let supported := option = optBinary ∨ option = optSuppressGoAhead ∨ option = optComPort
  if verb = doVerb ∧ ¬ supported then
    Codec.negotiate wont option
  else if verb = will ∧ ¬ supported then
    Codec.negotiate dont option
  else
    []

/-- What is written to the socket, under its lock: the operations of the port and of its release
lines, and the answers of the reader thread. -/
inductive Op where
  | write (data : List UInt8)
  | setDtr (asserted : Bool)
  | setRts (asserted : Bool)
  | answer (verb option : UInt8)
  deriving DecidableEq, Repr

def Op.bytes : Op → List UInt8
  | .write data => encodeData data
  | .setDtr asserted => setLine asserted Control.dtrOn Control.dtrOff
  | .setRts asserted => setLine asserted Control.rtsOn Control.rtsOff
  | .answer verb option => answerNegotiation verb option

/-- The operation as the host program at the other end has to see it. -/
def Op.meaning : Op → List PeerEvent
  | .write data => [.data data]
  | .setDtr asserted => [.dtr asserted]
  | .setRts asserted => [.rts asserted]
  | .answer _ _ => []

open Rfc2217Peer

theorem shows_dtr (on : Bool)
    : Shows (setLine on Control.dtrOn Control.dtrOff) [.inr (.dtr on)] := by
  cases on with
  | true => exact Shows.comPort _ [Control.dtrOn] (by decide)
  | false => exact Shows.comPort _ [Control.dtrOff] (by decide)

theorem shows_rts (on : Bool)
    : Shows (setLine on Control.rtsOn Control.rtsOff) [.inr (.rts on)] := by
  cases on with
  | true => exact Shows.comPort _ [Control.rtsOn] (by decide)
  | false => exact Shows.comPort _ [Control.rtsOff] (by decide)

theorem shows_answer (verb option : UInt8) : Shows (answerNegotiation verb option) [] := by
  fun_cases answerNegotiation verb option
  case case1 => exact Shows.negotiate option (.inr (.inl rfl))
  case case2 => exact Shows.negotiate option (.inr (.inr (.inr rfl)))
  case case3 => exact Shows.nil

theorem shows_op (op : Op) : Shows op.bytes (PeerEvent.pieces.flat op.meaning) := by
  cases op with
  | write data => apply Shows.encodeData
  | setDtr asserted => apply shows_dtr
  | setRts asserted => apply shows_rts
  | answer verb option => apply shows_answer

theorem shows_ops (ops : List Op)
    : Shows (ops.flatMap Op.bytes) (PeerEvent.pieces.flat (ops.flatMap Op.meaning)) := by
  induction ops with
  | nil => exact Shows.nil
  | cons op ops ih =>
    rw [List.flatMap_cons, List.flatMap_cons, Pieces.flat_append]
    exact (shows_op op).append ih

theorem shows_setting {command : UInt8} (params : List UInt8)
    (h : command = Client.setBaudrate ∨ command = Client.setDatasize ∨ command = Client.setParity
      ∨ command = Client.setStopsize)
    : Shows (comPort command params) [] := by
  have hcommand : command ≠ iac := by
    rcases h with rfl | rfl | rfl | rfl <;> decide
  have hshown : shown (.comPort command params) = [] := by
    rcases h with rfl | rfl | rfl | rfl <;> exact events_reply (comPort (_ + serverOffset) params)
  have hshows := Shows.comPort _ params hcommand
  rw [hshown] at hshows
  exact hshows

theorem shows_negotiate (config : Rfc2217Config)
    : Shows (negotiate config) [.inr (.dtr config.initialDtr), .inr (.rts config.initialRts)] := by
  have hverb (verb : UInt8) (h : verb = will ∨ verb = wont ∨ verb = doVerb ∨ verb = dont)
      : Shows (Codec.negotiate verb optBinary ++ Codec.negotiate verb optSuppressGoAhead) [] :=
    (Shows.negotiate _ h).append (Shows.negotiate _ h)
  have hverbs := ((hverb will (.inl rfl)).append
    ((hverb doVerb (.inr (.inr (.inl rfl)))).append Shows.nil)).append
    (Shows.negotiate optComPort (.inl rfl))
  have hbaud := shows_setting (toBeBytes config.baudRate) (.inl rfl)
  have hdata := shows_setting [config.dataBits] (.inr (.inl rfl))
  have hparity := shows_setting [config.parity.wire] (.inr (.inr (.inl rfl)))
  have hstop := shows_setting [config.stopBits] (.inr (.inr (.inr rfl)))
  have hflow := Shows.comPort Client.setControl [Control.flowNone] (by decide)
  have hmask := Shows.comPort Client.setModemstateMask [Modem.allLevels] (by decide)
  exact (((((((hverbs.append hbaud).append hdata).append hparity).append hstop).append hflow).append
    (shows_dtr config.initialDtr)).append (shows_rts config.initialRts)).append hmask

/-- Whatever is done with the port and however the socket chunks the bytes, the host program sees
the two lines of the opening, then the operations in their order, adjacent data merged. -/
theorem push_operations (config : Rfc2217Config) (ops : List Op) (chunks : List (List UInt8))
    (hchunks : chunks.flatten = negotiate config ++ ops.flatMap Op.bytes)
    : PeerEvent.pieces.merge (events (push.run {} chunks).1)
      = .dtr config.initialDtr :: .rts config.initialRts
        :: PeerEvent.pieces.merge (ops.flatMap Op.meaning) := by
  have hflat := ((shows_negotiate config).append (shows_ops ops)).run_push hchunks
  have hmerge : PeerEvent.pieces.merge (events (push.run {} chunks).1)
      = PeerEvent.pieces.merge (.dtr config.initialDtr :: .rts config.initialRts
        :: ops.flatMap Op.meaning) :=
    PeerEvent.pieces.merge_eq_of_flat hflat
  exact hmerge

/-- A stretch of keying with an escaped byte in its data, delivered byte by byte. -/
theorem push_operations_bytewise
    : PeerEvent.pieces.merge (events (push.run {} ((negotiate {} ++
        [Op.write [255, 1], .setDtr true, .write [], .write [2], .answer will 1, .write [3],
          .setDtr false].flatMap Op.bytes).map ([·]))).1)
      = [.dtr false, .rts true, .data [255, 1], .dtr true, .data [2, 3], .dtr false] :=
  push_operations {} [.write [255, 1], .setDtr true, .write [], .write [2], .answer will 1,
    .write [3], .setDtr false] _ (by decide)

end Rfc2217Port

/-- What the reader thread keeps for the port. -/
structure Reader where
  decoder : Decoder := {}
  inbox : List UInt8 := []
  modemState : UInt8 := 0
  modemSeen : Bool := false
  deriving DecidableEq, Repr

namespace Reader

/-- One event of the decoder; the output is what the thread writes to the socket. -/
def handle : Transducer Reader Event UInt8 := fun r event =>
  match event with
  | .data bytes => ([], { r with inbox := r.inbox ++ bytes })
  | .comPort command params =>
    if command = Server.notifyModemstate then
      match params with
      | [] => ([], r)
      | state :: _ => ([], { r with modemState := state, modemSeen := true })
    else
      ([], r)
  | .negotiate verb option => (Rfc2217Port.answerNegotiation verb option, r)
  | .otherSubnegotiation _ _ => ([], r)

/-- One pass of the reader loop, over what one read of the socket returned. -/
def readerLoop : Transducer Reader (List UInt8) UInt8 := fun r bytes =>
  handle.run { r with decoder := (r.decoder.push bytes).2 } (r.decoder.push bytes).1

/-- The modem state held after one item of the plain stream. -/
def noted (state : UInt8) : UInt8 ⊕ Event → UInt8
  | .inl _ => state
  | .inr event => (handle { modemState := state } event).2.modemState

theorem modemState_handle (r : Reader) (event : Event)
    : (handle r event).2.modemState = (Event.pieces.flat [event]).foldl noted r.modemState := by
  cases event with
  | data bytes =>
    rw [show Event.pieces.flat [.data bytes] = bytes.map .inl from Event.pieces.flat_piece bytes,
      List.foldl_map]
    simp [noted, handle]
  | negotiate verb option => rfl
  | otherSubnegotiation option body => rfl
  | comPort command params =>
    simp only [Pieces.flat, Event.pieces, List.flatMap_cons, List.flatMap_nil, List.append_nil,
      List.foldl_cons, List.foldl_nil, noted, handle]
    repeat' split
    all_goals rfl

theorem run_handle (r : Reader) (decoded : List Event)
    : (handle.run r decoded).2.modemState
      = (Event.pieces.flat decoded).foldl noted r.modemState := by
  induction decoded generalizing r with
  | nil => rfl
  | cons event decoded ih =>
    rw [Transducer.run_cons, Pieces.flat_cons, List.foldl_append, ← modemState_handle, ih]

def decoderPart : Part Reader Decoder where
  get := decoder
  set r decoder := { r with decoder }
  get_set _ _ := rfl
  set_set _ _ _ := rfl
  set_get _ := rfl

theorem handle_blind : Transducer.Blind decoderPart handle := by
  intro r decoder event
  simp only [handle, decoderPart]
  repeat' split
  all_goals rfl

/-- The thread holds the modem state of the plain stream, however the reads cut the bytes. -/
theorem modemState_readerLoop (chunks : List (List UInt8))
    : (readerLoop.run {} chunks).2.modemState
      = (Decoder.plain.run {} chunks.flatten).1.foldl noted 0 := by
  have hrun : readerLoop.run {} chunks = _ :=
    Transducer.run_stage Decoder.push handle_blind {} chunks
  rw [hrun, ← (Decoder.run_push {} chunks rfl).1]
  apply run_handle

end Reader

end Rfc2217
