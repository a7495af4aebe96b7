import RadioCat.Rfc2217.Codec

/-!
This module contains the server half of RFC 2217: what a host program has to act on of the bytes
the client sends, the replies, and the announcements of the modem state.
-/

namespace Rfc2217

open Trace Codec

namespace Client

abbrev signature : UInt8 := 0
abbrev setBaudrate : UInt8 := 1
abbrev setDatasize : UInt8 := 2
abbrev setParity : UInt8 := 3
abbrev setStopsize : UInt8 := 4
abbrev setControl : UInt8 := 5
abbrev setModemstateMask : UInt8 := 11

end Client

abbrev serverOffset : UInt8 := 100

namespace Server

abbrev signature : UInt8 := Client.signature + serverOffset
abbrev setControl : UInt8 := Client.setControl + serverOffset
abbrev notifyModemstate : UInt8 := 7 + serverOffset
abbrev setModemstateMask : UInt8 := Client.setModemstateMask + serverOffset

end Server

namespace Control

abbrev flowNone : UInt8 := 1
abbrev breakOn : UInt8 := 5
abbrev breakOff : UInt8 := 6
abbrev dtrRequest : UInt8 := 7
abbrev dtrOn : UInt8 := 8
abbrev dtrOff : UInt8 := 9
abbrev rtsRequest : UInt8 := 10
abbrev rtsOn : UInt8 := 11
abbrev rtsOff : UInt8 := 12

end Control

namespace Modem

abbrev cts : UInt8 := 0x10
abbrev dsr : UInt8 := 0x20
abbrev ri : UInt8 := 0x40
abbrev dcd : UInt8 := 0x80
abbrev deltaCts : UInt8 := 0x01
abbrev deltaDsr : UInt8 := 0x02
abbrev deltaDcd : UInt8 := 0x08
abbrev allLevels : UInt8 := cts ||| dsr ||| ri ||| dcd

end Modem

def setControl (value : UInt8) : List UInt8 :=
  comPort Client.setControl [value]

def notifyModemState (state : UInt8) : List UInt8 :=
  comPort Server.notifyModemstate [state]

inductive PeerEvent where
  | data (bytes : List UInt8)
  | dtr (on : Bool)
  | rts (on : Bool)
  | breakSignal (on : Bool)
  deriving DecidableEq, Repr

def PeerEvent.pieces : Pieces UInt8 PeerEvent where
  piece
    | .data bytes => some bytes
    | _ => none
  ofPiece := .data
  piece_ofPiece _ := rfl

structure Rfc2217Peer where
  decoder : Decoder := {}
  dtr : Bool := false
  rts : Bool := true
  modemMask : UInt8 := 0
  lastNotified : Option UInt8 := none
  deriving DecidableEq, Repr

namespace Rfc2217Peer

/-- What a call fills: the events for the host program on the left, the reply on the right. -/
abbrev Out := PeerEvent ⊕ UInt8

def events (outs : List Out) : List PeerEvent :=
  outs.filterMap Sum.getLeft?

def reply (outs : List Out) : List UInt8 :=
  outs.filterMap Sum.getRight?

def answerNegotiation (verb option : UInt8) : List UInt8 :=
  let supported := option = optBinary ∨ option = optSuppressGoAhead ∨ option = optComPort
  if verb = will then
    Codec.negotiate (if supported then doVerb else dont) option
  else if verb = doVerb then
    Codec.negotiate (if supported then will else wont) option
  else
    []

def controlEcho (value : UInt8) : List UInt8 :=
  comPort Server.setControl [value]

def handleControl (p : Rfc2217Peer) (value : UInt8) : List Out × Rfc2217Peer :=
  if value = Control.dtrOn ∨ value = Control.dtrOff then
    (.inl (.dtr (value = Control.dtrOn)) :: (controlEcho value).map .inr,
      { p with dtr := value = Control.dtrOn })
  else if value = Control.rtsOn ∨ value = Control.rtsOff then
    (.inl (.rts (value = Control.rtsOn)) :: (controlEcho value).map .inr,
      { p with rts := value = Control.rtsOn })
  else if value = Control.breakOn ∨ value = Control.breakOff then
    (.inl (.breakSignal (value = Control.breakOn)) :: (controlEcho value).map .inr, p)
  else if value = Control.dtrRequest then
    ((controlEcho (if p.dtr then Control.dtrOn else Control.dtrOff)).map .inr, p)
  else if value = Control.rtsRequest then
    ((controlEcho (if p.rts then Control.rtsOn else Control.rtsOff)).map .inr, p)
  else
    ((controlEcho Control.flowNone).map .inr, p)

def handleComPort (p : Rfc2217Peer) (command : UInt8) (params : List UInt8)
    : List Out × Rfc2217Peer :=
  if command = Client.setControl then
    match params with
    | [] => ([], p)
    | value :: _ => p.handleControl value
  else if command = Client.setModemstateMask then
    match params with
    | [] => ([], p)
    | mask :: _ =>
      ((comPort Server.setModemstateMask [mask]).map .inr, { p with modemMask := mask })
  else if command = Client.setBaudrate ∨ command = Client.setDatasize
      ∨ command = Client.setParity ∨ command = Client.setStopsize then
    ((comPort (command + serverOffset) params).map .inr, p)
  else if command = Client.signature then
    ((comPort Server.signature params).map .inr, p)
  else
    ([], p)

def handle : Transducer Rfc2217Peer Event Out := fun p event =>
  match event with
  | .data bytes => ([.inl (.data bytes)], p)
  | .negotiate verb option => ((answerNegotiation verb option).map .inr, p)
  | .comPort command params => p.handleComPort command params
  | .otherSubnegotiation _ _ => ([], p)

def push : Transducer Rfc2217Peer (List UInt8) Out := fun p bytes =>
  handle.run { p with decoder := (p.decoder.push bytes).2 } (p.decoder.push bytes).1

/-- The bits that say which lines moved between two announcements; there is none for RI. -/
def deltas (previous masked : UInt8) : UInt8 :=
  let changed := previous ^^^ masked
  (if changed &&& Modem.cts ≠ 0 then Modem.deltaCts else 0)
    ||| (if changed &&& Modem.dsr ≠ 0 then Modem.deltaDsr else 0)
    ||| (if changed &&& Modem.dcd ≠ 0 then Modem.deltaDcd else 0)

def modemState (p : Rfc2217Peer) (state : UInt8) : Option (List UInt8) × Rfc2217Peer :=
  if p.modemMask = 0 then
    (none, p)
  else
    let masked := state &&& p.modemMask
    let previous := p.lastNotified.map (· &&& p.modemMask)
    if previous = some masked then
      (none, p)
    else
      let out := match previous with
        | none => masked
        | some previous => masked ||| deltas previous masked
      (some (notifyModemState out), { p with lastNotified := some masked })

section

variable (outs outs' : List Out) (bytes : List UInt8)

@[simp]
theorem events_append : events (outs ++ outs') = events outs ++ events outs' := by
  apply List.filterMap_append

@[simp]
theorem events_reply : events (bytes.map .inr) = [] := by
  simp [events]

@[simp]
theorem events_cons (event : PeerEvent) : events (.inl event :: outs) = event :: events outs := by
  rfl

@[simp]
theorem reply_append : reply (outs ++ outs') = reply outs ++ reply outs' := by
  apply List.filterMap_append

@[simp]
theorem reply_reply : reply (bytes.map .inr) = bytes := by
  rw [reply, List.filterMap_map]
  exact List.filterMap_some

@[simp]
theorem reply_cons (event : PeerEvent) : reply (.inl event :: outs) = reply outs := by
  rfl

end

/-- What the host program gets to see of one decoder event, the same in every state. -/
def shown (event : Event) : List PeerEvent :=
  events (handle {} event).1

theorem events_handleControl (p : Rfc2217Peer) (value : UInt8)
    : events (p.handleControl value).1 = events (handleControl {} value).1 := by
  unfold handleControl
  repeat' split
  all_goals simp

theorem events_handle (p : Rfc2217Peer) (event : Event)
    : events (handle p event).1 = shown event := by
  cases event with
  | data bytes => rfl
  | negotiate verb option => rfl
  | otherSubnegotiation option body => rfl
  | comPort command params =>
    simp only [shown, handle, handleComPort]
    repeat' split
    all_goals first | rfl | apply events_handleControl

theorem run_handle (p : Rfc2217Peer) (decoded : List Event)
    : events (handle.run p decoded).1 = decoded.flatMap shown := by
  induction decoded generalizing p with
  | nil => rfl
  | cons event decoded ih =>
    rw [Transducer.run_cons, events_append, events_handle, ih, List.flatMap_cons]

def decoderPart : Part Rfc2217Peer Decoder where
  get := decoder
  set p decoder := { p with decoder }
  get_set _ _ := rfl
  set_set _ _ _ := rfl
  set_get _ := rfl

theorem handleControl_blind (p : Rfc2217Peer) (decoder : Decoder) (value : UInt8)
    : handleControl { p with decoder } value
      = ((p.handleControl value).1, { (p.handleControl value).2 with decoder }) := by
  unfold handleControl
  repeat' split
  all_goals rfl

theorem handle_blind : Transducer.Blind decoderPart handle := by
  intro p decoder event
  cases event with
  | data bytes => rfl
  | negotiate verb option => rfl
  | otherSubnegotiation option body => rfl
  | comPort command params =>
    simp only [handle, handleComPort, decoderPart]
    repeat' split
    all_goals first | rfl | apply handleControl_blind

theorem run_push (p : Rfc2217Peer) (chunks : List (List UInt8))
    : push.run p chunks
      = ((handle.run p (Decoder.push.run p.decoder chunks).1).1,
        { (handle.run p (Decoder.push.run p.decoder chunks).1).2 with
          decoder := (Decoder.push.run p.decoder chunks).2 }) :=
  Transducer.run_stage Decoder.push handle_blind p chunks

/-- One item of the plain stream, as the host program sees it. -/
def shownItem : UInt8 ⊕ Event → List (UInt8 ⊕ PeerEvent)
  | .inl b => [.inl b]
  | .inr event => PeerEvent.pieces.flat (shown event)

theorem flat_shown (decoded : List Event)
    : PeerEvent.pieces.flat (decoded.flatMap shown)
      = (Event.pieces.flat decoded).flatMap shownItem := by
  induction decoded with
  | nil => rfl
  | cons event decoded ih =>
    rw [List.flatMap_cons, Pieces.flat_append, ih, Pieces.flat_cons, List.flatMap_append]
    congr 1
    cases event with
    | data bytes =>
      have hshown : PeerEvent.pieces.flat (shown (.data bytes)) = bytes.map .inl :=
        PeerEvent.pieces.flat_piece bytes
      have hflat : Event.pieces.flat [.data bytes] = bytes.map .inl :=
        Event.pieces.flat_piece bytes
      rw [hshown, hflat, List.flatMap_map, List.map_eq_flatMap]
      rfl
    | negotiate verb option => simp [Event.pieces, Pieces.flat, shownItem]
    | comPort command params => simp [Event.pieces, Pieces.flat, shownItem]
    | otherSubnegotiation option body => simp [Event.pieces, Pieces.flat, shownItem]

/-- From rest the bytes show the host program `outs`, and leave the decoder at rest. -/
def Shows (bytes : List UInt8) (outs : List (UInt8 ⊕ PeerEvent)) : Prop :=
  ∃ items, Decoder.plain.Yields Decoder.AtRest bytes items ∧ items.flatMap shownItem = outs

theorem Shows.nil : Shows [] [] :=
  ⟨[], .nil, rfl⟩

theorem Shows.append {bytes bytes' : List UInt8} {outs outs' : List (UInt8 ⊕ PeerEvent)}
    (h : Shows bytes outs) (h' : Shows bytes' outs') : Shows (bytes ++ bytes') (outs ++ outs') := by
  rcases h with ⟨items, hyields, rfl⟩
  rcases h' with ⟨items', hyields', rfl⟩
  exact ⟨items ++ items', hyields.append hyields', List.flatMap_append⟩

theorem Shows.encodeData (bytes : List UInt8)
    : Shows (encodeData bytes) (PeerEvent.pieces.flat [.data bytes]) := by
  refine ⟨bytes.map .inl, Decoder.yields_encodeData bytes, ?_⟩
  rw [List.flatMap_map, show PeerEvent.pieces.flat [.data bytes] = bytes.map .inl from
    PeerEvent.pieces.flat_piece bytes, List.map_eq_flatMap]
  rfl

theorem Shows.comPort (command : UInt8) (params : List UInt8) (h : command ≠ iac)
    : Shows (Codec.comPort command params)
      (PeerEvent.pieces.flat (shown (.comPort command params))) :=
  ⟨_, Decoder.yields_comPort params h, List.append_nil _⟩

theorem Shows.negotiate {verb : UInt8} (option : UInt8)
    (h : verb = will ∨ verb = wont ∨ verb = doVerb ∨ verb = dont)
    : Shows (Codec.negotiate verb option) [] := by
  refine ⟨_, Decoder.yields_negotiate option h, ?_⟩
  simp [shownItem, shown, handle, Pieces.flat]

theorem Shows.run_push {bytes : List UInt8} {outs : List (UInt8 ⊕ PeerEvent)}
    {chunks : List (List UInt8)} (h : Shows bytes outs) (hchunks : chunks.flatten = bytes)
    : PeerEvent.pieces.flat (events (push.run {} chunks).1) = outs := by
  rcases h with ⟨items, hyields, rfl⟩
  rw [Rfc2217Peer.run_push, run_handle, flat_shown, (Decoder.run_push {} chunks rfl).1, hchunks,
    (hyields {} ⟨rfl, rfl⟩).1]

end Rfc2217Peer

end Rfc2217
