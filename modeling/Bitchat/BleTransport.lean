import Bitchat.Channel
import Bitchat.Fragmentation
import Bitchat.Wire

/-!
# The Bluetooth transport

Sending and receiving of `BleTransportTask` and `BleConnection`. A peripheral
takes writes one chunk at a time, and each write reaches the other side as one
notification. Reading an announce payload is a parameter.
-/
namespace Bitchat
open Rust

/-- `ConnectionState` of `peer.rs`. -/
inductive BleConnectionState where
  | disconnected
  | connecting
  | connected
  | failed
  deriving DecidableEq, Repr

/-- A discovered peer, with its peripheral: whether it offers the characteristic
for sending, and what it answers to a write. -/
structure BlePeer where
  peerId : PeerId
  connectionState : BleConnectionState
  offersTx : Bool
  write : Bytes → Except String Unit

def BlePeer.isConnected (p : BlePeer) : Bool := p.connectionState == .connected

structure BleTransport where
  localPeerId : PeerId
  maxPacketSize : ℕ
  peers : Map PeerId BlePeer

def bleMtu : ℕ := 244

/-- `data.chunks(size)`. -/
def chunks (size : ℕ) (data : Bytes) : List Bytes :=
  (List.range ((data.length + size - 1) / size)).map (MessageFragmenter.chunk size data)

theorem chunks_of_fits {size : ℕ} {data : Bytes} (nonempty : data ≠ [])
    (fits : data.length ≤ size) : chunks size data = [data] := by
  have positive : 0 < data.length := List.length_pos_iff.mpr nonempty
  have one : (data.length + size - 1) / size = 1 := by
    apply Nat.div_eq_of_lt_le
    · omega
    · omega
  simp [chunks, one, MessageFragmenter.chunk, List.take_of_length_le fits]

namespace BleTransport

/-- Writes chunk after chunk until one is refused. The written chunks stay so. -/
def writeChunks (write : Bytes → Except String Unit) : List Bytes → List Bytes × BitchatResult Unit
  | [] => ([], .ok ())
  | chunk :: rest =>
    match write chunk with
    | .ok _ => (chunk :: (writeChunks write rest).1, (writeChunks write rest).2)
    | .error e =>
      ([], fail (.transport (.invalidConfiguration ("Failed to write to characteristic: " ++ e))))

/-- The peer that data can be sent to. -/
def connectedPeer (ble : BleTransport) (peerId : PeerId) : BitchatResult BlePeer :=
  match ble.peers.lookup peerId with
  | none => fail (.transport (.peerNotFound peerId.display))
  | some peer =>
    if peer.isConnected then .ok peer
    else fail (.transport (.connectionFailed peerId.display "Peer not connected"))

/-- `BleConnection::send_to_peer`, with the chunks that were written. -/
def sendToPeer (ble : BleTransport) (peerId : PeerId) (data : Bytes) :
    List Bytes × BitchatResult Unit :=
  match ble.connectedPeer peerId with
  | .error e => ([], .error e)
  | .ok peer =>
    if peer.offersTx then writeChunks peer.write (chunks bleMtu data)
    else ([], fail (.transport (.invalidConfiguration "TX characteristic not found")))

def sendPacketToPeer (ble : BleTransport) (peerId : PeerId) (data : Bytes) :
    List Bytes × BitchatResult Unit :=
  match ble.connectedPeer peerId with
  | .error e => ([], .error e)
  | .ok _ =>
    if ble.maxPacketSize < data.length then
      ([], fail (.transport (.invalidConfiguration "Packet too large for BLE")))
    else ble.sendToPeer peerId data

def sendBitchatPacketToPeer (ble : BleTransport) (peerId : PeerId) (packet : BitchatPacket) :
    List Bytes × BitchatResult Unit :=
  match WireFormat.encode packet with
  | .ok data => ble.sendPacketToPeer peerId data
  | .error .panic => ([], panicked)
  | .error (.err e) =>
    ([], fail (.transport (.invalidConfiguration
      ("Failed to encode BitChat packet: " ++ e.display))))

/-- The connected peers other than the one a packet came from. -/
def otherConnectedPeers (ble : BleTransport) (fromPeer : PeerId) : Finset PeerId :=
  (Map.retain (fun peerId peer => peerId ≠ fromPeer && peer.isConnected) ble.peers).keys

/-- What handling a notification hands on: events to the core, and a packet to
the peers that it is relayed to. -/
structure Incoming where
  events : List Event
  forwarded : Option (BitchatPacket × Finset PeerId)

/-- The packet with one hop less to go, and its next hops. -/
def forwardPacket (ble : BleTransport) (packet : BitchatPacket) (fromPeer : PeerId) :
    Option (BitchatPacket × Finset PeerId) :=
  match packet.header.ttl.decrement with
  | none => none
  | some ttl =>
    some ({ packet with
      header := { packet.header with
        ttl := ttl
        payloadLength := UInt32.ofNat packet.payload.length } }, ble.otherConnectedPeers fromPeer)

/-- An announcement of a known peer that names its sender is reported. A new peer
cannot be added, since a packet comes without a peripheral. -/
def handleAnnouncePacket (readAnnounce : BitchatPacket → Option PeerId) (ble : BleTransport)
    (peerId : PeerId) (packet : BitchatPacket) : List Event :=
  match readAnnounce packet with
  | none => []
  | some discovered =>
    if discovered ≠ peerId then []
    else
      match ble.peers.lookup peerId with
      | none => []
      | some peer => if peer.peerId = discovered then [.peerDiscovered peerId .ble none] else []

/-- Data that does not decode is ignored. -/
def handleIncomingPacket (readAnnounce : BitchatPacket → Option PeerId) (ble : BleTransport)
    (fromPeer : PeerId) (data : Bytes) : Incoming :=
  match WireFormat.decode data with
  | .error _ => ⟨[], none⟩
  | .ok packet =>
    let announced := if packet.header.messageType = .announce then
      ble.handleAnnouncePacket readAnnounce fromPeer packet else []
    let isForUs := packet.isBroadcast || packet.recipientId == some ble.localPeerId
    ⟨announced ++ if isForUs then [.bitchatPacketReceived packet.senderId packet .ble] else [],
      if ¬ isForUs ∧ 0 < packet.header.ttl.value then ble.forwardPacket packet fromPeer else none⟩

def isForUs (ble : BleTransport) (packet : BitchatPacket) : Bool :=
  packet.isBroadcast || packet.recipientId == some ble.localPeerId

/-- `handle_incoming_packet` behind the decoding. -/
def handlePacket (readAnnounce : BitchatPacket → Option PeerId) (ble : BleTransport)
    (fromPeer : PeerId) (packet : BitchatPacket) : Incoming :=
  ⟨(if packet.header.messageType = .announce then
      ble.handleAnnouncePacket readAnnounce fromPeer packet else []) ++
      if ble.isForUs packet then [.bitchatPacketReceived packet.senderId packet .ble] else [],
    if ¬ ble.isForUs packet ∧ 0 < packet.header.ttl.value then ble.forwardPacket packet fromPeer
    else none⟩

theorem handleIncomingPacket_eq (readAnnounce : BitchatPacket → Option PeerId)
    (ble : BleTransport) (fromPeer : PeerId) {data : Bytes} {packet : BitchatPacket}
    (decoded : WireFormat.decode data = .ok packet) :
    ble.handleIncomingPacket readAnnounce fromPeer data =
      ble.handlePacket readAnnounce fromPeer packet := by
  simp [handleIncomingPacket, handlePacket, isForUs, decoded]

/-- A decoded packet gives at most a discovery of its link, and the packet itself
when it is for us. -/
theorem handleIncomingPacket_events (readAnnounce : BitchatPacket → Option PeerId)
    (ble : BleTransport) (fromPeer : PeerId) {data : Bytes} {packet : BitchatPacket}
    (decoded : WireFormat.decode data = .ok packet) :
    ∃ announced, (announced = [] ∨ announced = [.peerDiscovered fromPeer .ble none]) ∧
      (ble.handleIncomingPacket readAnnounce fromPeer data).events = announced ++
        if packet.isBroadcast = true ∨ packet.recipientId = some ble.localPeerId then
          [.bitchatPacketReceived packet.senderId packet .ble] else [] := by
  refine ⟨if packet.header.messageType = .announce then
      ble.handleAnnouncePacket readAnnounce fromPeer packet else [], ?_, ?_⟩
  · unfold handleAnnouncePacket
    split_ifs
    · cases readAnnounce packet with
      | none => exact .inl rfl
      | some discovered =>
        simp only
        split_ifs
        · exact .inl rfl
        · cases ble.peers.lookup fromPeer with
          | none => exact .inl rfl
          | some peer =>
            simp only
            split_ifs
            · exact .inr rfl
            · exact .inl rfl
    · exact .inl rfl
  · simp only [handleIncomingPacket, decoded, Bool.or_eq_true, beq_iff_eq]

/-- When no write is refused, every chunk is written. -/
theorem writeChunks_eq_ok {write : Bytes → Except String Unit} {parts written : List Bytes}
    (h : writeChunks write parts = (written, .ok ())) : written = parts := by
  induction parts generalizing written with
  | nil => exact (Prod.mk.inj h).1.symm
  | cons part parts ih =>
    unfold writeChunks at h
    split at h
    · obtain ⟨rfl, hrest⟩ := Prod.mk.inj h
      have all : (writeChunks write parts).1 = parts := ih (Prod.ext rfl hrest)
      rw [all]
    · cases (Prod.mk.inj h).2

/-- A successful sending writes the chunks of data that is short enough. -/
theorem sendPacketToPeer_eq_ok {ble : BleTransport} {peerId : PeerId} {data : Bytes}
    {written : List Bytes} (sent : ble.sendPacketToPeer peerId data = (written, .ok ())) :
    data.length ≤ ble.maxPacketSize ∧ written = chunks bleMtu data := by
  unfold sendPacketToPeer at sent
  cases hpeer : ble.connectedPeer peerId with
  | error e =>
    rw [hpeer] at sent
    cases sent
  | ok peer =>
    simp only [hpeer, sendToPeer] at sent
    split_ifs at sent with hlong hoffers
    · cases (Prod.mk.inj sent).2
    · exact ⟨by omega, writeChunks_eq_ok sent⟩
    · cases (Prod.mk.inj sent).2

/-- What fits one write is written as it is, when sending succeeds. -/
theorem sendPacketToPeer_of_fits {ble : BleTransport} {peerId : PeerId} {data : Bytes}
    {written : List Bytes} (nonempty : data ≠ []) (fits : data.length ≤ bleMtu)
    (sent : ble.sendPacketToPeer peerId data = (written, .ok ())) : written = [data] := by
  rw [(sendPacketToPeer_eq_ok sent).2, chunks_of_fits nonempty fits]

end BleTransport

end Bitchat
