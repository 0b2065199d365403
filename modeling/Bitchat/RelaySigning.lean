import Bitchat.BleMesh
import Bitchat.Signing

/-!
# Signatures across relays

A relay decodes a packet, takes one off its TTL, writes its payload length anew and
encodes it again. None of this is in the bytes that a signature covers, so that the
signature still verifies behind the last relay.
-/
namespace Bitchat
open Rust

namespace BitchatPacket

theorem RelayOf.canonicalPreimage {packet original : BitchatPacket} (h : packet.RelayOf original) :
    packet.canonicalPreimage = original.canonicalPreimage := by
  rw [h]
  rfl

theorem RelayOf.signature {packet original : BitchatPacket} (h : packet.RelayOf original) :
    packet.signature = original.signature := by rw [h]

theorem RelayOf.of_relayed {packet original : BitchatPacket}
    (h : packet.RelayOf original.relayed) : packet.RelayOf original := by
  unfold RelayOf at h ⊢
  rw [h]
  rfl

/-- The length that a relay writes is the one that is there. -/
theorem relayed_payloadLength {p : BitchatPacket} (h : p.validate = .ok ()) :
    p.relayed.header.payloadLength = p.header.payloadLength := by
  have hlength := (validate_eq_ok.mp h).2.1
  show UInt32.ofNat p.payload.length = _
  rw [hlength, UInt32.ofNat_toNat]

theorem validate_relayed {p : BitchatPacket} (h : p.validate = .ok ()) :
    p.relayed.validate = .ok () := by
  have hlength := relayed_payloadLength h
  rw [validate_eq_ok, PacketHeader.validate_eq_ok] at h ⊢
  rw [hlength]
  exact h

end BitchatPacket

namespace WireFormat

/-- What can be encoded can be encoded after a relay. -/
theorem encode_relayed {p : BitchatPacket} {data : Bytes} (h : encode p = .ok data) :
    ∃ next, encode p.relayed = .ok next := by
  obtain ⟨hvalid, _, recipient, route, signature, _, hrec, hrt, hsig, _⟩ := encode_eq_ok.mp h
  have hrelayed := BitchatPacket.validate_relayed hvalid
  have hheader := (BitchatPacket.validate_eq_ok.mp hrelayed).1
  exact ⟨_, encode_eq_ok.mpr ⟨hrelayed, _, recipient, route, signature,
    PacketHeader.toBytes_eq_ok.mpr ⟨hheader, rfl⟩, hrec, hrt, hsig, rfl⟩⟩

/-- Version 1 packets without a route come back from the wire. -/
theorem decode_of_unrouted {p : BitchatPacket} {data : Bytes} (h : encode p = .ok data)
    (hversion : p.header.version = protocolVersion1) (hroute : p.route = none) :
    decode data = .ok p :=
  (encode_roundTrip p data h).mpr ⟨hversion, fun hsome => by simp [hroute] at hsome⟩

end WireFormat

namespace BleTransport

/-- One hop: the data is decoded, prepared by `forward_packet` and encoded for the next
peers. Nothing goes out when the TTL is used up. -/
def relayHop (ble : BleTransport) (fromPeer : PeerId) (data : Bytes) :
    BitchatResult (Option Bytes) := do
  let packet ← WireFormat.decode data
  match ble.forwardPacket packet fromPeer with
  | none => pure none
  | some (next, _) => do
    let sent ← WireFormat.encode next
    pure (some sent)

/-- The data that arrives behind a list of hops, each with the peer it hears it from. -/
def relayThrough : List (BleTransport × PeerId) → Bytes → BitchatResult (Option Bytes)
  | [], data => .ok (some data)
  | hop :: rest, data => do
    match ← hop.1.relayHop hop.2 data with
    | none => pure none
    | some next => relayThrough rest next

theorem forwardPacket_eq (ble : BleTransport) (packet : BitchatPacket) (fromPeer : PeerId) :
    ble.forwardPacket packet fromPeer =
      if 0 < packet.header.ttl.value then
        some (packet.relayed, ble.otherConnectedPeers fromPeer)
      else none := by
  unfold forwardPacket Ttl.decrement
  split_ifs <;> rfl

/-- A hop drops a packet that comes with TTL 0 and relays every other one. -/
theorem relayHop_encode {p : BitchatPacket} {data : Bytes} (ble : BleTransport)
    (fromPeer : PeerId) (h : WireFormat.encode p = .ok data)
    (hversion : p.header.version = protocolVersion1) (hroute : p.route = none) :
    (p.header.ttl.value = 0 ∧ ble.relayHop fromPeer data = .ok none) ∨
      (0 < p.header.ttl.value ∧ ∃ next, WireFormat.encode p.relayed = .ok next ∧
        ble.relayHop fromPeer data = .ok (some next)) := by
  have hdecode := WireFormat.decode_of_unrouted h hversion hroute
  simp only [relayHop, hdecode, ok_bind, forwardPacket_eq]
  by_cases httl : 0 < p.header.ttl.value
  · obtain ⟨next, hnext⟩ := WireFormat.encode_relayed h
    simp [httl, hnext]
  · have hzero : p.header.ttl.value = 0 := UInt8.le_zero_iff.mp (UInt8.not_lt.mp httl)
    simp [hzero]

/-- A packet that can be encoded arrives behind as many hops as its TTL allows, and
arrives as itself but for what a relay rewrites. -/
theorem relayThrough_encode {p : BitchatPacket} {data : Bytes}
    (hops : List (BleTransport × PeerId)) (h : WireFormat.encode p = .ok data)
    (hversion : p.header.version = protocolVersion1) (hroute : p.route = none) :
    ∃ outcome, relayThrough hops data = .ok outcome ∧
      (outcome = none ↔ p.header.ttl.value.toNat < hops.length) ∧
      ∀ received ∈ outcome, ∃ q, WireFormat.decode received = .ok q ∧ q.RelayOf p := by
  induction hops generalizing p data with
  | nil =>
    refine ⟨some data, rfl, by simp, ?_⟩
    rintro _ ⟨⟩
    exact ⟨p, WireFormat.decode_of_unrouted h hversion hroute, rfl⟩
  | cons hop rest ih =>
    rcases relayHop_encode hop.1 hop.2 h hversion hroute with
      ⟨hzero, hhop⟩ | ⟨hpos, next, hnext, hhop⟩
    · refine ⟨none, ?_, by simp [hzero], by simp⟩
      simp [relayThrough, hhop]
    · obtain ⟨outcome, hrest, hnone, harrives⟩ := ih hnext hversion hroute
      have httl := BitchatPacket.relayed_ttl hpos
      refine ⟨outcome, ?_, ?_, ?_⟩
      · simp [relayThrough, hhop, hrest]
      · rw [hnone, List.length_cons]
        omega
      · intro received hreceived
        obtain ⟨q, hdecode, hrelay⟩ := harrives received hreceived
        exact ⟨q, hdecode, hrelay.of_relayed⟩

end BleTransport

/-- However many hops a signed packet of version 1 without a route takes, each of them
succeeds until its TTL is used up, and the packet that arrives verifies under the key of
its signer. -/
theorem BleTransport.signature_survives_relays (sha256 : Bytes → Key32) (ed : Ed25519)
    (hown : ed.AcceptsOwn) (secret : Key32) (p : BitchatPacket) (data : Bytes)
    (hversion : p.header.version = protocolVersion1) (hroute : p.route = none)
    (hencode : WireFormat.encode (p.sign sha256 ed secret) = .ok data)
    (hops : List (BleTransport × PeerId)) :
    ∃ outcome, relayThrough hops data = .ok outcome ∧
      (outcome = none ↔ p.header.ttl.value.toNat < hops.length) ∧
      ∀ received ∈ outcome, ∃ q, WireFormat.decode received = .ok q ∧
        q.verifySignature sha256 ed (ed.publicKey secret) = .ok () := by
  obtain ⟨outcome, hrelay, hnone, harrives⟩ := relayThrough_encode hops hencode hversion hroute
  refine ⟨outcome, hrelay, hnone, ?_⟩
  intro received hreceived
  obtain ⟨q, hdecode, hq⟩ := harrives received hreceived
  have hpreimage : q.canonicalPreimage = p.canonicalPreimage := hq.canonicalPreimage
  exact ⟨q, hdecode, BitchatPacket.verifySignature_of_preimage hown hq.signature hpreimage⟩

/-- A relay that knows nobody. -/
def BleTransport.lonelyRelay : BleTransport := ⟨⟨List.Vector.replicate 8 9⟩, 512, ∅⟩

/-- A private packet with TTL 7 behind two relays. -/
theorem BleTransport.signature_survives_two_relays :
    ∃ data, WireFormat.encode (BitchatPacket.privatePacket.sign BitchatPacket.typeDigest
        BitchatPacket.firstByteEd25519 (List.Vector.replicate 32 0)) = .ok data ∧
      ∃ outcome, relayThrough [(lonelyRelay, ⟨List.Vector.replicate 8 1⟩),
          (lonelyRelay, ⟨List.Vector.replicate 8 9⟩)] data = .ok outcome ∧
        (outcome = none ↔ 7 < 2) ∧
        ∀ received ∈ outcome, ∃ q, WireFormat.decode received = .ok q ∧
          q.verifySignature BitchatPacket.typeDigest BitchatPacket.firstByteEd25519
            (List.Vector.replicate 32 0) = .ok () :=
  ⟨_, rfl, signature_survives_relays BitchatPacket.typeDigest BitchatPacket.firstByteEd25519
    (fun _ _ => beq_self_eq_true _) (List.Vector.replicate 32 0) BitchatPacket.privatePacket _ rfl
    rfl rfl _⟩

end Bitchat
