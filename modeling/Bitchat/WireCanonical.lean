import Bitchat.Rust.Readers
import Bitchat.Wire

/-!
# The wire format is canonical

In version 1 the header size that the decoder assumes is the one that the encoder
writes. A packet that is decoded is then encoded to the bytes it was decoded from,
so that the decoder accepts exactly what the encoder writes.
-/
namespace Bitchat
open Rust

/-- A type byte that is known is the byte of its type. -/
theorem MessageType.eq_asU8_of_fromU8 {value : UInt8} {t : MessageType}
    (h : fromU8 value = .ok t) : value = t.asU8 := by
  unfold fromU8 at h
  iterate 10
    rcases of_ite_ok h with ⟨rfl, rfl⟩ | h
    · rfl
  exact absurd h (invalidPacket_ne_ok _ _)

namespace PacketHeader

/-- The length byte of version 1 is the one the header writes. -/
theorem index_of_parsePayloadLength {bytes : Bytes} {length : UInt32}
    (h : parsePayloadLength protocolVersion1 bytes = .ok length) :
    (index bytes 12 : BitchatResult UInt8) = .ok length.toUInt8 := by
  rw [parsePayloadLength, if_pos rfl] at h
  obtain ⟨b, hb, hlength⟩ := bind_eq_ok.mp h
  obtain rfl := Except.ok.inj hlength
  rw [hb, UInt8.toUInt8_toUInt32]

/-- A header of version 1 is written back to the bytes it was read from. -/
theorem slice_of_fromBytes {bytes : Bytes} {h : PacketHeader} (hparse : fromBytes bytes = .ok h)
    (hversion : h.version = protocolVersion1) :
    (slice bytes 0 headerSizeV1 : BitchatResult Bytes) =
      .ok (h.fixedBytes ++ [h.payloadLength.toUInt8]) := by
  obtain ⟨h0, _, ⟨typeByte, h1, htype⟩, h2, ⟨timestampBytes, h3, hts⟩, h11, h12, _⟩ :=
    fromBytes_eq_ok.mp hparse
  obtain rfl := MessageType.eq_asU8_of_fromU8 htype
  rw [hversion] at h12
  have hlayout : h.fixedBytes ++ [h.payloadLength.toUInt8] =
      [h.version] ++ ([h.messageType.asU8] ++ ([h.ttl.value] ++ (timestampBytes.toList ++
        ([h.flags.asU8] ++ [h.payloadLength.toUInt8])))) := by
    rw [fixedBytes, hts, u64ToBeBytes_fromBeBytes timestampBytes.toList_length]
    simp
  rw [hlayout]
  simp only [slice_append_iff]
  exact ⟨1, slice_singleton_iff.mpr h0, 2, slice_singleton_iff.mpr h1, 3,
    slice_singleton_iff.mpr h2, 11, h3, 12, slice_singleton_iff.mpr h11,
    slice_singleton_iff.mpr (index_of_parsePayloadLength h12)⟩

theorem toBytes_of_fromBytes {bytes : Bytes} {h : PacketHeader} (hparse : fromBytes bytes = .ok h)
    (hversion : h.version = protocolVersion1) : h.toBytes = .ok (bytes.take headerSizeV1) := by
  have hvalid : h.validate = .ok () := (fromBytes_eq_ok.mp hparse).2.2.2.2.2.2.2
  obtain ⟨_, _, hpart⟩ := slice_eq_ok.mp (slice_of_fromBytes hparse hversion)
  refine toBytes_eq_ok.mpr ⟨hvalid, ?_⟩
  rw [if_pos hversion, hpart]
  rfl

end PacketHeader

namespace WireFormat

/-- The first byte of what is decoded is the version of the packet. -/
theorem version_of_decode {bytes : Bytes} {p : BitchatPacket} (h : decode bytes = .ok p) :
    bytes.head? = some p.header.version := by
  have hheader := (decode_iff_sections.mp h).1
  have hindex := index_eq_ok.mp (PacketHeader.fromBytes_eq_ok.mp hheader).1
  rwa [← List.head?_eq_getElem?] at hindex

/-- The first byte of what is encoded is the version of the packet. -/
theorem version_of_encode {bytes : Bytes} {p : BitchatPacket} (h : encode p = .ok bytes) :
    bytes.head? = some p.header.version := by
  obtain ⟨_, header, sections, hheader, _, rfl⟩ := encode_eq_sections h
  obtain ⟨_, rfl⟩ := PacketHeader.toBytes_eq_ok.mp hheader
  rfl

theorem encode_of_decode {bytes : Bytes} {p : BitchatPacket} (h : decode bytes = .ok p)
    (hversion : p.header.version = protocolVersion1) : encode p = .ok bytes := by
  obtain ⟨hheader, hvalid, _, hsections⟩ := decode_iff_sections.mp h
  have hbytes := PacketHeader.toBytes_of_fromBytes hheader hversion
  have hsize : p.header.headerSize = headerSizeV1 := if_pos hversion
  obtain ⟨recipient, route, signature, hrec, hrt, hsig, hdrop⟩ := encodeSections_eq_ok.mp hsections
  refine encode_eq_ok.mpr ⟨hvalid, _, recipient, route, signature, hbytes, hrec, hrt, hsig, ?_⟩
  have hsplit := List.take_append_drop headerSizeV1 bytes
  rw [← hsize, hdrop, hsize] at hsplit
  refine hsplit.symm.trans ?_
  simp only [List.append_assoc]

theorem decode_iff_encode {bytes : Bytes} {p : BitchatPacket}
    (hversion : bytes.head? = some protocolVersion1) :
    decode bytes = .ok p ↔
      p.validate = .ok () ∧ p.route.isSome = p.header.flags.hasRoute ∧ encode p = .ok bytes := by
  constructor
  · intro h
    have hfirst := version_of_decode h
    obtain ⟨_, hvalid, hroute, _⟩ := decode_iff_sections.mp h
    have hpacket : p.header.version = protocolVersion1 := by
      rw [hversion] at hfirst
      exact (Option.some.inj hfirst).symm
    exact ⟨hvalid, hroute, encode_of_decode h hpacket⟩
  · rintro ⟨_, hroute, h⟩
    have hfirst := version_of_encode h
    rw [hversion] at hfirst
    exact decode_of_encode h (Option.some.inj hfirst).symm hroute

/-- Bytes of version 1 that decode are the encoding of their packet. Other bytes do not
decode to it, and the bytes decode neither with others behind them nor cut short. -/
theorem decode_canonical (bytes : Bytes) (hversion : bytes.head? = some protocolVersion1)
    (p : BitchatPacket) :
    (decode bytes = .ok p ↔
      p.validate = .ok () ∧ p.route.isSome = p.header.flags.hasRoute ∧ encode p = .ok bytes) ∧
    (decode bytes = .ok p → (∀ other, decode other = .ok p → other = bytes) ∧
      ∀ q other, decode other = .ok q → other <+: bytes ∨ bytes <+: other → other = bytes) := by
  refine ⟨decode_iff_encode hversion, fun h => ⟨?_, ?_⟩⟩
  · intro other hother
    have hfirst := version_of_decode hother
    rw [← version_of_decode h, hversion] at hfirst
    have hencode := (decode_iff_encode hfirst).mp hother
    have hbytes := (decode_iff_encode hversion).mp h
    rw [hbytes.2.2] at hencode
    exact (Except.ok.inj hencode.2.2).symm
  · rintro q other hq (⟨more, rfl⟩ | ⟨more, rfl⟩)
    · rw [decode_append hq h, List.append_nil]
    · rw [decode_append h hq, List.append_nil]

/-- A broadcast announcement with ttl 7, an unknown flag bit and one byte of payload. -/
def flaggedBytes : Bytes :=
  [1, 0x01, 7, 0, 0, 0, 0, 0, 0, 0, 0, 0x80, 1] ++ List.replicate 8 1 ++ [0x68]

def flaggedPacket : BitchatPacket where
  header := ⟨1, .announce, ⟨7⟩, ⟨0⟩, ⟨0x80⟩, 1⟩
  senderId := ⟨List.Vector.replicate 8 1⟩
  recipientId := none
  route := none
  payload := [0x68]
  signature := none

theorem decode_canonical_flagged :
    (decode flaggedBytes = .ok flaggedPacket ↔
      flaggedPacket.validate = .ok () ∧
        flaggedPacket.route.isSome = flaggedPacket.header.flags.hasRoute ∧
        encode flaggedPacket = .ok flaggedBytes) ∧ decode flaggedBytes = .ok flaggedPacket :=
  have h := decode_canonical flaggedBytes rfl flaggedPacket
  ⟨h.1, h.1.mpr ⟨rfl, rfl, rfl⟩⟩

end WireFormat

end Bitchat
