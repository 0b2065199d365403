import Bitchat.BleTransport

/-!
# Packets in chunks

A packet is sent over Bluetooth in writes of at most 244 bytes, and every
notification is decoded by itself. A longer encoding is therefore not put
together again. There is one exception: of a version 2 packet that takes 245
bytes the first 244 can decode to the packet, since the decoder reads its
sections one byte early and all of them may consist of a single byte.
-/
namespace Bitchat
open Rust

/-- What `handle_incoming_packet` decodes from notifications. -/
def decodedPackets (notifications : List Bytes) : List BitchatPacket :=
  notifications.filterMap fun data => (WireFormat.decode data).toOption

/-- The receiver handles the packets that it decodes from notifications, and nothing else. -/
theorem handled_notifications (readAnnounce : BitchatPacket → Option PeerId) (ble : BleTransport)
    (fromPeer : PeerId) (notifications : List Bytes) :
    (notifications.flatMap fun data =>
        (ble.handleIncomingPacket readAnnounce fromPeer data).events) =
      ((decodedPackets notifications).flatMap fun packet =>
        (ble.handlePacket readAnnounce fromPeer packet).events) ∧
    (notifications.filterMap fun data =>
        (ble.handleIncomingPacket readAnnounce fromPeer data).forwarded) =
      (decodedPackets notifications).filterMap fun packet =>
        (ble.handlePacket readAnnounce fromPeer packet).forwarded := by
  induction notifications with
  | nil => exact ⟨rfl, rfl⟩
  | cons data rest ih =>
    cases hdecode : WireFormat.decode data with
    | error e =>
      have hnothing : ble.handleIncomingPacket readAnnounce fromPeer data = ⟨[], none⟩ := by
        rw [BleTransport.handleIncomingPacket, hdecode]
      simpa [decodedPackets, hnothing, hdecode, Except.toOption] using ih
    | ok packet =>
      have hhandled := ble.handleIncomingPacket_eq readAnnounce fromPeer hdecode
      have htail : decodedPackets (data :: rest) = packet :: decodedPackets rest := by
        simp [decodedPackets, hdecode, Except.toOption]
      rw [htail, List.flatMap_cons, List.flatMap_cons, List.filterMap_cons, List.filterMap_cons,
        hhandled, ih.1, ih.2]
      exact ⟨rfl, rfl⟩

/-- A list that equals itself one place on repeats one element. -/
theorem drop_one_eq_take_iff {α : Type} {n : ℕ} {l : List α} (h : l.length = n + 1) :
    l.drop 1 = l.take n ↔ ∃ a, l = List.replicate (n + 1) a := by
  induction n generalizing l with
  | zero =>
    obtain ⟨a, rfl⟩ := List.length_eq_one_iff.mp h
    simp
  | succ n ih =>
    cases l with
    | nil => simp at h
    | cons a l =>
      have hl : l.length = n + 1 := by simpa using h
      cases l with
      | nil => simp at hl
      | cons c l =>
        simp only [List.drop_succ_cons, List.drop_zero, List.take_succ_cons, List.cons.injEq]
        constructor
        · rintro ⟨rfl, hrest⟩
          obtain ⟨b, hb⟩ := (ih hl).mp (by simpa using hrest)
          obtain ⟨rfl, _⟩ := List.cons.inj hb
          exact ⟨c, by rw [List.replicate_succ, ← hb]⟩
        · rintro ⟨b, hb⟩
          obtain ⟨rfl, hb⟩ := List.cons.inj hb
          obtain ⟨rfl, _⟩ := List.cons.inj hb
          exact ⟨rfl, by simpa using (ih hl).mpr ⟨_, hb⟩⟩

theorem mem_chunks_length {size : ℕ} {data part : Bytes} (h : part ∈ chunks size data) :
    part.length ≤ size := by
  obtain ⟨i, _, rfl⟩ := List.mem_map.mp h
  exact List.length_take_le _ _

/-- One byte too many takes a second chunk. -/
theorem chunks_of_one_more {size : ℕ} {data : Bytes} (positive : 1 < size)
    (h : data.length = size + 1) : chunks size data = [data.take size, data.drop size] := by
  have two : (data.length + size - 1) / size = 2 := by
    apply Nat.div_eq_of_lt_le
    · omega
    · omega
  have last : (data.drop size).take size = data.drop size :=
    List.take_of_length_le (by rw [List.length_drop]; omega)
  simp [chunks, two, List.range_succ, MessageFragmenter.chunk, last]

namespace BleTransport

/-- A successful sending writes the chunks of an encoding that is short enough. -/
theorem sendBitchatPacketToPeer_eq_ok {ble : BleTransport} {peerId : PeerId}
    {packet : BitchatPacket} {written : List Bytes}
    (sent : ble.sendBitchatPacketToPeer peerId packet = (written, .ok ())) :
    ∃ bytes, WireFormat.encode packet = .ok bytes ∧ bytes.length ≤ ble.maxPacketSize ∧
      written = chunks bleMtu bytes := by
  unfold sendBitchatPacketToPeer at sent
  split at sent
  · rename_i bytes hencode
    exact ⟨bytes, hencode, sendPacketToPeer_eq_ok sent⟩
  · cases (Prod.mk.inj sent).2
  · cases (Prod.mk.inj sent).2

end BleTransport

namespace WireFormat

theorem ne_nil_of_encode {p : BitchatPacket} {bytes : Bytes} (h : encode p = .ok bytes) :
    bytes ≠ [] := by
  obtain ⟨_, header, sections, hheader, _, rfl⟩ := encode_eq_sections h
  obtain ⟨_, rfl⟩ := PacketHeader.toBytes_eq_ok.mp hheader
  simp [PacketHeader.fixedBytes]

/-- What decodes to a packet is as long as its encoding in version 1, and one byte
shorter in version 2. -/
theorem decode_length {p : BitchatPacket} {bytes data : Bytes} (h : encode p = .ok bytes)
    (hdecode : decode data = .ok p) :
    bytes.length = data.length + if p.header.version = protocolVersion1 then 0 else 1 := by
  obtain ⟨hroute, hstop⟩ := parse_offset (decode_eq_ok.mp hdecode).1
  have hlength := encode_length h hroute
  have hvalid := (BitchatPacket.validate_eq_ok.mp (decode_eq_ok.mp hdecode).2).1
  rcases PacketHeader.validate_eq_ok.mp hvalid with ⟨hversion, _⟩ | hversion
  · simp only [hversion, if_true, PacketHeader.headerSize, headerSizeV1] at hlength hstop ⊢
    omega
  · have hne : protocolVersion2 ≠ protocolVersion1 := by decide
    simp only [hversion, hne, if_true, if_false, PacketHeader.headerSize, headerSizeV2]
      at hlength hstop ⊢
    omega

/-- When the encoding of a version 2 packet without its last byte is the packet. -/
theorem decode_take_iff {p : BitchatPacket} {bytes : Bytes} {n : ℕ} (h : encode p = .ok bytes)
    (hversion : p.header.version = protocolVersion2)
    (hlength : bytes.length = headerSizeV2 + (n + 1)) (hn : 0 < n) :
    decode (bytes.take (headerSizeV2 + n)) = .ok p ↔
      (p.route.isSome = true → p.header.flags.hasRoute = true) ∧
        ∃ b, bytes.drop headerSizeV2 = List.replicate (n + 1) b := by
  have hne : protocolVersion2 ≠ protocolVersion1 := by decide
  obtain ⟨hvalid, header, sections, hheader, hsections, hbytes⟩ := encode_eq_sections h
  have hsize : p.header.headerSize = headerSizeV2 := by
    simp [PacketHeader.headerSize, hversion, hne]
  have hwritten : header.length = headerSizeV2 + 1 := by
    obtain ⟨_, rfl⟩ := PacketHeader.toBytes_eq_ok.mp hheader
    simp [hversion, hne, headerSizeV2]
  have hparse : PacketHeader.fromBytes (bytes.take (headerSizeV2 + n)) = .ok p.header := by
    have hfront : bytes.take (headerSizeV2 + n) = header ++ sections.take (n - 1) := by
      rw [hbytes, List.take_append, List.take_of_length_le (by omega), hwritten]
      congr 2
      omega
    rw [hfront]
    exact PacketHeader.fromBytes_toBytes _ hheader
  have hrest : sections = (bytes.drop headerSizeV2).drop 1 := by
    rw [List.drop_drop, hbytes, ← hwritten, List.drop_left]
  have htail : (bytes.take (headerSizeV2 + n)).drop headerSizeV2 =
      (bytes.drop headerSizeV2).take n := by
    rw [List.drop_take, Nat.add_sub_cancel_left]
  have hflag : p.route.isSome = p.header.flags.hasRoute ↔
      (p.route.isSome = true → p.header.flags.hasRoute = true) := by
    rw [Bool.eq_iff_iff]
    exact ⟨Iff.mp, fun hroute => ⟨hroute, route_of_flag h⟩⟩
  rw [decode_iff_sections, hsize, htail, hsections, Except.ok.injEq, hrest,
    drop_one_eq_take_iff (by rw [List.length_drop]; omega), hflag]
  simp [hparse, hvalid]

end WireFormat

/-- When a packet with the given encoding is decoded from the chunks of it. -/
def ReadFromChunks (packet : BitchatPacket) (bytes : Bytes) : Prop :=
  (packet.route.isSome = true → packet.header.flags.hasRoute = true) ∧
    ((packet.header.version = protocolVersion1 ∧ bytes.length ≤ bleMtu) ∨
      (packet.header.version = protocolVersion2 ∧ bytes.length = bleMtu + 1 ∧
        ∃ b, bytes.drop headerSizeV2 = List.replicate (bleMtu + 1 - headerSizeV2) b))

theorem decodedPackets_of_one {packet : BitchatPacket} {bytes : Bytes}
    (h : WireFormat.decode bytes = .ok packet) : decodedPackets [bytes] = [packet] := by
  simp [decodedPackets, h, Except.toOption]

theorem mem_decodedPackets {packet : BitchatPacket} {notifications : List Bytes} :
    packet ∈ decodedPackets notifications ↔
      ∃ data ∈ notifications, WireFormat.decode data = .ok packet := by
  have found (data : Bytes) : (WireFormat.decode data).toOption = some packet ↔
      WireFormat.decode data = .ok packet := by
    cases WireFormat.decode data <;> simp [Except.toOption]
  simp only [decodedPackets, List.mem_filterMap, found]

/-- A packet that is found in the chunks of its encoding is read from them. -/
theorem readFromChunks_of_mem {packet : BitchatPacket} {bytes : Bytes}
    (hencode : WireFormat.encode packet = .ok bytes)
    (found : packet ∈ decodedPackets (chunks bleMtu bytes)) : ReadFromChunks packet bytes := by
  obtain ⟨data, hdata, hdecode⟩ := mem_decodedPackets.mp found
  have hshort := mem_chunks_length hdata
  have hlength := WireFormat.decode_length hencode hdecode
  obtain ⟨hroute, hstop⟩ := WireFormat.parse_offset (WireFormat.decode_eq_ok.mp hdecode).1
  have hvalid := (BitchatPacket.validate_eq_ok.mp (WireFormat.decode_eq_ok.mp hdecode).2).1
  rcases PacketHeader.validate_eq_ok.mp hvalid with ⟨hversion, _⟩ | hversion
  · rw [if_pos hversion] at hlength
    exact ⟨fun hsome => hroute ▸ hsome, .inl ⟨hversion, by omega⟩⟩
  · have hother : packet.header.version ≠ protocolVersion1 := by
      rw [hversion]
      decide
    rw [if_neg hother] at hlength
    by_cases hfits : bytes.length ≤ bleMtu
    · rw [chunks_of_fits (WireFormat.ne_nil_of_encode hencode) hfits, List.mem_singleton] at hdata
      rw [hdata] at hlength
      omega
    · have htotal : bytes.length = bleMtu + 1 := by omega
      rw [chunks_of_one_more (by decide) htotal, List.mem_pair] at hdata
      have hfirst : data = bytes.take bleMtu := by
        rcases hdata with rfl | rfl
        · rfl
        · rw [List.length_drop] at hlength
          simp only [bleMtu] at hlength htotal
          omega
      rw [hfirst] at hdecode
      have hsplit := WireFormat.decode_take_iff (n := 229) hencode hversion htotal (by decide)
      obtain ⟨hflag, hrepeat⟩ := hsplit.mp hdecode
      exact ⟨hflag, .inr ⟨hversion, htotal, hrepeat⟩⟩

/-- What is read from the chunks is read once. -/
theorem decodedPackets_of_readFromChunks {packet : BitchatPacket} {bytes : Bytes}
    (hencode : WireFormat.encode packet = .ok bytes) (h : ReadFromChunks packet bytes) :
    decodedPackets (chunks bleMtu bytes) = [packet] := by
  obtain ⟨hroute, ⟨hversion, hfits⟩ | ⟨hversion, htotal, hrepeat⟩⟩ := h
  · rw [chunks_of_fits (WireFormat.ne_nil_of_encode hencode) hfits]
    have hflag : packet.route.isSome = packet.header.flags.hasRoute := by
      rw [Bool.eq_iff_iff]
      exact ⟨hroute, WireFormat.route_of_flag hencode⟩
    exact decodedPackets_of_one (WireFormat.decode_of_encode hencode hversion hflag)
  · have hsplit := WireFormat.decode_take_iff (n := 229) hencode hversion htotal (by decide)
    have hdecode : WireFormat.decode (bytes.take bleMtu) = .ok packet :=
      hsplit.mpr ⟨hroute, hrepeat⟩
    have hfirst : (WireFormat.decode (bytes.take bleMtu)).toOption = some packet := by
      rw [hdecode]
      rfl
    have hsecond : (WireFormat.decode (bytes.drop bleMtu)).toOption = none := by
      cases hdecode : WireFormat.decode (bytes.drop bleMtu) with
      | error e => rfl
      | ok q =>
        have hlength := WireFormat.parse_offset (WireFormat.decode_eq_ok.mp hdecode).1
        rw [List.length_drop, htotal, WireFormat.bodySize] at hlength
        simp only [bleMtu, peerIdSize] at hlength
        omega
    rw [chunks_of_one_more (by decide) htotal]
    simp only [decodedPackets, List.filterMap_cons, List.filterMap_nil, hfirst, hsecond]

/-- The receiver decodes a sent packet from its notifications exactly once when
the packet reads from the chunks of its encoding, and else not at all. -/
theorem sent_packet_decoded_once_iff (ble : BleTransport) (peerId : PeerId)
    (packet : BitchatPacket) (written : List Bytes) (bytes : Bytes)
    (hencode : WireFormat.encode packet = .ok bytes)
    (sent : ble.sendBitchatPacketToPeer peerId packet = (written, .ok ())) :
    (decodedPackets written).count packet = 1 ↔ ReadFromChunks packet bytes := by
  obtain ⟨data, hdata, _, hwritten⟩ := BleTransport.sendBitchatPacketToPeer_eq_ok sent
  obtain rfl := Except.ok.inj (hencode.symm.trans hdata)
  rw [hwritten]
  constructor
  · intro once
    have found : packet ∈ decodedPackets (chunks bleMtu bytes) :=
      List.count_pos_iff.mp (by omega)
    exact readFromChunks_of_mem hencode found
  · intro read
    rw [decodedPackets_of_readFromChunks hencode read, List.count_singleton_self]

/-- A transport with one connected peer that takes every write. -/
def bleWithOnePeer : BleTransport where
  localPeerId := ⟨List.Vector.replicate 8 1⟩
  maxPacketSize := 500
  peers := Finmap.singleton ⟨List.Vector.replicate 8 2⟩
    ⟨⟨List.Vector.replicate 8 2⟩, .connected, true, fun _ => .ok ()⟩

/-- A broadcast message of version 1, sent to the peer. -/
def bleMessage (size : ℕ) : BitchatPacket :=
  BitchatPacket.newSimple .message ⟨List.Vector.replicate 8 1⟩ (List.replicate size 0x61)
    ⟨1700000000000⟩

def bleSent (size : ℕ) : List Bytes × BitchatResult Unit :=
  bleWithOnePeer.sendBitchatPacketToPeer ⟨List.Vector.replicate 8 2⟩ (bleMessage size)

theorem sent_packet_decoded_once_iff_short :
    (bleSent 2).2 = .ok () ∧ (decodedPackets (bleSent 2).1).count (bleMessage 2) = 1 :=
  ⟨by decide +kernel,
    (sent_packet_decoded_once_iff bleWithOnePeer ⟨List.Vector.replicate 8 2⟩ (bleMessage 2)
      (bleSent 2).1 _ rfl (Prod.ext rfl (by decide +kernel))).mpr
        ⟨by decide, .inl ⟨rfl, by decide +kernel⟩⟩⟩

/-- An encoding of 251 bytes takes two chunks, and neither decodes. -/
theorem long_packet_not_decoded :
    (bleSent 230).2 = .ok () ∧ (bleSent 230).1.length = 2 ∧
      (decodedPackets (bleSent 230).1).count (bleMessage 230) = 0 := by
  decide +kernel

end Bitchat
