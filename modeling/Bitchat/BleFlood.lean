import Bitchat.BleChunks
import Bitchat.RelaySigning

/-!
# Flooding over bytes

The mesh with what goes over its links: a packet is encoded and written in chunks, every
notification is decoded by itself, and what is relayed is encoded anew. A link carries a
packet when it is connected, the encoding is within the size limit of the sender, and
the receiver decodes the packet from the chunks. A directed packet reaches its addressee
over such links as far as its TTL takes it, a broadcast packet only the peers next to its
originator.
-/
namespace Bitchat
open Rust

namespace BitchatPacket

variable {packet original : BitchatPacket}

theorem RelayOf.symm (h : packet.RelayOf original) : original.RelayOf packet := by
  unfold RelayOf at h ⊢
  rw [h]

theorem RelayOf.isBroadcast (h : packet.RelayOf original) :
    packet.isBroadcast = original.isBroadcast := by
  rw [h]
  rfl

theorem RelayOf.recipientId (h : packet.RelayOf original) :
    packet.recipientId = original.recipientId := by rw [h]

theorem relayOf_self (packet : BitchatPacket) : packet.RelayOf packet := rfl

theorem relayOf_relayed (packet : BitchatPacket) : packet.relayed.RelayOf packet := rfl

end BitchatPacket

namespace WireFormat

/-- A relayed packet has the encoding of the first one but for the byte of the TTL. -/
theorem encode_of_relayOf {packet original : BitchatPacket} {bytes : Bytes}
    (h : encode original = .ok bytes) (hvalid : packet.validate = .ok ())
    (hrelay : packet.RelayOf original) :
    encode packet = .ok (bytes.set 2 packet.header.ttl.value) := by
  obtain ⟨horiginal, _, recipient, route, signature, hheader, hrec, hrt, hsig, rfl⟩ :=
    encode_eq_ok.mp h
  obtain ⟨_, rfl⟩ := PacketHeader.toBytes_eq_ok.mp hheader
  have hlength : packet.header.payloadLength = original.header.payloadLength := by
    apply UInt32.toNat.inj
    rw [← (BitchatPacket.validate_eq_ok.mp hvalid).2.1, hrelay,
      ← (BitchatPacket.validate_eq_ok.mp horiginal).2.1]
  have hheader' := (BitchatPacket.validate_eq_ok.mp hvalid).1
  obtain ⟨ttl, httl⟩ : ∃ ttl, packet.header.ttl = ttl := ⟨_, rfl⟩
  have hsame : packet = { original with header := { original.header with ttl := ttl } } := by
    rw [← httl]
    conv_lhs => rw [hrelay, hlength]
  subst hsame
  refine encode_eq_ok.mpr ⟨hvalid, _, recipient, route, signature,
    PacketHeader.toBytes_eq_ok.mpr ⟨hheader', rfl⟩, hrec, hrt, hsig, ?_⟩
  simp [PacketHeader.fixedBytes]

theorem ttl_of_encode {p : BitchatPacket} {bytes : Bytes} (h : encode p = .ok bytes) :
    bytes[2]? = some p.header.ttl.value := by
  obtain ⟨_, header, sections, hheader, _, rfl⟩ := encode_eq_sections h
  obtain ⟨_, rfl⟩ := PacketHeader.toBytes_eq_ok.mp hheader
  simp [PacketHeader.fixedBytes]

theorem ttl_of_decode {p : BitchatPacket} {data : Bytes} (h : decode data = .ok p) :
    data[2]? = some p.header.ttl.value := by
  have hheader := PacketHeader.fromBytes_eq_ok.mp (decode_iff_sections.mp h).1
  exact index_eq_ok.mp hheader.2.2.2.1

theorem validate_of_encode {p : BitchatPacket} {bytes : Bytes} (h : encode p = .ok bytes) :
    p.validate = .ok () :=
  (encode_eq_ok.mp h).1

theorem validate_of_decode {p : BitchatPacket} {data : Bytes} (h : decode data = .ok p) :
    p.validate = .ok () :=
  (decode_eq_ok.mp h).2

end WireFormat

/-- When a packet fits one write, or one byte more: what is cut off is a single byte. -/
theorem eq_take_or_short_of_mem_chunks {size : ℕ} {data part : Bytes} (positive : 1 < size)
    (nonempty : data ≠ []) (h : data.length ≤ size + 1) (hpart : part ∈ chunks size data) :
    part = data.take size ∨ part.length ≤ 1 := by
  by_cases fits : data.length ≤ size
  · rw [chunks_of_fits nonempty fits, List.mem_singleton] at hpart
    rw [hpart, List.take_of_length_le fits]
    exact .inl rfl
  · have total : data.length = size + 1 := by omega
    rw [chunks_of_one_more positive total, List.mem_pair] at hpart
    rcases hpart with rfl | rfl
    · exact .inl rfl
    · right
      rw [List.length_drop]
      omega

namespace BleTransport

/-- What was written are chunks of the data. -/
theorem mem_of_mem_writeChunks {write : Bytes → Except String Unit} {parts : List Bytes}
    {part : Bytes} (h : part ∈ (writeChunks write parts).1) : part ∈ parts := by
  induction parts with
  | nil => exact h
  | cons first rest ih =>
    unfold writeChunks at h
    cases answer : write first with
    | error e =>
      rw [answer] at h
      cases h
    | ok _ =>
      rw [answer] at h
      rcases List.mem_cons.mp h with rfl | h
      · exact List.mem_cons_self
      · exact List.mem_cons_of_mem _ (ih h)

theorem writeChunks_of_takesAll {write : Bytes → Except String Unit}
    (takesAll : ∀ data, write data = .ok ()) (parts : List Bytes) :
    writeChunks write parts = (parts, .ok ()) := by
  induction parts with
  | nil => rfl
  | cons first rest ih => simp only [writeChunks, takesAll, ih]

theorem mem_of_mem_sendToPeer {ble : BleTransport} {p : PeerId} {data part : Bytes}
    (h : part ∈ (ble.sendToPeer p data).1) : part ∈ chunks bleMtu data := by
  unfold sendToPeer at h
  cases hpeer : ble.connectedPeer p with
  | error e =>
    rw [hpeer] at h
    cases h
  | ok peer =>
    simp only [hpeer] at h
    split_ifs at h
    · exact mem_of_mem_writeChunks h
    · cases h

/-- What is written of a packet are chunks of its encoding, which is within the size limit. -/
theorem mem_of_mem_sendBitchatPacketToPeer {ble : BleTransport} {p : PeerId}
    {packet : BitchatPacket} {part : Bytes}
    (h : part ∈ (ble.sendBitchatPacketToPeer p packet).1) :
    ∃ bytes, WireFormat.encode packet = .ok bytes ∧ bytes.length ≤ ble.maxPacketSize ∧
      part ∈ chunks bleMtu bytes := by
  unfold sendBitchatPacketToPeer at h
  cases hencode : WireFormat.encode packet with
  | error e =>
    rw [hencode] at h
    cases e <;> cases h
  | ok bytes =>
    simp only [hencode, sendPacketToPeer] at h
    cases hpeer : ble.connectedPeer p with
    | error e =>
      rw [hpeer] at h
      cases h
    | ok peer =>
      simp only [hpeer] at h
      split_ifs at h with hlong
      · cases h
      · exact ⟨bytes, rfl, not_lt.mp hlong, mem_of_mem_sendToPeer h⟩

/-- `broadcast_bitchat_packet`, with the chunks that were written to each peer. That a
peer could not be sent to is only logged. -/
def broadcastBitchatPacket (ble : BleTransport) (packet : BitchatPacket) :
    (PeerId → List Bytes) × BitchatResult Unit :=
  match WireFormat.encode packet with
  | .ok data =>
    if ble.maxPacketSize < data.length then
      (fun _ => [], fail (.transport (.invalidConfiguration "Packet too large for BLE")))
    else (fun p => if p ∈ ble.connectedPeers then (ble.sendToPeer p data).1 else [], .ok ())
  | .error .panic => (fun _ => [], panicked)
  | .error (.err e) =>
    (fun _ => [], fail (.transport (.invalidConfiguration
      ("Failed to encode BitChat packet: " ++ e.display))))

theorem connectedPeer_of_mem {ble : BleTransport} {p : PeerId} (h : p ∈ ble.connectedPeers) :
    ∃ peer, ble.peers.lookup p = some peer ∧ peer.isConnected = true ∧
      ble.connectedPeer p = .ok peer := by
  simp only [connectedPeers, Map.mem_keys_iff, Map.mem_retain_entries] at h
  obtain ⟨peer, hpeer, hconnected⟩ := h
  exact ⟨peer, hpeer, hconnected, by rw [connectedPeer, hpeer]; exact if_pos hconnected⟩

/-- A broadcast writes to the connected peers what sending the packet to each of them does. -/
theorem broadcastBitchatPacket_eq (ble : BleTransport) (packet : BitchatPacket) (p : PeerId) :
    (ble.broadcastBitchatPacket packet).1 p =
      if p ∈ ble.connectedPeers then (ble.sendBitchatPacketToPeer p packet).1 else [] := by
  unfold broadcastBitchatPacket sendBitchatPacketToPeer
  cases WireFormat.encode packet with
  | error e => cases e <;> exact (ite_self _).symm
  | ok data =>
    by_cases connected : p ∈ ble.connectedPeers
    · obtain ⟨peer, _, _, hpeer⟩ := connectedPeer_of_mem connected
      simp only [sendPacketToPeer, hpeer, if_pos connected]
      split_ifs
      · rfl
      · exact if_pos connected
    · simp only [if_neg connected]
      split_ifs
      · rfl
      · exact if_neg connected

theorem length_of_mem_sendBitchatPacketToPeer {ble : BleTransport} {p : PeerId}
    {packet : BitchatPacket} {part : Bytes}
    (h : part ∈ (ble.sendBitchatPacketToPeer p packet).1) : part.length ≤ bleMtu := by
  obtain ⟨_, _, _, hpart⟩ := mem_of_mem_sendBitchatPacketToPeer h
  exact mem_chunks_length hpart

theorem length_of_mem_broadcastBitchatPacket {ble : BleTransport} {p : PeerId}
    {packet : BitchatPacket} {part : Bytes}
    (h : part ∈ (ble.broadcastBitchatPacket packet).1 p) : part.length ≤ bleMtu := by
  rw [broadcastBitchatPacket_eq] at h
  split_ifs at h
  · exact length_of_mem_sendBitchatPacketToPeer h
  · cases h

end BleTransport

/-- A write on the link from `sender` to `receiver`. For the statements it remembers the
copy of a packet that it brings, if it decodes to one. -/
structure Notification where
  sender : PeerId
  receiver : PeerId
  data : Bytes
  copy : Option Copy
  short : data.length ≤ bleMtu
  brings : ∀ c ∈ copy, c.sender = sender ∧ c.receiver = receiver ∧
    WireFormat.decode data = .ok c.packet
  deriving DecidableEq

/-- Whose packet is sent, and the peers that sent it before. -/
structure Origin where
  earlier : List PeerId
  originator : PeerId
  original : BitchatPacket

/-- The copy of a packet that is sent over a link. -/
def Origin.copyOn (o : Origin) (u v : PeerId) (packet : BitchatPacket) : Copy :=
  ⟨u, o.earlier, v, packet, o.originator, o.original⟩

/-- A write of some chunk of a packet. It brings a copy if the packet is known and is what
the chunk decodes to. -/
def Notification.ofWrite (u v : PeerId) (packet : BitchatPacket) (origin : Option Origin)
    (data : Bytes) (short : data.length ≤ bleMtu) : Notification where
  sender := u
  receiver := v
  data := data
  copy := if (WireFormat.decode data).toOption = some packet then
    origin.map fun o => o.copyOn u v packet else none
  short := short
  brings := by
    intro c hc
    rw [Option.mem_def, Option.ite_none_right_eq_some, Option.map_eq_some_iff] at hc
    obtain ⟨hdecode, o, -, rfl⟩ := hc
    refine ⟨rfl, rfl, ?_⟩
    cases hdata : WireFormat.decode data with
    | error e =>
      rw [hdata] at hdecode
      cases hdecode
    | ok decoded =>
      rw [hdata] at hdecode
      cases hdecode
      rfl

namespace Mesh

variable (mesh : Mesh)

/-- `v` is at most `n` links away from `u`. -/
def Within (n : ℕ) (u v : PeerId) : Prop := ∃ m ≤ n, Walk mesh.Link m u v

/-- `send_bitchat_packet_to_peer`, as notifications of the peer. -/
def send (u v : PeerId) (packet : BitchatPacket) (origin : Option Origin) : List Notification :=
  ((mesh.node u).sendBitchatPacketToPeer v packet).1.pmap (Notification.ofWrite u v packet origin)
    fun _ h => BleTransport.length_of_mem_sendBitchatPacketToPeer h

/-- `broadcast_bitchat_packet` of the originator, as notifications of a peer. -/
def broadcast (originator v : PeerId) (packet : BitchatPacket) : List Notification :=
  (((mesh.node originator).broadcastBitchatPacket packet).1 v).pmap
    (Notification.ofWrite originator v packet (some ⟨[], originator, packet⟩))
    fun _ h => BleTransport.length_of_mem_broadcastBitchatPacket h

/-- The notifications that the originators of some packets put in flight. -/
def sent (packets : List (PeerId × BitchatPacket)) : Multiset Notification :=
  (packets.map fun p => (mesh.node p.1).connectedPeers.val.bind fun v =>
    (mesh.broadcast p.1 v p.2 : Multiset Notification)).sum

/-- `handle_incoming_packet` of the receiver. -/
def receive (n : Notification) : BleTransport.Incoming :=
  (mesh.node n.receiver).handleIncomingPacket mesh.readAnnounce n.sender n.data

/-- The notifications that its receiver puts in flight when it relays. -/
def relays (n : Notification) : Multiset Notification :=
  match (mesh.receive n).forwarded with
  | none => 0
  | some (packet, peers) => peers.val.bind fun v =>
    (mesh.send n.receiver v packet
      (n.copy.map fun c => ⟨c.sender :: c.earlier, c.originator, c.original⟩) :
        Multiset Notification)

/-- The state after delivering notifications in some order. -/
def exchange (packets : List (PeerId × BitchatPacket)) (order : List Notification) :
    InFlight Notification :=
  run (InFlight.step mesh.relays) (InFlight.start (mesh.sent packets)) order

variable {mesh} {u v : PeerId} {packet : BitchatPacket} {origin : Option Origin}
  {n m : Notification}

theorem mem_send : n ∈ mesh.send u v packet origin ↔
    ∃ data, ∃ h : data ∈ ((mesh.node u).sendBitchatPacketToPeer v packet).1,
      n = .ofWrite u v packet origin data
        (BleTransport.length_of_mem_sendBitchatPacketToPeer h) := by
  simp only [send, List.mem_pmap, eq_comm]

/-- A broadcast is a sending to each of the connected peers. -/
theorem broadcast_eq (h : mesh.Link u v) (packet : BitchatPacket) :
    mesh.broadcast u v packet = mesh.send u v packet (some ⟨[], u, packet⟩) := by
  have same : ((mesh.node u).broadcastBitchatPacket packet).1 v =
      ((mesh.node u).sendBitchatPacketToPeer v packet).1 :=
    (BleTransport.broadcastBitchatPacket_eq _ packet v).trans (if_pos h)
  simp only [broadcast, send, same]

theorem mem_sent {packets : List (PeerId × BitchatPacket)} :
    n ∈ mesh.sent packets ↔ ∃ p ∈ packets, ∃ v, mesh.Link p.1 v ∧
      n ∈ mesh.send p.1 v p.2 (some ⟨[], p.1, p.2⟩) := by
  have one (p : PeerId × BitchatPacket) :
      (n ∈ (mesh.node p.1).connectedPeers.val.bind fun v =>
        (mesh.broadcast p.1 v p.2 : Multiset Notification)) ↔
      ∃ v, mesh.Link p.1 v ∧ n ∈ mesh.send p.1 v p.2 (some ⟨[], p.1, p.2⟩) := by
    simp only [Multiset.mem_bind, Finset.mem_val, Multiset.mem_coe]
    apply exists_congr
    intro v
    apply and_congr_right
    intro linked
    rw [broadcast_eq linked]
  induction packets with
  | nil => simp [sent]
  | cons p rest ih =>
    simp only [sent, List.map_cons, List.sum_cons, Multiset.mem_add, List.mem_cons,
      exists_eq_or_imp] at ih ⊢
    exact or_congr (one p) ih

/-- The whole of relaying: a notification that decodes to a packet for another peer with a
positive TTL is sent on to every other neighbour. -/
theorem mem_relays : m ∈ mesh.relays n ↔
    ∃ packet, WireFormat.decode n.data = .ok packet ∧
      ¬ (mesh.node n.receiver).isForUs packet = true ∧ 0 < packet.header.ttl.value ∧
        ∃ v, mesh.Link n.receiver v ∧ v ≠ n.sender ∧
          m ∈ mesh.send n.receiver v packet.relayed
            (n.copy.map fun c => ⟨c.sender :: c.earlier, c.originator, c.original⟩) := by
  unfold relays receive
  cases hdecode : WireFormat.decode n.data with
  | error e =>
    have nothing : ((mesh.node n.receiver).handleIncomingPacket mesh.readAnnounce n.sender
        n.data).forwarded = none := by
      rw [BleTransport.handleIncomingPacket, hdecode]
    simp [nothing]
  | ok packet =>
    rw [BleTransport.handleIncomingPacket_eq _ _ _ hdecode, BleTransport.forwarded_handlePacket]
    simp only [Except.ok.injEq, exists_eq_left']
    by_cases relays : ¬ (mesh.node n.receiver).isForUs packet = true ∧
        0 < packet.header.ttl.value
    · simp only [if_pos relays, Multiset.mem_bind, Finset.mem_val, Multiset.mem_coe,
        BleTransport.mem_otherConnectedPeers, and_assoc]
      tauto
    · rw [if_neg relays]
      simp only [Multiset.notMem_zero, false_iff]
      tauto

/-- The byte of the TTL, if the data is long enough for one. -/
def rank (n : Notification) : ℕ := (n.data.getD 2 0).toNat

variable (mesh) in
/-- What a relay sends has a smaller TTL, or is the single byte that is cut off from a
version 2 packet. -/
theorem rank_relays (n : Notification) : ∀ m ∈ mesh.relays n, rank m < rank n := by
  intro m hm
  obtain ⟨packet, hdecode, _, hpositive, v, _, _, hm⟩ := mem_relays.mp hm
  obtain ⟨data, hdata, rfl⟩ := mem_send.mp hm
  obtain ⟨bytes, hencode, _, hpart⟩ := BleTransport.mem_of_mem_sendBitchatPacketToPeer hdata
  have hback := WireFormat.encode_of_relayOf hencode (WireFormat.validate_of_decode hdecode)
    (BitchatPacket.relayOf_relayed packet).symm
  have hlength : bytes.length ≤ bleMtu + 1 := by
    have written := WireFormat.decode_length hback hdecode
    have short := n.short
    rw [List.length_set] at written
    split_ifs at written <;> omega
  have here : rank n = packet.header.ttl.value.toNat := by
    rw [rank, List.getD_eq_getElem?_getD, WireFormat.ttl_of_decode hdecode, Option.getD_some]
  have less := BitchatPacket.relayed_ttl hpositive
  rcases eq_take_or_short_of_mem_chunks (by decide) (WireFormat.ne_nil_of_encode hencode) hlength
    hpart with rfl | single
  · have next : rank (.ofWrite n.receiver v packet.relayed (n.copy.map fun c =>
        ⟨c.sender :: c.earlier, c.originator, c.original⟩) (bytes.take bleMtu)
        (BleTransport.length_of_mem_sendBitchatPacketToPeer hdata)) =
          packet.relayed.header.ttl.value.toNat := by
      change ((bytes.take bleMtu).getD 2 0).toNat = _
      rw [List.getD_eq_getElem?_getD, List.getElem?_take_of_lt (by decide),
        WireFormat.ttl_of_encode hencode, Option.getD_some]
    rw [next, here]
    omega
  · have next : data.getD 2 0 = 0 := by
      rw [List.getD_eq_getElem?_getD, List.getElem?_eq_none (by omega), Option.getD_none]
    change (data.getD 2 0).toNat < _
    rw [next, here]
    exact UInt8.lt_iff_toNat_lt.mp hpositive

variable (mesh) in
/-- A link carries a packet when the sender can send it and the receiver decodes it. -/
def Carries (packet : BitchatPacket) (u v : PeerId) : Prop :=
  mesh.Link u v ∧ ∃ bytes, WireFormat.encode packet = .ok bytes ∧
    bytes.length ≤ (mesh.node u).maxPacketSize ∧ ReadFromChunks packet bytes

theorem readFromChunks_of_relayOf {original : BitchatPacket} {bytes : Bytes} (ttl : UInt8)
    (hrelay : packet.RelayOf original) (h : ReadFromChunks original bytes) :
    ReadFromChunks packet (bytes.set 2 ttl) := by
  have behind : (bytes.set 2 ttl).drop headerSizeV2 = bytes.drop headerSizeV2 :=
    List.drop_set_of_lt (by decide)
  rw [ReadFromChunks, List.length_set, behind, hrelay]
  exact h

/-- A link carries a packet as well as what a relay makes of it. -/
theorem Carries.of_relayOf {original : BitchatPacket} (h : mesh.Carries original u v)
    (hvalid : packet.validate = .ok ()) (hrelay : packet.RelayOf original) :
    mesh.Carries packet u v := by
  obtain ⟨linked, bytes, hencode, hsize, hread⟩ := h
  refine ⟨linked, _, WireFormat.encode_of_relayOf hencode hvalid hrelay, ?_,
    readFromChunks_of_relayOf _ hrelay hread⟩
  rw [List.length_set]
  exact hsize

theorem Carries.validate (h : mesh.Carries packet u v) : packet.validate = .ok () := by
  obtain ⟨_, bytes, hencode, _⟩ := h
  exact WireFormat.validate_of_encode hencode

/-- A copy is brought only over a link that carries its packet. -/
theorem carries_of_brought {c : Copy} (linked : mesh.Link u v)
    (hn : n ∈ mesh.send u v packet origin) (hc : c ∈ n.copy) :
    mesh.Carries packet u v ∧ ∃ o ∈ origin, c = o.copyOn u v packet := by
  obtain ⟨data, hdata, rfl⟩ := mem_send.mp hn
  obtain ⟨bytes, hencode, hsize, hpart⟩ := BleTransport.mem_of_mem_sendBitchatPacketToPeer hdata
  have hdecode := ((Notification.ofWrite u v packet origin data
    (BleTransport.length_of_mem_sendBitchatPacketToPeer hdata)).brings c hc).2.2
  obtain ⟨_, hcopy⟩ := Option.ite_none_right_eq_some.mp hc
  obtain ⟨o, horigin, rfl⟩ := Option.map_eq_some_iff.mp hcopy
  have found : packet ∈ decodedPackets (chunks bleMtu bytes) :=
    mem_decodedPackets.mpr ⟨data, hpart, hdecode⟩
  exact ⟨⟨linked, bytes, hencode, hsize, readFromChunks_of_mem hencode found⟩, o, horigin, rfl⟩

/-- What a notification that brings a copy has behind it: links that carry the packet. -/
structure CameFar (mesh : Mesh) (c : Copy) : Prop where
  valid : c.original.validate = .ok ()
  relay : c.packet.RelayOf c.original
  walk : Walk (mesh.Carries c.original) c.links c.originator c.receiver
  counts : c.Counts
  broadcast : c.original.isBroadcast = true → c.links = 1

theorem cameFar_sent {packets : List (PeerId × BitchatPacket)} {c : Copy}
    (hn : n ∈ mesh.sent packets) (hc : c ∈ n.copy) : mesh.CameFar c := by
  obtain ⟨p, _, v, linked, hn⟩ := mem_sent.mp hn
  obtain ⟨carries, o, ho, rfl⟩ := carries_of_brought linked hn hc
  cases ho
  exact ⟨carries.validate, rfl, ⟨v, carries, rfl⟩, rfl, fun _ => rfl⟩

theorem cameFar_relays {c : Copy} (far : ∀ c ∈ n.copy, mesh.CameFar c) (hm : m ∈ mesh.relays n)
    (hc : c ∈ m.copy) : mesh.CameFar c := by
  obtain ⟨packet, hdecode, hother, hpositive, v, linked, _, hm⟩ := mem_relays.mp hm
  obtain ⟨carries, o, ho, rfl⟩ := carries_of_brought linked hm hc
  obtain ⟨parent, hparent, rfl⟩ := Option.map_eq_some_iff.mp ho
  obtain ⟨-, receiver, decoded⟩ := n.brings parent hparent
  have same : packet = parent.packet := Except.ok.inj (hdecode.symm.trans decoded)
  subst same
  have came := far parent hparent
  have less := BitchatPacket.relayed_ttl hpositive
  refine ⟨came.valid, came.relay.relayed, ?_, ?_, ?_⟩
  · have last := carries.of_relayOf came.valid came.relay.relayed.symm
    rw [← receiver] at last
    exact came.walk.concat last
  · have counts := came.counts
    unfold Copy.Counts Copy.links at counts ⊢
    change parent.packet.relayed.header.ttl.value.toNat +
      ((parent.sender :: parent.earlier).length + 1) = parent.original.header.ttl.value.toNat + 1
    rw [List.length_cons]
    omega
  · intro broadcast
    have forUs : (mesh.node n.receiver).isForUs parent.packet = true :=
      (isForUs_node _ _).mpr (.inl (came.relay.isBroadcast.trans broadcast))
    exact absurd forUs hother

/-- In every state of a run the copies came over links that carry their packets. -/
theorem cameFar_exchange {packets : List (PeerId × BitchatPacket)} {order : List Notification}
    {c : Copy} (hn : n ∈ (mesh.exchange packets order).copies ∨
      n ∈ (mesh.exchange packets order).delivered) (hc : c ∈ n.copy) : mesh.CameFar c := by
  obtain ⟨first, hfirst, path⟩ := InFlight.stemsFrom_run (mesh.sent packets) order n hn
  clear hn
  induction path generalizing c with
  | refl => exact cameFar_sent hfirst hc
  | tail _ last ih => exact cameFar_relays (fun c hc => ih hc) last hc

/-- The core of `v` was told of a copy of the packet that `originator` sent. -/
def Receives (mesh : Mesh) (originator : PeerId) (original : BitchatPacket) (v : PeerId)
    (delivered : List Notification) : Prop :=
  ∃ n ∈ delivered, ∃ c ∈ n.copy, c.originator = originator ∧ c.original = original ∧
    c.receiver = v ∧ c.packet.RelayOf original ∧
      .bitchatPacketReceived c.packet.senderId c.packet .ble ∈ (mesh.receive n).events

theorem received_of_isForUs {c : Copy} (hc : c ∈ n.copy)
    (h : (mesh.node n.receiver).isForUs c.packet = true) :
    .bitchatPacketReceived c.packet.senderId c.packet .ble ∈ (mesh.receive n).events := by
  rw [receive, BleTransport.handleIncomingPacket_eq _ _ _ (n.brings c hc).2.2]
  simp [BleTransport.handlePacket, h]

/-- Once nothing is in flight, whatever else was sent and in whatever order the
notifications were delivered, the packet has reached the core of every peer in reach of
its TTL that it is for. -/
def Reaches (mesh : Mesh) (originator : PeerId) (original : BitchatPacket) : Prop :=
  ∀ packets order, (originator, original) ∈ packets →
    InFlight.Delivers mesh.relays (InFlight.start (mesh.sent packets)) order →
    (mesh.exchange packets order).copies = 0 →
      ∀ v, v ≠ originator → mesh.Within original.header.ttl.value.toNat originator v →
        (original.isBroadcast = true ∨ original.recipientId = some v) →
          mesh.Receives originator original v (mesh.exchange packets order).delivered

/-- The number of links that a packet can take: a broadcast packet is not relayed, a
directed one is relayed once for each hop of its TTL. -/
def reach (original : BitchatPacket) : ℕ :=
  if original.isBroadcast then 1 else original.header.ttl.value.toNat + 1

theorem CameFar.links_le {c : Copy} (h : mesh.CameFar c) : c.links ≤ reach c.original := by
  unfold reach
  split_ifs with broadcast
  · exact (h.broadcast broadcast).le
  · have counts := h.counts
    unfold Copy.Counts at counts
    omega

end Mesh

/-- A mesh whose links lose nothing: connected peers take every write. -/
structure LosslessMesh extends Mesh where
  lossless : ∀ u v peer, (node u).peers.lookup v = some peer → peer.isConnected = true →
    peer.offersTx = true ∧ ∀ data, peer.write data = .ok ()

namespace LosslessMesh

open Mesh

variable {mesh : LosslessMesh} {u v : PeerId} {packet : BitchatPacket} {bytes : Bytes}

/-- All chunks of a packet within the size limit are written. -/
theorem written (linked : mesh.Link u v) (hencode : WireFormat.encode packet = .ok bytes)
    (hsize : bytes.length ≤ (mesh.node u).maxPacketSize) :
    ((mesh.node u).sendBitchatPacketToPeer v packet).1 = chunks bleMtu bytes := by
  obtain ⟨peer, known, connected, hpeer⟩ := BleTransport.connectedPeer_of_mem linked
  obtain ⟨offers, takesAll⟩ := mesh.lossless u v peer known connected
  simp only [BleTransport.sendBitchatPacketToPeer, hencode, BleTransport.sendPacketToPeer, hpeer,
    if_neg (not_lt.mpr hsize), BleTransport.sendToPeer, if_pos offers,
    BleTransport.writeChunks_of_takesAll takesAll]

/-- Over a link that carries the packet the copy is brought. -/
theorem brought_of_carries (h : mesh.Carries packet u v) (o : Origin) :
    ∃ n ∈ mesh.send u v packet (some o), o.copyOn u v packet ∈ n.copy := by
  obtain ⟨linked, bytes, hencode, hsize, hread⟩ := h
  have found : packet ∈ decodedPackets (chunks bleMtu bytes) := by
    rw [decodedPackets_of_readFromChunks hencode hread]
    exact List.mem_singleton_self packet
  obtain ⟨data, hdata, hdecode⟩ := mem_decodedPackets.mp found
  rw [← written linked hencode hsize] at hdata
  refine ⟨_, mem_send.mpr ⟨data, hdata, rfl⟩, ?_⟩
  exact if_pos (congrArg Except.toOption hdecode)

/-- A directed packet floods along every shortest walk to its addressee, as long as
its TTL is not smaller than the number of links that are left. -/
theorem descends_to_addressee {v : PeerId} {k : ℕ} :
    ∀ (n : Notification) (c : Copy), c ∈ n.copy → c.original.validate = .ok () →
      c.packet.RelayOf c.original → c.original.isBroadcast = false →
      c.original.recipientId = some v → Distance (mesh.Carries c.original) k c.receiver v →
      (∀ m < k + 1, ¬ Walk (mesh.Carries c.original) m c.sender v) →
      k ≤ c.packet.header.ttl.value.toNat →
      ∃ d, Relation.ReflTransGen (InFlight.Descends mesh.relays) n d ∧ ∃ e ∈ d.copy,
        e.originator = c.originator ∧ e.original = c.original ∧ e.receiver = v ∧
          e.packet.RelayOf c.original := by
  induction k with
  | zero =>
    intro n c hc _ hrelay _ _ hdist _ _
    exact ⟨n, .refl, c, hc, rfl, rfl, hdist.1, hrelay⟩
  | succ k ih =>
    intro n c hc hvalid hrelay hdirected hrecipient hdist hfar httl
    obtain ⟨w, hcarries, hnext⟩ := hdist.next
    obtain ⟨hsender, hreceiver, hdecode⟩ := n.brings c hc
    have hother : ¬ (mesh.node n.receiver).isForUs c.packet = true := by
      rw [isForUs_node, hrelay.isBroadcast, hrelay.recipientId, hdirected, hrecipient, ← hreceiver]
      rintro (h | h)
      · cases h
      · exact hdist.2 0 (by omega) (Option.some.inj h).symm
    have hpositive : 0 < c.packet.header.ttl.value := by
      rw [UInt8.lt_iff_toNat_lt]
      exact lt_of_lt_of_le (Nat.succ_pos k) httl
    have hne : w ≠ n.sender := by
      rintro rfl
      rw [← hsender] at hnext
      exact hfar k (by omega) hnext.1
    have hrelayed := hrelay.relayed
    have hvalidRelayed := BitchatPacket.validate_relayed (WireFormat.validate_of_decode hdecode)
    have hcarriesRelayed := hcarries.of_relayOf hvalidRelayed hrelayed
    obtain ⟨next, hsent, hbrought⟩ :=
      brought_of_carries hcarriesRelayed ⟨c.sender :: c.earlier, c.originator, c.original⟩
    have hforwarded : next ∈ mesh.relays n := by
      refine mem_relays.mpr ⟨c.packet, hdecode, hother, hpositive, w, ?_, hne, ?_⟩
      · rw [← hreceiver]
        exact hcarries.1
      · rw [hc, ← hreceiver]
        exact hsent
    have hless : k ≤ c.packet.relayed.header.ttl.value.toNat := by
      have := BitchatPacket.relayed_ttl hpositive
      omega
    obtain ⟨d, hpath, hd⟩ :=
      ih next _ hbrought hvalid hrelayed hdirected hrecipient hnext hdist.2 hless
    exact ⟨d, .head hforwarded hpath, hd⟩

/-- A packet that some walk of carrying links takes to a peer it is for is received there. -/
theorem receives_of_walk {packets : List (PeerId × BitchatPacket)} {order : List Notification}
    {originator v : PeerId} {original : BitchatPacket} (hsent : (originator, original) ∈ packets)
    (done : (mesh.exchange packets order).copies = 0) (hother : v ≠ originator)
    (hfor : original.isBroadcast = true ∨ original.recipientId = some v) {n : ℕ}
    (hn : n ≤ reach original) (hwalk : Walk (mesh.Carries original) n originator v) :
    mesh.Receives originator original v (mesh.exchange packets order).delivered := by
  obtain ⟨d, hd, hdist⟩ := exists_distance hwalk
  cases d with
  | zero => exact absurd hdist.1.symm hother
  | succ k =>
    obtain ⟨w, hcarries, hnext⟩ := hdist.next
    have hvalid := hcarries.validate
    obtain ⟨first, hfirst, hbrought⟩ := brought_of_carries hcarries ⟨[], originator, original⟩
    have hmem : first ∈ mesh.sent packets :=
      mem_sent.mpr ⟨_, hsent, w, hcarries.1, hfirst⟩
    have received {d : Notification} {e : Copy}
        (hpath : Relation.ReflTransGen (InFlight.Descends mesh.relays) first d) (he : e ∈ d.copy)
        (horiginator : e.originator = originator) (horiginal : e.original = original)
        (hreceiver : e.receiver = v) (hrelay : e.packet.RelayOf original) :
        mesh.Receives originator original v (mesh.exchange packets order).delivered := by
      refine ⟨d, (InFlight.mem_delivered_iff done).mpr ⟨first, hmem, hpath⟩, e, he, horiginator,
        horiginal, hreceiver, hrelay, received_of_isForUs he ?_⟩
      rw [isForUs_node, hrelay.isBroadcast, hrelay.recipientId, ← (d.brings e he).2.1, hreceiver]
      exact hfor
    cases hkind : original.isBroadcast with
    | true =>
      have near : w = v := by
        rw [reach, if_pos hkind] at hn
        obtain rfl : k = 0 := by omega
        exact hnext.1
      exact received .refl hbrought rfl rfl near (BitchatPacket.relayOf_self original)
    | false =>
      rw [reach, hkind, if_neg Bool.false_ne_true] at hn
      rw [hkind] at hfor
      have hrecipient := hfor.resolve_left Bool.false_ne_true
      obtain ⟨d, hpath, e, he, horiginator, horiginal, hreceiver, hrelay⟩ :=
        descends_to_addressee first _ hbrought hvalid (BitchatPacket.relayOf_self original) hkind
          hrecipient hnext hdist.2 (show k ≤ original.header.ttl.value.toNat by omega)
      exact received hpath he horiginator horiginal hreceiver hrelay

end LosslessMesh

/-- Flooding reaches everyone it should exactly when links that carry the packet lead to
each of them: for a broadcast packet a single link, for a directed one a walk that its TTL
allows. -/
theorem Mesh.reaches_iff (mesh : LosslessMesh) (originator : PeerId) (original : BitchatPacket) :
    mesh.Reaches originator original ↔
      ∀ v, v ≠ originator → mesh.Within original.header.ttl.value.toNat originator v →
        (original.isBroadcast = true ∨ original.recipientId = some v) →
          ∃ n ≤ reach original, Walk (mesh.Carries original) n originator v := by
  constructor
  · intro hreach v hother hwithin hfor
    obtain ⟨order, hdelivers, done⟩ := InFlight.exists_order (rank_relays mesh.toMesh)
      (InFlight.start (mesh.sent [(originator, original)]))
    have hsent : (originator, original) ∈ [(originator, original)] := List.mem_singleton_self _
    obtain ⟨n, hn, c, hc, rfl, rfl, rfl, _, _⟩ :=
      hreach _ order hsent hdelivers done v hother hwithin hfor
    have came := cameFar_exchange (.inr hn) hc
    exact ⟨c.links, came.links_le, came.walk⟩
  · intro hlinks packets order hsent _ done v hother hwithin hfor
    obtain ⟨n, hn, hwalk⟩ := hlinks v hother hwithin hfor
    exact LosslessMesh.receives_of_walk hsent done hother hfor hn hwalk

namespace Mesh

theorem takesAll_connectedTo {peers : List PeerId} {v : PeerId} {peer : BlePeer}
    (known : (connectedTo peers).lookup v = some peer) :
    peer.offersTx = true ∧ ∀ data, peer.write data = .ok () := by
  induction peers using List.reverseRecOn with
  | nil => cases known
  | append_singleton peers p ih =>
    rw [connectedTo, List.foldl_append, List.foldl_cons, List.foldl_nil,
      Map.lookup_insert_if] at known
    split_ifs at known
    · cases known
      exact ⟨rfl, fun _ => rfl⟩
    · exact ih known

/-- The line of three peers loses nothing. -/
def losslessLine : LosslessMesh where
  toMesh := lineMesh
  lossless u v peer known _ := by
    simp only [lineMesh] at known
    split_ifs at known
    · exact takesAll_connectedTo known
    · exact takesAll_connectedTo known
    · cases known

/-- What the first peer puts in flight for a message. -/
def firstNotifications (packet : BitchatPacket) : List Notification :=
  losslessLine.send (peer 1) (peer 2) packet (some ⟨[], peer 1, packet⟩)

/-- A broadcast with TTL 2 does not reach the peer two links away, though it is carried on
every link. -/
theorem line_broadcast_not_reached :
    losslessLine.Carries (lineMessage none 2) (peer 1) (peer 2) ∧
      losslessLine.Carries (lineMessage none 2) (peer 2) (peer 3) ∧
      ¬ losslessLine.Reaches (peer 1) (lineMessage none 2) := by
  have whole : ReadFromChunks (lineMessage none 2)
      ((WireFormat.encode (lineMessage none 2)).toOption.getD []) :=
    ⟨by decide, .inl ⟨rfl, by decide +kernel⟩⟩
  refine ⟨⟨by decide +kernel, _, rfl, by decide +kernel, whole⟩,
    ⟨by decide +kernel, _, rfl, by decide +kernel, whole⟩, ?_⟩
  intro hreach
  have hdelivered : ((losslessLine.exchange [(peer 1, lineMessage none 2)]
      (firstNotifications (lineMessage none 2))).delivered.map Notification.receiver) =
        [peer 2] := by
    decide +kernel
  have hwalk : Walk losslessLine.Link 2 (peer 1) (peer 3) :=
    ⟨peer 2, by decide +kernel, peer 3, by decide +kernel, rfl⟩
  obtain ⟨n, hn, c, hc, _, _, hreceiver, _⟩ := hreach [(peer 1, lineMessage none 2)]
    (firstNotifications (lineMessage none 2)) (List.mem_singleton_self _)
    ⟨by decide +kernel, trivial⟩ (by decide +kernel) (peer 3) (by decide) ⟨2, by decide, hwalk⟩
    (.inl rfl)
  have there : n.receiver = peer 2 := by
    have := List.mem_map_of_mem (f := Notification.receiver) hn
    rw [hdelivered, List.mem_singleton] at this
    exact this
  rw [← (n.brings c hc).2.1, hreceiver] at there
  exact absurd there (by decide)

end Mesh

end Bitchat
