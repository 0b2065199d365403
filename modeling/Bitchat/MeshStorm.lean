import Bitchat.BleFlood
import Mathlib.Algebra.BigOperators.Ring.Finset

/-!
# What flooding costs

No copy is recognised as a duplicate; a peer only does not relay back to the peer that a copy
came from. How many notifications are delivered does not depend on the order of the deliveries.
Of a packet that every peer can send in one write there are as many as copies of the packet.
Among peers that are all connected that is exponential in the TTL.
-/
namespace Bitchat
open Rust

/-- Relaying does not change for whom a packet is. -/
theorem BleTransport.isForUs_relayed (ble : BleTransport) (packet : BitchatPacket) :
    ble.isForUs packet.relayed = ble.isForUs packet := rfl

theorem BleTransport.otherConnectedPeers_eq (ble : BleTransport) (fromPeer : PeerId) :
    ble.otherConnectedPeers fromPeer = ble.connectedPeers.erase fromPeer := by
  ext p
  rw [mem_otherConnectedPeers, Finset.mem_erase, and_comm]

namespace Mesh

variable (mesh : Mesh)

/-- How many deliveries a copy on the link from `sender` to `receiver` leads to, its own one
included. -/
def flood (packet : BitchatPacket) : ℕ → PeerId → PeerId → ℕ
  | 0, _, _ => 1
  | ttl + 1, sender, receiver =>
    if (mesh.node receiver).isForUs packet then 1
    else 1 + ∑ v ∈ (mesh.node receiver).connectedPeers.erase sender, flood packet ttl receiver v

theorem flood_of_isForUs {packet : BitchatPacket} {receiver : PeerId}
    (h : (mesh.node receiver).isForUs packet = true) (ttl : ℕ) (sender : PeerId) :
    mesh.flood packet ttl sender receiver = 1 := by
  cases ttl with
  | zero => rfl
  | succ ttl => rw [flood, if_pos h]

theorem flood_relayed (packet : BitchatPacket) (ttl : ℕ) (sender receiver : PeerId) :
    mesh.flood packet.relayed ttl sender receiver = mesh.flood packet ttl sender receiver := by
  induction ttl generalizing sender receiver with
  | zero => rfl
  | succ ttl ih => simp only [flood, BleTransport.isForUs_relayed, ih]

/-- What a copy leads to is the copy and what its relays lead to. -/
theorem flood_forwards (c : Copy) :
    mesh.flood c.packet c.packet.header.ttl.value.toNat c.sender c.receiver =
      1 + ((mesh.forwards c).map fun d =>
        mesh.flood d.packet d.packet.header.ttl.value.toNat d.sender d.receiver).sum := by
  unfold forwards
  rw [handle, BleTransport.forwarded_handlePacket]
  by_cases relays : ¬ (mesh.node c.receiver).isForUs c.packet = true ∧
      0 < c.packet.header.ttl.value
  · have hops := BitchatPacket.relayed_ttl relays.2
    simp only [if_pos relays, BleTransport.otherConnectedPeers_eq, Multiset.map_map,
      Function.comp_def, flood_relayed]
    rw [← hops, flood, if_neg relays.1]
    rfl
  · rw [if_neg relays]
    by_cases hfor : (mesh.node c.receiver).isForUs c.packet = true
    · simp [mesh.flood_of_isForUs hfor]
    · have ended : c.packet.header.ttl.value.toNat = 0 := by
        by_contra hpositive
        exact relays ⟨hfor, UInt8.lt_iff_toNat_lt.mpr (Nat.pos_of_ne_zero hpositive)⟩
      simp [ended, flood]

/-- The deliveries of a packet that is broadcast by its originator. -/
def cost (sent : PeerId × BitchatPacket) : ℕ :=
  ∑ v ∈ (mesh.node sent.1).connectedPeers,
    mesh.flood sent.2 sent.2.header.ttl.value.toNat sent.1 v

/-- Every peer can send the packet in one write that decodes to it. -/
def OneWrite (packet : BitchatPacket) : Prop :=
  packet.header.version = protocolVersion1 ∧
    (packet.route.isSome = true → packet.header.flags.hasRoute = true) ∧
    ∃ bytes, WireFormat.encode packet = .ok bytes ∧ bytes.length ≤ bleMtu ∧
      ∀ u, bytes.length ≤ (mesh.node u).maxPacketSize

variable {mesh} in
theorem OneWrite.of_relayOf {packet original : BitchatPacket} (h : mesh.OneWrite original)
    (hvalid : packet.validate = .ok ()) (hrelay : packet.RelayOf original) :
    mesh.OneWrite packet := by
  obtain ⟨version, route, bytes, hencode, fits, sizes⟩ := h
  have encoded := WireFormat.encode_of_relayOf hencode hvalid hrelay
  refine ⟨?_, ?_, _, encoded, ?_, ?_⟩
  · rw [hrelay]
    exact version
  · rw [hrelay]
    exact route
  · rwa [List.length_set]
  · rwa [List.length_set]

/-- What a notification leads to, if it brings a copy. -/
def floodOf (n : Notification) : ℕ :=
  n.copy.elim 0 fun c =>
    mesh.flood c.packet c.packet.header.ttl.value.toNat c.sender c.receiver

/-- A notification that brings a copy of a packet of one write. -/
def Whole (n : Notification) : Prop := ∃ c ∈ n.copy, mesh.OneWrite c.packet

end Mesh

namespace LosslessMesh

open Mesh

variable {mesh : LosslessMesh} {u v : PeerId} {packet : BitchatPacket} {n : Notification} {c : Copy}

/-- A packet of one write is sent as one notification, which brings the copy. -/
theorem send_of_oneWrite (one : mesh.OneWrite packet) (linked : mesh.Link u v) (o : Origin) :
    ∃ n, mesh.send u v packet (some o) = [n] ∧ n.copy = some (o.copyOn u v packet) := by
  obtain ⟨version, route, bytes, hencode, fits, sizes⟩ := one
  have flag : packet.route.isSome = packet.header.flags.hasRoute := by
    rw [Bool.eq_iff_iff]
    exact ⟨route, WireFormat.route_of_flag hencode⟩
  have decoded := WireFormat.decode_of_encode hencode version flag
  have single : ((mesh.node u).sendBitchatPacketToPeer v packet).1 = [bytes] :=
    (written linked hencode (sizes u)).trans
      (chunks_of_fits (WireFormat.ne_nil_of_encode hencode) fits)
  refine ⟨.ofWrite u v packet (some o) bytes fits, ?_, if_pos (congrArg Except.toOption decoded)⟩
  simp only [send, single]
  rfl

/-- What a sending leads to. -/
theorem sum_floodOf_send (one : mesh.OneWrite packet) (linked : mesh.Link u v) (o : Origin) :
    ((mesh.send u v packet (some o)).map mesh.floodOf).sum =
      mesh.flood packet packet.header.ttl.value.toNat u v := by
  obtain ⟨n, hsend, hcopy⟩ := send_of_oneWrite one linked o
  rw [hsend, List.map_singleton, List.sum_singleton, floodOf, hcopy]
  rfl

theorem sum_floodOf_relays (hc : c ∈ n.copy) (one : mesh.OneWrite c.packet) :
    ((mesh.relays n).map mesh.floodOf).sum = ((mesh.forwards c).map fun d =>
      mesh.flood d.packet d.packet.header.ttl.value.toNat d.sender d.receiver).sum := by
  obtain ⟨hsender, hreceiver, hdecode⟩ := n.brings c hc
  have handled : mesh.receive n = mesh.handle c := by
    rw [receive, handle, BleTransport.handleIncomingPacket_eq _ _ _ hdecode, hsender, hreceiver]
  unfold relays forwards
  rw [handled, handle, BleTransport.forwarded_handlePacket]
  by_cases relays : ¬ (mesh.node c.receiver).isForUs c.packet = true ∧
      0 < c.packet.header.ttl.value
  · simp only [if_pos relays, Multiset.map_bind, Multiset.sum_bind, Multiset.map_map]
    congr 1
    refine Multiset.map_congr rfl fun v hv => ?_
    have linked : mesh.Link n.receiver v := by
      rw [← hreceiver]
      exact (BleTransport.mem_otherConnectedPeers.mp hv).1
    have relayed : mesh.OneWrite c.packet.relayed :=
      one.of_relayOf (BitchatPacket.validate_relayed (WireFormat.validate_of_decode hdecode))
        (BitchatPacket.relayOf_relayed c.packet)
    rw [hc, Multiset.map_coe, Multiset.sum_coe]
    exact (sum_floodOf_send relayed linked _).trans (by rw [← hreceiver]; rfl)
  · rw [if_neg relays]
    rfl

theorem whole_relays (whole : mesh.Whole n) : ∀ m ∈ mesh.relays n, mesh.Whole m := by
  obtain ⟨c, hc, one⟩ := whole
  intro m hm
  obtain ⟨packet, hdecode, _, _, v, linked, _, hm⟩ := mem_relays.mp hm
  have same : packet = c.packet := Except.ok.inj (hdecode.symm.trans (n.brings c hc).2.2)
  have relayed : mesh.OneWrite packet.relayed := by
    rw [same] at hdecode ⊢
    exact one.of_relayOf (BitchatPacket.validate_relayed (WireFormat.validate_of_decode hdecode))
      (BitchatPacket.relayOf_relayed c.packet)
  rw [hc] at hm
  obtain ⟨next, hsend, hcopy⟩ := send_of_oneWrite relayed linked
    ⟨c.sender :: c.earlier, c.originator, c.original⟩
  rw [Option.map_some, hsend, List.mem_singleton] at hm
  exact ⟨_, hm ▸ hcopy, relayed⟩

variable (mesh) in
/-- Every notification that brings a copy counts for one, and for what its relays lead to. -/
theorem flood_accounts : InFlight.Accounts mesh.relays mesh.Whole (fun _ => 1) mesh.floodOf where
  closed n whole := whole_relays whole
  balance n whole := by
    obtain ⟨c, hc, one⟩ := whole
    rw [sum_floodOf_relays hc one, ← mesh.flood_forwards c, floodOf, hc]
    rfl

variable {packets : List (PeerId × BitchatPacket)}

theorem whole_sent (one : ∀ p ∈ packets, mesh.OneWrite p.2) :
    ∀ n ∈ mesh.sent packets, mesh.Whole n := by
  intro n hn
  obtain ⟨p, hp, v, linked, hn⟩ := mem_sent.mp hn
  obtain ⟨first, hsend, hcopy⟩ := send_of_oneWrite (one p hp) linked ⟨[], p.1, p.2⟩
  rw [hsend, List.mem_singleton] at hn
  exact ⟨_, hn ▸ hcopy, one p hp⟩

theorem sum_floodOf_sent (one : ∀ p ∈ packets, mesh.OneWrite p.2) :
    ((mesh.sent packets).map mesh.floodOf).sum = (packets.map mesh.cost).sum := by
  induction packets with
  | nil => rfl
  | cons p rest ih =>
    have first : (((mesh.node p.1).connectedPeers.val.bind fun v =>
        (mesh.broadcast p.1 v p.2 : Multiset Notification)).map mesh.floodOf).sum =
          mesh.cost p := by
      rw [Multiset.map_bind, Multiset.sum_bind]
      refine congrArg Multiset.sum (Multiset.map_congr rfl fun v hv => ?_)
      have linked : mesh.Link p.1 v := hv
      rw [broadcast_eq linked, Multiset.map_coe, Multiset.sum_coe]
      exact sum_floodOf_send (one p List.mem_cons_self) linked _
    rw [sent, List.map_cons, List.sum_cons, Multiset.map_add, Multiset.sum_add, first,
      List.map_cons, List.sum_cons]
    exact congrArg _ (ih fun p hp => one p (List.mem_cons_of_mem _ hp))

end LosslessMesh

namespace Mesh

/-- Once nothing is in flight, the same notifications have been delivered in any order. Of
packets of one write there are as many as they cost. -/
theorem same_storm (mesh : LosslessMesh) {packets : List (PeerId × BitchatPacket)}
    {order order' : List Notification} (done : (mesh.exchange packets order).copies = 0)
    (done' : (mesh.exchange packets order').copies = 0) :
    (mesh.exchange packets order).delivered.Perm (mesh.exchange packets order').delivered ∧
      ((∀ p ∈ packets, mesh.OneWrite p.2) →
        (mesh.exchange packets order).delivered.length = (packets.map mesh.cost).sum) := by
  refine ⟨InFlight.delivered_perm mesh.rank_relays done done', fun one => ?_⟩
  have total := mesh.flood_accounts.delivered (LosslessMesh.whole_sent one) done
  rw [LosslessMesh.sum_floodOf_sent one] at total
  simpa [exchange] using total

variable (mesh : Mesh)

/-- Each of the peers is connected to all others. -/
def FullyConnected (peers : Finset PeerId) : Prop :=
  ∀ p ∈ peers, (mesh.node p).connectedPeers = peers.erase p

instance (peers : Finset PeerId) : Decidable (mesh.FullyConnected peers) :=
  inferInstanceAs (Decidable (∀ p ∈ peers, (mesh.node p).connectedPeers = peers.erase p))

variable {mesh} {peers : Finset PeerId}

theorem flood_fullyConnected (full : mesh.FullyConnected peers) {packet : BitchatPacket}
    (away : ∀ p ∈ peers, (mesh.node p).isForUs packet = false) {sender receiver : PeerId}
    (hsender : sender ∈ peers) (hreceiver : receiver ∈ peers) (hother : sender ≠ receiver)
    (ttl : ℕ) :
    mesh.flood packet ttl sender receiver = ∑ k ∈ Finset.range (ttl + 1), (peers.card - 2) ^ k := by
  induction ttl generalizing sender receiver with
  | zero => simp [flood]
  | succ ttl ih =>
    have others : ((peers.erase receiver).erase sender).card = peers.card - 2 := by
      rw [Finset.card_erase_of_mem (Finset.mem_erase.mpr ⟨hother, hsender⟩),
        Finset.card_erase_of_mem hreceiver]
      omega
    have each : ∀ v ∈ (peers.erase receiver).erase sender, mesh.flood packet ttl receiver v =
        ∑ k ∈ Finset.range (ttl + 1), (peers.card - 2) ^ k := fun v hv => by
      have hmem := Finset.mem_erase.mp (Finset.mem_of_mem_erase hv)
      exact ih hreceiver hmem.2 (Ne.symm hmem.1)
    rw [flood, if_neg (by simp [away receiver hreceiver]), full receiver hreceiver,
      Finset.sum_congr rfl each, Finset.sum_const, others, Finset.sum_range_succ' _ (ttl + 1),
      nsmul_eq_mul, Nat.cast_id, Finset.mul_sum, pow_zero, add_comm]
    simp only [pow_succ']

/-- What a packet for somebody who is not there costs, among peers that are all connected. -/
theorem cost_fullyConnected (full : mesh.FullyConnected peers) {originator : PeerId}
    {packet : BitchatPacket} (horiginator : originator ∈ peers)
    (away : ∀ p ∈ peers, (mesh.node p).isForUs packet = false) :
    mesh.cost (originator, packet) = (peers.card - 1) *
      ∑ k ∈ Finset.range (packet.header.ttl.value.toNat + 1), (peers.card - 2) ^ k := by
  have each : ∀ v ∈ peers.erase originator,
      mesh.flood packet packet.header.ttl.value.toNat originator v =
        ∑ k ∈ Finset.range (packet.header.ttl.value.toNat + 1), (peers.card - 2) ^ k :=
    fun v hv => by
      have hmem := Finset.mem_erase.mp hv
      exact flood_fullyConnected full away horiginator hmem.2 (Ne.symm hmem.1) _
  rw [cost, full originator horiginator, Finset.sum_congr rfl each, Finset.sum_const,
    Finset.card_erase_of_mem horiginator, nsmul_eq_mul, Nat.cast_id]

/-- A packet of one write for somebody who is not there, among peers that are all connected. -/
theorem storm_fullyConnected (mesh : LosslessMesh) (full : mesh.FullyConnected peers)
    {originator : PeerId} {packet : BitchatPacket} (horiginator : originator ∈ peers)
    (one : mesh.OneWrite packet) (away : ∀ p ∈ peers, (mesh.node p).isForUs packet = false)
    {order : List Notification}
    (done : (mesh.exchange [(originator, packet)] order).copies = 0) :
    (mesh.exchange [(originator, packet)] order).delivered.length =
      (peers.card - 1) *
        ∑ k ∈ Finset.range (packet.header.ttl.value.toNat + 1), (peers.card - 2) ^ k := by
  have every : ∀ p ∈ [(originator, packet)], mesh.OneWrite p.2 := fun p hp => by
    rw [List.mem_singleton.mp hp]
    exact one
  have total := mesh.flood_accounts.delivered (LosslessMesh.whole_sent every) done
  rw [LosslessMesh.sum_floodOf_sent every, List.map_singleton, List.sum_singleton,
    cost_fullyConnected full horiginator away] at total
  simpa [exchange] using total

/-- On the line of three peers, what the second peer relays of a message of the first. -/
def secondNotifications (packet : BitchatPacket) : List Notification :=
  losslessLine.send (peer 2) (peer 3) packet.relayed (some ⟨[peer 1], peer 1, packet⟩)

/-- A message to the third peer and one to all. -/
def linePackets : List (PeerId × BitchatPacket) :=
  [(peer 1, lineMessage (some (peer 3)) 2), (peer 1, lineMessage none 2)]

def lineOrder : List Notification :=
  firstNotifications (lineMessage (some (peer 3)) 2) ++ firstNotifications (lineMessage none 2) ++
    secondNotifications (lineMessage (some (peer 3)) 2)

def lineOrder' : List Notification :=
  firstNotifications (lineMessage none 2) ++ firstNotifications (lineMessage (some (peer 3)) 2) ++
    secondNotifications (lineMessage (some (peer 3)) 2)

theorem oneWrite_linePackets : ∀ p ∈ linePackets, losslessLine.OneWrite p.2 := by
  intro p hp
  rcases List.mem_pair.mp hp with rfl | rfl
  · exact ⟨rfl, by decide, _, rfl, by decide +kernel, fun _ => show _ ≤ 500 by decide +kernel⟩
  · exact ⟨rfl, by decide, _, rfl, by decide +kernel, fun _ => show _ ≤ 500 by decide +kernel⟩

theorem line_same_storm :
    (losslessLine.exchange linePackets lineOrder).delivered.Perm
      (losslessLine.exchange linePackets lineOrder').delivered ∧
    (losslessLine.exchange linePackets lineOrder).delivered.length =
      (linePackets.map losslessLine.cost).sum := by
  have done : (losslessLine.exchange linePackets lineOrder).copies = 0 := by decide +kernel
  have done' : (losslessLine.exchange linePackets lineOrder').copies = 0 := by decide +kernel
  have storm := same_storm losslessLine done done'
  exact ⟨storm.1, storm.2 oneWrite_linePackets⟩

/-- Four peers that are all connected. -/
def quartet : Finset PeerId := {peer 1, peer 2, peer 3, peer 4}

def quartetMesh : LosslessMesh where
  node p := ⟨p, 500, connectedTo ([peer 1, peer 2, peer 3, peer 4].filter fun q => q ≠ p)⟩
  localPeerId_node _ := rfl
  readAnnounce _ := none
  lossless _ _ _ known _ := takesAll_connectedTo known

/-- A message with the default TTL to somebody who is not there. -/
theorem quartet_storm :
    ∃ order, (quartetMesh.exchange [(peer 1, lineMessage (some (peer 9)) 7)] order).copies = 0 ∧
      (quartetMesh.exchange [(peer 1, lineMessage (some (peer 9)) 7)] order).delivered.length =
        765 := by
  obtain ⟨order, -, done⟩ := InFlight.exists_order quartetMesh.rank_relays
    (InFlight.start (quartetMesh.sent [(peer 1, lineMessage (some (peer 9)) 7)]))
  have full : quartetMesh.FullyConnected quartet := by decide +kernel
  have one : quartetMesh.OneWrite (lineMessage (some (peer 9)) 7) :=
    ⟨rfl, by decide, _, rfl, by decide +kernel, fun _ => show _ ≤ 500 by decide +kernel⟩
  exact ⟨order, done, storm_fullyConnected quartetMesh full (by decide) one (by decide) done⟩

end Mesh

end Bitchat
