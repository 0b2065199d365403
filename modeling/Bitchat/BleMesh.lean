import Bitchat.BleTransport
import Bitchat.Rust.Deliveries

/-!
# The Bluetooth mesh

Peers on a static topology, and copies of packets on its links. What a delivered copy
is relayed as depends on the packet alone: one for the peer is not relayed, and a
broadcast packet is for every peer; one for another peer is relayed as long as the TTL
it arrives with is not zero.
-/
namespace Bitchat
open Rust

namespace BleTransport

/-- The peers that packets are sent to. -/
def connectedPeers (ble : BleTransport) : Finset PeerId :=
  (Map.retain (fun _ peer => peer.isConnected) ble.peers).keys

theorem mem_otherConnectedPeers {ble : BleTransport} {fromPeer p : PeerId} :
    p ∈ ble.otherConnectedPeers fromPeer ↔ p ∈ ble.connectedPeers ∧ p ≠ fromPeer := by
  simp only [otherConnectedPeers, connectedPeers, Map.mem_keys_iff, Map.mem_retain_entries,
    Bool.and_eq_true, decide_eq_true_eq]
  constructor
  · rintro ⟨peer, hpeer, hne, hconnected⟩
    exact ⟨⟨peer, hpeer, hconnected⟩, hne⟩
  · rintro ⟨⟨peer, hpeer, hconnected⟩, hne⟩
    exact ⟨peer, hpeer, hne, hconnected⟩

end BleTransport

/-- A packet as it is relayed: one hop less to go, and the length written anew. -/
def BitchatPacket.relayed (packet : BitchatPacket) : BitchatPacket :=
  { packet with
    header := { packet.header with
      ttl := ⟨packet.header.ttl.value - 1⟩
      payloadLength := UInt32.ofNat packet.payload.length } }

/-- The first packet up to what relaying rewrites. -/
def BitchatPacket.RelayOf (packet original : BitchatPacket) : Prop :=
  packet = { original with
    header := { original.header with
      ttl := packet.header.ttl
      payloadLength := packet.header.payloadLength } }

theorem BitchatPacket.relayed_ttl {packet : BitchatPacket} (h : 0 < packet.header.ttl.value) :
    packet.relayed.header.ttl.value.toNat + 1 = packet.header.ttl.value.toNat := by
  have positive := UInt8.lt_iff_toNat_lt.mp h
  have one : (1 : UInt8) ≤ packet.header.ttl.value := UInt8.le_iff_toNat_le.mpr positive
  show (packet.header.ttl.value - 1).toNat + 1 = _
  rw [UInt8.toNat_sub_of_le _ _ one]
  exact Nat.sub_add_cancel positive

theorem BitchatPacket.RelayOf.relayed {packet original : BitchatPacket}
    (h : packet.RelayOf original) : packet.relayed.RelayOf original := by
  unfold RelayOf at h ⊢
  rw [h]
  rfl

/-- Relaying does not look at the announcement. -/
theorem BleTransport.forwarded_handlePacket (readAnnounce : BitchatPacket → Option PeerId)
    (ble : BleTransport) (fromPeer : PeerId) (packet : BitchatPacket) :
    (ble.handlePacket readAnnounce fromPeer packet).forwarded =
      if ¬ ble.isForUs packet = true ∧ 0 < packet.header.ttl.value then
        some (packet.relayed, ble.otherConnectedPeers fromPeer)
      else none := by
  by_cases relays : ¬ ble.isForUs packet = true ∧ 0 < packet.header.ttl.value
  · have ttl : packet.header.ttl.decrement = some ⟨packet.header.ttl.value - 1⟩ :=
      if_pos relays.2
    rw [handlePacket, if_pos relays, if_pos relays, forwardPacket, ttl]
    rfl
  · rw [handlePacket, if_neg relays, if_neg relays]

/-- A copy of a packet on the link from `sender` to `receiver`. For the statements
it remembers the peers that sent it before, and who originated which packet. -/
structure Copy where
  sender : PeerId
  earlier : List PeerId
  receiver : PeerId
  packet : BitchatPacket
  originator : PeerId
  original : BitchatPacket
  deriving DecidableEq

/-- The number of links that a copy has traversed once it is delivered. -/
def Copy.links (c : Copy) : ℕ := c.earlier.length + 1

/-- TTL and traversed links add up to one more than the first TTL. -/
def Copy.Counts (c : Copy) : Prop :=
  c.packet.header.ttl.value.toNat + c.links = c.original.header.ttl.value.toNat + 1

/-- The peers with their connections. The reading of an announce payload is a parameter. -/
structure Mesh where
  node : PeerId → BleTransport
  localPeerId_node : ∀ p, (node p).localPeerId = p
  readAnnounce : BitchatPacket → Option PeerId

namespace Mesh

variable (mesh : Mesh)

def Link (u v : PeerId) : Prop := v ∈ (mesh.node u).connectedPeers

instance (u v : PeerId) : Decidable (mesh.Link u v) := inferInstanceAs (Decidable (_ ∈ _))

/-- `broadcast_bitchat_packet` of the originator. -/
def originate (originator : PeerId) (packet : BitchatPacket) : Multiset Copy :=
  (mesh.node originator).connectedPeers.val.map fun v =>
    ⟨originator, [], v, packet, originator, packet⟩

def originated (packets : List (PeerId × BitchatPacket)) : Multiset Copy :=
  (packets.map fun sent => mesh.originate sent.1 sent.2).sum

def handle (c : Copy) : BleTransport.Incoming :=
  (mesh.node c.receiver).handlePacket mesh.readAnnounce c.sender c.packet

/-- The copies that the receiver of a copy relays. -/
def forwards (c : Copy) : Multiset Copy :=
  match (mesh.handle c).forwarded with
  | none => 0
  | some (packet, peers) =>
    peers.val.map fun v =>
      ⟨c.receiver, c.sender :: c.earlier, v, packet, c.originator, c.original⟩

/-- The state after delivering copies in some order. -/
def deliver (packets : List (PeerId × BitchatPacket)) (order : List Copy) : InFlight Copy :=
  run (InFlight.step mesh.forwards) (InFlight.start (mesh.originated packets)) order

variable {mesh}

theorem mem_originate {originator : PeerId} {packet : BitchatPacket} {c : Copy} :
    c ∈ mesh.originate originator packet ↔ ∃ v, mesh.Link originator v ∧
      c = ⟨originator, [], v, packet, originator, packet⟩ := by
  simp only [originate, Multiset.mem_map, Finset.mem_val, Link, eq_comm]

theorem mem_originated {packets : List (PeerId × BitchatPacket)} {c : Copy} :
    c ∈ mesh.originated packets ↔ ∃ sent ∈ packets, c ∈ mesh.originate sent.1 sent.2 := by
  induction packets with
  | nil => simp [originated]
  | cons sent packets ih =>
    simp only [originated, List.map_cons, List.sum_cons, Multiset.mem_add, List.mem_cons,
      exists_eq_or_imp] at ih ⊢
    rw [ih]

theorem isForUs_node (v : PeerId) (packet : BitchatPacket) :
    (mesh.node v).isForUs packet = true ↔
      packet.isBroadcast = true ∨ packet.recipientId = some v := by
  simp [BleTransport.isForUs, mesh.localPeerId_node]

/-- The whole of relaying: a copy for another peer that arrives with a positive TTL
goes to every other neighbour. -/
theorem mem_forwards {c d : Copy} :
    d ∈ mesh.forwards c ↔
      ¬ (mesh.node c.receiver).isForUs c.packet = true ∧ 0 < c.packet.header.ttl.value ∧
        ∃ v, mesh.Link c.receiver v ∧ v ≠ c.sender ∧
          d = ⟨c.receiver, c.sender :: c.earlier, v, c.packet.relayed, c.originator,
            c.original⟩ := by
  unfold forwards
  rw [handle, BleTransport.forwarded_handlePacket]
  by_cases relays : ¬ (mesh.node c.receiver).isForUs c.packet = true ∧
      0 < c.packet.header.ttl.value
  · rw [if_pos relays]
    simp only [Multiset.mem_map, Finset.mem_val, BleTransport.mem_otherConnectedPeers]
    constructor
    · rintro ⟨v, ⟨hlink, hne⟩, rfl⟩
      exact ⟨relays.1, relays.2, v, hlink, hne, rfl⟩
    · rintro ⟨_, _, v, hlink, hne, rfl⟩
      exact ⟨v, ⟨hlink, hne⟩, rfl⟩
  · rw [if_neg relays]
    simp only [Multiset.notMem_zero, false_iff]
    tauto

variable (mesh) in
/-- The TTL shrinks with every relay. -/
theorem ttl_forwards (c : Copy) : ∀ d ∈ mesh.forwards c,
    d.packet.header.ttl.value.toNat < c.packet.header.ttl.value.toNat := by
  intro d hd
  obtain ⟨_, hpositive, v, _, _, rfl⟩ := mem_forwards.mp hd
  have := BitchatPacket.relayed_ttl hpositive
  show c.packet.relayed.header.ttl.value.toNat < _
  omega

/-- Three peers in a line. -/
def peer (n : UInt8) : PeerId := ⟨List.Vector.replicate 8 n⟩

def connectedTo (peers : List PeerId) : Map PeerId BlePeer :=
  peers.foldl (fun m p => m.insert p ⟨p, .connected, true, fun _ => .ok ()⟩) ∅

def lineMesh : Mesh where
  node p := ⟨p, 500, if p = peer 2 then connectedTo [peer 1, peer 3] else
    if p = peer 1 ∨ p = peer 3 then connectedTo [peer 2] else ∅⟩
  localPeerId_node _ := rfl
  readAnnounce _ := none

/-- A message of the first peer. -/
def lineMessage (recipient : Option PeerId) (ttl : UInt8) : BitchatPacket where
  header := ⟨1, .message, ⟨ttl⟩, ⟨1700000000000⟩, ⟨if recipient.isSome then 1 else 0⟩, 2⟩
  senderId := peer 1
  recipientId := recipient
  route := none
  payload := [0x68, 0x69]
  signature := none

/-- The copy of a message on the first link. -/
def firstCopy (packet : BitchatPacket) : Copy := ⟨peer 1, [], peer 2, packet, peer 1, packet⟩

/-- A copy that arrives with TTL 1 has nobody to be relayed to: it is for its receiver,
or its receiver has no other neighbour. -/
def EndsAtOne (mesh : Mesh) (_ : InFlight Copy) (c : Copy) : Prop :=
  c.packet.header.ttl.value.toNat = 1 →
    (mesh.node c.receiver).isForUs c.packet = true ∨
      (mesh.node c.receiver).otherConnectedPeers c.sender = ∅

theorem counts_descends {c d : Copy} (hcounts : c.Counts)
    (h : Relation.ReflTransGen (InFlight.Descends mesh.forwards) c d) : d.Counts := by
  induction h with
  | refl => exact hcounts
  | @tail b d _ last ih =>
    obtain ⟨_, hpositive, v, _, _, rfl⟩ := mem_forwards.mp last
    have hrelayed := BitchatPacket.relayed_ttl hpositive
    have hlength : (b.sender :: b.earlier).length = b.earlier.length + 1 := rfl
    unfold Copy.Counts Copy.links at ih ⊢
    show b.packet.relayed.header.ttl.value.toNat + ((b.sender :: b.earlier).length + 1) =
      b.original.header.ttl.value.toNat + 1
    omega

/-- Every copy of a run counts its links right. -/
theorem counts_run {packets : List (PeerId × BitchatPacket)} {order : List Copy} {d : Copy}
    (hd : d ∈ (mesh.deliver packets order).copies ∨ d ∈ (mesh.deliver packets order).delivered) :
    d.Counts := by
  obtain ⟨c, hc, hpath⟩ := InFlight.stemsFrom_run (mesh.originated packets) order d hd
  refine counts_descends ?_ hpath
  obtain ⟨sent, _, hc⟩ := mem_originated.mp hc
  obtain ⟨v, _, rfl⟩ := mem_originate.mp hc
  rfl

/-- Without any condition a packet traverses at most one link more than its TTL. -/
theorem links_le_ttl_add_one {packets : List (PeerId × BitchatPacket)} {order : List Copy}
    {d : Copy}
    (hd : d ∈ (mesh.deliver packets order).copies ∨ d ∈ (mesh.deliver packets order).delivered) :
    d.links ≤ d.original.header.ttl.value.toNat + 1 := by
  have hcounts := counts_run hd
  unfold Copy.Counts at hcounts
  omega

/-- The copies in flight and the delivered ones have something left to go. -/
def Alive (s : InFlight Copy) : Prop :=
  ∀ c, c ∈ s.copies ∨ c ∈ s.delivered → 0 < c.packet.header.ttl.value.toNat

/-- What is relayed under the condition still has a TTL. -/
theorem forwards_alive {c d : Copy} (s : InFlight Copy) (hends : mesh.EndsAtOne s c)
    (hd : d ∈ mesh.forwards c) :
    d.packet.header.ttl.value.toNat + 1 = c.packet.header.ttl.value.toNat ∧
      0 < d.packet.header.ttl.value.toNat := by
  obtain ⟨hother, hpositive, v, hlink, hne, rfl⟩ := mem_forwards.mp hd
  have hrelayed := BitchatPacket.relayed_ttl hpositive
  refine ⟨hrelayed, ?_⟩
  by_contra hzero
  have hone : c.packet.header.ttl.value.toNat = 1 := by
    have hnone : c.packet.relayed.header.ttl.value.toNat = 0 := Nat.eq_zero_of_not_pos hzero
    omega
  rcases hends hone with hforUs | hnobody
  · exact hother hforUs
  · have hmem := BleTransport.mem_otherConnectedPeers.mpr ⟨hlink, hne⟩
    rw [hnobody] at hmem
    exact Finset.notMem_empty v hmem

theorem alive_deliver {s : InFlight Copy} {c : Copy} (halive : Alive s)
    (hends : mesh.EndsAtOne s c) : Alive (s.deliver mesh.forwards c) := by
  intro d hd
  rcases hd with hd | hd
  · rcases InFlight.mem_copies_deliver hd with hold | ⟨_, hnew⟩
    · exact halive d (.inl hold)
    · exact (forwards_alive s hends hnew).2
  · rcases InFlight.mem_delivered_deliver.mp hd with hold | ⟨hc, rfl⟩
    · exact halive d (.inr hold)
    · exact halive d (.inl hc)

/-- Relaying comes to an end from every state. -/
theorem relaying_finite (mesh : Mesh) (states : ℕ → InFlight Copy) :
    ¬ ∀ n, ∃ c ∈ (states n).copies, states (n + 1) = (states n).deliver mesh.forwards c := by
  intro endless
  have hwf := InFlight.deliver_wellFounded (ttl_forwards mesh)
  exact (wellFounded_iff_isEmpty_descending_chain.mp hwf).false ⟨states, endless⟩

/-- In a run in which every copy that arrives with TTL 1 ends there, relayed copies
carry a TTL that is one less and not zero, no copy traverses more links than the TTL
that its packet was originated with, and relaying comes to an end. -/
theorem relaying_bounded (mesh : Mesh) (packets : List (PeerId × BitchatPacket))
    (order : List Copy) (hpositive : ∀ sent ∈ packets, 1 ≤ sent.2.header.ttl.value.toNat)
    (hends : Along (InFlight.step mesh.forwards) mesh.EndsAtOne
      (InFlight.start (mesh.originated packets)) order) :
    Along (InFlight.step mesh.forwards)
        (fun _ c => ∀ d ∈ mesh.forwards c,
          d.packet.header.ttl.value.toNat + 1 = c.packet.header.ttl.value.toNat ∧
            0 < d.packet.header.ttl.value.toNat)
        (InFlight.start (mesh.originated packets)) order ∧
      (∀ d, d ∈ (mesh.deliver packets order).copies ∨ d ∈ (mesh.deliver packets order).delivered →
        d.links ≤ d.original.header.ttl.value.toNat) ∧
      ∀ states : ℕ → InFlight Copy, ¬ ∀ n, ∃ c ∈ (states n).copies,
        states (n + 1) = (states n).deliver mesh.forwards c := by
  have hstart : Alive (InFlight.start (mesh.originated packets)) := by
    intro c hc
    rcases hc with hc | hc
    · obtain ⟨sent, hsent, hc⟩ := mem_originated.mp hc
      obtain ⟨v, _, rfl⟩ := mem_originate.mp hc
      exact hpositive sent hsent
    · cases hc
  refine ⟨?_, ?_, relaying_finite mesh⟩
  · exact along_of_invariant (I := fun _ => True) (fun _ _ _ _ => trivial)
      (fun s c _ hends d hd => forwards_alive s hends hd) trivial hends
  · intro d hd
    have halive : Alive (mesh.deliver packets order) :=
      run_invariant (I := Alive) (fun s c halive hends => alive_deliver halive hends) hstart hends
    have hcounts := counts_run hd
    have hleft := halive d hd
    unfold Copy.Counts at hcounts
    omega

theorem relaying_bounded_line :
    Along (InFlight.step lineMesh.forwards)
      (fun _ c => ∀ d ∈ lineMesh.forwards c,
        d.packet.header.ttl.value.toNat + 1 = c.packet.header.ttl.value.toNat ∧
          0 < d.packet.header.ttl.value.toNat)
      (InFlight.start (lineMesh.originated [(peer 1, lineMessage (some (peer 3)) 2)]))
      [firstCopy (lineMessage (some (peer 3)) 2)] :=
  (relaying_bounded lineMesh [(peer 1, lineMessage (some (peer 3)) 2)]
    [firstCopy (lineMessage (some (peer 3)) 2)] (by simp [lineMessage])
    ⟨fun h => absurd h (by decide), trivial⟩).1

/-- A packet with TTL 1 is relayed with TTL 0 and so gets on to a second link. -/
theorem line_relayed_at_zero :
    InFlight.Delivers lineMesh.forwards
        (InFlight.start (lineMesh.originated [(peer 1, lineMessage (some (peer 3)) 1)]))
        [firstCopy (lineMessage (some (peer 3)) 1)] ∧
      ∃ d ∈ (lineMesh.deliver [(peer 1, lineMessage (some (peer 3)) 1)]
          [firstCopy (lineMessage (some (peer 3)) 1)]).copies,
        d.packet.header.ttl.value = 0 ∧ d.links = 2 ∧ d.original.header.ttl.value = 1 :=
  ⟨⟨by decide +kernel, trivial⟩,
    ⟨peer 2, [peer 1], peer 3, (lineMessage (some (peer 3)) 1).relayed, peer 1,
      lineMessage (some (peer 3)) 1⟩, by decide +kernel, by decide⟩

end Mesh

end Bitchat
