import Bitchat.Capabilities
import Bitchat.Rust.StableSort

/-!
# Negotiation of the version

A hello lists the versions of the peer. The manager takes the first of them that has the
major number of its own one version, also where a later one is its own, and also where it
is newer than its own.
-/
namespace Bitchat
open Rust

namespace ProtocolVersion

def isNewerThan (version other : ProtocolVersion) : Bool :=
  if version.major ≠ other.major then other.major < version.major
  else if version.minor ≠ other.minor then other.minor < version.minor
  else other.patch < version.patch

/-- Of the versions that fit the current one, all the others are newer. -/
theorem isNewerThan_current_iff {version : ProtocolVersion}
    (hfits : current.isCompatibleWith version = true) :
    version.isNewerThan current = false ↔ version = current := by
  obtain ⟨major, minor, patch⟩ := version
  obtain rfl : 1 = major := of_decide_eq_true hfits
  have hpositive (n : UInt8) : ¬ 0 < n ↔ n = 0 := by
    rw [UInt8.lt_iff_toNat_lt, ← UInt8.toNat_inj]
    exact Nat.pos_iff_ne_zero.not_left
  simp only [isNewerThan, current, ne_eq, not_true_eq_false, if_false, mk.injEq, true_and]
  by_cases hminor : minor = 0
  · simp only [hminor, not_true_eq_false, if_false, true_and]
    exact decide_eq_false_iff_not.trans (hpositive patch)
  · simp only [hminor, not_false_eq_true, if_true, false_and, iff_false]
    exact fun hnewer => hminor ((hpositive minor).mp (of_decide_eq_false hnewer))

end ProtocolVersion

/-- The version is on both lists, and none that is on both is newer. -/
structure HighestCommon (ours theirs : List ProtocolVersion) (version : ProtocolVersion) :
    Prop where
  announced : version ∈ ours
  received : version ∈ theirs
  highest : ∀ other ∈ ours, other ∈ theirs → other.isNewerThan version = false

namespace CapabilityManager

def createHello (m : CapabilityManager) (now : Timestamp) : BitchatResult VersionHello :=
  VersionHello.new m.localPeerId [.current] m.localCapabilities m.implementation now

/-- A version that both announce is negotiated, the highest of them, and none is recorded
that is newer than the current one. -/
structure NegotiatesHighest (m : CapabilityManager) (hello : VersionHello) (now : Timestamp) :
    Prop where
  highest : ∀ sent sentAt, m.createHello sentAt = .ok sent →
    (∃ version ∈ sent.supportedVersions, version ∈ hello.supportedVersions) →
      ∃ m' ack, m.processHello hello now = .ok (m', ack) ∧
        HighestCommon sent.supportedVersions hello.supportedVersions ack.negotiatedVersion ∧
        m'.peerVersions.lookup hello.peerId = some ack.negotiatedVersion
  bounded : ∀ m' ack, m.processHello hello now = .ok (m', ack) → ∀ version,
    m'.peerVersions.lookup hello.peerId = some version → version.isNewerThan .current = false

variable {m m' : CapabilityManager} {hello : VersionHello} {now : Timestamp} {ack : VersionAck}

/-- A hello is answered with the first version that fits, which is recorded. -/
theorem processHello_eq_ok (h : m.processHello hello now = .ok (m', ack)) :
    hello.supportedVersions.find? ProtocolVersion.current.isCompatibleWith =
        some ack.negotiatedVersion ∧
      m'.peerVersions.lookup hello.peerId = some ack.negotiatedVersion := by
  obtain ⟨version, hversion, h⟩ := bind_eq_ok.mp h
  obtain ⟨rfl, rfl⟩ := Prod.mk.inj (Except.ok.inj h)
  exact ⟨okOr_eq_ok.mp hversion, Finmap.lookup_insert _⟩

variable (m now) in
theorem processHello_of_find? {version : ProtocolVersion}
    (h : hello.supportedVersions.find? ProtocolVersion.current.isCompatibleWith =
      some version) : ∃ m' ack, m.processHello hello now = .ok (m', ack) := by
  have hversion : negotiateVersion hello.supportedVersions = .ok version := okOr_eq_ok.mpr h
  rw [processHello, hversion]
  exact ⟨_, _, rfl⟩

/-- The highest version is negotiated if the first one that fits can only be our own. -/
theorem negotiatesHighest_iff_find? :
    m.NegotiatesHighest hello now ↔ ∀ version,
      hello.supportedVersions.find? ProtocolVersion.current.isCompatibleWith = some version →
        version = .current := by
  constructor
  · intro h version hfind
    obtain ⟨m', ack, hprocess⟩ := processHello_of_find? m now hfind
    obtain ⟨hfirst, hrecorded⟩ := processHello_eq_ok hprocess
    obtain rfl := Option.some.inj (hfind.symm.trans hfirst)
    have hfits := List.find?_some hfind
    exact (ProtocolVersion.isNewerThan_current_iff hfits).mp (h.bounded m' ack hprocess _ hrecorded)
  · intro h
    refine ⟨?_, ?_⟩
    · intro sent sentAt hsent
      obtain ⟨-, hsent⟩ := failIf_bind_eq_ok.mp hsent
      obtain rfl := Except.ok.inj hsent
      rintro ⟨common, hours, htheirs⟩
      obtain rfl := List.mem_singleton.mp hours
      have hsome : (hello.supportedVersions.find?
          ProtocolVersion.current.isCompatibleWith).isSome := by
        rw [List.find?_isSome]
        exact ⟨.current, htheirs, rfl⟩
      obtain ⟨version, hfind⟩ := Option.isSome_iff_exists.mp hsome
      obtain ⟨m', ack, hprocess⟩ := processHello_of_find? m now hfind
      obtain ⟨hfirst, hrecorded⟩ := processHello_eq_ok hprocess
      have hcurrent := h _ hfirst
      refine ⟨m', ack, hprocess, ?_, hrecorded⟩
      rw [hcurrent]
      refine ⟨hours, htheirs, ?_⟩
      intro other hother _
      rw [List.mem_singleton.mp hother]
      rfl
    · intro m' ack hprocess version hversion
      obtain ⟨hfirst, hrecorded⟩ := processHello_eq_ok hprocess
      obtain rfl := Option.some.inj (hversion.symm.trans hrecorded)
      rw [h _ hfirst]
      rfl

/-- A manager negotiates the highest version exactly if every other version of its major
number comes behind its own. -/
theorem negotiatesHighest_iff (m : CapabilityManager) (hello : VersionHello) (now : Timestamp) :
    m.NegotiatesHighest hello now ↔
      ∀ front version back, hello.supportedVersions = front ++ version :: back →
        version.major = 1 → version ≠ .current → .current ∈ front := by
  rw [negotiatesHighest_iff_find?, find?_forall_iff]
  have hfits (version : ProtocolVersion) :
      ProtocolVersion.current.isCompatibleWith version = true ↔ version.major = 1 := by
    rw [ProtocolVersion.isCompatibleWith, decide_eq_true_iff, eq_comm]
    rfl
  have hours (front : List ProtocolVersion) :
      (∃ version ∈ front, version.major = 1 ∧ version = .current) ↔ .current ∈ front := by
    constructor
    · rintro ⟨version, hversion, -, rfl⟩
      exact hversion
    · intro hcurrent
      exact ⟨.current, hcurrent, rfl, rfl⟩
  simp only [hfits, hours, ne_eq]

/-- A peer that was upgraded lists its newest version first. -/
def upgraded : VersionHello where
  peerId := stranger
  supportedVersions := [⟨1, 1, 0⟩, .current]
  capabilities := []
  implementation := ⟨[], [], none⟩
  timestamp := ⟨0⟩

theorem upgraded_newer :
    (∃ m' ack, ourManager.processHello upgraded ⟨0⟩ = .ok (m', ack) ∧
      ack.negotiatedVersion = ⟨1, 1, 0⟩ ∧
      m'.peerVersions.lookup stranger = some ⟨1, 1, 0⟩ ∧
      ProtocolVersion.isNewerThan ⟨1, 1, 0⟩ .current = true) ∧
    ¬ ourManager.NegotiatesHighest upgraded ⟨0⟩ := by
  refine ⟨⟨_, _, rfl, rfl, Finmap.lookup_insert _, rfl⟩, ?_⟩
  intro h
  have hbounded := h.bounded _ _ rfl ⟨1, 1, 0⟩ (Finmap.lookup_insert _)
  exact absurd hbounded (by decide)

end CapabilityManager

end Bitchat
