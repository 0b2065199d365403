import Bitchat.Rust.Map
import Bitchat.Rust.Run
import Bitchat.Rust.Text
import Bitchat.Types

/-!
# Capabilities

`CapabilityManager` of `capabilities.rs`, which records what a peer can do from its
hello, from its acknowledgement, or, when it does not answer, as a legacy peer. Only a
hello is compared with what the local side can do.
-/
namespace Bitchat
open Rust

structure ProtocolVersion where
  major : UInt8
  minor : UInt8
  patch : UInt8
  deriving DecidableEq

namespace ProtocolVersion

def current : ProtocolVersion := ⟨1, 0, 0⟩

def isCompatibleWith (version other : ProtocolVersion) : Bool := version.major = other.major

end ProtocolVersion

structure CapabilityId where
  asStr : Text
  deriving DecidableEq

namespace CapabilityId

def coreMessaging : CapabilityId := ⟨"core.messaging.v1".toList⟩
def fileTransfer : CapabilityId := ⟨"file_transfer.v1".toList⟩
def groupMessaging : CapabilityId := ⟨"group_messaging.v1".toList⟩
def multiDeviceSync : CapabilityId := ⟨"multi_device_sync.v1".toList⟩
def locationChannels : CapabilityId := ⟨"location_channels.v1".toList⟩
def fragmentation : CapabilityId := ⟨"fragmentation.v1".toList⟩
def meshSync : CapabilityId := ⟨"mesh_sync.v1".toList⟩
def noiseProtocol : CapabilityId := ⟨"noise_protocol.v1".toList⟩
def bleTransport : CapabilityId := ⟨"transport.ble.v1".toList⟩
def nostrTransport : CapabilityId := ⟨"transport.nostr.v1".toList⟩

end CapabilityId

structure Capability where
  id : CapabilityId
  version : Text
  parameters : Finset Text
  deriving DecidableEq

namespace Capability

def new (id : CapabilityId) (version : Text) : Capability := ⟨id, version, ∅⟩

/-- What the canonical implementation supports. -/
def core : List Capability :=
  [CapabilityId.coreMessaging, .noiseProtocol, .fragmentation, .locationChannels, .meshSync,
    .bleTransport, .nostrTransport].map fun id => new id "1.0".toList

/-- The id of a capability of ours, and only parameters that it has, too. -/
def SupportedBy (own : List Capability) (cap : Capability) : Prop :=
  ∃ ours ∈ own, ours.id = cap.id ∧ cap.parameters ⊆ ours.parameters

instance (own : List Capability) (cap : Capability) : Decidable (cap.SupportedBy own) :=
  inferInstanceAs (Decidable (∃ ours ∈ own, _))

end Capability

structure ImplementationInfo where
  name : Text
  version : Text
  platform : Option Text
  deriving DecidableEq

structure VersionHello where
  peerId : PeerId
  supportedVersions : List ProtocolVersion
  capabilities : List Capability
  implementation : ImplementationInfo
  timestamp : Timestamp

structure VersionAck where
  peerId : PeerId
  negotiatedVersion : ProtocolVersion
  mutualCapabilities : List Capability
  implementation : ImplementationInfo
  timestamp : Timestamp

namespace VersionHello

def maxCapabilities : ℕ := 64

def new (peerId : PeerId) (supportedVersions : List ProtocolVersion)
    (capabilities : List Capability) (implementation : ImplementationInfo) (now : Timestamp) :
    BitchatResult VersionHello := do
  failIf (maxCapabilities < capabilities.length) (.invalidPacket "Too many capabilities")
  pure ⟨peerId, supportedVersions, capabilities, implementation, now⟩

def standardCapabilities : List Capability :=
  [CapabilityId.coreMessaging, .noiseProtocol, .fragmentation, .meshSync, .locationChannels,
    .fileTransfer, .groupMessaging, .multiDeviceSync, .bleTransport, .nostrTransport].map
      fun id => .new id "1.0".toList

/-- The implementation is that of the build. -/
def standard (peerId : PeerId) (implementation : ImplementationInfo) (now : Timestamp) :
    BitchatResult VersionHello :=
  new peerId [.current] standardCapabilities implementation now

end VersionHello

/-- `CAPABILITY_TIMEOUT`, in milliseconds. -/
def capabilityTimeout : UInt64 := 30 * 1000

inductive NegotiationStatus where
  | unknown
  | pending
  | negotiated
  | legacy
  deriving DecidableEq

structure CapabilityManager where
  localPeerId : PeerId
  localCapabilities : List Capability
  implementation : ImplementationInfo
  peerCapabilities : Map PeerId (List Capability)
  peerVersions : Map PeerId ProtocolVersion
  legacyPeers : Finset PeerId
  helloTimeouts : Map PeerId Timestamp

/-- The calls on the manager that write. -/
inductive CapabilityCall where
  | processHello (hello : VersionHello)
  | processAck (ack : VersionAck)
  | removePeer (peerId : PeerId)
  | trackHelloSent (peerId : PeerId)
  | checkHelloTimeouts
  | markAsLegacyPeer (peerId : PeerId)

structure CapabilityInput where
  call : CapabilityCall
  now : Timestamp

inductive CapabilityAnswer where
  | acknowledged (ack : BitchatResult VersionAck)
  | timedOut (peers : Finset PeerId)
  | done (result : BitchatResult Unit)

namespace CapabilityManager

def new (localPeerId : PeerId) (implementation : ImplementationInfo) (now : Timestamp) :
    BitchatResult CapabilityManager := do
  let hello ← VersionHello.standard localPeerId implementation now
  pure ⟨localPeerId, hello.capabilities, hello.implementation, ∅, ∅, ∅, ∅⟩

/-- The first version of the peer that fits ours. -/
def negotiateVersion (peerVersions : List ProtocolVersion) : BitchatResult ProtocolVersion :=
  okOr (peerVersions.find? ProtocolVersion.current.isCompatibleWith)
    (.invalidPacket "No compatible protocol version")

/-- What the peer has and we have, with the parameters that both have. -/
def findMutualCapabilities (m : CapabilityManager) (peerCapabilities : List Capability) :
    List Capability :=
  peerCapabilities.filterMap fun peerCap =>
    (m.localCapabilities.find? fun cap => cap.id = peerCap.id).map fun ourCap =>
      { Capability.new peerCap.id peerCap.version with
        parameters := ourCap.parameters ∩ peerCap.parameters }

def processHello (m : CapabilityManager) (hello : VersionHello) (now : Timestamp) :
    BitchatResult (CapabilityManager × VersionAck) := do
  let negotiatedVersion ← negotiateVersion hello.supportedVersions
  let mutualCapabilities := m.findMutualCapabilities hello.capabilities
  pure ({ m with
      peerCapabilities := m.peerCapabilities.insert hello.peerId mutualCapabilities
      peerVersions := m.peerVersions.insert hello.peerId negotiatedVersion },
    ⟨m.localPeerId, negotiatedVersion, mutualCapabilities, m.implementation, now⟩)

def processAck (m : CapabilityManager) (ack : VersionAck) : CapabilityManager :=
  { m with
    peerCapabilities := m.peerCapabilities.insert ack.peerId ack.mutualCapabilities
    peerVersions := m.peerVersions.insert ack.peerId ack.negotiatedVersion }

def peerSupportsCapability (m : CapabilityManager) (peerId : PeerId) (capability : CapabilityId) :
    Bool :=
  ((m.peerCapabilities.lookup peerId).map fun caps => caps.any (·.id = capability)).getD false

def shouldUseFeature (m : CapabilityManager) (peerId : PeerId) (feature : CapabilityId) : Bool :=
  m.peerSupportsCapability peerId feature

def removePeer (m : CapabilityManager) (peerId : PeerId) : CapabilityManager :=
  { m with
    peerCapabilities := m.peerCapabilities.erase peerId
    peerVersions := m.peerVersions.erase peerId
    legacyPeers := m.legacyPeers.erase peerId
    helloTimeouts := m.helloTimeouts.erase peerId }

def trackHelloSent (m : CapabilityManager) (peerId : PeerId) (now : Timestamp) :
    BitchatResult CapabilityManager := do
  let timeout ← now.plus capabilityTimeout
  pure { m with helloTimeouts := m.helloTimeouts.insert peerId timeout }

def markAsLegacyPeer (m : CapabilityManager) (peerId : PeerId) : CapabilityManager :=
  { m with
    legacyPeers := insert peerId m.legacyPeers
    peerCapabilities := m.peerCapabilities.insert peerId Capability.core
    peerVersions := m.peerVersions.insert peerId .current }

/-- The peers whose time has run out. -/
def expiredPeers (m : CapabilityManager) (now : Timestamp) : Finset PeerId :=
  (Map.retain (fun _ timeout => timeout.asMillis < now.asMillis) m.helloTimeouts).keys

/-- Each of them becomes a legacy peer; they are all treated alike, so that their order does
not matter. -/
def checkHelloTimeouts (m : CapabilityManager) (now : Timestamp) :
    CapabilityManager × Finset PeerId :=
  let expired := Map.retain (fun _ timeout => timeout.asMillis < now.asMillis) m.helloTimeouts
  ({ m with
      legacyPeers := m.legacyPeers ∪ m.expiredPeers now
      peerCapabilities := Map.mapValues (fun _ => Capability.core) expired ∪ m.peerCapabilities
      peerVersions := Map.mapValues (fun _ => .current) expired ∪ m.peerVersions
      helloTimeouts :=
        Map.retain (fun _ timeout => ¬ timeout.asMillis < now.asMillis) m.helloTimeouts },
    m.expiredPeers now)

def getNegotiationStatus (m : CapabilityManager) (peerId : PeerId) : NegotiationStatus :=
  if peerId ∈ m.legacyPeers then .legacy
  else if peerId ∈ m.peerCapabilities then .negotiated
  else if peerId ∈ m.helloTimeouts then .pending
  else .unknown

/-- The manager behind a call that returns a new one; one that fails leaves it as it was. -/
def settle (m : CapabilityManager) :
    BitchatResult CapabilityManager → CapabilityManager × CapabilityAnswer
  | .ok m' => (m', .done (.ok ()))
  | .error fault => (m, .done (.error fault))

def step (m : CapabilityManager) (i : CapabilityInput) : CapabilityManager × CapabilityAnswer :=
  match i.call with
  | .processHello hello =>
    match m.processHello hello i.now with
    | .ok (m', ack) => (m', .acknowledged (.ok ack))
    | .error fault => (m, .acknowledged (.error fault))
  | .processAck ack => (m.processAck ack, .done (.ok ()))
  | .removePeer peerId => (m.removePeer peerId, .done (.ok ()))
  | .trackHelloSent peerId => m.settle (m.trackHelloSent peerId i.now)
  | .checkHelloTimeouts => (m.checkHelloTimeouts i.now).map id .timedOut
  | .markAsLegacyPeer peerId => (m.markAsLegacyPeer peerId, .done (.ok ()))

/-- The manager that `new` makes. -/
def fresh (localPeerId : PeerId) (implementation : ImplementationInfo) : CapabilityManager :=
  ⟨localPeerId, VersionHello.standardCapabilities, implementation, ∅, ∅, ∅, ∅⟩

/-- `new` does not fail: of ten capabilities, sixty-four would be allowed. -/
theorem new_eq (localPeerId : PeerId) (implementation : ImplementationInfo) (now : Timestamp) :
    new localPeerId implementation now = .ok (fresh localPeerId implementation) := rfl

variable {m : CapabilityManager} {i : CapabilityInput} {p : PeerId} {caps : List Capability}

theorem mem_expiredPeers {now : Timestamp} :
    p ∈ m.expiredPeers now ↔
      ∃ timeout, m.helloTimeouts.lookup p = some timeout ∧ timeout.asMillis < now.asMillis := by
  simp [expiredPeers, Map.mem_keys_iff, Map.lookup_retain, Option.filter_eq_some_iff]

/-- Tracking a hello sets a timeout, or fails where the time cannot be represented. -/
theorem step_trackHelloSent (m : CapabilityManager) (peerId : PeerId) (now : Timestamp) :
    (m.step ⟨.trackHelloSent peerId, now⟩).1 = m ∨ ∃ timeout,
      (m.step ⟨.trackHelloSent peerId, now⟩).1 =
        { m with helloTimeouts := m.helloTimeouts.insert peerId timeout } := by
  have hstep : m.step ⟨.trackHelloSent peerId, now⟩ = m.settle (m.trackHelloSent peerId now) :=
    rfl
  rw [hstep]
  unfold trackHelloSent
  cases (now.plus capabilityTimeout : BitchatResult Timestamp) with
  | ok timeout => exact Or.inr ⟨timeout, rfl⟩
  | error fault => exact Or.inl rfl

/-- The versions of a hello are negotiable if one of them fits. -/
theorem negotiateVersion_ok_iff (versions : List ProtocolVersion) :
    (∃ version, negotiateVersion versions = .ok version) ↔
      versions.any ProtocolVersion.current.isCompatibleWith = true := by
  simp only [negotiateVersion, okOr_eq_ok]
  rw [← Option.isSome_iff_exists, List.find?_isSome, List.any_eq_true]

/-- What a call can do to the manager. -/
inductive Effect (m : CapabilityManager) (i : CapabilityInput) : CapabilityManager → Prop
  | rejected (hello : VersionHello) (call : i.call = .processHello hello)
    (noVersion : hello.supportedVersions.any ProtocolVersion.current.isCompatibleWith = false) :
    Effect m i m
  | untracked (peerId : PeerId) (call : i.call = .trackHelloSent peerId) : Effect m i m
  | greeted (hello : VersionHello) (version : ProtocolVersion)
    (call : i.call = .processHello hello)
    (fits : negotiateVersion hello.supportedVersions = .ok version) :
    Effect m i { m with
      peerCapabilities :=
        m.peerCapabilities.insert hello.peerId (m.findMutualCapabilities hello.capabilities)
      peerVersions := m.peerVersions.insert hello.peerId version }
  | acknowledged (ack : VersionAck) (call : i.call = .processAck ack) :
    Effect m i (m.processAck ack)
  | removed (peerId : PeerId) (call : i.call = .removePeer peerId) :
    Effect m i (m.removePeer peerId)
  | tracked (peerId : PeerId) (timeout : Timestamp) (call : i.call = .trackHelloSent peerId) :
    Effect m i { m with helloTimeouts := m.helloTimeouts.insert peerId timeout }
  | checked (call : i.call = .checkHelloTimeouts) : Effect m i (m.checkHelloTimeouts i.now).1
  | marked (peerId : PeerId) (call : i.call = .markAsLegacyPeer peerId) :
    Effect m i (m.markAsLegacyPeer peerId)

theorem effect_step (m : CapabilityManager) (i : CapabilityInput) : Effect m i (m.step i).1 := by
  obtain ⟨call, now⟩ := i
  cases call with
  | processHello hello =>
    simp only [step]
    cases h : m.processHello hello now with
    | error fault =>
      refine .rejected hello rfl ?_
      rw [Bool.eq_false_iff]
      intro hany
      obtain ⟨version, hversion⟩ := (negotiateVersion_ok_iff _).mpr hany
      simp [processHello, hversion] at h
    | ok r =>
      obtain ⟨version, hversion, hr⟩ := bind_eq_ok.mp h
      rw [← Except.ok.inj hr]
      exact .greeted hello version rfl hversion
  | processAck ack => exact .acknowledged ack rfl
  | removePeer peerId => exact .removed peerId rfl
  | trackHelloSent peerId =>
    rcases step_trackHelloSent m peerId now with hsame | ⟨timeout, hset⟩
    · rw [hsame]
      exact .untracked peerId rfl
    · rw [hset]
      exact .tracked peerId timeout rfl
  | checkHelloTimeouts => exact .checked rfl
  | markAsLegacyPeer peerId => exact .marked peerId rfl

/-- What a map holds after the same value was put under each of some keys. -/
theorem lookup_check {V : Type} (v : V) (now : Timestamp) (recorded : Map PeerId V) :
    (Map.mapValues (fun _ => v) (Map.retain (fun _ (timeout : Timestamp) =>
      timeout.asMillis < now.asMillis) m.helloTimeouts) ∪ recorded).lookup p =
      if p ∈ m.expiredPeers now then some v else recorded.lookup p := by
  rw [Map.lookup_union, Map.lookup_mapValues, Map.lookup_retain]
  by_cases h : p ∈ m.expiredPeers now
  · obtain ⟨timeout, htimeout, hlate⟩ := mem_expiredPeers.mp h
    simp [h, htimeout, Option.filter, hlate]
  · rw [if_neg h]
    cases htimeout : m.helloTimeouts.lookup p with
    | none => rfl
    | some timeout =>
      have hearly : ¬ timeout.asMillis < now.asMillis := by
        intro hlate
        exact h (mem_expiredPeers.mpr ⟨timeout, htimeout, hlate⟩)
      simp [Option.filter, hearly]

/-- What the loop over the expired peers does for one of them. -/
def expire (m : CapabilityManager) (p : PeerId) : CapabilityManager :=
  { m.markAsLegacyPeer p with helloTimeouts := m.helloTimeouts.erase p }

/-- What the loop has done for the peers of a list. -/
theorem foldl_expire (order : List PeerId) (m : CapabilityManager) :
    order.foldl expire m = { m with
      legacyPeers := m.legacyPeers ∪ order.toFinset
      peerCapabilities := (order.foldl expire m).peerCapabilities
      peerVersions := (order.foldl expire m).peerVersions
      helloTimeouts := (order.foldl expire m).helloTimeouts } ∧
    ∀ p, ((order.foldl expire m).peerCapabilities.lookup p =
        if p ∈ order then some Capability.core else m.peerCapabilities.lookup p) ∧
      ((order.foldl expire m).peerVersions.lookup p =
        if p ∈ order then some .current else m.peerVersions.lookup p) ∧
      ((order.foldl expire m).helloTimeouts.lookup p =
        if p ∈ order then none else m.helloTimeouts.lookup p) := by
  induction order generalizing m with
  | nil => simp
  | cons q order ih =>
    obtain ⟨hfields, hlookups⟩ := ih (m.expire q)
    rw [List.foldl_cons]
    constructor
    · rw [hfields]
      simp [expire, markAsLegacyPeer]
    · intro p
      obtain ⟨hcaps, hversions, htimeouts⟩ := hlookups p
      rw [hcaps, hversions, htimeouts]
      simp only [expire, markAsLegacyPeer, Map.lookup_insert_if, Map.lookup_erase_if,
        List.mem_cons]
      by_cases hq : p = q
      · simp [hq]
      · simp [hq]

/-- All expired peers at once is the loop over them, in whatever order they come. -/
theorem checkHelloTimeouts_eq_foldl {now : Timestamp} {order : List PeerId}
    (h : ∀ p, p ∈ order ↔ p ∈ m.expiredPeers now) :
    (m.checkHelloTimeouts now).1 = order.foldl expire m := by
  obtain ⟨hfields, hlookups⟩ := foldl_expire order m
  have hset : order.toFinset = m.expiredPeers now := by
    ext p
    rw [List.mem_toFinset, h]
  have hcaps : (m.checkHelloTimeouts now).1.peerCapabilities =
      (order.foldl expire m).peerCapabilities := by
    apply Finmap.ext_lookup
    intro p
    rw [(hlookups p).1, checkHelloTimeouts, lookup_check]
    simp only [h]
  have hversions : (m.checkHelloTimeouts now).1.peerVersions =
      (order.foldl expire m).peerVersions := by
    apply Finmap.ext_lookup
    intro p
    rw [(hlookups p).2.1, checkHelloTimeouts, lookup_check]
    simp only [h]
  have htimeouts : (m.checkHelloTimeouts now).1.helloTimeouts =
      (order.foldl expire m).helloTimeouts := by
    apply Finmap.ext_lookup
    intro p
    rw [(hlookups p).2.2, checkHelloTimeouts, Map.lookup_retain]
    simp only [h, mem_expiredPeers]
    cases m.helloTimeouts.lookup p with
    | none => simp
    | some timeout =>
      by_cases hlate : timeout.asMillis < now.asMillis
      · simp [Option.filter, hlate]
      · simp [Option.filter, hlate]
  rw [hfields, ← hcaps, ← hversions, ← htimeouts, hset]
  rfl

/-! ## What is recorded -/

theorem localCapabilities_step (m : CapabilityManager) (i : CapabilityInput) :
    (m.step i).1.localCapabilities = m.localCapabilities := by
  have heffect := effect_step m i
  generalize (m.step i).1 = m' at heffect ⊢
  cases heffect <;> rfl

/-- The capabilities of a peer come from a hello, an acknowledgement or the fallback. -/
theorem recorded_of_effect {m' : CapabilityManager} (heffect : Effect m i m')
    (h : m'.peerCapabilities.lookup p = some caps) :
    m.peerCapabilities.lookup p = some caps ∨
      (∃ hello, i.call = .processHello hello ∧
        caps = m.findMutualCapabilities hello.capabilities) ∨
      (∃ ack, i.call = .processAck ack ∧ caps = ack.mutualCapabilities) ∨
      caps = Capability.core := by
  cases heffect with
  | rejected hello call noVersion => exact Or.inl h
  | untracked peerId call => exact Or.inl h
  | greeted hello version call fits =>
    rw [Map.lookup_insert_if] at h
    split_ifs at h
    · exact Or.inr (Or.inl ⟨hello, call, (Option.some.inj h).symm⟩)
    · exact Or.inl h
  | acknowledged ack call =>
    rw [processAck, Map.lookup_insert_if] at h
    split_ifs at h
    · exact Or.inr (Or.inr (Or.inl ⟨ack, call, (Option.some.inj h).symm⟩))
    · exact Or.inl h
  | removed peerId call =>
    rw [removePeer, Map.lookup_erase_if] at h
    split_ifs at h
    exact Or.inl h
  | tracked peerId timeout call => exact Or.inl h
  | checked call =>
    rw [checkHelloTimeouts, lookup_check] at h
    split_ifs at h
    · exact Or.inr (Or.inr (Or.inr (Option.some.inj h).symm))
    · exact Or.inl h
  | marked peerId call =>
    rw [markAsLegacyPeer, Map.lookup_insert_if] at h
    split_ifs at h
    · exact Or.inr (Or.inr (Or.inr (Option.some.inj h).symm))
    · exact Or.inl h

theorem supportedBy_findMutualCapabilities (peerCaps : List Capability) :
    ∀ cap ∈ m.findMutualCapabilities peerCaps, cap.SupportedBy m.localCapabilities := by
  intro cap hcap
  obtain ⟨peerCap, _, hmatch⟩ := List.mem_filterMap.mp hcap
  obtain ⟨ours, hours, rfl⟩ := Option.map_eq_some_iff.mp hmatch
  have hid : ours.id = peerCap.id := by simpa using List.find?_some hours
  exact ⟨ours, List.mem_of_find?_eq_some hours, hid, Finset.inter_subset_left⟩

theorem core_supported : ∀ cap ∈ Capability.core,
    cap.SupportedBy VersionHello.standardCapabilities := by
  have hsub : Capability.core ⊆ VersionHello.standardCapabilities := by
    simp [Capability.core, VersionHello.standardCapabilities]
  intro cap hcap
  exact ⟨cap, hsub hcap, rfl, Finset.Subset.refl _⟩

/-- Whatever is recorded of a peer is something that we have, and no other feature is used. -/
structure RecordsOurs (m : CapabilityManager) : Prop where
  recorded : ∀ p caps, m.peerCapabilities.lookup p = some caps →
    ∀ cap ∈ caps, cap.SupportedBy m.localCapabilities
  features : ∀ p feature, m.shouldUseFeature p feature = true →
    ∃ ours ∈ m.localCapabilities, ours.id = feature

theorem features_of_recorded (h : ∀ p caps, m.peerCapabilities.lookup p = some caps →
    ∀ cap ∈ caps, cap.SupportedBy m.localCapabilities) (p : PeerId) (feature : CapabilityId)
    (huse : m.shouldUseFeature p feature = true) :
    ∃ ours ∈ m.localCapabilities, ours.id = feature := by
  rw [shouldUseFeature, peerSupportsCapability] at huse
  cases hcaps : m.peerCapabilities.lookup p with
  | none => simp [hcaps] at huse
  | some caps =>
    rw [hcaps, Option.map_some, Option.getD_some, List.any_eq_true] at huse
    obtain ⟨cap, hcap, hid⟩ := huse
    obtain ⟨ours, hours, hsame, _⟩ := h p caps hcaps cap hcap
    exact ⟨ours, hours, hsame.trans (of_decide_eq_true hid)⟩

/-- An acknowledgement names only what we have. -/
def AcksOurs (own : List Capability) (i : CapabilityInput) : Prop :=
  ∀ ack, i.call = .processAck ack → ∀ cap ∈ ack.mutualCapabilities, cap.SupportedBy own

/-- A call keeps the record to what we have exactly if an acknowledgement does. -/
theorem recordsOurs_step_iff (hown : m.localCapabilities = VersionHello.standardCapabilities)
    (h : RecordsOurs m) :
    RecordsOurs (m.step i).1 ↔ AcksOurs VersionHello.standardCapabilities i := by
  have hstay : (m.step i).1.localCapabilities = VersionHello.standardCapabilities := by
    rw [localCapabilities_step, hown]
  constructor
  · intro hnext ack hcall
    have hwritten : (m.step i).1.peerCapabilities.lookup ack.peerId =
        some ack.mutualCapabilities := by
      obtain ⟨call, now⟩ := i
      obtain rfl : call = .processAck ack := hcall
      exact Finmap.lookup_insert _
    have hsupported := hnext.recorded ack.peerId _ hwritten
    rwa [hstay] at hsupported
  · intro hacks
    have hrecorded : ∀ p caps, (m.step i).1.peerCapabilities.lookup p = some caps →
        ∀ cap ∈ caps, cap.SupportedBy (m.step i).1.localCapabilities := by
      intro p caps hcaps
      rw [hstay]
      rcases recorded_of_effect (effect_step m i) hcaps with
        hold | ⟨hello, _, rfl⟩ | ⟨ack, hcall, rfl⟩ | rfl
      · rw [← hown]
        exact h.recorded p caps hold
      · rw [← hown]
        exact supportedBy_findMutualCapabilities hello.capabilities
      · exact hacks ack hcall
      · exact core_supported
    exact ⟨hrecorded, features_of_recorded hrecorded⟩

/-- The invariant: local capabilities are the standard ones, and only they are recorded. -/
def ListsOurs (m : CapabilityManager) : Prop :=
  m.localCapabilities = VersionHello.standardCapabilities ∧ RecordsOurs m

theorem listsOurs_step_iff (h : ListsOurs m) :
    ListsOurs (m.step i).1 ↔ AcksOurs VersionHello.standardCapabilities i := by
  rw [ListsOurs, localCapabilities_step, recordsOurs_step_iff h.1 h.2]
  exact and_iff_right h.1

theorem recordsOurs_fresh (localPeerId : PeerId) (implementation : ImplementationInfo) :
    RecordsOurs (fresh localPeerId implementation) := by
  have hnothing (p : PeerId) :
      (fresh localPeerId implementation).peerCapabilities.lookup p = none := rfl
  have hrecorded : ∀ p caps,
      (fresh localPeerId implementation).peerCapabilities.lookup p = some caps →
        ∀ cap ∈ caps, cap.SupportedBy (fresh localPeerId implementation).localCapabilities := by
    intro p caps hcaps
    rw [hnothing] at hcaps
    cases hcaps
  exact ⟨hrecorded, features_of_recorded hrecorded⟩

/-- In every state of a run only capabilities of ours are recorded exactly if no
acknowledgement names others. -/
theorem recordsOurs_iff (localPeerId : PeerId) (implementation : ImplementationInfo)
    (inputs : List CapabilityInput) :
    (∀ before rest, inputs = before ++ rest →
      RecordsOurs (run step (fresh localPeerId implementation) before)) ↔
    ∀ i ∈ inputs, AcksOurs VersionHello.standardCapabilities i := by
  have hown (before : List CapabilityInput) :
      (run step (fresh localPeerId implementation) before).localCapabilities =
        VersionHello.standardCapabilities := by
    refine Reachable.invariant (I := fun m : CapabilityManager =>
      m.localCapabilities = VersionHello.standardCapabilities) ?_ rfl ⟨before, rfl⟩
    intro m i h
    rw [localCapabilities_step, h]
  have hboth : (∀ before rest, inputs = before ++ rest →
      RecordsOurs (run step (fresh localPeerId implementation) before)) ↔
      ∀ before rest, inputs = before ++ rest → ListsOurs
        (run step (fresh localPeerId implementation) before) := by
    simp only [ListsOurs, hown, true_and]
  rw [hboth, throughout_iff_along ⟨rfl, recordsOurs_fresh localPeerId implementation⟩,
    along_step_iff (fun m i h => listsOurs_step_iff h)
      ⟨rfl, recordsOurs_fresh localPeerId implementation⟩, along_inputs]

/-- A peer that has never said what it can do. -/
def stranger : PeerId := ⟨List.Vector.replicate 8 9⟩

/-- Its acknowledgement names a capability that does not exist here. -/
def strangeAck : CapabilityInput where
  call := .processAck ⟨stranger, .current, [.new ⟨"file_transfer.v2".toList⟩ "2.0".toList],
    ⟨[], [], none⟩, ⟨0⟩⟩
  now := ⟨0⟩

def ourManager : CapabilityManager :=
  fresh ⟨List.Vector.replicate 8 1⟩ ⟨"bitchat-rust".toList, "0.1.0".toList, none⟩

/-- It is recorded as it is, and the feature is used. -/
theorem strangeAck_recorded :
    (run step ourManager [strangeAck]).shouldUseFeature stranger ⟨"file_transfer.v2".toList⟩ =
        true ∧
      ¬ RecordsOurs (run step ourManager [strangeAck]) := by
  have hused : (run step ourManager [strangeAck]).shouldUseFeature stranger
      ⟨"file_transfer.v2".toList⟩ = true := by decide
  refine ⟨hused, ?_⟩
  intro h
  have hours := h.features stranger _ hused
  exact absurd hours (by decide)

end CapabilityManager

end Bitchat
