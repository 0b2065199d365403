import Bitchat.Rust.Bincode
import Bitchat.Signing

/-!
# Secure discovery over BLE

The announcements of `protocol.rs` of the BLE transport. A peer is found by an announcement
that its key has signed, under the device name that belongs to it. The age of the
announcement is a saturating difference, so that one from the future is never too old.
-/
namespace Bitchat
open Rust

structure PeerAnnouncement where
  peerId : PeerId
  timestamp : UInt64
  signature : Bytes
  publicKey : Bytes
  deriving DecidableEq

def generateFingerprint (sha256 : Bytes → Key32) (publicKey : Key32) : Fingerprint :=
  ⟨sha256 publicKey.toList⟩

def Fingerprint.toPeerId (f : Fingerprint) : PeerId := ⟨⟨f.bytes.toList.take 8, by simp⟩⟩

def generateDeviceName (peerId : PeerId) (deviceNamePrefix : Text) : Text :=
  deviceNamePrefix ++ ['-'] ++ hexDigits peerId.asBytes

namespace PeerAnnouncement

/-- The signed bytes. -/
def challenge (peerId : PeerId) (timestamp : UInt64) (deviceName : Text) : Bytes :=
  peerId.asBytes ++ u64ToBeBytes timestamp ++ deviceName.asBytes

section

variable (codec : Bincode PeerAnnouncement) (sha256 : Bytes → Key32) (ed : Ed25519)

/-- The time is in seconds. -/
def new (peerId : PeerId) (identity : Key32) (deviceName : Text) (timestamp : UInt64) :
    PeerAnnouncement where
  peerId := peerId
  timestamp := timestamp
  signature := (ed.sign identity (challenge peerId timestamp deviceName)).toList
  publicKey := (ed.publicKey identity).toList

def verify (a : PeerAnnouncement) (deviceName : Text) (maxAgeSeconds currentTime : UInt64) :
    BitchatResult Bool :=
  if maxAgeSeconds.toNat < currentTime.toNat - a.timestamp.toNat then .ok false
  else if a.publicKey.length ≠ 32 then .ok false
  else do
    let pubKeyArray ← tryIntoArray 32 a.publicKey (.invalidPacket "Invalid public key length")
    if (generateFingerprint sha256 pubKeyArray).toPeerId ≠ a.peerId then pure false
    else if a.signature.length ≠ 64 then pure false
    else do
      let sigArray ← tryIntoArray 64 a.signature (.invalidPacket "Invalid signature length")
      match ed.verifyResult pubKeyArray (challenge a.peerId a.timestamp deviceName) sigArray with
      | .ok _ => pure true
      | .error _ => pure false

def toBytes (a : PeerAnnouncement) : BitchatResult Bytes :=
  mapErr .serialization (codec.serialize a)

def fromBytes (data : Bytes) : BitchatResult PeerAnnouncement :=
  mapErr .serialization (codec.deserialize data)

end

end PeerAnnouncement

section

variable (codec : Bincode PeerAnnouncement) (sha256 : Bytes → Key32) (ed : Ed25519)

def extractAndVerifyPeerId (deviceName : Text) (advertisingData : Bytes)
    (deviceNamePrefix : Text) (maxAgeSeconds currentTime : UInt64) :
    BitchatResult (Option PeerId) := do
  let announcement ← rewrap
    (fun _ => .invalidPacket "Invalid or missing secure advertising data")
    (PeerAnnouncement.fromBytes codec advertisingData)
  let verified ← announcement.verify sha256 ed deviceName maxAgeSeconds currentTime
  if verified = false then pure none
  else if deviceName = generateDeviceName announcement.peerId deviceNamePrefix then
    pure (some announcement.peerId)
  else pure none

def generateAdvertisingData (peerId : PeerId) (identity : Key32) (deviceName : Text)
    (timestamp : UInt64) : BitchatResult Bytes :=
  (PeerAnnouncement.new ed peerId identity deviceName timestamp).toBytes codec

/-- The key of the announcement belongs to its peer, and has signed it with the name. -/
def PeerAnnouncement.Authentic (a : PeerAnnouncement) (deviceName : Text) : Prop :=
  ∃ key signature, a.publicKey = key.toList ∧ a.signature = signature.toList ∧
    (generateFingerprint sha256 key).toPeerId = a.peerId ∧
    ed.verify key (challenge a.peerId a.timestamp deviceName) signature = true

/-- The data is an authentic announcement of the peer with this name. -/
def Announces (deviceName : Text) (advertisingData : Bytes) (deviceNamePrefix : Text)
    (a : PeerAnnouncement) : Prop :=
  codec.deserialize advertisingData = .ok a ∧ a.Authentic sha256 ed deviceName ∧
    deviceName = generateDeviceName a.peerId deviceNamePrefix

/-- The peer id of a key pair. -/
def ownPeerId (identity : Key32) : PeerId :=
  (generateFingerprint sha256 (ed.publicKey identity)).toPeerId

/-- What is found at a time are the authentic announcements that are near it, they are not
found later than twice the maximal age, and a peer is found by its own announcement as long
as this is fresh. -/
structure DiscoversExactly (deviceName : Text) (advertisingData : Bytes)
    (deviceNamePrefix : Text) (maxAge t : UInt64) : Prop where
  found : ∀ p, extractAndVerifyPeerId codec sha256 ed deviceName advertisingData
      deviceNamePrefix maxAge t = .ok (some p) ↔
    ∃ a, Announces codec sha256 ed deviceName advertisingData deviceNamePrefix a ∧
      a.peerId = p ∧ t.toNat ≤ a.timestamp.toNat + maxAge.toNat ∧
      a.timestamp.toNat ≤ t.toNat + maxAge.toNat
  replayed : ∀ p q t', extractAndVerifyPeerId codec sha256 ed deviceName advertisingData
      deviceNamePrefix maxAge t = .ok (some p) →
    extractAndVerifyPeerId codec sha256 ed deviceName advertisingData
      deviceNamePrefix maxAge t' = .ok (some q) →
    t'.toNat ≤ t.toNat + 2 * maxAge.toNat
  own : ∀ identity data t', generateAdvertisingData codec ed (ownPeerId sha256 ed identity)
      identity (generateDeviceName (ownPeerId sha256 ed identity) deviceNamePrefix) t = .ok data →
    t.toNat ≤ t'.toNat → t'.toNat ≤ t.toNat + maxAge.toNat →
    extractAndVerifyPeerId codec sha256 ed
      (generateDeviceName (ownPeerId sha256 ed identity) deviceNamePrefix) data
      deviceNamePrefix maxAge t' = .ok (some (ownPeerId sha256 ed identity))

/-- The data is an authentic announcement from further in the future than the maximal age. -/
def FutureDated (deviceName : Text) (advertisingData : Bytes) (deviceNamePrefix : Text)
    (maxAge t : UInt64) : Prop :=
  ∃ a, Announces codec sha256 ed deviceName advertisingData deviceNamePrefix a ∧
    t.toNat + maxAge.toNat < a.timestamp.toNat

end

variable {codec : Bincode PeerAnnouncement} {sha256 : Bytes → Key32} {ed : Ed25519}
  {deviceName deviceNamePrefix : Text} {advertisingData : Bytes} {maxAge t : UInt64}

namespace PeerAnnouncement

variable {a : PeerAnnouncement}

theorem verifyResult_cases (ed : Ed25519) (key : Key32) (data : Bytes) (signature : Signature64) :
    (match ed.verifyResult key data signature with
      | .ok _ => (pure true : BitchatResult Bool)
      | .error _ => pure false) = .ok (ed.verify key data signature) := by
  unfold Ed25519.verifyResult failIf
  cases ed.verify key data signature <;> rfl

/-- Key and signature of an authentic announcement are those that it carries. -/
theorem authentic_iff {key : Key32} {signature : Signature64} (hkey : a.publicKey = key.toList)
    (hsignature : a.signature = signature.toList) :
    a.Authentic sha256 ed deviceName ↔ (generateFingerprint sha256 key).toPeerId = a.peerId ∧
      ed.verify key (challenge a.peerId a.timestamp deviceName) signature = true := by
  constructor
  · rintro ⟨key', signature', hkey', hsignature', hpeer, hverify⟩
    obtain rfl := List.Vector.toList_injective (hkey.symm.trans hkey')
    obtain rfl := List.Vector.toList_injective (hsignature.symm.trans hsignature')
    exact ⟨hpeer, hverify⟩
  · rintro ⟨hpeer, hverify⟩
    exact ⟨key, signature, hkey, hsignature, hpeer, hverify⟩

/-- The verification ends without an error, and accepts what is authentic and not too old. -/
theorem verify_spec (sha256 : Bytes → Key32) (ed : Ed25519) (a : PeerAnnouncement)
    (deviceName : Text) (maxAge t : UInt64) :
    ∃ verified, a.verify sha256 ed deviceName maxAge t = .ok verified ∧
      (verified = true ↔ t.toNat - a.timestamp.toNat ≤ maxAge.toNat ∧
        a.Authentic sha256 ed deviceName) := by
  unfold verify
  by_cases hage : maxAge.toNat < t.toNat - a.timestamp.toNat
  · exact ⟨false, if_pos hage,
      iff_of_false Bool.false_ne_true fun h => absurd h.1 (Nat.not_le.mpr hage)⟩
  rw [if_neg hage]
  by_cases hlength : a.publicKey.length = 32
  · obtain ⟨key, hkey⟩ : ∃ key : Key32, a.publicKey = key.toList := ⟨⟨a.publicKey, hlength⟩, rfl⟩
    rw [if_neg (not_not.mpr hlength), tryIntoArray_eq_ok.mpr hkey, ok_bind]
    by_cases hpeer : (generateFingerprint sha256 key).toPeerId = a.peerId
    · rw [if_neg (not_not.mpr hpeer)]
      by_cases hsize : a.signature.length = 64
      · obtain ⟨signature, hsignature⟩ : ∃ signature : Signature64,
            a.signature = signature.toList := ⟨⟨a.signature, hsize⟩, rfl⟩
        rw [if_neg (not_not.mpr hsize), tryIntoArray_eq_ok.mpr hsignature, ok_bind,
          verifyResult_cases]
        refine ⟨_, rfl, ?_⟩
        rw [authentic_iff hkey hsignature, and_iff_right (Nat.not_lt.mp hage),
          and_iff_right hpeer]
      · rw [if_pos hsize]
        refine ⟨false, rfl, iff_of_false Bool.false_ne_true ?_⟩
        rintro ⟨-, _, signature, -, hsignature, -⟩
        exact hsize (by rw [hsignature, List.Vector.toList_length])
    · rw [if_pos hpeer]
      refine ⟨false, rfl, iff_of_false Bool.false_ne_true ?_⟩
      rintro ⟨-, key', _, hkey', -, hpeer', -⟩
      obtain rfl := List.Vector.toList_injective (hkey.symm.trans hkey')
      exact hpeer hpeer'
  · rw [if_pos hlength]
    refine ⟨false, rfl, iff_of_false Bool.false_ne_true ?_⟩
    rintro ⟨-, key, _, hkey, -⟩
    exact hlength (by rw [hkey, List.Vector.toList_length])

/-- An own announcement is authentic. -/
theorem authentic_new (hown : ed.AcceptsOwn) (identity : Key32) :
    (new ed (ownPeerId sha256 ed identity) identity deviceName t).Authentic sha256 ed
      deviceName :=
  ⟨ed.publicKey identity, _, rfl, rfl, rfl, hown identity _⟩

end PeerAnnouncement

/-- What is extracted is the peer of an authentic announcement that is not too old. -/
theorem extractAndVerifyPeerId_iff {p : PeerId} :
    extractAndVerifyPeerId codec sha256 ed deviceName advertisingData deviceNamePrefix maxAge t =
        .ok (some p) ↔
      ∃ a, Announces codec sha256 ed deviceName advertisingData deviceNamePrefix a ∧
        a.peerId = p ∧ t.toNat ≤ a.timestamp.toNat + maxAge.toNat := by
  unfold extractAndVerifyPeerId PeerAnnouncement.fromBytes Announces
  cases hdata : codec.deserialize advertisingData with
  | error e =>
    constructor
    · intro h
      cases h
    · rintro ⟨a, ⟨ha, -⟩, -⟩
      cases ha
  | ok a =>
    obtain ⟨verified, hverify, haccepts⟩ :=
      PeerAnnouncement.verify_spec sha256 ed a deviceName maxAge t
    rw [Nat.sub_le_iff_le_add'] at haccepts
    simp only [mapErr, rewrap, ok_bind, hverify]
    constructor
    · intro h
      split_ifs at h with hrejected hname
      · cases h
      · obtain ⟨hage, hauthentic⟩ := haccepts.mp ((Bool.not_eq_false _).mp hrejected)
        exact ⟨a, ⟨rfl, hauthentic, hname⟩, Option.some.inj (Except.ok.inj h), hage⟩
      · cases h
    · rintro ⟨a', ⟨ha, hauthentic, hname⟩, rfl, hage⟩
      obtain rfl := Except.ok.inj ha
      rw [if_neg ((Bool.not_eq_false _).mpr (haccepts.mpr ⟨hage, hauthentic⟩)), if_pos hname]
      rfl

/-- A fresh announcement of its own is accepted from a peer. -/
theorem extractAndVerifyPeerId_own (maxAge : UInt64) (hbin : codec.RoundTrips)
    (hown : ed.AcceptsOwn) {identity : Key32} {data : Bytes} {t' : UInt64}
    (hdata : generateAdvertisingData codec ed (ownPeerId sha256 ed identity) identity
      (generateDeviceName (ownPeerId sha256 ed identity) deviceNamePrefix) t = .ok data)
    (hage : t'.toNat ≤ t.toNat + maxAge.toNat) :
    extractAndVerifyPeerId codec sha256 ed
      (generateDeviceName (ownPeerId sha256 ed identity) deviceNamePrefix) data
      deviceNamePrefix maxAge t' = .ok (some (ownPeerId sha256 ed identity)) :=
  extractAndVerifyPeerId_iff.mpr ⟨_, ⟨hbin _ data (mapErr_eq_ok.mp hdata),
    PeerAnnouncement.authentic_new hown identity, rfl⟩, rfl, hage⟩

/-- Discovery is exact at every time from which the announcement is not further in the
future than the maximal age. -/
theorem discoversExactly_iff (codec : Bincode PeerAnnouncement) (sha256 : Bytes → Key32)
    (ed : Ed25519) (hbin : codec.RoundTrips) (hown : ed.AcceptsOwn) (deviceName : Text)
    (advertisingData : Bytes) (deviceNamePrefix : Text) (maxAge t : UInt64) :
    DiscoversExactly codec sha256 ed deviceName advertisingData deviceNamePrefix maxAge t ↔
      ¬ FutureDated codec sha256 ed deviceName advertisingData deviceNamePrefix maxAge t := by
  constructor
  · rintro h ⟨a, ha, hfuture⟩
    have hage : t.toNat ≤ a.timestamp.toNat + maxAge.toNat := by omega
    have hfound := extractAndVerifyPeerId_iff.mpr ⟨a, ha, rfl, hage⟩
    obtain ⟨b, hb, -, -, hnear⟩ := (h.found a.peerId).mp hfound
    obtain rfl := Except.ok.inj (ha.1.symm.trans hb.1)
    omega
  · intro h
    have hpresent (a : PeerAnnouncement)
        (ha : Announces codec sha256 ed deviceName advertisingData deviceNamePrefix a) :
        a.timestamp.toNat ≤ t.toNat + maxAge.toNat := by
      by_contra hlate
      exact h ⟨a, ha, Nat.not_le.mp hlate⟩
    refine ⟨fun p => ?_, fun p q t' hp hq => ?_, fun identity data t' hdata _ hage =>
      extractAndVerifyPeerId_own maxAge hbin hown hdata hage⟩
    · rw [extractAndVerifyPeerId_iff]
      constructor
      · rintro ⟨a, ha, hpeer, hage⟩
        exact ⟨a, ha, hpeer, hage, hpresent a ha⟩
      · rintro ⟨a, ha, hpeer, hage, -⟩
        exact ⟨a, ha, hpeer, hage⟩
    · obtain ⟨b, hb, -, hage⟩ := extractAndVerifyPeerId_iff.mp hq
      have hnear := hpresent b hb
      omega

/-! ## An announcement from the future -/

namespace PeerAnnouncement

/-- The default layout of an announcement. -/
def write (a : PeerAnnouncement) : Bytes :=
  a.peerId.asBytes ++ (Bincode.writeU64 a.timestamp ++
    (Bincode.writeBytes a.signature ++ Bincode.writeBytes a.publicKey))

def read : Bincode.Reader PeerAnnouncement := fun bytes => do
  let (peerId, bytes) ← Bincode.readArray 8 bytes
  let (timestamp, bytes) ← Bincode.readU64 bytes
  let (signature, bytes) ← Bincode.readBytes bytes
  let (publicKey, bytes) ← Bincode.readBytes bytes
  pure (⟨⟨peerId⟩, timestamp, signature, publicKey⟩, bytes)

/-- Bytes after an announcement are not looked at. -/
def defaultBincode : Bincode PeerAnnouncement where
  serialize a :=
    if a.signature.length < 2 ^ 64 ∧ a.publicKey.length < 2 ^ 64 then .ok a.write
    else .error "too long"
  deserialize bytes :=
    match read bytes with
    | some (a, _) => .ok a
    | none => .error "unexpected end of file"

theorem reads_write {a : PeerAnnouncement}
    (hshort : a.signature.length < 2 ^ 64 ∧ a.publicKey.length < 2 ^ 64) :
    Bincode.Reads read a.write a := by
  intro rest
  simp [read, write, List.append_assoc, PeerId.asBytes, Bincode.reads_array a.peerId.bytes _,
    Bincode.reads_u64 a.timestamp _, Bincode.reads_bytes hshort.1 _,
    Bincode.reads_bytes hshort.2 _]

theorem defaultBincode_roundTrips : defaultBincode.RoundTrips := by
  intro a bytes h
  simp only [defaultBincode] at h ⊢
  split_ifs at h with hshort
  have hread := reads_write hshort []
  rw [List.append_nil, Except.ok.inj h] at hread
  rw [hread]

end PeerAnnouncement

/-- A digest that shows the first byte. -/
def firstByteDigest (bytes : Bytes) : Key32 := List.Vector.replicate 32 (bytes.headD 0)

theorem acceptsOwn_firstByteEd25519 : BitchatPacket.firstByteEd25519.AcceptsOwn := by
  intro secret m
  exact beq_self_eq_true _

/-- A key pair, its peer id, and the name of its device. -/
def someIdentity : Key32 := List.Vector.replicate 32 9

def announcer : PeerId := ownPeerId firstByteDigest BitchatPacket.firstByteEd25519 someIdentity

def announcerName : Text := generateDeviceName announcer "BitChat".toList

/-- The announcement of the peer at a time. -/
def announcedAt (timestamp : UInt64) : PeerAnnouncement :=
  PeerAnnouncement.new BitchatPacket.firstByteEd25519 announcer someIdentity announcerName timestamp

theorem generate_announcedAt (timestamp : UInt64) :
    generateAdvertisingData PeerAnnouncement.defaultBincode BitchatPacket.firstByteEd25519
      announcer someIdentity announcerName timestamp = .ok (announcedAt timestamp).write := by
  have hshort : (announcedAt timestamp).signature.length < 2 ^ 64 ∧
      (announcedAt timestamp).publicKey.length < 2 ^ 64 := by
    simp [announcedAt, PeerAnnouncement.new]
  have hserialize : PeerAnnouncement.defaultBincode.serialize (announcedAt timestamp) =
      .ok (announcedAt timestamp).write := by
    simp only [PeerAnnouncement.defaultBincode, if_pos hshort]
  show mapErr .serialization (PeerAnnouncement.defaultBincode.serialize (announcedAt timestamp)) = _
  rw [hserialize]
  rfl

theorem discoversExactly_iff_announcedAt :
    DiscoversExactly PeerAnnouncement.defaultBincode firstByteDigest
        BitchatPacket.firstByteEd25519 announcerName (announcedAt 1000).write
        "BitChat".toList 60 1030 ↔
      ¬ FutureDated PeerAnnouncement.defaultBincode firstByteDigest
        BitchatPacket.firstByteEd25519 announcerName (announcedAt 1000).write
        "BitChat".toList 60 1030 :=
  discoversExactly_iff PeerAnnouncement.defaultBincode firstByteDigest
    BitchatPacket.firstByteEd25519 PeerAnnouncement.defaultBincode_roundTrips
    acceptsOwn_firstByteEd25519 announcerName (announcedAt 1000).write "BitChat".toList 60 1030

/-- What was announced for a far future is accepted before it, and still then. -/
theorem future_announcement_accepted :
    extractAndVerifyPeerId PeerAnnouncement.defaultBincode firstByteDigest
        BitchatPacket.firstByteEd25519 announcerName (announcedAt 2000000000).write
        "BitChat".toList 60 1000 = .ok (some announcer) ∧
      extractAndVerifyPeerId PeerAnnouncement.defaultBincode firstByteDigest
        BitchatPacket.firstByteEd25519 announcerName (announcedAt 2000000000).write
        "BitChat".toList 60 2000000060 = .ok (some announcer) ∧
      ¬ DiscoversExactly PeerAnnouncement.defaultBincode firstByteDigest
        BitchatPacket.firstByteEd25519 announcerName (announcedAt 2000000000).write
        "BitChat".toList 60 1000 := by
  have haccepted (t : UInt64) (hage : t.toNat ≤ 2000000060) :=
    extractAndVerifyPeerId_own 60 PeerAnnouncement.defaultBincode_roundTrips
      acceptsOwn_firstByteEd25519 (generate_announcedAt 2000000000) hage
  have hearly := haccepted 1000 (by decide)
  have hlate := haccepted 2000000060 (by decide)
  refine ⟨hearly, hlate, fun h => ?_⟩
  have hwindow := h.replayed announcer announcer 2000000060 hearly hlate
  revert hwindow
  decide

end Bitchat
