import Bitchat.BleDiscovery
import Bitchat.Rust.Call
import Bitchat.Rust.Map
import Bitchat.Rust.Run
import Mathlib.Logic.Function.Basic

/-!
# Identities of location channels

`GeohashChannel` and `LocationPrivacyManager` of `geohash.rs`. The key that signs in a
channel is a digest of the name of the channel and of the base identity, of which the
public key alone goes into it. What a peer does in its channels therefore depends on
nothing that others do not know.
-/
namespace Bitchat
open Rust

inductive GeohashPrecision where
  | region | state | city | district | neighborhood | block | building
  deriving DecidableEq

/-- `precision as u8`, the number of characters. -/
def GeohashPrecision.asU8 : GeohashPrecision → UInt8
  | .region => 2
  | .state => 3
  | .city => 4
  | .district => 5
  | .neighborhood => 6
  | .block => 7
  | .building => 8

inductive GeohashError where
  | invalidGeohashLength (expected actual : ℕ)
  | invalidGeohashCharacter (c : Char)
  | keyGenerationFailed
  deriving DecidableEq

structure GeohashChannel where
  geohash : Text
  precision : GeohashPrecision
  deriving DecidableEq

/-- `VALID_CHARS`. -/
def validChars : Bytes := Text.asBytes "0123456789bcdefghjkmnpqrstuvwxyz".toList

/-- `IdentityKeyPair`, in which nothing ties the one key to the other. -/
structure IdentityKeyPair where
  signingKey : Key32
  verifyingKey : Key32
  deriving DecidableEq

def IdentityKeyPair.publicKeyBytes (k : IdentityKeyPair) : Key32 := k.verifyingKey

/-- The signing key is private to the module. -/
structure ChannelIdentity where
  channel : GeohashChannel
  peerId : PeerId
  fingerprint : Fingerprint
  signingKey : Key32
  deriving DecidableEq

def ChannelIdentity.signingKeyBytes (identity : ChannelIdentity) : Key32 := identity.signingKey

namespace GeohashChannel

def new (geohash : Text) (precision : GeohashPrecision) : Outcome GeohashError GeohashChannel :=
  if geohash.size ≠ precision.asU8.toNat then
    fail (.invalidGeohashLength precision.asU8.toNat geohash.size)
  else
    match geohash.asBytes.find? fun byte => byte ∉ validChars with
    | some byte => fail (.invalidGeohashCharacter (Char.ofNat byte.toNat))
    | none => .ok ⟨geohash, precision⟩

/-- What is accepted has the length of its precision and characters of the alphabet. -/
theorem new_eq_ok {geohash : Text} {precision : GeohashPrecision} {channel : GeohashChannel} :
    new geohash precision = .ok channel ↔
      channel = ⟨geohash, precision⟩ ∧ geohash.size = precision.asU8.toNat ∧
        ∀ byte ∈ geohash.asBytes, byte ∈ validChars := by
  rw [new]
  split_ifs with hsize
  · simp [hsize]
  · rw [not_not] at hsize
    cases hfind : geohash.asBytes.find? fun byte => byte ∉ validChars with
    | none =>
      have hvalid : ∀ byte ∈ geohash.asBytes, byte ∈ validChars := by
        simpa using hfind
      rw [and_iff_left ⟨hsize, hvalid⟩, Except.ok.injEq, eq_comm]
    | some byte =>
      have hbad : byte ∉ validChars := by simpa using List.find?_some hfind
      refine iff_of_false (fail_ne_ok _ _) fun h => ?_
      exact hbad (h.2.2 byte (List.mem_of_find?_eq_some hfind))

section

variable (sha256 : Bytes → Key32) (ed : Ed25519)

/-- The bytes fed to the hasher, in the order of the updates. -/
def seedPreimage (channel : GeohashChannel) (publicKey : Key32) : Bytes :=
  Text.asBytes "bitchat-geohash-channel-v1".toList ++ publicKey.toList ++
    channel.geohash.asBytes ++ [channel.precision.asU8]

def deriveChannelIdentity (channel : GeohashChannel) (baseIdentity : IdentityKeyPair) :
    Outcome GeohashError ChannelIdentity :=
  let seed := sha256 (channel.seedPreimage baseIdentity.publicKeyBytes)
  let fingerprint : Fingerprint := ⟨sha256 (ed.publicKey seed).toList⟩
  .ok ⟨channel, fingerprint.toPeerId, fingerprint, seed⟩

/-- No function of the public key and the channel gives the signing key of every identity in
every channel. -/
def KeysAreSecret : Prop :=
  ¬ ∃ g : Key32 → Text → GeohashPrecision → Key32,
    ∀ (baseIdentity : IdentityKeyPair) (channel : GeohashChannel),
      ChannelIdentity.signingKeyBytes <$> channel.deriveChannelIdentity sha256 ed baseIdentity =
        .ok (g baseIdentity.publicKeyBytes channel.geohash channel.precision)

variable {sha256 ed} {baseIdentity other : IdentityKeyPair}

/-- The seed of a channel as anyone can compute it. -/
def publicSeed (sha256 : Bytes → Key32) (publicKey : Key32) (geohash : Text)
    (precision : GeohashPrecision) : Key32 :=
  sha256 (seedPreimage ⟨geohash, precision⟩ publicKey)

theorem signingKey_eq_publicSeed (sha256 : Bytes → Key32) (ed : Ed25519)
    (baseIdentity : IdentityKeyPair) (channel : GeohashChannel) :
    ChannelIdentity.signingKeyBytes <$> channel.deriveChannelIdentity sha256 ed baseIdentity =
      .ok (publicSeed sha256 baseIdentity.publicKeyBytes channel.geohash channel.precision) := rfl

/-- The secret key does not interfere with the identity in a channel. -/
theorem deriveChannelIdentity_congr (channel : GeohashChannel)
    (hpublic : baseIdentity.publicKeyBytes = other.publicKeyBytes) :
    channel.deriveChannelIdentity sha256 ed baseIdentity =
      channel.deriveChannelIdentity sha256 ed other := by
  rw [deriveChannelIdentity, hpublic, deriveChannelIdentity]

/-- What is signed with the public seed passes as signed by the identity in the channel. -/
theorem anyone_signs (hed : ed.AcceptsOwn) {channel : GeohashChannel} {identity : ChannelIdentity}
    (hderived : channel.deriveChannelIdentity sha256 ed baseIdentity = .ok identity)
    (data : Bytes) :
    ed.verify (ed.publicKey identity.signingKeyBytes) data
      (ed.sign (publicSeed sha256 baseIdentity.publicKeyBytes channel.geohash channel.precision)
        data) = true := by
  have hkey := signingKey_eq_publicSeed sha256 ed baseIdentity channel
  rw [hderived] at hkey
  rw [← Except.ok.inj hkey]
  exact hed identity.signingKeyBytes data

/-- **Whatever the hash, the signing key of a channel is a function of what is public.** -/
theorem keys_not_secret (sha256 : Bytes → Key32) (ed : Ed25519) : ¬ KeysAreSecret sha256 ed := by
  intro hsecret
  exact hsecret ⟨publicSeed sha256, signingKey_eq_publicSeed sha256 ed⟩

/-- A digest that adds up the bytes, modulo 256. -/
def sumDigest (bytes : Bytes) : Key32 := List.Vector.replicate 32 bytes.sum

theorem keys_not_secret_sumDigest : ¬ KeysAreSecret sumDigest BitchatPacket.firstByteEd25519 :=
  fun hsecret => hsecret ⟨publicSeed sumDigest, signingKey_eq_publicSeed sumDigest _⟩

end

end GeohashChannel

structure LocationPrivacyManager where
  baseIdentity : IdentityKeyPair
  activeChannel : Option GeohashChannel
  channelIdentities : Map GeohashChannel ChannelIdentity

inductive LocationCall where
  | setChannel (channel : GeohashChannel)
  | getChannelIdentity (channel : GeohashChannel)
  | clearLocation
  | activeIdentity

namespace LocationPrivacyManager

def new (baseIdentity : IdentityKeyPair) : LocationPrivacyManager := ⟨baseIdentity, none, ∅⟩

def activeIdentity (m : LocationPrivacyManager) : Option ChannelIdentity :=
  m.activeChannel.bind m.channelIdentities.lookup

def clearLocation (m : LocationPrivacyManager) : LocationPrivacyManager :=
  { m with activeChannel := none }

section

variable (sha256 : Bytes → Key32) (ed : Ed25519)

/-- Derives the identity of the channel if it is not in the cache. -/
def cacheIdentity (m : LocationPrivacyManager) (channel : GeohashChannel) :
    Call GeohashError LocationPrivacyManager Unit :=
  if channel ∈ m.channelIdentities then (m, .ok ())
  else Call.andThen (m, channel.deriveChannelIdentity sha256 ed m.baseIdentity) fun m identity =>
    ({ m with channelIdentities := m.channelIdentities.insert channel identity }, .ok ())

/-- `channel_identities.get(channel).unwrap()`. -/
def cachedIdentity (m : LocationPrivacyManager) (channel : GeohashChannel) :
    Outcome GeohashError ChannelIdentity :=
  match m.channelIdentities.lookup channel with
  | some identity => .ok identity
  | none => panicked

def setChannel (m : LocationPrivacyManager) (channel : GeohashChannel) :
    Call GeohashError LocationPrivacyManager ChannelIdentity :=
  (m.cacheIdentity sha256 ed channel).andThen fun m _ =>
    ({ m with activeChannel := some channel }, m.cachedIdentity channel)

def getChannelIdentity (m : LocationPrivacyManager) (channel : GeohashChannel) :
    Call GeohashError LocationPrivacyManager ChannelIdentity :=
  (m.cacheIdentity sha256 ed channel).andThen fun m _ => (m, m.cachedIdentity channel)

def step (m : LocationPrivacyManager) :
    LocationCall → Call GeohashError LocationPrivacyManager (Option ChannelIdentity)
  | .setChannel channel => (m.setChannel sha256 ed channel).andThen fun m i => (m, .ok (some i))
  | .getChannelIdentity channel =>
    (m.getChannelIdentity sha256 ed channel).andThen fun m i => (m, .ok (some i))
  | .clearLocation => (m.clearLocation, .ok none)
  | .activeIdentity => (m, .ok m.activeIdentity)

variable {sha256 : Bytes → Key32} {ed : Ed25519} {m m' : LocationPrivacyManager}

/-- Two managers that an observer of their public keys does not tell apart. -/
structure SamePublic (m m' : LocationPrivacyManager) : Prop where
  publicKey : m.baseIdentity.publicKeyBytes = m'.baseIdentity.publicKeyBytes
  activeChannel : m.activeChannel = m'.activeChannel
  channelIdentities : m.channelIdentities = m'.channelIdentities

namespace SamePublic

theorem cacheIdentity (h : SamePublic m m') (channel : GeohashChannel) :
    Call.Agree SamePublic (m.cacheIdentity sha256 ed channel)
      (m'.cacheIdentity sha256 ed channel) := by
  unfold LocationPrivacyManager.cacheIdentity
  rw [← h.channelIdentities]
  split_ifs
  · exact ⟨h, rfl⟩
  · refine Call.Agree.andThen ⟨h, channel.deriveChannelIdentity_congr h.publicKey⟩ ?_
    intro s s' identity hsame
    exact ⟨⟨hsame.publicKey, hsame.activeChannel, by rw [hsame.channelIdentities]⟩, rfl⟩

theorem cachedIdentity (h : SamePublic m m') (channel : GeohashChannel) :
    m.cachedIdentity channel = m'.cachedIdentity channel := by
  rw [LocationPrivacyManager.cachedIdentity, h.channelIdentities,
    LocationPrivacyManager.cachedIdentity]

theorem setChannel (h : SamePublic m m') (channel : GeohashChannel) :
    Call.Agree SamePublic (m.setChannel sha256 ed channel) (m'.setChannel sha256 ed channel) := by
  refine (h.cacheIdentity channel).andThen ?_
  intro s s' _ hsame
  exact ⟨⟨hsame.publicKey, rfl, hsame.channelIdentities⟩, hsame.cachedIdentity channel⟩

theorem getChannelIdentity (h : SamePublic m m') (channel : GeohashChannel) :
    Call.Agree SamePublic (m.getChannelIdentity sha256 ed channel)
      (m'.getChannelIdentity sha256 ed channel) := by
  refine (h.cacheIdentity channel).andThen ?_
  intro s s' _ hsame
  exact ⟨hsame, hsame.cachedIdentity channel⟩

theorem step (h : SamePublic m m') (call : LocationCall) :
    Call.Agree SamePublic (m.step sha256 ed call) (m'.step sha256 ed call) := by
  cases call with
  | setChannel channel =>
    exact (h.setChannel channel).andThen fun _ _ _ hsame => ⟨hsame, rfl⟩
  | getChannelIdentity channel =>
    exact (h.getChannelIdentity channel).andThen fun _ _ _ hsame => ⟨hsame, rfl⟩
  | clearLocation => exact ⟨⟨h.publicKey, rfl, h.channelIdentities⟩, rfl⟩
  | activeIdentity =>
    refine ⟨h, congrArg Except.ok ?_⟩
    rw [LocationPrivacyManager.activeIdentity, h.activeChannel, h.channelIdentities,
      LocationPrivacyManager.activeIdentity]

end SamePublic

/-- The identities that a manager hands out in a run depend on its public key alone. -/
theorem outputs_of_publicKey {baseIdentity other : IdentityKeyPair}
    (hpublic : baseIdentity.publicKeyBytes = other.publicKeyBytes) (calls : List LocationCall) :
    outputs (step sha256 ed) (new baseIdentity) calls =
      outputs (step sha256 ed) (new other) calls :=
  outputs_eq_of_related (R := SamePublic) (fun _ _ call h => h.step call) ⟨hpublic, rfl, rfl⟩

end

end LocationPrivacyManager

end Bitchat
