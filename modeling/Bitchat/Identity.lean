import Bitchat.Rust.Bincode
import Bitchat.Rust.Call
import Bitchat.Rust.Map
import Bitchat.Rust.Run
import Bitchat.Types

/-!
# The identity manager

`SecureIdentityStateManager` of `identity/manager.rs` with the three kinds of
identities that it keeps. Storage, AES-GCM, bincode and SHA-256 are a parameter.
Times are milliseconds; a call reads the clock once.
-/
namespace Bitchat
open Rust

inductive HandshakeState where
  | none
  | inProgress
  | completed (fingerprint : Fingerprint)
  | failed (reason : Text)
  deriving DecidableEq

def HandshakeState.fingerprint : HandshakeState → Option Fingerprint
  | .completed fingerprint => some fingerprint
  | _ => Option.none

inductive TrustLevel where
  | unknown
  | known
  | trusted
  | verified
  deriving DecidableEq

structure EphemeralIdentity where
  peerId : PeerId
  handshakeState : HandshakeState
  sessionStart : ℕ
  lastActivity : ℕ
  deriving DecidableEq

namespace EphemeralIdentity

def new (peerId : PeerId) (now : ℕ) : EphemeralIdentity := ⟨peerId, .none, now, now⟩

def setHandshakeState (ephemeral : EphemeralIdentity) (state : HandshakeState) (now : ℕ) :
    EphemeralIdentity :=
  { ephemeral with handshakeState := state, lastActivity := now }

end EphemeralIdentity

structure CryptographicIdentity where
  fingerprint : Fingerprint
  publicKey : Key32
  signingPublicKey : Option Key32
  firstSeen : ℕ
  lastHandshake : ℕ
  handshakeCount : ℕ
  deriving DecidableEq

namespace CryptographicIdentity

def new (sha256 : Bytes → Key32) (publicKey : Key32) (signingPublicKey : Option Key32) (now : ℕ) :
    CryptographicIdentity :=
  ⟨⟨sha256 publicKey.toList⟩, publicKey, signingPublicKey, now, now, 0⟩

/-- The count saturates at 32 bits. -/
def updateHandshakeTime (crypto : CryptographicIdentity) (now : ℕ) : CryptographicIdentity :=
  { crypto with
    lastHandshake := now
    handshakeCount := min (crypto.handshakeCount + 1) (2 ^ 32 - 1) }

end CryptographicIdentity

structure SocialIdentity where
  fingerprint : Fingerprint
  claimedNickname : Option Text
  localPetname : Option Text
  trustLevel : TrustLevel
  isFavorite : Bool
  isBlocked : Bool
  lastInteraction : ℕ
  notes : Option Text
  deriving DecidableEq

namespace SocialIdentity

def new (fingerprint : Fingerprint) (now : ℕ) : SocialIdentity :=
  ⟨fingerprint, none, none, .unknown, false, false, now, none⟩

def setClaimedNickname (nickname : Option Text) (now : ℕ) (s : SocialIdentity) : SocialIdentity :=
  { s with claimedNickname := nickname, lastInteraction := now }

def setPetname (petname : Option Text) (now : ℕ) (s : SocialIdentity) : SocialIdentity :=
  { s with localPetname := petname, lastInteraction := now }

def setTrustLevel (level : TrustLevel) (now : ℕ) (s : SocialIdentity) : SocialIdentity :=
  { s with trustLevel := level, lastInteraction := now }

def setFavorite (favorite : Bool) (now : ℕ) (s : SocialIdentity) : SocialIdentity :=
  { s with isFavorite := favorite, lastInteraction := now }

def setBlocked (blocked : Bool) (now : ℕ) (s : SocialIdentity) : SocialIdentity :=
  { s with isBlocked := blocked, lastInteraction := now }

end SocialIdentity

@[ext] structure IdentityCache where
  cryptographicIdentities : Map Fingerprint CryptographicIdentity
  socialIdentities : Map Fingerprint SocialIdentity
  verifiedFingerprints : List Fingerprint
  deriving DecidableEq

namespace IdentityCache

def new : IdentityCache := ⟨∅, ∅, []⟩

def upsertCryptographicIdentity (c : IdentityCache) (identity : CryptographicIdentity) :
    IdentityCache :=
  { c with
    cryptographicIdentities := c.cryptographicIdentities.insert identity.fingerprint identity }

def setVerified (c : IdentityCache) (fingerprint : Fingerprint) (verified : Bool) :
    IdentityCache :=
  if verified then
    if fingerprint ∈ c.verifiedFingerprints then c
    else { c with verifiedFingerprints := c.verifiedFingerprints ++ [fingerprint] }
  else { c with verifiedFingerprints := c.verifiedFingerprints.filter (· ≠ fingerprint) }

/-- Cryptographic identities stay if they are recent or verified, and what is known
beside them stays with them. -/
def cleanupOldIdentities (c : IdentityCache) (maxAge now : ℕ) : IdentityCache :=
  let cutoff := now - maxAge
  let cryptographic := Map.retain (fun fingerprint crypto =>
    cutoff ≤ crypto.lastHandshake || fingerprint ∈ c.verifiedFingerprints)
      c.cryptographicIdentities
  { cryptographicIdentities := cryptographic
    socialIdentities := Map.retain (fun fingerprint _ => fingerprint ∈ cryptographic)
      c.socialIdentities
    verifiedFingerprints := c.verifiedFingerprints.filter (· ∈ cryptographic) }

def removeIdentity (c : IdentityCache) (fingerprint : Fingerprint) : IdentityCache where
  cryptographicIdentities := c.cryptographicIdentities.erase fingerprint
  socialIdentities := c.socialIdentities.erase fingerprint
  verifiedFingerprints := c.verifiedFingerprints.filter (· ≠ fingerprint)

/-- The social identity of a fingerprint, or the one that is made for it. -/
def socialOf (c : IdentityCache) (fingerprint : Fingerprint) (now : ℕ) : SocialIdentity :=
  (c.socialIdentities.lookup fingerprint).getD (SocialIdentity.new fingerprint now)

/-- Gets or makes a social identity and puts back what `edit` makes of it. -/
def editSocial (c : IdentityCache) (fingerprint : Fingerprint)
    (edit : SocialIdentity → SocialIdentity) (now : ℕ) : IdentityCache :=
  { c with socialIdentities :=
      c.socialIdentities.insert fingerprint (edit (c.socialOf fingerprint now)) }

/-- Records a handshake, if the identity is there. -/
def updateLastHandshake (c : IdentityCache) (fingerprint : Fingerprint) (now : ℕ) :
    IdentityCache :=
  match c.cryptographicIdentities.lookup fingerprint with
  | some crypto => { c with cryptographicIdentities :=
      c.cryptographicIdentities.insert fingerprint (crypto.updateHandshakeTime now) }
  | none => c

end IdentityCache

/-- `SecureStorage`, as operations on a state of the backend. -/
structure SecureStorage (S : Type) where
  store : S → String → Bytes → S × Except String Unit
  retrieve : S → String → Except String (Option Bytes)
  clearAll : S → S × Except String Unit

/-- `Aes256Gcm` with detached tags and no associated data. -/
structure AesGcm where
  encrypt : Key32 → List.Vector UInt8 12 → Bytes → Option (List.Vector UInt8 16 × Bytes)
  decrypt : Key32 → Bytes → Bytes → Bytes → Option Bytes

/-- What the manager uses of other code. -/
structure IdentityLibrary (S : Type) where
  storage : SecureStorage S
  aesGcm : AesGcm
  bincode : Bincode IdentityCache
  sha256 : Bytes → Key32

/-- The errors of the manager. -/
inductive IdentityError where
  | invalidPeerId (reason : String)
  | serialization (message : String)
  | encryption (message : String)
  | decryption (message : String)
  | storage (error : String)
  deriving DecidableEq

structure SecureIdentityStateManager (S : Type) where
  ephemeralSessions : Map PeerId EphemeralIdentity
  identityCache : IdentityCache
  storage : S
  cacheEncryptionKey : Option Key32
  lastCacheSave : ℕ
  cacheDirty : Bool

/-- The calls on the manager. Those that return a reference come with what is
written through it. -/
inductive IdentityOp where
  | registerEphemeralIdentity (peerId : PeerId) (edit : EphemeralIdentity → EphemeralIdentity)
  | getEphemeralIdentityMut (peerId : PeerId) (edit : EphemeralIdentity → EphemeralIdentity)
  | updateHandshakeState (peerId : PeerId) (state : HandshakeState)
  | cleanupEphemeralSessions
  | upsertCryptographicIdentity (identity : CryptographicIdentity)
  | updateLastHandshake (fingerprint : Fingerprint)
  | createCryptographicIdentity (noisePublicKey : Key32) (signingPublicKey : Option Key32)
  | getOrCreateSocialIdentity (fingerprint : Fingerprint) (edit : SocialIdentity → SocialIdentity)
  | updateSocialIdentity (fingerprint : Fingerprint) (updateFn : SocialIdentity → SocialIdentity)
  | setNickname (fingerprint : Fingerprint) (nickname : Option Text)
  | setPetname (fingerprint : Fingerprint) (petname : Option Text)
  | setTrustLevel (fingerprint : Fingerprint) (level : TrustLevel)
  | setVerified (fingerprint : Fingerprint) (verified : Bool)
  | setFavorite (fingerprint : Fingerprint) (favorite : Bool)
  | setBlocked (fingerprint : Fingerprint) (blocked : Bool)
  | cleanupOldIdentities (maxAgeMs : ℕ)
  | removeIdentity (fingerprint : Fingerprint)
  | panicClearAllData

def IdentityOp.isPanicClear : IdentityOp → Bool
  | .panicClearAllData => true
  | _ => false

/-- A call with its time and the random nonce that it draws when it saves. -/
structure IdentityInput where
  op : IdentityOp
  now : ℕ
  nonce : List.Vector UInt8 12

namespace IdentityLibrary

variable {S : Type} (lib : IdentityLibrary S)

/-- The nonce, the tag and the ciphertext. -/
def encryptData (data : Bytes) (key : Key32) (nonce : List.Vector UInt8 12) :
    Outcome IdentityError Bytes :=
  match lib.aesGcm.encrypt key nonce data with
  | some (tag, ciphertext) => .ok (nonce.toList ++ tag.toList ++ ciphertext)
  | none => fail (.encryption "Encryption failed")

def decryptData (encrypted : Bytes) (key : Key32) : Outcome IdentityError Bytes :=
  if encrypted.length < 28 then fail (.decryption "Invalid encrypted data length")
  else
    match lib.aesGcm.decrypt key (encrypted.take 12) ((encrypted.drop 12).take 16)
      (encrypted.drop 28) with
    | some data => .ok data
    | none => fail (.decryption "Decryption failed")

end IdentityLibrary

namespace SecureIdentityStateManager

variable {S : Type} (lib : IdentityLibrary S)

def keyName : String := "identity_cache_encryption_key"

def cacheName : String := "identity_cache"

def maxEphemeralAgeMs : ℕ := 3600000

def cacheSaveIntervalMs : ℕ := 2000

/-- Takes the stored key if it has 32 bytes, and else stores a new one. -/
def ensureEncryptionKey (m : SecureIdentityStateManager S) (fresh : Key32) :
    Call IdentityError (SecureIdentityStateManager S) Unit :=
  match lib.storage.retrieve m.storage keyName with
  | .error e => (m, fail (.storage e))
  | .ok found =>
    match found.bind fun data =>
      if h : data.length = 32 then some (⟨data, h⟩ : Key32) else none with
    | some key => ({ m with cacheEncryptionKey := some key }, .ok ())
    | none =>
      match lib.storage.store m.storage keyName fresh.toList with
      | (storage, .error e) => ({ m with storage := storage }, fail (.storage e))
      | (storage, .ok ()) =>
        ({ m with storage := storage, cacheEncryptionKey := some fresh }, .ok ())

/-- The cache that the stored bytes hold, if they decrypt and deserialize. -/
def decodeCache (encrypted : Bytes) (key : Key32) : Option IdentityCache :=
  match lib.decryptData encrypted key with
  | .error _ => none
  | .ok data => (lib.bincode.deserialize data).toOption

/-- Starts with an empty cache when there is none to load. -/
def loadCache (m : SecureIdentityStateManager S) :
    Call IdentityError (SecureIdentityStateManager S) Unit :=
  match lib.storage.retrieve m.storage cacheName with
  | .error e => (m, fail (.storage e))
  | .ok found =>
    let loaded := found.bind fun encrypted =>
      m.cacheEncryptionKey.bind fun key => decodeCache lib encrypted key
    ({ m with identityCache := loaded.getD IdentityCache.new }, .ok ())

def withStorage (storage : S) (now : ℕ) (fresh : Key32) :
    Call IdentityError (SecureIdentityStateManager S) Unit :=
  let m : SecureIdentityStateManager S := ⟨∅, IdentityCache.new, storage, none, now, false⟩
  (ensureEncryptionKey lib m fresh).andThen fun m _ => loadCache lib m

/-- Does nothing without a key. -/
def saveCacheNow (m : SecureIdentityStateManager S) (now : ℕ) (nonce : List.Vector UInt8 12) :
    Call IdentityError (SecureIdentityStateManager S) Unit :=
  match m.cacheEncryptionKey with
  | none => (m, .ok ())
  | some key =>
    match lib.bincode.serialize m.identityCache with
    | .error _ => (m, fail (.serialization "Failed to serialize identity cache"))
    | .ok serialized =>
      match lib.encryptData serialized key nonce with
      | .error e => (m, .error e)
      | .ok encrypted =>
        match lib.storage.store m.storage cacheName encrypted with
        | (storage, .error e) => ({ m with storage := storage }, fail (.storage e))
        | (storage, .ok ()) =>
          ({ m with storage := storage, cacheDirty := false, lastCacheSave := now }, .ok ())

def saveCacheIfNeeded (m : SecureIdentityStateManager S) (now : ℕ)
    (nonce : List.Vector UInt8 12) : Call IdentityError (SecureIdentityStateManager S) Unit :=
  if ! m.cacheDirty then (m, .ok ())
  else if now - m.lastCacheSave < cacheSaveIntervalMs then (m, .ok ())
  else saveCacheNow lib m now nonce

/-- `Drop`: what is left in the storage. -/
def drop (m : SecureIdentityStateManager S) (now : ℕ) (nonce : List.Vector UInt8 12) : S :=
  (saveCacheNow lib m now nonce).1.storage

/-- A changed cache is marked dirty and saved if it is time. -/
def commit (m : SecureIdentityStateManager S) (cache : IdentityCache) (now : ℕ)
    (nonce : List.Vector UInt8 12) : Call IdentityError (SecureIdentityStateManager S) Unit :=
  saveCacheIfNeeded lib { m with identityCache := cache, cacheDirty := true } now nonce

def getEphemeralIdentityMut (m : SecureIdentityStateManager S) (peerId : PeerId)
    (edit : EphemeralIdentity → EphemeralIdentity) : SecureIdentityStateManager S :=
  match m.ephemeralSessions.lookup peerId with
  | some ephemeral =>
    { m with ephemeralSessions := m.ephemeralSessions.insert peerId (edit ephemeral) }
  | none => m

def cleanupEphemeralSessions (m : SecureIdentityStateManager S) (now : ℕ) :
    SecureIdentityStateManager S :=
  { m with ephemeralSessions := Map.retain (fun _ ephemeral =>
      now - maxEphemeralAgeMs ≤ ephemeral.sessionStart) m.ephemeralSessions }

def updateLastHandshake (m : SecureIdentityStateManager S) (fingerprint : Fingerprint) (now : ℕ)
    (nonce : List.Vector UInt8 12) : Call IdentityError (SecureIdentityStateManager S) Unit :=
  if fingerprint ∈ m.identityCache.cryptographicIdentities then
    commit lib m (m.identityCache.updateLastHandshake fingerprint now) now nonce
  else (m, .ok ())

def updateHandshakeState (m : SecureIdentityStateManager S) (peerId : PeerId)
    (state : HandshakeState) (now : ℕ) (nonce : List.Vector UInt8 12) :
    Call IdentityError (SecureIdentityStateManager S) Unit :=
  match m.ephemeralSessions.lookup peerId with
  | none => (m, fail (.invalidPeerId "Ephemeral identity not found"))
  | some ephemeral =>
    let m := { m with ephemeralSessions :=
      m.ephemeralSessions.insert peerId (ephemeral.setHandshakeState state now) }
    match state.fingerprint with
    | some fingerprint => updateLastHandshake lib m fingerprint now nonce
    | none => (m, .ok ())

/-- Marks the cache dirty only when the identity is new, and does not save. -/
def getOrCreateSocialIdentity (m : SecureIdentityStateManager S) (fingerprint : Fingerprint)
    (edit : SocialIdentity → SocialIdentity) (now : ℕ) : SecureIdentityStateManager S :=
  { m with
    identityCache := m.identityCache.editSocial fingerprint edit now
    cacheDirty := m.cacheDirty || fingerprint ∉ m.identityCache.socialIdentities }

def updateSocialIdentity (m : SecureIdentityStateManager S) (fingerprint : Fingerprint)
    (updateFn : SocialIdentity → SocialIdentity) (now : ℕ) (nonce : List.Vector UInt8 12) :
    Call IdentityError (SecureIdentityStateManager S) Unit :=
  commit lib m (m.identityCache.editSocial fingerprint updateFn now) now nonce

def panicClearAllData (m : SecureIdentityStateManager S) :
    Call IdentityError (SecureIdentityStateManager S) Unit :=
  let m := { m with
    ephemeralSessions := ∅
    identityCache := IdentityCache.new
    cacheEncryptionKey := none
    cacheDirty := false }
  match lib.storage.clearAll m.storage with
  | (storage, .error e) => ({ m with storage := storage }, fail (.storage e))
  | (storage, .ok ()) => ({ m with storage := storage }, .ok ())

def step (m : SecureIdentityStateManager S) (i : IdentityInput) :
    Call IdentityError (SecureIdentityStateManager S) Unit :=
  match i.op with
  | .registerEphemeralIdentity peerId edit =>
    ({ m with ephemeralSessions :=
        m.ephemeralSessions.insert peerId (edit (EphemeralIdentity.new peerId i.now)) }, .ok ())
  | .getEphemeralIdentityMut peerId edit => (m.getEphemeralIdentityMut peerId edit, .ok ())
  | .updateHandshakeState peerId state => updateHandshakeState lib m peerId state i.now i.nonce
  | .cleanupEphemeralSessions => (m.cleanupEphemeralSessions i.now, .ok ())
  | .upsertCryptographicIdentity identity =>
    commit lib m (m.identityCache.upsertCryptographicIdentity identity) i.now i.nonce
  | .updateLastHandshake fingerprint => updateLastHandshake lib m fingerprint i.now i.nonce
  | .createCryptographicIdentity noisePublicKey signingPublicKey =>
    commit lib m (m.identityCache.upsertCryptographicIdentity
      (.new lib.sha256 noisePublicKey signingPublicKey i.now)) i.now i.nonce
  | .getOrCreateSocialIdentity fingerprint edit =>
    (m.getOrCreateSocialIdentity fingerprint edit i.now, .ok ())
  | .updateSocialIdentity fingerprint updateFn =>
    updateSocialIdentity lib m fingerprint updateFn i.now i.nonce
  | .setNickname fingerprint nickname =>
    updateSocialIdentity lib m fingerprint (.setClaimedNickname nickname i.now) i.now i.nonce
  | .setPetname fingerprint petname =>
    updateSocialIdentity lib m fingerprint (.setPetname petname i.now) i.now i.nonce
  | .setTrustLevel fingerprint level =>
    updateSocialIdentity lib m fingerprint (.setTrustLevel level i.now) i.now i.nonce
  | .setVerified fingerprint verified =>
    commit lib m (m.identityCache.setVerified fingerprint verified) i.now i.nonce
  | .setFavorite fingerprint favorite =>
    updateSocialIdentity lib m fingerprint (.setFavorite favorite i.now) i.now i.nonce
  | .setBlocked fingerprint blocked =>
    updateSocialIdentity lib m fingerprint (.setBlocked blocked i.now) i.now i.nonce
  | .cleanupOldIdentities maxAgeMs =>
    commit lib (m.cleanupEphemeralSessions i.now)
      (m.identityCache.cleanupOldIdentities maxAgeMs i.now) i.now i.nonce
  | .removeIdentity fingerprint =>
    commit lib m (m.identityCache.removeIdentity fingerprint) i.now i.nonce
  | .panicClearAllData => panicClearAllData lib m

/-- What a call makes of the cache, whether or not it is saved. -/
def cacheAfter (m : SecureIdentityStateManager S) (i : IdentityInput) : IdentityCache :=
  let c := m.identityCache
  match i.op with
  | .registerEphemeralIdentity _ _ => c
  | .getEphemeralIdentityMut _ _ => c
  | .updateHandshakeState peerId state =>
    match m.ephemeralSessions.lookup peerId, state.fingerprint with
    | some _, some fingerprint => c.updateLastHandshake fingerprint i.now
    | _, _ => c
  | .cleanupEphemeralSessions => c
  | .upsertCryptographicIdentity identity => c.upsertCryptographicIdentity identity
  | .updateLastHandshake fingerprint => c.updateLastHandshake fingerprint i.now
  | .createCryptographicIdentity noisePublicKey signingPublicKey =>
    c.upsertCryptographicIdentity (.new lib.sha256 noisePublicKey signingPublicKey i.now)
  | .getOrCreateSocialIdentity fingerprint edit => c.editSocial fingerprint edit i.now
  | .updateSocialIdentity fingerprint updateFn => c.editSocial fingerprint updateFn i.now
  | .setNickname fingerprint nickname =>
    c.editSocial fingerprint (.setClaimedNickname nickname i.now) i.now
  | .setPetname fingerprint petname => c.editSocial fingerprint (.setPetname petname i.now) i.now
  | .setTrustLevel fingerprint level => c.editSocial fingerprint (.setTrustLevel level i.now) i.now
  | .setVerified fingerprint verified => c.setVerified fingerprint verified
  | .setFavorite fingerprint favorite =>
    c.editSocial fingerprint (.setFavorite favorite i.now) i.now
  | .setBlocked fingerprint blocked => c.editSocial fingerprint (.setBlocked blocked i.now) i.now
  | .cleanupOldIdentities maxAgeMs => c.cleanupOldIdentities maxAgeMs i.now
  | .removeIdentity fingerprint => c.removeIdentity fingerprint
  | .panicClearAllData => IdentityCache.new

variable {lib} {now : ℕ} {nonce : List.Vector UInt8 12}

/-- A call other than a panic clear sets the cache, keeps the key, and at most stores a
cache; the latter only with a key. -/
structure Changes (lib : IdentityLibrary S) (m : SecureIdentityStateManager S)
    (cache : IdentityCache) (m' : SecureIdentityStateManager S) : Prop where
  cache : m'.identityCache = cache
  key : m'.cacheEncryptionKey = m.cacheEncryptionKey
  storage : m'.storage = m.storage ∨ m.cacheEncryptionKey.isSome = true ∧
    ∃ encrypted, m'.storage = (lib.storage.store m.storage cacheName encrypted).1

variable (lib) in
theorem saveCacheNow_changes (m : SecureIdentityStateManager S) (now : ℕ)
    (nonce : List.Vector UInt8 12) :
    Changes lib m m.identityCache (saveCacheNow lib m now nonce).1 := by
  unfold saveCacheNow
  cases hkey : m.cacheEncryptionKey with
  | none => exact ⟨rfl, rfl, .inl rfl⟩
  | some key =>
    cases lib.bincode.serialize m.identityCache with
    | error e => exact ⟨rfl, rfl, .inl rfl⟩
    | ok serialized =>
      cases hencrypt : lib.encryptData serialized key nonce with
      | error e =>
        simp only [hencrypt]
        exact ⟨rfl, rfl, .inl rfl⟩
      | ok encrypted =>
        simp only [hencrypt]
        have withKey : m.cacheEncryptionKey.isSome = true := by rw [hkey]; rfl
        cases hstore : lib.storage.store m.storage cacheName encrypted with
        | mk storage result =>
          have stored : storage = (lib.storage.store m.storage cacheName encrypted).1 := by
            rw [hstore]
          cases result with
          | error e => exact ⟨rfl, hkey.symm, .inr ⟨withKey, encrypted, stored⟩⟩
          | ok u => exact ⟨rfl, hkey.symm, .inr ⟨withKey, encrypted, stored⟩⟩

theorem commit_changes (m : SecureIdentityStateManager S) (cache : IdentityCache) :
    Changes lib m cache (commit lib m cache now nonce).1 := by
  unfold commit saveCacheIfNeeded
  split_ifs
  · exact ⟨rfl, rfl, .inl rfl⟩
  · exact ⟨rfl, rfl, .inl rfl⟩
  · obtain ⟨sameCache, sameKey, storage⟩ :=
      saveCacheNow_changes lib { m with identityCache := cache, cacheDirty := true } now nonce
    exact ⟨sameCache, sameKey, storage⟩

theorem updateLastHandshake_changes (m : SecureIdentityStateManager S)
    (fingerprint : Fingerprint) :
    Changes lib m (m.identityCache.updateLastHandshake fingerprint now)
      (updateLastHandshake lib m fingerprint now nonce).1 := by
  unfold updateLastHandshake
  by_cases known : fingerprint ∈ m.identityCache.cryptographicIdentities
  · rw [if_pos known]
    exact commit_changes m _
  · rw [if_neg known, IdentityCache.updateLastHandshake, Finmap.lookup_eq_none.mpr known]
    exact ⟨rfl, rfl, .inl rfl⟩

theorem updateHandshakeState_changes (m : SecureIdentityStateManager S) (peerId : PeerId)
    (state : HandshakeState) :
    Changes lib m (cacheAfter lib m ⟨.updateHandshakeState peerId state, now, nonce⟩)
      (updateHandshakeState lib m peerId state now nonce).1 := by
  simp only [updateHandshakeState, cacheAfter]
  cases m.ephemeralSessions.lookup peerId with
  | none => exact ⟨rfl, rfl, .inl rfl⟩
  | some ephemeral =>
    cases state.fingerprint with
    | none => exact ⟨rfl, rfl, .inl rfl⟩
    | some fingerprint =>
      let sessions := m.ephemeralSessions.insert peerId (ephemeral.setHandshakeState state now)
      let updated := { m with ephemeralSessions := sessions }
      have changes : Changes lib updated (updated.identityCache.updateLastHandshake fingerprint now)
          (updateLastHandshake lib updated fingerprint now nonce).1 :=
        updateLastHandshake_changes updated fingerprint
      exact ⟨changes.1, changes.2, changes.3⟩

theorem getEphemeralIdentityMut_changes (m : SecureIdentityStateManager S) (peerId : PeerId)
    (edit : EphemeralIdentity → EphemeralIdentity) :
    Changes lib m m.identityCache (m.getEphemeralIdentityMut peerId edit) := by
  unfold getEphemeralIdentityMut
  cases m.ephemeralSessions.lookup peerId with
  | none => exact ⟨rfl, rfl, .inl rfl⟩
  | some ephemeral => exact ⟨rfl, rfl, .inl rfl⟩

theorem step_changes (m : SecureIdentityStateManager S) (i : IdentityInput)
    (h : i.op.isPanicClear = false) : Changes lib m (cacheAfter lib m i) (step lib m i).1 := by
  obtain ⟨op, now, nonce⟩ := i
  cases op with
  | registerEphemeralIdentity peerId edit => exact ⟨rfl, rfl, .inl rfl⟩
  | getEphemeralIdentityMut peerId edit => exact getEphemeralIdentityMut_changes m peerId edit
  | updateHandshakeState peerId state => exact updateHandshakeState_changes m peerId state
  | cleanupEphemeralSessions => exact ⟨rfl, rfl, .inl rfl⟩
  | upsertCryptographicIdentity identity => exact commit_changes m _
  | updateLastHandshake fingerprint => exact updateLastHandshake_changes m fingerprint
  | createCryptographicIdentity noisePublicKey signingPublicKey => exact commit_changes m _
  | getOrCreateSocialIdentity fingerprint edit => exact ⟨rfl, rfl, .inl rfl⟩
  | updateSocialIdentity fingerprint updateFn => exact commit_changes m _
  | setNickname fingerprint nickname => exact commit_changes m _
  | setPetname fingerprint petname => exact commit_changes m _
  | setTrustLevel fingerprint level => exact commit_changes m _
  | setVerified fingerprint verified => exact commit_changes m _
  | setFavorite fingerprint favorite => exact commit_changes m _
  | setBlocked fingerprint blocked => exact commit_changes m _
  | cleanupOldIdentities maxAgeMs =>
    have changes : Changes lib (m.cleanupEphemeralSessions now) _
        (commit lib (m.cleanupEphemeralSessions now)
          (m.identityCache.cleanupOldIdentities maxAgeMs now) now nonce).1 := commit_changes _ _
    exact ⟨changes.1, changes.2, changes.3⟩
  | removeIdentity fingerprint => exact commit_changes m _
  | panicClearAllData => cases h

variable (lib) in
/-- A panic clear drops the key as well. -/
theorem panicClearAllData_spec (m : SecureIdentityStateManager S) :
    (panicClearAllData lib m).1.identityCache = IdentityCache.new ∧
      (panicClearAllData lib m).1.cacheEncryptionKey = none ∧
      (panicClearAllData lib m).1.storage = (lib.storage.clearAll m.storage).1 := by
  simp only [panicClearAllData]
  cases hclear : lib.storage.clearAll m.storage with
  | mk storage result =>
    cases result with
    | error e => exact ⟨rfl, rfl, rfl⟩
    | ok u => exact ⟨rfl, rfl, rfl⟩

/-- What a call makes of the cache does not depend on saving. -/
theorem identityCache_step (m : SecureIdentityStateManager S) (i : IdentityInput) :
    (step lib m i).1.identityCache = cacheAfter lib m i := by
  cases h : i.op.isPanicClear with
  | false => exact (step_changes m i h).cache
  | true =>
    obtain ⟨op, now, nonce⟩ := i
    cases op <;> cases h
    exact (panicClearAllData_spec lib m).1

end SecureIdentityStateManager

end Bitchat
