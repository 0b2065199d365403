import Bitchat.Identity

/-!
# Identities across a restart

A manager that is dropped and opened again on the same storage has the cache that
it had before, as long as it has a key to save it with. A panic clear takes the key
away, and nothing makes a new one until the restart.
-/
namespace Bitchat
open Rust

/-- Storage returns what was last stored under a name and not cleared. -/
structure SecureStorage.Lawful {S : Type} (st : SecureStorage S) : Prop where
  retrieve_ok : ∀ s name, ∃ found, st.retrieve s name = .ok found
  store_ok : ∀ s name data, (st.store s name data).2 = .ok ()
  retrieve_store : ∀ s name data other, st.retrieve (st.store s name data).1 other =
    if other = name then .ok (some data) else st.retrieve s other
  retrieve_clearAll : ∀ s name, st.retrieve (st.clearAll s).1 name = .ok none

/-- Decryption undoes encryption under the same key. -/
def AesGcm.Lawful (aes : AesGcm) : Prop :=
  ∀ {key nonce data tag ciphertext}, aes.encrypt key nonce data = some (tag, ciphertext) →
    aes.decrypt key nonce.toList tag.toList ciphertext = some data

namespace IdentityLibrary

variable {S : Type}

structure Lawful (lib : IdentityLibrary S) : Prop where
  storage : lib.storage.Lawful
  aesGcm : lib.aesGcm.Lawful
  bincode : lib.bincode.RoundTrips

/-- The cache serializes and its bytes are not too many to be encrypted. -/
def Savable (lib : IdentityLibrary S) (cache : IdentityCache) : Prop :=
  ∃ data, lib.bincode.serialize cache = .ok data ∧
    ∀ key nonce, ∃ sealedData, lib.aesGcm.encrypt key nonce data = some sealedData

variable {lib : IdentityLibrary S}

theorem decryptData_encryptData (lawful : lib.aesGcm.Lawful) {data encrypted : Bytes}
    {key : Key32} {nonce : List.Vector UInt8 12}
    (h : lib.encryptData data key nonce = .ok encrypted) :
    lib.decryptData encrypted key = .ok data := by
  unfold encryptData at h
  cases hencrypt : lib.aesGcm.encrypt key nonce data with
  | none => simp [hencrypt] at h
  | some sealedData =>
    obtain ⟨tag, ciphertext⟩ := sealedData
    rw [hencrypt] at h
    have bytes : nonce.toList ++ (tag.toList ++ ciphertext) = encrypted := by
      rw [← List.append_assoc]
      exact Except.ok.inj h
    have front : encrypted.take 12 = nonce.toList := by
      rw [← bytes]
      exact List.take_left' nonce.toList_length
    have back : encrypted.drop 12 = tag.toList ++ ciphertext := by
      rw [← bytes]
      exact List.drop_left' nonce.toList_length
    have middle : (encrypted.drop 12).take 16 = tag.toList := by
      rw [back]
      exact List.take_left' tag.toList_length
    have last : encrypted.drop 28 = ciphertext := by
      rw [show encrypted.drop 28 = (encrypted.drop 12).drop 16 by rw [List.drop_drop], back]
      exact List.drop_left' tag.toList_length
    have long : ¬ encrypted.length < 28 := by
      rw [← bytes]
      simp only [List.length_append, List.Vector.toList_length]
      omega
    rw [decryptData, if_neg long, front, middle, last, lawful hencrypt]

end IdentityLibrary

namespace SecureIdentityStateManager

variable {S : Type} {lib : IdentityLibrary S} {m : SecureIdentityStateManager S}

/-- Opening the storage that the dropped manager leaves behind gives its cache back. -/
def Survives (lib : IdentityLibrary S) (m : SecureIdentityStateManager S) : Prop :=
  ∀ now nonce later fresh, (withStorage lib (drop lib m now nonce) later fresh).2 = .ok () ∧
    (withStorage lib (drop lib m now nonce) later fresh).1.identityCache = m.identityCache

/-- The key is stored, and without a key nothing is. -/
structure Stored (lib : IdentityLibrary S) (m : SecureIdentityStateManager S) : Prop where
  key : ∀ key, m.cacheEncryptionKey = some key →
    lib.storage.retrieve m.storage keyName = .ok (some key.toList)
  cleared : m.cacheEncryptionKey = none → ∀ name, lib.storage.retrieve m.storage name = .ok none

theorem keyName_ne_cacheName : keyName ≠ cacheName := by decide

section

variable {storage : S} {now : ℕ} {fresh : Key32}

/-- A stored key is taken. -/
theorem withStorage_of_key {key : Key32}
    (hkey : lib.storage.retrieve storage keyName = .ok (some key.toList)) {found : Option Bytes}
    (hcache : lib.storage.retrieve storage cacheName = .ok found) :
    withStorage lib storage now fresh = (⟨∅,
      (found.bind fun encrypted => decodeCache lib encrypted key).getD IdentityCache.new, storage,
      some key, now, false⟩, .ok ()) := by
  have whole : (some key.toList).bind (fun data => if h : data.length = 32 then
      some (⟨data, h⟩ : Key32) else none) = some key := by
    rw [Option.bind_some, dif_pos key.toList_length]
    rfl
  simp only [withStorage, ensureEncryptionKey, hkey, whole, Call.andThen_ok, loadCache, hcache,
    Option.bind_some]

/-- Without one, a new one is stored. -/
theorem withStorage_of_empty (lawful : lib.storage.Lawful)
    (empty : ∀ name, lib.storage.retrieve storage name = .ok none) :
    withStorage lib storage now fresh = (⟨∅, IdentityCache.new,
      (lib.storage.store storage keyName fresh.toList).1, some fresh, now, false⟩, .ok ()) := by
  have stored : lib.storage.store storage keyName fresh.toList =
      ((lib.storage.store storage keyName fresh.toList).1, .ok ()) :=
    Prod.ext rfl (lawful.store_ok storage keyName fresh.toList)
  have noCache : lib.storage.retrieve (lib.storage.store storage keyName fresh.toList).1
      cacheName = .ok none := by
    rw [lawful.retrieve_store, if_neg keyName_ne_cacheName.symm, empty]
  simp only [withStorage, ensureEncryptionKey, empty, Option.bind_none]
  rw [stored]
  simp only [Call.andThen_ok, loadCache, noCache, Option.bind_none, Option.getD_none]

end

/-- With a key the whole cache is saved. -/
theorem survives_of_key (lawful : lib.Lawful) (stored : Stored lib m)
    (savable : lib.Savable m.identityCache) {key : Key32}
    (hkey : m.cacheEncryptionKey = some key) : Survives lib m := by
  intro now nonce later fresh
  obtain ⟨data, hserialize, hseal⟩ := savable
  obtain ⟨sealedData, hencrypt⟩ := hseal key nonce
  obtain ⟨encrypted, hencrypted⟩ : ∃ encrypted, lib.encryptData data key nonce = .ok encrypted := by
    rw [IdentityLibrary.encryptData, hencrypt]
    exact ⟨_, rfl⟩
  have storage : drop lib m now nonce =
      (lib.storage.store m.storage cacheName encrypted).1 := by
    simp only [drop, saveCacheNow, hkey, hserialize, hencrypted]
    rcases hstore : lib.storage.store m.storage cacheName encrypted with ⟨storage, e | u⟩
    · rfl
    · rfl
  have keyThere : lib.storage.retrieve (drop lib m now nonce) keyName = .ok (some key.toList) := by
    rw [storage, lawful.storage.retrieve_store, if_neg keyName_ne_cacheName, stored.key key hkey]
  have cacheThere : lib.storage.retrieve (drop lib m now nonce) cacheName =
      .ok (some encrypted) := by
    rw [storage, lawful.storage.retrieve_store, if_pos rfl]
  have decoded : decodeCache lib encrypted key = some m.identityCache := by
    rw [decodeCache, IdentityLibrary.decryptData_encryptData lawful.aesGcm hencrypted]
    simp only [lawful.bincode _ _ hserialize]
    rfl
  rw [withStorage_of_key keyThere cacheThere, Option.bind_some, decoded]
  exact ⟨rfl, rfl⟩

/-- Without a key nothing is saved, so that only an empty cache survives. -/
theorem survives_iff_of_no_key (lawful : lib.Lawful) (stored : Stored lib m)
    (hkey : m.cacheEncryptionKey = none) :
    Survives lib m ↔ m.identityCache = IdentityCache.new := by
  have opened : ∀ now nonce later fresh, (withStorage lib (drop lib m now nonce) later fresh) =
      (⟨∅, IdentityCache.new, (lib.storage.store m.storage keyName fresh.toList).1, some fresh,
        later, false⟩, .ok ()) := by
    intro now nonce later fresh
    have storage : drop lib m now nonce = m.storage := by
      simp only [drop, saveCacheNow, hkey]
    rw [storage]
    exact withStorage_of_empty lawful.storage (stored.cleared hkey)
  constructor
  · intro survives
    have same := (survives 0 (List.Vector.replicate 12 0) 0 (List.Vector.replicate 32 0)).2
    rw [opened] at same
    exact same.symm
  · intro empty now nonce later fresh
    rw [opened, empty]
    exact ⟨rfl, rfl⟩

theorem survives_iff (lawful : lib.Lawful) (stored : Stored lib m)
    (savable : lib.Savable m.identityCache) :
    Survives lib m ↔ (m.cacheEncryptionKey = none → m.identityCache = IdentityCache.new) := by
  cases hkey : m.cacheEncryptionKey with
  | none =>
    rw [survives_iff_of_no_key lawful stored hkey]
    simp
  | some key =>
    refine iff_of_true (survives_of_key lawful stored savable hkey) ?_
    intro h
    cases h

theorem Stored.changes (lawful : lib.storage.Lawful) (stored : Stored lib m)
    {cache : IdentityCache} {m' : SecureIdentityStateManager S} (h : Changes lib m cache m') :
    Stored lib m' := by
  obtain ⟨-, sameKey, storage⟩ := h
  rcases storage with same | ⟨withKey, encrypted, stores⟩
  · constructor
    · rw [sameKey, same]
      exact stored.key
    · rw [sameKey, same]
      exact stored.cleared
  · constructor
    · intro key hkey
      rw [stores, lawful.retrieve_store, if_neg keyName_ne_cacheName]
      exact stored.key key (sameKey ▸ hkey)
    · intro hkey
      rw [← sameKey, hkey] at withKey
      cases withKey

theorem Stored.step (lawful : lib.storage.Lawful) (stored : Stored lib m) (i : IdentityInput) :
    Stored lib (step lib m i).1 := by
  cases h : i.op.isPanicClear with
  | false => exact stored.changes lawful (step_changes m i h)
  | true =>
    obtain ⟨op, now, nonce⟩ := i
    cases op <;> cases h
    obtain ⟨-, noKey, cleared⟩ := panicClearAllData_spec lib m
    constructor
    · intro key hkey
      cases noKey.symm.trans hkey
    · intro _ name
      change lib.storage.retrieve (panicClearAllData lib m).1.storage name = _
      rw [cleared, lawful.retrieve_clearAll]

variable (lib) in
theorem loadCache_frame (m : SecureIdentityStateManager S) :
    (loadCache lib m).1.storage = m.storage ∧
      (loadCache lib m).1.cacheEncryptionKey = m.cacheEncryptionKey := by
  unfold loadCache
  cases lib.storage.retrieve m.storage cacheName with
  | error e => exact ⟨rfl, rfl⟩
  | ok found => exact ⟨rfl, rfl⟩

/-- The key that is ensured is the stored one. -/
theorem ensureEncryptionKey_stores (lawful : lib.storage.Lawful)
    (m : SecureIdentityStateManager S) (fresh : Key32) :
    (ensureEncryptionKey lib m fresh).2 = .ok () ∧
      ∃ key, (ensureEncryptionKey lib m fresh).1.cacheEncryptionKey = some key ∧
        lib.storage.retrieve (ensureEncryptionKey lib m fresh).1.storage keyName =
          .ok (some key.toList) := by
  obtain ⟨found, hfound⟩ := lawful.retrieve_ok m.storage keyName
  have stored : lib.storage.store m.storage keyName fresh.toList =
      ((lib.storage.store m.storage keyName fresh.toList).1, .ok ()) :=
    Prod.ext rfl (lawful.store_ok m.storage keyName fresh.toList)
  have freshThere : lib.storage.retrieve (lib.storage.store m.storage keyName fresh.toList).1
      keyName = .ok (some fresh.toList) := by
    rw [lawful.retrieve_store, if_pos rfl]
  unfold ensureEncryptionKey
  rw [hfound, stored]
  cases hwhole : found.bind (fun data => if h : data.length = 32 then
      some (⟨data, h⟩ : Key32) else none) with
  | none =>
    simp only [hwhole]
    exact ⟨trivial, fresh, rfl, freshThere⟩
  | some key =>
    simp only [hwhole]
    refine ⟨trivial, key, rfl, ?_⟩
    obtain ⟨data, hdata, hkey⟩ := Option.bind_eq_some_iff.mp hwhole
    split_ifs at hkey with whole
    rw [hfound, hdata, ← Option.some.inj hkey]
    rfl

theorem stored_withStorage (lawful : lib.storage.Lawful) (storage : S) (now : ℕ) (fresh : Key32) :
    Stored lib (withStorage lib storage now fresh).1 ∧
      (withStorage lib storage now fresh).1.cacheEncryptionKey ≠ none := by
  obtain ⟨done, key, hkey, there⟩ := ensureEncryptionKey_stores lawful
    (⟨∅, IdentityCache.new, storage, none, now, false⟩ : SecureIdentityStateManager S) fresh
  rw [withStorage, Call.andThen_of_ok _ done]
  obtain ⟨sameStorage, sameKey⟩ := loadCache_frame lib (ensureEncryptionKey lib
    (⟨∅, IdentityCache.new, storage, none, now, false⟩ : SecureIdentityStateManager S) fresh).1
  have hkey' := sameKey.trans hkey
  refine ⟨⟨?_, ?_⟩, ?_⟩
  · intro key' h
    cases hkey'.symm.trans h
    rw [sameStorage, there]
  · intro h
    cases hkey'.symm.trans h
  · rw [hkey']
    simp

end SecureIdentityStateManager

/-- The call puts something into an empty cache. -/
def IdentityOp.adds : IdentityOp → Bool
  | .upsertCryptographicIdentity _ => true
  | .createCryptographicIdentity _ _ => true
  | .getOrCreateSocialIdentity _ _ => true
  | .updateSocialIdentity _ _ => true
  | .setNickname _ _ => true
  | .setPetname _ _ => true
  | .setTrustLevel _ _ => true
  | .setVerified _ verified => verified
  | .setFavorite _ _ => true
  | .setBlocked _ _ => true
  | _ => false

namespace IdentityCache

theorem updateLastHandshake_new (fingerprint : Fingerprint) (now : ℕ) :
    new.updateLastHandshake fingerprint now = new := by
  rw [updateLastHandshake, new, Finmap.lookup_empty]

theorem editSocial_ne_new (c : IdentityCache) (fingerprint : Fingerprint)
    (edit : SocialIdentity → SocialIdentity) (now : ℕ) :
    c.editSocial fingerprint edit now ≠ new := by
  intro h
  have there := congrArg (fun c => c.socialIdentities.lookup fingerprint) h
  simp [editSocial, new] at there

theorem upsertCryptographicIdentity_ne_new (c : IdentityCache) (identity : CryptographicIdentity) :
    c.upsertCryptographicIdentity identity ≠ new := by
  intro h
  have there := congrArg (fun c => c.cryptographicIdentities.lookup identity.fingerprint) h
  simp [upsertCryptographicIdentity, new] at there

theorem setVerified_new_iff (fingerprint : Fingerprint) (verified : Bool) :
    new.setVerified fingerprint verified = new ↔ verified = false := by
  cases verified with
  | false => simp [setVerified, new]
  | true => simp [setVerified, new]

theorem cleanupOldIdentities_new (maxAge now : ℕ) : new.cleanupOldIdentities maxAge now = new := by
  rfl

theorem removeIdentity_new (fingerprint : Fingerprint) : new.removeIdentity fingerprint = new := by
  rw [removeIdentity, new, Map.erase_of_notMem Finmap.notMem_empty,
    Map.erase_of_notMem Finmap.notMem_empty]
  rfl

end IdentityCache

namespace SecureIdentityStateManager

variable {S : Type} {lib : IdentityLibrary S} {m : SecureIdentityStateManager S}

/-- An empty cache stays empty exactly under the calls that add nothing. -/
theorem cacheAfter_new_iff (i : IdentityInput) (empty : m.identityCache = IdentityCache.new) :
    cacheAfter lib m i = IdentityCache.new ↔ i.op.adds = false := by
  obtain ⟨op, now, nonce⟩ := i
  have edits : ∀ fingerprint edit,
      m.identityCache.editSocial fingerprint edit now = IdentityCache.new ↔ true = false := by
    intro fingerprint edit
    exact iff_of_false (IdentityCache.editSocial_ne_new _ fingerprint edit now) (by simp)
  have inserts : ∀ identity,
      m.identityCache.upsertCryptographicIdentity identity = IdentityCache.new ↔ true = false := by
    intro identity
    exact iff_of_false (IdentityCache.upsertCryptographicIdentity_ne_new _ identity) (by simp)
  cases op with
  | registerEphemeralIdentity peerId edit => exact iff_of_true empty rfl
  | getEphemeralIdentityMut peerId edit => exact iff_of_true empty rfl
  | updateHandshakeState peerId state =>
    refine iff_of_true ?_ rfl
    simp only [cacheAfter, empty, IdentityCache.updateLastHandshake_new]
    split <;> rfl
  | cleanupEphemeralSessions => exact iff_of_true empty rfl
  | upsertCryptographicIdentity identity => exact inserts identity
  | updateLastHandshake fingerprint =>
    refine iff_of_true ?_ rfl
    simp only [cacheAfter, empty, IdentityCache.updateLastHandshake_new]
  | createCryptographicIdentity noisePublicKey signingPublicKey => exact inserts _
  | getOrCreateSocialIdentity fingerprint edit => exact edits fingerprint edit
  | updateSocialIdentity fingerprint updateFn => exact edits fingerprint updateFn
  | setNickname fingerprint nickname => exact edits fingerprint _
  | setPetname fingerprint petname => exact edits fingerprint _
  | setTrustLevel fingerprint level => exact edits fingerprint _
  | setVerified fingerprint verified =>
    simp only [cacheAfter, empty, IdentityOp.adds]
    exact IdentityCache.setVerified_new_iff fingerprint verified
  | setFavorite fingerprint favorite => exact edits fingerprint _
  | setBlocked fingerprint blocked => exact edits fingerprint _
  | cleanupOldIdentities maxAgeMs =>
    refine iff_of_true ?_ rfl
    simp only [cacheAfter, empty, IdentityCache.cleanupOldIdentities_new]
  | removeIdentity fingerprint =>
    refine iff_of_true ?_ rfl
    simp only [cacheAfter, empty, IdentityCache.removeIdentity_new]
  | panicClearAllData => exact iff_of_true rfl rfl

/-- Nothing is put into the cache of a manager without a key. -/
def AddsWithKey (m : SecureIdentityStateManager S) (i : IdentityInput) : Prop :=
  m.cacheEncryptionKey = none → i.op.adds = false

/-- What the next manager has to restore is empty if it has no key. -/
theorem empty_step_iff (i : IdentityInput)
    (empty : m.cacheEncryptionKey = none → m.identityCache = IdentityCache.new) :
    ((step lib m i).1.cacheEncryptionKey = none →
      (step lib m i).1.identityCache = IdentityCache.new) ↔ m.AddsWithKey i := by
  rw [identityCache_step]
  cases h : i.op.isPanicClear with
  | false =>
    rw [(step_changes m i h).key]
    exact forall_congr' fun noKey => cacheAfter_new_iff i (empty noKey)
  | true =>
    obtain ⟨op, now, nonce⟩ := i
    cases op <;> cases h
    exact iff_of_true (fun _ => rfl) fun _ => rfl

/-- The cache survives a restart in every state of the run. -/
def SurvivesThroughout (lib : IdentityLibrary S) (m : SecureIdentityStateManager S)
    (inputs : List IdentityInput) : Prop :=
  ∀ before rest, inputs = before ++ rest → Survives lib (run (step lib) m before)

/-- In every state of a run the cache survives a restart exactly if nothing is added after
a panic clear has dropped the key. -/
theorem survives_iff_addsWithKey (lib : IdentityLibrary S) (lawful : lib.Lawful) (storage : S)
    (now : ℕ) (fresh : Key32) (inputs : List IdentityInput)
    (savable : ∀ before rest, inputs = before ++ rest →
      lib.Savable (run (step lib) (withStorage lib storage now fresh).1 before).identityCache) :
    SurvivesThroughout lib (withStorage lib storage now fresh).1 inputs ↔
      Along (step lib) AddsWithKey (withStorage lib storage now fresh).1 inputs := by
  obtain ⟨stored, withKey⟩ := stored_withStorage lawful.storage storage now fresh
  have empty : (withStorage lib storage now fresh).1.cacheEncryptionKey = none →
      (withStorage lib storage now fresh).1.identityCache = IdentityCache.new :=
    fun noKey => absurd noKey withKey
  have start : Survives lib (withStorage lib storage now fresh).1 :=
    (survives_iff lawful stored (savable [] inputs rfl)).mpr empty
  have given : Along (step lib) (fun m i => lib.Savable (step lib m i).1.identityCache)
      (withStorage lib storage now fresh).1 inputs :=
    (throughout_iff_along (I := fun m : SecureIdentityStateManager S =>
      lib.Savable m.identityCache) (savable [] inputs rfl)).mp savable
  rw [SurvivesThroughout, throughout_iff_along start]
  refine along_iff (I := fun m => Stored lib m ∧
    (m.cacheEncryptionKey = none → m.identityCache = IdentityCache.new)) ?_ ?_ ⟨stored, empty⟩ given
  · intro m i ⟨stored, empty⟩ _ adds
    exact ⟨stored.step lawful.storage i, (empty_step_iff i empty).mpr adds⟩
  · intro m i ⟨stored, empty⟩ savable
    rw [survives_iff lawful (stored.step lawful.storage i) savable, empty_step_iff i empty]

end SecureIdentityStateManager

/-- `MemoryStorage`, which is available from the start on. -/
def memoryStorage : SecureStorage (Map String Bytes) where
  store data name bytes := (data.insert name bytes, .ok ())
  retrieve data name := .ok (data.lookup name)
  clearAll _ := (∅, .ok ())

theorem memoryStorage_lawful : memoryStorage.Lawful where
  retrieve_ok data name := ⟨_, rfl⟩
  store_ok _ _ _ := rfl
  retrieve_store data name bytes other := by
    simp only [memoryStorage, Map.lookup_insert_if]
    split_ifs <;> rfl
  retrieve_clearAll _ name := congrArg Except.ok (Finmap.lookup_empty name)

/-- The first half of the key serves as the tag. -/
def taggingCipher : AesGcm where
  encrypt key _ data := some (⟨key.toList.take 16, by simp⟩, data)
  decrypt key _ tag ciphertext := if tag = key.toList.take 16 then some ciphertext else none

theorem taggingCipher_lawful : taggingCipher.Lawful := by
  intro key nonce data tag ciphertext h
  obtain ⟨rfl, rfl⟩ := Prod.mk.inj (Option.some.inj h)
  exact if_pos rfl

def someFingerprint : Fingerprint := ⟨List.Vector.replicate 32 1⟩

/-- The cache in which the one fingerprint is verified. -/
def verifiedCache : IdentityCache := ⟨∅, ∅, [someFingerprint]⟩

/-- A library that can write two caches, each as three lengths and the fingerprints. -/
def smallLibrary : IdentityLibrary (Map String Bytes) where
  storage := memoryStorage
  aesGcm := taggingCipher
  bincode := Bincode.ofPairs [
    (IdentityCache.new, List.replicate 24 0),
    (verifiedCache, List.replicate 16 0 ++ Bincode.writeU64 1 ++ someFingerprint.bytes.toList)]
  sha256 _ := List.Vector.replicate 32 0

theorem smallLibrary_lawful : smallLibrary.Lawful where
  storage := memoryStorage_lawful
  aesGcm := taggingCipher_lawful
  bincode := Bincode.ofPairs_roundTrips (by decide)

def identityCall (op : IdentityOp) : IdentityInput := ⟨op, 0, List.Vector.replicate 12 0⟩

def openedManager : SecureIdentityStateManager (Map String Bytes) :=
  (SecureIdentityStateManager.withStorage smallLibrary ∅ 0 (List.Vector.replicate 32 7)).1

namespace SecureIdentityStateManager

/-- A verification is kept, and so is a panic clear after it. -/
theorem verified_then_cleared_survives :
    SurvivesThroughout smallLibrary openedManager
      [identityCall (.setVerified someFingerprint true), identityCall .panicClearAllData] := by
  apply (survives_iff_addsWithKey smallLibrary smallLibrary_lawful ∅ 0
    (List.Vector.replicate 32 7) _ ?_).mpr
  · refine ⟨?_, fun _ => rfl, trivial⟩
    intro noKey
    cases noKey
  · refine (throughout_iff_along (I := fun m : SecureIdentityStateManager (Map String Bytes) =>
      smallLibrary.Savable m.identityCache) ?_).mpr ⟨?_, ?_, trivial⟩
    · exact ⟨_, rfl, fun _ _ => ⟨_, rfl⟩⟩
    · exact ⟨_, rfl, fun _ _ => ⟨_, rfl⟩⟩
    · exact ⟨_, rfl, fun _ _ => ⟨_, rfl⟩⟩

/-- What is verified after a panic clear is lost. -/
theorem verified_after_clear_is_lost :
    smallLibrary.Lawful ∧
      ¬ SurvivesThroughout smallLibrary openedManager
        [identityCall .panicClearAllData, identityCall (.setVerified someFingerprint true)] := by
  refine ⟨smallLibrary_lawful, ?_⟩
  intro survives
  have same := (survives _ [] (List.append_nil _).symm 0 (List.Vector.replicate 12 0) 0
    (List.Vector.replicate 32 7)).2
  have verified := congrArg IdentityCache.verifiedFingerprints same
  exact absurd verified (by decide)

end SecureIdentityStateManager

end Bitchat
