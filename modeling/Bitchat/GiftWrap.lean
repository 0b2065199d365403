import Bitchat.NostrTransport
import Bitchat.Rust.Call

/-!
# Gift wrapping

`Nip17GiftWrapper` and `Nip17GiftUnwrapper` of `nip17.rs`. Keys, NIP-04, event
signatures and JSON belong to the Nostr library and are a parameter. What is
assumed of them is `NostrLibrary.Lawful`: decryption undoes encryption between
the two ends of one shared secret, and nowhere else. A wrapped message comes out
again exactly when the random recipient of the outer layer is the receiver.
-/
namespace Bitchat
open Rust

structure Nip17Content where
  content : Text
  expiration : Option Int64
  deriving DecidableEq

inductive Kind where
  | encryptedDirectMessage
  | giftWrap
  | other (code : UInt16)
  deriving DecidableEq

/-- A public key, and the secret key unless only the public one is known. -/
structure Keys (S P : Type) where
  publicKey : P
  secretKey : Except String S

/-- An event without its id and signature, which nothing here reads. -/
structure NostrEvent (P : Type) where
  pubkey : P
  createdAt : UInt64
  kind : Kind
  tags : List (List Text)
  content : Text
  deriving DecidableEq

/-- The Nostr library over its valid secret and public keys. `nip04::encrypt`
also takes the initialization vector that it draws. -/
structure NostrLibrary (S P : Type) where
  publicKey : S → P
  toBytes : P → Key32
  fromSlice : Bytes → Option P
  sharedSecret : S → P → Key32
  encrypt : S → P → List.Vector UInt8 16 → Text → Except String Text
  decrypt : S → P → Text → Except String Text
  sign : Keys S P → NostrEvent P → Except String Unit
  eventJson : Json (NostrEvent P)
  contentJson : Json Nip17Content

namespace NostrLibrary

variable {S P : Type} (nostr : NostrLibrary S P)

/-- `Keys::new`. -/
def keys (secret : S) : Keys S P := ⟨nostr.publicKey secret, .ok secret⟩

/-- `PublicKey::to_hex` and `PublicKey::from_hex`. -/
def toHex (p : P) : Text := hexDigits (nostr.toBytes p).toList

def fromHex (text : Text) : Option P := (hexDecode text).bind nostr.fromSlice

/-- Keys agree on a secret and the secret tells public keys apart; a text that
was encrypted for another secret decrypts to nothing that reads as an event. -/
structure Lawful : Prop where
  agree : ∀ a b, nostr.sharedSecret a (nostr.publicKey b) = nostr.sharedSecret b (nostr.publicKey a)
  separate : ∀ s p q, nostr.sharedSecret s p = nostr.sharedSecret s q → p = q
  fromSlice_toBytes : ∀ p, nostr.fromSlice (nostr.toBytes p).toList = some p
  decrypt_iff : ∀ {s p iv text sealedText}, nostr.encrypt s p iv text = .ok sealedText →
    ∀ s' p', nostr.decrypt s' p' sealedText = .ok text ↔
      nostr.sharedSecret s' p' = nostr.sharedSecret s p
  garbled : ∀ {s p iv text sealedText}, nostr.encrypt s p iv text = .ok sealedText →
    ∀ {s' p' other}, nostr.sharedSecret s' p' ≠ nostr.sharedSecret s p →
      nostr.decrypt s' p' sealedText = .ok other →
        ∀ event, nostr.eventJson.fromStr other ≠ .ok event
  event_roundTrips : nostr.eventJson.RoundTrips
  content_roundTrips : nostr.contentJson.RoundTrips

end NostrLibrary

abbrev NostrResult (α : Type) := Outcome NostrTransportError α

/-- A library error behind a message. -/
def mapEncryption {α : Type} (message : String) : Except String α → NostrResult α :=
  mapErr fun e => .encryptionFailed (message ++ e)

def mapJson {α : Type} (message : String) : Except String α → NostrResult α :=
  mapErr fun e => .deserializationFailed (message ++ e)

/-- `keys.secret_key()`. -/
def Keys.secret {S P : Type} (keys : Keys S P) : NostrResult S :=
  mapErr .keyOperationFailed keys.secretKey

section

variable {S P : Type} (nostr : NostrLibrary S P)

namespace Nip17Content

def toJson (content : Nip17Content) : NostrResult Text :=
  mapJson "JSON serialization failed: " (nostr.contentJson.toString content)

def fromJson (json : Text) : NostrResult Nip17Content :=
  mapJson "JSON deserialization failed: " (nostr.contentJson.fromStr json)

end Nip17Content

namespace NostrEvent

/-- `Tag::public_key` and `Tag::expiration`. -/
def publicKeyTag (p : P) : List Text := [['p'], nostr.toHex p]

def expirationTag (time : UInt64) : List Text :=
  ["expiration".toList, (toString time.toNat).toList]

/-- `EventBuilder::new(kind, content, tags).custom_created_at(..).to_event(keys)`. -/
def build (message : String) (keys : Keys S P) (kind : Kind) (content : Text)
    (tags : List (List Text)) (createdAt : UInt64) : NostrResult (NostrEvent P) := do
  let event : NostrEvent P := ⟨keys.publicKey, createdAt, kind, tags, content⟩
  mapEncryption message (nostr.sign keys event)
  pure event

/-- `event.as_json()`, which panics when the library reports an error. -/
def asJson (event : NostrEvent P) : NostrResult Text :=
  match nostr.eventJson.toString event with
  | .ok text => .ok text
  | .error _ => panicked

/-- The key in a tag of the form `["p", hex, ..]`. -/
def recipientOfTag : List Text → Option P
  | name :: hex :: _ => if name = ['p'] then nostr.fromHex hex else none
  | _ => none

end NostrEvent

/-- What wrapping draws and reads off the clock, in seconds. -/
structure WrapDraws (S : Type) where
  ephemeral : S
  randomRecipient : S
  contentIv : List.Vector UInt8 16
  giftIv : List.Vector UInt8 16
  now : ℤ
  expirationOffset : ℤ
  pastOffset : ℤ

structure Nip17GiftWrapper (S P : Type) where
  senderKeys : Keys S P
  ephemeralKeys : Option (Keys S P)

namespace Nip17GiftWrapper

def new (senderKeys : Keys S P) : Nip17GiftWrapper S P := ⟨senderKeys, none⟩

def generateEphemeralKeys (w : Nip17GiftWrapper S P) (ephemeral : S) : Nip17GiftWrapper S P :=
  { w with ephemeralKeys := some (nostr.keys ephemeral) }

/-- The inner event, encrypted for the recipient. A first, empty event is built
and thrown away. -/
def createInnerEvent (w : Nip17GiftWrapper S P) (content : Nip17Content) (recipientPubkey : P)
    (d : WrapDraws S) : NostrResult (NostrEvent P) := do
  let tags := [NostrEvent.publicKeyTag nostr recipientPubkey]
  let contentJson ← content.toJson nostr
  let _ ← NostrEvent.build nostr "Failed to create inner event: " w.senderKeys
    .encryptedDirectMessage [] tags (UInt64.ofInt d.now)
  let secretKey ← w.senderKeys.secret
  let encryptedContent ← mapEncryption "NIP-04 encryption failed: "
    (nostr.encrypt secretKey recipientPubkey d.contentIv contentJson)
  NostrEvent.build nostr "Failed to create inner DM event: " w.senderKeys .encryptedDirectMessage
    encryptedContent tags (UInt64.ofInt d.now)

/-- The outer event, encrypted for a random recipient. -/
def createOuterEvent (ephemeralKeys : Keys S P) (innerEventJson : Text) (d : WrapDraws S) :
    NostrResult (NostrEvent P) := do
  let randomRecipient := (nostr.keys d.randomRecipient).publicKey
  let ephemeralSecretKey ← ephemeralKeys.secret
  let giftWrappedContent ← mapEncryption "Gift-wrap encryption failed: "
    (nostr.encrypt ephemeralSecretKey randomRecipient d.giftIv innerEventJson)
  NostrEvent.build nostr "Failed to create gift-wrapped event: " ephemeralKeys .giftWrap
    giftWrappedContent
    [NostrEvent.publicKeyTag nostr randomRecipient,
      NostrEvent.expirationTag (UInt64.ofInt (d.now + d.expirationOffset))]
    (UInt64.ofInt (d.now - d.pastOffset))

def createGiftWrappedMessage (w : Nip17GiftWrapper S P) (content : Nip17Content)
    (recipientPubkey : P) (d : WrapDraws S) :
    Call NostrTransportError (Nip17GiftWrapper S P) (NostrEvent P) :=
  let w := w.generateEphemeralKeys nostr d.ephemeral
  (w, do
    let ephemeralKeys ← okOr w.ephemeralKeys (.encryptionFailed "No ephemeral keys")
    let innerDmEvent ← w.createInnerEvent nostr content recipientPubkey d
    let innerEventJson ← innerDmEvent.asJson nostr
    createOuterEvent nostr ephemeralKeys innerEventJson d)

end Nip17GiftWrapper

structure Nip17GiftUnwrapper (S P : Type) where
  receiverKeys : Keys S P

namespace Nip17GiftUnwrapper

/-- Both layers are decrypted with the receiver's key and the key of the event. -/
def unwrapGiftWrappedMessage (u : Nip17GiftUnwrapper S P) (outerEvent : NostrEvent P) :
    NostrResult (Option Nip17Content) :=
  if outerEvent.kind ≠ .giftWrap then .ok none
  else do
    let _ ← okOr (outerEvent.tags.findSome? (NostrEvent.recipientOfTag nostr))
      (.encryptionFailed "No recipient pubkey in gift wrap")
    let ourSecretKey ← u.receiverKeys.secret
    let decryptedOuter ← mapEncryption "Failed to decrypt gift wrap: "
      (nostr.decrypt ourSecretKey outerEvent.pubkey outerEvent.content)
    let innerEvent ← mapJson "Invalid inner event JSON: " (nostr.eventJson.fromStr decryptedOuter)
    failIf (innerEvent.kind ≠ .encryptedDirectMessage)
      (.encryptionFailed "Inner event is not a direct message")
    let decryptedInner ← mapEncryption "Failed to decrypt inner message: "
      (nostr.decrypt ourSecretKey innerEvent.pubkey innerEvent.content)
    let content ← Nip17Content.fromJson nostr decryptedInner
    pure (some content)

end Nip17GiftUnwrapper

end

section

variable {S P : Type} {nostr : NostrLibrary S P}

theorem NostrEvent.asJson_eq_ok {event : NostrEvent P} {text : Text}
    (h : event.asJson nostr = .ok text) : nostr.eventJson.toString event = .ok text := by
  unfold NostrEvent.asJson at h
  split at h
  · rename_i json hjson
    rw [hjson, Except.ok.inj h]
  · exact absurd h (panicked_ne_ok _)

namespace Nip17GiftWrapper

/-- A wrapped message is an outer event around the text of an inner event. -/
theorem createGiftWrappedMessage_eq_ok {w : Nip17GiftWrapper S P} {content : Nip17Content}
    {recipientPubkey : P} {d : WrapDraws S} {outer : NostrEvent P}
    (h : (w.createGiftWrappedMessage nostr content recipientPubkey d).2 = .ok outer) :
    ∃ inner json, (w.generateEphemeralKeys nostr d.ephemeral).createInnerEvent nostr content
        recipientPubkey d = .ok inner ∧ nostr.eventJson.toString inner = .ok json ∧
      createOuterEvent nostr (nostr.keys d.ephemeral) json d = .ok outer := by
  obtain ⟨keys, hkeys, h⟩ := bind_eq_ok.mp h
  obtain ⟨inner, hinner, h⟩ := bind_eq_ok.mp h
  obtain ⟨json, hjson, h⟩ := bind_eq_ok.mp h
  obtain rfl := Option.some.inj (okOr_eq_ok.mp hkeys)
  exact ⟨inner, json, hinner, NostrEvent.asJson_eq_ok hjson, h⟩

end Nip17GiftWrapper

namespace Nip17GiftUnwrapper

end Nip17GiftUnwrapper

end

namespace NostrLibrary

def greeting : Nip17Content := ⟨['h', 'i'], none⟩

end NostrLibrary

open NostrLibrary

end Bitchat
