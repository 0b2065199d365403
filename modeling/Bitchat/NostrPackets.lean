import Bitchat.GiftWrap
import Bitchat.Wire

/-!
# Packets over Nostr

A packet travels over Nostr as the Base64 text of its wire encoding behind
`bitchat1:`. The sender and the canonical embedding write URL-safe text without
padding, the content of a gift wrap is read as standard text with padding. A
private packet is encrypted to a key that is derived from the peer id, which in
turn is derived from the peer's own key. SHA-256 is a parameter.
-/
namespace Bitchat
open Rust

/-- `BITCHAT_NIP17_PREFIX` and `BITCHAT_EMBEDDING_PREFIX`. -/
def bitchatMark : Text := "bitchat1:".toList

/-- `BITCHAT_KIND`. -/
def bitchatKind : Kind := .other 30420

inductive EmbeddingStrategy where
  | privateMessage
  | publicGeohash
  | customKind (kind : UInt16)
  deriving DecidableEq

/-- The text behind the mark, if the mark is there. -/
def withoutMark (content : Text) : Option Text :=
  if bitchatMark.isPrefixOf content then some (content.drop bitchatMark.length) else none

@[simp] theorem withoutMark_append (text : Text) :
    withoutMark (bitchatMark ++ text) = some text := by
  simp [withoutMark]

/-- The packet in marked text, read with the given engine. -/
def readEmbedded (engine : Base64Engine) (invalidBase64 : String) (content : Text) :
    NostrResult (Option BitchatPacket) :=
  match withoutMark content with
  | none => .ok none
  | some base64Data => do
    let binaryData ← mapErr (fun e => .deserializationFailed (invalidBase64 ++ e))
      (engine.decode base64Data)
    let packet ← rewrap (fun e => .deserializationFailed ("Invalid wire format: " ++ e.display))
      (WireFormat.decode binaryData)
    pure (some packet)

/-- The marked text of a packet, written with the given engine. -/
def writeEmbedded (engine : Base64Engine) (unencodable : BitchatError → BitchatError)
    (packet : BitchatPacket) : BitchatResult Text := do
  let binaryData ← rewrap unencodable (WireFormat.encode packet)
  pure (bitchatMark ++ engine.encode binaryData)

def failedToEncodePacket (e : BitchatError) : BitchatError :=
  .invalidPacket ("Failed to encode packet: " ++ e.display)

namespace Nip17Content

def fromBitchatPacket (packet : BitchatPacket) : BitchatResult Nip17Content := do
  let content ← writeEmbedded Base64.standard failedToEncodePacket packet
  pure ⟨content, none⟩

def toBitchatPacket (content : Nip17Content) : NostrResult (Option BitchatPacket) :=
  readEmbedded Base64.standard "Invalid base64: " content.content

end Nip17Content

namespace NostrEmbeddedBitChat

def encodePacketToNostr (packet : BitchatPacket) : BitchatResult Text :=
  writeEmbedded Base64.urlSafeNoPad failedToEncodePacket packet

def decodeFromNostr (embeddedContent : Text) : NostrResult (Option BitchatPacket) :=
  readEmbedded Base64.urlSafeNoPad "Invalid base64url: " embeddedContent

end NostrEmbeddedBitChat

/-- What is written for an encodable packet is its marked text. -/
theorem eq_of_writeEmbedded {engine : Base64Engine} {unencodable : BitchatError → BitchatError}
    {packet : BitchatPacket} {content : Text} {bytes : Bytes}
    (hencode : WireFormat.encode packet = .ok bytes)
    (h : writeEmbedded engine unencodable packet = .ok content) :
    content = bitchatMark ++ engine.encode bytes := by
  obtain ⟨binaryData, hdata, hpure⟩ := bind_eq_ok.mp h
  rw [rewrap_eq_ok, hencode] at hdata
  obtain rfl := Except.ok.inj hdata
  exact (Except.ok.inj hpure).symm

/-- What was written with an engine is read with the same engine exactly when
the wire format gives the packet back. -/
theorem readEmbedded_writeEmbedded {engine : Base64Engine} (lawful : engine.RoundTrips)
    (invalidBase64 : String) {unencodable : BitchatError → BitchatError} {packet : BitchatPacket}
    {content : Text} {bytes : Bytes} (hencode : WireFormat.encode packet = .ok bytes)
    (h : writeEmbedded engine unencodable packet = .ok content) :
    readEmbedded engine invalidBase64 content = .ok (some packet) ↔
      WireFormat.decode bytes = .ok packet := by
  rw [eq_of_writeEmbedded hencode h]
  simp [readEmbedded, lawful bytes, mapErr, bind_eq_ok]

/-- The canonical embedding reads what it writes. -/
theorem NostrEmbeddedBitChat.decode_encode {packet : BitchatPacket} {bytes : Bytes}
    {content : Text} (hencode : WireFormat.encode packet = .ok bytes)
    (hdecode : WireFormat.decode bytes = .ok packet)
    (h : encodePacketToNostr packet = .ok content) :
    decodeFromNostr content = .ok (some packet) :=
  (readEmbedded_writeEmbedded (Base64.engine_roundTrips .urlSafe false) _ hencode h).mpr hdecode

section

variable {S P : Type} (sha256 : Bytes → Key32) (nostr : NostrLibrary S P) (malformedKey : String)

/-- The digest that `peer_id_to_pubkey` takes for the bytes of a key. -/
def keyBytes (peerId : PeerId) : Key32 :=
  sha256 (Text.asBytes "bitchat_nostr_pubkey:".toList ++ peerId.asBytes)

/-- `malformed_key` is the library's text for bytes that are not a key. -/
def peerIdToPubkey (peerId : PeerId) : NostrResult P :=
  okOr (nostr.fromSlice (keyBytes sha256 peerId).toList)
    (.keyOperationFailed ("Invalid public key: " ++ malformedKey))

/-- Always `Ok`. -/
def pubkeyToPeerId (pubkey : P) : PeerId :=
  let hash := sha256 (Text.asBytes "bitchat_peer_id:".toList ++ (nostr.toBytes pubkey).toList)
  ⟨⟨hash.toList.take 8, by simp⟩⟩

end

/-- The transport with what it needs for packets. -/
structure NostrPacketTransport (S P : Type) extends NostrTransport where
  keys : Keys S P
  giftWrapper : Option (Nip17GiftWrapper S P)
  giftUnwrapper : Option (Nip17GiftUnwrapper S P)
  embeddingStrategy : EmbeddingStrategy

/-- Bytes are read as a key exactly when they are the bytes of this key. -/
def NostrLibrary.KeysRoundTrip {S P : Type} (nostr : NostrLibrary S P) : Prop :=
  ∀ bytes p, nostr.fromSlice bytes = some p ↔ bytes = (nostr.toBytes p).toList

/-- SHA-256 leads from a key, by way of the eight bytes of its peer id, back to
this key or to bytes that are not a key. -/
def LeadsBack {S P : Type} (sha256 : Bytes → Key32) (nostr : NostrLibrary S P) (k : P) : Prop :=
  let id := sha256 (Text.asBytes "bitchat_peer_id:".toList ++ (nostr.toBytes k).toList)
  let back := sha256 (Text.asBytes "bitchat_nostr_pubkey:".toList ++ id.toList.take 8)
  back = nostr.toBytes k ∨ ∀ q, nostr.toBytes q ≠ back

namespace NostrPacketTransport

variable {S P : Type} (sha256 : Bytes → Key32) (nostr : NostrLibrary S P) (malformedKey : String)

/-- The content of a sent packet. -/
def embeddedContent (packet : BitchatPacket) : BitchatResult Text :=
  writeEmbedded Base64.urlSafeNoPad
    (fun e => .transport (.invalidConfiguration
      ("Failed to encode BitChat packet: " ++ e.display))) packet

/-- `EventBuilder::new(kind, content, tags).to_event(&self.keys)`. -/
def publicEvent (t : NostrPacketTransport S P) (kind : Kind) (content : Text)
    (tags : List (List Text)) (now : UInt64) : NostrResult (NostrEvent P) := do
  let event : NostrEvent P := ⟨t.keys.publicKey, now, kind, tags, content⟩
  mapErr .deserializationFailed (nostr.sign t.keys event)
  pure event

/-- The event of a private packet. The stored wrapper is cloned. -/
def privateEvent (t : NostrPacketTransport S P) (peerId : PeerId) (content : Text)
    (d : WrapDraws S) : NostrResult (NostrEvent P) := do
  let giftWrapper ← okOr t.giftWrapper (.encryptionFailed "NIP-17 gift wrapper not available")
  let recipientPubkey ← rewrap (fun e => .keyOperationFailed e.display)
    (peerIdToPubkey sha256 nostr malformedKey peerId)
  rewrap (fun e => .encryptionFailed e.display)
    (giftWrapper.createGiftWrappedMessage nostr ⟨content, none⟩ recipientPubkey d).2

/-- The event of a packet under the strategy. The time of an event is in seconds. -/
def packetEvent (t : NostrPacketTransport S P) (peerId : PeerId) (content : Text)
    (d : WrapDraws S) (now : UInt64) : NostrResult (NostrEvent P) :=
  match t.embeddingStrategy with
  | .privateMessage => t.privateEvent sha256 nostr malformedKey peerId content d
  | .publicGeohash => t.publicEvent nostr bitchatKind content [[['t'], "bitchat".toList]] now
  | .customKind kind => t.publicEvent nostr (.other kind) content [] now

/-- The event that was published. -/
def sendBitchatPacketToPeer (t : NostrPacketTransport S P) (peerId : PeerId)
    (packet : BitchatPacket) (d : WrapDraws S) (now : UInt64) : BitchatResult (NostrEvent P) := do
  let client ← NostrTransport.raise (okOr t.client .clientNotInitialized)
  let _ ← NostrTransport.raise (okOr t.localPeerId .clientNotInitialized)
  let content ← embeddedContent packet
  NostrTransport.raise (do
    let event ← t.packetEvent sha256 nostr malformedKey peerId content d now
    mapErr .eventSendFailed (client.sendEvent event.content)
    pure event)

/-- Whether a packet is for the local peer, which may not be known yet. -/
def isForUs (t : NostrPacketTransport S P) (packet : BitchatPacket) : Bool :=
  match t.localPeerId with
  | some ourPeerId => packet.isBroadcast || packet.recipientId == some ourPeerId
  | none => packet.isBroadcast

/-- What the core is told of unwrapped content. -/
def contentEvents (t : NostrPacketTransport S P) (content : Nip17Content) : List Event :=
  match content.toBitchatPacket with
  | .ok (some packet) =>
    if t.isForUs packet then
      [.peerDiscovered packet.senderId .nostr none,
        .bitchatPacketReceived packet.senderId packet .nostr]
    else []
  | _ => []

/-- The gift-wrap branch of `process_nostr_event_static`. -/
def processGiftWrap (t : NostrPacketTransport S P) (event : NostrEvent P) : List Event :=
  match t.giftUnwrapper with
  | none => []
  | some unwrapper =>
    match unwrapper.unwrapGiftWrappedMessage nostr event with
    | .ok (some content) => t.contentEvents content
    | _ => []

/-- What the receiver can read from the content of a sent packet. -/
theorem toBitchatPacket_of_sent {packet : BitchatPacket} {bytes : Bytes} {content : Text}
    (hencode : WireFormat.encode packet = .ok bytes)
    (hdecode : WireFormat.decode bytes = .ok packet)
    (h : embeddedContent packet = .ok content) {q : BitchatPacket} :
    (⟨content, none⟩ : Nip17Content).toBitchatPacket = .ok (some q) ↔
      Base64.ReadByStandard bytes ∧ q = packet := by
  rw [eq_of_writeEmbedded hencode h]
  have engines : Base64.standard.decode (Base64.urlSafeNoPad.encode bytes) =
      if Base64.ReadByStandard bytes then .ok bytes else .error "Invalid symbol" := by
    simp only [Base64.standard, Base64.urlSafeNoPad, Base64.engine,
      Base64.standard_decode_urlSafe]
    split_ifs <;> rfl
  simp only [Nip17Content.toBitchatPacket, readEmbedded, withoutMark_append, engines]
  by_cases read : Base64.ReadByStandard bytes
  · simp [read, mapErr, hdecode, rewrap, eq_comm]
  · simp [read, mapErr]

/-- The core of a receiver that unwrapped the content of a sent packet. -/
theorem contentEvents_of_sent (t : NostrPacketTransport S P) {packet : BitchatPacket}
    {bytes : Bytes} {content : Text} (hencode : WireFormat.encode packet = .ok bytes)
    (hdecode : WireFormat.decode bytes = .ok packet)
    (h : embeddedContent packet = .ok content) :
    t.contentEvents ⟨content, none⟩ =
      if Base64.ReadByStandard bytes ∧ t.isForUs packet then
        [.peerDiscovered packet.senderId .nostr none,
          .bitchatPacketReceived packet.senderId packet .nostr]
      else [] := by
  have found := toBitchatPacket_of_sent hencode hdecode h (q := packet)
  unfold contentEvents
  split
  · rename_i q hq
    obtain ⟨read, rfl⟩ := (toBitchatPacket_of_sent hencode hdecode h).mp hq
    simp [read]
  · rename_i unread
    have not_read : ¬ Base64.ReadByStandard bytes := fun read =>
      unread packet (found.mpr ⟨read, rfl⟩)
    simp [not_read]

/-- The content that is built for a private packet is turned back into it exactly
when the standard engine can read the URL-safe text of the encoding. -/
theorem sent_content_read_iff (packet : BitchatPacket) (bytes : Bytes) (content : Text)
    (hencode : WireFormat.encode packet = .ok bytes)
    (hdecode : WireFormat.decode bytes = .ok packet)
    (h : embeddedContent packet = .ok content) :
    (⟨content, none⟩ : Nip17Content).toBitchatPacket = .ok (some packet) ↔
      Base64.ReadByStandard bytes := by
  rw [toBitchatPacket_of_sent hencode hdecode h]
  exact and_iff_left rfl

/-- A message without recipient, signature and route. -/
def plainMessage (payload : Bytes) : BitchatPacket :=
  BitchatPacket.newSimple .message ⟨List.Vector.replicate 8 1⟩ payload ⟨1600000000000⟩

theorem sent_content_read_iff_three : ∃ content,
    embeddedContent (plainMessage [0x68, 0x69, 0x21]) = .ok content ∧
      (⟨content, none⟩ : Nip17Content).toBitchatPacket =
        .ok (some (plainMessage [0x68, 0x69, 0x21])) :=
  ⟨_, rfl, (sent_content_read_iff _ _ _ rfl (by decide +kernel) rfl).mpr (by decide +kernel)⟩

/-- An encoding of 23 bytes needs padding, which is not written. -/
theorem plain_message_not_read : ∃ bytes content,
    WireFormat.encode (plainMessage [0x68, 0x69]) = .ok bytes ∧
      WireFormat.decode bytes = .ok (plainMessage [0x68, 0x69]) ∧
      embeddedContent (plainMessage [0x68, 0x69]) = .ok content ∧
      (⟨content, none⟩ : Nip17Content).toBitchatPacket ≠
        .ok (some (plainMessage [0x68, 0x69])) :=
  ⟨_, _, rfl, by decide +kernel, rfl, by decide +kernel⟩

/-- The inner event of a published event carries the packet and was encrypted to `k`. -/
def SealedTo (t : NostrPacketTransport S P) (packet : BitchatPacket) (d : WrapDraws S)
    (outer : NostrEvent P) (k : P) : Prop :=
  ∃ giftWrapper content inner json, t.giftWrapper = some giftWrapper ∧
    embeddedContent packet = .ok content ∧
    (giftWrapper.generateEphemeralKeys nostr d.ephemeral).createInnerEvent nostr ⟨content, none⟩
      k d = .ok inner ∧
    nostr.eventJson.toString inner = .ok json ∧
    Nip17GiftWrapper.createOuterEvent nostr (nostr.keys d.ephemeral) json d = .ok outer

variable {sha256 nostr malformedKey}

/-- A private packet is sealed to the key that its peer id is mapped to. -/
theorem sealedTo_of_sent {t : NostrPacketTransport S P} {peerId : PeerId}
    {packet : BitchatPacket} {d : WrapDraws S} {now : UInt64} {outer : NostrEvent P}
    (hprivate : t.embeddingStrategy = .privateMessage)
    (h : t.sendBitchatPacketToPeer sha256 nostr malformedKey peerId packet d now = .ok outer) :
    ∃ k, peerIdToPubkey sha256 nostr malformedKey peerId = .ok k ∧
      t.SealedTo nostr packet d outer k := by
  obtain ⟨client, _, h⟩ := bind_eq_ok.mp h
  obtain ⟨_, _, h⟩ := bind_eq_ok.mp h
  obtain ⟨content, hcontent, h⟩ := bind_eq_ok.mp h
  rw [NostrTransport.raise_eq_ok] at h
  obtain ⟨event, hevent, h⟩ := bind_eq_ok.mp h
  obtain ⟨_, _, h⟩ := bind_eq_ok.mp h
  obtain rfl := Except.ok.inj h
  rw [packetEvent, hprivate] at hevent
  obtain ⟨giftWrapper, hwrapper, hevent⟩ := bind_eq_ok.mp hevent
  obtain ⟨k, hk, hevent⟩ := bind_eq_ok.mp hevent
  rw [rewrap_eq_ok] at hk hevent
  obtain ⟨inner, json, hinner, hjson, houter⟩ :=
    Nip17GiftWrapper.createGiftWrappedMessage_eq_ok hevent
  exact ⟨k, hk, giftWrapper, content, inner, json, okOr_eq_ok.mp hwrapper, hcontent, hinner,
    hjson, houter⟩

end NostrPacketTransport

section

variable {S P : Type} {sha256 : Bytes → Key32} {nostr : NostrLibrary S P} {malformedKey : String}

theorem peerIdToPubkey_eq_ok (keys : nostr.KeysRoundTrip) {peerId : PeerId} {q : P} :
    peerIdToPubkey sha256 nostr malformedKey peerId = .ok q ↔
      nostr.toBytes q = keyBytes sha256 peerId := by
  rw [peerIdToPubkey, okOr_eq_ok, keys, eq_comm]
  constructor
  · intro same
    exact List.Vector.toList_injective same
  · intro same
    rw [same]

/-- Two keys of the same bytes are one key. -/
theorem NostrLibrary.KeysRoundTrip.toBytes_injective (keys : nostr.KeysRoundTrip) :
    Function.Injective nostr.toBytes := by
  intro p q same
  have hp := (keys _ p).mpr rfl
  rw [same, (keys _ q).mpr rfl] at hp
  exact (Option.some.inj hp).symm

theorem leadsBack_iff (keys : nostr.KeysRoundTrip) (k : P) :
    LeadsBack sha256 nostr k ↔
      ∀ q, peerIdToPubkey sha256 nostr malformedKey (pubkeyToPeerId sha256 nostr k) = .ok q →
        q = k := by
  simp only [peerIdToPubkey_eq_ok keys]
  constructor
  · rintro (same | never) q hq
    · exact keys.toBytes_injective (hq.trans same)
    · exact absurd hq (never q)
  · intro only
    by_cases some_key : ∃ q, nostr.toBytes q = keyBytes sha256 (pubkeyToPeerId sha256 nostr k)
    · obtain ⟨q, hq⟩ := some_key
      have same := only q hq
      rw [same] at hq
      exact Or.inl hq.symm
    · exact Or.inr fun q hq => some_key ⟨q, hq⟩

/-- The mapping of a peer's id returns the key that the peer unwraps with, and
every private packet for the peer is sealed to this key, exactly when SHA-256
leads from the key back to it. -/
theorem private_packet_sealed_iff (keys : nostr.KeysRoundTrip) (receiver : S) :
    let unwrapper : Nip17GiftUnwrapper S P := ⟨nostr.keys receiver⟩
    let k := unwrapper.receiverKeys.publicKey
    let p := pubkeyToPeerId sha256 nostr k
    ((∀ q, peerIdToPubkey sha256 nostr malformedKey p = .ok q → q = k) ∧
      ∀ (t : NostrPacketTransport S P) (packet : BitchatPacket) (d : WrapDraws S) (now : UInt64)
        (outer : NostrEvent P), t.embeddingStrategy = .privateMessage →
        t.sendBitchatPacketToPeer sha256 nostr malformedKey p packet d now = .ok outer →
        t.SealedTo nostr packet d outer k) ↔
      LeadsBack sha256 nostr k := by
  intro unwrapper k p
  rw [leadsBack_iff keys]
  constructor
  · intro both
    exact both.1
  · intro only
    refine ⟨only, ?_⟩
    intro t packet d now outer hprivate hsent
    obtain ⟨q, hq, sealedToKey⟩ := NostrPacketTransport.sealedTo_of_sent hprivate hsent
    rw [only q hq] at sealedToKey
    exact sealedToKey

end

/-- The public key of the secret key 1. -/
def publicKeyOfOne : Key32 :=
  ⟨[0x79, 0xbe, 0x66, 0x7e, 0xf9, 0xdc, 0xbb, 0xac, 0x55, 0xa0, 0x62, 0x95,
    0xce, 0x87, 0x0b, 0x07, 0x02, 0x9b, 0xfc, 0xdb, 0x2d, 0xce, 0x28, 0xd9,
    0x59, 0xf2, 0x81, 0x5b, 0x16, 0xf8, 0x17, 0x98], rfl⟩

/-- The SHA-256 digest of `bitchat_peer_id:` and this key. -/
def peerIdDigestOfOne : Key32 :=
  ⟨[0x45, 0x44, 0x5d, 0x9b, 0x6d, 0x46, 0xfb, 0x50, 0x4c, 0x01, 0xc6, 0xe3,
    0x78, 0xb1, 0x4e, 0x38, 0xd5, 0x91, 0x5b, 0x39, 0xf2, 0xd7, 0x14, 0x87,
    0x8b, 0x0f, 0x45, 0x3f, 0x01, 0x7b, 0x28, 0x82], rfl⟩

/-- The SHA-256 digest of `bitchat_nostr_pubkey:` and the peer id. -/
def pubkeyDigestOfOne : Key32 :=
  ⟨[0xbf, 0xc9, 0x2a, 0x9a, 0x8d, 0x80, 0xe0, 0x72, 0x84, 0xf4, 0x63, 0xb4,
    0x18, 0xa5, 0xfa, 0x3f, 0xe5, 0xaa, 0x76, 0x88, 0x8d, 0xa2, 0xf3, 0x66,
    0xed, 0x34, 0xc4, 0x2b, 0xda, 0xa6, 0x6d, 0xbe], rfl⟩

/-- SHA-256 on the two inputs that the key leads to. -/
def sha256OfOne (bytes : Bytes) : Key32 :=
  if bytes = Text.asBytes "bitchat_peer_id:".toList ++ publicKeyOfOne.toList then
    peerIdDigestOfOne
  else if bytes = Text.asBytes "bitchat_nostr_pubkey:".toList ++
      peerIdDigestOfOne.toList.take 8 then
    pubkeyDigestOfOne
  else List.Vector.replicate 32 0

/-- A library with one secret key. Texts are sealed by naming the key. -/
def oneKeyLibrary : NostrLibrary Unit Key32 where
  publicKey _ := publicKeyOfOne
  toBytes p := p
  fromSlice bytes := if h : bytes.length = 32 then some ⟨bytes, h⟩ else none
  sharedSecret _ p := p
  encrypt _ p _ text := .ok (hexDigits p.toList ++ text)
  decrypt _ p sealedText :=
    if sealedText.take 64 = hexDigits p.toList then .ok (sealedText.drop 64) else .error "wrong key"
  sign _ _ := .ok ()
  eventJson := Json.single ⟨publicKeyOfOne, 0, .giftWrap, [], []⟩ []
  contentJson := Json.single ⟨[], none⟩ []

theorem oneKeyLibrary_keys : oneKeyLibrary.KeysRoundTrip := by
  intro bytes p
  constructor
  · intro found
    simp only [oneKeyLibrary] at found
    split_ifs at found
    exact congrArg List.Vector.toList (Option.some.inj found)
  · intro same
    have long : bytes.length = 32 := by
      rw [same]
      exact p.toList_length
    simp only [oneKeyLibrary]
    rw [dif_pos long]
    exact congrArg some (List.Vector.toList_injective same)

theorem private_packet_sealed_iff_one :
    ¬ ((∀ q, peerIdToPubkey sha256OfOne oneKeyLibrary "malformed public key"
          (pubkeyToPeerId sha256OfOne oneKeyLibrary publicKeyOfOne) = .ok q → q = publicKeyOfOne) ∧
        ∀ (t : NostrPacketTransport Unit Key32) (packet : BitchatPacket) (d : WrapDraws Unit)
          (now : UInt64) (outer : NostrEvent Key32), t.embeddingStrategy = .privateMessage →
          t.sendBitchatPacketToPeer sha256OfOne oneKeyLibrary "malformed public key"
            (pubkeyToPeerId sha256OfOne oneKeyLibrary publicKeyOfOne) packet d now = .ok outer →
          t.SealedTo oneKeyLibrary packet d outer publicKeyOfOne) := by
  have iff := @private_packet_sealed_iff Unit Key32 sha256OfOne oneKeyLibrary
    "malformed public key" oneKeyLibrary_keys ()
  refine mt iff.mp ?_
  rintro (same | never)
  · exact absurd same (by decide +kernel)
  · exact never _ rfl

/-- The mapping leads to another key. -/
theorem one_sealed_to_other_key :
    peerIdToPubkey sha256OfOne oneKeyLibrary "malformed public key"
        (pubkeyToPeerId sha256OfOne oneKeyLibrary (oneKeyLibrary.publicKey ())) =
      .ok pubkeyDigestOfOne ∧ pubkeyDigestOfOne ≠ oneKeyLibrary.publicKey () := by
  decide +kernel

end Bitchat
