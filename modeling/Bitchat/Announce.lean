import Bitchat.Signing
import Bitchat.Tlv
import Bitchat.WireCanonical

/-!
# Announcements

`AnnouncePayload` of `announce.rs` and its way through TLV entries, a signed packet and
the wire. The encoder checks the nickname, the two-byte lengths bound the neighbours, and
the wire bounds the whole payload.
-/
namespace Bitchat
open Rust

structure AnnouncePayload where
  nickname : Text
  noisePublicKey : Key32
  signingPublicKey : Key32
  directNeighbors : Option (List Key32)
  deriving DecidableEq

namespace AnnouncePayload

def new (nickname : Text) (noisePublicKey signingPublicKey : Key32)
    (directNeighbors : Option (List Key32)) : BitchatResult AnnouncePayload := do
  failIf (255 < nickname.size) (.tlvValueTooLarge nickname.size)
  pure ⟨nickname, noisePublicKey, signingPublicKey, directNeighbors⟩

def encode (payload : AnnouncePayload) : BitchatResult Bytes := do
  let nickname ← TlvEntry.ofNickname payload.nickname
  let codec : TlvCodec :=
    ⟨[nickname, .ofNoisePublicKey payload.noisePublicKey,
      .ofSigningPublicKey payload.signingPublicKey] ++
        (payload.directNeighbors.map TlvEntry.ofDirectNeighbors).toList⟩
  pure codec.encode

theorem new_eq_ok {nickname : Text} {noisePublicKey signingPublicKey : Key32}
    {directNeighbors : Option (List Key32)} {payload : AnnouncePayload} :
    new nickname noisePublicKey signingPublicKey directNeighbors = .ok payload ↔
      nickname.size ≤ 255 ∧
        payload = ⟨nickname, noisePublicKey, signingPublicKey, directNeighbors⟩ := by
  rw [new, failIf_bind_eq_ok, not_lt, pure_eq_ok, Except.ok.injEq, eq_comm]

/-- The first entry of a type that is needed. -/
def requireEntry (codec : TlvCodec) (tlvType : TlvType) : BitchatResult TlvEntry :=
  okOr (codec.findEntry tlvType) (.missingRequiredTlv tlvType.asU8)

/-- `decode` behind the decoding of the entries. -/
def fromCodec (codec : TlvCodec) : BitchatResult AnnouncePayload := do
  codec.validateRequired [.nickname, .noisePublicKey, .signingPublicKey]
  let nicknameEntry ← requireEntry codec .nickname
  let nickname ← nicknameEntry.asNickname
  let noiseKeyEntry ← requireEntry codec .noisePublicKey
  let noisePublicKey ← noiseKeyEntry.asKey
  let signingKeyEntry ← requireEntry codec .signingPublicKey
  let signingPublicKey ← signingKeyEntry.asKey
  let directNeighbors ← (codec.findEntry .directNeighbors).mapM TlvEntry.asNeighbors
  pure ⟨nickname, noisePublicKey, signingPublicKey, directNeighbors⟩

def decode [Offsets] (data : Bytes) : BitchatResult AnnouncePayload := do
  let codec ← TlvCodec.decode data
  fromCodec codec

/-! ## The entries of a payload -/

/-- The entries that are written for a payload whose nickname is short enough. -/
def codec (payload : AnnouncePayload) : TlvCodec :=
  ⟨[⟨.nickname, payload.nickname.asBytes⟩, .ofNoisePublicKey payload.noisePublicKey,
    .ofSigningPublicKey payload.signingPublicKey] ++
      (payload.directNeighbors.map TlvEntry.ofDirectNeighbors).toList⟩

/-- The first entries of the four types have the values of the payload. -/
structure Describes (codec : TlvCodec) (payload : AnnouncePayload) : Prop where
  nickname : (codec.findEntry .nickname).map TlvEntry.value = some payload.nickname.asBytes
  noisePublicKey :
    (codec.findEntry .noisePublicKey).map TlvEntry.value = some payload.noisePublicKey.toList
  signingPublicKey :
    (codec.findEntry .signingPublicKey).map TlvEntry.value = some payload.signingPublicKey.toList
  directNeighbors : (codec.findEntry .directNeighbors).map TlvEntry.value =
    payload.directNeighbors.map fun keys => keys.flatMap List.Vector.toList

def neighborCount (payload : AnnouncePayload) : ℕ := payload.directNeighbors.elim 0 List.length

theorem describes_codec (payload : AnnouncePayload) : Describes payload.codec payload := by
  obtain ⟨nickname, noisePublicKey, signingPublicKey, directNeighbors⟩ := payload
  constructor
  · rfl
  · rfl
  · rfl
  · cases directNeighbors <;> rfl

theorem encode_eq_ok {payload : AnnouncePayload} {data : Bytes} :
    payload.encode = .ok data ↔ payload.nickname.size ≤ 255 ∧ data = payload.codec.encode := by
  simp only [encode, TlvEntry.ofNickname, bind_assoc, failIf_bind_eq_ok, not_lt, pure_eq_ok,
    ok_bind, Except.ok.injEq]
  exact and_congr_right fun _ => eq_comm

/-- A payload without neighbours takes 73 bytes more than its nickname. -/
theorem encode_length {payload : AnnouncePayload} {data : Bytes} (h : payload.encode = .ok data) :
    data.length = payload.nickname.size +
      payload.directNeighbors.elim 73 fun keys => 76 + 32 * keys.length := by
  obtain ⟨_, rfl⟩ := encode_eq_ok.mp h
  have hnickname : payload.nickname.asBytes.length = payload.nickname.size := rfl
  have hnoise := payload.noisePublicKey.toList_length
  have hsigning := payload.signingPublicKey.toList_length
  simp only [codec, TlvCodec.encode, TlvEntry.ofNoisePublicKey, TlvEntry.ofSigningPublicKey]
  cases payload.directNeighbors with
  | none =>
    simp [hnickname]
    omega
  | some keys =>
    have hlength := TlvEntry.length_keys keys
    simp only [TlvEntry.ofDirectNeighbors, Option.map_some, Option.toList_some, List.flatMap_append,
      List.flatMap_cons, List.flatMap_nil, List.length_append, TlvEntry.encode_length, hlength,
      List.length_nil, Option.elim_some]
    omega

theorem fits_codec {payload : AnnouncePayload} (hnickname : payload.nickname.size ≤ 255) :
    (∀ entry ∈ payload.codec.entries, entry.Fits) ↔ payload.neighborCount ≤ 2047 := by
  have hshort : (TlvEntry.mk .nickname payload.nickname.asBytes).Fits :=
    Nat.lt_of_le_of_lt hnickname (by decide)
  have hnoise := TlvEntry.fits_ofNoisePublicKey payload.noisePublicKey
  have hsigning := TlvEntry.fits_ofSigningPublicKey payload.signingPublicKey
  simp only [codec, List.forall_mem_append, List.forall_mem_cons, hshort, hnoise, hsigning,
    List.not_mem_nil, false_imp_iff, implies_true, true_and, and_true]
  cases hneighbors : payload.directNeighbors with
  | none => simp [neighborCount, hneighbors]
  | some keys => simp [neighborCount, hneighbors, TlvEntry.fits_ofDirectNeighbors]

theorem requireEntry_eq_ok {codec : TlvCodec} {tlvType : TlvType} {entry : TlvEntry} :
    requireEntry codec tlvType = .ok entry ↔ codec.findEntry tlvType = some entry := okOr_eq_ok

theorem mapM_asNeighbors_eq_ok {codec : TlvCodec} {neighbors : Option (List Key32)} :
    (codec.findEntry .directNeighbors).mapM TlvEntry.asNeighbors = .ok neighbors ↔
      (codec.findEntry .directNeighbors).map TlvEntry.value =
        neighbors.map fun keys => keys.flatMap List.Vector.toList := by
  cases hfind : codec.findEntry .directNeighbors with
  | none => cases neighbors <;> simp
  | some entry =>
    have htype := TlvCodec.tlvType_of_findEntry hfind
    cases neighbors with
    | none => simp [map_eq_ok]
    | some keys => simp [map_eq_ok, TlvEntry.asNeighbors_eq_ok, htype]

theorem fromCodec_eq_ok {codec : TlvCodec} {payload : AnnouncePayload} :
    fromCodec codec = .ok payload ↔ Describes codec payload := by
  constructor
  · intro h
    obtain ⟨_, _, h⟩ := bind_eq_ok.mp h
    obtain ⟨nicknameEntry, hnicknameEntry, h⟩ := bind_eq_ok.mp h
    obtain ⟨nickname, hnickname, h⟩ := bind_eq_ok.mp h
    obtain ⟨noiseKeyEntry, hnoiseKeyEntry, h⟩ := bind_eq_ok.mp h
    obtain ⟨noisePublicKey, hnoise, h⟩ := bind_eq_ok.mp h
    obtain ⟨signingKeyEntry, hsigningKeyEntry, h⟩ := bind_eq_ok.mp h
    obtain ⟨signingPublicKey, hsigning, h⟩ := bind_eq_ok.mp h
    obtain ⟨directNeighbors, hneighbors, h⟩ := bind_eq_ok.mp h
    obtain rfl := Except.ok.inj h
    refine ⟨?_, ?_, ?_, mapM_asNeighbors_eq_ok.mp hneighbors⟩
    · rw [requireEntry_eq_ok.mp hnicknameEntry]
      exact congrArg some (TlvEntry.asNickname_eq_ok.mp hnickname).2
    · rw [requireEntry_eq_ok.mp hnoiseKeyEntry]
      exact congrArg some (TlvEntry.asKey_eq_ok.mp hnoise)
    · rw [requireEntry_eq_ok.mp hsigningKeyEntry]
      exact congrArg some (TlvEntry.asKey_eq_ok.mp hsigning)
  · rintro ⟨hnickname, hnoise, hsigning, hneighbors⟩
    obtain ⟨nicknameEntry, hfirst, hnickname⟩ := Option.map_eq_some_iff.mp hnickname
    obtain ⟨noiseKeyEntry, hsecond, hnoise⟩ := Option.map_eq_some_iff.mp hnoise
    obtain ⟨signingKeyEntry, hthird, hsigning⟩ := Option.map_eq_some_iff.mp hsigning
    have hrequired : codec.validateRequired [.nickname, .noisePublicKey, .signingPublicKey] =
        .ok () := TlvCodec.validateRequired_eq_ok.mpr (by simp [hfirst, hsecond, hthird])
    have htype := TlvCodec.tlvType_of_findEntry hfirst
    have hneighbors := mapM_asNeighbors_eq_ok.mpr hneighbors
    simp only [fromCodec, hrequired, requireEntry_eq_ok.mpr hfirst,
      requireEntry_eq_ok.mpr hsecond, requireEntry_eq_ok.mpr hthird,
      TlvEntry.asNickname_eq_ok.mpr ⟨htype, hnickname⟩, TlvEntry.asKey_eq_ok.mpr hnoise,
      TlvEntry.asKey_eq_ok.mpr hsigning, hneighbors, ok_bind, pure_eq_ok]

/-- A payload decodes from entries that fit and describe it. -/
theorem decode_eq_ok {data : Bytes} {payload : AnnouncePayload} :
    decode data = .ok payload ↔
      ∃ codec, TlvCodec.decode data = .ok codec ∧ Describes codec payload := by
  simp only [decode, bind_eq_ok, fromCodec_eq_ok]

/-- Every neighbour that decodes was within a two-byte length. -/
theorem neighborCount_of_decode {data : Bytes} {payload : AnnouncePayload}
    (h : decode data = .ok payload) : payload.neighborCount ≤ 2047 := by
  obtain ⟨codec, hcodec, hdescribes⟩ := decode_eq_ok.mp h
  have hneighbors := hdescribes.directNeighbors
  cases hkeys : payload.directNeighbors with
  | none => simp [neighborCount, hkeys]
  | some keys =>
    rw [hkeys] at hneighbors
    obtain ⟨entry, hfind, hvalue⟩ := Option.map_eq_some_iff.mp hneighbors
    have hfits := (TlvCodec.decode_eq_ok.mp hcodec).1 entry (List.mem_of_find?_eq_some hfind)
    have hlength := TlvEntry.length_keys keys
    rw [TlvEntry.Fits, hvalue, hlength] at hfits
    simp only [neighborCount, hkeys, Option.elim_some]
    omega

/-- What is encoded decodes exactly when its neighbours fit. -/
theorem decode_encode_iff {payload : AnnouncePayload} {data : Bytes}
    (h : payload.encode = .ok data) :
    decode data = .ok payload ↔ payload.neighborCount ≤ 2047 := by
  obtain ⟨hnickname, rfl⟩ := encode_eq_ok.mp h
  constructor
  · exact neighborCount_of_decode
  · intro hcount
    have hcodec := TlvCodec.decode_eq_ok.mpr ⟨(fits_codec hnickname).mpr hcount, rfl⟩
    exact decode_eq_ok.mpr ⟨_, hcodec, describes_codec payload⟩

/-- In the entries that the data consists of, the first nickname has at most 255 bytes. -/
def ShortNickname (data : Bytes) : Prop :=
  ∀ codec : TlvCodec, (∀ entry ∈ codec.entries, entry.Fits) → data = codec.encode →
    ∀ entry ∈ codec.findEntry .nickname, entry.value.length ≤ 255

theorem shortNickname_iff {data : Bytes} {payload : AnnouncePayload}
    (h : decode data = .ok payload) : ShortNickname data ↔ payload.nickname.size ≤ 255 := by
  obtain ⟨codec, hcodec, hdescribes⟩ := decode_eq_ok.mp h
  obtain ⟨hfits, hdata⟩ := TlvCodec.decode_eq_ok.mp hcodec
  obtain ⟨entry, hfind, hvalue⟩ := Option.map_eq_some_iff.mp hdescribes.nickname
  constructor
  · intro hshort
    have hentry := hshort codec hfits hdata entry hfind
    rwa [hvalue] at hentry
  · intro hsize other hother hsame found hfound
    have hdecoded := TlvCodec.decode_eq_ok.mpr ⟨hother, hsame⟩
    rw [hcodec] at hdecoded
    obtain rfl := Except.ok.inj hdecoded
    obtain rfl := Option.some.inj (hfind.symm.trans hfound)
    rwa [hvalue]

/-- A payload that is encoded decodes to itself exactly when it has at most 2047
neighbours; one that is decoded can be encoded, and decodes again to itself, exactly
when the first nickname of the data has at most 255 bytes. -/
theorem announce_roundTrip_iff (payload : AnnouncePayload) (data : Bytes) :
    (payload.encode = .ok data →
      (decode data = .ok payload ↔ payload.neighborCount ≤ 2047)) ∧
    (decode data = .ok payload →
      ((∃ written, payload.encode = .ok written ∧ decode written = .ok payload) ↔
        ShortNickname data)) := by
  constructor
  · intro h
    exact decode_encode_iff h
  · intro h
    rw [shortNickname_iff h]
    constructor
    · rintro ⟨written, hwritten, _⟩
      exact (encode_eq_ok.mp hwritten).1
    · intro hnickname
      have hwritten := encode_eq_ok.mpr ⟨hnickname, rfl⟩
      exact ⟨_, hwritten, (decode_encode_iff hwritten).mpr (neighborCount_of_decode h)⟩

def zeroKey : Key32 := List.Vector.replicate 32 0

def alice : AnnouncePayload := ⟨"alice".toList, zeroKey, zeroKey, some [zeroKey, zeroKey]⟩

theorem announce_roundTrip_alice :
    decode alice.codec.encode = .ok alice ∧
      ∃ written, alice.encode = .ok written ∧ decode written = .ok alice := by
  have hread : decode alice.codec.encode = .ok alice :=
    ((announce_roundTrip_iff alice _).1 rfl).mpr (by decide)
  have hshort : ShortNickname alice.codec.encode := (shortNickname_iff hread).mpr (by decide)
  exact ⟨hread, ((announce_roundTrip_iff alice _).2 hread).mpr hshort⟩

/-- A payload with 2048 neighbours. -/
def crowded : AnnouncePayload := ⟨"a".toList, zeroKey, zeroKey, some (List.replicate 2048 zeroKey)⟩

/-- A payload with a nickname of 256 bytes. -/
def longNickname : AnnouncePayload := ⟨List.replicate 256 'a', zeroKey, zeroKey, none⟩

/-- The one is written with an empty list of neighbours in front of their keys, the other
can be read but not written. -/
theorem crowded_or_long_fails :
    (∃ data, crowded.encode = .ok data ∧ decode data ≠ .ok crowded) ∧
      decode longNickname.codec.encode = .ok longNickname ∧
      longNickname.encode = fail (.tlvValueTooLarge 256) := by
  have hcrowded : crowded.encode = .ok crowded.codec.encode := encode_eq_ok.mpr ⟨by decide, rfl⟩
  have hcount : ¬ crowded.neighborCount ≤ 2047 := by
    show ¬ (List.replicate 2048 zeroKey).length ≤ 2047
    rw [List.length_replicate]
    omega
  have hsize : longNickname.nickname.size = 256 := by decide +kernel
  have hfits : ∀ entry ∈ longNickname.codec.entries, entry.Fits := by
    have hnickname : (TlvEntry.mk .nickname longNickname.nickname.asBytes).Fits :=
      Nat.lt_of_le_of_lt (Nat.le_of_eq hsize) (by decide)
    simp only [codec, List.forall_mem_append, List.forall_mem_cons]
    exact ⟨⟨hnickname, TlvEntry.fits_ofNoisePublicKey _, TlvEntry.fits_ofSigningPublicKey _,
      by simp⟩, fun _ h => absurd h List.not_mem_nil⟩
  have hread := TlvCodec.decode_eq_ok.mpr ⟨hfits, rfl⟩
  refine ⟨⟨_, hcrowded, fun h => hcount ((decode_encode_iff hcrowded).mp h)⟩,
    decode_eq_ok.mpr ⟨_, hread, describes_codec _⟩, ?_⟩
  simp [encode, TlvEntry.ofNickname, hsize, failIf]

end AnnouncePayload

/-! ## Announce packets -/

/-- The `Debug` text of a message type. -/
def MessageType.debug : MessageType → String
  | announce => "Announce"
  | message => "Message"
  | leave => "Leave"
  | noiseHandshake => "NoiseHandshake"
  | noiseEncrypted => "NoiseEncrypted"
  | fragment => "Fragment"
  | requestSync => "RequestSync"
  | fileTransfer => "FileTransfer"
  | versionHello => "VersionHello"
  | versionAck => "VersionAck"

namespace BitchatPacket

section

variable (sha256 : Bytes → Key32) (ed : Ed25519)

/-- The packet is signed as it is: neither its payload length nor anything else is checked. -/
def createAnnounce (secret : Key32) (senderId : PeerId) (nickname : Text) (noisePublicKey : Key32)
    (directNeighbors : Option (List Key32)) (timestamp : Timestamp) :
    BitchatResult BitchatPacket := do
  let payload ← AnnouncePayload.new nickname noisePublicKey (ed.publicKey secret) directNeighbors
  let encodedPayload ← payload.encode
  let packet ← BitchatPacket.new .announce senderId none timestamp encodedPayload PacketFlags.none
  pure (packet.sign sha256 ed secret)

def parseAnnounce (packet : BitchatPacket) : BitchatResult AnnouncePayload := do
  rejectIf (packet.header.messageType ≠ .announce)
    ("Expected announce packet, got " ++ packet.header.messageType.debug)
  AnnouncePayload.decode packet.payload

/-- The signature is checked under the key that the payload brings. -/
def verifyAndParseAnnounce (packet : BitchatPacket) : BitchatResult AnnouncePayload := do
  let payload ← packet.parseAnnounce
  packet.verifySignature sha256 ed payload.signingPublicKey
  pure payload

end

/-- The packet that is signed for an encoded payload. -/
def unsignedAnnounce (senderId : PeerId) (timestamp : Timestamp) (data : Bytes) : BitchatPacket :=
  ⟨PacketHeader.new .announce Ttl.default timestamp PacketFlags.none (UInt32.ofNat data.length),
    senderId, none, none, data, none⟩

variable {sha256 : Bytes → Key32} {ed : Ed25519}

/-- An announce packet is the signed packet of an encoded payload. -/
theorem createAnnounce_eq_ok {secret : Key32} {senderId : PeerId} {nickname : Text}
    {noisePublicKey : Key32} {directNeighbors : Option (List Key32)} {timestamp : Timestamp}
    {packet : BitchatPacket} :
    createAnnounce sha256 ed secret senderId nickname noisePublicKey directNeighbors timestamp =
        .ok packet ↔
      ∃ data, AnnouncePayload.encode
          ⟨nickname, noisePublicKey, ed.publicKey secret, directNeighbors⟩ = .ok data ∧
        packet = (unsignedAnnounce senderId timestamp data).sign sha256 ed secret := by
  simp only [createAnnounce, BitchatPacket.new, bind_eq_ok, AnnouncePayload.new_eq_ok, pure_eq_ok,
    ok_bind, Except.ok.injEq]
  constructor
  · rintro ⟨payload, ⟨_, rfl⟩, data, hdata, h⟩
    exact ⟨data, hdata, h.symm⟩
  · rintro ⟨data, hdata, h⟩
    have hnickname := (AnnouncePayload.encode_eq_ok.mp hdata).1
    exact ⟨_, ⟨hnickname, rfl⟩, data, hdata, h.symm⟩

theorem flags_announce : PacketFlags.none.withSignature.hasRecipient = false ∧
    PacketFlags.none.withSignature.hasRoute = false ∧
    PacketFlags.none.withSignature.hasSignature = true := by decide

/-- Version 1 carries 255 bytes of payload. -/
theorem validate_announce (sha256 : Bytes → Key32) (ed : Ed25519) (secret : Key32)
    (senderId : PeerId) (timestamp : Timestamp) (data : Bytes) :
    ((unsignedAnnounce senderId timestamp data).sign sha256 ed secret).validate = .ok () ↔
      data.length ≤ 255 := by
  obtain ⟨hrecipient, _, hsignature⟩ := flags_announce
  have hcarries := PacketHeader.new_carries_iff .announce Ttl.default timestamp
    PacketFlags.none.withSignature data.length
  rw [validate_eq_ok, ← hcarries]
  constructor
  · rintro ⟨hheader, hsame, _⟩
    exact ⟨hheader, hsame⟩
  · rintro ⟨hheader, hsame⟩
    exact ⟨hheader, hsame, hrecipient.symm, hsignature.symm⟩

/-- A valid announce packet goes over the wire. -/
theorem wire_announce (sha256 : Bytes → Key32) (ed : Ed25519) (secret : Key32)
    (senderId : PeerId) (timestamp : Timestamp) {data : Bytes} (hle : data.length ≤ 255) :
    ∃ bytes, WireFormat.encode ((unsignedAnnounce senderId timestamp data).sign sha256 ed
        secret) = .ok bytes ∧
      WireFormat.decode bytes = .ok ((unsignedAnnounce senderId timestamp data).sign sha256 ed
        secret) := by
  obtain ⟨_, hroute, _⟩ := flags_announce
  have hvalid := (validate_announce sha256 ed secret senderId timestamp data).mpr hle
  obtain ⟨bytes, hencode⟩ := WireFormat.encode_of_validate hvalid hroute
  exact ⟨bytes, hencode, WireFormat.decode_of_encode hencode rfl hroute.symm⟩

/-- A payload that decodes is verified under its own key. -/
theorem verifyAndParse_announce (hown : ed.AcceptsOwn) {secret : Key32} {senderId : PeerId}
    {timestamp : Timestamp} {data : Bytes} {payload : AnnouncePayload}
    (hkey : payload.signingPublicKey = ed.publicKey secret)
    (hread : AnnouncePayload.decode data = .ok payload) :
    verifyAndParseAnnounce sha256 ed
      ((unsignedAnnounce senderId timestamp data).sign sha256 ed secret) = .ok payload := by
  have hparse : parseAnnounce ((unsignedAnnounce senderId timestamp data).sign sha256 ed secret) =
      .ok payload := rejectIf_bind_eq_ok.mpr ⟨by simp [unsignedAnnounce, sign, withSignature,
        PacketHeader.new], hread⟩
  have hverify : ((unsignedAnnounce senderId timestamp data).sign sha256 ed
      secret).verifySignature sha256 ed (ed.publicKey secret) = .ok () :=
    verifySignature_of_preimage hown rfl (canonicalPreimage_withSignature _ _)
  rw [verifyAndParseAnnounce, hparse, ok_bind, hkey, hverify]
  rfl

/-- An announcement that is created goes over the wire and is verified exactly when its
payload has at most 255 bytes. -/
theorem announce_sendable_iff (sha256 : Bytes → Key32) (ed : Ed25519) (hown : ed.AcceptsOwn)
    (secret : Key32) (senderId : PeerId) (nickname : Text) (noisePublicKey : Key32)
    (directNeighbors : Option (List Key32)) (timestamp : Timestamp) (packet : BitchatPacket)
    (h : createAnnounce sha256 ed secret senderId nickname noisePublicKey directNeighbors
      timestamp = .ok packet) :
    ((∃ bytes, WireFormat.encode packet = .ok bytes ∧ WireFormat.decode bytes = .ok packet) ∧
      packet.verifyAndParseAnnounce sha256 ed =
        .ok ⟨nickname, noisePublicKey, ed.publicKey secret, directNeighbors⟩) ↔
    nickname.size + (directNeighbors.elim 73 fun keys => 76 + 32 * keys.length) ≤ 255 := by
  obtain ⟨data, hdata, rfl⟩ := createAnnounce_eq_ok.mp h
  have hlength := AnnouncePayload.encode_length hdata
  simp only at hlength
  rw [← hlength]
  constructor
  · rintro ⟨⟨bytes, hencode, _⟩, _⟩
    have hvalid := (WireFormat.encode_eq_ok.mp hencode).1
    exact (validate_announce sha256 ed secret senderId timestamp data).mp hvalid
  · intro hle
    have hcount : AnnouncePayload.neighborCount
        ⟨nickname, noisePublicKey, ed.publicKey secret, directNeighbors⟩ ≤ 2047 := by
      cases directNeighbors with
      | none => exact Nat.zero_le _
      | some keys =>
        simp only [Option.elim_some] at hlength
        simp only [AnnouncePayload.neighborCount, Option.elim_some]
        omega
    have hread := (AnnouncePayload.decode_encode_iff hdata).mpr hcount
    exact ⟨wire_announce sha256 ed secret senderId timestamp hle,
      verifyAndParse_announce hown rfl hread⟩

def announcer : PeerId := ⟨List.Vector.replicate 8 1⟩

/-- Alice with one neighbour. -/
theorem alice_announce_sendable :
    ∃ packet, createAnnounce typeDigest firstByteEd25519 AnnouncePayload.zeroKey announcer
        "alice".toList AnnouncePayload.zeroKey (some [AnnouncePayload.zeroKey])
        ⟨1700000000000⟩ = .ok packet ∧
      (∃ bytes, WireFormat.encode packet = .ok bytes ∧ WireFormat.decode bytes = .ok packet) ∧
      packet.verifyAndParseAnnounce typeDigest firstByteEd25519 =
        .ok ⟨"alice".toList, AnnouncePayload.zeroKey, AnnouncePayload.zeroKey,
          some [AnnouncePayload.zeroKey]⟩ :=
  ⟨_, rfl, (announce_sendable_iff typeDigest firstByteEd25519 (fun _ _ => beq_self_eq_true _)
    AnnouncePayload.zeroKey announcer "alice".toList AnnouncePayload.zeroKey
    (some [AnnouncePayload.zeroKey]) ⟨1700000000000⟩ _ rfl).mpr (by decide)⟩

def wideNickname : Text := List.replicate 183 'a'

/-- A nickname of 183 bytes makes a packet of 256 bytes of payload, which cannot be encoded. -/
theorem wideNickname_not_sendable :
    ∃ packet, createAnnounce typeDigest firstByteEd25519 AnnouncePayload.zeroKey announcer
        wideNickname AnnouncePayload.zeroKey none ⟨1700000000000⟩ = .ok packet ∧
      ∀ bytes, WireFormat.encode packet ≠ .ok bytes := by
  have hsize : wideNickname.size = 183 := by decide +kernel
  have hshort : wideNickname.size ≤ 255 := by omega
  obtain ⟨data, hdata⟩ : ∃ data, AnnouncePayload.encode ⟨wideNickname, AnnouncePayload.zeroKey,
      firstByteEd25519.publicKey AnnouncePayload.zeroKey, none⟩ = .ok data :=
    ⟨_, AnnouncePayload.encode_eq_ok.mpr ⟨hshort, rfl⟩⟩
  have hlength := AnnouncePayload.encode_length hdata
  simp only [Option.elim_none, hsize] at hlength
  refine ⟨_, createAnnounce_eq_ok.mpr ⟨data, hdata, rfl⟩, fun bytes hencode => ?_⟩
  have hvalid := (WireFormat.encode_eq_ok.mp hencode).1
  have hle := (validate_announce _ _ _ _ _ data).mp hvalid
  omega

end BitchatPacket

end Bitchat
