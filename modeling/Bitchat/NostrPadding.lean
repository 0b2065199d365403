import Bitchat.NostrPackets

/-!
# Padded messages over Nostr

A message for a peer is embedded with its type byte in front and random padding
behind it: a byte with the length of the padding, then the padding. The reader
knows the end of the padding only, and looks backwards for a byte that counts
the bytes behind it. It takes the first such byte, which may stand in the
padding, or in the message when no padding was drawn.
-/
namespace Bitchat
open Rust

inductive NoisePayloadType where
  | privateMessage
  | readReceipt
  | delivered
  | verifyChallenge
  | verifyResponse
  | fileOffer
  | fileAccept
  | fileChunk
  | fileComplete
  | groupCreate
  | groupInvite
  | groupJoin
  | groupLeave
  | groupMessage
  | groupUpdate
  | groupKick
  | deviceAnnouncement
  | sessionSyncRequest
  | sessionSyncResponse
  | deviceHeartbeat
  | versionHello
  | versionAck
  | capabilityRejection
  deriving DecidableEq

namespace NoisePayloadType

def asU8 : NoisePayloadType → UInt8
  | privateMessage => 0x01
  | readReceipt => 0x02
  | delivered => 0x03
  | verifyChallenge => 0x10
  | verifyResponse => 0x11
  | fileOffer => 0x20
  | fileAccept => 0x21
  | fileChunk => 0x22
  | fileComplete => 0x23
  | groupCreate => 0x30
  | groupInvite => 0x31
  | groupJoin => 0x32
  | groupLeave => 0x33
  | groupMessage => 0x34
  | groupUpdate => 0x35
  | groupKick => 0x36
  | deviceAnnouncement => 0x40
  | sessionSyncRequest => 0x41
  | sessionSyncResponse => 0x42
  | deviceHeartbeat => 0x43
  | versionHello => 0x50
  | versionAck => 0x51
  | capabilityRejection => 0x52

/-- The types that are only read with the `experimental` feature. -/
def experimentalFromU8 (value : UInt8) : BitchatResult NoisePayloadType :=
  if value = 0x20 then .ok fileOffer
  else if value = 0x21 then .ok fileAccept
  else if value = 0x22 then .ok fileChunk
  else if value = 0x23 then .ok fileComplete
  else if value = 0x30 then .ok groupCreate
  else if value = 0x31 then .ok groupInvite
  else if value = 0x32 then .ok groupJoin
  else if value = 0x33 then .ok groupLeave
  else if value = 0x34 then .ok groupMessage
  else if value = 0x35 then .ok groupUpdate
  else if value = 0x36 then .ok groupKick
  else if value = 0x40 then .ok deviceAnnouncement
  else if value = 0x41 then .ok sessionSyncRequest
  else if value = 0x42 then .ok sessionSyncResponse
  else if value = 0x43 then .ok deviceHeartbeat
  else if value = 0x50 then .ok versionHello
  else if value = 0x51 then .ok versionAck
  else if value = 0x52 then .ok capabilityRejection
  else invalidPacket "Unknown noise payload type"

def fromU8 (experimental : Bool) (value : UInt8) : BitchatResult NoisePayloadType :=
  if value = 0x01 then .ok privateMessage
  else if value = 0x02 then .ok readReceipt
  else if value = 0x03 then .ok delivered
  else if value = 0x10 then .ok verifyChallenge
  else if value = 0x11 then .ok verifyResponse
  else if experimental then experimentalFromU8 value
  else invalidPacket "Unknown noise payload type"

/-- A type byte that is known is the byte of its type. -/
theorem eq_asU8_of_fromU8 {experimental : Bool} {value : UInt8} {t : NoisePayloadType}
    (h : fromU8 experimental value = .ok t) : value = t.asU8 := by
  unfold fromU8 at h
  iterate 5
    rcases of_ite_ok h with ⟨rfl, rfl⟩ | h
    · rfl
  cases experimental with
  | false => exact absurd h (invalidPacket_ne_ok _ _)
  | true =>
    rw [if_pos rfl, experimentalFromU8] at h
    iterate 18
      rcases of_ite_ok h with ⟨rfl, rfl⟩ | h
      · rfl
    exact absurd h (invalidPacket_ne_ok _ _)

/-- With the feature every type is read. -/
theorem fromU8_asU8 (t : NoisePayloadType) : fromU8 true t.asU8 = .ok t := by
  cases t <;> rfl

theorem asU8_injective : Function.Injective asU8 := by
  intro s t h
  have hs := fromU8_asU8 s
  rw [h, fromU8_asU8] at hs
  exact (Except.ok.inj hs).symm

end NoisePayloadType

structure NoisePayload where
  payloadType : NoisePayloadType
  data : Bytes
  deriving DecidableEq

namespace NoisePayload

def toBinary (payload : NoisePayload) : Bytes := payload.payloadType.asU8 :: payload.data

def fromBinary (experimental : Bool) : Bytes → BitchatResult NoisePayload
  | [] => invalidPacket "Empty noise payload"
  | typeByte :: data => do
    let payloadType ← NoisePayloadType.fromU8 experimental typeByte
    pure ⟨payloadType, data⟩

/-- What is read is what was written. -/
theorem fromBinary_eq_ok {experimental : Bool} {bytes : Bytes} {payload : NoisePayload}
    (haccepted : ∃ t, NoisePayloadType.fromU8 experimental payload.payloadType.asU8 = .ok t) :
    fromBinary experimental bytes = .ok payload ↔ bytes = payload.toBinary := by
  obtain ⟨t, ht⟩ := haccepted
  obtain rfl := NoisePayloadType.asU8_injective (NoisePayloadType.eq_asU8_of_fromU8 ht)
  cases bytes with
  | nil => simp [fromBinary, toBinary]
  | cons typeByte data =>
    simp only [fromBinary, bind_eq_ok, pure_eq_ok, Except.ok.injEq, toBinary, List.cons.injEq]
    constructor
    · rintro ⟨payloadType, hread, rfl⟩
      exact ⟨NoisePayloadType.eq_asU8_of_fromU8 hread, rfl⟩
    · rintro ⟨rfl, rfl⟩
      exact ⟨_, ht, rfl⟩

end NoisePayload

structure EmbeddingConfig where
  defaultStrategy : EmbeddingStrategy
  enablePadding : Bool
  maxPaddingBytes : ℕ
  enableTimingJitter : Bool
  maxTimingJitterMs : UInt64
  deriving DecidableEq

/-- The padding bytes that are drawn at random, none when the length 0 is drawn. -/
structure DrawnPadding (maxPaddingBytes : ℕ) where
  bytes : Bytes
  bounded : bytes.length ≤ maxPaddingBytes

namespace EmbeddingConfig

def default : EmbeddingConfig := ⟨.privateMessage, false, 128, false, 1000⟩

def privacyFocused : EmbeddingConfig := ⟨.privateMessage, true, 256, true, 2000⟩

def performanceFocused : EmbeddingConfig := ⟨.privateMessage, false, 0, false, 0⟩

def validate (config : EmbeddingConfig) : Except String Unit :=
  if 2048 < config.maxPaddingBytes then
    .error "max_padding_bytes exceeds reasonable limit (2048)"
  else if 60000 < config.maxTimingJitterMs then
    .error "max_timing_jitter_ms exceeds reasonable limit (60s)"
  else .ok ()

/-- The configurations that the code offers are valid. -/
theorem validate_offered :
    ∀ config ∈ [default, privacyFocused, performanceFocused], config.validate = .ok () := by
  decide

/-- The length byte holds the length modulo 256. -/
def applyPadding (config : EmbeddingConfig) (drawn : DrawnPadding config.maxPaddingBytes)
    (data : Bytes) : Bytes :=
  if config.enablePadding = false ∨ config.maxPaddingBytes = 0 then data
  else if drawn.bytes = [] then data
  else data ++ [UInt8.ofNat drawn.bytes.length] ++ drawn.bytes

/-- The lengths that are tried, from the end of the data. -/
def possibleLengths (limit : ℕ) (paddedData : Bytes) : List ℕ :=
  List.range' 1 (min limit (paddedData.length - 1))

/-- Whether the byte in front of the last `possible` bytes holds their number. -/
def storesLength (paddedData : Bytes) (possible : ℕ) : Bool :=
  if paddedData.length < possible + 1 then false
  else paddedData[paddedData.length - possible - 1]?.map UInt8.toNat = some possible

/-- Always `Ok`. -/
def removePadding (config : EmbeddingConfig) (paddedData : Bytes) : NostrResult Bytes :=
  if config.enablePadding = false ∨ paddedData = [] then .ok paddedData
  else if paddedData.length < 2 then .ok paddedData
  else
    match (possibleLengths config.maxPaddingBytes paddedData).find? (storesLength paddedData) with
    | some n => .ok (paddedData.take (paddedData.length - n - 1))
    | none => .ok paddedData

/-- Some byte counts the bytes behind it, at least one and at most `limit`. -/
def Marked (limit : ℕ) (bytes : Bytes) : Prop :=
  ∃ front marker behind, bytes = front ++ marker :: behind ∧ 0 < behind.length ∧
    behind.length ≤ limit ∧ marker.toNat = behind.length

/-- No byte is mistaken for the length byte: none of the padding, which counts up
to 255, or none of the message where no padding was drawn. -/
def Recovers (config : EmbeddingConfig) (drawn : DrawnPadding config.maxPaddingBytes)
    (data : Bytes) : Prop :=
  config.enablePadding = true →
    if drawn.bytes = [] then ¬ Marked config.maxPaddingBytes data
    else drawn.bytes.length ≤ 255 ∧ ¬ Marked config.maxPaddingBytes drawn.bytes

theorem storesLength_iff {paddedData : Bytes} {possible : ℕ} :
    storesLength paddedData possible = true ↔ ∃ front marker behind,
      paddedData = front ++ marker :: behind ∧ behind.length = possible ∧
        marker.toNat = possible := by
  unfold storesLength
  constructor
  · intro h
    split_ifs at h with hshort
    have hlt : paddedData.length - possible - 1 < paddedData.length := by omega
    have hmarker : paddedData[paddedData.length - possible - 1].toNat = possible := by
      simpa [List.getElem?_eq_getElem hlt] using h
    refine ⟨paddedData.take (paddedData.length - possible - 1), _,
      paddedData.drop (paddedData.length - possible - 1 + 1), ?_, ?_, hmarker⟩
    · rw [← List.drop_eq_getElem_cons hlt, List.take_append_drop]
    · rw [List.length_drop]
      omega
  · rintro ⟨front, marker, behind, rfl, rfl, hmarker⟩
    have hindex : (front ++ marker :: behind).length - behind.length - 1 = front.length := by
      simp only [List.length_append, List.length_cons]
      omega
    have hlong : ¬ (front ++ marker :: behind).length < behind.length + 1 := by
      simp only [List.length_append, List.length_cons]
      omega
    rw [if_neg hlong, hindex]
    simp [hmarker]

theorem marked_iff {limit : ℕ} {bytes : Bytes} :
    Marked limit bytes ↔ ∃ n ∈ List.range' 1 limit, storesLength bytes n = true := by
  constructor
  · rintro ⟨front, marker, behind, rfl, hpos, hle, hmarker⟩
    exact ⟨behind.length, List.mem_range'_1.mpr (by omega),
      storesLength_iff.mpr ⟨front, marker, behind, rfl, rfl, hmarker⟩⟩
  · rintro ⟨n, hn, hstores⟩
    obtain ⟨front, marker, behind, rfl, rfl, hmarker⟩ := storesLength_iff.mp hstores
    obtain ⟨hpos, hle⟩ := List.mem_range'_1.mp hn
    exact ⟨front, marker, behind, rfl, hpos, by omega, hmarker⟩

instance (limit : ℕ) (bytes : Bytes) : Decidable (Marked limit bytes) :=
  decidable_of_iff _ marked_iff.symm

instance (config : EmbeddingConfig) (drawn : DrawnPadding config.maxPaddingBytes) (data : Bytes) :
    Decidable (config.Recovers drawn data) :=
  inferInstanceAs (Decidable (_ → ite _ _ _))

/-- Within the last bytes of the data a marker is one of these bytes. -/
theorem unmarked_behind_iff {limit : ℕ} {front behind : Bytes} {marker : UInt8}
    (hlimit : behind.length ≤ limit) :
    ¬ Marked limit behind ↔ ∀ n, 1 ≤ n → n < behind.length →
      storesLength (front ++ marker :: behind) n = false := by
  constructor
  · intro hunmarked n hpos hlt
    by_contra hstores
    obtain ⟨front', marker', behind', hsplit, rfl, hmarker⟩ :=
      storesLength_iff.mp (Bool.not_eq_false _ ▸ hstores)
    have hsuffix : marker' :: behind' <:+ behind := by
      have hwhole : behind <:+ front ++ marker :: behind := ⟨front ++ [marker], by simp⟩
      exact List.suffix_of_suffix_length_le ⟨front', hsplit.symm⟩ hwhole (Nat.succ_le_of_lt hlt)
    obtain ⟨within, rfl⟩ := hsuffix
    simp only [List.length_append, List.length_cons] at hlimit
    exact hunmarked ⟨within, marker', behind', rfl, hpos, by omega, hmarker⟩
  · rintro hstores ⟨within, marker', behind', rfl, hpos, _, hmarker⟩
    have hlt : behind'.length < (within ++ marker' :: behind').length := by
      simp only [List.length_append, List.length_cons]
      omega
    have hnot := hstores behind'.length hpos hlt
    have hyes : storesLength (front ++ marker :: (within ++ marker' :: behind')) behind'.length =
        true := storesLength_iff.mpr ⟨front ++ marker :: within, marker', behind', by simp, rfl,
      hmarker⟩
    rw [hnot] at hyes
    exact Bool.false_ne_true hyes

/-- A marker behind which there is none stands at or behind every other one. -/
theorem front_of_unmarked {limit : ℕ} {front front' behind behind' : Bytes}
    {marker marker' : UInt8} (hsplit : front ++ marker :: behind = front' ++ marker' :: behind')
    (hmarked : 0 < behind'.length ∧ behind'.length ≤ limit ∧ marker'.toNat = behind'.length)
    (hunmarked : ¬ Marked limit behind) : front' <+: front := by
  rcases List.append_eq_append_iff.mp hsplit with ⟨between, hfront, hrest⟩ | ⟨between, hfront, _⟩
  · cases between with
    | nil => exact ⟨[], by simpa using hfront⟩
    | cons head within =>
      obtain ⟨_, hbehind⟩ := List.cons.inj hrest
      exact absurd ⟨within, marker', behind', hbehind, hmarked⟩ hunmarked
  · exact ⟨between, hfront.symm⟩

theorem unmarked_of_find?_none {limit : ℕ} {paddedData : Bytes}
    (h : (possibleLengths limit paddedData).find? (storesLength paddedData) = none) :
    ¬ Marked limit paddedData := by
  rintro ⟨front, marker, behind, rfl, hpos, hle, hmarker⟩
  have hstores := storesLength_iff.mpr ⟨front, marker, behind, rfl, rfl, hmarker⟩
  have hlt : behind.length ≤ (front ++ marker :: behind).length - 1 := by
    simp only [List.length_append, List.length_cons]
    omega
  have hnot := List.find?_range'_eq_none.mp h behind.length hpos (by omega)
  simp [hstores] at hnot

/-- The search ends at the last marker. -/
theorem marker_of_find?_some {limit n : ℕ} {paddedData : Bytes}
    (h : (possibleLengths limit paddedData).find? (storesLength paddedData) = some n) :
    ∃ front marker behind, paddedData = front ++ marker :: behind ∧ behind.length = n ∧
      (0 < behind.length ∧ behind.length ≤ limit ∧ marker.toNat = behind.length) ∧
      ¬ Marked limit behind := by
  obtain ⟨hstores, hrange, hfirst⟩ := List.find?_range'_eq_some.mp h
  obtain ⟨front, marker, behind, rfl, rfl, hmarker⟩ := storesLength_iff.mp hstores
  obtain ⟨hpos, hbound⟩ := List.mem_range'_1.mp hrange
  have hle : behind.length ≤ limit := by omega
  exact ⟨front, marker, behind, rfl, rfl, ⟨hpos, hle, hmarker⟩,
    (unmarked_behind_iff hle).mpr fun i hi hlt => by simpa using hfirst i hi hlt⟩

/-- Short data has no place for a marker, so the search alone decides. -/
theorem removePadding_enabled {config : EmbeddingConfig} (henabled : config.enablePadding = true)
    (paddedData : Bytes) :
    config.removePadding paddedData =
      match (possibleLengths config.maxPaddingBytes paddedData).find?
        (storesLength paddedData) with
      | some n => .ok (paddedData.take (paddedData.length - n - 1))
      | none => .ok paddedData := by
  unfold removePadding
  by_cases hshort : paddedData.length < 2
  · have hnone : paddedData.length - 1 = 0 := by omega
    simp [hshort, possibleLengths, hnone]
  · have hne : paddedData ≠ [] := by
      rintro rfl
      exact hshort (by decide)
    simp [henabled, hshort, hne]

/-- What stands in front of the last marker is read, or everything where there is none. -/
theorem removePadding_eq_ok {config : EmbeddingConfig} (henabled : config.enablePadding = true)
    {paddedData data : Bytes} :
    config.removePadding paddedData = .ok data ↔
      (∃ marker behind, paddedData = data ++ marker :: behind ∧
        (0 < behind.length ∧ behind.length ≤ config.maxPaddingBytes ∧
          marker.toNat = behind.length) ∧ ¬ Marked config.maxPaddingBytes behind) ∨
      (¬ Marked config.maxPaddingBytes paddedData ∧ data = paddedData) := by
  rw [removePadding_enabled henabled]
  cases hfind : (possibleLengths config.maxPaddingBytes paddedData).find?
      (storesLength paddedData) with
  | none =>
    have hunmarked := unmarked_of_find?_none hfind
    constructor
    · intro h
      exact Or.inr ⟨hunmarked, (Except.ok.inj h).symm⟩
    · rintro (⟨marker, behind, hsplit, hmarked, _⟩ | ⟨_, rfl⟩)
      · exact absurd ⟨data, marker, behind, hsplit, hmarked⟩ hunmarked
      · rfl
  | some n =>
    obtain ⟨front, marker, behind, rfl, rfl, hmarked, hlast⟩ := marker_of_find?_some hfind
    have hfront : (front ++ marker :: behind).length - behind.length - 1 = front.length := by
      simp only [List.length_append, List.length_cons]
      omega
    simp only [hfront, List.take_left, Except.ok.injEq]
    constructor
    · rintro rfl
      exact Or.inl ⟨marker, behind, rfl, hmarked, hlast⟩
    · rintro (⟨marker', behind', hsplit, hmarked', hlast'⟩ | ⟨hnone, _⟩)
      · have hbehind : data <+: front := front_of_unmarked hsplit hmarked' hlast
        have hahead : front <+: data := front_of_unmarked hsplit.symm hmarked hlast'
        exact hahead.sublist.antisymm hbehind.sublist
      · exact absurd ⟨front, marker, behind, rfl, hmarked⟩ hnone

/-- The bytes that padding adds. -/
def paddingSize (config : EmbeddingConfig) (drawn : DrawnPadding config.maxPaddingBytes) : ℕ :=
  if config.enablePadding = false ∨ drawn.bytes = [] then 0 else 1 + drawn.bytes.length

/-- No padding is drawn where the limit is 0. -/
theorem applyPadding_eq (config : EmbeddingConfig) (drawn : DrawnPadding config.maxPaddingBytes)
    (data : Bytes) :
    config.applyPadding drawn data =
      if config.enablePadding = false ∨ drawn.bytes = [] then data
      else data ++ UInt8.ofNat drawn.bytes.length :: drawn.bytes := by
  have hbounded := drawn.bounded
  unfold applyPadding
  by_cases hmax : config.maxPaddingBytes = 0
  · have hnil : drawn.bytes = [] := List.length_eq_zero_iff.mp (by omega)
    simp [hmax, hnil]
  · by_cases henabled : config.enablePadding = false <;> simp [hmax, henabled]

theorem applyPadding_length (config : EmbeddingConfig)
    (drawn : DrawnPadding config.maxPaddingBytes) (data : Bytes) :
    (config.applyPadding drawn data).length = data.length + config.paddingSize drawn := by
  rw [applyPadding_eq, paddingSize]
  split_ifs with hunpadded
  · rfl
  · simp only [List.length_append, List.length_cons]
    omega

/-- Padding that was drawn is found again exactly when its length byte is the
last marker. -/
theorem removePadding_applyPadding (config : EmbeddingConfig)
    (drawn : DrawnPadding config.maxPaddingBytes) (data : Bytes) :
    config.removePadding (config.applyPadding drawn data) = .ok data ↔
      config.Recovers drawn data := by
  unfold Recovers
  cases henabled : config.enablePadding with
  | false => simp [applyPadding, removePadding, henabled]
  | true =>
    rw [removePadding_eq_ok henabled, applyPadding_eq]
    by_cases hnil : drawn.bytes = []
    · simp only [hnil, henabled, or_true, if_true, and_true, forall_const]
      constructor
      · rintro (⟨marker, behind, hsplit, _⟩ | hunmarked)
        · exact absurd hsplit (by simp)
        · exact hunmarked
      · exact Or.inr
    · have hpos : 0 < drawn.bytes.length := List.length_pos_iff.mpr hnil
      simp only [hnil, henabled, Bool.true_eq_false, or_self, if_false, forall_const]
      constructor
      · rintro (⟨marker, behind, hsplit, ⟨_, _, hmarker⟩, hunmarked⟩ | ⟨_, hdata⟩)
        · obtain ⟨rfl, rfl⟩ := List.cons.inj (List.append_cancel_left hsplit)
          have hlt := (UInt8.ofNat drawn.bytes.length).toNat_lt
          exact ⟨by omega, hunmarked⟩
        · exact absurd hdata (by simp)
      · rintro ⟨hcounted, hunmarked⟩
        have hmarker : (UInt8.ofNat drawn.bytes.length).toNat = drawn.bytes.length := by
          rw [UInt8.toNat_ofNat']
          omega
        exact Or.inl ⟨_, _, rfl, ⟨hpos, drawn.bounded, hmarker⟩, hunmarked⟩

end EmbeddingConfig

namespace NostrEmbeddedBitChat

/-- The packet that `encode_pm_for_nostr_with_config` embeds. -/
def privatePacket (senderId recipientId : PeerId) (timestamp : Timestamp) (data : Bytes) :
    BitchatPacket :=
  ⟨PacketHeader.new .noiseEncrypted Ttl.default timestamp PacketFlags.none.withRecipient
    (UInt32.ofNat data.length), senderId, some recipientId, none, data, none⟩

def encodePmForNostrWithConfig (senderId recipientId : PeerId) (payload : NoisePayload)
    (config : EmbeddingConfig) (drawn : DrawnPadding config.maxPaddingBytes)
    (now : Timestamp) : BitchatResult Text := do
  let packet ← BitchatPacket.new .noiseEncrypted senderId (some recipientId) now
    (config.applyPadding drawn payload.toBinary) PacketFlags.none
  encodePacketToNostr packet

def extractNoisePayloadWithConfig (experimental : Bool) (packet : BitchatPacket)
    (config : EmbeddingConfig) : NostrResult NoisePayload :=
  if packet.payload = [] then fail (.deserializationFailed "Empty packet payload")
  else do
    let unpaddedData ← config.removePadding packet.payload
    rewrap (fun e => .deserializationFailed ("Failed to deserialize NoisePayload: " ++ e.display))
      (NoisePayload.fromBinary experimental unpaddedData)

theorem encodePm_eq (senderId recipientId : PeerId) (payload : NoisePayload)
    (config : EmbeddingConfig) (drawn : DrawnPadding config.maxPaddingBytes) (now : Timestamp) :
    encodePmForNostrWithConfig senderId recipientId payload config drawn now =
      encodePacketToNostr
        (privatePacket senderId recipientId now (config.applyPadding drawn payload.toBinary)) := by
  rfl

theorem flags_private : PacketFlags.none.withRecipient.hasRecipient = true ∧
    PacketFlags.none.withRecipient.hasRoute = false ∧
    PacketFlags.none.withRecipient.hasSignature = false := by decide

theorem validate_privatePacket (senderId recipientId : PeerId) (timestamp : Timestamp)
    (data : Bytes) :
    (privatePacket senderId recipientId timestamp data).validate = .ok () ↔
      data.length ≤ 255 := by
  obtain ⟨hrecipient, _, hsignature⟩ := flags_private
  have hcarries := PacketHeader.new_carries_iff .noiseEncrypted Ttl.default timestamp
    PacketFlags.none.withRecipient data.length
  rw [BitchatPacket.validate_eq_ok, ← hcarries]
  constructor
  · rintro ⟨hheader, hsame, _⟩
    exact ⟨hheader, hsame⟩
  · rintro ⟨hheader, hsame⟩
    exact ⟨hheader, hsame, hrecipient.symm, hsignature.symm⟩

/-- A private packet that is embedded has at most 255 bytes of payload, and its
text is read as the packet. -/
theorem decode_privatePacket {senderId recipientId : PeerId} {timestamp : Timestamp}
    {data : Bytes} {content : Text}
    (h : encodePacketToNostr (privatePacket senderId recipientId timestamp data) = .ok content) :
    data.length ≤ 255 ∧
      decodeFromNostr content = .ok (some (privatePacket senderId recipientId timestamp data)) := by
  obtain ⟨_, hroute, _⟩ := flags_private
  obtain ⟨bytes, hbytes, _⟩ := bind_eq_ok.mp h
  have hencode := rewrap_eq_ok.mp hbytes
  have hvalid := (WireFormat.encode_eq_ok.mp hencode).1
  exact ⟨(validate_privatePacket _ _ _ _).mp hvalid,
    decode_encode hencode (WireFormat.decode_of_encode hencode rfl hroute.symm) h⟩

/-- Up to 255 bytes are embedded. -/
theorem encode_privatePacket (senderId recipientId : PeerId) (timestamp : Timestamp)
    {data : Bytes} (hle : data.length ≤ 255) :
    ∃ content,
      encodePacketToNostr (privatePacket senderId recipientId timestamp data) = .ok content := by
  obtain ⟨_, hroute, _⟩ := flags_private
  have hvalid := (validate_privatePacket senderId recipientId timestamp data).mpr hle
  obtain ⟨bytes, hencode⟩ := WireFormat.encode_of_validate hvalid hroute
  exact ⟨_, bind_eq_ok.mpr ⟨bytes, rewrap_eq_ok.mpr hencode, rfl⟩⟩

/-- The payload is extracted exactly when its padding is removed. -/
theorem extract_privatePacket {experimental : Bool} {senderId recipientId : PeerId}
    {timestamp : Timestamp} {config : EmbeddingConfig}
    {drawn : DrawnPadding config.maxPaddingBytes} {payload : NoisePayload}
    (haccepted : ∃ t, NoisePayloadType.fromU8 experimental payload.payloadType.asU8 = .ok t) :
    extractNoisePayloadWithConfig experimental (privatePacket senderId recipientId timestamp
        (config.applyPadding drawn payload.toBinary)) config = .ok payload ↔
      config.Recovers drawn payload.toBinary := by
  have hlength := config.applyPadding_length drawn payload.toBinary
  have hne : config.applyPadding drawn payload.toBinary ≠ [] := by
    intro hnil
    rw [hnil, NoisePayload.toBinary, List.length_nil, List.length_cons] at hlength
    omega
  rw [← EmbeddingConfig.removePadding_applyPadding, extractNoisePayloadWithConfig, privatePacket,
    if_neg hne, bind_eq_ok]
  simp only [rewrap_eq_ok, NoisePayload.fromBinary_eq_ok haccepted, exists_eq_right]

/-- Whatever is embedded with the drawn padding is read as the payload. -/
def ReadsBack (experimental : Bool) (senderId recipientId : PeerId) (payload : NoisePayload)
    (config : EmbeddingConfig) (drawn : DrawnPadding config.maxPaddingBytes)
    (now : Timestamp) : Prop :=
  ∀ content, encodePmForNostrWithConfig senderId recipientId payload config drawn now =
      .ok content →
    ∃ packet, decodeFromNostr content = .ok (some packet) ∧
      extractNoisePayloadWithConfig experimental packet config = .ok payload

/-- The packet arrives as it was, so that the rest is up to the extraction. -/
theorem readsBack_iff_extract {experimental : Bool} {senderId recipientId : PeerId}
    {payload : NoisePayload} {config : EmbeddingConfig}
    {drawn : DrawnPadding config.maxPaddingBytes} {now : Timestamp} :
    ReadsBack experimental senderId recipientId payload config drawn now ↔
      ((config.applyPadding drawn payload.toBinary).length ≤ 255 →
        extractNoisePayloadWithConfig experimental (privatePacket senderId recipientId now
          (config.applyPadding drawn payload.toBinary)) config = .ok payload) := by
  constructor
  · intro hreads hfits
    obtain ⟨content, hcontent⟩ := encode_privatePacket senderId recipientId now hfits
    obtain ⟨packet, hdecode, hextract⟩ := hreads content (by rw [encodePm_eq, hcontent])
    rw [(decode_privatePacket hcontent).2] at hdecode
    obtain rfl := Option.some.inj (Except.ok.inj hdecode)
    exact hextract
  · intro hextract content hcontent
    rw [encodePm_eq] at hcontent
    obtain ⟨hfits, hdecode⟩ := decode_privatePacket hcontent
    exact ⟨_, hdecode, hextract hfits⟩

/-- An embedded payload is read back exactly when no byte is mistaken for the
length byte of its padding; a payload that is too long with its padding is not
embedded. Data alone is padded and unpadded under the same condition. -/
theorem readsBack_iff (experimental : Bool) (senderId recipientId : PeerId)
    (payload : NoisePayload) (config : EmbeddingConfig)
    (drawn : DrawnPadding config.maxPaddingBytes) (now : Timestamp)
    (haccepted : ∃ t, NoisePayloadType.fromU8 experimental payload.payloadType.asU8 = .ok t) :
    (ReadsBack experimental senderId recipientId payload config drawn now ↔
      (1 + payload.data.length + config.paddingSize drawn ≤ 255 →
        config.Recovers drawn payload.toBinary)) ∧
    ∀ data, config.removePadding (config.applyPadding drawn data) = .ok data ↔
      config.Recovers drawn data := by
  have hsize : (config.applyPadding drawn payload.toBinary).length =
      1 + payload.data.length + config.paddingSize drawn := by
    rw [EmbeddingConfig.applyPadding_length, NoisePayload.toBinary, List.length_cons]
    omega
  refine ⟨?_, config.removePadding_applyPadding drawn⟩
  rw [readsBack_iff_extract, extract_privatePacket haccepted, hsize]

/-- `Hi` as a private message. -/
def hiPayload : NoisePayload := ⟨.privateMessage, [72, 105]⟩

def hiSender : PeerId := ⟨List.Vector.replicate 8 1⟩

def hiRecipient : PeerId := ⟨List.Vector.replicate 8 2⟩

theorem readsBack_iff_hi :
    ReadsBack false hiSender hiRecipient hiPayload .privacyFocused ⟨[7, 9], by decide⟩ ⟨0⟩ :=
  (readsBack_iff false hiSender hiRecipient hiPayload .privacyFocused ⟨[7, 9], by decide⟩ ⟨0⟩
    ⟨_, rfl⟩).1.mpr fun _ => by decide +kernel

/-- Up to eight bytes of padding. -/
def shortPadding : EmbeddingConfig := ⟨.privateMessage, true, 8, false, 0⟩

/-- Two bytes of padding, the first of which counts the second. -/
def countingPadding : DrawnPadding shortPadding.maxPaddingBytes := ⟨[1, 0], by decide⟩

/-- The length byte stays behind the message. -/
theorem padding_read_as_length :
    shortPadding.validate = .ok () ∧
      NoisePayloadType.fromU8 false hiPayload.payloadType.asU8 = .ok hiPayload.payloadType ∧
      ¬ ReadsBack false hiSender hiRecipient hiPayload shortPadding countingPadding ⟨0⟩ ∧
      shortPadding.removePadding (shortPadding.applyPadding countingPadding [72, 105]) =
        .ok [72, 105, 2] := by
  refine ⟨by decide, rfl, ?_, by decide⟩
  rw [readsBack_iff_extract, extract_privatePacket ⟨_, rfl⟩]
  decide

end NostrEmbeddedBitChat

end Bitchat
