import Bitchat.Types

/-!
# The packet and its header

`MessageType`, `PacketFlags`, `PacketHeader` and `BitchatPacket` of `packet.rs`.
The header is written with a length field of one byte in version 1 and of four
bytes in version 2; `headerSize` is the size that the decoder assumes.
-/
namespace Bitchat
open Rust

def protocolVersion1 : UInt8 := 1
def protocolVersion2 : UInt8 := 2
def currentProtocolVersion : UInt8 := protocolVersion1
def headerSizeV1 : ℕ := 13
def headerSizeV2 : ℕ := 15
def maxPayloadSizeV1 : ℕ := 255
def maxPayloadSizeV2 : ℕ := 2 ^ 32 - 1

/-- Message types of the wire protocol. -/
inductive MessageType where
  | announce
  | message
  | leave
  | noiseHandshake
  | noiseEncrypted
  | fragment
  | requestSync
  | fileTransfer
  | versionHello
  | versionAck
  deriving DecidableEq, Repr

namespace MessageType

def asU8 : MessageType → UInt8
  | announce => 0x01
  | message => 0x02
  | leave => 0x03
  | noiseHandshake => 0x10
  | noiseEncrypted => 0x11
  | fragment => 0x20
  | requestSync => 0x21
  | fileTransfer => 0x22
  | versionHello => 0x30
  | versionAck => 0x31

def fromU8 (value : UInt8) : BitchatResult MessageType :=
  if value = 0x01 then .ok announce
  else if value = 0x02 then .ok message
  else if value = 0x03 then .ok leave
  else if value = 0x10 then .ok noiseHandshake
  else if value = 0x11 then .ok noiseEncrypted
  else if value = 0x20 then .ok fragment
  else if value = 0x21 then .ok requestSync
  else if value = 0x22 then .ok fileTransfer
  else if value = 0x30 then .ok versionHello
  else if value = 0x31 then .ok versionAck
  else invalidPacket "Unknown message type"

@[simp] theorem fromU8_asU8 (t : MessageType) : fromU8 t.asU8 = .ok t := by
  cases t <;> rfl

theorem asU8_injective : Function.Injective asU8 := by
  intro s t h
  have hs := fromU8_asU8 s
  rw [h, fromU8_asU8] at hs
  exact (Except.ok.inj hs).symm

end MessageType

/-- The flag byte of a packet. -/
structure PacketFlags where
  asU8 : UInt8
  deriving DecidableEq, Repr

namespace PacketFlags

def none : PacketFlags := ⟨0x00⟩
def recipientBit : UInt8 := 0x01
def signatureBit : UInt8 := 0x02
def compressedBit : UInt8 := 0x04
def routeBit : UInt8 := 0x08

def hasRecipient (f : PacketFlags) : Bool := f.asU8 &&& recipientBit != 0
def hasSignature (f : PacketFlags) : Bool := f.asU8 &&& signatureBit != 0
def isCompressed (f : PacketFlags) : Bool := f.asU8 &&& compressedBit != 0
def hasRoute (f : PacketFlags) : Bool := f.asU8 &&& routeBit != 0

def withRecipient (f : PacketFlags) : PacketFlags := ⟨f.asU8 ||| recipientBit⟩
def withSignature (f : PacketFlags) : PacketFlags := ⟨f.asU8 ||| signatureBit⟩
def withCompression (f : PacketFlags) : PacketFlags := ⟨f.asU8 ||| compressedBit⟩
def withRoute (f : PacketFlags) : PacketFlags := ⟨f.asU8 ||| routeBit⟩

end PacketFlags

structure PacketHeader where
  version : UInt8
  messageType : MessageType
  ttl : Ttl
  timestamp : Timestamp
  flags : PacketFlags
  payloadLength : UInt32
  deriving DecidableEq, Repr

namespace PacketHeader

def new (messageType : MessageType) (ttl : Ttl) (timestamp : Timestamp) (flags : PacketFlags)
    (payloadLength : UInt32) : PacketHeader :=
  ⟨currentProtocolVersion, messageType, ttl, timestamp, flags, payloadLength⟩

/-- The header size assumed for a version; unknown versions count as version 1. -/
def headerSize (h : PacketHeader) : ℕ :=
  if h.version = protocolVersion1 then headerSizeV1
  else if h.version = protocolVersion2 then headerSizeV2
  else headerSizeV1

def maxPayloadSize (h : PacketHeader) : ℕ :=
  if h.version = protocolVersion1 then maxPayloadSizeV1
  else if h.version = protocolVersion2 then maxPayloadSizeV2
  else maxPayloadSizeV1

def validate (h : PacketHeader) : BitchatResult Unit := do
  rejectIf (h.version ≠ protocolVersion1 ∧ h.version ≠ protocolVersion2)
    "Unsupported protocol version"
  rejectIf (h.maxPayloadSize < h.payloadLength.toNat) "Payload too large"
  rejectIf (h.version = protocolVersion1 ∧ 255 < h.payloadLength.toNat)
    "Payload too large for v1"

/-- Version, type, ttl, timestamp and flags, which both versions write alike. -/
def fixedBytes (h : PacketHeader) : Bytes :=
  [h.version, h.messageType.asU8, h.ttl.value] ++ u64ToBeBytes h.timestamp.asMillis ++
    [h.flags.asU8]

def toBytes (h : PacketHeader) : BitchatResult Bytes := do
  h.validate
  if h.version = protocolVersion1 then do
    rejectIf (255 < h.payloadLength.toNat) "Payload too large for v1 (max 255 bytes)"
    pure (h.fixedBytes ++ [h.payloadLength.toUInt8])
  else if h.version = protocolVersion2 then
    pure (h.fixedBytes ++ u32ToBeBytes h.payloadLength)
  else invalidPacket "Unsupported protocol version"

/-- The size that `fromBytes` demands of a header that starts with `version`. -/
def expectedSize (version : UInt8) : BitchatResult ℕ :=
  if version = protocolVersion1 then .ok headerSizeV1
  else if version = protocolVersion2 then .ok headerSizeV2
  else invalidPacket "Unsupported protocol version"

/-- The length field: byte 12 in version 1, bytes 12 to 15 in version 2. -/
def parsePayloadLength (version : UInt8) (bytes : Bytes) : BitchatResult UInt32 :=
  if version = protocolVersion1 then do
    let length ← index bytes 12
    pure length.toUInt32
  else if version = protocolVersion2 then do
    let part ← slice bytes 12 16
    let lengthBytes ← tryIntoArray 4 part (.invalidPacket "Invalid payload length")
    pure (u32FromBeBytes lengthBytes.toList)
  else invalidPacket "Unsupported protocol version"

def fromBytes (bytes : Bytes) : BitchatResult PacketHeader := do
  rejectIf (bytes = []) "Empty packet"
  let version ← index bytes 0
  let size ← expectedSize version
  rejectIf (bytes.length < size) "Packet too short"
  let typeByte ← index bytes 1
  let messageType ← MessageType.fromU8 typeByte
  let ttl ← index bytes 2
  let timestampPart ← slice bytes 3 11
  let timestampBytes ← tryIntoArray 8 timestampPart (.invalidPacket "Invalid timestamp")
  let flags ← index bytes 11
  let payloadLength ← parsePayloadLength version bytes
  let header : PacketHeader :=
    ⟨version, messageType, ⟨ttl⟩, ⟨u64FromBeBytes timestampBytes.toList⟩, ⟨flags⟩, payloadLength⟩
  header.validate
  pure header

@[simp] theorem fixedBytes_length (h : PacketHeader) : h.fixedBytes.length = 12 := by
  simp [fixedBytes]

theorem validate_eq_ok {h : PacketHeader} :
    h.validate = .ok () ↔
      (h.version = protocolVersion1 ∧ h.payloadLength.toNat ≤ 255) ∨
        h.version = protocolVersion2 := by
  have hlt := h.payloadLength.toNat_lt
  have hne : protocolVersion2 ≠ protocolVersion1 := by decide
  by_cases h1 : h.version = protocolVersion1
  · simp [validate, maxPayloadSize, maxPayloadSizeV1, h1, hne.symm]
  · by_cases h2 : h.version = protocolVersion2
    · simp [validate, maxPayloadSize, maxPayloadSizeV2, h2, hne]
      omega
    · simp [validate, h1, h2]

/-- A new header counts a payload and is valid with it up to 255 bytes. -/
theorem new_carries_iff (messageType : MessageType) (ttl : Ttl) (timestamp : Timestamp)
    (flags : PacketFlags) (size : ℕ) :
    (new messageType ttl timestamp flags (UInt32.ofNat size)).validate = .ok () ∧
      size = (UInt32.ofNat size).toNat ↔ size ≤ 255 := by
  have hlength : (UInt32.ofNat size).toNat = size % 2 ^ 32 := UInt32.toNat_ofNat'
  have hversion : (1 : UInt8) ≠ protocolVersion2 := by decide
  rw [validate_eq_ok]
  constructor
  · rintro ⟨⟨_, hle⟩ | hother, hsame⟩
    · have hle : (UInt32.ofNat size).toNat ≤ 255 := hle
      omega
    · exact absurd hother hversion
  · intro hle
    have hcounted : (UInt32.ofNat size).toNat ≤ 255 := by omega
    have hsame : size = (UInt32.ofNat size).toNat := by omega
    exact ⟨Or.inl ⟨rfl, hcounted⟩, hsame⟩

/-- A header that serialises is valid, and version 2 takes 16 bytes. -/
theorem toBytes_eq_ok {h : PacketHeader} {bytes : Bytes} :
    h.toBytes = .ok bytes ↔ h.validate = .ok () ∧
      bytes = h.fixedBytes ++
        (if h.version = protocolVersion1 then [h.payloadLength.toUInt8]
          else u32ToBeBytes h.payloadLength) := by
  unfold toBytes
  rw [bind_eq_ok]
  constructor
  · rintro ⟨⟨⟩, hv, hb⟩
    refine ⟨hv, ?_⟩
    split_ifs at hb ⊢ with h1 h2
    · rw [rejectIf_bind_eq_ok] at hb
      exact (Except.ok.inj hb.2).symm
    · exact (Except.ok.inj hb).symm
    · exact absurd hb (invalidPacket_ne_ok _ _)
  · rintro ⟨hv, rfl⟩
    refine ⟨(), hv, ?_⟩
    rcases validate_eq_ok.mp hv with ⟨h1, hle⟩ | h2
    · simp [h1, hle]
    · simp [h2, protocolVersion1, protocolVersion2]

end PacketHeader

structure BitchatPacket where
  header : PacketHeader
  senderId : PeerId
  recipientId : Option PeerId
  route : Option Bytes
  payload : Bytes
  signature : Option Signature64
  deriving DecidableEq

namespace BitchatPacket

def newSimple (messageType : MessageType) (senderId : PeerId) (payload : Bytes)
    (now : Timestamp) : BitchatPacket :=
  ⟨PacketHeader.new messageType Ttl.default now PacketFlags.none (UInt32.ofNat payload.length),
    senderId, none, none, payload, none⟩

/-- Nothing is checked here, not even the length of the payload. -/
def new (messageType : MessageType) (senderId : PeerId) (recipientId : Option PeerId)
    (timestamp : Timestamp) (payload : Bytes) (flags : PacketFlags) :
    BitchatResult BitchatPacket :=
  let finalFlags := if recipientId.isSome then flags.withRecipient else flags
  let header := PacketHeader.new messageType Ttl.default timestamp finalFlags
    (UInt32.ofNat payload.length)
  .ok ⟨header, senderId, recipientId, none, payload, none⟩

def withRecipient (p : BitchatPacket) (recipientId : PeerId) : BitchatPacket :=
  { p with
    recipientId := some recipientId
    header := { p.header with flags := p.header.flags.withRecipient } }

def isBroadcast (p : BitchatPacket) : Bool :=
  p.recipientId.isNone || p.recipientId == some PeerId.broadcast

/-- Checks the header, the payload length and the flags of recipient and
signature. The route is not checked against its flag. -/
def validate (p : BitchatPacket) : BitchatResult Unit := do
  p.header.validate
  rejectIf (p.payload.length ≠ p.header.payloadLength.toNat) "Payload length mismatch"
  rejectIf (p.header.flags.hasRecipient ∧ p.recipientId.isNone)
    "Recipient flag set but no recipient"
  rejectIf (¬ p.header.flags.hasRecipient ∧ p.recipientId.isSome)
    "Recipient present but flag not set"
  rejectIf (p.header.flags.hasSignature ∧ p.signature.isNone)
    "Signature flag set but no signature"
  rejectIf (¬ p.header.flags.hasSignature ∧ p.signature.isSome)
    "Signature present but flag not set"

/-- The two flag checks of an optional field together. -/
theorem flag_consistent {α : Type} (f : Bool) (o : Option α) :
    (¬ (f = true ∧ o.isNone = true) ∧ ¬ (¬ f = true ∧ o.isSome = true)) ↔ o.isSome = f := by
  cases f <;> cases o <;> simp

theorem validate_eq_ok {p : BitchatPacket} :
    p.validate = .ok () ↔ p.header.validate = .ok () ∧
      p.payload.length = p.header.payloadLength.toNat ∧
      p.recipientId.isSome = p.header.flags.hasRecipient ∧
      p.signature.isSome = p.header.flags.hasSignature := by
  have hrec := flag_consistent p.header.flags.hasRecipient p.recipientId
  have hsig := flag_consistent p.header.flags.hasSignature p.signature
  unfold validate
  rw [bind_eq_ok]
  simp only [rejectIf_bind_eq_ok, rejectIf_eq_ok, ne_eq, not_not, ← hrec, ← hsig, and_assoc]
  constructor
  · rintro ⟨_, h⟩
    exact h
  · intro h
    exact ⟨(), h⟩

end BitchatPacket

end Bitchat
