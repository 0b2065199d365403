import Bitchat.Packet
import Bitchat.Rust.Readers

/-!
# The binary wire format

`WireFormat::encode` and `WireFormat::decode` of `wire.rs`. The decoder reads
the sections behind the header at running offsets. Each section reader has one
specification in terms of slices, from which follow that a read does not depend
on the bytes behind it, and how far each section advances the offset.
-/
namespace Bitchat
open Rust

def signatureSize : ℕ := 64
def peerIdSize : ℕ := 8

namespace WireFormat

/-- The bytes of an optional section: nothing when its flag is clear, and an
error when the flag is set but the field is missing. -/
def encodeOptional {α : Type} (flag : Bool) (field : Option α) (bytes : α → BitchatResult Bytes)
    (missing : String) : BitchatResult Bytes :=
  if flag then
    match field with
    | some a => bytes a
    | none => invalidPacket missing
  else .ok []

/-- Two bytes of length, then the route. -/
def encodeRoute (route : Bytes) : BitchatResult Bytes := do
  rejectIf (2 ^ 16 - 1 < route.length) "Route too large"
  pure (u16ToBeBytes (UInt16.ofNat route.length) ++ route)

def encode (packet : BitchatPacket) : BitchatResult Bytes := do
  packet.validate
  let headerBytes ← packet.header.toBytes
  let recipient ← encodeOptional packet.header.flags.hasRecipient packet.recipientId
    (fun r => .ok r.asBytes) "Recipient flag set but no recipient"
  let route ← encodeOptional packet.header.flags.hasRoute packet.route encodeRoute
    "Route flag set but no route"
  let signature ← encodeOptional packet.header.flags.hasSignature packet.signature
    (fun s => .ok s.toList) "Signature flag set but no signature"
  pure (headerBytes ++ packet.senderId.asBytes ++ recipient ++ route ++ packet.payload ++ signature)

/-- An optional field, read only when its flag is set. -/
def readOptional {α : Type} (flag : Bool) (read : ℕ → BitchatResult (α × ℕ)) (offset : ℕ) :
    BitchatResult (Option α × ℕ) :=
  if flag then do
    let (a, offset) ← read offset
    pure (some a, offset)
  else .ok (none, offset)

section Readers

variable [Offsets]

/-- A field of `n` bytes at `offset`, and the offset behind it. -/
def readArray (n : ℕ) (bytes : Bytes) (offset : ℕ) (tooShort invalid : String) :
    BitchatResult (List.Vector UInt8 n × ℕ) := do
  let stop ← Offsets.add offset n
  rejectIf (bytes.length < stop) tooShort
  let part ← slice bytes offset stop
  let array ← tryIntoArray n part (.invalidPacket invalid)
  pure (array, stop)

/-- A run of `n` bytes at `offset`, and the offset behind it. -/
def readBytes (n : ℕ) (bytes : Bytes) (offset : ℕ) (tooShort : String) :
    BitchatResult (Bytes × ℕ) := do
  let stop ← Offsets.add offset n
  rejectIf (bytes.length < stop) tooShort
  let part ← slice bytes offset stop
  pure (part, stop)

def readRoute (bytes : Bytes) (offset : ℕ) : BitchatResult (Bytes × ℕ) := do
  let (lengthBytes, offset) ← readArray 2 bytes offset "Packet too short for route length"
    "Invalid route length"
  readBytes (u16FromBeBytes lengthBytes.toList).toNat bytes offset
    "Packet too short for route data"

def readSender (bytes : Bytes) (offset : ℕ) : BitchatResult (List.Vector UInt8 8 × ℕ) :=
  readArray peerIdSize bytes offset "Packet too short for sender ID" "Invalid sender ID"

def readRecipient (bytes : Bytes) (offset : ℕ) : BitchatResult (List.Vector UInt8 8 × ℕ) :=
  readArray peerIdSize bytes offset "Packet too short for recipient ID" "Invalid recipient ID"

def readSignature (bytes : Bytes) (offset : ℕ) : BitchatResult (Signature64 × ℕ) :=
  readArray signatureSize bytes offset "Packet too short for signature" "Invalid signature"

/-- The fields of a packet in order, and the offset behind the last of them. -/
def parse (bytes : Bytes) : BitchatResult (BitchatPacket × ℕ) := do
  rejectIf (bytes = []) "Empty packet"
  let header ← PacketHeader.fromBytes bytes
  rejectIf (bytes.length < header.headerSize) "Packet too short for header"
  let (sender, offset) ← readSender bytes header.headerSize
  let (recipient, offset) ← readOptional header.flags.hasRecipient (readRecipient bytes) offset
  let (route, offset) ← readOptional header.flags.hasRoute (readRoute bytes) offset
  let (payload, offset) ← readBytes header.payloadLength.toNat bytes offset
    "Packet too short for payload"
  let (signature, offset) ← readOptional header.flags.hasSignature (readSignature bytes) offset
  pure (⟨header, ⟨sender⟩, recipient.map PeerId.mk, route, payload, signature⟩, offset)

def decode (bytes : Bytes) : BitchatResult BitchatPacket := do
  let (packet, offset) ← parse bytes
  rejectIf (offset ≠ bytes.length) "Packet has trailing data"
  packet.validate
  pure packet

end Readers

/-! ## Section readers -/

theorem readArray_eq_ok {n : ℕ} {bytes : Bytes} {offset next : ℕ} {tooShort invalid : String}
    {v : List.Vector UInt8 n} :
    readArray n bytes offset tooShort invalid = .ok (v, next) ↔
      (slice bytes offset (offset + n) : BitchatResult Bytes) = .ok v.toList ∧
        next = offset + n := by
  unfold readArray
  rw [Offsets.add_eq_ok, ok_bind, rejectIf_bind_eq_ok]
  simp only [bind_eq_ok, tryIntoArray_eq_ok, pure_eq_ok, Except.ok.injEq, Prod.mk.injEq]
  constructor
  · rintro ⟨_, part, hpart, _, rfl, rfl, rfl⟩
    exact ⟨hpart, rfl⟩
  · rintro ⟨hpart, rfl⟩
    have hlen := (slice_length hpart).2
    exact ⟨by omega, _, hpart, v, rfl, rfl, rfl⟩

theorem readBytes_eq_ok {n : ℕ} {bytes part : Bytes} {offset next : ℕ} {tooShort : String} :
    readBytes n bytes offset tooShort = .ok (part, next) ↔
      (slice bytes offset (offset + n) : BitchatResult Bytes) = .ok part ∧ next = offset + n := by
  unfold readBytes
  rw [Offsets.add_eq_ok, ok_bind, rejectIf_bind_eq_ok]
  simp only [bind_eq_ok, pure_eq_ok, Except.ok.injEq, Prod.mk.injEq]
  constructor
  · rintro ⟨_, _, hpart, rfl, rfl⟩
    exact ⟨hpart, rfl⟩
  · rintro ⟨hpart, rfl⟩
    have hlen := (slice_length hpart).2
    exact ⟨by omega, part, hpart, rfl, rfl⟩

theorem readRoute_eq_ok {bytes route : Bytes} {offset next : ℕ} :
    readRoute bytes offset = .ok (route, next) ↔
      ∃ lengthBytes : List.Vector UInt8 2,
        (slice bytes offset (offset + 2) : BitchatResult Bytes) = .ok lengthBytes.toList ∧
        (slice bytes (offset + 2) next : BitchatResult Bytes) = .ok route ∧
        next = offset + 2 + (u16FromBeBytes lengthBytes.toList).toNat := by
  unfold readRoute
  simp only [bind_eq_ok, Prod.exists, readArray_eq_ok, readBytes_eq_ok]
  constructor
  · rintro ⟨v, _, ⟨hv, rfl⟩, hroute, rfl⟩
    exact ⟨v, hv, hroute, rfl⟩
  · rintro ⟨v, hv, hroute, rfl⟩
    exact ⟨v, _, ⟨hv, rfl⟩, hroute, rfl⟩

theorem readOptional_eq_ok {α : Type} {flag : Bool} {read : ℕ → BitchatResult (α × ℕ)}
    {offset next : ℕ} {field : Option α} :
    readOptional flag read offset = .ok (field, next) ↔
      (flag = true ∧ ∃ a, field = some a ∧ read offset = .ok (a, next)) ∨
        (flag = false ∧ field = none ∧ next = offset) := by
  cases flag with
  | true =>
    simp only [readOptional, if_true, bind_eq_ok, Prod.exists, pure_eq_ok, Except.ok.injEq,
      Prod.mk.injEq]
    constructor
    · rintro ⟨a, _, hread, rfl, rfl⟩
      exact Or.inl ⟨trivial, a, rfl, hread⟩
    · rintro (⟨_, a, rfl, hread⟩ | ⟨hf, _⟩)
      · exact ⟨a, next, hread, rfl, rfl⟩
      · cases hf
  | false =>
    simp only [readOptional, Bool.false_eq_true, if_false, Except.ok.injEq, Prod.mk.injEq,
      false_and, true_and, false_or]
    exact and_congr eq_comm eq_comm

/-- A reader does not look behind what it consumes. -/
def Stable {α : Type} (read : Bytes → ℕ → BitchatResult (α × ℕ)) : Prop :=
  ∀ bytes more offset r, read bytes offset = .ok r → read (bytes ++ more) offset = .ok r

theorem stable_readArray (n : ℕ) (tooShort invalid : String) :
    Stable fun bytes offset => readArray n bytes offset tooShort invalid := by
  intro bytes more offset ⟨v, next⟩ h
  rw [readArray_eq_ok] at h ⊢
  exact ⟨slice_append more h.1, h.2⟩

theorem stable_readBytes (n : ℕ) (tooShort : String) :
    Stable fun bytes offset => readBytes n bytes offset tooShort := by
  intro bytes more offset ⟨part, next⟩ h
  rw [readBytes_eq_ok] at h ⊢
  exact ⟨slice_append more h.1, h.2⟩

theorem stable_readRoute : Stable readRoute := by
  intro bytes more offset ⟨route, next⟩ h
  rw [readRoute_eq_ok] at h ⊢
  obtain ⟨v, hv, hroute, hnext⟩ := h
  exact ⟨v, slice_append more hv, slice_append more hroute, hnext⟩

theorem stable_readOptional {α : Type} {read : Bytes → ℕ → BitchatResult (α × ℕ)} (flag : Bool)
    (hread : Stable read) : Stable fun bytes offset => readOptional flag (read bytes) offset := by
  intro bytes more offset ⟨field, next⟩ h
  rw [readOptional_eq_ok] at h ⊢
  rcases h with ⟨hf, a, ha, hr⟩ | h
  · exact Or.inl ⟨hf, a, ha, hread bytes more offset _ hr⟩
  · exact Or.inr h

/-- The reader finds `a` where `part` was written, whatever stands around it. -/
def Reads {α : Type} (read : Bytes → ℕ → BitchatResult (α × ℕ)) (part : Bytes) (a : α) : Prop :=
  ∀ front more, read (front ++ part ++ more) front.length = .ok (a, (front ++ part).length)

theorem reads_readArray {n : ℕ} (v : List.Vector UInt8 n) (tooShort invalid : String) :
    Reads (fun bytes offset => readArray n bytes offset tooShort invalid) v.toList v := by
  intro front more
  have hslice := slice_middle (ε := BitchatError) front v.toList more
  rw [v.toList_length] at hslice
  exact readArray_eq_ok.mpr ⟨hslice, by simp⟩

theorem reads_readBytes (part : Bytes) (tooShort : String) :
    Reads (fun bytes offset => readBytes part.length bytes offset tooShort) part part := by
  intro front more
  exact readBytes_eq_ok.mpr ⟨slice_middle front part more, by simp⟩

theorem reads_readRoute {route bytes : Bytes} (h : encodeRoute route = .ok bytes) :
    Reads readRoute bytes route := by
  obtain ⟨hle, hbytes⟩ := rejectIf_bind_eq_ok.mp h
  obtain rfl := (Except.ok.inj hbytes).symm
  intro front more
  have hlength : (UInt16.ofNat route.length).toNat = route.length := by
    rw [UInt16.toNat_ofNat']
    exact Nat.mod_eq_of_lt (by omega)
  have hfirst := slice_middle (ε := BitchatError) front (u16ToBeBytes (UInt16.ofNat route.length))
    (route ++ more)
  have hsecond := slice_middle (ε := BitchatError)
    (front ++ u16ToBeBytes (UInt16.ofNat route.length)) route more
  refine readRoute_eq_ok.mpr ⟨⟨u16ToBeBytes (UInt16.ofNat route.length), by simp⟩, ?_, ?_, ?_⟩
  · simpa [List.append_assoc] using hfirst
  · simpa [List.append_assoc, Nat.add_assoc] using hsecond
  · show _ = _ + 2 + (u16FromBeBytes (u16ToBeBytes (UInt16.ofNat route.length))).toNat
    rw [u16FromBeBytes_toBeBytes, hlength]
    simp [Nat.add_assoc]

/-- An optional section reads back when its field does and its presence is the flag. -/
theorem reads_readOptional {α : Type} (read : Bytes → ℕ → BitchatResult (α × ℕ))
    {encodeField : α → BitchatResult Bytes} {flag : Bool} {field : Option α} {missing : String}
    {part : Bytes} (hread : ∀ a bytes, encodeField a = .ok bytes → Reads read bytes a)
    (hpresent : field.isSome = flag)
    (hpart : encodeOptional flag field encodeField missing = .ok part) :
    Reads (fun bytes offset => readOptional flag (read bytes) offset) part field := by
  intro front more
  cases field with
  | some a =>
    obtain rfl : true = flag := hpresent
    exact readOptional_eq_ok.mpr (Or.inl ⟨rfl, a, rfl, hread a part hpart front more⟩)
  | none =>
    obtain rfl : false = flag := hpresent
    obtain rfl : [] = part := Except.ok.inj hpart
    exact readOptional_eq_ok.mpr (Or.inr ⟨rfl, rfl, by simp⟩)

end WireFormat

/-! ## The header -/

namespace PacketHeader

theorem expectedSize_eq_ok {version : UInt8} {size : ℕ} :
    expectedSize version = .ok size ↔
      (version = protocolVersion1 ∧ size = headerSizeV1) ∨
        (version = protocolVersion2 ∧ size = headerSizeV2) := by
  unfold expectedSize
  split_ifs with h1 h2
  · simp [h1, protocolVersion1, protocolVersion2, eq_comm]
  · simp [h2, protocolVersion1, protocolVersion2, eq_comm]
  · simp [h1, h2]

theorem parsePayloadLength_append {version : UInt8} {bytes : Bytes} {length : UInt32}
    (more : Bytes) (h : parsePayloadLength version bytes = .ok length) :
    parsePayloadLength version (bytes ++ more) = .ok length := by
  unfold parsePayloadLength at h ⊢
  split_ifs at h ⊢ with h1 h2
  · obtain ⟨b, hb, hlen⟩ := bind_eq_ok.mp h
    rw [index_append more hb]
    exact hlen
  · obtain ⟨part, hpart, hlen⟩ := bind_eq_ok.mp h
    rw [slice_append more hpart]
    exact hlen
  · exact h

/-- What a parsed header says about the bytes it was parsed from. -/
theorem fromBytes_eq_ok {bytes : Bytes} {h : PacketHeader} :
    fromBytes bytes = .ok h ↔
      (index bytes 0 : BitchatResult UInt8) = .ok h.version ∧
      h.headerSize ≤ bytes.length ∧
      (∃ typeByte, (index bytes 1 : BitchatResult UInt8) = .ok typeByte ∧
        MessageType.fromU8 typeByte = .ok h.messageType) ∧
      (index bytes 2 : BitchatResult UInt8) = .ok h.ttl.value ∧
      (∃ timestampBytes : List.Vector UInt8 8,
        (slice bytes 3 11 : BitchatResult Bytes) = .ok timestampBytes.toList ∧
        h.timestamp.asMillis = u64FromBeBytes timestampBytes.toList) ∧
      (index bytes 11 : BitchatResult UInt8) = .ok h.flags.asU8 ∧
      parsePayloadLength h.version bytes = .ok h.payloadLength ∧ h.validate = .ok () := by
  unfold fromBytes
  rw [rejectIf_bind_eq_ok]
  constructor
  · rintro ⟨_, hrest⟩
    obtain ⟨version, hversion, hrest⟩ := bind_eq_ok.mp hrest
    obtain ⟨size, hsize, hrest⟩ := bind_eq_ok.mp hrest
    obtain ⟨hlength, hrest⟩ := rejectIf_bind_eq_ok.mp hrest
    obtain ⟨typeByte, htype, hrest⟩ := bind_eq_ok.mp hrest
    obtain ⟨messageType, hmessage, hrest⟩ := bind_eq_ok.mp hrest
    obtain ⟨ttl, httl, hrest⟩ := bind_eq_ok.mp hrest
    obtain ⟨timestampPart, htimestamp, hrest⟩ := bind_eq_ok.mp hrest
    obtain ⟨timestampBytes, harray, hrest⟩ := bind_eq_ok.mp hrest
    obtain ⟨flags, hflags, hrest⟩ := bind_eq_ok.mp hrest
    obtain ⟨payloadLength, hpayload, hrest⟩ := bind_eq_ok.mp hrest
    obtain ⟨⟨⟩, hvalid, hheader⟩ := bind_eq_ok.mp hrest
    obtain rfl := (Except.ok.inj hheader).symm
    obtain rfl := tryIntoArray_eq_ok.mp harray
    refine ⟨hversion, ?_, ⟨typeByte, htype, hmessage⟩, httl, ⟨timestampBytes, htimestamp, rfl⟩,
      hflags, hpayload, hvalid⟩
    rcases expectedSize_eq_ok.mp hsize with ⟨rfl, rfl⟩ | ⟨rfl, rfl⟩
    · simpa [headerSize] using hlength
    · simpa [headerSize, protocolVersion1, protocolVersion2] using hlength
  · rintro ⟨hversion, hlength, ⟨typeByte, htype, hmessage⟩, httl, ⟨timestampBytes, htimestamp, hts⟩,
      hflags, hpayload, hvalid⟩
    have hne : bytes ≠ [] := by
      rintro rfl
      simp [index_eq_ok] at hversion
    have hsize : expectedSize h.version = .ok h.headerSize := by
      rcases validate_eq_ok.mp hvalid with ⟨h1, _⟩ | h2
      · exact expectedSize_eq_ok.mpr (Or.inl ⟨h1, by simp [headerSize, h1]⟩)
      · refine expectedSize_eq_ok.mpr (Or.inr ⟨h2, ?_⟩)
        simp [headerSize, h2, protocolVersion1, protocolVersion2]
    refine ⟨hne, ?_⟩
    obtain ⟨version, messageType, ⟨ttl⟩, ⟨timestamp⟩, ⟨flags⟩, payloadLength⟩ := h
    obtain rfl : timestamp = _ := hts
    simp only [hversion, hsize, htype, hmessage, httl, htimestamp, hflags, hpayload, ok_bind,
      tryIntoArray_toList, hvalid, pure_eq_ok]
    exact rejectIf_bind_eq_ok.mpr ⟨by omega, rfl⟩

theorem fromBytes_append {bytes : Bytes} {h : PacketHeader} (more : Bytes)
    (hparse : fromBytes bytes = .ok h) : fromBytes (bytes ++ more) = .ok h := by
  rw [fromBytes_eq_ok] at hparse ⊢
  obtain ⟨hversion, hlength, ⟨typeByte, htype, hmessage⟩, httl, ⟨timestampBytes, htimestamp, hts⟩,
    hflags, hpayload, hvalid⟩ := hparse
  refine ⟨index_append more hversion, ?_, ⟨typeByte, index_append more htype, hmessage⟩,
    index_append more httl, ⟨timestampBytes, slice_append more htimestamp, hts⟩,
    index_append more hflags, parsePayloadLength_append more hpayload, hvalid⟩
  rw [List.length_append]
  omega

theorem parsePayloadLength_toBytes {h : PacketHeader} {bytes : Bytes} (more : Bytes)
    (hbytes : h.toBytes = .ok bytes) :
    parsePayloadLength h.version (bytes ++ more) = .ok h.payloadLength := by
  obtain ⟨hvalid, rfl⟩ := toBytes_eq_ok.mp hbytes
  rcases validate_eq_ok.mp hvalid with ⟨hversion, hle⟩ | hversion
  · have hlength : h.payloadLength.toUInt8.toUInt32 = h.payloadLength := by
      apply UInt32.toNat_inj.mp
      simp only [UInt8.toNat_toUInt32, UInt32.toNat_toUInt8]
      omega
    have hget : (index (h.fixedBytes ++ h.payloadLength.toUInt8 :: more) 12 :
        BitchatResult UInt8) = .ok h.payloadLength.toUInt8 := by
      rw [index_eq_ok, ← h.fixedBytes_length]
      simp
    simp [parsePayloadLength, hversion, hget, hlength]
  · have hne : protocolVersion2 ≠ protocolVersion1 := by decide
    have hslice := slice_middle (ε := BitchatError) h.fixedBytes (u32ToBeBytes h.payloadLength) more
    rw [h.fixedBytes_length, u32ToBeBytes_length] at hslice
    rw [if_neg (by rw [hversion]; exact hne), parsePayloadLength,
      if_neg (by rw [hversion]; exact hne), if_pos hversion]
    refine bind_eq_ok.mpr ⟨_, hslice, bind_eq_ok.mpr
      ⟨⟨u32ToBeBytes h.payloadLength, u32ToBeBytes_length _⟩, tryIntoArray_eq_ok.mpr rfl, ?_⟩⟩
    exact congrArg Except.ok (u32FromBeBytes_toBeBytes _)

/-- A header is read back from the bytes it was written to. -/
theorem fromBytes_toBytes {h : PacketHeader} {bytes : Bytes} (more : Bytes)
    (hbytes : h.toBytes = .ok bytes) : fromBytes (bytes ++ more) = .ok h := by
  have hlength := parsePayloadLength_toBytes more hbytes
  obtain ⟨hvalid, hbytes⟩ := toBytes_eq_ok.mp hbytes
  have hsize : h.headerSize ≤ bytes.length := by
    rw [hbytes]
    rcases validate_eq_ok.mp hvalid with ⟨hversion, _⟩ | hversion
    · simp [headerSize, hversion, headerSizeV1]
    · simp [headerSize, hversion, protocolVersion1, protocolVersion2, headerSizeV2]
  have hfixed : ∃ rest, bytes ++ more = h.fixedBytes ++ rest := by
    rw [hbytes]
    exact ⟨_, List.append_assoc _ _ _⟩
  obtain ⟨rest, hrest⟩ := hfixed
  have hslice := slice_middle (ε := BitchatError)
    [h.version, h.messageType.asU8, h.ttl.value] (u64ToBeBytes h.timestamp.asMillis)
    ([h.flags.asU8] ++ rest)
  have hflags : (index (h.fixedBytes ++ rest) 11 : BitchatResult UInt8) = .ok h.flags.asU8 := by
    have front : ([h.version, h.messageType.asU8, h.ttl.value] ++
        u64ToBeBytes h.timestamp.asMillis).length = 11 := by simp
    rw [index_eq_ok, fixedBytes, List.append_assoc, ← front]
    simp
  rw [hrest] at hlength ⊢
  have hle : h.headerSize ≤ (h.fixedBytes ++ rest).length := by
    rw [← hrest, List.length_append]
    omega
  refine fromBytes_eq_ok.mpr ⟨rfl, hle, ⟨h.messageType.asU8, rfl, MessageType.fromU8_asU8 _⟩, rfl,
    ⟨⟨u64ToBeBytes h.timestamp.asMillis, u64ToBeBytes_length _⟩, ?_, ?_⟩, hflags, hlength, hvalid⟩
  · simpa [fixedBytes] using hslice
  · exact (u64FromBeBytes_toBeBytes _).symm

end PacketHeader

/-! ## Whole packets -/

namespace WireFormat

/-- The bytes that the sections of a packet take behind its header. -/
def bodySize (p : BitchatPacket) : ℕ :=
  peerIdSize + (p.recipientId.elim 0 fun _ => peerIdSize) +
    (p.route.elim 0 fun route => 2 + route.length) + p.payload.length +
    (p.signature.elim 0 fun _ => signatureSize)

/-- The inversion of the decoder: the sections it read, and at which offsets. -/
theorem parse_eq_ok {bytes : Bytes} {packet : BitchatPacket} {stop : ℕ} :
    parse bytes = .ok (packet, stop) ↔
      PacketHeader.fromBytes bytes = .ok packet.header ∧
      ∃ o1 o2 o3 o4,
        readSender bytes packet.header.headerSize = .ok (packet.senderId.bytes, o1) ∧
        readOptional packet.header.flags.hasRecipient (readRecipient bytes) o1 =
          .ok (packet.recipientId.map PeerId.bytes, o2) ∧
        readOptional packet.header.flags.hasRoute (readRoute bytes) o2 = .ok (packet.route, o3) ∧
        readBytes packet.header.payloadLength.toNat bytes o3 "Packet too short for payload" =
          .ok (packet.payload, o4) ∧
        readOptional packet.header.flags.hasSignature (readSignature bytes) o4 =
          .ok (packet.signature, stop) := by
  unfold parse
  rw [rejectIf_bind_eq_ok]
  constructor
  · rintro ⟨_, hrest⟩
    obtain ⟨header, hheader, hrest⟩ := bind_eq_ok.mp hrest
    obtain ⟨_, hrest⟩ := rejectIf_bind_eq_ok.mp hrest
    obtain ⟨⟨sender, o1⟩, hsender, hrest⟩ := bind_eq_ok.mp hrest
    obtain ⟨⟨recipient, o2⟩, hrecipient, hrest⟩ := bind_eq_ok.mp hrest
    obtain ⟨⟨route, o3⟩, hroute, hrest⟩ := bind_eq_ok.mp hrest
    obtain ⟨⟨payload, o4⟩, hpayload, hrest⟩ := bind_eq_ok.mp hrest
    obtain ⟨⟨signature, o5⟩, hsignature, hrest⟩ := bind_eq_ok.mp hrest
    obtain ⟨rfl, rfl⟩ := Prod.mk.inj (Except.ok.inj hrest)
    refine ⟨hheader, o1, o2, o3, o4, hsender, ?_, hroute, hpayload, hsignature⟩
    rw [hrecipient, Option.map_map]
    simp [Function.comp_def]
  · rintro ⟨hheader, o1, o2, o3, o4, hsender, hrecipient, hroute, hpayload, hsignature⟩
    obtain ⟨hversion, hlength, -⟩ := PacketHeader.fromBytes_eq_ok.mp hheader
    have hne : bytes ≠ [] := by
      rintro rfl
      simp [index_eq_ok] at hversion
    refine ⟨hne, ?_⟩
    simp only [hheader, hsender, hrecipient, hroute, hpayload, hsignature, ok_bind]
    refine rejectIf_bind_eq_ok.mpr ⟨by omega, ?_⟩
    simp [Function.comp_def]

/-- Bytes behind a packet do not change how it parses. -/
theorem parse_append {bytes : Bytes} {r : BitchatPacket × ℕ} (more : Bytes)
    (h : parse bytes = .ok r) : parse (bytes ++ more) = .ok r := by
  obtain ⟨packet, stop⟩ := r
  rw [parse_eq_ok] at h ⊢
  obtain ⟨hheader, o1, o2, o3, o4, hsender, hrecipient, hroute, hpayload, hsignature⟩ := h
  exact ⟨PacketHeader.fromBytes_append more hheader, o1, o2, o3, o4,
    stable_readArray _ _ _ bytes more _ _ hsender,
    stable_readOptional _ (stable_readArray _ _ _) bytes more _ _ hrecipient,
    stable_readOptional _ stable_readRoute bytes more _ _ hroute,
    stable_readBytes _ _ bytes more _ _ hpayload,
    stable_readOptional _ (stable_readArray _ _ _) bytes more _ _ hsignature⟩

theorem decode_eq_ok {bytes : Bytes} {packet : BitchatPacket} :
    decode bytes = .ok packet ↔
      parse bytes = .ok (packet, bytes.length) ∧ packet.validate = .ok () := by
  unfold decode
  rw [bind_eq_ok]
  constructor
  · rintro ⟨⟨p, stop⟩, hparse, hrest⟩
    obtain ⟨hstop, hrest⟩ := rejectIf_bind_eq_ok.mp hrest
    obtain ⟨⟨⟩, hvalid, hpacket⟩ := bind_eq_ok.mp hrest
    obtain rfl := Except.ok.inj hpacket
    obtain rfl := not_not.mp hstop
    exact ⟨hparse, hvalid⟩
  · rintro ⟨hparse, hvalid⟩
    refine ⟨_, hparse, rejectIf_bind_eq_ok.mpr ⟨by simp, ?_⟩⟩
    rw [hvalid]
    rfl

/-- No packet is a proper prefix of another. -/
theorem decode_append {bytes more : Bytes} {p q : BitchatPacket} (hp : decode bytes = .ok p)
    (hq : decode (bytes ++ more) = .ok q) : more = [] := by
  have hparse := parse_append more (decode_eq_ok.mp hp).1
  rw [(decode_eq_ok.mp hq).1] at hparse
  have hlength := congrArg Prod.snd (Except.ok.inj hparse)
  simpa using hlength

/-- How far an optional section moves the offset. -/
theorem readOptional_offset {α : Type} (size : α → ℕ) {flag : Bool}
    {read : ℕ → BitchatResult (α × ℕ)} {offset next : ℕ} {field : Option α}
    (hread : ∀ a o, read offset = .ok (a, o) → o = offset + size a)
    (h : readOptional flag read offset = .ok (field, next)) :
    field.isSome = flag ∧ next = offset + field.elim 0 size := by
  rcases readOptional_eq_ok.mp h with ⟨rfl, a, rfl, ha⟩ | ⟨rfl, rfl, rfl⟩
  · exact ⟨rfl, hread a next ha⟩
  · exact ⟨rfl, rfl⟩

theorem readRoute_offset {bytes route : Bytes} {offset next : ℕ}
    (h : readRoute bytes offset = .ok (route, next)) : next = offset + (2 + route.length) := by
  obtain ⟨v, _, hroute, hnext⟩ := readRoute_eq_ok.mp h
  have hlength := (slice_length hroute).1
  omega

/-- The decoder takes the route exactly when its flag is set, and stops behind
the assumed header size and the sections. -/
theorem parse_offset {bytes : Bytes} {packet : BitchatPacket} {stop : ℕ}
    (h : parse bytes = .ok (packet, stop)) :
    packet.route.isSome = packet.header.flags.hasRoute ∧
      stop = packet.header.headerSize + bodySize packet := by
  obtain ⟨_, o1, o2, o3, o4, hsender, hrecipient, hroute, hpayload, hsignature⟩ :=
    parse_eq_ok.mp h
  have h1 := (readArray_eq_ok.mp hsender).2
  have h2 := (readOptional_offset (fun _ => peerIdSize)
    (fun _ _ ha => (readArray_eq_ok.mp ha).2) hrecipient).2
  have h3 := readOptional_offset (fun route => 2 + route.length)
    (fun _ _ ha => readRoute_offset ha) hroute
  have h4 := readBytes_eq_ok.mp hpayload
  have hlength := (slice_length h4.1).1
  have h5 := (readOptional_offset (fun _ => signatureSize)
    (fun _ _ ha => (readArray_eq_ok.mp ha).2) hsignature).2
  have h2' : o2 = o1 + packet.recipientId.elim 0 fun _ => peerIdSize := by
    rw [h2]
    cases packet.recipientId <;> rfl
  refine ⟨h3.1, ?_⟩
  unfold bodySize
  omega

theorem encode_eq_ok {p : BitchatPacket} {bytes : Bytes} :
    encode p = .ok bytes ↔ p.validate = .ok () ∧ ∃ header recipient route signature,
      p.header.toBytes = .ok header ∧
      encodeOptional p.header.flags.hasRecipient p.recipientId (fun r => .ok r.asBytes)
        "Recipient flag set but no recipient" = .ok recipient ∧
      encodeOptional p.header.flags.hasRoute p.route encodeRoute
        "Route flag set but no route" = .ok route ∧
      encodeOptional p.header.flags.hasSignature p.signature (fun s => .ok s.toList)
        "Signature flag set but no signature" = .ok signature ∧
      bytes = header ++ p.senderId.asBytes ++ recipient ++ route ++ p.payload ++ signature := by
  unfold encode
  constructor
  · intro h
    obtain ⟨⟨⟩, hvalid, h⟩ := bind_eq_ok.mp h
    obtain ⟨header, hheader, h⟩ := bind_eq_ok.mp h
    obtain ⟨recipient, hrecipient, h⟩ := bind_eq_ok.mp h
    obtain ⟨route, hroute, h⟩ := bind_eq_ok.mp h
    obtain ⟨signature, hsignature, h⟩ := bind_eq_ok.mp h
    exact ⟨hvalid, header, recipient, route, signature, hheader, hrecipient, hroute, hsignature,
      (Except.ok.inj h).symm⟩
  · rintro ⟨hvalid, header, recipient, route, signature, hheader, hrecipient, hroute, hsignature,
      rfl⟩
    simp only [hvalid, hheader, hrecipient, hroute, hsignature, ok_bind, pure_eq_ok]

theorem encodeOptional_of_consistent {α : Type} {flag : Bool} {field : Option α}
    (bytes : α → Bytes) (missing : String) (h : field.isSome = flag) :
    ∃ part, encodeOptional flag field (fun a => .ok (bytes a)) missing = .ok part := by
  subst h
  cases field with
  | none => exact ⟨[], rfl⟩
  | some a => exact ⟨bytes a, rfl⟩

/-- A valid packet whose route flag is clear is encoded. -/
theorem encode_of_validate {p : BitchatPacket} (hvalid : p.validate = .ok ())
    (hroute : p.header.flags.hasRoute = false) : ∃ bytes, encode p = .ok bytes := by
  obtain ⟨hheader, _, hrecipient, hsignature⟩ := BitchatPacket.validate_eq_ok.mp hvalid
  obtain ⟨recipient, hrecipient⟩ := encodeOptional_of_consistent PeerId.asBytes
    "Recipient flag set but no recipient" hrecipient
  obtain ⟨signature, hsignature⟩ := encodeOptional_of_consistent List.Vector.toList
    "Signature flag set but no signature" hsignature
  have hnoRoute : encodeOptional p.header.flags.hasRoute p.route encodeRoute
      "Route flag set but no route" = .ok [] := by
    rw [hroute]
    rfl
  exact ⟨_, encode_eq_ok.mpr ⟨hvalid, _, recipient, [], signature,
    PacketHeader.toBytes_eq_ok.mpr ⟨hheader, rfl⟩, hrecipient, hnoRoute, hsignature, rfl⟩⟩

theorem encodeOptional_length {α : Type} (size : α → ℕ) {flag : Bool} {field : Option α}
    {encodeField : α → BitchatResult Bytes} {missing : String} {bytes : Bytes}
    (hsize : ∀ a part, encodeField a = .ok part → part.length = size a)
    (hpresent : field.isSome = flag)
    (h : encodeOptional flag field encodeField missing = .ok bytes) :
    bytes.length = field.elim 0 size := by
  cases field with
  | some a =>
    obtain rfl : true = flag := hpresent
    exact hsize a bytes h
  | none =>
    obtain rfl : false = flag := hpresent
    obtain rfl : [] = bytes := Except.ok.inj h
    rfl

/-- The header takes 13 bytes in version 1 and 16 in version 2. -/
theorem encode_length {p : BitchatPacket} {bytes : Bytes} (h : encode p = .ok bytes)
    (hroute : p.route.isSome = p.header.flags.hasRoute) :
    bytes.length = (if p.header.version = protocolVersion1 then 13 else 16) + bodySize p := by
  obtain ⟨hvalid, header, recipient, route, signature, hheader, hrec, hrt, hsig, rfl⟩ :=
    encode_eq_ok.mp h
  obtain ⟨_, _, hrecFlag, hsigFlag⟩ := BitchatPacket.validate_eq_ok.mp hvalid
  have h1 : header.length = if p.header.version = protocolVersion1 then 13 else 16 := by
    obtain ⟨_, rfl⟩ := PacketHeader.toBytes_eq_ok.mp hheader
    split_ifs <;> simp
  have h2 := encodeOptional_length (fun _ => peerIdSize)
    (fun r part hpart => by rw [← Except.ok.inj hpart]; exact r.asBytes_length) hrecFlag hrec
  have h3 := encodeOptional_length (fun route => 2 + route.length)
    (fun r part hpart => by
      rw [← Except.ok.inj (rejectIf_bind_eq_ok.mp hpart).2, List.length_append,
        u16ToBeBytes_length]) hroute hrt
  have h4 := encodeOptional_length (fun _ => signatureSize)
    (fun s part hpart => by rw [← Except.ok.inj hpart]; exact s.toList_length) hsigFlag hsig
  have h5 : p.senderId.asBytes.length = peerIdSize := p.senderId.asBytes_length
  simp only [List.length_append, h1, h2, h3, h4, h5, bodySize]
  omega

/-- What is written behind the header. -/
def encodeSections (packet : BitchatPacket) : BitchatResult Bytes := do
  let recipient ← encodeOptional packet.header.flags.hasRecipient packet.recipientId
    (fun r => .ok r.asBytes) "Recipient flag set but no recipient"
  let route ← encodeOptional packet.header.flags.hasRoute packet.route encodeRoute
    "Route flag set but no route"
  let signature ← encodeOptional packet.header.flags.hasSignature packet.signature
    (fun s => .ok s.toList) "Signature flag set but no signature"
  pure (packet.senderId.asBytes ++ recipient ++ route ++ packet.payload ++ signature)

theorem encodeSections_eq_ok {p : BitchatPacket} {sections : Bytes} :
    encodeSections p = .ok sections ↔ ∃ recipient route signature,
      encodeOptional p.header.flags.hasRecipient p.recipientId (fun r => .ok r.asBytes)
        "Recipient flag set but no recipient" = .ok recipient ∧
      encodeOptional p.header.flags.hasRoute p.route encodeRoute
        "Route flag set but no route" = .ok route ∧
      encodeOptional p.header.flags.hasSignature p.signature (fun s => .ok s.toList)
        "Signature flag set but no signature" = .ok signature ∧
      sections = p.senderId.asBytes ++ recipient ++ route ++ p.payload ++ signature := by
  simp only [encodeSections, bind_eq_ok, pure_eq_ok, Except.ok.injEq]
  constructor
  · rintro ⟨recipient, hrecipient, route, hroute, signature, hsignature, h⟩
    exact ⟨recipient, route, signature, hrecipient, hroute, hsignature, h.symm⟩
  · rintro ⟨recipient, route, signature, hrecipient, hroute, hsignature, h⟩
    exact ⟨recipient, hrecipient, route, hroute, signature, hsignature, h.symm⟩

theorem encode_eq_sections {p : BitchatPacket} {bytes : Bytes} (h : encode p = .ok bytes) :
    p.validate = .ok () ∧ ∃ header sections, p.header.toBytes = .ok header ∧
      encodeSections p = .ok sections ∧ bytes = header ++ sections := by
  obtain ⟨hvalid, header, recipient, route, signature, hheader, hrec, hrt, hsig, rfl⟩ :=
    encode_eq_ok.mp h
  refine ⟨hvalid, header, _, hheader,
    encodeSections_eq_ok.mpr ⟨recipient, route, signature, hrec, hrt, hsig, rfl⟩, ?_⟩
  simp only [List.append_assoc]

theorem readArray_drop {n : ℕ} {bytes : Bytes} {offset next : ℕ} {tooShort invalid : String}
    {v : List.Vector UInt8 n} (h : readArray n bytes offset tooShort invalid = .ok (v, next)) :
    bytes.drop offset = v.toList ++ bytes.drop next := by
  obtain ⟨hslice, rfl⟩ := readArray_eq_ok.mp h
  exact slice_drop hslice

/-- What was read as a route was written for it. -/
theorem readRoute_drop {bytes route : Bytes} {offset next : ℕ}
    (h : readRoute bytes offset = .ok (route, next)) :
    ∃ part, encodeRoute route = .ok part ∧ bytes.drop offset = part ++ bytes.drop next := by
  obtain ⟨v, hv, hroute, hnext⟩ := readRoute_eq_ok.mp h
  have hlength := (slice_length hroute).1
  have hlt := (u16FromBeBytes v.toList).toNat_lt
  have hvalue : UInt16.ofNat route.length = u16FromBeBytes v.toList := by
    rw [hlength, hnext, Nat.add_sub_cancel_left, UInt16.ofNat_toNat]
  refine ⟨v.toList ++ route, ?_, ?_⟩
  · rw [encodeRoute, hvalue, u16ToBeBytes_fromBeBytes v.toList_length]
    exact rejectIf_bind_eq_ok.mpr ⟨by omega, rfl⟩
  · rw [slice_drop hv, slice_drop hroute, List.append_assoc]

theorem readOptional_drop {α : Type} {read : ℕ → BitchatResult (α × ℕ)} {bytes : Bytes}
    (encodeField : α → BitchatResult Bytes) {flag : Bool} {field : Option α} (missing : String)
    {offset next : ℕ}
    (hread : ∀ a, read offset = .ok (a, next) →
      ∃ part, encodeField a = .ok part ∧ bytes.drop offset = part ++ bytes.drop next)
    (h : readOptional flag read offset = .ok (field, next)) :
    ∃ part, encodeOptional flag field encodeField missing = .ok part ∧
      bytes.drop offset = part ++ bytes.drop next := by
  rcases readOptional_eq_ok.mp h with ⟨rfl, a, rfl, ha⟩ | ⟨rfl, rfl, rfl⟩
  · exact hread a ha
  · exact ⟨[], rfl, rfl⟩

/-- The sections of a parsed packet stand behind the assumed header size. -/
theorem encodeSections_of_parse {bytes : Bytes} {p : BitchatPacket}
    (h : parse bytes = .ok (p, bytes.length)) :
    encodeSections p = .ok (bytes.drop p.header.headerSize) := by
  obtain ⟨_, o1, o2, o3, o4, hsender, hrecipient, hroute, hpayload, hsignature⟩ := parse_eq_ok.mp h
  have h1 := readArray_drop hsender
  obtain ⟨recipient, hrec, h2⟩ := readOptional_drop (fun v => .ok v.toList)
    "Recipient flag set but no recipient" (fun v hv => ⟨_, rfl, readArray_drop hv⟩) hrecipient
  obtain ⟨route, hrt, h3⟩ := readOptional_drop encodeRoute "Route flag set but no route"
    (fun r hr => readRoute_drop hr) hroute
  have h4 := slice_drop (readBytes_eq_ok.mp hpayload).1
  rw [← (readBytes_eq_ok.mp hpayload).2] at h4
  obtain ⟨signature, hsig, h5⟩ := readOptional_drop (fun v => .ok v.toList)
    "Signature flag set but no signature" (fun v hv => ⟨_, rfl, readArray_drop hv⟩) hsignature
  refine encodeSections_eq_ok.mpr ⟨recipient, route, signature, ?_, hrt, hsig, ?_⟩
  · rw [← hrec]
    cases p.recipientId <;> rfl
  · rw [h1, h2, h3, h4, h5, List.drop_length, List.append_nil]
    simp only [PeerId.asBytes, List.append_assoc]
    rfl

/-- The whole behaviour of the decoder: it gives the packet whose header the bytes
start with and whose sections stand behind the assumed header size. -/
theorem decode_iff_sections {bytes : Bytes} {p : BitchatPacket} :
    decode bytes = .ok p ↔
      PacketHeader.fromBytes bytes = .ok p.header ∧ p.validate = .ok () ∧
        p.route.isSome = p.header.flags.hasRoute ∧
        encodeSections p = .ok (bytes.drop p.header.headerSize) := by
  rw [decode_eq_ok]
  constructor
  · rintro ⟨hparse, hvalid⟩
    exact ⟨(parse_eq_ok.mp hparse).1, hvalid, (parse_offset hparse).1,
      encodeSections_of_parse hparse⟩
  · rintro ⟨hheader, hvalid, hroute, hsections⟩
    obtain ⟨recipient, route, signature, hrec, hrt, hsig, hdrop⟩ :=
      encodeSections_eq_ok.mp hsections
    obtain ⟨_, hpayloadLength, hrecFlag, hsigFlag⟩ := BitchatPacket.validate_eq_ok.mp hvalid
    have hsize := (PacketHeader.fromBytes_eq_ok.mp hheader).2.1
    obtain ⟨front, hfront⟩ : ∃ front, front = bytes.take p.header.headerSize := ⟨_, rfl⟩
    have hlength : front.length = p.header.headerSize := by
      rw [hfront, List.length_take_of_le hsize]
    have hbytes : bytes = front ++ p.senderId.asBytes ++ recipient ++ route ++ p.payload ++
        signature := by
      rw [← List.take_append_drop p.header.headerSize bytes, hdrop, hfront]
      simp only [List.append_assoc]
    have hrec' : encodeOptional p.header.flags.hasRecipient (p.recipientId.map PeerId.bytes)
        (fun v => .ok v.toList) "Recipient flag set but no recipient" = .ok recipient := by
      rw [← hrec]
      cases p.recipientId <;> rfl
    have h1 := reads_readArray p.senderId.bytes "Packet too short for sender ID"
      "Invalid sender ID" front (recipient ++ (route ++ (p.payload ++ signature)))
    have h2 := reads_readOptional readRecipient
      (fun v part hpart => by
        rw [← Except.ok.inj hpart]
        exact reads_readArray v _ _) (by rw [Option.isSome_map]; exact hrecFlag) hrec'
      (front ++ p.senderId.asBytes) (route ++ (p.payload ++ signature))
    have h3 := reads_readOptional readRoute (fun _ _ => reads_readRoute) hroute hrt
      (front ++ p.senderId.asBytes ++ recipient) (p.payload ++ signature)
    have h4 := reads_readBytes p.payload "Packet too short for payload"
      (front ++ p.senderId.asBytes ++ recipient ++ route) signature
    have h5 := reads_readOptional readSignature
      (fun s part hpart => by
        rw [← Except.ok.inj hpart]
        exact reads_readArray s _ _) hsigFlag hsig
      (front ++ p.senderId.asBytes ++ recipient ++ route ++ p.payload) []
    rw [hlength] at h1
    rw [hpayloadLength] at h4
    rw [hbytes] at hheader ⊢
    refine ⟨parse_eq_ok.mpr ⟨hheader, ?_⟩, hvalid⟩
    simp only [List.append_assoc, List.append_nil] at h1 h2 h3 h4 h5 ⊢
    exact ⟨_, _, _, _, h1, h2, h3, h4, h5⟩

/-- In version 1 every section is read at the offset at which it was written. -/
theorem decode_of_encode {p : BitchatPacket} {bytes : Bytes} (h : encode p = .ok bytes)
    (hversion : p.header.version = protocolVersion1)
    (hroute : p.route.isSome = p.header.flags.hasRoute) : decode bytes = .ok p := by
  obtain ⟨hvalid, header, sections, hheader, hsections, rfl⟩ := encode_eq_sections h
  have hsize : header.length = p.header.headerSize := by
    obtain ⟨_, rfl⟩ := PacketHeader.toBytes_eq_ok.mp hheader
    simp [hversion, PacketHeader.headerSize, headerSizeV1]
  refine decode_iff_sections.mpr
    ⟨PacketHeader.fromBytes_toBytes sections hheader, hvalid, hroute, ?_⟩
  rw [hsections, List.drop_left' hsize]

/-- Encoding succeeds only with a route behind its flag. -/
theorem route_of_flag {p : BitchatPacket} {bytes : Bytes} (h : encode p = .ok bytes)
    (hset : p.header.flags.hasRoute = true) : p.route.isSome = true := by
  obtain ⟨_, _, _, _, _, _, _, hrt, _⟩ := encode_eq_ok.mp h
  cases hroute : p.route with
  | some r => rfl
  | none =>
    rw [hset, hroute] at hrt
    exact absurd hrt (invalidPacket_ne_ok _ _)

/-- A packet comes back from the wire exactly when it has version 1 and carries
no route behind a clear route flag. -/
theorem encode_roundTrip (p : BitchatPacket) (bytes : Bytes) (h : encode p = .ok bytes) :
    decode bytes = .ok p ↔
      p.header.version = protocolVersion1 ∧
        (p.route.isSome = true → p.header.flags.hasRoute = true) := by
  have hflag : p.header.flags.hasRoute = true → p.route.isSome = true := route_of_flag h
  constructor
  · intro hdecode
    obtain ⟨hroute, hstop⟩ := parse_offset (decode_eq_ok.mp hdecode).1
    refine ⟨?_, fun hsome => hroute ▸ hsome⟩
    by_contra hversion
    have hlength := encode_length h hroute
    obtain ⟨hvalid, _⟩ := encode_eq_ok.mp h
    have h2 : p.header.version = protocolVersion2 := by
      have := PacketHeader.validate_eq_ok.mp (BitchatPacket.validate_eq_ok.mp hvalid).1
      tauto
    have hsize : p.header.headerSize = 15 := by
      simp [PacketHeader.headerSize, h2, protocolVersion1, protocolVersion2, headerSizeV2]
    rw [if_neg hversion] at hlength
    omega
  · rintro ⟨hversion, hroute⟩
    exact decode_of_encode h hversion (Bool.eq_iff_iff.mpr ⟨hroute, hflag⟩)

/-- A version 1 packet with a recipient and a route. -/
def routedPacket : BitchatPacket where
  header := ⟨1, .message, ⟨7⟩, ⟨1700000000000⟩, ⟨0x09⟩, 2⟩
  senderId := ⟨List.Vector.replicate 8 1⟩
  recipientId := some ⟨List.Vector.replicate 8 2⟩
  route := some [7, 8, 9]
  payload := [0x68, 0x69]
  signature := none

theorem encode_roundTrip_routed : ∃ bytes, encode routedPacket = .ok bytes ∧
    decode bytes = .ok routedPacket :=
  ⟨_, rfl, (encode_roundTrip routedPacket _ rfl).mpr ⟨rfl, fun _ => rfl⟩⟩

def version2Packet : BitchatPacket where
  header := ⟨2, .message, ⟨7⟩, ⟨1700000000000⟩, ⟨0⟩, 2⟩
  senderId := ⟨List.Vector.replicate 8 1⟩
  recipientId := none
  route := none
  payload := [0x68, 0x69]
  signature := none

/-- Every section of a version 2 packet is read one byte too early. -/
theorem version2Packet_not_decoded : ∃ bytes, encode version2Packet = .ok bytes ∧
    decode bytes = invalidPacket "Packet has trailing data" :=
  ⟨_, rfl, rfl⟩

end WireFormat

end Bitchat
