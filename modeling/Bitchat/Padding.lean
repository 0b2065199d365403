import Bitchat.Wire

/-!
# Compression and padding

`encode_with_options` and `decode_with_options` of `wire.rs`. The pad length is
kept in one byte, and unpadding looks at the last bytes of whatever it is given.
Since no packet is a proper prefix of another, a decoded packet is the encoded
one exactly when unpadding returns the bytes that the plain encoder produced.
-/
namespace Bitchat
open Rust

namespace Padding

def paddingBlockSizes : List ℕ := [256, 512, 1024, 2048]

/-- The first block that fits, else the next multiple of 2048. -/
def optimalBlockSize (length : ℕ) : ℕ :=
  match paddingBlockSizes.find? (fun blockSize => length ≤ blockSize) with
  | some blockSize => blockSize
  | none => (length + 2047) / 2048 * 2048

def paddingLength (data : Bytes) : ℕ := optimalBlockSize data.length - data.length

/-- Fills up to the block size with the low byte of the padding length. -/
def pad (data : Bytes) : Bytes :=
  if 0 < paddingLength data then
    data ++ List.replicate (paddingLength data) (UInt8.ofNat (paddingLength data))
  else data

def unpad (data : Bytes) : BitchatResult Bytes :=
  match data.getLast? with
  | none => invalidPacket "Cannot unpad empty data"
  | some last =>
    if last.toNat = 0 ∨ data.length < last.toNat then .ok data
    else if (data.drop (data.length - last.toNat)).all (fun byte => byte == last) then
      .ok (data.take (data.length - last.toNat))
    else .ok data

/-- The last bytes read as padding. -/
def EndsLikePadding (data : Bytes) : Prop :=
  ∃ front k, 0 < k ∧ k < 256 ∧ data = front ++ List.replicate k (UInt8.ofNat k)

/-- The padding that is added fits its length byte, and where none is added the
last bytes do not read as padding. -/
def PadSafe (padded : Bool) (data : Bytes) : Prop :=
  (padded = true ∧ 0 < paddingLength data ∧ paddingLength data < 256) ∨
    ((padded = true → paddingLength data = 0) ∧ ¬ EndsLikePadding data)

theorem getLast?_append_replicate (front : Bytes) (k : ℕ) (b : UInt8) (hk : 0 < k) :
    (front ++ List.replicate k b).getLast? = some b := by
  have hne : List.replicate k b ≠ [] := by
    simp only [ne_eq, List.replicate_eq_nil_iff]
    omega
  rw [List.getLast?_append_of_ne_nil _ hne, List.getLast?_replicate, if_neg (by omega)]

theorem unpad_append_replicate (front : Bytes) (k : ℕ) (hk : 0 < k) (hlt : k < 256) :
    unpad (front ++ List.replicate k (UInt8.ofNat k)) = .ok front := by
  have hnat : (UInt8.ofNat k).toNat = k := by
    rw [UInt8.toNat_ofNat']
    exact Nat.mod_eq_of_lt hlt
  have hlength : (front ++ List.replicate k (UInt8.ofNat k)).length - k = front.length := by
    simp
  unfold unpad
  rw [getLast?_append_replicate front k _ hk]
  simp only [hnat, hlength, List.drop_left, List.take_left]
  rw [if_neg (by simp; omega), if_pos (by simp)]

/-- Bytes that do not read as padding are returned unchanged. -/
theorem unpad_of_not_endsLikePadding {data : Bytes} (hne : data ≠ [])
    (hends : ¬ EndsLikePadding data) : unpad data = .ok data := by
  unfold unpad
  cases hlast : data.getLast? with
  | none => exact absurd (List.getLast?_eq_none_iff.mp hlast) hne
  | some last =>
    simp only
    split_ifs with hlength hall
    · rfl
    · exfalso
      refine hends ⟨data.take (data.length - last.toNat), last.toNat, by omega, last.toNat_lt, ?_⟩
      rw [UInt8.ofNat_toNat]
      have hsuffix : data.drop (data.length - last.toNat) = List.replicate last.toNat last := by
        refine List.eq_replicate_iff.mpr ⟨by simp; omega, fun b hb => ?_⟩
        simpa using List.all_eq_true.mp hall b hb
      rw [← hsuffix, List.take_append_drop]
    · rfl

theorem unpad_prefix {data rest : Bytes} (h : unpad data = .ok rest) : rest <+: data := by
  unfold unpad at h
  cases hlast : data.getLast? with
  | none =>
    rw [hlast] at h
    exact absurd h (invalidPacket_ne_ok _ _)
  | some last =>
    simp only [hlast] at h
    split_ifs at h with hlength hall
    · exact (Except.ok.inj h) ▸ List.prefix_refl _
    · exact (Except.ok.inj h) ▸ List.take_prefix _ _
    · exact (Except.ok.inj h) ▸ List.prefix_refl _

theorem unpad_eq_self_iff {data : Bytes} (hne : data ≠ []) :
    unpad data = .ok data ↔ ¬ EndsLikePadding data := by
  refine ⟨?_, unpad_of_not_endsLikePadding hne⟩
  rintro h ⟨front, k, hk, hlt, rfl⟩
  rw [unpad_append_replicate front k hk hlt] at h
  have hlength := congrArg List.length (Except.ok.inj h)
  rw [List.length_append, List.length_replicate] at hlength
  omega

/-- Padding of 256 bytes or more is not removed as a whole. -/
theorem unpad_append_long (data : Bytes) (k : ℕ) (hk : 256 ≤ k) :
    unpad (data ++ List.replicate k (UInt8.ofNat k)) ≠ .ok data := by
  have hlast := getLast?_append_replicate data k (UInt8.ofNat k) (by omega)
  have hbyte := (UInt8.ofNat k).toNat_lt
  intro h
  unfold unpad at h
  simp only [hlast] at h
  split_ifs at h with hlength hall <;>
  · have hlen := congrArg List.length (Except.ok.inj h)
    simp only [List.length_take, List.length_append, List.length_replicate] at hlen
    omega

/-- What the two choices of padding put on the wire comes back exactly when the
padding is safe. -/
theorem unpad_padded_iff (padded : Bool) {data : Bytes} (hne : data ≠ []) :
    unpad (if padded then pad data else data) = .ok data ↔ PadSafe padded data := by
  unfold PadSafe
  cases padded with
  | false => simpa using unpad_eq_self_iff hne
  | true =>
    simp only [if_true, true_and, forall_const, pad]
    split_ifs with hpos
    · by_cases hlt : paddingLength data < 256
      · simp [unpad_append_replicate data _ hpos hlt, hpos, hlt]
      · have hlong := unpad_append_long data (paddingLength data) (by omega)
        simp only [hlong, false_iff]
        omega
    · rw [unpad_eq_self_iff hne]
      constructor
      · exact fun h => Or.inr ⟨by omega, h⟩
      · rintro (⟨h, _⟩ | ⟨_, h⟩)
        · omega
        · exact h

theorem prefix_pad (padded : Bool) (data : Bytes) :
    data <+: (if padded then pad data else data) := by
  unfold pad
  split_ifs
  · exact List.prefix_append _ _
  · exact List.prefix_refl _
  · exact List.prefix_refl _

end Padding

/-- The compressor and its inverse, which may fail. -/
structure Zlib where
  compress : Bytes → BitchatResult Bytes
  decompress : Bytes → BitchatResult Bytes

def Zlib.Lossless (zlib : Zlib) : Prop :=
  ∀ data compressed, zlib.compress data = .ok compressed → zlib.decompress compressed = .ok data

def compressionThreshold : ℕ := 256

def shouldCompress (data : Bytes) : Bool := compressionThreshold ≤ data.length

namespace PacketFlags

def withoutCompression (f : PacketFlags) : PacketFlags := ⟨f.asU8 &&& ~~~ compressedBit⟩

theorem isCompressed_withCompression (f : PacketFlags) : f.withCompression.isCompressed = true := by
  have hbit : ∀ x : BitVec 8, (x ||| 0x04#8) &&& 0x04#8 ≠ 0#8 := by decide
  have hne : (f.asU8 ||| compressedBit) &&& compressedBit ≠ 0 := by
    intro h
    exact hbit f.asU8.toBitVec (congrArg UInt8.toBitVec h)
  simpa [isCompressed, withCompression] using hne

/-- Setting and clearing the compression bit restores a flag byte without it. -/
theorem withoutCompression_withCompression {f : PacketFlags} (h : f.isCompressed = false) :
    f.withCompression.withoutCompression = f := by
  have hbit : ∀ x : BitVec 8, x &&& 0x04#8 = 0#8 → (x ||| 0x04#8) &&& ~~~ 0x04#8 = x := by decide
  obtain ⟨bits⟩ := f
  have hclear : bits &&& compressedBit = 0 := by simpa [isCompressed] using h
  refine congrArg PacketFlags.mk (UInt8.toBitVec_inj.mp ?_)
  exact hbit bits.toBitVec (congrArg UInt8.toBitVec hclear)

end PacketFlags

namespace BitchatPacket

def updatePayloadLength (p : BitchatPacket) : BitchatPacket :=
  { p with header := { p.header with payloadLength := UInt32.ofNat p.payload.length } }

/-- The three assignments with which both directions replace the payload. -/
def replacePayload (p : BitchatPacket) (payload : Bytes) (flags : PacketFlags) : BitchatPacket :=
  updatePayloadLength { p with payload := payload, header := { p.header with flags := flags } }

@[simp] theorem replacePayload_flags (p : BitchatPacket) (payload : Bytes) (flags : PacketFlags) :
    (p.replacePayload payload flags).header.flags = flags := rfl

@[simp] theorem replacePayload_payload (p : BitchatPacket) (payload : Bytes) (flags : PacketFlags) :
    (p.replacePayload payload flags).payload = payload := rfl

/-- A second replacement that brings payload and flags back restores the packet. -/
theorem replacePayload_replacePayload {p : BitchatPacket} (payload : Bytes) (flags : PacketFlags)
    (hlength : p.header.payloadLength = UInt32.ofNat p.payload.length) :
    (p.replacePayload payload flags).replacePayload p.payload p.header.flags = p := by
  show { p with header := { p.header with payloadLength := UInt32.ofNat p.payload.length } } = p
  rw [← hlength]

end BitchatPacket

namespace WireFormat

section

variable (zlib : Zlib)

/-- The packet that is handed to the plain encoder. -/
def compressPacket (packet : BitchatPacket) (compress : Bool) : BitchatResult BitchatPacket :=
  if compress = true ∧ shouldCompress packet.payload = true then do
    let payload ← zlib.compress packet.payload
    pure (packet.replacePayload payload packet.header.flags.withCompression)
  else .ok packet

def encodeWithOptions (packet : BitchatPacket) (compress padded : Bool) : BitchatResult Bytes := do
  let packet ← compressPacket zlib packet compress
  let bytes ← encode packet
  pure (if padded then Padding.pad bytes else bytes)

/-- Undoes `compressPacket` on a packet whose compression flag is set. -/
def decompressPacket (packet : BitchatPacket) : BitchatResult BitchatPacket :=
  if packet.header.flags.isCompressed then do
    let payload ← zlib.decompress packet.payload
    pure (packet.replacePayload payload packet.header.flags.withoutCompression)
  else .ok packet

def decodeWithOptions (bytes : Bytes) : BitchatResult BitchatPacket := do
  let bytes ← Padding.unpad bytes
  let packet ← decode bytes
  decompressPacket zlib packet

end

theorem decompressPacket_compressPacket {zlib : Zlib} (hzlib : zlib.Lossless)
    {packet form : BitchatPacket} {compress : Bool}
    (hflag : packet.header.flags.isCompressed = false)
    (hlength : packet.header.payloadLength = UInt32.ofNat packet.payload.length)
    (h : compressPacket zlib packet compress = .ok form) :
    decompressPacket zlib form = .ok packet := by
  unfold compressPacket at h
  split_ifs at h with hc
  · obtain ⟨payload, hpayload, hform⟩ := bind_eq_ok.mp h
    obtain rfl := Except.ok.inj hform
    unfold decompressPacket
    rw [BitchatPacket.replacePayload_flags,
      if_pos (PacketFlags.isCompressed_withCompression _), BitchatPacket.replacePayload_payload,
      hzlib _ _ hpayload, ok_bind, PacketFlags.withoutCompression_withCompression hflag,
      BitchatPacket.replacePayload_replacePayload _ _ hlength, pure_eq_ok]
  · obtain rfl := Except.ok.inj h
    simp [decompressPacket, hflag]

theorem ne_nil_of_decode {p : BitchatPacket} {bytes : Bytes} (h : decode bytes = .ok p) :
    bytes ≠ [] := by
  rintro rfl
  exact absurd h (by simp [decode, parse, rejectIf, failIf])

/-- Packets that begin at the same place in one byte string are the same bytes. -/
theorem decode_prefix_unique {a b bytes : Bytes} {p q : BitchatPacket} (ha : decode a = .ok p)
    (hb : decode b = .ok q) (hpa : a <+: bytes) (hpb : b <+: bytes) : a = b := by
  rcases List.prefix_or_prefix_of_prefix hpa hpb with ⟨more, rfl⟩ | ⟨more, rfl⟩
  · rw [decode_append ha hb, List.append_nil]
  · rw [decode_append hb ha, List.append_nil]

/-- Let the form of the packet that is encoded round-trip through the plain
codec, with bytes `data`. The packet comes back from the optional codec exactly
when the padding of `data` is safe, which is also when unpadding undoes padding. -/
theorem encodeWithOptions_roundTrip (zlib : Zlib) (hzlib : zlib.Lossless)
    (packet form : BitchatPacket) (compress padded : Bool) (data bytes : Bytes)
    (hflag : packet.header.flags.isCompressed = false)
    (hlength : packet.header.payloadLength = UInt32.ofNat packet.payload.length)
    (hform : compressPacket zlib packet compress = .ok form)
    (hdata : encode form = .ok data) (hround : decode data = .ok form)
    (hbytes : encodeWithOptions zlib packet compress padded = .ok bytes) :
    (decodeWithOptions zlib bytes = .ok packet ↔ Padding.PadSafe padded data) ∧
      (Padding.unpad (Padding.pad data) = .ok data ↔ Padding.PadSafe true data) := by
  have hne : data ≠ [] := ne_nil_of_decode hround
  refine ⟨?_, Padding.unpad_padded_iff true hne⟩
  have hwire : bytes = if padded then Padding.pad data else data := by
    simp only [encodeWithOptions, hform, hdata, ok_bind, pure_eq_ok] at hbytes
    exact (Except.ok.inj hbytes).symm
  rw [← Padding.unpad_padded_iff padded hne, ← hwire]
  have hback := decompressPacket_compressPacket hzlib hflag hlength hform
  unfold decodeWithOptions
  constructor
  · intro h
    obtain ⟨rest, hrest, h⟩ := bind_eq_ok.mp h
    obtain ⟨q, hq, _⟩ := bind_eq_ok.mp h
    have hfront : data <+: bytes := hwire ▸ Padding.prefix_pad padded data
    rw [decode_prefix_unique hround hq hfront (Padding.unpad_prefix hrest)]
    exact hrest
  · intro h
    rw [h, ok_bind, hround, ok_bind, hback]

/-- The fallback of builds without `std`: a two-byte marker in front of the data. -/
def markerZlib : Zlib where
  compress := fun data => .ok ([0x78, 0x9C] ++ data)
  decompress := fun data =>
    if data.length < 2 ∨ data.take 2 ≠ [0x78, 0x9C] then invalidPacket "Invalid compressed data"
    else .ok (data.drop 2)

theorem markerZlib_lossless : markerZlib.Lossless := by
  intro data compressed h
  obtain rfl := Except.ok.inj h
  simp [markerZlib]

/-- A version 1 packet whose last byte is `last`. -/
def oneBytePacket (last : UInt8) : BitchatPacket where
  header := ⟨1, .message, ⟨7⟩, ⟨1700000000000⟩, ⟨0⟩, 1⟩
  senderId := ⟨List.Vector.replicate 8 1⟩
  recipientId := none
  route := none
  payload := [last]
  signature := none

theorem encodeWithOptions_roundTrip_zero : ∃ bytes,
    encodeWithOptions markerZlib (oneBytePacket 0) true true = .ok bytes ∧
      decodeWithOptions markerZlib bytes = .ok (oneBytePacket 0) := by
  refine ⟨_, rfl, (encodeWithOptions_roundTrip markerZlib markerZlib_lossless (oneBytePacket 0)
    (oneBytePacket 0) true true _ _ rfl rfl rfl rfl rfl rfl).1.mpr ?_⟩
  exact Or.inl ⟨rfl, by decide, by decide⟩

/-- An unpadded packet that ends in the byte `1` loses it. -/
theorem oneBytePacket_one_not_decoded : ∃ bytes,
    encode (oneBytePacket 1) = .ok bytes ∧ decode bytes = .ok (oneBytePacket 1) ∧
      encodeWithOptions markerZlib (oneBytePacket 1) false false = .ok bytes ∧
      decodeWithOptions markerZlib bytes = invalidPacket "Packet too short for payload" :=
  ⟨_, rfl, rfl, rfl, rfl⟩

end WireFormat

end Bitchat
