import Bitchat.Announce
import Bitchat.Message
import Bitchat.Rust.Panics

/-!
# The parsers on arbitrary bytes

The parsers of untrusted bytes at checked offsets, where an addition on `usize` can
overflow. On every slice they give what they give at unbounded offsets, and return; only
the header of a version 2 packet is read beyond its end, when it is cut off behind 15 bytes.
-/
namespace Bitchat
open Rust WireFormat BitchatMessage TlvCodec

/-! ## Checked parsers -/

namespace Checked

def decode (bytes : Bytes) : BitchatResult BitchatPacket := @WireFormat.decode .checked bytes

def fromBinary (bytes : Bytes) : BitchatResult BitchatMessage :=
  @BitchatMessage.fromBinary .checked bytes

def decodeEntries (data : Bytes) : BitchatResult TlvCodec := @TlvCodec.decode .checked data

def decodeAnnounce (data : Bytes) : BitchatResult AnnouncePayload :=
  @AnnouncePayload.decode .checked data

/-! ## Readers -/

open Reader

theorem safe_array {n : ℕ} (hn : n < 2 ^ 63) (tooShort invalid : String) :
    Safe (fun bytes offset => @readArray .checked n bytes offset tooShort invalid)
      (fun bytes offset => readArray n bytes offset tooShort invalid) := by
  intro s offset hle
  have hfits : offset + n < 2 ^ 64 := s.add_lt hle hn
  simp only [readArray, Offsets.checked_add hfits, Offsets.add_eq_ok, ok_bind]
  refine Within.guard fun hguard => ?_
  have hstop : offset + n ≤ s.length := Nat.not_lt.mp hguard
  refine Within.step (returns_slice (by omega) hstop) fun part _ => ?_
  exact Within.step (returns_tryIntoArray n part _) fun array _ => Within.ok hstop

theorem safe_bytes {n : ℕ} (hn : n < 2 ^ 63) (tooShort : String) :
    Safe (fun bytes offset => @readBytes .checked n bytes offset tooShort)
      (fun bytes offset => readBytes n bytes offset tooShort) := by
  intro s offset hle
  have hfits : offset + n < 2 ^ 64 := s.add_lt hle hn
  simp only [readBytes, Offsets.checked_add hfits, Offsets.add_eq_ok, ok_bind]
  refine Within.guard fun hguard => ?_
  have hstop : offset + n ≤ s.length := Nat.not_lt.mp hguard
  exact Within.step (returns_slice (by omega) hstop) fun part _ => Within.ok hstop

theorem u16_lt (x : UInt16) : x.toNat < 2 ^ 63 := by
  have hlt := x.toNat_lt
  omega

theorem u32_lt (x : UInt32) : x.toNat < 2 ^ 63 := by
  have hlt := x.toNat_lt
  omega

theorem u8_lt (x : UInt8) : x.toNat < 2 ^ 63 := by
  have hlt := x.toNat_lt
  omega

theorem safe_route : Safe (@readRoute .checked) readRoute := by
  intro s offset hle
  refine (safe_array (by decide) _ _ s offset hle).bind fun lengthBytes next _ hnext => ?_
  exact safe_bytes (u16_lt _) _ s next hnext

theorem safe_optional {α : Type} (flag : Bool) {checked plain : Reader BitchatError α}
    (h : Safe checked plain) :
    Safe (fun bytes offset => readOptional flag (checked bytes) offset)
      (fun bytes offset => readOptional flag (plain bytes) offset) := by
  intro s offset hle
  cases flag with
  | true => exact (h s offset hle).bind fun a next _ hnext => Within.ok hnext
  | false => exact Within.ok hle

theorem safe_byte (tooShort : String) :
    Safe (@readByte .checked tooShort) (readByte tooShort) := by
  intro s offset hle
  have hfits : offset + 1 < 2 ^ 64 := s.add_lt hle (by decide)
  simp only [readByte, Offsets.checked_add hfits, Offsets.add_eq_ok, ok_bind]
  refine Within.guard fun hguard => ?_
  have hstop : offset + 1 ≤ s.length := Nat.not_lt.mp hguard
  exact Within.step (returns_index hstop) fun b _ => Within.ok hstop

theorem safe_text {n : ℕ} (hn : n < 2 ^ 63) (tooShort invalid : String) :
    Safe (@readText .checked n tooShort invalid) (readText n tooShort invalid) := by
  intro s offset hle
  refine (safe_bytes hn tooShort s offset hle).bind fun part next _ hnext => ?_
  exact Within.step (returns_okOr _ _) fun text _ => Within.ok hnext

theorem safe_short (tooShort invalid : String) :
    Safe (@readShort .checked tooShort invalid) (readShort tooShort invalid) :=
  (safe_byte tooShort).andThen fun length => safe_text (u8_lt length) tooShort invalid

theorem safe_content : Safe (@readContent .checked) readContent :=
  (safe_array (by decide) _ _).andThen fun _ => safe_text (u16_lt _) _ _

theorem safe_mentions : Safe (@readMentions .checked) readMentions :=
  (safe_byte _).andThen fun count => (safe_short _ _).many count.toNat

theorem safe_peerId : Safe (@readPeerId .checked) readPeerId := safe_array (by decide) _ _

/-! ## Packets -/

theorem within_parse (s : U8Slice) (hheader : Returns (PacketHeader.fromBytes s.bytes)) :
    Within s.length (@parse .checked s.bytes) (parse s.bytes) := by
  refine Within.guard fun _ => Within.step hheader fun header _ => Within.guard fun hsize => ?_
  refine (safe_array (by decide) _ _ s _ (Nat.not_lt.mp hsize)).bind fun sender o1 _ h1 => ?_
  refine (safe_optional _ (safe_array (by decide) _ _) s o1 h1).bind fun recipient o2 _ h2 => ?_
  refine (safe_optional _ safe_route s o2 h2).bind fun route o3 _ h3 => ?_
  refine (safe_bytes (u32_lt _) _ s o3 h3).bind fun payload o4 _ h4 => ?_
  exact (safe_optional _ (safe_array (by decide) _ _) s o4 h4).bind fun signature o5 _ h5 =>
    Within.ok h5

theorem returns_validateHeader (h : PacketHeader) : Returns h.validate :=
  returns_guard fun _ => returns_guard fun _ => returns_failIf _

theorem returns_validatePacket (p : BitchatPacket) : Returns p.validate :=
  returns_bind (returns_validateHeader _) fun _ _ => returns_guard fun _ => returns_guard fun _ =>
    returns_guard fun _ => returns_guard fun _ => returns_failIf _

/-- The decoder panics only where the header does. -/
theorem returns_decode {s : U8Slice} (hheader : Returns (PacketHeader.fromBytes s.bytes)) :
    decode s.bytes = WireFormat.decode s.bytes ∧ Returns (WireFormat.decode s.bytes) := by
  have hparse := within_parse s hheader
  refine ⟨by simp only [decode, WireFormat.decode, hparse.eq], ?_⟩
  refine returns_bind hparse.returns fun r _ => ?_
  exact returns_guard fun _ => returns_bind (returns_validatePacket _) fun _ _ => returns_ok _

/-! ## Messages -/

theorem within_readFields (s : U8Slice) :
    Within s.length (@readFields .checked s.bytes) (readFields s.bytes) := by
  refine Within.guard fun hguard => ?_
  have hlength : 11 ≤ s.bytes.length := Nat.not_lt.mp hguard
  have hstart : 10 ≤ s.length := Nat.le_of_lt hlength
  refine Within.step (returns_index (by omega)) fun flagByte _ => ?_
  refine Within.step (returns_slice (by omega) (by omega)) fun part _ => ?_
  refine Within.step (returns_tryIntoArray 8 part _) fun timestampBytes _ => ?_
  refine Within.step (returns_index (by omega)) fun idLength _ => ?_
  refine (safe_text (u8_lt _) _ _ s 10 hstart).bind fun id o1 _ h1 => ?_
  refine (safe_short _ _ s o1 h1).bind fun sender o2 _ h2 => ?_
  refine (safe_content s o2 h2).bind fun content o3 _ h3 => ?_
  refine (safe_optional _ (safe_short _ _) s o3 h3).bind fun originalSender o4 _ h4 => ?_
  refine (safe_optional _ (safe_short _ _) s o4 h4).bind fun recipientNickname o5 _ h5 => ?_
  refine (safe_optional _ safe_peerId s o5 h5).bind fun senderPeerId o6 _ h6 => ?_
  exact (safe_optional _ safe_mentions s o6 h6).bind fun mentions o7 _ h7 => Within.ok h7

theorem returns_validateMessage (m : BitchatMessage) : Returns m.validate :=
  returns_guard fun _ => returns_guard fun _ => returns_guard fun _ => returns_guard fun _ =>
    returns_guard fun _ => returns_guard fun _ => returns_guard fun _ => returns_guard fun _ =>
      returns_failIf _

theorem returns_fromBinary (s : U8Slice) :
    fromBinary s.bytes = BitchatMessage.fromBinary s.bytes ∧
      Returns (BitchatMessage.fromBinary s.bytes) := by
  have hfields := within_readFields s
  refine ⟨by simp only [fromBinary, BitchatMessage.fromBinary, hfields.eq], ?_⟩
  refine returns_bind hfields.returns fun r _ => ?_
  exact returns_bind (returns_validateMessage _) fun _ _ => returns_ok _

/-! ## Entries and announcements -/

theorem returns_fromU8 (value : UInt8) : Returns (TlvType.fromU8 value) := by
  unfold TlvType.fromU8
  iterate 4 refine returns_ite (returns_ok _) ?_
  exact returns_fail _

theorem safe_entry : Safe (@readEntry .checked) readEntry := by
  intro s offset hle
  have hbytes : offset ≤ s.bytes.length := hle
  have hlength := s.fits
  have hrest : (slice s.bytes offset s.bytes.length : BitchatResult Bytes) =
      .ok (s.bytes.drop offset) :=
    slice_iff_drop.mpr ⟨by simp; omega, le_rfl, by simp⟩
  simp only [readEntry, TlvEntry.decode, hrest, Offsets.add_eq_ok, ok_bind, bind_assoc]
  have hdropped : (s.bytes.drop offset).length = s.bytes.length - offset := List.length_drop
  refine Within.guard fun hthree => ?_
  refine Within.step (returns_index (by omega)) fun typeByte _ => ?_
  refine Within.step (returns_fromU8 typeByte) fun tlvType _ => ?_
  refine Within.step (returns_index (by omega)) fun high _ => ?_
  refine Within.step (returns_index (by omega)) fun low _ => ?_
  have hsize := (u16FromBeBytes [high, low]).toNat_lt
  rw [Offsets.checked_add (by omega), ok_bind]
  refine Within.guard fun hwhole => ?_
  refine Within.step (returns_slice (by omega) (by omega)) fun value _ => ?_
  simp only [pure_eq_ok, ok_bind]
  rw [Offsets.checked_add (by omega), ok_bind]
  exact Within.ok (by rw [U8Slice.length]; omega)

theorem returns_decodeEntries (s : U8Slice) :
    decodeEntries s.bytes = TlvCodec.decode s.bytes ∧ Returns (TlvCodec.decode s.bytes) := by
  have hloop := safe_entry.untilEnd TlvCodec.entry_progress s.bytes.length s 0 (Nat.zero_le _)
    (Nat.le_add_left _ _)
  refine ⟨by simp only [decodeEntries, TlvCodec.decode, hloop.eq], ?_⟩
  refine returns_bind hloop.returns fun r _ => ?_
  exact returns_ok _

theorem returns_validateRequired (codec : TlvCodec) (requiredTypes : List TlvType) :
    Returns (codec.validateRequired requiredTypes) := by
  induction requiredTypes with
  | nil => exact returns_ok _
  | cons first rest ih =>
    rw [TlvCodec.validateRequired_cons]
    exact returns_guard fun _ => ih

theorem returns_asNeighbors (entry : TlvEntry) : Returns entry.asNeighbors :=
  returns_guard fun _ => returns_guard fun _ =>
    returns_mapM (fun chunk => returns_tryIntoArray 32 chunk _) _

theorem returns_asKey (entry : TlvEntry) : Returns entry.asKey :=
  returns_guard fun _ => returns_tryIntoArray 32 _ _

theorem returns_fromCodec (codec : TlvCodec) : Returns (AnnouncePayload.fromCodec codec) := by
  have hentry (tlvType : TlvType) : Returns (AnnouncePayload.requireEntry codec tlvType) :=
    returns_okOr _ _
  refine returns_bind (returns_validateRequired codec _) fun _ _ => ?_
  refine returns_bind (hentry .nickname) fun nicknameEntry _ => ?_
  refine returns_bind (returns_guard fun _ => returns_okOr _ _) fun nickname _ => ?_
  refine returns_bind (hentry .noisePublicKey) fun noiseKeyEntry _ => ?_
  refine returns_bind (returns_asKey noiseKeyEntry) fun noisePublicKey _ => ?_
  refine returns_bind (hentry .signingPublicKey) fun signingKeyEntry _ => ?_
  refine returns_bind (returns_asKey signingKeyEntry) fun signingPublicKey _ => ?_
  refine returns_bind ?_ fun directNeighbors _ => returns_ok _
  cases codec.findEntry .directNeighbors with
  | none => exact returns_ok _
  | some entry => exact returns_bind (returns_asNeighbors entry) fun keys _ => returns_ok _

theorem returns_decodeAnnounce (s : U8Slice) :
    decodeAnnounce s.bytes = AnnouncePayload.decode s.bytes ∧
      Returns (AnnouncePayload.decode s.bytes) := by
  obtain ⟨heq, hentries⟩ := returns_decodeEntries s
  rw [decodeEntries] at heq
  refine ⟨by simp only [decodeAnnounce, AnnouncePayload.decode, heq], ?_⟩
  refine returns_bind hentries fun codec _ => ?_
  exact returns_fromCodec codec

/-! ## Fragments -/

theorem returns_fragmentHeader (bytes : Bytes) : Returns (FragmentHeader.fromBytes bytes) := by
  refine returns_guard fun hshort => ?_
  have hlength : 13 ≤ bytes.length := Nat.not_lt.mp hshort
  refine returns_bind (returns_slice (by omega) (by omega)) fun fragmentId _ => ?_
  refine returns_bind (returns_slice (by omega) (by omega)) fun fragmentIndex _ => ?_
  refine returns_bind (returns_slice (by omega) (by omega)) fun totalFragments _ => ?_
  refine returns_bind (returns_index (by omega)) fun originalType _ => ?_
  refine returns_bind ?_ fun _ _ => returns_ok _
  exact returns_guard fun _ => returns_guard fun _ => returns_failIf _

theorem returns_fromWireFormat (bytes : Bytes) (now : Timestamp) :
    Returns (Fragment.fromWireFormat bytes now) := by
  refine returns_guard fun hshort => ?_
  have hlength : fragmentHeaderSize ≤ bytes.length := Nat.not_lt.mp hshort
  refine returns_bind (returns_slice (Nat.zero_le _) hlength) fun headerBytes _ => ?_
  refine returns_bind (returns_fragmentHeader headerBytes) fun header _ => ?_
  exact returns_bind (returns_slice hlength le_rfl) fun data _ => returns_ok _

/-! ## Headers -/

/-- A version 2 packet of a known type that ends behind 15 bytes. -/
def TruncatedHeader (bytes : Bytes) : Prop :=
  bytes.length = headerSizeV2 ∧ bytes.head? = some protocolVersion2 ∧
    ∃ messageType : MessageType, bytes[1]? = some messageType.asU8

theorem returns_messageType (value : UInt8) : Returns (MessageType.fromU8 value) := by
  unfold MessageType.fromU8
  iterate 10 refine returns_ite (returns_ok _) ?_
  exact returns_fail _

theorem returns_expectedSize (version : UInt8) : Returns (PacketHeader.expectedSize version) := by
  unfold PacketHeader.expectedSize
  iterate 2 refine returns_ite (returns_ok _) ?_
  exact returns_fail _

/-- Only a version 2 length, which ends behind the header size, is read too far. -/
theorem returns_parsePayloadLength {version : UInt8} {bytes : Bytes} (hlength : 13 ≤ bytes.length)
    (h : version = protocolVersion2 → 16 ≤ bytes.length) :
    Returns (PacketHeader.parsePayloadLength version bytes) := by
  unfold PacketHeader.parsePayloadLength
  split_ifs with h1 h2
  · exact returns_bind (returns_index (by omega)) fun length _ => returns_ok _
  · refine returns_bind (returns_slice (by omega) (h h2)) fun part _ => ?_
    exact returns_bind (returns_tryIntoArray 4 part _) fun lengthBytes _ => returns_ok _
  · exact returns_fail _

theorem returns_header {bytes : Bytes} (h : ¬ TruncatedHeader bytes) :
    Returns (PacketHeader.fromBytes bytes) := by
  refine returns_guard fun hne => ?_
  have hpos := List.length_pos_iff.mpr hne
  refine returns_bind (returns_index hpos) fun version hversion => ?_
  refine returns_bind (returns_expectedSize version) fun size hsize => ?_
  refine returns_guard fun hshort => ?_
  have hthirteen : 13 ≤ bytes.length := by
    rcases PacketHeader.expectedSize_eq_ok.mp hsize with ⟨_, rfl⟩ | ⟨_, rfl⟩
    · exact Nat.not_lt.mp hshort
    · exact Nat.le_trans (by decide) (Nat.not_lt.mp hshort)
  refine returns_bind (returns_index (by omega)) fun typeByte htypeByte => ?_
  refine returns_bind (returns_messageType typeByte) fun messageType htype => ?_
  refine returns_bind (returns_index (by omega)) fun ttl _ => ?_
  refine returns_bind (returns_slice (by omega) (by omega)) fun timestampPart _ => ?_
  refine returns_bind (returns_tryIntoArray 8 timestampPart _) fun timestampBytes _ => ?_
  refine returns_bind (returns_index (by omega)) fun flags _ => ?_
  have hlong : version = protocolVersion2 → 16 ≤ bytes.length := by
    rintro rfl
    obtain rfl : headerSizeV2 = size := Except.ok.inj hsize
    have hne : bytes.length ≠ headerSizeV2 := by
      intro heq
      have hhead : bytes.head? = some protocolVersion2 := by
        rw [List.head?_eq_getElem?]
        exact index_eq_ok.mp hversion
      have hknown := MessageType.eq_asU8_of_fromU8 htype
      exact h ⟨heq, hhead, messageType, hknown ▸ index_eq_ok.mp htypeByte⟩
    exact Nat.lt_of_le_of_ne (Nat.not_lt.mp hshort) hne.symm
  refine returns_bind (returns_parsePayloadLength hthirteen hlong) fun payloadLength _ => ?_
  exact returns_bind (returns_validateHeader _) fun _ _ => returns_ok _

theorem header_panics {bytes : Bytes} (h : TruncatedHeader bytes) :
    PacketHeader.fromBytes bytes = panicked := by
  obtain ⟨hlength, hversion, messageType, htype⟩ := h
  match bytes, hlength with
  | [b0, b1, b2, b3, b4, b5, b6, b7, b8, b9, b10, b11, b12, b13, b14], _ =>
    obtain rfl : b0 = protocolVersion2 := by simpa using hversion
    obtain rfl : b1 = messageType.asU8 := by simpa using htype
    cases messageType <;> rfl

end Checked

/-! ## All parsers -/

/-- Every parser of untrusted bytes returns on the slice. -/
structure ParsersReturn (s : U8Slice) (now : Timestamp) : Prop where
  packet : Returns (Checked.decode s.bytes)
  header : Returns (PacketHeader.fromBytes s.bytes)
  message : Returns (Checked.fromBinary s.bytes)
  fragment : Returns (Fragment.fromWireFormat s.bytes now)
  entries : Returns (Checked.decodeEntries s.bytes)
  announce : Returns (Checked.decodeAnnounce s.bytes)

/-- No parser panics, unless the bytes are a version 2 header without its last byte. -/
theorem parsers_return_iff (s : U8Slice) (now : Timestamp) :
    ParsersReturn s now ↔ ¬ Checked.TruncatedHeader s.bytes := by
  constructor
  · intro h htruncated
    exact h.header (Checked.header_panics htruncated)
  · intro h
    have hheader := Checked.returns_header h
    obtain ⟨hpacketEq, hpacket⟩ := Checked.returns_decode hheader
    obtain ⟨hmessageEq, hmessage⟩ := Checked.returns_fromBinary s
    obtain ⟨hentriesEq, hentries⟩ := Checked.returns_decodeEntries s
    obtain ⟨hannounceEq, hannounce⟩ := Checked.returns_decodeAnnounce s
    exact
      { packet := hpacketEq ▸ hpacket
        header := hheader
        message := hmessageEq ▸ hmessage
        fragment := Checked.returns_fromWireFormat s.bytes now
        entries := hentriesEq ▸ hentries
        announce := hannounceEq ▸ hannounce }

/-- The first 15 bytes of a version 2 message. -/
def cutOffMessage : U8Slice := ⟨[2, 2] ++ List.replicate 13 0, by decide⟩

/-- Bytes 12 to 15 are sliced although the check before asks for 15 bytes. -/
theorem cutOffMessage_panics :
    Checked.decode cutOffMessage.bytes = panicked ∧ ¬ ParsersReturn cutOffMessage ⟨0⟩ :=
  ⟨rfl, fun h => h.packet rfl⟩

end Bitchat
