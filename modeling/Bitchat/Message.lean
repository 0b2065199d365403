import Bitchat.Rust.Readers
import Bitchat.Rust.Utf8
import Bitchat.Wire

/-!
# The content of a message

`BitchatMessage` and its binary format. Lengths are written in one or two bytes, and
optional fields behind a flag. The encoder checks most lengths and that a set flag has
its field, but neither that a present field has its flag nor that the mentions fit
their length bytes.
-/
namespace Bitchat
open Rust

/-- The flag byte of a message. -/
structure MessageFlags where
  asU8 : UInt8
  deriving DecidableEq, Repr

namespace MessageFlags

def none : MessageFlags := ⟨0x00⟩
def originalSenderBit : UInt8 := 0x04
def recipientNicknameBit : UInt8 := 0x08
def senderPeerIdBit : UInt8 := 0x10
def mentionsBit : UInt8 := 0x20

def hasOriginalSender (f : MessageFlags) : Bool := f.asU8 &&& originalSenderBit != 0
def hasRecipientNickname (f : MessageFlags) : Bool := f.asU8 &&& recipientNicknameBit != 0
def hasSenderPeerId (f : MessageFlags) : Bool := f.asU8 &&& senderPeerIdBit != 0
def hasMentions (f : MessageFlags) : Bool := f.asU8 &&& mentionsBit != 0

def withMentions (f : MessageFlags) : MessageFlags := ⟨f.asU8 ||| mentionsBit⟩

end MessageFlags

structure BitchatMessage where
  flags : MessageFlags
  timestamp : Timestamp
  id : Text
  sender : Text
  content : Text
  originalSender : Option Text
  recipientNickname : Option Text
  senderPeerId : Option PeerId
  mentions : Option (List Text)
  deriving DecidableEq

namespace BitchatMessage

open WireFormat

def new (id sender content : Text) (now : Timestamp) : BitchatMessage :=
  ⟨.none, now, id, sender, content, none, none, none, none⟩

def withMentions (m : BitchatMessage) (mentions : List Text) : BitchatMessage :=
  if mentions = [] then m
  else { m with flags := m.flags.withMentions, mentions := some mentions }

/-- Checks that set flags have their field, and all lengths but those of mentions. -/
def validate (m : BitchatMessage) : BitchatResult Unit := do
  rejectIf (m.flags.hasOriginalSender ∧ m.originalSender.isNone)
    "Original sender flag set but no original sender"
  rejectIf (m.flags.hasRecipientNickname ∧ m.recipientNickname.isNone)
    "Recipient nickname flag set but no recipient nickname"
  rejectIf (m.flags.hasSenderPeerId ∧ m.senderPeerId.isNone)
    "Sender peer ID flag set but no sender peer ID"
  rejectIf (m.flags.hasMentions ∧ (m.mentions = none ∨ m.mentions = some []))
    "Mentions flag set but no mentions"
  rejectIf (255 < m.id.size) "Message ID too long"
  rejectIf (255 < m.sender.size) "Sender nickname too long"
  rejectIf (2 ^ 16 - 1 < m.content.size) "Message content too long"
  rejectIf (255 < m.originalSender.elim 0 Text.size) "Original sender nickname too long"
  rejectIf (255 < m.recipientNickname.elim 0 Text.size) "Recipient nickname too long"

/-- One byte of length, cut off above 255, and the text. -/
def shortText (t : Text) : Bytes := [UInt8.ofNat t.size] ++ t.asBytes

/-- Two bytes of length, and the text. -/
def longText (t : Text) : Bytes := u16ToBeBytes (UInt16.ofNat t.size) ++ t.asBytes

/-- A byte with the number of mentions, cut off above 255, and the mentions. -/
def mentionList (mentions : List Text) : Bytes :=
  [UInt8.ofNat mentions.length] ++ mentions.flatMap shortText

/-- A section that is written when its flag is set and its field is there. -/
def optionalSection {α : Type} (flag : Bool) (field : Option α) (write : α → Bytes) : Bytes :=
  if flag then field.elim [] write else []

/-- The fields as they are written one after the other. -/
def layout (m : BitchatMessage) : Bytes :=
  [m.flags.asU8] ++ u64ToBeBytes m.timestamp.asMillis ++ shortText m.id ++ shortText m.sender ++
    longText m.content ++
    optionalSection m.flags.hasOriginalSender m.originalSender shortText ++
    optionalSection m.flags.hasRecipientNickname m.recipientNickname shortText ++
    optionalSection m.flags.hasSenderPeerId m.senderPeerId PeerId.asBytes ++
    optionalSection m.flags.hasMentions m.mentions mentionList

def toBinary (m : BitchatMessage) : BitchatResult Bytes := do
  m.validate
  pure m.layout

section Readers

variable [Offsets]

/-- A text of `n` bytes. -/
def readText (n : ℕ) (tooShort invalid : String) : Reader BitchatError Text :=
  fun bytes offset => do
    let (part, offset) ← readBytes n bytes offset tooShort
    let text ← okOr (fromUtf8 part) (.invalidPacket invalid)
    pure (text, offset)

def readByte (tooShort : String) : Reader BitchatError UInt8 := fun bytes offset => do
  let stop ← Offsets.add offset 1
  rejectIf (bytes.length < stop) tooShort
  let b ← index bytes offset
  pure (b, stop)

def readShort (tooShort invalid : String) : Reader BitchatError Text :=
  (readByte tooShort).andThen fun length => readText length.toNat tooShort invalid

def readContent : Reader BitchatError Text :=
  Reader.andThen (fun bytes offset => readArray 2 bytes offset
      "Message too short for content length" "Invalid content length") fun length =>
    readText (u16FromBeBytes length.toList).toNat "Message too short for content"
      "Invalid content encoding"

def readMentions : Reader BitchatError (List Text) :=
  (readByte "Message too short for mentions count").andThen fun count =>
    (readShort "Message too short for mention" "Invalid mention encoding").many count.toNat

def readPeerId : Reader BitchatError (List.Vector UInt8 8) := fun bytes offset =>
  readArray 8 bytes offset "Message too short for sender peer ID" "Invalid sender peer ID"

/-- The fields in order, and the offset behind the last of them. -/
def readFields (bytes : Bytes) : BitchatResult (BitchatMessage × ℕ) := do
  rejectIf (bytes.length < 11) "Message too short"
  let flagByte ← index bytes 0
  let flags : MessageFlags := ⟨flagByte⟩
  let timestampPart ← slice bytes 1 9
  let timestampBytes ← tryIntoArray 8 timestampPart (.invalidPacket "Invalid timestamp")
  let idLength ← index bytes 9
  let (id, offset) ← readText idLength.toNat "Message too short for ID" "Invalid ID encoding"
    bytes 10
  let (sender, offset) ← readShort "Message too short for sender" "Invalid sender encoding"
    bytes offset
  let (content, offset) ← readContent bytes offset
  let (originalSender, offset) ← readOptional flags.hasOriginalSender
    (readShort "Message too short for original sender" "Invalid original sender encoding" bytes)
    offset
  let (recipientNickname, offset) ← readOptional flags.hasRecipientNickname
    (readShort "Message too short for recipient nickname" "Invalid recipient nickname encoding"
      bytes) offset
  let (senderPeerId, offset) ← readOptional flags.hasSenderPeerId (readPeerId bytes) offset
  let (mentions, offset) ← readOptional flags.hasMentions (readMentions bytes) offset
  pure (⟨flags, ⟨u64FromBeBytes timestampBytes.toList⟩, id, sender, content, originalSender,
    recipientNickname, senderPeerId.map PeerId.mk, mentions⟩, offset)

/-- What stands behind the last field is ignored. -/
def fromBinary (bytes : Bytes) : BitchatResult BitchatMessage := do
  let (message, _) ← readFields bytes
  message.validate
  pure message

end Readers

/-! ## What the readers recognize -/

open Reader

theorem recognizes_text (n : ℕ) (tooShort invalid : String) :
    Recognizes (readText n tooShort invalid) (fun t => t.size = n) Text.asBytes := by
  intro bytes offset t next _
  simp only [readText, bind_eq_ok, Prod.exists, readBytes_eq_ok, okOr_eq_ok, fromUtf8_eq_some,
    pure_eq_ok, Except.ok.injEq, Prod.mk.injEq]
  constructor
  · rintro ⟨_, _, ⟨hslice, rfl⟩, _, rfl, rfl, rfl⟩
    have hlength := (slice_length hslice).1
    rw [Nat.add_sub_cancel_left] at hlength
    exact ⟨hlength, hslice⟩
  · rintro ⟨rfl, hslice⟩
    obtain rfl := (slice_iff_drop.mp hslice).1
    exact ⟨_, _, ⟨hslice, rfl⟩, t, rfl, rfl, rfl⟩

theorem recognizes_byte (tooShort : String) :
    Recognizes (readByte tooShort) (fun _ => True) (fun b => [b]) := by
  intro bytes offset b next _
  rw [readByte, Offsets.add_eq_ok, ok_bind, rejectIf_bind_eq_ok, true_and]
  simp only [bind_eq_ok, pure_eq_ok, Except.ok.injEq, Prod.mk.injEq]
  constructor
  · rintro ⟨_, _, hindex, rfl, rfl⟩
    exact slice_singleton_iff.mpr hindex
  · intro hslice
    obtain ⟨rfl, hle, _⟩ := slice_iff_drop.mp hslice
    exact ⟨Nat.not_lt.mpr hle, b, slice_singleton_iff.mp hslice, rfl, rfl⟩

theorem recognizes_array (n : ℕ) (tooShort invalid : String) :
    Recognizes (fun bytes offset => readArray n bytes offset tooShort invalid) (fun _ => True)
      List.Vector.toList := by
  intro bytes offset v next _
  rw [readArray_eq_ok, true_and]
  constructor
  · rintro ⟨hslice, rfl⟩
    exact hslice
  · intro hslice
    have hnext := (slice_iff_drop.mp hslice).1
    rw [v.toList_length] at hnext
    exact ⟨hnext ▸ hslice, hnext⟩

/-- A length is read from one byte up to 255. -/
theorem le_255_iff {n : ℕ} {b : UInt8} : n ≤ 255 ∧ UInt8.ofNat n = b ↔ n = b.toNat := by
  rw [← UInt8.toNat_inj, UInt8.toNat_ofNat']
  have := b.toNat_lt
  omega

theorem recognizes_short (tooShort invalid : String) :
    Recognizes (readShort tooShort invalid) (fun t => t.size ≤ 255) shortText := by
  have htext (b : UInt8) (_ : True) : Recognizes (readText b.toNat tooShort invalid)
      (fun t => t.size ≤ 255 ∧ UInt8.ofNat t.size = b) Text.asBytes :=
    (recognizes_text b.toNat tooShort invalid).congr (fun _ => le_255_iff) fun _ _ => rfl
  exact ((recognizes_byte tooShort).andThen (fun t : Text => UInt8.ofNat t.size) htext).congr
    (fun t => by simp) fun _ _ => rfl

theorem recognizes_content : Recognizes readContent (fun t => t.size ≤ 2 ^ 16 - 1) longText := by
  have hlength (v : List.Vector UInt8 2) (t : Text) : t.size ≤ 2 ^ 16 - 1 ∧
      (⟨u16ToBeBytes (UInt16.ofNat t.size), by simp⟩ : List.Vector UInt8 2) = v ↔
        t.size = (u16FromBeBytes v.toList).toNat := by
    constructor
    · rintro ⟨hle, rfl⟩
      show t.size = (u16FromBeBytes (u16ToBeBytes _)).toNat
      rw [u16FromBeBytes_toBeBytes, UInt16.toNat_ofNat']
      omega
    · intro h
      have hlt := (u16FromBeBytes v.toList).toNat_lt
      refine ⟨by omega, List.Vector.toList_injective ?_⟩
      show u16ToBeBytes (UInt16.ofNat t.size) = v.toList
      rw [h, UInt16.ofNat_toNat, u16ToBeBytes_fromBeBytes v.toList_length]
  have htext (v : List.Vector UInt8 2) (_ : True) := (recognizes_text
    (u16FromBeBytes v.toList).toNat "Message too short for content"
      "Invalid content encoding").congr (hlength v) fun _ _ => rfl
  exact ((recognizes_array 2 _ _).andThen _ htext).congr (fun t => by simp) fun _ _ => rfl

theorem recognizes_mentions : Recognizes readMentions
    (fun l => l.length ≤ 255 ∧ ∀ t ∈ l, t.size ≤ 255) mentionList := by
  have hlist (b : UInt8) (_ : True) : Recognizes
      ((readShort "Message too short for mention" "Invalid mention encoding").many b.toNat)
      (fun l => (l.length ≤ 255 ∧ ∀ t ∈ l, t.size ≤ 255) ∧ UInt8.ofNat l.length = b)
      (fun l => l.flatMap shortText) :=
    ((recognizes_short _ _).many b.toNat).congr
      (fun l => by rw [and_right_comm, le_255_iff]) fun _ _ => rfl
  exact ((recognizes_byte _).andThen (fun l : List Text => UInt8.ofNat l.length) hlist).congr
    (fun l => by simp) fun _ _ => rfl

/-- An optional field is read exactly when its flag is set. -/
theorem recognizes_optional {α : Type} {read : Reader BitchatError α} {fits : α → Prop}
    {write : α → Bytes} (flag : Bool) (h : Recognizes read fits write) :
    Recognizes (fun bytes offset => readOptional flag (read bytes) offset)
      (fun field => field.isSome = flag ∧ ∀ a ∈ field, fits a)
      (fun field => optionalSection flag field write) := by
  intro bytes offset field next hle
  rw [readOptional_eq_ok]
  cases flag with
  | true =>
    cases field with
    | none => simp
    | some a => simp [optionalSection, h bytes offset a next hle]
  | false =>
    cases field with
    | none => simp [optionalSection, slice_nil_iff hle]
    | some a => simp

theorem readPeerId_eq_ok {flag : Bool} {bytes : Bytes} {offset next : ℕ}
    {field : Option (List.Vector UInt8 8)} (hle : offset ≤ bytes.length) :
    readOptional flag (readPeerId bytes) offset = .ok (field, next) ↔
      field.isSome = flag ∧ (slice bytes offset next : BitchatResult Bytes) =
        .ok (optionalSection flag (field.map PeerId.mk) PeerId.asBytes) := by
  have hwrite : optionalSection flag (field.map PeerId.mk) PeerId.asBytes =
      optionalSection flag field List.Vector.toList := by
    cases field <;> rfl
  rw [hwrite]
  refine (recognizes_optional flag (recognizes_array 8 _ _) bytes offset field next hle).trans ?_
  simp

/-- Every present field has its flag, every set flag its field, and all lengths fit. -/
structure Readable (m : BitchatMessage) : Prop where
  id : m.id.size ≤ 255
  sender : m.sender.size ≤ 255
  content : m.content.size ≤ 2 ^ 16 - 1
  originalSender : m.originalSender.isSome = m.flags.hasOriginalSender ∧
    ∀ t ∈ m.originalSender, t.size ≤ 255
  recipientNickname : m.recipientNickname.isSome = m.flags.hasRecipientNickname ∧
    ∀ t ∈ m.recipientNickname, t.size ≤ 255
  senderPeerId : m.senderPeerId.isSome = m.flags.hasSenderPeerId
  mentions : m.mentions.isSome = m.flags.hasMentions ∧
    ∀ l ∈ m.mentions, l.length ≤ 255 ∧ ∀ t ∈ l, t.size ≤ 255

/-- The id starts with its length, which is not checked to be there. -/
theorem readId_eq_ok {bytes : Bytes} {id : Text} {next : ℕ} :
    (∃ length, (index bytes 9 : BitchatResult UInt8) = .ok length ∧
      readText length.toNat "Message too short for ID" "Invalid ID encoding" bytes 10 =
        .ok (id, next)) ↔
      id.size ≤ 255 ∧ (slice bytes 9 next : BitchatResult Bytes) = .ok (shortText id) := by
  rw [shortText, slice_append_iff]
  constructor
  · rintro ⟨length, hindex, hread⟩
    have hfirst := slice_singleton_iff.mpr hindex
    obtain ⟨hsize, htext⟩ :=
      (recognizes_text _ _ _ bytes 10 id next (slice_length hfirst).2).mp hread
    obtain ⟨hle, hlength⟩ := le_255_iff.mpr hsize
    exact ⟨hle, 10, hlength ▸ hfirst, htext⟩
  · rintro ⟨hle, middle, hfirst, htext⟩
    obtain rfl : middle = 10 := (slice_iff_drop.mp hfirst).1
    refine ⟨_, slice_singleton_iff.mp hfirst, ?_⟩
    exact (recognizes_text _ _ _ bytes 10 id next (slice_length hfirst).2).mpr
      ⟨le_255_iff.mp ⟨hle, rfl⟩, htext⟩

/-- What is read as the fields of a message is what the message writes. -/
theorem slice_of_readFields {bytes : Bytes} {m : BitchatMessage} {stop : ℕ}
    (h : readFields bytes = .ok (m, stop)) :
    m.Readable ∧ (slice bytes 0 stop : BitchatResult Bytes) = .ok m.layout := by
  unfold readFields at h
  rw [rejectIf_bind_eq_ok] at h
  simp only [layout, List.append_assoc, slice_append_iff]
  obtain ⟨_, hrest⟩ := h
  obtain ⟨flagByte, hflag, hrest⟩ := bind_eq_ok.mp hrest
  obtain ⟨timestampPart, htimestamp, hrest⟩ := bind_eq_ok.mp hrest
  obtain ⟨timestampBytes, harray, hrest⟩ := bind_eq_ok.mp hrest
  obtain ⟨idLength, hidLength, hrest⟩ := bind_eq_ok.mp hrest
  obtain ⟨⟨id, o1⟩, hid, hrest⟩ := bind_eq_ok.mp hrest
  obtain ⟨⟨sender, o2⟩, hsender, hrest⟩ := bind_eq_ok.mp hrest
  obtain ⟨⟨content, o3⟩, hcontent, hrest⟩ := bind_eq_ok.mp hrest
  obtain ⟨⟨originalSender, o4⟩, horiginal, hrest⟩ := bind_eq_ok.mp hrest
  obtain ⟨⟨recipientNickname, o5⟩, hrecipient, hrest⟩ := bind_eq_ok.mp hrest
  obtain ⟨⟨senderPeerId, o6⟩, hpeer, hrest⟩ := bind_eq_ok.mp hrest
  obtain ⟨⟨mentions, o7⟩, hmentions, hrest⟩ := bind_eq_ok.mp hrest
  obtain ⟨rfl, rfl⟩ := Prod.mk.inj (Except.ok.inj hrest)
  obtain rfl := tryIntoArray_eq_ok.mp harray
  obtain ⟨fitsId, s1⟩ := readId_eq_ok.mp ⟨idLength, hidLength, hid⟩
  obtain ⟨fitsSender, s2⟩ := (recognizes_short _ _ _ _ _ _ (slice_length s1).2).mp hsender
  obtain ⟨fitsContent, s3⟩ := (recognizes_content _ _ _ _ (slice_length s2).2).mp hcontent
  obtain ⟨fitsOriginal, s4⟩ :=
    (recognizes_optional _ (recognizes_short _ _) _ _ _ _ (slice_length s3).2).mp horiginal
  obtain ⟨fitsRecipient, s5⟩ :=
    (recognizes_optional _ (recognizes_short _ _) _ _ _ _ (slice_length s4).2).mp hrecipient
  obtain ⟨fitsPeer, s6⟩ := (readPeerId_eq_ok (slice_length s5).2).mp hpeer
  obtain ⟨fitsMentions, s7⟩ :=
    (recognizes_optional _ recognizes_mentions _ _ _ _ (slice_length s6).2).mp hmentions
  refine ⟨⟨fitsId, fitsSender, fitsContent, fitsOriginal, fitsRecipient, ?_, fitsMentions⟩,
    1, slice_singleton_iff.mpr hflag, 9, ?_, o1, s1, o2, s2, o3, s3, o4, s4, o5, s5, o6, s6, s7⟩
  · rw [Option.isSome_map]
    exact fitsPeer
  · rw [u64ToBeBytes_fromBeBytes timestampBytes.toList_length]
    exact htimestamp

/-- What a message writes is read as its fields. -/
theorem readFields_of_slice {bytes : Bytes} {m : BitchatMessage} {stop : ℕ} (fits : m.Readable)
    (h : (slice bytes 0 stop : BitchatResult Bytes) = .ok m.layout) :
    readFields bytes = .ok (m, stop) := by
  unfold readFields
  rw [rejectIf_bind_eq_ok]
  simp only [layout, List.append_assoc, slice_append_iff] at h
  obtain ⟨o, sflag, o', stimestamp, o1, s1, o2, s2, o3, s3, o4, s4, o5, s5, o6, s6, s7⟩ := h
  obtain rfl : o = 1 := (slice_iff_drop.mp sflag).1
  obtain rfl : o' = 9 := by simpa using (slice_iff_drop.mp stimestamp).1
  have hlength : 11 ≤ bytes.length := by
    have h1 := (slice_iff_drop.mp s1).1
    have h2 := slice_iff_drop.mp s2
    simp only [shortText, List.length_append, List.length_singleton] at h1 h2
    omega
  have hflag := slice_singleton_iff.mp sflag
  obtain ⟨timestampBytes, htimestamp⟩ : ∃ v : List.Vector UInt8 8,
      v.toList = u64ToBeBytes m.timestamp.asMillis := ⟨⟨_, u64ToBeBytes_length _⟩, rfl⟩
  obtain ⟨idLength, hidLength, hid⟩ := readId_eq_ok.mpr ⟨fits.id, s1⟩
  have hsender := (recognizes_short "Message too short for sender" "Invalid sender encoding"
    _ _ _ _ (slice_length s1).2).mpr ⟨fits.sender, s2⟩
  have hcontent := (recognizes_content _ _ _ _ (slice_length s2).2).mpr ⟨fits.content, s3⟩
  have horiginal := (recognizes_optional _ (recognizes_short
    "Message too short for original sender" "Invalid original sender encoding")
    _ _ _ _ (slice_length s3).2).mpr ⟨fits.originalSender, s4⟩
  have hrecipient := (recognizes_optional _ (recognizes_short
    "Message too short for recipient nickname" "Invalid recipient nickname encoding")
    _ _ _ _ (slice_length s4).2).mpr ⟨fits.recipientNickname, s5⟩
  have hpeer : readOptional m.flags.hasSenderPeerId (readPeerId bytes) o5 =
      .ok (m.senderPeerId.map PeerId.bytes, o6) := by
    refine (readPeerId_eq_ok (slice_length s5).2).mpr ⟨?_, ?_⟩
    · rw [Option.isSome_map]
      exact fits.senderPeerId
    · rw [show (m.senderPeerId.map PeerId.bytes).map PeerId.mk = m.senderPeerId by
        simp [Function.comp_def]]
      exact s6
  have hmentions := (recognizes_optional _ recognizes_mentions _ _ _ _ (slice_length s6).2).mpr
    ⟨fits.mentions, s7⟩
  refine ⟨Nat.not_lt.mpr hlength, ?_⟩
  rw [← htimestamp] at stimestamp
  simp only [hflag, stimestamp, tryIntoArray_toList, hidLength, hid, hsender, hcontent, horiginal,
    hrecipient, hpeer, hmentions, ok_bind]
  simp [htimestamp, Function.comp_def]

/-- Reading the fields undoes writing them, and takes nothing else. -/
theorem readFields_eq_ok {bytes : Bytes} {m : BitchatMessage} {stop : ℕ} :
    readFields bytes = .ok (m, stop) ↔
      m.Readable ∧ (slice bytes 0 stop : BitchatResult Bytes) = .ok m.layout :=
  ⟨slice_of_readFields, fun h => readFields_of_slice h.1 h.2⟩

/-! ## Whole messages -/

theorem toBinary_eq_ok {m : BitchatMessage} {bytes : Bytes} :
    m.toBinary = .ok bytes ↔ m.validate = .ok () ∧ bytes = m.layout := by
  simp only [toBinary, bind_eq_ok, pure_eq_ok, Except.ok.injEq]
  constructor
  · rintro ⟨⟨⟩, hvalid, rfl⟩
    exact ⟨hvalid, rfl⟩
  · rintro ⟨hvalid, rfl⟩
    exact ⟨(), hvalid, rfl⟩

/-- The decoder gives the valid messages whose fields the bytes start with. -/
theorem fromBinary_eq_ok {bytes : Bytes} {m : BitchatMessage} :
    fromBinary bytes = .ok m ↔ m.Readable ∧ m.validate = .ok () ∧ m.layout <+: bytes := by
  simp only [fromBinary, bind_eq_ok, Prod.exists, pure_eq_ok, Except.ok.injEq,
    ← slice_zero_iff (ε := BitchatError)]
  constructor
  · rintro ⟨_, stop, hfields, ⟨⟩, hvalid, rfl⟩
    obtain ⟨hreadable, hslice⟩ := readFields_eq_ok.mp hfields
    exact ⟨hreadable, hvalid, stop, hslice⟩
  · rintro ⟨hreadable, hvalid, stop, hslice⟩
    exact ⟨m, stop, readFields_eq_ok.mpr ⟨hreadable, hslice⟩, (), hvalid, rfl⟩

/-- What the checks say about the optional fields and the lengths. -/
theorem of_validate {m : BitchatMessage} (h : m.validate = .ok ()) :
    (m.flags.hasOriginalSender = true → m.originalSender.isSome = true) ∧
      (m.flags.hasRecipientNickname = true → m.recipientNickname.isSome = true) ∧
      (m.flags.hasSenderPeerId = true → m.senderPeerId.isSome = true) ∧
      (m.flags.hasMentions = true → m.mentions.isSome = true) ∧
      m.id.size ≤ 255 ∧ m.sender.size ≤ 255 ∧ m.content.size ≤ 2 ^ 16 - 1 ∧
      (∀ t ∈ m.originalSender, t.size ≤ 255) ∧ ∀ t ∈ m.recipientNickname, t.size ≤ 255 := by
  simp only [validate, rejectIf_bind_eq_ok, rejectIf_eq_ok, not_and, not_lt, not_or] at h
  obtain ⟨horiginal, hrecipient, hpeer, hmentions, hid, hsender, hcontent, horiginalSize,
    hrecipientSize⟩ := h
  refine ⟨?_, ?_, ?_, ?_, hid, hsender, hcontent, ?_, ?_⟩
  · simpa [Option.isSome_iff_ne_none] using horiginal
  · simpa [Option.isSome_iff_ne_none] using hrecipient
  · simpa [Option.isSome_iff_ne_none] using hpeer
  · intro hset
    exact Option.isSome_iff_ne_none.mpr (hmentions hset).1
  · intro t ht
    rw [Option.mem_def.mp ht] at horiginalSize
    exact horiginalSize
  · intro t ht
    rw [Option.mem_def.mp ht] at hrecipientSize
    exact hrecipientSize

/-- Every present field has its flag, and the mentions fit their length bytes. -/
structure Carried (m : BitchatMessage) : Prop where
  originalSender : m.originalSender.isSome = true → m.flags.hasOriginalSender = true
  recipientNickname : m.recipientNickname.isSome = true → m.flags.hasRecipientNickname = true
  senderPeerId : m.senderPeerId.isSome = true → m.flags.hasSenderPeerId = true
  mentions : m.mentions.isSome = true → m.flags.hasMentions = true
  count : ∀ l ∈ m.mentions, l.length ≤ 255
  sizes : ∀ l ∈ m.mentions, ∀ t ∈ l, t.size ≤ 255

theorem readable_iff_carried {m : BitchatMessage} (h : m.validate = .ok ()) :
    m.Readable ↔ m.Carried := by
  obtain ⟨horiginal, hrecipient, hpeer, hmentions, hid, hsender, hcontent, horiginalSize,
    hrecipientSize⟩ := of_validate h
  constructor
  · intro fits
    exact ⟨fun hsome => fits.originalSender.1 ▸ hsome,
      fun hsome => fits.recipientNickname.1 ▸ hsome,
      fun hsome => fits.senderPeerId ▸ hsome, fun hsome => fits.mentions.1 ▸ hsome,
      fun l hl => (fits.mentions.2 l hl).1, fun l hl => (fits.mentions.2 l hl).2⟩
  · intro carried
    exact ⟨hid, hsender, hcontent,
      ⟨Bool.eq_iff_iff.mpr ⟨carried.originalSender, horiginal⟩, horiginalSize⟩,
      ⟨Bool.eq_iff_iff.mpr ⟨carried.recipientNickname, hrecipient⟩, hrecipientSize⟩,
      Bool.eq_iff_iff.mpr ⟨carried.senderPeerId, hpeer⟩,
      ⟨Bool.eq_iff_iff.mpr ⟨carried.mentions, hmentions⟩,
        fun l hl => ⟨carried.count l hl, carried.sizes l hl⟩⟩⟩

/-- A message that is encoded comes back exactly when every present field has its flag
and the mentions fit their length bytes. -/
theorem binary_roundTrip_iff (m : BitchatMessage) (bytes : Bytes) (h : m.toBinary = .ok bytes) :
    fromBinary bytes = .ok m ↔ m.Carried := by
  obtain ⟨hvalid, rfl⟩ := toBinary_eq_ok.mp h
  rw [fromBinary_eq_ok, readable_iff_carried hvalid]
  constructor
  · intro hread
    exact hread.1
  · intro carried
    exact ⟨carried, hvalid, List.prefix_refl _⟩

def greeting : BitchatMessage :=
  (new "msg123".toList "Alice".toList "Hello, BitChat!".toList ⟨1700000000000⟩).withMentions
    ["@Bob".toList, "@Charlie".toList]

theorem binary_roundTrip_greeting :
    ∃ bytes, greeting.toBinary = .ok bytes ∧ fromBinary bytes = .ok greeting :=
  ⟨_, rfl, (binary_roundTrip_iff greeting _ rfl).mpr ⟨by decide, by decide, by decide, by decide,
    by decide +kernel, by decide +kernel⟩⟩

/-- One mention of 256 bytes. -/
def longMention : BitchatMessage :=
  (new "1".toList "Alice".toList "Hi".toList ⟨1700000000000⟩).withMentions [List.replicate 256 'x']

/-- Its length is written as zero, and it comes back empty. -/
theorem longMention_cut_off : ∃ bytes, longMention.toBinary = .ok bytes ∧
    fromBinary bytes = .ok { longMention with mentions := some [[]] } ∧
    { longMention with mentions := some [[]] } ≠ longMention :=
  ⟨_, rfl, by decide +kernel, by decide⟩

/-- What is decoded is encoded to the bytes it was read from, without what stands behind
its last field. -/
theorem binary_faithful (bytes : Bytes) (m : BitchatMessage) (h : fromBinary bytes = .ok m) :
    ∃ written, m.toBinary = .ok written ∧ written <+: bytes ∧ fromBinary written = .ok m := by
  obtain ⟨hreadable, hvalid, hprefix⟩ := fromBinary_eq_ok.mp h
  have hread := fromBinary_eq_ok.mpr ⟨hreadable, hvalid, List.prefix_refl m.layout⟩
  exact ⟨m.layout, toBinary_eq_ok.mpr ⟨hvalid, rfl⟩, hprefix, hread⟩

/-- Two bytes behind the greeting are ignored. -/
theorem binary_faithful_greeting : ∃ written, greeting.toBinary = .ok written ∧
    written <+: greeting.layout ++ [0, 1] ∧ fromBinary written = .ok greeting :=
  binary_faithful (greeting.layout ++ [0, 1]) greeting rfl

end BitchatMessage

end Bitchat
