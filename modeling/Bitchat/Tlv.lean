import Bitchat.Fragmentation
import Bitchat.Rust.Readers
import Bitchat.Rust.Utf8

/-!
# Type-length-value entries

`TlvType`, `TlvEntry` and `TlvCodec` of `tlv.rs`. An entry is written with its type in
one byte and its length in two; a longer value is written whole behind a length that is
cut off. What decodes is a list of entries whose lengths fit, written one after another.
-/
namespace Bitchat
open Rust

inductive TlvType where
  | nickname
  | noisePublicKey
  | signingPublicKey
  | directNeighbors
  deriving DecidableEq, Repr

namespace TlvType

def asU8 : TlvType → UInt8
  | nickname => 0x01
  | noisePublicKey => 0x02
  | signingPublicKey => 0x03
  | directNeighbors => 0x04

def fromU8 (value : UInt8) : BitchatResult TlvType :=
  if value = 0x01 then .ok nickname
  else if value = 0x02 then .ok noisePublicKey
  else if value = 0x03 then .ok signingPublicKey
  else if value = 0x04 then .ok directNeighbors
  else fail (.invalidTlvType value)

theorem fromU8_eq_ok {value : UInt8} {t : TlvType} : fromU8 value = .ok t ↔ value = t.asU8 := by
  constructor
  · intro h
    unfold fromU8 at h
    iterate 4
      rcases of_ite_ok h with ⟨rfl, rfl⟩ | h
      · rfl
    exact absurd h (fail_ne_ok _ _)
  · rintro rfl
    cases t <;> rfl

end TlvType

structure TlvEntry where
  tlvType : TlvType
  value : Bytes
  deriving DecidableEq

/-- `data.chunks_exact(size)`. -/
def chunksExact (size : ℕ) (data : Bytes) : List Bytes :=
  (List.range (data.length / size)).map (MessageFragmenter.chunk size data)

namespace TlvEntry

/-- The only entry whose length is checked. -/
def ofNickname (nickname : Text) : BitchatResult TlvEntry := do
  failIf (255 < nickname.size) (.tlvValueTooLarge nickname.size)
  pure ⟨.nickname, nickname.asBytes⟩

def ofNoisePublicKey (key : Key32) : TlvEntry := ⟨.noisePublicKey, key.toList⟩

def ofSigningPublicKey (key : Key32) : TlvEntry := ⟨.signingPublicKey, key.toList⟩

def ofDirectNeighbors (neighbors : List Key32) : TlvEntry :=
  ⟨.directNeighbors, neighbors.flatMap List.Vector.toList⟩

def asNickname (entry : TlvEntry) : BitchatResult Text := do
  failIf (entry.tlvType ≠ .nickname) (.invalidTlvType entry.tlvType.asU8)
  okOr (fromUtf8 entry.value) .invalidUtf8

def asKey (entry : TlvEntry) : BitchatResult Key32 := do
  failIf (entry.value.length ≠ 32) (.invalidKeyLength entry.value.length)
  tryIntoArray 32 entry.value (.invalidKeyLength entry.value.length)

def asNeighbors (entry : TlvEntry) : BitchatResult (List Key32) := do
  failIf (entry.tlvType ≠ .directNeighbors) (.invalidTlvType entry.tlvType.asU8)
  failIf (entry.value.length % 32 ≠ 0) (.invalidDataLength entry.value.length)
  (chunksExact 32 entry.value).mapM fun chunk =>
    tryIntoArray 32 chunk (.invalidKeyLength chunk.length)

/-- Type, length and value. Of the length only the low two bytes are written. -/
def encode (entry : TlvEntry) : Bytes :=
  [entry.tlvType.asU8] ++ u16ToBeBytes (UInt16.ofNat entry.value.length) ++ entry.value

/-- The first entry of the data, and how many bytes it takes. -/
def decode [Offsets] (data : Bytes) : BitchatResult (TlvEntry × ℕ) := do
  failIf (data.length < 3) (.insufficientData data.length)
  let typeByte ← index data 0
  let tlvType ← TlvType.fromU8 typeByte
  let high ← index data 1
  let low ← index data 2
  let length := (u16FromBeBytes [high, low]).toNat
  let totalLength ← Offsets.add 3 length
  failIf (data.length < totalLength) (.insufficientData data.length)
  let value ← slice data 3 totalLength
  pure (⟨tlvType, value⟩, totalLength)

/-- Its length can be written in two bytes. -/
def Fits (entry : TlvEntry) : Prop := entry.value.length < 2 ^ 16

@[simp] theorem encode_length (entry : TlvEntry) :
    entry.encode.length = 3 + entry.value.length := by
  simp [encode]
  omega

theorem fits_ofNoisePublicKey (key : Key32) : (ofNoisePublicKey key).Fits := by
  simp [Fits, ofNoisePublicKey]

theorem fits_ofSigningPublicKey (key : Key32) : (ofSigningPublicKey key).Fits := by
  simp [Fits, ofSigningPublicKey]

theorem asKey_eq_ok {entry : TlvEntry} {key : Key32} :
    entry.asKey = .ok key ↔ entry.value = key.toList := by
  rw [asKey, failIf_bind_eq_ok, tryIntoArray_eq_ok, not_not]
  constructor
  · intro h
    exact h.2
  · intro h
    exact ⟨by rw [h, key.toList_length], h⟩

theorem asNickname_eq_ok {entry : TlvEntry} {nickname : Text} :
    entry.asNickname = .ok nickname ↔
      entry.tlvType = .nickname ∧ entry.value = nickname.asBytes := by
  rw [asNickname, failIf_bind_eq_ok, okOr_eq_ok, fromUtf8_eq_some, not_not]

/-- The bytes of a list of keys. -/
theorem length_keys (keys : List Key32) :
    (keys.flatMap List.Vector.toList).length = 32 * keys.length := by
  induction keys with
  | nil => rfl
  | cons key keys ih => simp [ih]; omega

/-- Two bytes of length have room for 2047 keys. -/
theorem fits_ofDirectNeighbors {keys : List Key32} :
    (ofDirectNeighbors keys).Fits ↔ keys.length ≤ 2047 := by
  have hlength := length_keys keys
  simp only [Fits, ofDirectNeighbors, hlength]
  omega

theorem chunk_keys (keys : List Key32) {i : ℕ} (hi : i < keys.length) :
    MessageFragmenter.chunk 32 (keys.flatMap List.Vector.toList) i = (keys[i]).toList := by
  induction keys generalizing i with
  | nil => simp at hi
  | cons key keys ih =>
    cases i with
    | zero =>
      rw [MessageFragmenter.chunk, Nat.zero_mul, List.drop_zero, List.flatMap_cons]
      exact List.take_left' key.toList_length
    | succ i =>
      have hsucc : (i + 1) * 32 = key.toList.length + i * 32 := by
        rw [key.toList_length]
        omega
      rw [MessageFragmenter.chunk, List.flatMap_cons, hsucc, ← List.drop_drop, List.drop_left]
      exact ih (by simpa using hi)

/-- The chunks of a list of keys are the keys. -/
theorem chunksExact_keys (keys : List Key32) :
    chunksExact 32 (keys.flatMap List.Vector.toList) = keys.map List.Vector.toList := by
  have hlength := length_keys keys
  apply List.ext_getElem
  · simp [chunksExact, hlength]
  · intro i h1 h2
    have hi : i < keys.length := by simpa using h2
    simpa [chunksExact] using chunk_keys keys hi

/-- Chunks that leave no remainder make up the data. -/
theorem flatten_chunksExact {size : ℕ} {data : Bytes} (h : data.length % size = 0) :
    (chunksExact size data).flatten = data := by
  have hlength := Nat.div_add_mod data.length size
  rw [h, Nat.add_zero, Nat.mul_comm] at hlength
  rw [chunksExact, MessageFragmenter.flatten_chunks, hlength, List.take_length]

theorem asNeighbors_eq_ok {entry : TlvEntry} {neighbors : List Key32} :
    entry.asNeighbors = .ok neighbors ↔
      entry.tlvType = .directNeighbors ∧ entry.value = neighbors.flatMap List.Vector.toList := by
  have hchunks : (chunksExact 32 entry.value).mapM (fun chunk =>
      tryIntoArray 32 chunk (BitchatError.invalidKeyLength chunk.length)) = .ok neighbors ↔
        chunksExact 32 entry.value = neighbors.map List.Vector.toList := by
    rw [mapM_eq_ok]
    simp only [tryIntoArray_eq_ok]
    rw [← List.forall₂_map_right_iff, List.forall₂_eq_eq_eq]
  rw [asNeighbors, failIf_bind_eq_ok, failIf_bind_eq_ok, hchunks, not_not, not_not]
  constructor
  · rintro ⟨htype, hmultiple, hkeys⟩
    have hvalue := flatten_chunksExact hmultiple
    rw [hkeys, ← List.flatMap_def] at hvalue
    exact ⟨htype, hvalue.symm⟩
  · rintro ⟨htype, hvalue⟩
    have hlength := length_keys neighbors
    rw [hvalue]
    exact ⟨htype, by omega, chunksExact_keys neighbors⟩

/-- The length that is written is the one that is read if it fits. -/
theorem fits_iff {entry : TlvEntry} {high low : UInt8} :
    entry.Fits ∧ u16ToBeBytes (UInt16.ofNat entry.value.length) = [high, low] ↔
      entry.value.length = (u16FromBeBytes [high, low]).toNat := by
  constructor
  · rintro ⟨hfits, hbytes⟩
    rw [← hbytes, u16FromBeBytes_toBeBytes, UInt16.toNat_ofNat']
    exact (Nat.mod_eq_of_lt hfits).symm
  · intro h
    have hlt := (u16FromBeBytes [high, low]).toNat_lt
    refine ⟨by rw [Fits, h]; exact hlt, ?_⟩
    rw [h, UInt16.ofNat_toNat, u16ToBeBytes_fromBeBytes rfl]

/-- An entry is read where it is written, if its length fits. -/
theorem decode_eq_ok {data : Bytes} {entry : TlvEntry} {consumed : ℕ} :
    decode data = .ok (entry, consumed) ↔
      entry.Fits ∧ (slice data 0 consumed : BitchatResult Bytes) = .ok entry.encode := by
  simp only [encode, List.append_assoc, slice_append_iff]
  constructor
  · intro h
    obtain ⟨hlength, h⟩ := failIf_bind_eq_ok.mp h
    obtain ⟨typeByte, h0, h⟩ := bind_eq_ok.mp h
    obtain ⟨tlvType, htype, h⟩ := bind_eq_ok.mp h
    obtain ⟨high, h1, h⟩ := bind_eq_ok.mp h
    obtain ⟨low, h2, h⟩ := bind_eq_ok.mp h
    obtain ⟨_, h⟩ := failIf_bind_eq_ok.mp h
    obtain ⟨value, hvalue, h⟩ := bind_eq_ok.mp h
    obtain ⟨rfl, rfl⟩ := Prod.mk.inj (Except.ok.inj h)
    have hsize : value.length = (u16FromBeBytes [high, low]).toNat := by
      have hread := (slice_length hvalue).1
      omega
    obtain ⟨hfits, hbytes⟩ : (⟨tlvType, value⟩ : TlvEntry).Fits ∧
        u16ToBeBytes (UInt16.ofNat value.length) = [high, low] := fits_iff.mpr hsize
    rw [← TlvType.fromU8_eq_ok.mp htype, hbytes]
    refine ⟨hfits, 1, slice_singleton_iff.mpr h0, 3, ?_, hvalue⟩
    have hlengthBytes : (slice data 1 3 : BitchatResult Bytes) = .ok ([high] ++ [low]) :=
      slice_append_iff.mpr ⟨2, slice_singleton_iff.mpr h1, slice_singleton_iff.mpr h2⟩
    exact hlengthBytes
  · rintro ⟨hfits, o, htype, o', hlength, hvalue⟩
    obtain rfl : o = 1 := (slice_iff_drop.mp htype).1
    obtain ⟨hstop, hle, _⟩ := slice_iff_drop.mp hvalue
    obtain rfl : o' = 3 := by simpa using (slice_iff_drop.mp hlength).1
    obtain ⟨high, low, hbytes⟩ := List.length_eq_two.mp
      (u16ToBeBytes_length (UInt16.ofNat entry.value.length))
    have hsize := fits_iff.mp ⟨hfits, hbytes⟩
    have hpair : [high, low] = [high] ++ [low] := rfl
    rw [hbytes, hpair] at hlength
    obtain ⟨middle, hhigh, hlow⟩ := slice_append_iff.mp hlength
    obtain rfl : middle = 2 := (slice_iff_drop.mp hhigh).1
    rw [hstop, hsize] at hvalue
    have hknown : TlvType.fromU8 entry.tlvType.asU8 = .ok entry.tlvType :=
      TlvType.fromU8_eq_ok.mpr rfl
    refine failIf_bind_eq_ok.mpr ⟨by omega, ?_⟩
    simp only [slice_singleton_iff.mp htype, slice_singleton_iff.mp hhigh,
      slice_singleton_iff.mp hlow, hknown, ok_bind]
    refine failIf_bind_eq_ok.mpr ⟨by omega, ?_⟩
    simp only [hvalue, ok_bind, pure_eq_ok, hstop, hsize]

end TlvEntry

structure TlvCodec where
  entries : List TlvEntry
  deriving DecidableEq

namespace TlvCodec

/-- The first entry of a type. -/
def findEntry (codec : TlvCodec) (tlvType : TlvType) : Option TlvEntry :=
  codec.entries.find? fun entry => entry.tlvType = tlvType

def encode (codec : TlvCodec) : Bytes := codec.entries.flatMap TlvEntry.encode

/-- One round of the loop of `decode`. -/
def readEntry [Offsets] : Reader BitchatError TlvEntry := fun data offset => do
  let rest ← slice data offset data.length
  let (entry, bytesConsumed) ← TlvEntry.decode rest
  let offset ← Offsets.add offset bytesConsumed
  pure (entry, offset)

def decode [Offsets] (data : Bytes) : BitchatResult TlvCodec := do
  let (entries, _) ← readEntry.untilEnd data.length data 0
  pure ⟨entries⟩

def validateRequired (codec : TlvCodec) (requiredTypes : List TlvType) : BitchatResult Unit :=
  requiredTypes.forM fun requiredType =>
    failIf (codec.findEntry requiredType = none) (.missingRequiredTlv requiredType.asU8)

theorem recognizes_entry : readEntry.Recognizes TlvEntry.Fits TlvEntry.encode := by
  intro data offset entry next hle
  have hrest : (slice data offset data.length : BitchatResult Bytes) = .ok (data.drop offset) :=
    slice_iff_drop.mpr ⟨by simp; omega, le_rfl, by simp⟩
  have hshift (e : TlvEntry) (consumed : ℕ) :
      (slice (data.drop offset) 0 consumed : BitchatResult Bytes) = .ok e.encode ↔
        (slice data offset (offset + consumed) : BitchatResult Bytes) = .ok e.encode := by
    simp only [slice_iff_drop, List.length_drop, List.drop_drop]
    constructor
    · rintro ⟨hstop, hin, hdrop⟩
      exact ⟨by omega, by omega, hdrop⟩
    · rintro ⟨hstop, hin, hdrop⟩
      exact ⟨by omega, by omega, hdrop⟩
  simp only [readEntry, hrest, Offsets.add_eq_ok, ok_bind, bind_eq_ok, Prod.exists,
    TlvEntry.decode_eq_ok, pure_eq_ok, Except.ok.injEq, Prod.mk.injEq]
  constructor
  · rintro ⟨e, consumed, ⟨hfits, hslice⟩, rfl, rfl⟩
    exact ⟨hfits, (hshift e consumed).mp hslice⟩
  · rintro ⟨hfits, hslice⟩
    have hstop := (slice_iff_drop.mp hslice).1
    have hnext : next = offset + entry.encode.length := hstop
    rw [hnext] at hslice
    exact ⟨entry, entry.encode.length, ⟨hfits, (hshift entry _).mpr hslice⟩, rfl, hnext.symm⟩

theorem entry_progress (data : Bytes) (offset : ℕ) (entry : TlvEntry) (next : ℕ)
    (h : readEntry data offset = .ok (entry, next)) : offset < next := by
  obtain ⟨rest, _, h⟩ := bind_eq_ok.mp h
  obtain ⟨⟨e, consumed⟩, hdecode, h⟩ := bind_eq_ok.mp h
  obtain ⟨rfl, rfl⟩ := Prod.mk.inj (Except.ok.inj h)
  have hsize := (slice_iff_drop.mp (TlvEntry.decode_eq_ok.mp hdecode).2).1
  rw [TlvEntry.encode_length] at hsize
  omega

/-- What decodes is the entries one after another, all of whose lengths fit. -/
theorem decode_eq_ok {data : Bytes} {codec : TlvCodec} :
    decode data = .ok codec ↔ (∀ entry ∈ codec.entries, entry.Fits) ∧ data = codec.encode := by
  have hnonempty (entry : TlvEntry) (_ : entry.Fits) : entry.encode ≠ [] := by
    intro hempty
    have hlength := entry.encode_length
    rw [hempty, List.length_nil] at hlength
    omega
  have hread (l : List TlvEntry) (next : ℕ) :
      readEntry.untilEnd data.length data 0 = .ok (l, next) ↔
        (∀ entry ∈ l, entry.Fits) ∧ next = data.length ∧
          data.drop 0 = l.flatMap TlvEntry.encode :=
    recognizes_entry.untilEnd hnonempty (Nat.zero_le _) (Nat.le_add_left _ _)
  simp only [decode, bind_eq_ok, Prod.exists, pure_eq_ok, Except.ok.injEq, hread, List.drop_zero]
  constructor
  · rintro ⟨entries, _, ⟨hfits, _, hdata⟩, rfl⟩
    exact ⟨hfits, hdata⟩
  · rintro ⟨hfits, hdata⟩
    exact ⟨codec.entries, _, ⟨hfits, rfl, hdata⟩, rfl⟩

/-- What decodes is exactly the entries that fit, one after another, and the loop that
reads them comes to one end on any bytes. -/
theorem decode_grammar (data : Bytes) :
    (∀ entries, decode data = .ok ⟨entries⟩ ↔
      (∀ entry ∈ entries, entry.value.length ≤ 65535) ∧ encode ⟨entries⟩ = data) ∧
    ∃ outcome, (∀ ending, readEntry.Ends data 0 ending ↔ ending = outcome) ∧
      decode data = outcome.map fun loop => ⟨loop.1⟩ := by
  constructor
  · intro entries
    have hfits (entry : TlvEntry) : entry.Fits ↔ entry.value.length ≤ 65535 := Nat.lt_succ_iff
    rw [decode_eq_ok]
    simp only [hfits, eq_comm]
  · have hends : readEntry.Ends data 0 (readEntry.untilEnd data.length data 0) :=
      Reader.ends_untilEnd (entry_progress data) (Nat.le_add_left _ _)
    refine ⟨_, fun ending => ⟨fun h => h.unique hends, fun h => h ▸ hends⟩, ?_⟩
    · rw [decode]
      cases readEntry.untilEnd data.length data 0 <;> rfl

theorem validateRequired_cons (codec : TlvCodec) (first : TlvType) (rest : List TlvType) :
    codec.validateRequired (first :: rest) =
      (failIf (codec.findEntry first = none) (.missingRequiredTlv first.asU8) >>= fun _ =>
        codec.validateRequired rest) := by
  simp [validateRequired, List.forM_cons]

theorem validateRequired_eq_ok {codec : TlvCodec} {requiredTypes : List TlvType} :
    codec.validateRequired requiredTypes = .ok () ↔
      ∀ requiredType ∈ requiredTypes, codec.findEntry requiredType ≠ none := by
  induction requiredTypes with
  | nil => simp [validateRequired]
  | cons first rest ih =>
    rw [validateRequired_cons, failIf_bind_eq_ok, ih]
    simp

theorem tlvType_of_findEntry {codec : TlvCodec} {tlvType : TlvType} {entry : TlvEntry}
    (h : codec.findEntry tlvType = some entry) : entry.tlvType = tlvType := by
  simpa using List.find?_some h

end TlvCodec

end Bitchat
