import Bitchat.Types

/-!
# Splitting a message into fragments

`FragmentHeader`, `Fragment` and `MessageFragmenter` of `fragmentation.rs`. The
fragments of a message are its consecutive chunks, the last of which may be
shorter, and every fragment survives its wire format.
-/
namespace Bitchat
open Rust

def maxFragmentsPerMessage : ℕ := 256
def fragmentHeaderSize : ℕ := 13

structure FragmentHeader where
  fragmentId : UInt64
  fragmentIndex : UInt16
  totalFragments : UInt16
  originalType : UInt8
  deriving DecidableEq

namespace FragmentHeader

def validate (h : FragmentHeader) : BitchatResult Unit := do
  rejectIf (h.totalFragments = 0) "Total fragments cannot be zero"
  rejectIf (h.totalFragments ≤ h.fragmentIndex) "Fragment index out of bounds"
  rejectIf (maxFragmentsPerMessage < h.totalFragments.toNat) "Too many fragments"

def toBytes (h : FragmentHeader) : Bytes :=
  u64ToBeBytes h.fragmentId ++ u16ToBeBytes h.fragmentIndex ++ u16ToBeBytes h.totalFragments ++
    [h.originalType]

def fromBytes (bytes : Bytes) : BitchatResult FragmentHeader := do
  rejectIf (bytes.length < fragmentHeaderSize) "Fragment header too short"
  let fragmentId ← slice bytes 0 8
  let fragmentIndex ← slice bytes 8 10
  let totalFragments ← slice bytes 10 12
  let originalType ← index bytes 12
  let header : FragmentHeader :=
    ⟨u64FromBeBytes fragmentId, u16FromBeBytes fragmentIndex, u16FromBeBytes totalFragments,
      originalType⟩
  header.validate
  pure header

@[simp] theorem toBytes_length (h : FragmentHeader) : h.toBytes.length = 13 := by
  simp [toBytes]

theorem validate_eq_ok {h : FragmentHeader} :
    h.validate = .ok () ↔
      h.fragmentIndex.toNat < h.totalFragments.toNat ∧ h.totalFragments.toNat ≤ 256 := by
  unfold validate
  rw [rejectIf_bind_eq_ok, rejectIf_bind_eq_ok, rejectIf_eq_ok]
  rw [← UInt16.toNat_inj, UInt16.le_iff_toNat_le, maxFragmentsPerMessage, UInt16.toNat_zero]
  omega

/-- A valid header is read back from its bytes. -/
theorem fromBytes_toBytes {h : FragmentHeader} (hvalid : h.validate = .ok ()) :
    fromBytes h.toBytes = .ok h := by
  have hid := slice_middle (ε := BitchatError) [] (u64ToBeBytes h.fragmentId)
    (u16ToBeBytes h.fragmentIndex ++ (u16ToBeBytes h.totalFragments ++ [h.originalType]))
  have hindex := slice_middle (ε := BitchatError) (u64ToBeBytes h.fragmentId)
    (u16ToBeBytes h.fragmentIndex) (u16ToBeBytes h.totalFragments ++ [h.originalType])
  have htotal := slice_middle (ε := BitchatError)
    (u64ToBeBytes h.fragmentId ++ u16ToBeBytes h.fragmentIndex)
    (u16ToBeBytes h.totalFragments) [h.originalType]
  have htype : (index h.toBytes 12 : BitchatResult UInt8) = .ok h.originalType := by
    rw [index_eq_ok, toBytes, List.getElem?_append_right (by simp)]
    simp
  simp only [List.nil_append, List.length_nil, List.length_append, u64ToBeBytes_length,
    u16ToBeBytes_length, List.append_assoc, Nat.zero_add, Nat.reduceAdd] at hid hindex htotal
  unfold fromBytes
  refine rejectIf_bind_eq_ok.mpr ⟨by simp [fragmentHeaderSize], ?_⟩
  rw [htype]
  simp only [toBytes, List.append_assoc, hid, hindex, htotal, ok_bind, u64FromBeBytes_toBeBytes,
    u16FromBeBytes_toBeBytes, hvalid, pure_eq_ok]

end FragmentHeader

structure Fragment where
  header : FragmentHeader
  data : Bytes
  timestamp : Timestamp
  deriving DecidableEq

namespace Fragment

def toWireFormat (f : Fragment) : Bytes := f.header.toBytes ++ f.data

/-- A received fragment carries the time of its arrival. -/
def fromWireFormat (bytes : Bytes) (now : Timestamp) : BitchatResult Fragment := do
  rejectIf (bytes.length < fragmentHeaderSize) "Fragment too short"
  let headerBytes ← slice bytes 0 fragmentHeaderSize
  let header ← FragmentHeader.fromBytes headerBytes
  let data ← slice bytes fragmentHeaderSize bytes.length
  pure ⟨header, data, now⟩

/-- Header and data survive the wire. -/
theorem fromWireFormat_toWireFormat {f : Fragment} (now : Timestamp)
    (hvalid : f.header.validate = .ok ()) :
    fromWireFormat f.toWireFormat now = .ok { f with timestamp := now } := by
  have hheader := slice_middle (ε := BitchatError) [] f.header.toBytes f.data
  have hdata := slice_middle (ε := BitchatError) f.header.toBytes f.data []
  simp only [List.nil_append, List.length_nil, Nat.zero_add, List.append_nil,
    FragmentHeader.toBytes_length] at hheader hdata
  unfold fromWireFormat
  refine rejectIf_bind_eq_ok.mpr ⟨by simp [toWireFormat, fragmentHeaderSize], ?_⟩
  have hlength : f.toWireFormat.length = 13 + f.data.length := by simp [toWireFormat]
  rw [hlength]
  simp only [toWireFormat, fragmentHeaderSize, hheader, hdata, ok_bind,
    FragmentHeader.fromBytes_toBytes hvalid, pure_eq_ok]

end Fragment

namespace MessageFragmenter

/-- The `i`-th chunk of `size` bytes, shorter or empty at the end of the data. -/
def chunk (size : ℕ) (data : Bytes) (i : ℕ) : Bytes := (data.drop (i * size)).take size

theorem flatten_chunks (size : ℕ) (data : Bytes) (n : ℕ) :
    ((List.range n).map (chunk size data)).flatten = data.take (n * size) := by
  induction n with
  | zero => simp
  | succ n ih =>
    rw [List.range_succ, List.map_append, List.flatten_append, ih, Nat.succ_mul, List.take_add]
    simp [chunk]

/-- The room that a fragment has behind its header. -/
def fragmentDataSize (maxFragmentSize : ℕ) : ℕ := maxFragmentSize - fragmentHeaderSize

/-- The fragment id is drawn at random; every fragment is stamped as it is made. -/
def fragmentMessage (maxFragmentSize : ℕ) (fragmentId : UInt64) (clock : ℕ → Timestamp)
    (data : Bytes) (originalType : UInt8) : BitchatResult (List Fragment) := do
  rejectIf (data = []) "Cannot fragment empty message"
  let size := fragmentDataSize maxFragmentSize
  let totalFragments ← divCeil data.length size
  rejectIf (maxFragmentsPerMessage < totalFragments) "Message too large to fragment"
  (List.range totalFragments).mapM fun i => do
    let fragmentData ← slice data (i * size) (min (i * size + size) data.length)
    pure ⟨⟨fragmentId, UInt16.ofNat i, UInt16.ofNat totalFragments, originalType⟩, fragmentData,
      clock i⟩

/-- The `i`-th of `total` fragments of a message. -/
def nthFragment (size total : ℕ) (fragmentId : UInt64) (clock : ℕ → Timestamp) (data : Bytes)
    (originalType : UInt8) (i : ℕ) : Fragment :=
  ⟨⟨fragmentId, UInt16.ofNat i, UInt16.ofNat total, originalType⟩, chunk size data i, clock i⟩

theorem slice_chunk {size : ℕ} {data : Bytes} {i : ℕ} (hi : i * size ≤ data.length) :
    (slice data (i * size) (min (i * size + size) data.length) : BitchatResult Bytes) =
      .ok (chunk size data i) := by
  refine slice_eq_ok.mpr ⟨by omega, by omega, ?_⟩
  unfold chunk
  rcases Nat.le_total (i * size + size) data.length with h | h
  · rw [min_eq_left h, Nat.add_sub_cancel_left]
  · rw [min_eq_right h, List.take_of_length_le (by simp; omega),
      List.take_of_length_le (by simp)]

/-- The number of fragments that the fragmenter asks for. -/
def fragmentCount (maxFragmentSize : ℕ) (data : Bytes) : ℕ :=
  (data.length + fragmentDataSize maxFragmentSize - 1) / fragmentDataSize maxFragmentSize

/-- The chunks that start inside the data are counted. -/
theorem lt_fragmentCount_iff {maxFragmentSize : ℕ} {data : Bytes} {i : ℕ}
    (hroom : 0 < fragmentDataSize maxFragmentSize) :
    i < fragmentCount maxFragmentSize data ↔
      i * fragmentDataSize maxFragmentSize < data.length := by
  unfold fragmentCount
  rw [← Nat.succ_le_iff, Nat.le_div_iff_mul_le hroom, Nat.succ_mul]
  omega

theorem fragmentMessage_nil (maxFragmentSize : ℕ) (fragmentId : UInt64) (clock : ℕ → Timestamp)
    (originalType : UInt8) :
    fragmentMessage maxFragmentSize fragmentId clock [] originalType =
      invalidPacket "Cannot fragment empty message" := rfl

/-- Behind a header that leaves no room the number of fragments is a division by zero. -/
theorem fragmentMessage_of_no_room {maxFragmentSize : ℕ} (fragmentId : UInt64)
    (clock : ℕ → Timestamp) {data : Bytes} (originalType : UInt8) (hne : data ≠ [])
    (hroom : fragmentDataSize maxFragmentSize = 0) :
    fragmentMessage maxFragmentSize fragmentId clock data originalType = panicked := by
  unfold fragmentMessage
  rw [rejectIf, failIf, if_neg hne, ok_bind]
  simp only [divCeil, hroom, if_true]
  rfl

/-- With room behind the header the message is cut into its chunks, unless they are too many. -/
theorem fragmentMessage_of_room {maxFragmentSize : ℕ} (fragmentId : UInt64)
    (clock : ℕ → Timestamp) {data : Bytes} (originalType : UInt8) (hne : data ≠ [])
    (hroom : 0 < fragmentDataSize maxFragmentSize) :
    fragmentMessage maxFragmentSize fragmentId clock data originalType =
      if maxFragmentsPerMessage < fragmentCount maxFragmentSize data then
        invalidPacket "Message too large to fragment"
      else .ok ((List.range (fragmentCount maxFragmentSize data)).map
        (nthFragment (fragmentDataSize maxFragmentSize) (fragmentCount maxFragmentSize data)
          fragmentId clock data originalType)) := by
  have hcount : (divCeil data.length (fragmentDataSize maxFragmentSize) : BitchatResult ℕ) =
      .ok (fragmentCount maxFragmentSize data) := by
    rw [divCeil, if_neg (by omega)]
    rfl
  unfold fragmentMessage
  rw [rejectIf, failIf, if_neg hne, ok_bind]
  simp only [hcount, ok_bind]
  split_ifs with hmany
  · rw [rejectIf, failIf, if_pos hmany]
    rfl
  · rw [rejectIf, failIf, if_neg hmany, ok_bind]
    refine mapM_eq_ok_map fun i hi => ?_
    have hstart := (lt_fragmentCount_iff hroom).mp (List.mem_range.mp hi)
    rw [slice_chunk hstart.le]
    rfl

/-- A fragmenter succeeds only with room behind the header, and then with few enough chunks. -/
theorem fragmentMessage_eq_ok_iff {maxFragmentSize : ℕ} {fragmentId : UInt64}
    {clock : ℕ → Timestamp} {data : Bytes} {originalType : UInt8} {fragments : List Fragment} :
    fragmentMessage maxFragmentSize fragmentId clock data originalType = .ok fragments ↔
      data ≠ [] ∧ 0 < fragmentDataSize maxFragmentSize ∧
        fragmentCount maxFragmentSize data ≤ 256 ∧
        fragments = (List.range (fragmentCount maxFragmentSize data)).map
          (nthFragment (fragmentDataSize maxFragmentSize) (fragmentCount maxFragmentSize data)
            fragmentId clock data originalType) := by
  by_cases hne : data = []
  · subst hne
    simp [fragmentMessage_nil]
  · rcases Nat.eq_zero_or_pos (fragmentDataSize maxFragmentSize) with hroom | hroom
    · rw [fragmentMessage_of_no_room fragmentId clock originalType hne hroom]
      simp [hroom]
    · rw [fragmentMessage_of_room fragmentId clock originalType hne hroom]
      split_ifs with hmany
      · unfold maxFragmentsPerMessage at hmany
        simp only [invalidPacket_ne_ok, false_iff]
        rintro ⟨-, -, hfew, -⟩
        omega
      · unfold maxFragmentsPerMessage at hmany
        simp only [Except.ok.injEq, eq_comm (b := fragments)]
        exact ⟨fun h => ⟨hne, hroom, not_lt.mp hmany, h⟩, fun h => h.2.2.2⟩

/-- A fragmented message is the list of its chunks, which cover it. -/
theorem fragmentMessage_eq_ok {maxFragmentSize : ℕ} {fragmentId : UInt64} {clock : ℕ → Timestamp}
    {data : Bytes} {originalType : UInt8} {fragments : List Fragment}
    (h : fragmentMessage maxFragmentSize fragmentId clock data originalType = .ok fragments) :
    ∃ size total, 0 < total ∧ total ≤ 256 ∧ data.length ≤ total * size ∧
      fragments = (List.range total).map
        (nthFragment size total fragmentId clock data originalType) := by
  obtain ⟨hne, hroom, hfew, hfragments⟩ := fragmentMessage_eq_ok_iff.mp h
  have hlength : 0 < data.length := List.length_pos_iff.mpr hne
  refine ⟨fragmentDataSize maxFragmentSize, fragmentCount maxFragmentSize data, ?_, hfew, ?_,
    hfragments⟩
  · rw [lt_fragmentCount_iff hroom]
    omega
  · exact not_lt.mp fun hlt => Nat.lt_irrefl _ ((lt_fragmentCount_iff hroom).mpr hlt)

/-! ## Sizes, numbers and contents -/

/-- The fragments fit the size limit, carry the numbers `0` to `n - 1`, pass
their own validation, are not empty, and together are the message. -/
structure FragmentsWithin (maxFragmentSize : ℕ) (data : Bytes) (fragments : List Fragment) :
    Prop where
  size : ∀ f ∈ fragments, f.toWireFormat.length ≤ maxFragmentSize
  count : fragments.length ≤ maxFragmentsPerMessage
  numbered : fragments.map (fun f => f.header.fragmentIndex.toNat) = List.range fragments.length
  total : ∀ f ∈ fragments, f.header.totalFragments.toNat = fragments.length
  valid : ∀ f ∈ fragments, f.header.validate = .ok ()
  nonempty : ∀ f ∈ fragments, f.data ≠ []
  whole : (fragments.map Fragment.data).flatten = data

theorem toNat_ofNat_of_le {n : ℕ} (h : n ≤ 256) : (UInt16.ofNat n).toNat = n :=
  UInt16.toNat_ofNat_of_lt' (show n < 65536 by omega)

/-- What the fragmenter cuts is within the limits. -/
theorem fragmentsWithin {maxFragmentSize : ℕ} {fragmentId : UInt64} {clock : ℕ → Timestamp}
    {data : Bytes} {originalType : UInt8} {fragments : List Fragment}
    (h : fragmentMessage maxFragmentSize fragmentId clock data originalType = .ok fragments) :
    FragmentsWithin maxFragmentSize data fragments := by
  obtain ⟨-, hroom, hfew, rfl⟩ := fragmentMessage_eq_ok_iff.mp h
  set size := fragmentDataSize maxFragmentSize with hsize
  set total := fragmentCount maxFragmentSize data with htotal
  refine ⟨?_, by simpa [maxFragmentsPerMessage] using hfew, ?_, ?_, ?_, ?_, ?_⟩
  · intro f hf
    obtain ⟨i, -, rfl⟩ := List.mem_map.mp hf
    have hchunk : (chunk size data i).length ≤ size := List.length_take_le _ _
    unfold fragmentDataSize fragmentHeaderSize at hsize
    simp only [nthFragment, Fragment.toWireFormat, List.length_append,
      FragmentHeader.toBytes_length]
    omega
  · rw [List.map_map, List.length_map, List.length_range]
    refine (List.map_congr_left fun i hi => ?_).trans (List.map_id _)
    exact toNat_ofNat_of_le ((List.mem_range.mp hi).le.trans hfew)
  · intro f hf
    obtain ⟨i, -, rfl⟩ := List.mem_map.mp hf
    rw [List.length_map, List.length_range]
    exact toNat_ofNat_of_le hfew
  · intro f hf
    obtain ⟨i, hi, rfl⟩ := List.mem_map.mp hf
    have hlt := List.mem_range.mp hi
    rw [FragmentHeader.validate_eq_ok]
    simp only [nthFragment, toNat_ofNat_of_le hfew, toNat_ofNat_of_le (hlt.le.trans hfew)]
    exact ⟨hlt, hfew⟩
  · intro f hf
    obtain ⟨i, hi, rfl⟩ := List.mem_map.mp hf
    have hstart := (lt_fragmentCount_iff hroom).mp (List.mem_range.mp hi)
    have hroomFor : 0 < size := hroom
    refine List.length_pos_iff.mp ?_
    simp only [nthFragment, chunk, List.length_take, List.length_drop]
    exact lt_min hroomFor (Nat.sub_pos_of_lt hstart)
  · rw [List.map_map]
    change ((List.range total).map (chunk size data)).flatten = data
    rw [flatten_chunks, List.take_of_length_le]
    exact not_lt.mp fun hlt => Nat.lt_irrefl _ ((lt_fragmentCount_iff hroom).mpr hlt)

/-- Fragmenting returns, and within the limits, exactly when there is nothing to
cut or the limit is larger than the header. -/
theorem fragmentMessage_within_iff (maxFragmentSize : ℕ) (fragmentId : UInt64)
    (clock : ℕ → Timestamp) (data : Bytes) (originalType : UInt8) :
    (fragmentMessage maxFragmentSize fragmentId clock data originalType ≠ panicked ∧
      ∀ fragments,
        fragmentMessage maxFragmentSize fragmentId clock data originalType = .ok fragments →
        FragmentsWithin maxFragmentSize data fragments) ↔
      data = [] ∨ fragmentHeaderSize < maxFragmentSize := by
  rw [and_iff_left fun _ => fragmentsWithin]
  constructor
  · intro hreturns
    by_contra hnot
    obtain ⟨hne, hsmall⟩ := not_or.mp hnot
    exact hreturns (fragmentMessage_of_no_room fragmentId clock originalType hne
      (Nat.sub_eq_zero_of_le (not_lt.mp hsmall)))
  · intro hcase
    by_cases hne : data = []
    · subst hne
      simp [fragmentMessage_nil, invalidPacket, fail, panicked]
    · have hlarge := hcase.resolve_left hne
      rw [fragmentMessage_of_room fragmentId clock originalType hne (Nat.sub_pos_of_lt hlarge)]
      split_ifs <;> simp [invalidPacket, fail, panicked]

/-- One byte under a limit of the header's own size. -/
theorem fragmentMessage_header_only :
    fragmentMessage 13 0 (fun _ => ⟨0⟩) [7] 1 = panicked := by decide

end MessageFragmenter

end Bitchat
