import Bitchat.Rust.BigEndian
import Bitchat.Rust.BitArray
import Bitchat.Rust.Run
import Bitchat.Types

/-!
# Deduplication

`BloomFilter` and `DeduplicationManager` of `deduplication.rs`. Packet ids go into the
primary filter, which becomes the secondary one when it is full or old. Times are
milliseconds.
-/
namespace Bitchat
open Rust

/-- `BLOOM_TTL_MS`. -/
def bloomTtlMs : ℕ := 300000

structure PacketId where
  bytes : Key32
  deriving DecidableEq

/-- The first eight bytes of a seeded digest. -/
def PacketId.hashWithSeed (sha256 : Bytes → Key32) (packetId : PacketId) (seed : UInt32) : UInt64 :=
  u64FromBeBytes ((sha256 (u32ToBeBytes seed ++ packetId.bytes.toList)).toList.take 8)

/-- The floating-point formulas of the filter: its size, the number of its hash functions,
and whether more than 0.7 of its bits are set. A filter of no bits gets no hash functions,
since the number of both is rounded from 0 or from a value that is not a number. -/
structure BloomFormulas (F : Type) where
  optimalBitSize : ℕ → F → ℕ
  optimalHashFunctions : ℕ → ℕ → ℕ
  isFull : ℕ → ℕ → Bool
  noBits : ∀ expectedElements, optimalHashFunctions 0 expectedElements = 0

structure BloomFilter where
  bits : Bytes
  hashFunctions : ℕ
  bitSize : ℕ
  createdAt : ℕ
  sized : bits.length = (bitSize + 7) / 8
  usable : bitSize = 0 → hashFunctions = 0

namespace BloomFilter

def forMeshRouting {F : Type} (formulas : BloomFormulas F) (expectedElements : ℕ)
    (falsePositiveRate : F) (now : ℕ) : BloomFilter where
  bits := List.replicate ((formulas.optimalBitSize expectedElements falsePositiveRate + 7) / 8) 0
  hashFunctions := formulas.optimalHashFunctions
    (formulas.optimalBitSize expectedElements falsePositiveRate) expectedElements
  bitSize := formulas.optimalBitSize expectedElements falsePositiveRate
  createdAt := now
  sized := List.length_replicate
  usable := by
    intro h
    rw [h]
    exact formulas.noBits expectedElements

def setBit (filter : BloomFilter) (bitIndex : ℕ) : BloomFilter :=
  if bitIndex < filter.bitSize then
    { filter with
      bits := Rust.setBit filter.bits bitIndex
      sized := by rw [length_setBit, filter.sized] }
  else filter

def getBit (filter : BloomFilter) (bitIndex : ℕ) : Bool :=
  bitIndex < filter.bitSize && Rust.getBit filter.bits bitIndex

/-- The bit of the `i`-th hash function. -/
def bitIndex (sha256 : Bytes → Key32) (filter : BloomFilter) (packetId : PacketId) (i : ℕ) : ℕ :=
  (packetId.hashWithSeed sha256 (UInt32.ofNat i)).toNat % filter.bitSize

def add (sha256 : Bytes → Key32) (filter : BloomFilter) (packetId : PacketId) : BloomFilter :=
  (List.range filter.hashFunctions).foldl
    (fun f i => f.setBit (filter.bitIndex sha256 packetId i)) filter

def contains (sha256 : Bytes → Key32) (filter : BloomFilter) (packetId : PacketId) : Bool :=
  (List.range filter.hashFunctions).all fun i => filter.getBit (filter.bitIndex sha256 packetId i)

/-- The age of the filter, and not of what it holds. -/
def isExpired (filter : BloomFilter) (now : ℕ) : Bool := bloomTtlMs < now - filter.createdAt

/-- `bits.iter().map(count_ones).sum()`. -/
def countOnes (filter : BloomFilter) : ℕ :=
  (filter.bits.map fun byte => (List.range 8).countP byte.toNat.testBit).sum

variable {sha256 : Bytes → Key32} {filter : BloomFilter} {packetId other : PacketId}

@[simp] theorem bitSize_setBit (filter : BloomFilter) (i : ℕ) :
    (filter.setBit i).bitSize = filter.bitSize := by
  unfold setBit
  split_ifs <;> rfl

@[simp] theorem hashFunctions_setBit (filter : BloomFilter) (i : ℕ) :
    (filter.setBit i).hashFunctions = filter.hashFunctions := by
  unfold setBit
  split_ifs <;> rfl

theorem getBit_setBit {i : ℕ} (hi : i < filter.bitSize) (j : ℕ) :
    (filter.setBit i).getBit j = true ↔ j = i ∨ filter.getBit j = true := by
  have hbytes : i < 8 * filter.bits.length := by
    have hsized := filter.sized
    omega
  rw [getBit, bitSize_setBit, setBit, if_pos hi, getBit, Bool.and_eq_true, Bool.and_eq_true,
    Rust.getBit_setBit hbytes, decide_eq_true_eq]
  constructor
  · rintro ⟨hj, hset⟩
    exact hset.imp_right fun h => ⟨hj, h⟩
  · rintro (rfl | ⟨hj, hset⟩)
    · exact ⟨hi, Or.inl rfl⟩
    · exact ⟨hj, Or.inr hset⟩

/-- The bits of a list of indices and those that were set before. -/
theorem foldl_setBit (indices : List ℕ) (filter : BloomFilter)
    (h : ∀ i ∈ indices, i < filter.bitSize) :
    (indices.foldl setBit filter).bitSize = filter.bitSize ∧
      (indices.foldl setBit filter).hashFunctions = filter.hashFunctions ∧
      ∀ j, (indices.foldl setBit filter).getBit j = true ↔
        j ∈ indices ∨ filter.getBit j = true := by
  induction indices generalizing filter with
  | nil => simp
  | cons i indices ih =>
    have hi := h i List.mem_cons_self
    have hrest : ∀ k ∈ indices, k < (filter.setBit i).bitSize := by
      intro k hk
      rw [bitSize_setBit]
      exact h k (List.mem_cons_of_mem i hk)
    obtain ⟨hsize, hfunctions, hbits⟩ := ih (filter.setBit i) hrest
    rw [List.foldl_cons, hsize, hfunctions, bitSize_setBit, hashFunctions_setBit]
    refine ⟨rfl, rfl, ?_⟩
    intro j
    rw [hbits, getBit_setBit hi, List.mem_cons]
    tauto

/-- What an added id sets are the bits of its hash functions. -/
theorem add_spec (sha256 : Bytes → Key32) (filter : BloomFilter) (packetId : PacketId) :
    (filter.add sha256 packetId).bitSize = filter.bitSize ∧
      (filter.add sha256 packetId).hashFunctions = filter.hashFunctions ∧
      ∀ j, (filter.add sha256 packetId).getBit j = true ↔
        (∃ i < filter.hashFunctions, filter.bitIndex sha256 packetId i = j) ∨
          filter.getBit j = true := by
  have hlist : filter.add sha256 packetId =
      ((List.range filter.hashFunctions).map (filter.bitIndex sha256 packetId)).foldl setBit
        filter := by
    rw [add, List.foldl_map]
  have hin : ∀ j ∈ (List.range filter.hashFunctions).map (filter.bitIndex sha256 packetId),
      j < filter.bitSize := by
    intro j hj
    obtain ⟨i, hi, rfl⟩ := List.mem_map.mp hj
    have hfunctions : filter.hashFunctions ≠ 0 := Nat.ne_zero_of_lt (List.mem_range.mp hi)
    exact Nat.mod_lt _ (Nat.pos_of_ne_zero fun hzero => hfunctions (filter.usable hzero))
  rw [hlist]
  simpa [List.mem_map, List.mem_range] using foldl_setBit _ filter hin

theorem contains_iff : filter.contains sha256 packetId = true ↔
    ∀ i < filter.hashFunctions, filter.getBit (filter.bitIndex sha256 packetId i) = true := by
  simp [contains]

/-- A filter does not forget what it was given. -/
theorem contains_add_self (sha256 : Bytes → Key32) (filter : BloomFilter) (packetId : PacketId) :
    (filter.add sha256 packetId).contains sha256 packetId = true := by
  obtain ⟨hsize, hfunctions, hbits⟩ := add_spec sha256 filter packetId
  rw [contains_iff, hfunctions]
  intro i hi
  rw [bitIndex, hsize]
  exact (hbits _).mpr (Or.inl ⟨i, hi, rfl⟩)

theorem contains_add (h : filter.contains sha256 packetId = true) (other : PacketId) :
    (filter.add sha256 other).contains sha256 packetId = true := by
  obtain ⟨hsize, hfunctions, hbits⟩ := add_spec sha256 filter other
  rw [contains_iff, hfunctions]
  intro i hi
  rw [bitIndex, hsize]
  exact (hbits _).mpr (Or.inr (contains_iff.mp h i hi))

end BloomFilter

structure DeduplicationStats where
  packetsProcessed : ℕ
  duplicatesDetected : ℕ
  falsePositives : ℕ
  filterRotations : ℕ

structure DeduplicationManager (F : Type) where
  primaryFilter : BloomFilter
  secondaryFilter : Option BloomFilter
  expectedPacketsPerPeriod : ℕ
  falsePositiveRate : F
  stats : DeduplicationStats

inductive DedupCall where
  | checkAndAdd (packetId : PacketId)
  | isDuplicate (packetId : PacketId)
  | maintain

structure DedupInput where
  call : DedupCall
  now : ℕ

inductive DedupAnswer where
  | duplicate (isDuplicate : Bool)
  | done
  deriving DecidableEq

namespace DeduplicationManager

variable {F : Type}

def new (formulas : BloomFormulas F) (expectedPacketsPerPeriod : ℕ) (falsePositiveRate : F)
    (now : ℕ) : DeduplicationManager F where
  primaryFilter := .forMeshRouting formulas expectedPacketsPerPeriod falsePositiveRate now
  secondaryFilter := none
  expectedPacketsPerPeriod := expectedPacketsPerPeriod
  falsePositiveRate := falsePositiveRate
  stats := ⟨0, 0, 0, 0⟩

def isDuplicate (sha256 : Bytes → Key32) (m : DeduplicationManager F) (packetId : PacketId) :
    Bool :=
  m.primaryFilter.contains sha256 packetId ||
    m.secondaryFilter.any fun filter => filter.contains sha256 packetId

def shouldRotateFilters (formulas : BloomFormulas F) (m : DeduplicationManager F) (now : ℕ) :
    Bool :=
  m.primaryFilter.isExpired now ||
    formulas.isFull m.primaryFilter.countOnes m.primaryFilter.bitSize

/-- The primary filter becomes the secondary one, and keeps its age. -/
def rotateFilters (formulas : BloomFormulas F) (m : DeduplicationManager F) (now : ℕ) :
    DeduplicationManager F :=
  { m with
    primaryFilter :=
      .forMeshRouting formulas m.expectedPacketsPerPeriod m.falsePositiveRate now
    secondaryFilter := some m.primaryFilter
    stats := { m.stats with filterRotations := m.stats.filterRotations + 1 } }

def rotateIfNeeded (formulas : BloomFormulas F) (m : DeduplicationManager F) (now : ℕ) :
    DeduplicationManager F :=
  if m.shouldRotateFilters formulas now then m.rotateFilters formulas now else m

def checkAndAdd (sha256 : Bytes → Key32) (formulas : BloomFormulas F) (m : DeduplicationManager F)
    (packetId : PacketId) (now : ℕ) : DeduplicationManager F × Bool :=
  let isDuplicate := m.isDuplicate sha256 packetId
  let stats := { m.stats with
    packetsProcessed := m.stats.packetsProcessed + 1
    duplicatesDetected := m.stats.duplicatesDetected + if isDuplicate then 1 else 0 }
  let added := { m with
    primaryFilter := m.primaryFilter.add sha256 packetId
    stats := stats }
  (added.rotateIfNeeded formulas now, isDuplicate)

/-- The secondary filter goes when it has expired, and after that the filters rotate. -/
def maintain (formulas : BloomFormulas F) (m : DeduplicationManager F) (now : ℕ) :
    DeduplicationManager F :=
  let kept := m.secondaryFilter.filter fun filter => ! filter.isExpired now
  rotateIfNeeded formulas { m with secondaryFilter := kept } now

def step (sha256 : Bytes → Key32) (formulas : BloomFormulas F) (m : DeduplicationManager F)
    (i : DedupInput) : DeduplicationManager F × DedupAnswer :=
  match i.call with
  | .checkAndAdd packetId => (m.checkAndAdd sha256 formulas packetId i.now).map id .duplicate
  | .isDuplicate packetId => (m, .duplicate (m.isDuplicate sha256 packetId))
  | .maintain => (m.maintain formulas i.now, .done)

end DeduplicationManager

end Bitchat
