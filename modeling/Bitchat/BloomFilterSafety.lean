import Bitchat.Deduplication
import Bitchat.Rust.Panics

/-!
# The Bloom filter without its invariant

`BloomFilter` of `deduplication.rs` as it is written: the bytes are indexed, the remainder is
by the size in bits, and both panic when they are out of range. A new filter of at least one
bit never gets there, and holds what was added to it, also in its last byte.
-/
namespace Bitchat
open Rust

/-- `hash_with_seed`. -/
abbrev SeededHash := PacketId → UInt32 → UInt64

/-- The fields of the filter, of which nothing is known. -/
structure PlainBloomFilter where
  bits : Bytes
  hashFunctions : ℕ
  bitSize : ℕ
  createdAt : ℕ
  deriving DecidableEq

/-- `a % b`, which panics on a zero divisor. -/
def usizeRem (a b : ℕ) : Outcome Empty ℕ := if b = 0 then panicked else .ok (a % b)

namespace PlainBloomFilter

def new (bitSize hashFunctions now : ℕ) : PlainBloomFilter :=
  ⟨List.replicate ((bitSize + 7) / 8) 0, hashFunctions, bitSize, now⟩

def setBit (filter : PlainBloomFilter) (bitIndex : ℕ) : Outcome Empty PlainBloomFilter :=
  if bitIndex < filter.bitSize then do
    let byte ← index filter.bits (bitIndex / 8)
    pure { filter with
      bits := filter.bits.set (bitIndex / 8) (byte ||| bitMask (bitIndex % 8)) }
  else pure filter

def getBit (filter : PlainBloomFilter) (bitIndex : ℕ) : Outcome Empty Bool :=
  if bitIndex < filter.bitSize then do
    let byte ← index filter.bits (bitIndex / 8)
    pure (byte &&& bitMask (bitIndex % 8) != 0)
  else pure false

def add (hash : SeededHash) (filter : PlainBloomFilter) (packetId : PacketId) :
    Outcome Empty PlainBloomFilter :=
  (List.range filter.hashFunctions).foldlM (fun filter i => do
    let bitIndex ← usizeRem (hash packetId (UInt32.ofNat i)).toNat filter.bitSize
    filter.setBit bitIndex) filter

def containsFrom (hash : SeededHash) (filter : PlainBloomFilter) (packetId : PacketId) :
    List ℕ → Outcome Empty Bool
  | [] => .ok true
  | i :: rest => do
    let bitIndex ← usizeRem (hash packetId (UInt32.ofNat i)).toNat filter.bitSize
    let set ← filter.getBit bitIndex
    if !set then pure false else containsFrom hash filter packetId rest

def contains (hash : SeededHash) (filter : PlainBloomFilter) (packetId : PacketId) :
    Outcome Empty Bool :=
  filter.containsFrom hash packetId (List.range filter.hashFunctions)

def addAll (hash : SeededHash) (filter : PlainBloomFilter) (packetIds : List PacketId) :
    Outcome Empty PlainBloomFilter :=
  packetIds.foldlM (add hash) filter

/-- Nothing that is asked or added panics, the ids added are found, and what is found stays
found. -/
structure Holds (hash : SeededHash) (filter : PlainBloomFilter) (added : List PacketId) : Prop where
  answers : ∀ packetId, ∃ answer, filter.contains hash packetId = .ok answer
  found : ∀ packetId ∈ added, filter.contains hash packetId = .ok true
  kept : ∀ other, ∃ next, filter.add hash other = .ok next ∧ ∀ packetId,
    filter.contains hash packetId = .ok true → next.contains hash packetId = .ok true

/-- A new filter takes in the ids without a panic and holds them, and with a hash function it
starts empty. -/
structure NoFalseNegatives (hash : SeededHash) (bitSize hashFunctions now : ℕ)
    (added : List PacketId) : Prop where
  holds : ∃ filter, (new bitSize hashFunctions now).addAll hash added = .ok filter ∧
    filter.Holds hash added
  empty : 1 ≤ hashFunctions → ∀ packetId,
    (new bitSize hashFunctions now).contains hash packetId = .ok false

/-- The bytes are as many as the bits need, and a filter of no bits asks for none. -/
structure Sized (filter : PlainBloomFilter) : Prop where
  bytes : filter.bits.length = (filter.bitSize + 7) / 8
  usable : filter.bitSize = 0 → filter.hashFunctions = 0

variable {hash : SeededHash} {filter : PlainBloomFilter} {packetId : PacketId}

/-- The bits of an id. -/
def bitIndices (hash : SeededHash) (filter : PlainBloomFilter) (packetId : PacketId) : List ℕ :=
  (List.range filter.hashFunctions).map fun i =>
    (hash packetId (UInt32.ofNat i)).toNat % filter.bitSize

/-- The filter with some more bits set. -/
def withBits (filter : PlainBloomFilter) (indices : List ℕ) : PlainBloomFilter :=
  { filter with bits := indices.foldl Rust.setBit filter.bits }

theorem withBits_withBits (filter : PlainBloomFilter) (indices more : List ℕ) :
    (filter.withBits indices).withBits more = filter.withBits (indices ++ more) := by
  rw [withBits, withBits, withBits, List.foldl_append]

/-- The remainders of a loop are by the size that the filter has before it. -/
theorem foldl_withBits (place : ℕ → ℕ) (l : List ℕ) (filter : PlainBloomFilter) :
    l.foldl (fun f i => f.withBits [place i % f.bitSize]) filter =
      filter.withBits (l.map fun i => place i % filter.bitSize) := by
  induction l generalizing filter with
  | nil => rfl
  | cons i l ih =>
    rw [List.foldl_cons, ih, withBits_withBits]
    rfl

theorem Sized.withBits (h : filter.Sized) (indices : List ℕ) : (filter.withBits indices).Sized where
  bytes := by
    rw [PlainBloomFilter.withBits, length_foldl_setBit]
    exact h.bytes
  usable := h.usable

theorem Sized.byte_lt (h : filter.Sized) {i : ℕ} (hi : i < filter.bitSize) :
    i / 8 < filter.bits.length := by
  rw [h.bytes]
  omega

theorem setBit_eq (h : filter.Sized) {i : ℕ} (hi : i < filter.bitSize) :
    filter.setBit i = .ok (filter.withBits [i]) := by
  have hlt := h.byte_lt hi
  have hbyte := List.getElem?_eq_getElem hlt
  have hmodify : Rust.setBit filter.bits i =
      filter.bits.set (i / 8) (filter.bits[i / 8] ||| bitMask (i % 8)) := by
    rw [Rust.setBit, List.modify_eq_set, hbyte]
    rfl
  rw [setBit, if_pos hi, index_eq_ok.mpr hbyte, ok_bind, ← hmodify]
  rfl

theorem getBit_eq (h : filter.Sized) {i : ℕ} (hi : i < filter.bitSize) :
    filter.getBit i = .ok (Rust.getBit filter.bits i) := by
  have hbyte := List.getElem?_eq_getElem (h.byte_lt hi)
  rw [getBit, if_pos hi, index_eq_ok.mpr hbyte, ok_bind, Rust.getBit, List.getD_eq_getElem?_getD,
    hbyte]
  rfl

/-- Without hash functions or with at least one bit, the remainders are defined. -/
theorem Sized.range_nil_or_pos (h : filter.Sized) :
    List.range filter.hashFunctions = [] ∨ 0 < filter.bitSize := by
  rcases Nat.eq_zero_or_pos filter.bitSize with hzero | hpos
  · rw [h.usable hzero]
    exact .inl rfl
  · exact .inr hpos

theorem add_eq (h : filter.Sized) (packetId : PacketId) :
    filter.add hash packetId = .ok (filter.withBits (filter.bitIndices hash packetId)) := by
  rcases h.range_nil_or_pos with hnone | hpos
  · rw [add, bitIndices, hnone]
    rfl
  · rw [bitIndices, ← foldl_withBits]
    refine foldlM_eq_ok (I := fun f => f.Sized ∧ 0 < f.bitSize) ?_ ?_ ⟨h, hpos⟩ _
    · rintro f i ⟨hf, hfpos⟩
      rw [usizeRem, if_neg (Nat.ne_of_gt hfpos), ok_bind]
      exact setBit_eq hf (Nat.mod_lt _ hfpos)
    · rintro f i ⟨hf, hfpos⟩
      exact ⟨hf.withBits _, hfpos⟩

theorem contains_eq (h : filter.Sized) (packetId : PacketId) :
    filter.contains hash packetId =
      .ok ((filter.bitIndices hash packetId).all (Rust.getBit filter.bits)) := by
  rcases h.range_nil_or_pos with hnone | hpos
  · rw [contains, bitIndices, hnone]
    rfl
  · rw [contains, bitIndices]
    induction List.range filter.hashFunctions with
    | nil => rfl
    | cons i rest ih =>
      rw [containsFrom, usizeRem, if_neg (Nat.ne_of_gt hpos), ok_bind,
        getBit_eq h (Nat.mod_lt _ hpos), ok_bind, ih, List.map_cons, List.all_cons]
      cases Rust.getBit filter.bits ((hash packetId (UInt32.ofNat i)).toNat % filter.bitSize)
      · rfl
      · rfl

theorem contains_iff (h : filter.Sized) :
    filter.contains hash packetId = .ok true ↔
      ∀ i ∈ filter.bitIndices hash packetId, Rust.getBit filter.bits i = true := by
  rw [contains_eq h, Except.ok.injEq, List.all_eq_true]

theorem bitIndices_lt (hash : SeededHash) (packetId : PacketId) (h : filter.Sized) :
    ∀ i ∈ filter.bitIndices hash packetId, i < filter.bitSize := by
  intro i hi
  obtain ⟨n, hn, rfl⟩ := List.mem_map.mp hi
  exact Nat.mod_lt _ (h.range_nil_or_pos.resolve_left (List.ne_nil_of_mem hn))

/-- After an id is added, it is found, and so is what was found before. -/
theorem contains_of_add (h : filter.Sized) {other : PacketId}
    (hfound : packetId = other ∨ filter.contains hash packetId = .ok true) :
    (filter.withBits (filter.bitIndices hash other)).contains hash packetId = .ok true := by
  have hbytes : ∀ i ∈ filter.bitIndices hash other, i < 8 * filter.bits.length := by
    intro i hi
    have hlt := bitIndices_lt hash other h i hi
    have hsized := h.bytes
    omega
  rw [contains_iff (h.withBits _)]
  intro i hi
  refine (getBit_foldl_setBit hbytes i).mpr ?_
  rcases hfound with rfl | hfound
  · exact .inl hi
  · exact .inr ((contains_iff h).mp hfound i hi)

/-- After several ids are added, they are found, and so is what was found before. -/
theorem addAll_spec (hash : SeededHash) (h : filter.Sized) (added : List PacketId) :
    ∃ next, filter.addAll hash added = .ok next ∧ next.Sized ∧
      ∀ packetId, packetId ∈ added ∨ filter.contains hash packetId = .ok true →
        next.contains hash packetId = .ok true := by
  induction added generalizing filter with
  | nil => exact ⟨filter, rfl, h, fun _ hfound => hfound.resolve_left List.not_mem_nil⟩
  | cons first added ih =>
    have hfirst := h.withBits (filter.bitIndices hash first)
    obtain ⟨next, hnext, hsized, hfound⟩ := ih hfirst
    refine ⟨next, ?_, hsized, ?_⟩
    · rw [addAll, List.foldlM_cons, add_eq h, ok_bind]
      exact hnext
    · intro packetId hpacket
      rw [List.mem_cons, or_assoc, or_left_comm] at hpacket
      exact hfound packetId (hpacket.imp_right (contains_of_add h))

theorem sized_new {bitSize : ℕ} (hsize : 1 ≤ bitSize) (hashFunctions now : ℕ) :
    (new bitSize hashFunctions now).Sized where
  bytes := List.length_replicate
  usable := by
    intro hzero
    exact absurd (show bitSize = 0 from hzero) (by omega)

/-- **A filter of at least one bit has no false negatives and stays in bounds.** -/
theorem noFalseNegatives (hash : SeededHash) {bitSize : ℕ} (hsize : 1 ≤ bitSize)
    (hashFunctions now : ℕ) (added : List PacketId) :
    NoFalseNegatives hash bitSize hashFunctions now added where
  holds := by
    have hnew := sized_new hsize hashFunctions now
    obtain ⟨filter, hadded, hsized, hfound⟩ := addAll_spec hash hnew added
    refine ⟨filter, hadded, ?_, fun packetId hmem => hfound packetId (.inl hmem), ?_⟩
    · exact fun packetId => ⟨_, contains_eq hsized packetId⟩
    · exact fun other => ⟨_, add_eq hsized other, fun _ hcontains =>
        contains_of_add hsized (.inr hcontains)⟩
  empty := by
    intro hfunctions packetId
    rw [contains_eq (sized_new hsize hashFunctions now), Except.ok.injEq, Bool.eq_false_iff]
    intro hall
    rw [List.all_eq_true] at hall
    have hfirst := hall _ (List.mem_map_of_mem (List.mem_range.mpr hfunctions))
    rw [new, getBit_replicate_zero] at hfirst
    cases hfirst

/-- A filter of nine bits, of which one is in the second byte. -/
theorem noFalseNegatives_nineBits :
    NoFalseNegatives (fun packetId seed => .ofNat (packetId.bytes.head.toNat + seed.toNat)) 9 2 0
      [⟨List.Vector.replicate 32 8⟩, ⟨List.Vector.replicate 32 16⟩] :=
  noFalseNegatives _ (by decide) 2 0 _

end PlainBloomFilter

namespace BloomFilter

/-- The filter with its invariant forgotten. -/
def plain (filter : BloomFilter) : PlainBloomFilter :=
  ⟨filter.bits, filter.hashFunctions, filter.bitSize, filter.createdAt⟩

theorem sized_plain (filter : BloomFilter) : filter.plain.Sized := ⟨filter.sized, filter.usable⟩

theorem plain_foldl_setBit {indices : List ℕ} {filter : BloomFilter}
    (h : ∀ i ∈ indices, i < filter.bitSize) :
    (indices.foldl setBit filter).plain = filter.plain.withBits indices := by
  induction indices generalizing filter with
  | nil => rfl
  | cons i indices ih =>
    obtain ⟨hi, hrest⟩ := List.forall_mem_cons.mp h
    have hset : (filter.setBit i).plain = filter.plain.withBits [i] := by
      rw [setBit, if_pos hi]
      rfl
    rw [List.foldl_cons, ih (by simpa using hrest), hset, PlainBloomFilter.withBits_withBits]
    rfl

variable (sha256 : Bytes → Key32)

/-- The hash of the crate. -/
def seededHash : SeededHash := fun packetId seed => packetId.hashWithSeed sha256 seed

theorem bitIndices_plain (filter : BloomFilter) (packetId : PacketId) :
    filter.plain.bitIndices (seededHash sha256) packetId =
      (List.range filter.hashFunctions).map (filter.bitIndex sha256 packetId) := rfl

/-- The filter with its invariant adds what the filter as written adds, -/
theorem plain_add (filter : BloomFilter) (packetId : PacketId) :
    filter.plain.add (seededHash sha256) packetId = .ok (filter.add sha256 packetId).plain := by
  have hin := PlainBloomFilter.bitIndices_lt (seededHash sha256) packetId filter.sized_plain
  rw [PlainBloomFilter.add_eq filter.sized_plain, add, ← List.foldl_map, ← bitIndices_plain,
    plain_foldl_setBit hin]

/-- and finds what that one finds. -/
theorem plain_contains (filter : BloomFilter) (packetId : PacketId) :
    filter.plain.contains (seededHash sha256) packetId = .ok (filter.contains sha256 packetId) := by
  have hin := PlainBloomFilter.bitIndices_lt (seededHash sha256) packetId filter.sized_plain
  rw [PlainBloomFilter.contains_eq filter.sized_plain, Except.ok.injEq]
  rw [bitIndices_plain, List.forall_mem_map] at hin
  rw [bitIndices_plain, List.all_map, contains, Bool.eq_iff_iff, List.all_eq_true,
    List.all_eq_true]
  refine forall₂_congr fun i hi => ?_
  have hlt : filter.bitIndex sha256 packetId i < filter.bitSize := hin i hi
  rw [Function.comp_apply, getBit, decide_eq_true hlt, Bool.true_and]
  exact Iff.rfl

end BloomFilter

end Bitchat
