import Bitchat.Rust.BigEndian
import Bitchat.Rust.Utf8

/-!
# Bincode

`bincode` at a type is a parameter of the developments that use it. Its default
layout is put together from readers and writers: little-endian integers of fixed
width, a byte in front of an option, eight bytes of length in front of a vector
or a string.
A reader that undoes its writer does so in front of any further bytes.
-/
namespace Rust

/-- `bincode::serialize` and `bincode::deserialize` at one type. -/
structure Bincode (α : Type) where
  serialize : α → Except String Bytes
  deserialize : Bytes → Except String α

namespace Bincode

variable {α β : Type}

/-- Deserializing undoes serializing. -/
def RoundTrips (codec : Bincode α) : Prop :=
  ∀ a bytes, codec.serialize a = .ok bytes → codec.deserialize bytes = .ok a

/-- A value from the front of the input, and the rest. -/
abbrev Reader (α : Type) := Bytes → Option (α × Bytes)

/-- The reader finds a value where it was written. -/
def Reads (read : Reader α) (written : Bytes) (a : α) : Prop :=
  ∀ rest, read (written ++ rest) = some (a, rest)

def readArray (n : ℕ) : Reader (List.Vector UInt8 n) := fun bytes =>
  if h : (bytes.take n).length = n then some (⟨bytes.take n, h⟩, bytes.drop n) else none

def readU8 : Reader UInt8
  | b :: rest => some (b, rest)
  | [] => none

def writeU64 (x : UInt64) : Bytes := (u64ToBeBytes x).reverse

def readU64 : Reader UInt64 := fun bytes =>
  if 8 ≤ bytes.length then some (u64FromBeBytes (bytes.take 8).reverse, bytes.drop 8) else none

def writeBytes (data : Bytes) : Bytes := writeU64 (UInt64.ofNat data.length) ++ data

def readBytes : Reader Bytes := fun bytes => do
  let (length, rest) ← readU64 bytes
  if length.toNat ≤ rest.length then some (rest.take length.toNat, rest.drop length.toNat)
  else none

def writeText (t : Text) : Bytes := writeBytes t.asBytes

def readText : Reader Text := fun bytes => do
  let (data, rest) ← readBytes bytes
  let t ← fromUtf8 data
  pure (t, rest)

def writeOption (write : α → Bytes) : Option α → Bytes
  | none => [0]
  | some a => 1 :: write a

def readOption (read : Reader α) : Reader (Option α)
  | 0 :: rest => some (none, rest)
  | 1 :: rest => (read rest).map fun found => (some found.1, found.2)
  | _ => none

theorem reads_array {n : ℕ} (v : List.Vector UInt8 n) : Reads (readArray n) v.toList v := by
  intro rest
  have front : (v.toList ++ rest).take n = v.toList := List.take_left' v.toList_length
  have back : (v.toList ++ rest).drop n = rest := List.drop_left' v.toList_length
  simp only [readArray, front, back, v.toList_length, dif_pos]
  rfl

theorem reads_u64 (x : UInt64) : Reads readU64 (writeU64 x) x := by
  intro rest
  have length : (writeU64 x).length = 8 := by simp [writeU64]
  have front : (writeU64 x ++ rest).take 8 = writeU64 x := List.take_left' length
  have back : (writeU64 x ++ rest).drop 8 = rest := List.drop_left' length
  have value : u64FromBeBytes (writeU64 x).reverse = x := by simp [writeU64]
  rw [readU64, if_pos (by simp [length]), front, back, value]

theorem reads_bytes {data : Bytes} (short : data.length < 2 ^ 64) :
    Reads readBytes (writeBytes data) data := by
  intro rest
  have length : (UInt64.ofNat data.length).toNat = data.length := by
    rw [UInt64.toNat_ofNat', Nat.mod_eq_of_lt short]
  have number := reads_u64 (UInt64.ofNat data.length) (data ++ rest)
  simp [readBytes, writeBytes, List.append_assoc, number, length]

theorem reads_text {t : Text} (short : t.asBytes.length < 2 ^ 64) :
    Reads readText (writeText t) t := by
  intro rest
  simp [readText, writeText, reads_bytes short rest, fromUtf8_asBytes]

theorem reads_option {read : Reader α} {write : α → Bytes} (o : Option α)
    (h : ∀ a ∈ o, Reads read (write a) a) : Reads (readOption read) (writeOption write o) o := by
  intro rest
  cases o with
  | none => rfl
  | some a => simp [readOption, writeOption, h a rfl rest]

/-- A codec that knows the bytes of a few values. -/
def ofPairs [DecidableEq α] (pairs : List (α × Bytes)) : Bincode α where
  serialize a :=
    match pairs.find? fun p => p.1 = a with
    | some p => .ok p.2
    | none => .error "unknown value"
  deserialize bytes :=
    match pairs.find? fun p => p.2 = bytes with
    | some p => .ok p.1
    | none => .error "unknown bytes"

theorem ofPairs_roundTrips [DecidableEq α] {pairs : List (α × Bytes)}
    (distinct : (pairs.map Prod.snd).Nodup) : (ofPairs pairs).RoundTrips := by
  intro a bytes h
  simp only [ofPairs] at h ⊢
  cases found : pairs.find? fun p => p.1 = a with
  | none => simp [found] at h
  | some p =>
    rw [found] at h
    have hp : p ∈ pairs := List.mem_of_find?_eq_some found
    have value : p.1 = a := by simpa using List.find?_some found
    have bytesOf : p.2 = bytes := Except.ok.inj h
    cases back : pairs.find? fun q => q.2 = bytes with
    | none => exact absurd (by simpa using bytesOf) (List.find?_eq_none.mp back p hp)
    | some q =>
      have hq : q ∈ pairs := List.mem_of_find?_eq_some back
      have same : q.2 = bytes := by simpa using List.find?_some back
      have samePair : q = p := List.inj_on_of_nodup_map distinct hq hp (same.trans bytesOf.symm)
      rw [samePair, ← value]

end Bincode

end Rust
