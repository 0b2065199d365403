import Mathlib.Data.Vector.Basic

/-!
# SipHash

The keyed hash over 64-bit words, with any number of rounds for a word and at the end. The
default hasher of the standard library has one and three rounds and the key zero.
-/
namespace Rust.SipHash

structure State where
  v0 : UInt64
  v1 : UInt64
  v2 : UInt64
  v3 : UInt64
  deriving DecidableEq

def rotateLeft (x : UInt64) (n : UInt64) : UInt64 := x <<< n ||| x >>> (64 - n)

def initial (k0 k1 : UInt64) : State where
  v0 := k0 ^^^ 0x736F6D6570736575
  v1 := k1 ^^^ 0x646F72616E646F6D
  v2 := k0 ^^^ 0x6C7967656E657261
  v3 := k1 ^^^ 0x7465646279746573

/-- `SipRound`. -/
def State.round (s : State) : State :=
  let a := s.v0 + s.v1
  let b := rotateLeft s.v1 13 ^^^ a
  let c := s.v2 + s.v3
  let d := rotateLeft s.v3 16 ^^^ c
  let e := rotateLeft a 32 + d
  let f := c + b
  ⟨e, rotateLeft b 17 ^^^ f, rotateLeft f 32, rotateLeft d 21 ^^^ e⟩

def State.rounds (s : State) (n : ℕ) : State := State.round^[n] s

/-- Takes in one word. -/
def State.absorb (s : State) (compression : ℕ) (word : UInt64) : State :=
  let t := { s with v3 := s.v3 ^^^ word }.rounds compression
  { t with v0 := t.v0 ^^^ word }

/-- The hash of whole words. The last word holds the length in bytes. -/
def hash (compression finalization : ℕ) (k0 k1 : UInt64) (words : List UInt64) : UInt64 :=
  let length := UInt64.ofNat (8 * words.length) <<< 56
  let s := (words ++ [length]).foldl (fun s word => s.absorb compression word) (initial k0 k1)
  let t := { s with v2 := s.v2 ^^^ 0xFF }.rounds finalization
  t.v0 ^^^ t.v1 ^^^ t.v2 ^^^ t.v3

/-- The reference value for the key and the message of ascending bytes. -/
example : hash 2 4 0x0706050403020100 0x0F0E0D0C0B0A0908 [0x0706050403020100] =
    0x93F5F5799A932462 := by
  decide +kernel

end Rust.SipHash

namespace Rust

/-- `DefaultHasher::new()`, the hash of `i: usize`, and `finish()`. -/
def defaultHash (i : ℕ) : UInt64 := SipHash.hash 1 3 0 0 [.ofNat i]

end Rust
