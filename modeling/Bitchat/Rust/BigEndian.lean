import Bitchat.Rust.Outcome
import Mathlib.Data.UInt
import Mathlib.Tactic.Ring

/-!
# Big-endian integers

`toBeBytes` and `fromBeBytes` of the unsigned types are the base-256 numerals
of fixed width. The numerals are inverse to each other on their widths, hence
so are the conversions of every unsigned type.
-/
namespace Rust

/-- The `w` low base-256 digits of `n`, most significant first. -/
def beBytes : ℕ → ℕ → Bytes
  | 0, _ => []
  | w + 1, n => beBytes w (n / 256) ++ [UInt8.ofNat n]

/-- The value of a base-256 numeral, most significant digit first. -/
def ofBeBytes (bytes : Bytes) : ℕ := bytes.foldl (fun acc b => acc * 256 + b.toNat) 0

@[simp] theorem beBytes_length (w n : ℕ) : (beBytes w n).length = w := by
  induction w generalizing n with
  | zero => rfl
  | succ w ih => simp [beBytes, ih]

theorem ofBeBytes_append_singleton (bytes : Bytes) (b : UInt8) :
    ofBeBytes (bytes ++ [b]) = ofBeBytes bytes * 256 + b.toNat := by
  simp [ofBeBytes, List.foldl_append]

theorem ofBeBytes_beBytes (w n : ℕ) (h : n < 256 ^ w) : ofBeBytes (beBytes w n) = n := by
  induction w generalizing n with
  | zero => simp only [pow_zero] at h; simp [beBytes, ofBeBytes]; omega
  | succ w ih =>
    have hdiv : n / 256 < 256 ^ w := by
      rw [pow_succ] at h
      exact Nat.div_lt_of_lt_mul (by omega)
    rw [beBytes, ofBeBytes_append_singleton, ih (n / 256) hdiv, UInt8.toNat_ofNat']
    omega

theorem ofBeBytes_lt (bytes : Bytes) : ofBeBytes bytes < 256 ^ bytes.length := by
  induction bytes using List.reverseRecOn with
  | nil => simp [ofBeBytes]
  | append_singleton bytes b ih =>
    have hb := b.toNat_lt
    rw [ofBeBytes_append_singleton, List.length_append, List.length_singleton, pow_succ]
    omega

theorem beBytes_ofBeBytes (bytes : Bytes) : beBytes bytes.length (ofBeBytes bytes) = bytes := by
  induction bytes using List.reverseRecOn with
  | nil => rfl
  | append_singleton bytes b ih =>
    have hb := b.toNat_lt
    have high : (ofBeBytes bytes * 256 + b.toNat) / 256 = ofBeBytes bytes := by omega
    have low : UInt8.ofNat (ofBeBytes bytes * 256 + b.toNat) = b := by
      apply UInt8.toNat_inj.mp
      rw [UInt8.toNat_ofNat']
      omega
    rw [ofBeBytes_append_singleton, List.length_append, List.length_singleton, beBytes, high, low,
      ih]

def u16ToBeBytes (x : UInt16) : Bytes := beBytes 2 x.toNat
def u32ToBeBytes (x : UInt32) : Bytes := beBytes 4 x.toNat
def u64ToBeBytes (x : UInt64) : Bytes := beBytes 8 x.toNat

def u16FromBeBytes (bytes : Bytes) : UInt16 := UInt16.ofNat (ofBeBytes bytes)
def u32FromBeBytes (bytes : Bytes) : UInt32 := UInt32.ofNat (ofBeBytes bytes)
def u64FromBeBytes (bytes : Bytes) : UInt64 := UInt64.ofNat (ofBeBytes bytes)

@[simp] theorem u16ToBeBytes_length (x : UInt16) : (u16ToBeBytes x).length = 2 :=
  beBytes_length _ _

@[simp] theorem u32ToBeBytes_length (x : UInt32) : (u32ToBeBytes x).length = 4 :=
  beBytes_length _ _

@[simp] theorem u64ToBeBytes_length (x : UInt64) : (u64ToBeBytes x).length = 8 :=
  beBytes_length _ _

@[simp] theorem u16FromBeBytes_toBeBytes (x : UInt16) :
    u16FromBeBytes (u16ToBeBytes x) = x := by
  rw [u16FromBeBytes, u16ToBeBytes, ofBeBytes_beBytes _ _ x.toNat_lt, UInt16.ofNat_toNat]

@[simp] theorem u32FromBeBytes_toBeBytes (x : UInt32) :
    u32FromBeBytes (u32ToBeBytes x) = x := by
  rw [u32FromBeBytes, u32ToBeBytes, ofBeBytes_beBytes _ _ x.toNat_lt, UInt32.ofNat_toNat]

@[simp] theorem u64FromBeBytes_toBeBytes (x : UInt64) :
    u64FromBeBytes (u64ToBeBytes x) = x := by
  rw [u64FromBeBytes, u64ToBeBytes, ofBeBytes_beBytes _ _ x.toNat_lt, UInt64.ofNat_toNat]

/-- The value of `w` digits fits the type of this width. -/
theorem beBytes_ofBeBytes_mod {w : ℕ} {bytes : Bytes} (h : bytes.length = w) :
    beBytes w (ofBeBytes bytes % 256 ^ w) = bytes := by
  have hlt := ofBeBytes_lt bytes
  rw [h] at hlt
  rw [Nat.mod_eq_of_lt hlt, ← h, beBytes_ofBeBytes]

theorem u16ToBeBytes_fromBeBytes {bytes : Bytes} (h : bytes.length = 2) :
    u16ToBeBytes (u16FromBeBytes bytes) = bytes := by
  rw [u16ToBeBytes, u16FromBeBytes, UInt16.toNat_ofNat']
  exact beBytes_ofBeBytes_mod h

theorem u64ToBeBytes_fromBeBytes {bytes : Bytes} (h : bytes.length = 8) :
    u64ToBeBytes (u64FromBeBytes bytes) = bytes := by
  rw [u64ToBeBytes, u64FromBeBytes, UInt64.toNat_ofNat']
  exact beBytes_ofBeBytes_mod h

theorem u64ToBeBytes_injective : Function.Injective u64ToBeBytes :=
  Function.LeftInverse.injective u64FromBeBytes_toBeBytes

end Rust
