import Bitchat.Rust.Outcome
import Mathlib.Data.Nat.Bitwise

/-!
# Bits in bytes

A list of bytes as an array of bits, eight in a byte, the lowest one first. Setting a bit
adds its index to those that are set, and nothing else.
-/
namespace Rust

/-- `1u8 << offset`. -/
def bitMask (offset : ℕ) : UInt8 := 1 <<< UInt8.ofNat offset

def setBit (bits : Bytes) (i : ℕ) : Bytes := bits.modify (i / 8) (· ||| bitMask (i % 8))

def getBit (bits : Bytes) (i : ℕ) : Bool := bits.getD (i / 8) 0 &&& bitMask (i % 8) != 0

theorem bitMask_toNat {offset : ℕ} (h : offset < 8) : (bitMask offset).toNat = 2 ^ offset := by
  have hall : ∀ o : Fin 8, (bitMask o.val).toNat = 2 ^ o.val := by decide
  exact hall ⟨offset, h⟩

/-- A bit of a byte is the bit of its value. -/
theorem and_bitMask_ne_zero {b : UInt8} {offset : ℕ} (h : offset < 8) :
    (b &&& bitMask offset != 0) = b.toNat.testBit offset := by
  rw [Bool.eq_iff_iff, bne_iff_ne, Ne, ← UInt8.toNat_inj, UInt8.toNat_and, bitMask_toNat h,
    Nat.and_two_pow]
  cases b.toNat.testBit offset <;> simp

theorem getBit_eq (bits : Bytes) (i : ℕ) :
    getBit bits i = (bits.getD (i / 8) 0).toNat.testBit (i % 8) :=
  and_bitMask_ne_zero (Nat.mod_lt i (by decide))

@[simp] theorem length_setBit (bits : Bytes) (i : ℕ) : (setBit bits i).length = bits.length :=
  List.length_modify ..

/-- Within the bytes, a bit is set behind a write if it was, or if it is the one. -/
theorem getBit_setBit {bits : Bytes} {i : ℕ} (h : i < 8 * bits.length) (j : ℕ) :
    getBit (setBit bits i) j = true ↔ j = i ∨ getBit bits j = true := by
  have hbyte : i / 8 < bits.length := by omega
  rw [getBit_eq, getBit_eq, setBit, List.getD_eq_getElem?_getD, List.getD_eq_getElem?_getD,
    List.getElem?_modify]
  by_cases hsame : i / 8 = j / 8
  · have hget : bits[j / 8]? = some bits[i / 8] := by
      rw [← hsame, List.getElem?_eq_getElem hbyte]
    have hj : j = i ↔ i % 8 = j % 8 := by omega
    simp only [hget, hsame, if_true, Option.map_eq_map, Option.map_some, Option.getD_some,
      UInt8.toNat_or, Nat.testBit_or, Bool.or_eq_true, Nat.testBit_two_pow, decide_eq_true_eq, hj,
      bitMask_toNat (Nat.mod_lt i (by decide : 0 < 8))]
    exact or_comm
  · have hj : j ≠ i := by
      rintro rfl
      exact hsame rfl
    cases bits[j / 8]? <;> simp [hsame, hj]

@[simp] theorem length_foldl_setBit (indices : List ℕ) (bits : Bytes) :
    (indices.foldl setBit bits).length = bits.length := by
  induction indices generalizing bits with
  | nil => rfl
  | cons i indices ih => rw [List.foldl_cons, ih, length_setBit]

/-- Behind several writes, the bits that are set are those written and those set before. -/
theorem getBit_foldl_setBit {indices : List ℕ} {bits : Bytes}
    (h : ∀ i ∈ indices, i < 8 * bits.length) (j : ℕ) :
    getBit (indices.foldl setBit bits) j = true ↔ j ∈ indices ∨ getBit bits j = true := by
  induction indices generalizing bits with
  | nil => simp
  | cons i indices ih =>
    obtain ⟨hi, hrest⟩ := List.forall_mem_cons.mp h
    rw [← length_setBit bits i] at hrest
    rw [List.foldl_cons, ih hrest, getBit_setBit hi, List.mem_cons]
    tauto

theorem getBit_replicate_zero (n j : ℕ) : getBit (List.replicate n 0) j = false := by
  have hzero : (List.replicate n (0 : UInt8)).getD (j / 8) 0 = 0 := by
    rw [List.getD_eq_getElem?_getD, List.getElem?_replicate]
    split_ifs <;> rfl
  rw [getBit_eq, hzero]
  exact Nat.zero_testBit _

end Rust
