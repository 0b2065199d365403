import Bitchat.Rust.Text
import Mathlib.Data.List.DropRight

/-!
# Slices, lines and fields of a text

A slice of a string ends at a byte, and panics when this byte is inside a character. It is
described by what stands before the byte: a whole prefix, or a prefix and a part of the
character behind it.
-/
namespace Rust

variable {ε : Type}

/-- `&text[..n]`, which panics off the character boundaries. -/
def strTo : Text → ℕ → Outcome ε Text
  | _, 0 => .ok []
  | [], _ + 1 => panicked
  | c :: t, n + 1 =>
    if c.utf8Size ≤ n + 1 then (c :: ·) <$> strTo t (n + 1 - c.utf8Size) else panicked

/-- `text.trim()`. -/
def trim (t : Text) : Text := (t.dropWhile isWhitespace).rdropWhile isWhitespace

/-- `text.split(separator)`. -/
def split (separator : Char) (t : Text) : List Text := t.splitOn separator

/-- `text.lines()`: a line ends in a line feed, with or without a carriage return before it,
and what follows the last line feed is a line if it is not empty. -/
def lines (t : Text) : List Text :=
  let pieces := split '\n' t
  let ended := pieces.dropLast.map fun l => if l.getLast? = some '\r' then l.dropLast else l
  ended ++ (pieces.getLast?.toList.filter fun l => l ≠ [])

namespace Text

@[simp] theorem size_nil : Text.size [] = 0 := rfl

theorem size_append (t t' : Text) : Text.size (t ++ t') = t.size + t'.size := by
  simp [Text.size, Text.asBytes]

theorem size_cons (c : Char) (t : Text) : Text.size (c :: t) = c.utf8Size + t.size := by
  simp [Text.size, Text.asBytes]

theorem size_concat (t : Text) (c : Char) : Text.size (t ++ [c]) = t.size + c.utf8Size := by
  rw [size_append, size_cons, size_nil, Nat.add_zero]

end Text

theorem strTo_zero (t : Text) : (strTo t 0 : Outcome ε Text) = .ok [] := by
  cases t <;> rfl

theorem strTo_cons (c : Char) (t : Text) (n : ℕ) :
    (strTo (c :: t) (c.utf8Size + n) : Outcome ε Text) = (c :: ·) <$> strTo t n := by
  obtain ⟨m, hm⟩ : ∃ m, c.utf8Size + n = m + 1 :=
    ⟨c.utf8Size + n - 1, by have := c.utf8Size_pos; omega⟩
  rw [hm, strTo, if_pos (by omega), ← hm, Nat.add_sub_cancel_left]

/-- What stands before the end of the slice does not depend on what follows it. -/
theorem strTo_append {t : Text} (t' : Text) {n : ℕ} (h : n ≤ t.size) :
    (strTo (t ++ t') n : Outcome ε Text) = strTo t n := by
  induction t generalizing n with
  | nil =>
    obtain rfl : n = 0 := Nat.le_zero.mp h
    rw [strTo_zero, strTo_zero]
  | cons c t ih =>
    rw [Text.size_cons] at h
    cases n with
    | zero => rw [strTo_zero, strTo_zero]
    | succ n =>
      rw [List.cons_append, strTo, strTo]
      split_ifs with hwidth
      · rw [ih (by omega)]
      · rfl

/-- A slice that ends within the character behind a prefix. -/
theorem strTo_inside (t : Text) {c : Char} {k : ℕ} (hpos : 0 < k) (hlt : k < c.utf8Size) :
    (strTo (t ++ [c]) (t.size + k) : Outcome ε Text) = panicked := by
  induction t with
  | nil =>
    obtain ⟨m, rfl⟩ : ∃ m, k = m + 1 := ⟨k - 1, by omega⟩
    rw [List.nil_append, Text.size_nil, Nat.zero_add, strTo, if_neg (by omega)]
  | cons d t ih =>
    rw [List.cons_append, Text.size_cons, Nat.add_assoc, strTo_cons, ih]
    rfl

theorem strTo_size (t : Text) : (strTo t t.size : Outcome ε Text) = .ok t := by
  induction t with
  | nil => exact strTo_zero []
  | cons c t ih =>
    rw [Text.size_cons, strTo_cons, ih]
    rfl

end Rust
