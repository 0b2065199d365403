import Bitchat.Rust.Outcome

/-!
# Text

A Rust string is a list of Unicode scalar values. Its bytes are the UTF-8
encoding, and the character classes are those of the standard library. A JSON
codec writes and reads values as text.
-/
namespace Rust

abbrev Text := List Char

/-- `text.as_bytes()`. -/
def Text.asBytes (t : Text) : Bytes := t.flatMap String.utf8EncodeChar

/-- `text.len()`. -/
def Text.size (t : Text) : ℕ := t.asBytes.length

/-- `serde_json::to_string` and `serde_json::from_str` at one type. -/
structure Json (α : Type) where
  toString : α → Except String Text
  fromStr : Text → Except String α

namespace Json

variable {α : Type}

/-- Reading undoes writing. -/
def RoundTrips (json : Json α) : Prop :=
  ∀ a text, json.toString a = .ok text → json.fromStr text = .ok a

/-- A codec that knows the text of a single value. -/
def single [DecidableEq α] (a : α) (text : Text) : Json α where
  toString b := if b = a then .ok text else .error "unknown value"
  fromStr t := if t = text then .ok a else .error "unknown text"

end Json

/-- `c.is_whitespace()`, the property `White_Space`. -/
def isWhitespace (c : Char) : Bool :=
  let n := c.toNat
  (9 ≤ n && n ≤ 13) || n == 0x20 || n == 0x85 || n == 0xA0 || n == 0x1680 ||
    (0x2000 ≤ n && n ≤ 0x200A) || n == 0x2028 || n == 0x2029 || n == 0x202F || n == 0x205F ||
    n == 0x3000

/-- `c.is_control()`, the category `Cc`. -/
def isControl (c : Char) : Bool :=
  let n := c.toNat
  n ≤ 0x1F || (0x7F ≤ n && n ≤ 0x9F)

/-- The integer nearest to `n / d`, the even one of two. -/
def roundHalfEven (n d : ℕ) : ℕ :=
  if 2 * (n % d) < d ∨ (2 * (n % d) = d ∧ n / d % 2 = 0) then n / d else n / d + 1

/-- `n as f32`: rounded to 24 significant bits. -/
def roundToF32 (n : ℕ) : ℕ :=
  roundHalfEven n (2 ^ (Nat.log2 n + 1 - 24)) * 2 ^ (Nat.log2 n + 1 - 24)

/-- `part as f32 / total as f32 > 0.9` for `part ≤ total`. From one half on a
single-precision quotient is a multiple of `2^-24`, and the literal is
`15099494 / 2^24`. -/
def ratioExceedsNineTenths (part total : ℕ) : Bool :=
  15099494 < roundHalfEven (roundToF32 part * 2 ^ 24) (roundToF32 total)

end Rust
