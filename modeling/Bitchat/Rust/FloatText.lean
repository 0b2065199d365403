import Bitchat.Rust.Text

/-!
# Floating-point numbers as text

`f64::from_str`: a sign, then a word for an infinity or for no number, or digits with a
point and an exponent. `format!("{:.1}")`: the nearest number of tenths, the even one of two.
-/
namespace Rust

def digitsValue (digits : Text) : ℕ := digits.foldl (fun n c => 10 * n + (c.toNat - 48)) 0

def parseSign : Text → Bool × Text
  | '-' :: t => (true, t)
  | '+' :: t => (false, t)
  | t => (false, t)

def parseExponent : Text → Option ℤ
  | [] => some 0
  | c :: t =>
    if c = 'e' ∨ c = 'E' then
      let (negative, digits) := parseSign t
      if digits ≠ [] ∧ digits.all Char.isDigit then
        some (if negative then -digitsValue digits else digitsValue digits)
      else none
    else none

/-- Digits with an optional point, and an optional exponent. -/
def parseNumber (t : Text) : Option Float := do
  let (whole, behind) := t.span Char.isDigit
  let (fraction, rest) :=
    match behind with
    | '.' :: rest => rest.span Char.isDigit
    | _ => ([], behind)
  if whole = [] ∧ fraction = [] then none
  else
    let exponent := (← parseExponent rest) - fraction.length
    some (.ofScientific (digitsValue (whole ++ fraction)) (exponent < 0) exponent.natAbs)

/-- A number without its sign. -/
def parseMagnitude (t : Text) : Option Float :=
  let word := String.ofList (t.map Char.toLower)
  if word = "nan" then some (.ofBits 0x7FF8000000000000)
  else if word = "inf" ∨ word = "infinity" then some (.ofBits 0x7FF0000000000000)
  else parseNumber t

/-- `text.parse::<f64>().ok()`. -/
def parseF64 (t : Text) : Option Float :=
  let (negative, body) := parseSign t
  (parseMagnitude body).map fun x => if negative then -x else x

/-- The bits of a format with so many fraction and exponent bits, with one decimal. -/
def formatTenths (fractionBits exponentBits bits : ℕ) : String :=
  let fraction := bits % 2 ^ fractionBits
  let exponent := bits / 2 ^ fractionBits % 2 ^ exponentBits
  let sign := if bits < 2 ^ (fractionBits + exponentBits) then "" else "-"
  if exponent = 2 ^ exponentBits - 1 then if fraction = 0 then sign ++ "inf" else "NaN"
  else
    let significand :=
      if exponent = 0 then fraction else (2 ^ fractionBits + fraction) * 2 ^ (exponent - 1)
    let tenths :=
      roundHalfEven (10 * significand) (2 ^ (2 ^ (exponentBits - 1) - 2 + fractionBits))
    sign ++ toString (tenths / 10) ++ "." ++ toString (tenths % 10)

def formatF64 (x : Float) : String := formatTenths 52 11 x.toBits.toNat

def formatF32 (x : Float32) : String := formatTenths 23 8 x.toBits.toNat

example : ["0.1", "-2.5e1", ".5", "1e400", "4.9e-324", "-inf", ".", "1e", "", "1.0x"].map
    (fun text => (parseF64 text.toList).map Float.toBits) =
    [some 0x3FB999999999999A, some 0xC039000000000000, some 0x3FE0000000000000,
      some 0x7FF0000000000000, some 1, some 0xFFF0000000000000, none, none, none, none] := by
  decide +kernel

example : [0.25, 0.75, -12.34, 5000].map formatF64 = ["0.2", "0.8", "-12.3", "5000.0"] := by
  decide +kernel

end Rust
