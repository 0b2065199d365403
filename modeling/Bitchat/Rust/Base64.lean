import Bitchat.Rust.Text

/-!
# Base64

An engine encodes bytes as text and decodes text. A development that uses one
takes it as a parameter and assumes `Base64Engine.RoundTrips` of it. The engines
of the crate differ in two symbols of the alphabet and in the padding, and each
of them round-trips.
-/
namespace Rust

structure Base64Engine where
  encode : Bytes → Text
  decode : Text → Except String Bytes

/-- Decoding undoes encoding. -/
def Base64Engine.RoundTrips (engine : Base64Engine) : Prop :=
  ∀ bytes, engine.decode (engine.encode bytes) = .ok bytes

namespace Base64

/-- The groups of six bits, the last one filled up with zeros. -/
def sextets : Bytes → List ℕ
  | [] => []
  | [a] => [a.toNat / 4, a.toNat % 4 * 16]
  | [a, b] => [a.toNat / 4, a.toNat % 4 * 16 + b.toNat / 16, b.toNat % 16 * 4]
  | a :: b :: c :: rest =>
    a.toNat / 4 :: (a.toNat % 4 * 16 + b.toNat / 16) :: (b.toNat % 16 * 4 + c.toNat / 64) ::
      c.toNat % 64 :: sextets rest

/-- The bytes of the groups. Left-over bits must be zero. -/
def joinSextets : List ℕ → Option Bytes
  | [] => some []
  | [_] => none
  | [v0, v1] => if v1 % 16 = 0 then some [UInt8.ofNat (v0 * 4 + v1 / 16)] else none
  | [v0, v1, v2] =>
    if v2 % 4 = 0 then
      some [UInt8.ofNat (v0 * 4 + v1 / 16), UInt8.ofNat (v1 % 16 * 16 + v2 / 4)]
    else none
  | v0 :: v1 :: v2 :: v3 :: rest =>
    (joinSextets rest).map fun bytes =>
      UInt8.ofNat (v0 * 4 + v1 / 16) :: UInt8.ofNat (v1 % 16 * 16 + v2 / 4) ::
        UInt8.ofNat (v2 % 4 * 64 + v3) :: bytes

/-- Letters and digits are common to the alphabets. -/
inductive Alphabet where
  | standard
  | urlSafe

/-- The symbols of 62 and 63. -/
def Alphabet.last : Alphabet → Char × Char
  | .standard => ('+', '/')
  | .urlSafe => ('-', '_')

section

variable (alphabet : Alphabet) (padded : Bool)

def symbol (v : ℕ) : Char :=
  if v < 26 then Char.ofNat (65 + v)
  else if v < 52 then Char.ofNat (71 + v)
  else if v < 62 then Char.ofNat (v - 4)
  else if v = 62 then alphabet.last.1
  else alphabet.last.2

def symbolValue (c : Char) : Option ℕ :=
  let n := c.toNat
  if 65 ≤ n ∧ n ≤ 90 then some (n - 65)
  else if 97 ≤ n ∧ n ≤ 122 then some (n - 71)
  else if 48 ≤ n ∧ n ≤ 57 then some (n + 4)
  else if c = alphabet.last.1 then some 62
  else if c = alphabet.last.2 then some 63
  else none

/-- The padding behind `n` symbols. -/
def padding (n : ℕ) : Text := if padded then List.replicate ((4 - n % 4) % 4) '=' else []

def encode (bytes : Bytes) : Text :=
  (sextets bytes).map (symbol alphabet) ++ padding padded (sextets bytes).length

/-- Exactly the padding that belongs to the symbols is accepted. -/
def decode (text : Text) : Option Bytes :=
  let symbols := text.takeWhile (· ≠ '=')
  if text = symbols ++ padding padded symbols.length then
    (symbols.mapM (symbolValue alphabet)).bind joinSextets
  else none

def engine : Base64Engine where
  encode := encode alphabet padded
  decode text := (decode alphabet padded text).elim (.error "Invalid symbol") .ok

end

/-- `general_purpose::STANDARD`. -/
def standard : Base64Engine := engine .standard true

/-- `general_purpose::URL_SAFE_NO_PAD`. -/
def urlSafeNoPad : Base64Engine := engine .urlSafe false

theorem sextets_lt (bytes : Bytes) : ∀ v ∈ sextets bytes, v < 64 := by
  induction bytes using sextets.induct with
  | case1 => simp [sextets]
  | case2 a =>
    have ha := a.toNat_lt
    simp only [sextets, List.mem_cons, List.not_mem_nil, or_false]
    rintro v (rfl | rfl)
    · omega
    · omega
  | case3 a b =>
    have ha := a.toNat_lt
    have hb := b.toNat_lt
    simp only [sextets, List.mem_cons, List.not_mem_nil, or_false]
    rintro v (rfl | rfl | rfl)
    · omega
    · omega
    · omega
  | case4 a b c rest ih =>
    have ha := a.toNat_lt
    have hb := b.toNat_lt
    have hc := c.toNat_lt
    simp only [sextets, List.mem_cons]
    rintro v (rfl | rfl | rfl | rfl | hv)
    · omega
    · omega
    · omega
    · omega
    · exact ih v hv

theorem ofNat_eq_of_toNat {n : ℕ} {b : UInt8} (h : n = b.toNat) : UInt8.ofNat n = b := by
  rw [h, UInt8.ofNat_toNat]

theorem joinSextets_sextets (bytes : Bytes) : joinSextets (sextets bytes) = some bytes := by
  induction bytes using sextets.induct with
  | case1 => rfl
  | case2 a =>
    have first := ofNat_eq_of_toNat (b := a)
      (n := a.toNat / 4 * 4 + a.toNat % 4 * 16 / 16) (by omega)
    rw [sextets, joinSextets, if_pos (by omega), first]
  | case3 a b =>
    have hb := b.toNat_lt
    have first := ofNat_eq_of_toNat (b := a)
      (n := a.toNat / 4 * 4 + (a.toNat % 4 * 16 + b.toNat / 16) / 16) (by omega)
    have second := ofNat_eq_of_toNat (b := b)
      (n := (a.toNat % 4 * 16 + b.toNat / 16) % 16 * 16 + b.toNat % 16 * 4 / 4) (by omega)
    rw [sextets, joinSextets, if_pos (by omega), first, second]
  | case4 a b c rest ih =>
    have hb := b.toNat_lt
    have hc := c.toNat_lt
    have first := ofNat_eq_of_toNat (b := a)
      (n := a.toNat / 4 * 4 + (a.toNat % 4 * 16 + b.toNat / 16) / 16) (by omega)
    have second := ofNat_eq_of_toNat (b := b)
      (n := (a.toNat % 4 * 16 + b.toNat / 16) % 16 * 16 +
        (b.toNat % 16 * 4 + c.toNat / 64) / 4) (by omega)
    have third := ofNat_eq_of_toNat (b := c)
      (n := (b.toNat % 16 * 4 + c.toNat / 64) % 4 * 64 + c.toNat % 64) (by omega)
    rw [sextets, joinSextets, ih, Option.map_some, first, second, third]

theorem symbolValue_symbol (alphabet : Alphabet) : ∀ v < 64,
    symbolValue alphabet (symbol alphabet v) = some v ∧ symbol alphabet v ≠ '=' := by
  cases alphabet with
  | standard => decide
  | urlSafe => decide

theorem mapM_symbolValue (alphabet : Alphabet) {values : List ℕ} (h : ∀ v ∈ values, v < 64) :
    (values.map (symbol alphabet)).mapM (symbolValue alphabet) = some values := by
  induction values with
  | nil => rfl
  | cons v values ih =>
    have head := (symbolValue_symbol alphabet v (h v List.mem_cons_self)).1
    have tail := ih fun w hw => h w (List.mem_cons_of_mem v hw)
    simp [head, tail]

theorem takeWhile_encode (alphabet : Alphabet) (padded : Bool) (bytes : Bytes) :
    (encode alphabet padded bytes).takeWhile (· ≠ '=') = (sextets bytes).map (symbol alphabet) := by
  have symbols : ∀ c ∈ (sextets bytes).map (symbol alphabet), decide (c ≠ '=') = true := by
    intro c hc
    obtain ⟨v, hv, rfl⟩ := List.mem_map.mp hc
    exact decide_eq_true (symbolValue_symbol alphabet v (sextets_lt bytes v hv)).2
  have none_after : ∀ n, (padding padded n).takeWhile (· ≠ '=') = [] := by
    intro n
    unfold padding
    split_ifs
    · cases (4 - n % 4) % 4 <;> simp [List.replicate_succ]
    · rfl
  rw [encode, List.takeWhile_append_of_pos symbols, none_after, List.append_nil]

theorem decode_encode (alphabet : Alphabet) (padded : Bool) (bytes : Bytes) :
    decode alphabet padded (encode alphabet padded bytes) = some bytes := by
  unfold decode
  simp only [takeWhile_encode]
  rw [if_pos (by simp [encode]), mapM_symbolValue alphabet (sextets_lt bytes), Option.bind_some,
    joinSextets_sextets]

theorem sextets_length (bytes : Bytes) :
    (sextets bytes).length = (bytes.length * 4 + 2) / 3 := by
  induction bytes using sextets.induct with
  | case1 => rfl
  | case2 a => simp [sextets]
  | case3 a b => simp [sextets]
  | case4 a b c rest ih =>
    simp only [sextets, List.length_cons, ih]
    omega

/-- The last two symbols of one alphabet have no value in the other. -/
theorem symbolValue_other : ∀ v < 64,
    symbolValue .standard (symbol .urlSafe v) = if v < 62 then some v else none := by
  decide

theorem mapM_symbolValue_other {values : List ℕ} (h : ∀ v ∈ values, v < 64) :
    (values.map (symbol .urlSafe)).mapM (symbolValue .standard) =
      if ∀ v ∈ values, v < 62 then some values else none := by
  induction values with
  | nil => rfl
  | cons v values ih =>
    have head := symbolValue_other v (h v List.mem_cons_self)
    have tail := ih fun w hw => h w (List.mem_cons_of_mem v hw)
    simp only [List.map_cons, List.mapM_cons, head, tail, List.forall_mem_cons]
    by_cases hv : v < 62
    · by_cases hrest : ∀ w ∈ values, w < 62
      · rw [if_pos hv, if_pos hrest, if_pos ⟨hv, hrest⟩]
        rfl
      · rw [if_pos hv, if_neg hrest, if_neg fun both => hrest both.2]
        rfl
    · simp [hv]

/-- Text of the URL-safe engine that the standard engine can read: full groups
only, and neither of the last two symbols. -/
def ReadByStandard (bytes : Bytes) : Prop :=
  3 ∣ bytes.length ∧ ∀ v ∈ sextets bytes, v < 62

instance (bytes : Bytes) : Decidable (ReadByStandard bytes) := inferInstanceAs (Decidable (_ ∧ _))

theorem standard_decode_urlSafe (bytes : Bytes) :
    decode .standard true (encode .urlSafe false bytes) =
      if ReadByStandard bytes then some bytes else none := by
  have unpadded : encode .urlSafe false bytes = (sextets bytes).map (symbol .urlSafe) ++
      padding true ((sextets bytes).map (symbol .urlSafe)).length ↔ 3 ∣ bytes.length := by
    simp only [encode, padding, List.append_cancel_left_eq, List.length_map, sextets_length,
      if_true, Bool.false_eq_true, if_false, eq_comm (a := []), List.replicate_eq_nil_iff]
    omega
  unfold decode
  simp only [takeWhile_encode, unpadded, mapM_symbolValue_other (sextets_lt bytes)]
  by_cases full : 3 ∣ bytes.length
  · by_cases common : ∀ v ∈ sextets bytes, v < 62
    · have read : ReadByStandard bytes := ⟨full, common⟩
      rw [if_pos full, if_pos common, if_pos read, Option.bind_some, joinSextets_sextets]
    · have unread : ¬ ReadByStandard bytes := fun read => common read.2
      rw [if_pos full, if_neg common, if_neg unread, Option.bind_none]
  · have unread : ¬ ReadByStandard bytes := fun read => full read.1
    rw [if_neg full, if_neg unread]

theorem engine_roundTrips (alphabet : Alphabet) (padded : Bool) :
    (engine alphabet padded).RoundTrips := by
  intro bytes
  simp [engine, decode_encode]

end Base64

end Rust
