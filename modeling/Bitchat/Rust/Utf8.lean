import Bitchat.Rust.Text

/-!
# Lossy decoding of UTF-8

`String::from_utf8_lossy`: a well-formed sequence becomes its character, and
every maximal ill-formed part becomes one replacement character. Encoding the
result is never shorter than the input.
-/
namespace Rust

def replacementCharacter : Char := '\uFFFD'

def isContinuation (b : UInt8) : Bool := 0x80 ≤ b && b ≤ 0xBF

/-- Whether `b1` may follow the first byte `b0` of a three-byte sequence. -/
def secondOfThree (b0 b1 : UInt8) : Bool :=
  if b0 = 0xE0 then 0xA0 ≤ b1 && b1 ≤ 0xBF
  else if b0 = 0xED then 0x80 ≤ b1 && b1 ≤ 0x9F
  else isContinuation b1

/-- Whether `b1` may follow the first byte `b0` of a four-byte sequence. -/
def secondOfFour (b0 b1 : UInt8) : Bool :=
  if b0 = 0xF0 then 0x90 ≤ b1 && b1 ≤ 0xBF
  else if b0 = 0xF4 then 0x80 ≤ b1 && b1 ≤ 0x8F
  else isContinuation b1

/-- The low six bits of a continuation byte. -/
def lowBits (b : UInt8) : ℕ := b.toNat % 64

/-- The length of the sequence that a first byte announces, zero for none. -/
def sequenceLength (b0 : UInt8) : ℕ :=
  if b0 < 0x80 then 1
  else if 0xC2 ≤ b0 && b0 ≤ 0xDF then 2
  else if 0xE0 ≤ b0 && b0 ≤ 0xEF then 3
  else if 0xF0 ≤ b0 && b0 ≤ 0xF4 then 4
  else 0

/-- The character at the start of `b0 :: rest` and how many bytes of `rest` it
takes, or the replacement character and how many bytes of `rest` are skipped. -/
def decodeFirst (b0 : UInt8) (rest : Bytes) : Char × ℕ :=
  match sequenceLength b0, rest with
  | 1, _ => (Char.ofNat b0.toNat, 0)
  | 2, b1 :: _ =>
    if isContinuation b1 then (Char.ofNat (b0.toNat % 32 * 64 + lowBits b1), 1)
    else (replacementCharacter, 0)
  | 3, b1 :: tail =>
    if secondOfThree b0 b1 then
      match tail with
      | b2 :: _ =>
        if isContinuation b2 then
          (Char.ofNat (b0.toNat % 16 * 4096 + lowBits b1 * 64 + lowBits b2), 2)
        else (replacementCharacter, 1)
      | [] => (replacementCharacter, 1)
    else (replacementCharacter, 0)
  | 4, b1 :: tail =>
    if secondOfFour b0 b1 then
      match tail with
      | b2 :: tail =>
        if isContinuation b2 then
          match tail with
          | b3 :: _ =>
            if isContinuation b3 then
              (Char.ofNat (b0.toNat % 8 * 262144 + lowBits b1 * 4096 + lowBits b2 * 64 +
                lowBits b3), 3)
            else (replacementCharacter, 2)
          | [] => (replacementCharacter, 2)
        else (replacementCharacter, 1)
      | [] => (replacementCharacter, 1)
    else (replacementCharacter, 0)
  | _, _ => (replacementCharacter, 0)

/-- Decodes with a bound on the number of characters still to be produced. -/
def decodeLossy : ℕ → Bytes → Text
  | _, [] => []
  | 0, _ :: _ => []
  | fuel + 1, b0 :: rest =>
    (decodeFirst b0 rest).1 :: decodeLossy fuel (rest.drop (decodeFirst b0 rest).2)

/-- `String::from_utf8_lossy`. A byte yields at most one character. -/
def fromUtf8Lossy (bytes : Bytes) : Text := decodeLossy bytes.length bytes

theorem toNat_ofNat_of_valid {n : ℕ} (valid : n.isValidChar) : (Char.ofNat n).toNat = n := by
  unfold Char.ofNat
  rw [dif_pos valid]
  rfl

/-- The encoded length of a character is read off its code point. -/
theorem length_utf8EncodeChar_eq (c : Char) :
    (String.utf8EncodeChar c).length =
      if c.toNat ≤ 0x7F then 1 else if c.toNat ≤ 0x7FF then 2
      else if c.toNat ≤ 0xFFFF then 3 else 4 := by
  rw [String.length_utf8EncodeChar]
  rfl

theorem length_utf8EncodeChar_replacement :
    (String.utf8EncodeChar replacementCharacter).length = 3 := rfl

theorem lowBits_lt (b : UInt8) : lowBits b < 64 := Nat.mod_lt _ (by decide)

/-- The length of a sequence is read off the range of its first byte. -/
theorem sequenceLength_iff (b0 : UInt8) :
    (sequenceLength b0 = 1 ↔ b0.toNat ≤ 0x7F) ∧
      (sequenceLength b0 = 2 ↔ 0xC2 ≤ b0.toNat ∧ b0.toNat ≤ 0xDF) ∧
      (sequenceLength b0 = 3 ↔ 0xE0 ≤ b0.toNat ∧ b0.toNat ≤ 0xEF) ∧
      (sequenceLength b0 = 4 ↔ 0xF0 ≤ b0.toNat ∧ b0.toNat ≤ 0xF4) := by
  simp only [sequenceLength, UInt8.lt_iff_toNat_lt, UInt8.le_iff_toNat_le]
  grind

theorem isContinuation_iff (b : UInt8) :
    isContinuation b = true ↔ 0x80 ≤ b.toNat ∧ b.toNat ≤ 0xBF := by
  simp [isContinuation, UInt8.le_iff_toNat_le]

/-- The second byte rules out the overlong forms and the surrogates. -/
theorem secondOfThree_iff (b0 b1 : UInt8) :
    secondOfThree b0 b1 = true ↔ 0x80 ≤ b1.toNat ∧ b1.toNat ≤ 0xBF ∧
      (b0.toNat = 0xE0 → 0xA0 ≤ b1.toNat) ∧ (b0.toNat = 0xED → b1.toNat ≤ 0x9F) := by
  simp only [secondOfThree, isContinuation, UInt8.le_iff_toNat_le, ← UInt8.toNat_inj]
  grind

/-- The second byte rules out the overlong forms and what lies past U+10FFFF. -/
theorem secondOfFour_iff (b0 b1 : UInt8) :
    secondOfFour b0 b1 = true ↔ 0x80 ≤ b1.toNat ∧ b1.toNat ≤ 0xBF ∧
      (b0.toNat = 0xF0 → 0x90 ≤ b1.toNat) ∧ (b0.toNat = 0xF4 → b1.toNat ≤ 0x8F) := by
  simp only [secondOfFour, isContinuation, UInt8.le_iff_toNat_le, ← UInt8.toNat_inj]
  grind

theorem twoBytes_length {b0 : UInt8} (b1 : UInt8) (first : sequenceLength b0 = 2) :
    (String.utf8EncodeChar (Char.ofNat (b0.toNat % 32 * 64 + lowBits b1))).length = 2 := by
  have low := lowBits_lt b1
  have range := (sequenceLength_iff b0).2.1.mp first
  have valid : (b0.toNat % 32 * 64 + lowBits b1).isValidChar := by
    left
    omega
  rw [length_utf8EncodeChar_eq, toNat_ofNat_of_valid valid, if_neg (by omega), if_pos (by omega)]

theorem threeBytes_length {b0 b1 : UInt8} (b2 : UInt8) (first : sequenceLength b0 = 3)
    (second : secondOfThree b0 b1 = true) :
    (String.utf8EncodeChar
      (Char.ofNat (b0.toNat % 16 * 4096 + lowBits b1 * 64 + lowBits b2))).length = 3 := by
  have low1 : lowBits b1 = b1.toNat % 64 := rfl
  have low2 := lowBits_lt b2
  have range := (sequenceLength_iff b0).2.2.1.mp first
  obtain ⟨lower, upper, overlong, surrogate⟩ := (secondOfThree_iff b0 b1).mp second
  have valid : (b0.toNat % 16 * 4096 + lowBits b1 * 64 + lowBits b2).isValidChar := by
    simp only [Nat.isValidChar]
    omega
  rw [length_utf8EncodeChar_eq, toNat_ofNat_of_valid valid, if_neg (by omega), if_neg (by omega),
    if_pos (by omega)]

theorem fourBytes_length {b0 b1 : UInt8} (b2 b3 : UInt8) (first : sequenceLength b0 = 4)
    (second : secondOfFour b0 b1 = true) :
    (String.utf8EncodeChar (Char.ofNat (b0.toNat % 8 * 262144 + lowBits b1 * 4096 +
      lowBits b2 * 64 + lowBits b3))).length = 4 := by
  have low1 : lowBits b1 = b1.toNat % 64 := rfl
  have low2 := lowBits_lt b2
  have low3 := lowBits_lt b3
  have range := (sequenceLength_iff b0).2.2.2.mp first
  obtain ⟨lower, upper, overlong, large⟩ := (secondOfFour_iff b0 b1).mp second
  have valid : (b0.toNat % 8 * 262144 + lowBits b1 * 4096 + lowBits b2 * 64 +
      lowBits b3).isValidChar := by
    right
    omega
  rw [length_utf8EncodeChar_eq, toNat_ofNat_of_valid valid, if_neg (by omega), if_neg (by omega),
    if_neg (by omega)]

/-- A decoded part never encodes to fewer bytes than it took. -/
theorem decodeFirst_length (b0 : UInt8) (rest : Bytes) :
    (decodeFirst b0 rest).2 + 1 ≤ (String.utf8EncodeChar (decodeFirst b0 rest).1).length := by
  have replaced := length_utf8EncodeChar_replacement
  fun_cases decodeFirst b0 rest with
  | case1 rest first =>
    have positive := String.utf8EncodeChar_ne_nil (c := Char.ofNat b0.toNat)
    exact List.length_pos_iff.mpr positive
  | case2 b1 tail first continues => rw [twoBytes_length b1 first]
  | case4 b1 first second b2 tail continues => rw [threeBytes_length b2 first second]
  | case8 b1 first second b2 c2 b3 tail c3 => rw [fourBytes_length b2 b3 first second]
  | _ => simp [replaced]

/-- Lossy decoding never shortens: the text encodes to at least as many bytes. -/
theorem decodeLossy_length {fuel : ℕ} {bytes : Bytes} (enough : bytes.length ≤ fuel) :
    bytes.length ≤ (decodeLossy fuel bytes).asBytes.length := by
  induction fuel generalizing bytes with
  | zero =>
    rw [List.eq_nil_of_length_eq_zero (Nat.le_zero.mp enough)]
    exact Nat.zero_le _
  | succ fuel ih =>
    cases bytes with
    | nil => exact Nat.zero_le _
    | cons b0 rest =>
      have first := decodeFirst_length b0 rest
      have shorter : (rest.drop (decodeFirst b0 rest).2).length ≤ fuel := by
        simp only [List.length_drop, List.length_cons] at enough ⊢
        omega
      have tail := ih shorter
      simp only [decodeLossy, Text.asBytes, List.flatMap_cons, List.length_append,
        List.length_cons, List.length_drop] at tail ⊢
      omega

theorem length_le_fromUtf8Lossy (bytes : Bytes) :
    bytes.length ≤ (fromUtf8Lossy bytes).asBytes.length :=
  decodeLossy_length (le_refl _)

theorem toNat_ofNat_of_lt {n : ℕ} (h : n < 256) : (UInt8.ofNat n).toNat = n := by
  rw [UInt8.toNat_ofNat', Nat.mod_eq_of_lt h]

/-- The code points of characters leave out the surrogates. -/
theorem toNat_range (c : Char) : c.toNat < 0xD800 ∨ (0xDFFF < c.toNat ∧ c.toNat < 0x110000) :=
  c.valid

theorem ofNat_eq_of_eq {c : Char} {n : ℕ} (h : n = c.toNat) : Char.ofNat n = c := by
  rw [h, Char.ofNat_toNat]

/-- Decoding the encoding of a character reads it back. -/
theorem decodeFirst_utf8EncodeChar (c : Char) (rest : Bytes) :
    ∃ b0 tail, String.utf8EncodeChar c = b0 :: tail ∧
      decodeFirst b0 (tail ++ rest) = (c, tail.length) := by
  have range := toNat_range c
  have hval : c.val.toNat = c.toNat := rfl
  unfold String.utf8EncodeChar
  simp only [hval]
  generalize hv : c.toNat = v at range
  split_ifs with h1 h2 h3
  · have hb0 := toNat_ofNat_of_lt (n := v) (by omega)
    have first := (sequenceLength_iff (UInt8.ofNat v)).1.mpr (by omega)
    refine ⟨_, _, rfl, ?_⟩
    simp only [decodeFirst, first, hb0, ofNat_eq_of_eq hv.symm, List.length_nil]
  · have hb0 := toNat_ofNat_of_lt (n := v / 64 % 32 + 192) (by omega)
    have hb1 := toNat_ofNat_of_lt (n := v % 64 + 128) (by omega)
    have first := (sequenceLength_iff (UInt8.ofNat (v / 64 % 32 + 192))).2.1.mpr (by omega)
    have continues := (isContinuation_iff (UInt8.ofNat (v % 64 + 128))).mpr (by omega)
    refine ⟨_, _, rfl, ?_⟩
    have value : (v / 64 % 32 + 192) % 32 * 64 + (v % 64 + 128) % 64 = c.toNat := by omega
    simp only [decodeFirst, first, List.cons_append, List.nil_append, continues, if_true, lowBits,
      hb0, hb1, ofNat_eq_of_eq value, List.length_cons, List.length_nil]
  · have hb0 := toNat_ofNat_of_lt (n := v / 4096 % 16 + 224) (by omega)
    have hb1 := toNat_ofNat_of_lt (n := v / 64 % 64 + 128) (by omega)
    have hb2 := toNat_ofNat_of_lt (n := v % 64 + 128) (by omega)
    have first := (sequenceLength_iff (UInt8.ofNat (v / 4096 % 16 + 224))).2.2.1.mpr
      (by omega)
    have second := (secondOfThree_iff (UInt8.ofNat (v / 4096 % 16 + 224))
      (UInt8.ofNat (v / 64 % 64 + 128))).mpr (by omega)
    have continues := (isContinuation_iff (UInt8.ofNat (v % 64 + 128))).mpr (by omega)
    refine ⟨_, _, rfl, ?_⟩
    have value : (v / 4096 % 16 + 224) % 16 * 4096 + (v / 64 % 64 + 128) % 64 * 64 +
        (v % 64 + 128) % 64 = c.toNat := by omega
    simp only [decodeFirst, first, List.cons_append, List.nil_append, second, continues, if_true,
      lowBits, hb0, hb1, hb2, ofNat_eq_of_eq value, List.length_cons, List.length_nil]
  · have hb0 := toNat_ofNat_of_lt (n := v / 262144 % 8 + 240) (by omega)
    have hb1 := toNat_ofNat_of_lt (n := v / 4096 % 64 + 128) (by omega)
    have hb2 := toNat_ofNat_of_lt (n := v / 64 % 64 + 128) (by omega)
    have hb3 := toNat_ofNat_of_lt (n := v % 64 + 128) (by omega)
    have first := (sequenceLength_iff (UInt8.ofNat (v / 262144 % 8 + 240))).2.2.2.mpr
      (by omega)
    have second := (secondOfFour_iff (UInt8.ofNat (v / 262144 % 8 + 240))
      (UInt8.ofNat (v / 4096 % 64 + 128))).mpr (by omega)
    have continues2 := (isContinuation_iff (UInt8.ofNat (v / 64 % 64 + 128))).mpr (by omega)
    have continues3 := (isContinuation_iff (UInt8.ofNat (v % 64 + 128))).mpr (by omega)
    refine ⟨_, _, rfl, ?_⟩
    have value : (v / 262144 % 8 + 240) % 8 * 262144 + (v / 4096 % 64 + 128) % 64 * 4096 +
        (v / 64 % 64 + 128) % 64 * 64 + (v % 64 + 128) % 64 = c.toNat := by omega
    simp only [decodeFirst, first, List.cons_append, List.nil_append, second, continues2,
      continues3, if_true, lowBits, hb0, hb1, hb2, hb3, ofNat_eq_of_eq value, List.length_cons,
      List.length_nil]

/-- Well-formed text is read as it is. -/
theorem decodeLossy_asBytes (t : Text) {fuel : ℕ} (enough : t.asBytes.length ≤ fuel) :
    decodeLossy fuel t.asBytes = t := by
  induction t generalizing fuel with
  | nil => cases fuel <;> rfl
  | cons c t ih =>
    obtain ⟨b0, tail, hbytes, hfirst⟩ := decodeFirst_utf8EncodeChar c (Text.asBytes t)
    have hcons : Text.asBytes (c :: t) = b0 :: (tail ++ Text.asBytes t) := by
      simp [Text.asBytes, hbytes]
    rw [hcons] at enough ⊢
    cases fuel with
    | zero => cases enough
    | succ fuel =>
      have shorter : (Text.asBytes t).length ≤ fuel := by
        simp only [List.length_cons, List.length_append] at enough
        omega
      simp only [decodeLossy, hfirst, List.drop_left, ih shorter]

theorem fromUtf8Lossy_asBytes (t : Text) : fromUtf8Lossy t.asBytes = t :=
  decodeLossy_asBytes t (le_refl _)

/-- `String::from_utf8`: the text that the bytes are the encoding of. -/
def fromUtf8 (bytes : Bytes) : Option Text :=
  if (fromUtf8Lossy bytes).asBytes = bytes then some (fromUtf8Lossy bytes) else none

theorem fromUtf8_asBytes (t : Text) : fromUtf8 t.asBytes = some t := by
  simp [fromUtf8, fromUtf8Lossy_asBytes]

theorem fromUtf8_eq_some {bytes : Bytes} {t : Text} :
    fromUtf8 bytes = some t ↔ bytes = t.asBytes := by
  constructor
  · intro h
    unfold fromUtf8 at h
    split_ifs at h with hsame
    rw [← Option.some.inj h, hsame]
  · rintro rfl
    exact fromUtf8_asBytes t

end Rust
