import Bitchat.Rust.Readers

/-!
# Calls that return

A call returns if it ends in a value or an error, and not in a panic. For readers this is
shown together with two other facts, which a sequence of reads needs: the offset stays
within the slice, and the reader that checks its additions for overflow agrees with the
one that adds natural numbers.
-/
namespace Rust

variable {ε α β : Type}

/-- `Ok` or `Err`. -/
def Returns (x : Outcome ε α) : Prop := x ≠ panicked

/-- `a + b` on `usize`, which panics when it overflows. -/
def usizeAdd (a b : ℕ) : Outcome ε ℕ := if a + b < 2 ^ 64 then .ok (a + b) else panicked

/-- `a * b` on `u64`, which panics when it overflows. -/
def u64Mul (a b : ℕ) : Outcome ε ℕ := if a * b < 2 ^ 64 then .ok (a * b) else panicked

/-- `&[u8]`, of at most `isize::MAX` bytes. -/
structure U8Slice where
  bytes : Bytes
  fits : bytes.length < 2 ^ 63

def U8Slice.length (s : U8Slice) : ℕ := s.bytes.length

theorem usizeAdd_eq_ok {a b : ℕ} (h : a + b < 2 ^ 64) :
    (usizeAdd a b : Outcome ε ℕ) = .ok (a + b) := if_pos h

/-- Offsets of 64 bits, checked for overflow. -/
@[reducible] def Offsets.checked : Offsets := ⟨usizeAdd⟩

theorem Offsets.checked_add {offset n : ℕ} (h : offset + n < 2 ^ 64) :
    (checked.add offset n : Outcome ε ℕ) = .ok (offset + n) := usizeAdd_eq_ok h

/-- A position in the slice can be moved on by less than `isize::MAX`. -/
theorem U8Slice.add_lt (s : U8Slice) {offset n : ℕ} (hle : offset ≤ s.length) (hn : n < 2 ^ 63) :
    offset + n < 2 ^ 64 := by
  have hlength : s.length < 2 ^ 63 := s.fits
  omega

@[simp] theorem returns_ok (a : α) : Returns (.ok a : Outcome ε α) := by simp [Returns, panicked]

@[simp] theorem returns_fail (e : ε) : Returns (fail e : Outcome ε α) := by
  simp [Returns, fail, panicked]

theorem returns_bind {x : Outcome ε α} {f : α → Outcome ε β} (h : Returns x)
    (hf : ∀ a, x = .ok a → Returns (f a)) : Returns (x >>= f) := by
  cases x with
  | ok a => exact hf a rfl
  | error fault =>
    intro hpanic
    exact h (congrArg Except.error (Except.error.inj hpanic))

theorem returns_ite {c : Prop} [Decidable c] {x y : Outcome ε α} (hx : Returns x)
    (hy : Returns y) : Returns (if c then x else y) := by
  split_ifs
  · exact hx
  · exact hy

theorem returns_failIf {c : Prop} [Decidable c] (e : ε) : Returns (failIf c e) :=
  returns_ite (returns_fail e) (returns_ok ())

/-- What follows a guard is only run if the guard lets it. -/
theorem returns_guard {c : Prop} [Decidable c] {e : ε} {f : Unit → Outcome ε β}
    (hf : ¬ c → Returns (f ())) : Returns (failIf c e >>= f) := by
  refine returns_bind (returns_failIf e) ?_
  intro u hu
  exact hf (failIf_eq_ok.mp hu)

theorem returns_okOr (o : Option α) (e : ε) : Returns (okOr o e) := by
  cases o <;> simp [okOr]

theorem returns_tryIntoArray (n : ℕ) (bytes : Bytes) (e : ε) :
    Returns (tryIntoArray n bytes e) := by
  unfold tryIntoArray
  split_ifs
  · exact returns_ok _
  · exact returns_fail e

theorem returns_slice {bytes : Bytes} {start stop : ℕ} (hle : start ≤ stop)
    (hstop : stop ≤ bytes.length) : Returns (slice bytes start stop : Outcome ε Bytes) := by
  rw [slice, if_pos ⟨hle, hstop⟩]
  exact returns_ok _

theorem returns_index {bytes : Bytes} {i : ℕ} (h : i < bytes.length) :
    Returns (index bytes i : Outcome ε UInt8) := by
  rw [index_eq_ok.mpr (List.getElem?_eq_getElem h)]
  exact returns_ok _

theorem returns_mapM {f : α → Outcome ε β} (hf : ∀ a, Returns (f a)) (l : List α) :
    Returns (l.mapM f) := by
  induction l with
  | nil => exact returns_ok _
  | cons a l ih =>
    rw [List.mapM_cons]
    exact returns_bind (hf a) fun b _ => returns_bind ih fun bs _ => returns_ok _

/-- A loop whose body always succeeds from the states that it can meet is a loop without
failures. -/
theorem foldlM_eq_ok {σ : Type} {I : σ → Prop} {f : σ → α → Outcome ε σ} {g : σ → α → σ}
    (hbody : ∀ s a, I s → f s a = .ok (g s a)) (hkeeps : ∀ s a, I s → I (g s a)) {s : σ}
    (hinit : I s) (l : List α) : l.foldlM f s = .ok (l.foldl g s) := by
  induction l generalizing s with
  | nil => rfl
  | cons a l ih =>
    rw [List.foldlM_cons, hbody s a hinit, ok_bind, ih (hkeeps s a hinit), List.foldl_cons]

/-- The call `x`, which checks its additions, is the call `y`; it returns, and if it does
so with a value and an offset, the offset is at most `n`. -/
structure Within (n : ℕ) (x y : Outcome ε (α × ℕ)) : Prop where
  eq : x = y
  returns : Returns y
  offset : ∀ a next, y = .ok (a, next) → next ≤ n

namespace Within

variable {n : ℕ}

theorem ok {a : α} {next : ℕ} (h : next ≤ n) :
    Within n (.ok (a, next) : Outcome ε (α × ℕ)) (.ok (a, next)) where
  eq := rfl
  returns := returns_ok _
  offset := by
    intro b m hb
    rw [← (Prod.mk.inj (Except.ok.inj hb)).2]
    exact h

/-- A read, and what is done from the offset behind it. -/
theorem bind {x y : Outcome ε (α × ℕ)} {f g : α × ℕ → Outcome ε (β × ℕ)} (h : Within n x y)
    (hfg : ∀ a next, y = .ok (a, next) → next ≤ n → Within n (f (a, next)) (g (a, next))) :
    Within n (x >>= f) (y >>= g) := by
  obtain ⟨rfl, hreturns, hoffset⟩ := h
  cases x with
  | ok r =>
    obtain ⟨a, next⟩ := r
    exact hfg a next rfl (hoffset a next rfl)
  | error fault =>
    refine ⟨rfl, returns_bind hreturns (by simp), ?_⟩
    intro b next hb
    cases hb

/-- A call that adds nothing, and what is done with its value. -/
theorem step {x : Outcome ε α} {f g : α → Outcome ε (β × ℕ)} (h : Returns x)
    (hfg : ∀ a, x = .ok a → Within n (f a) (g a)) : Within n (x >>= f) (x >>= g) := by
  cases x with
  | ok a => exact hfg a rfl
  | error fault =>
    refine ⟨rfl, returns_bind h (by simp), ?_⟩
    intro b next hb
    cases hb

theorem guard {c : Prop} [Decidable c] {e : ε} {f g : Unit → Outcome ε (β × ℕ)}
    (hfg : ¬ c → Within n (f ()) (g ())) : Within n (failIf c e >>= f) (failIf c e >>= g) :=
  step (returns_failIf e) fun _ hu => hfg (failIf_eq_ok.mp hu)

end Within

namespace Reader

/-- From within every slice, the checked reader is the plain one and returns within it. -/
def Safe (checked plain : Reader ε α) : Prop :=
  ∀ (s : U8Slice) (offset : ℕ), offset ≤ s.length →
    Within s.length (checked s.bytes offset) (plain s.bytes offset)

theorem Safe.andThen {checked plain : Reader ε α} {checked' plain' : α → Reader ε β}
    (h : Safe checked plain) (h' : ∀ a, Safe (checked' a) (plain' a)) :
    Safe (Reader.andThen checked checked') (Reader.andThen plain plain') := by
  intro s offset hle
  exact (h s offset hle).bind fun a next _ hnext => h' a s next hnext

theorem Safe.many {checked plain : Reader ε α} (h : Safe checked plain) (n : ℕ) :
    Safe (Reader.many checked n) (Reader.many plain n) := by
  induction n with
  | zero =>
    intro s offset hle
    exact Within.ok hle
  | succ n ih =>
    intro s offset hle
    refine (h s offset hle).bind fun a next _ hnext => ?_
    exact (ih s next hnext).bind fun rest stop _ hstop => Within.ok hstop

/-- A loop to the end returns if each of its reads takes at least one byte. -/
theorem Safe.untilEnd {checked plain : Reader ε α} (h : Safe checked plain)
    (hprogress : ∀ bytes offset a next, plain bytes offset = .ok (a, next) → offset < next)
    (rounds : ℕ) (s : U8Slice) (offset : ℕ) (hle : offset ≤ s.length)
    (henough : s.length ≤ offset + rounds) :
    Within s.length (Reader.untilEnd checked rounds s.bytes offset)
      (Reader.untilEnd plain rounds s.bytes offset) := by
  induction rounds generalizing offset with
  | zero =>
    have hend : ¬ offset < s.bytes.length := Nat.not_lt.mpr henough
    simp only [Reader.untilEnd, hend, if_false]
    exact Within.ok hle
  | succ rounds ih =>
    by_cases hlt : offset < s.bytes.length
    · simp only [Reader.untilEnd, hlt, if_true]
      refine (h s offset hle).bind fun a next hread hnext => ?_
      have hmore := hprogress s.bytes offset a next hread
      exact (ih next hnext (by omega)).bind fun rest stop _ hstop => Within.ok hstop
    · simp only [Reader.untilEnd, hlt, if_false]
      exact Within.ok hle

end Reader

end Rust
