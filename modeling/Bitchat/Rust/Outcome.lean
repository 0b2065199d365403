import Mathlib.Data.Vector.Basic

/-!
# Outcomes of fallible Rust calls

A call returns a value, returns an `Err`, or panics. The two failures are kept
apart, so that "returns `Ok` or `Err`" and "does not panic" are both statable.
Slicing and indexing panic outside the slice, as in Rust; a conversion of a
slice into a fixed-size array fails with the error the caller maps it to.
-/
namespace Rust

abbrev Bytes := List UInt8

/-- How a call ends when it yields no value. -/
inductive Fault (ε : Type) where
  | err (e : ε)
  | panic
  deriving DecidableEq, Repr

abbrev Outcome (ε α : Type) := Except (Fault ε) α

variable {ε α β : Type}

def fail (e : ε) : Outcome ε α := .error (.err e)

def panicked : Outcome ε α := .error .panic

/-- `if c { return Err(e) }`. -/
def failIf (c : Prop) [Decidable c] (e : ε) : Outcome ε Unit :=
  if c then fail e else .ok ()

/-- `opt.ok_or(e)`. -/
def okOr (o : Option α) (e : ε) : Outcome ε α :=
  match o with
  | some a => .ok a
  | none => fail e

/-- `result.map_err(error)?` on the result of a library call. -/
def mapErr (error : String → ε) : Except String α → Outcome ε α
  | .ok a => .ok a
  | .error e => fail (error e)

/-- `result.map_err(error)?` on the result of a call that may panic. -/
def rewrap {ε' : Type} (error : ε → ε') : Outcome ε α → Outcome ε' α
  | .ok a => .ok a
  | .error (.err e) => fail (error e)
  | .error .panic => panicked

/-- `bytes[from..to]`, which panics when the range is not within the slice. -/
def slice (bytes : Bytes) (start stop : ℕ) : Outcome ε Bytes :=
  if start ≤ stop ∧ stop ≤ bytes.length then .ok ((bytes.drop start).take (stop - start))
  else panicked

/-- `bytes[i]`. -/
def index (bytes : Bytes) (i : ℕ) : Outcome ε UInt8 :=
  match bytes[i]? with
  | some b => .ok b
  | none => panicked

/-- `a.div_ceil(b)`, which panics on a zero divisor. -/
def divCeil (a b : ℕ) : Outcome ε ℕ :=
  if b = 0 then panicked else .ok ((a + b - 1) / b)

/-- `slice.try_into().map_err(|_| e)` for a target `[u8; n]`. -/
def tryIntoArray (n : ℕ) (bytes : Bytes) (e : ε) : Outcome ε (List.Vector UInt8 n) :=
  if h : bytes.length = n then .ok ⟨bytes, h⟩ else fail e

@[simp] theorem ok_bind (a : α) (f : α → Outcome ε β) :
    ((.ok a : Outcome ε α) >>= f) = f a := rfl

@[simp] theorem fail_bind (e : ε) (f : α → Outcome ε β) :
    ((fail e : Outcome ε α) >>= f) = fail e := rfl

@[simp] theorem panicked_bind (f : α → Outcome ε β) :
    ((panicked : Outcome ε α) >>= f) = panicked := rfl

@[simp] theorem pure_eq_ok (a : α) : (pure a : Outcome ε α) = .ok a := rfl

@[simp] theorem fail_ne_ok (e : ε) (a : α) : (fail e : Outcome ε α) ≠ .ok a := by
  simp [fail]

@[simp] theorem panicked_ne_ok (a : α) : (panicked : Outcome ε α) ≠ .ok a := by
  simp [panicked]

@[simp] theorem ok_ne_fail (a : α) (e : ε) : (.ok a : Outcome ε α) ≠ fail e := by
  simp [fail]

/-- A sequence returns an error only if one of its steps does. -/
theorem bind_ne_fail {x : Outcome ε α} {f : α → Outcome ε β} {e : ε} (first : x ≠ fail e)
    (second : ∀ a, f a ≠ fail e) : (x >>= f) ≠ fail e := by
  cases x with
  | ok a => exact second a
  | error fault =>
    intro h
    exact first (congrArg Except.error (Except.error.inj h))

/-- A sequence succeeds exactly when both of its steps do. -/
theorem bind_eq_ok {x : Outcome ε α} {f : α → Outcome ε β} {b : β} :
    (x >>= f) = .ok b ↔ ∃ a, x = .ok a ∧ f a = .ok b := by
  cases x with
  | ok a => simp
  | error e => simp [bind, Except.bind]

theorem map_eq_ok {f : α → β} {x : Outcome ε α} {b : β} :
    (f <$> x) = .ok b ↔ ∃ a, x = .ok a ∧ f a = b := by
  cases x with
  | ok a => simp [Functor.map, Except.map]
  | error e => simp [Functor.map, Except.map]

/-- What a chain of tests returns comes from the first one or from the others. -/
theorem of_ite_ok {c : Prop} [Decidable c] {a b : α} {x : Outcome ε α}
    (h : (if c then .ok a else x) = .ok b) : (c ∧ a = b) ∨ x = .ok b := by
  by_cases hc : c
  · rw [if_pos hc] at h
    exact Or.inl ⟨hc, Except.ok.inj h⟩
  · rw [if_neg hc] at h
    exact Or.inr h

@[simp] theorem failIf_bind_eq_ok {c : Prop} [Decidable c] {e : ε} {f : Unit → Outcome ε β}
    {b : β} : (failIf c e >>= f) = .ok b ↔ ¬ c ∧ f () = .ok b := by
  by_cases h : c <;> simp [failIf, h]

@[simp] theorem failIf_eq_ok {c : Prop} [Decidable c] {e : ε} {u : Unit} :
    failIf c e = .ok u ↔ ¬ c := by
  by_cases h : c <;> simp [failIf, h]

theorem failIf_fails {c : Prop} [Decidable c] {e : ε} :
    (∃ e', failIf c e = fail e') ↔ c := by
  by_cases h : c <;> simp [failIf, h]

@[simp] theorem okOr_eq_ok {o : Option α} {e : ε} {a : α} :
    okOr o e = .ok a ↔ o = some a := by
  cases o <;> simp [okOr]

@[simp] theorem mapErr_eq_ok {error : String → ε} {x : Except String α} {a : α} :
    mapErr error x = .ok a ↔ x = .ok a := by
  cases x <;> simp [mapErr]

@[simp] theorem rewrap_eq_ok {ε' : Type} {error : ε → ε'} {x : Outcome ε α} {a : α} :
    rewrap error x = .ok a ↔ x = .ok a := by
  cases x with
  | ok b => simp [rewrap]
  | error f => cases f <;> simp [rewrap]

/-- A loop whose body never fails collects the values of its body. -/
theorem mapM_eq_ok_map {f : α → Outcome ε β} {g : α → β} {l : List α}
    (h : ∀ a ∈ l, f a = .ok (g a)) : l.mapM f = .ok (l.map g) := by
  induction l with
  | nil => rfl
  | cons a l ih =>
    have htail := ih fun b hb => h b (List.mem_cons_of_mem a hb)
    rw [List.mapM_cons, h a List.mem_cons_self, ok_bind, htail]
    rfl

/-- A loop succeeds exactly when its body does on each element, in order. -/
theorem mapM_eq_ok {f : α → Outcome ε β} {l : List α} {r : List β} :
    l.mapM f = .ok r ↔ List.Forall₂ (fun a b => f a = .ok b) l r := by
  induction l generalizing r with
  | nil => simp [eq_comm]
  | cons a l ih =>
    simp only [List.mapM_cons, bind_eq_ok, pure_eq_ok, Except.ok.injEq, ih,
      List.forall₂_cons_left_iff]
    constructor
    · rintro ⟨b, hb, bs, hbs, rfl⟩
      exact ⟨b, bs, hb, hbs, rfl⟩
    · rintro ⟨b, bs, hb, hbs, rfl⟩
      exact ⟨b, hb, bs, hbs, rfl⟩

theorem slice_eq_ok {bytes part : Bytes} {start stop : ℕ} :
    (slice bytes start stop : Outcome ε Bytes) = .ok part ↔
      start ≤ stop ∧ stop ≤ bytes.length ∧ part = (bytes.drop start).take (stop - start) := by
  unfold slice
  split_ifs with h
  · simp [h, eq_comm]
  · simp only [panicked_ne_ok, false_iff]
    tauto

/-- A successful read sees only the bytes below its end. -/
theorem slice_append {bytes part : Bytes} {start stop : ℕ} (more : Bytes)
    (h : (slice bytes start stop : Outcome ε Bytes) = .ok part) :
    (slice (bytes ++ more) start stop : Outcome ε Bytes) = .ok part := by
  obtain ⟨hle, hstop, rfl⟩ := slice_eq_ok.mp h
  refine slice_eq_ok.mpr ⟨hle, by simp; omega, ?_⟩
  rw [List.drop_append_of_le_length (by omega), List.take_append_of_le_length (by simp; omega)]

/-- Reading the middle of a concatenation at its own offsets. -/
theorem slice_middle (front part more : Bytes) :
    (slice (front ++ part ++ more) front.length (front.length + part.length) :
      Outcome ε Bytes) = .ok part := by
  refine slice_eq_ok.mpr ⟨by omega, by simp, ?_⟩
  simp [List.append_assoc]

theorem slice_length {bytes part : Bytes} {start stop : ℕ}
    (h : (slice bytes start stop : Outcome ε Bytes) = .ok part) :
    part.length = stop - start ∧ stop ≤ bytes.length := by
  obtain ⟨hle, hstop, rfl⟩ := slice_eq_ok.mp h
  exact ⟨by simp; omega, hstop⟩

/-- A read part stands between what is left before it and behind it. -/
theorem slice_drop {bytes part : Bytes} {start stop : ℕ}
    (h : (slice bytes start stop : Outcome ε Bytes) = .ok part) :
    bytes.drop start = part ++ bytes.drop stop := by
  obtain ⟨hle, _, rfl⟩ := slice_eq_ok.mp h
  have rest : (bytes.drop start).drop (stop - start) = bytes.drop stop := by
    rw [List.drop_drop, Nat.add_sub_cancel' hle]
  rw [← rest, List.take_append_drop]

theorem index_eq_ok {bytes : Bytes} {i : ℕ} {b : UInt8} :
    (index bytes i : Outcome ε UInt8) = .ok b ↔ bytes[i]? = some b := by
  unfold index
  cases bytes[i]? <;> simp

theorem index_append {bytes : Bytes} {i : ℕ} {b : UInt8} (more : Bytes)
    (h : (index bytes i : Outcome ε UInt8) = .ok b) :
    (index (bytes ++ more) i : Outcome ε UInt8) = .ok b := by
  rw [index_eq_ok] at h ⊢
  have hi : i < bytes.length := (List.getElem?_eq_some_iff.mp h).1
  rw [List.getElem?_append_left hi, h]

@[simp] theorem tryIntoArray_toList {n : ℕ} (v : List.Vector UInt8 n) (e : ε) :
    tryIntoArray n v.toList e = .ok v := by
  simp [tryIntoArray]

theorem tryIntoArray_eq_ok {n : ℕ} {bytes : Bytes} {e : ε} {v : List.Vector UInt8 n} :
    tryIntoArray n bytes e = .ok v ↔ bytes = v.toList := by
  constructor
  · intro h
    unfold tryIntoArray at h
    split_ifs at h with hlen
    · cases h; rfl
    · exact absurd h (fail_ne_ok e v)
  · rintro rfl
    exact tryIntoArray_toList v e

end Rust
