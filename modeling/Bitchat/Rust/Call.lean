import Bitchat.Rust.Outcome

/-!
# Calls on a mutable state

A call on `&mut self` leaves a state and ends with an outcome. The state counts
also when the call fails: what was written before the `?` stays written.
-/
namespace Rust

abbrev Call (ε σ α : Type) := σ × Outcome ε α

namespace Call

variable {ε σ α β : Type}

/-- `let a = call?; next`. -/
def andThen (c : Call ε σ α) (next : σ → α → Call ε σ β) : Call ε σ β :=
  match c with
  | (s, .ok a) => next s a
  | (s, .error e) => (s, .error e)

@[simp] theorem andThen_ok (s : σ) (a : α) (next : σ → α → Call ε σ β) :
    andThen (s, .ok a) next = next s a := rfl

@[simp] theorem andThen_error (s : σ) (e : Fault ε) (next : σ → α → Call ε σ β) :
    andThen (s, .error e) next = (s, .error e) := rfl

/-- A property of the state that both calls establish holds after the sequence. -/
theorem andThen_state {I : σ → Prop} {c : Call ε σ α} {next : σ → α → Call ε σ β}
    (first : I c.1) (second : ∀ a, c.2 = .ok a → I (next c.1 a).1) :
    I (c.andThen next).1 := by
  obtain ⟨s, e | a⟩ := c
  · exact first
  · exact second a rfl

/-- A part of the state that neither call touches is as before the sequence. -/
theorem andThen_frame {γ : Type} (view : σ → γ) {v : γ} {c : Call ε σ α}
    {next : σ → α → Call ε σ β} (first : view c.1 = v)
    (second : ∀ a, c.2 = .ok a → view (next c.1 a).1 = v) : view (c.andThen next).1 = v :=
  andThen_state (I := fun s => view s = v) first second

/-- A sequence succeeds exactly when both of its calls do. -/
theorem andThen_eq_ok {c : Call ε σ α} {next : σ → α → Call ε σ β} {b : β} :
    (c.andThen next).2 = .ok b ↔ ∃ a, c.2 = .ok a ∧ (next c.1 a).2 = .ok b := by
  obtain ⟨s, e | a⟩ := c
  · simp
  · simp

/-- When the first call succeeds, the second one decides the state. -/
theorem andThen_of_ok {c : Call ε σ α} {a : α} (next : σ → α → Call ε σ β) (h : c.2 = .ok a) :
    c.andThen next = next c.1 a := by
  obtain ⟨s, result⟩ := c
  cases h
  rfl

/-- When the first call fails, the sequence stops in its state. -/
theorem andThen_of_error {c : Call ε σ α} {e : Fault ε} (next : σ → α → Call ε σ β)
    (h : c.2 = .error e) : c.andThen next = (c.1, .error e) := by
  obtain ⟨s, result⟩ := c
  cases h
  rfl

/-- A call on a part of a state, or on another view of it. -/
def mapState {τ : Type} (f : σ → τ) (c : Call ε σ α) : Call ε τ α := (f c.1, c.2)

/-- A change of the state that the second call does not notice can be made after it. -/
theorem andThen_mapState {τ : Type} {f : σ → τ} {c : Call ε σ α} {next : σ → α → Call ε σ β}
    {next' : τ → α → Call ε τ β} (h : ∀ s a, next' (f s) a = (next s a).mapState f) :
    (c.mapState f).andThen next' = (c.andThen next).mapState f := by
  obtain ⟨s, e | a⟩ := c
  · rfl
  · exact h s a

/-- A call in the state `s` leaves that state when it fails. -/
def Atomic (s : σ) (c : Call ε σ α) : Prop := ∀ e, c.2 = .error e → c.1 = s

theorem atomic_of_ok (s : σ) {c : Call ε σ α} {a : α} (h : c.2 = .ok a) : Atomic s c := by
  intro e he
  rw [h] at he
  cases he

theorem atomic_of_state {s : σ} {c : Call ε σ α} (h : c.1 = s) : Atomic s c := fun _ _ => h

/-- A sequence whose second call never fails is atomic if the first one is. -/
theorem atomic_andThen_iff {s : σ} {c : Call ε σ α} {next : σ → α → Call ε σ β}
    (hnext : ∀ s a, ∃ b, (next s a).2 = .ok b) : Atomic s (c.andThen next) ↔ Atomic s c := by
  obtain ⟨s', e | a⟩ := c
  · simp [Atomic]
  · obtain ⟨b, hb⟩ := hnext s' a
    exact iff_of_true (atomic_of_ok s hb) (atomic_of_ok s rfl)

/-- Two calls end alike, in related states. -/
def Agree (R : σ → σ → Prop) (c c' : Call ε σ α) : Prop := R c.1 c'.1 ∧ c.2 = c'.2

theorem Agree.andThen {R : σ → σ → Prop} {c c' : Call ε σ α} {next : σ → α → Call ε σ β}
    (first : Agree R c c') (second : ∀ s s' a, R s s' → Agree R (next s a) (next s' a)) :
    Agree R (c.andThen next) (c'.andThen next) := by
  obtain ⟨s, result⟩ := c
  obtain ⟨s', result'⟩ := c'
  obtain ⟨hrelated, hsame⟩ := first
  obtain rfl : result = result' := hsame
  cases result with
  | ok a => exact second s s' a hrelated
  | error e => exact ⟨hrelated, rfl⟩

end Call

end Rust
