import Bitchat.Rust.Run

/-!
# Noninterference

An observer sees a part of the state, and some of the inputs concern it. If these give the
same answers and the same part in all states that look alike, and the others leave the part
alone, then the observer's answers are those of the run with only its own inputs.
-/
namespace Rust

variable {σ ι ο : Type}

/-- The two states look alike to the observer. What concerns it is answered alike and keeps
them so, and nothing else changes the look of a state. -/
structure Purges (step : σ → ι → σ × ο) (concerns : ι → Bool) (Alike : σ → σ → Prop) : Prop where
  same : ∀ s t i, Alike s t → concerns i = true →
    Alike (step s i).1 (step t i).1 ∧ (step s i).2 = (step t i).2
  aside : ∀ s t i, Alike s t → concerns i = false → Alike (step s i).1 t

variable {step : σ → ι → σ × ο} {concerns : ι → Bool} {Alike : σ → σ → Prop}

/-- The answers to the inputs that concern the observer. -/
def answers (step : σ → ι → σ × ο) (concerns : ι → Bool) (s : σ) (inputs : List ι) : List ο :=
  collected step (fun i o => if concerns i then some o else none) s inputs

theorem Purges.answers_eq (h : Purges step concerns Alike) {s t : σ} {inputs : List ι}
    (alike : Alike s t) :
    answers step concerns s inputs = outputs step t (inputs.filter concerns) := by
  induction inputs generalizing s t with
  | nil => rfl
  | cons i rest ih =>
    cases hi : concerns i with
    | false =>
      rw [List.filter_cons_of_neg (by simp [hi]), ← ih (h.aside s t i alike hi)]
      simp [answers, collected, hi]
    | true =>
      obtain ⟨next, same⟩ := h.same s t i alike hi
      rw [List.filter_cons_of_pos hi, outputs, ← ih next, ← same]
      simp [answers, collected, hi]

end Rust
