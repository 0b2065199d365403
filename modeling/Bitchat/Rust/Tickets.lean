import Bitchat.Rust.Run

/-!
# Tickets

A step may issue a ticket, and any number of tickets may be given up on the way. In a run
that issues no ticket twice, a ticket that was given up is never held again.
-/
namespace Rust

variable {σ ι ο κ : Type} {step : σ → ι → σ × ο} {issued : ι → ο → Option κ} {held : σ → κ → Prop}

/-- A ticket is held after a step only if it was held before, or is issued in the step. -/
def Tickets (step : σ → ι → σ × ο) (issued : ι → ο → Option κ) (held : σ → κ → Prop) : Prop :=
  ∀ s i k, held (step s i).1 k → held s k ∨ issued i (step s i).2 = some k

namespace Tickets

variable (h : Tickets step issued held) {s : σ} {before later inputs : List ι} {k : κ}

include h

theorem held_run (hheld : held (run step s inputs) k) :
    held s k ∨ k ∈ collected step issued s inputs := by
  induction inputs generalizing s with
  | nil => exact Or.inl hheld
  | cons i rest ih =>
    rw [collected, List.mem_append]
    rcases ih hheld with hnext | hrest
    · rcases h s i k hnext with hold | hnew
      · exact Or.inl hold
      · exact Or.inr (Or.inl (by simp [hnew]))
    · exact Or.inr (Or.inr hrest)

/-- A ticket that was issued and given up is not held again. -/
theorem not_held_again (honce : (collected step issued s (before ++ later)).Nodup)
    (hissued : k ∈ collected step issued s before) (hgone : ¬ held (run step s before) k) :
    ¬ held (run step s (before ++ later)) k := by
  intro hheld
  rw [run_append] at hheld
  rw [collected_append] at honce
  rcases h.held_run hheld with hkept | hagain
  · exact hgone hkept
  · exact (List.nodup_append.mp honce).2.2 k hissued k hagain rfl

end Tickets

end Rust
