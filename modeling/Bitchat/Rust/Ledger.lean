import Bitchat.Rust.Run
import Mathlib.Algebra.Group.Defs

/-!
# Conservation along runs

What a state stores, and what each step takes in and gives out, are amounts that
can be added and cancelled. Over a run nothing is lost and nothing is made up
exactly if this holds of each step.
-/
namespace Rust

variable {σ ι ο M : Type} [AddCancelCommMonoid M]

/-- The amounts of the steps of a run, added up. -/
def total (step : σ → ι → σ × ο) (amount : σ → ι → M) (s : σ) : List ι → M
  | [] => 0
  | i :: rest => amount s i + total step amount (step s i).1 rest

variable {step : σ → ι → σ × ο} {amount inflow outflow : σ → ι → M} {stored : σ → M}

@[simp] theorem total_append (s : σ) (xs ys : List ι) :
    total step amount s (xs ++ ys) =
      total step amount s xs + total step amount (run step s xs) ys := by
  induction xs generalizing s with
  | nil => simp [total]
  | cons x xs ih => simp [total, ih, add_assoc]

/-- A step that loses nothing and makes nothing up. -/
def Conserves (step : σ → ι → σ × ο) (inflow outflow : σ → ι → M) (stored : σ → M) (s : σ)
    (i : ι) : Prop :=
  stored s + inflow s i = outflow s i + stored (step s i).1

/-- What was stored and what came in is what went out and what is stored, at every point
of a run, exactly if each step conserves. -/
theorem conserved_iff_along {s : σ} {inputs : List ι} :
    (∀ before rest, inputs = before ++ rest →
      stored s + total step inflow s before =
        total step outflow s before + stored (run step s before)) ↔
    Along step (Conserves step inflow outflow stored) s inputs := by
  constructor
  · intro h
    rw [along_iff_forall]
    intro before i rest heq
    have upTo := h before (i :: rest) heq
    have after := h (before ++ [i]) rest (by simp [heq])
    simp only [total_append, total, run_concat, add_zero] at after
    rw [← add_assoc, upTo, add_assoc, add_assoc] at after
    exact add_left_cancel after
  · intro halong before rest heq
    rw [heq, along_append] at halong
    have hbefore := halong.1
    clear heq halong
    induction before generalizing s with
    | nil => simp [total]
    | cons i before ih =>
      have here : stored s + inflow s i = outflow s i + stored (step s i).1 := hbefore.1
      rw [total, total, run_cons, ← add_assoc, here, add_assoc, ih hbefore.2, add_assoc]

end Rust
