import Mathlib.Data.List.Induction
import Mathlib.Order.Nat

/-!
# Sliding windows

A queue of event times from which the old ones are dropped at the front, beside
logs of events that are never dropped. A bound on the events that each event
finds in the window before it bounds the events in every interval of that length.
-/
namespace Rust

/-- The events that are not older than the window. -/
def recentCount (span now : ℕ) (times : List ℕ) : ℕ :=
  times.countP fun e => now ≤ e + span

/-- The events of a closed interval. -/
def intervalCount (start span : ℕ) (times : List ℕ) : ℕ :=
  times.countP fun e => start ≤ e ∧ e ≤ start + span

/-- Drops events from the front while they are older than the window. -/
def dropOld (span now : ℕ) (times : List ℕ) : List ℕ :=
  times.dropWhile fun e => span < now - e

variable {span now later : ℕ} {times : List ℕ}

@[simp] theorem recentCount_nil : recentCount span now [] = 0 := rfl

@[simp] theorem recentCount_append (xs ys : List ℕ) :
    recentCount span now (xs ++ ys) = recentCount span now xs + recentCount span now ys :=
  List.countP_append

@[simp] theorem recentCount_singleton (e : ℕ) :
    recentCount span now [e] = if now ≤ e + span then 1 else 0 := by
  simp [recentCount, List.countP_cons]

theorem recentCount_sublist {xs ys : List ℕ} (h : xs.Sublist ys) :
    recentCount span now xs ≤ recentCount span now ys :=
  h.countP_le

/-- Events only become older. -/
theorem recentCount_antitone (h : now ≤ later) :
    recentCount span later times ≤ recentCount span now times := by
  apply List.countP_mono_left
  intro e _ he
  simp only [decide_eq_true_eq] at he ⊢
  omega

/-- Up to now the window is an interval. -/
theorem recentCount_le_intervalCount (h : ∀ e ∈ times, e ≤ now) :
    recentCount span now times ≤ intervalCount (now - span) span times := by
  apply List.countP_mono_left
  intro e he recent
  have past := h e he
  simp only [decide_eq_true_eq] at recent ⊢
  omega

theorem intervalCount_sublist {xs ys : List ℕ} {start : ℕ} (h : xs.Sublist ys) :
    intervalCount start span xs ≤ intervalCount start span ys :=
  h.countP_le

/-- What is dropped is old at any later time. -/
theorem recentCount_dropOld (h : now ≤ later) :
    recentCount span later (dropOld span now times) = recentCount span later times := by
  induction times with
  | nil => rfl
  | cons e rest ih =>
    by_cases old : span < now - e
    · have gone : ¬ later ≤ e + span := by omega
      rw [dropOld, List.dropWhile_cons_of_pos (by simpa using old)]
      simpa [dropOld, recentCount, gone] using ih
    · rw [dropOld, List.dropWhile_cons_of_neg (by simpa using old)]

/-- An event that is not old stays, whatever stands before it. -/
theorem dropOld_concat {e : ℕ} (h : now - e ≤ span) (times : List ℕ) :
    dropOld span now (times ++ [e]) = dropOld span now times ++ [e] := by
  induction times with
  | nil => simp [dropOld, h]
  | cons x rest ih =>
    by_cases old : span < now - x
    · simpa [dropOld, List.dropWhile_cons, old] using ih
    · simp [dropOld, old]

/-- Of events in order, all that is left is recent. -/
theorem length_dropOld (h : times.Pairwise (· ≤ ·)) :
    (dropOld span now times).length = recentCount span now times := by
  induction times with
  | nil => rfl
  | cons e rest ih =>
    obtain ⟨first, ordered⟩ := List.pairwise_cons.mp h
    by_cases old : span < now - e
    · have gone : ¬ now ≤ e + span := by omega
      rw [dropOld, List.dropWhile_cons_of_pos (by simpa using old)]
      simpa [dropOld, recentCount, gone] using ih ordered
    · have all : ∀ x ∈ e :: rest, now ≤ x + span := by
        intro x hx
        rcases List.mem_cons.mp hx with rfl | hx
        · omega
        · have := first x hx
          omega
      rw [dropOld, List.dropWhile_cons_of_neg (by simpa using old), recentCount,
        List.countP_eq_length.mpr (by simpa using all)]

/-- If each event has at most `n` events in the window that ends with it, then no
closed interval of the window's length has more. -/
theorem intervalCount_le {n : ℕ}
    (h : ∀ before e rest, times = before ++ e :: rest → recentCount span e (before ++ [e]) ≤ n)
    (start : ℕ) : intervalCount start span times ≤ n := by
  induction times using List.reverseRecOn with
  | nil => simp [intervalCount]
  | append_singleton before e ih =>
    by_cases inside : start ≤ e ∧ e ≤ start + span
    · -- the interval ends at the latest where the window of `e` does
      have hlast := h before e [] rfl
      refine le_trans ?_ hlast
      apply List.countP_mono_left
      intro x _ hx
      simp only [decide_eq_true_eq] at hx ⊢
      omega
    · have rest := ih fun xs x ys heq => h xs x (ys ++ [e]) (by simp [heq])
      simpa [intervalCount, List.countP_append, List.countP_cons, inside] using rest

/-- A queue that holds, of the recent events, at least those of one log and at
most those of another. -/
structure Holds (span now : ℕ) (queue lower upper : List ℕ) : Prop where
  ordered : queue.Pairwise (· ≤ ·)
  past : ∀ e ∈ queue, e ≤ now
  covers : ∀ later, now ≤ later → recentCount span later lower ≤ recentCount span later queue
  covered : ∀ later, now ≤ later → recentCount span later queue ≤ recentCount span later upper

namespace Holds

variable {queue lower upper : List ℕ}

theorem empty (span now : ℕ) (upper : List ℕ) : Holds span now [] [] upper where
  ordered := List.Pairwise.nil
  past := by simp
  covers := by simp
  covered := by simp

theorem advance (h : Holds span now queue lower upper) (hle : now ≤ later) :
    Holds span later queue lower upper where
  ordered := h.ordered
  past e he := (h.past e he).trans hle
  covers t ht := h.covers t (hle.trans ht)
  covered t ht := h.covered t (hle.trans ht)

theorem prune (h : Holds span now queue lower upper) :
    Holds span now (dropOld span now queue) lower upper where
  ordered := h.ordered.sublist (List.dropWhile_sublist _)
  past e he := h.past e ((List.dropWhile_sublist _).mem he)
  covers t ht := (h.covers t ht).trans (recentCount_dropOld ht).ge
  covered t ht := (recentCount_dropOld ht).le.trans (h.covered t ht)

theorem add (h : Holds span now queue lower upper) :
    Holds span now (queue ++ [now]) (lower ++ [now]) (upper ++ [now]) where
  ordered := by
    refine List.pairwise_append.mpr ⟨h.ordered, by simp, ?_⟩
    intro e he t ht
    rw [List.mem_singleton.mp ht]
    exact h.past e he
  past e he := by
    rcases List.mem_append.mp he with he | he
    · exact h.past e he
    · exact (List.mem_singleton.mp he).le
  covers t ht := by simpa using h.covers t ht
  covered t ht := by simpa using h.covered t ht

/-- A lower log may lose events, an upper one may gain some. -/
theorem weaken {lower' upper' : List ℕ} (h : Holds span now queue lower upper)
    (hlower : lower'.Sublist lower) (hupper : upper.Sublist upper') :
    Holds span now queue lower' upper' where
  ordered := h.ordered
  past := h.past
  covers t ht := (recentCount_sublist hlower).trans (h.covers t ht)
  covered t ht := (h.covered t ht).trans (recentCount_sublist hupper)

/-- A queue without recent events may be dropped. -/
theorem drop (h : Holds span now queue lower upper) (hnone : recentCount span now queue = 0) :
    Holds span now [] lower upper where
  ordered := List.Pairwise.nil
  past := by simp
  covers t ht := by
    have old : recentCount span t queue ≤ recentCount span now queue := recentCount_antitone ht
    have := h.covers t ht
    simp only [recentCount_nil]
    omega
  covered := by simp

/-- The length of a pruned queue lies between the two counts. -/
theorem length_prune (h : Holds span now queue lower upper) :
    recentCount span now lower ≤ (dropOld span now queue).length ∧
      (dropOld span now queue).length ≤ recentCount span now upper := by
  rw [length_dropOld h.ordered]
  exact ⟨h.covers now le_rfl, h.covered now le_rfl⟩

end Holds

end Rust
