import Bitchat.Rust.Run

/-!
# Independent inputs

Steps that may be exchanged where their keys differ. A run is then decided by the order of the
inputs of each key, however those of different keys are interleaved.
-/
namespace Rust

variable {σ ι ο κ : Type}

/-- The inputs of each key come in the same order. -/
def SameOrders [DecidableEq κ] (key : ι → κ) (xs ys : List ι) : Prop :=
  ∀ k, xs.filter (fun i => key i = k) = ys.filter (fun i => key i = k)

/-- From states of the invariant, allowed steps with different keys may be exchanged. -/
structure Independent (step : σ → ι → σ × ο) (key : ι → κ) (I : σ → Prop) (P : ι → Prop) :
    Prop where
  keeps : ∀ s i, I s → P i → I (step s i).1
  exchange : ∀ s i j, I s → P i → P j → key i ≠ key j →
    (step (step s i).1 j).1 = (step (step s j).1 i).1

section

variable {step : σ → ι → σ × ο} {key : ι → κ} {I : σ → Prop} {P : ι → Prop} {s : σ}

/-- An input may overtake those with other keys. -/
theorem Independent.overtakes (h : Independent step key I P) {i : ι} {before : List ι}
    (after : List ι) (hs : I s) (hi : P i) (hbefore : ∀ j ∈ before, P j)
    (hkey : ∀ j ∈ before, key j ≠ key i) :
    run step s (before ++ i :: after) = run step s (i :: (before ++ after)) := by
  induction before generalizing s with
  | nil => rfl
  | cons j rest ih =>
    have hj : P j := hbefore j List.mem_cons_self
    have next := ih (h.keeps s j hs hj) (fun j' hj' => hbefore j' (List.mem_cons_of_mem j hj'))
      fun j' hj' => hkey j' (List.mem_cons_of_mem j hj')
    calc run step s (j :: rest ++ i :: after)
        = run step (step s j).1 (i :: (rest ++ after)) := next
      _ = run step (step (step s j).1 i).1 (rest ++ after) := rfl
      _ = run step (step (step s i).1 j).1 (rest ++ after) := by
          rw [h.exchange s j i hs hj hi (hkey j List.mem_cons_self)]
      _ = run step s (i :: (j :: rest ++ after)) := rfl

/-- The first element that a filter keeps. -/
theorem exists_first_of_filter {p : ι → Bool} {i : ι} {ys rest : List ι}
    (h : ys.filter p = i :: rest) :
    ∃ before after, ys = before ++ i :: after ∧ (∀ j ∈ before, p j = false) := by
  obtain ⟨before, after, rfl, hbefore, -, -⟩ := List.filter_eq_cons_iff.mp h
  exact ⟨before, after, rfl, fun j hj => by simpa using hbefore j hj⟩

variable [DecidableEq κ]

theorem SameOrders.mem_iff {xs ys : List ι} (same : SameOrders key xs ys) {i : ι} :
    i ∈ xs ↔ i ∈ ys := by
  have here (zs : List ι) : i ∈ zs ↔ i ∈ zs.filter fun j => key j = key i := by simp
  rw [here xs, here ys, same (key i)]

theorem SameOrders.tail {i : ι} {xs before after : List ι}
    (same : SameOrders key (i :: xs) (before ++ i :: after))
    (hkey : ∀ j ∈ before, key j ≠ key i) : SameOrders key xs (before ++ after) := by
  intro k
  have here := same k
  simp only [List.filter_append, List.filter_cons] at here ⊢
  by_cases hk : key i = k
  · subst hk
    have none : before.filter (fun j => key j = key i) = [] := by simpa using hkey
    simpa [none] using here
  · simpa [hk] using here

theorem sameOrders_pair {i j : ι} (h : key i ≠ key j) : SameOrders key [i, j] [j, i] := by
  intro k
  by_cases hk : key i = k
  · have other : key j ≠ k := fun heq => h (hk.trans heq.symm)
    simp [hk, other]
  · simp [List.filter_cons, hk]

/-- The order of each key's inputs decides the run. -/
theorem Independent.run_eq (h : Independent step key I P) {xs ys : List ι}
    (same : SameOrders key xs ys) (hs : I s) (hxs : ∀ i ∈ xs, P i) :
    run step s xs = run step s ys := by
  induction xs generalizing s ys with
  | nil =>
    have empty : ys = [] := List.eq_nil_iff_forall_not_mem.mpr fun i hi => by
      simpa using same.mem_iff.mpr hi
    rw [empty]
  | cons i rest ih =>
    have first : ys.filter (fun j => key j = key i) =
        i :: rest.filter fun j => key j = key i := by
      rw [← same (key i), List.filter_cons_of_pos (by simp)]
    obtain ⟨before, after, rfl, hbefore⟩ := exists_first_of_filter first
    have hkey : ∀ j ∈ before, key j ≠ key i := fun j hj => by simpa using hbefore j hj
    have hi : P i := hxs i List.mem_cons_self
    have allowed : ∀ j ∈ before, P j := fun j hj => hxs j (same.mem_iff.mpr (by simp [hj]))
    rw [h.overtakes after hs hi allowed hkey, run_cons, run_cons]
    exact ih (same.tail hkey) (h.keeps s i hs hi) fun j hj => hxs j (List.mem_cons_of_mem i hj)

end

end Rust
