import Mathlib.Data.List.Induction

/-!
# Runs of a step function

A step takes a state and an input to the next state and an output. `run` is the
state after a list of inputs. Properties of runs are proved from one step: a
condition on every step of the run may be assumed, and an invariant carries it.
-/
namespace Rust

variable {σ ι ο : Type}

/-- The state after handling `inputs` from `s`. -/
def run (step : σ → ι → σ × ο) (s : σ) (inputs : List ι) : σ :=
  inputs.foldl (fun s i => (step s i).1) s

/-- The outputs of a run, in order. -/
def outputs (step : σ → ι → σ × ο) (s : σ) : List ι → List ο
  | [] => []
  | i :: rest => (step s i).2 :: outputs step (step s i).1 rest

/-- What `pick` makes of the inputs and outputs of a run, in order. -/
def collected {κ : Type} (step : σ → ι → σ × ο) (pick : ι → ο → Option κ) (s : σ) :
    List ι → List κ
  | [] => []
  | i :: rest => (pick i (step s i).2).toList ++ collected step pick (step s i).1 rest

/-- Every step of the run meets `P`. -/
def Along (step : σ → ι → σ × ο) (P : σ → ι → Prop) (s : σ) : List ι → Prop
  | [] => True
  | i :: rest => P s i ∧ Along step P (step s i).1 rest

/-- The states that some list of inputs leads to. -/
def Reachable (step : σ → ι → σ × ο) (s t : σ) : Prop :=
  ∃ inputs, run step s inputs = t

variable {step : σ → ι → σ × ο}

@[simp] theorem run_nil (s : σ) : run step s [] = s := rfl

@[simp] theorem run_cons (s : σ) (i : ι) (rest : List ι) :
    run step s (i :: rest) = run step (step s i).1 rest := rfl

theorem run_append (s : σ) (xs ys : List ι) :
    run step s (xs ++ ys) = run step (run step s xs) ys :=
  List.foldl_append ..

@[simp] theorem run_concat (s : σ) (xs : List ι) (i : ι) :
    run step s (xs ++ [i]) = (step (run step s xs) i).1 := by
  simp [run_append]

theorem outputs_append (s : σ) (xs ys : List ι) :
    outputs step s (xs ++ ys) = outputs step s xs ++ outputs step (run step s xs) ys := by
  induction xs generalizing s with
  | nil => rfl
  | cons x rest ih => simp [outputs, ih]

@[simp] theorem outputs_concat (s : σ) (xs : List ι) (i : ι) :
    outputs step s (xs ++ [i]) = outputs step s xs ++ [(step (run step s xs) i).2] := by
  simp [outputs_append, outputs]

section

variable {κ : Type} {pick : ι → ο → Option κ}

theorem collected_append (s : σ) (xs ys : List ι) :
    collected step pick s (xs ++ ys) =
      collected step pick s xs ++ collected step pick (run step s xs) ys := by
  induction xs generalizing s with
  | nil => rfl
  | cons x rest ih => simp [collected, ih]

theorem collected_concat (s : σ) (xs : List ι) (i : ι) :
    collected step pick s (xs ++ [i]) =
      collected step pick s xs ++ (pick i (step (run step s xs) i).2).toList := by
  simp [collected_append, collected]

/-- An item that was collected comes from a step of the run. -/
theorem collected_split {s : σ} {inputs : List ι} {xs ys : List κ} {k : κ}
    (h : collected step pick s inputs = xs ++ k :: ys) :
    ∃ before i rest, inputs = before ++ i :: rest ∧ collected step pick s before = xs ∧
      pick i (step (run step s before) i).2 = some k := by
  induction inputs generalizing s xs with
  | nil => simp [collected] at h
  | cons i rest ih =>
    rw [collected] at h
    cases hpick : pick i (step s i).2 with
    | none =>
      rw [hpick, Option.toList_none, List.nil_append] at h
      obtain ⟨before, j, later, rfl, hxs, hk⟩ := ih h
      exact ⟨i :: before, j, later, rfl, by simp [collected, hpick, hxs], hk⟩
    | some first =>
      rw [hpick, Option.toList_some, List.singleton_append] at h
      cases xs with
      | nil =>
        obtain ⟨rfl, _⟩ := List.cons_eq_cons.mp h
        exact ⟨[], i, rest, rfl, rfl, hpick⟩
      | cons x xs =>
        obtain ⟨rfl, htail⟩ := List.cons_eq_cons.mp h
        obtain ⟨before, j, later, rfl, hxs, hk⟩ := ih htail
        exact ⟨i :: before, j, later, rfl, by simp [collected, hpick, hxs], hk⟩

end

/-- A property that every conditioned step preserves holds after every run whose
steps meet the condition. -/
theorem run_invariant {P : σ → ι → Prop} {I : σ → Prop}
    (hstep : ∀ s i, I s → P s i → I (step s i).1) {s : σ} {inputs : List ι} (hinit : I s)
    (halong : Along step P s inputs) : I (run step s inputs) := by
  induction inputs generalizing s with
  | nil => exact hinit
  | cons i rest ih => exact ih (hstep s i hinit halong.1) halong.2

@[simp] theorem along_append {P : σ → ι → Prop} {s : σ} {xs ys : List ι} :
    Along step P s (xs ++ ys) ↔ Along step P s xs ∧ Along step P (run step s xs) ys := by
  induction xs generalizing s with
  | nil => simp [Along]
  | cons i rest ih => simp [Along, ih, and_assoc]

/-- A condition holds along a run exactly if it holds at each of its inputs. -/
theorem along_iff_forall {P : σ → ι → Prop} {s : σ} {inputs : List ι} :
    Along step P s inputs ↔
      ∀ before i rest, inputs = before ++ i :: rest → P (run step s before) i := by
  constructor
  · rintro halong before i rest rfl
    exact (along_append.mp halong).2.1
  · intro h
    induction inputs generalizing s with
    | nil => trivial
    | cons i rest ih =>
      refine ⟨h [] i rest rfl, ih ?_⟩
      intro before j later heq
      exact h (i :: before) j later (congrArg (i :: ·) heq)

theorem along_of_forall {P : ι → Prop} {s : σ} {inputs : List ι} (h : ∀ i ∈ inputs, P i) :
    Along step (fun _ i => P i) s inputs := by
  induction inputs generalizing s with
  | nil => trivial
  | cons i rest ih =>
    exact ⟨h i List.mem_cons_self, ih fun j hj => h j (List.mem_cons_of_mem i hj)⟩

theorem along_true {s : σ} {inputs : List ι} : Along step (fun _ _ => True) s inputs :=
  along_of_forall fun _ _ => trivial

/-- A condition on inputs alone holds along a run exactly if all of its inputs meet it. -/
theorem along_inputs {P : ι → Prop} {s : σ} {inputs : List ι} :
    Along step (fun _ i => P i) s inputs ↔ ∀ i ∈ inputs, P i := by
  constructor
  · intro halong i hi
    obtain ⟨before, rest, heq⟩ := List.append_of_mem hi
    exact along_iff_forall.mp halong before i rest heq
  · exact along_of_forall

theorem along_and {P Q : σ → ι → Prop} {s : σ} {inputs : List ι} :
    Along step (fun s i => P s i ∧ Q s i) s inputs ↔
      Along step P s inputs ∧ Along step Q s inputs := by
  induction inputs generalizing s with
  | nil => simp [Along]
  | cons i rest ih =>
    simp only [Along, ih]
    tauto

theorem along_congr {P Q : σ → ι → Prop} (h : ∀ s i, P s i ↔ Q s i) {s : σ} {inputs : List ι} :
    Along step P s inputs ↔ Along step Q s inputs := by
  simp only [along_iff_forall, h]

/-- What an invariant and the condition of a step imply of that step holds along
every run whose steps meet the condition. -/
theorem along_of_invariant {P Q : σ → ι → Prop} {I : σ → Prop}
    (hstep : ∀ s i, I s → P s i → I (step s i).1) (himp : ∀ s i, I s → P s i → Q s i)
    {s : σ} {inputs : List ι} (hinit : I s) (halong : Along step P s inputs) :
    Along step Q s inputs := by
  induction inputs generalizing s with
  | nil => trivial
  | cons i rest ih =>
    exact ⟨himp s i hinit halong.1, ih (hstep s i hinit halong.1) halong.2⟩

/-- If a condition on a step is just what keeps an invariant, then the invariant holds in
every state of a run exactly if the condition does at every step. -/
theorem along_step_iff {P : σ → ι → Prop} {I : σ → Prop}
    (hstep : ∀ s i, I s → (I (step s i).1 ↔ P s i)) {s : σ} {inputs : List ι} (hinit : I s) :
    Along step (fun s i => I (step s i).1) s inputs ↔ Along step P s inputs := by
  induction inputs generalizing s with
  | nil => exact Iff.rfl
  | cons i rest ih =>
    constructor
    · intro h
      exact ⟨(hstep s i hinit).mp h.1, (ih h.1).mp h.2⟩
    · intro h
      have hnext := (hstep s i hinit).mpr h.1
      exact ⟨hnext, (ih hnext).mpr h.2⟩

/-- A property that holds at first holds in every state of a run exactly if it holds
after each step. -/
theorem throughout_iff_along {I : σ → Prop} {s : σ} {inputs : List ι} (hinit : I s) :
    (∀ before rest, inputs = before ++ rest → I (run step s before)) ↔
      Along step (fun s i => I (step s i).1) s inputs := by
  constructor
  · intro h
    rw [along_iff_forall]
    intro before i rest heq
    have here := h (before ++ [i]) rest (by simp [heq])
    rwa [run_concat] at here
  · intro halong before rest heq
    rw [heq, along_append] at halong
    exact run_invariant (fun _ _ _ hnext => hnext) hinit halong.1

/-- An invariant between the state and what was collected on the way, which every conditioned
step preserves, holds after every run whose steps meet the condition. -/
theorem collected_invariant {κ : Type} {pick : ι → ο → Option κ} {P : σ → ι → Prop}
    {I : σ → List κ → Prop} (hstep : ∀ s ks i, I s ks → P s i →
      I (step s i).1 (ks ++ (pick i (step s i).2).toList))
    {s : σ} {inputs : List ι} (hinit : I s []) (halong : Along step P s inputs) :
    I (run step s inputs) (collected step pick s inputs) := by
  induction inputs using List.reverseRecOn with
  | nil => exact hinit
  | append_singleton before i ih =>
    obtain ⟨hbefore, hlast⟩ := along_append.mp halong
    rw [run_concat, collected_concat]
    exact hstep _ _ i (ih hbefore) hlast.1

/-- An invariant between the state and what was collected on the way holds throughout a run
exactly if each step meets the condition that keeps it. -/
theorem throughout_collected_iff {κ : Type} {pick : ι → ο → Option κ} {I : σ → List κ → Prop}
    {P : σ → ι → Prop} (hstep : ∀ s ks i, I s ks →
      (I (step s i).1 (ks ++ (pick i (step s i).2).toList) ↔ P s i))
    {s : σ} {inputs : List ι} (hinit : I s []) :
    (∀ before rest, inputs = before ++ rest →
      I (run step s before) (collected step pick s before)) ↔ Along step P s inputs := by
  constructor
  · intro h
    rw [along_iff_forall]
    intro before i rest heq
    have hnext := h (before ++ [i]) rest (by simp [heq])
    rw [run_concat, collected_concat] at hnext
    exact (hstep _ _ i (h before (i :: rest) heq)).mp hnext
  · rintro halong before rest rfl
    obtain ⟨hbefore, -⟩ := along_append.mp halong
    exact collected_invariant (fun s ks i h hcond => (hstep s ks i h).mpr hcond) hinit hbefore

/-- A reflexive and transitive relation holds between any two points of a run, the
earlier and the later one, exactly if it holds across each step. -/
theorem related_iff_along {R : σ → σ → Prop} (hrefl : ∀ s, R s s)
    (htrans : ∀ s t u, R s t → R t u → R s u) {s : σ} {inputs : List ι} :
    (∀ before later rest, inputs = before ++ later ++ rest →
      R (run step s before) (run step s (before ++ later))) ↔
    Along step (fun s i => R s (step s i).1) s inputs := by
  constructor
  · intro h
    rw [along_iff_forall]
    intro before i rest heq
    have here := h before [i] rest (by simp [heq])
    rwa [run_concat] at here
  · rintro halong before later rest rfl
    rw [along_append, along_append] at halong
    obtain ⟨⟨-, hlater⟩, -⟩ := halong
    rw [run_append]
    generalize run step s before = t at hlater ⊢
    induction later generalizing t with
    | nil => exact hrefl t
    | cons i later ih => exact htrans _ _ _ hlater.1 (ih _ hlater.2)

/-- Two runs on the same inputs have the same outputs if they start in related states and
steps from related states give the same output. -/
theorem outputs_eq_of_related {R : σ → σ → Prop}
    (hstep : ∀ s t i, R s t → R (step s i).1 (step t i).1 ∧ (step s i).2 = (step t i).2)
    {s t : σ} {inputs : List ι} (hinit : R s t) :
    outputs step s inputs = outputs step t inputs := by
  induction inputs generalizing s t with
  | nil => rfl
  | cons i rest ih =>
    obtain ⟨hnext, hanswer⟩ := hstep s t i hinit
    rw [outputs, outputs, hanswer, ih hnext]

/-- Under an invariant, what holds of the output of each step holds of all outputs of a run. -/
theorem forall_outputs {I : σ → Prop} {Q : ο → Prop} (hstep : ∀ s i, I s → I (step s i).1)
    (hout : ∀ s i, I s → Q (step s i).2) {s : σ} (hinit : I s) (inputs : List ι) :
    ∀ o ∈ outputs step s inputs, Q o := by
  induction inputs generalizing s with
  | nil => simp [outputs]
  | cons i rest ih =>
    rw [outputs, List.forall_mem_cons]
    exact ⟨hout s i hinit, ih (hstep s i hinit)⟩

/-- An invariant between the state and the outputs so far holds after every run; a step
may use what holds in every state on the way. -/
theorem outputs_invariant {J : σ → Prop} {I : σ → List ο → Prop}
    (hJ : ∀ s i, J s → J (step s i).1)
    (hI : ∀ s os i, J s → I s os → I (step s i).1 (os ++ [(step s i).2])) {s : σ}
    (hstart : J s) (hinit : I s []) (inputs : List ι) :
    I (run step s inputs) (outputs step s inputs) := by
  suffices h : J (run step s inputs) ∧ I (run step s inputs) (outputs step s inputs) from h.2
  induction inputs using List.reverseRecOn with
  | nil => exact ⟨hstart, hinit⟩
  | append_singleton before i ih =>
    rw [run_concat, outputs_concat]
    exact ⟨hJ _ i ih.1, hI _ _ i ih.1 ih.2⟩

/-- The inputs of a run that are not skipped. -/
def unskipped (step : σ → ι → σ × ο) (skip : σ → ι → Bool) (s : σ) : List ι → List ι
  | [] => []
  | i :: rest =>
    (if skip s i then [] else [i]) ++ unskipped step skip (step s i).1 rest

/-- Inputs that leave the state as it was can be left out of a run. -/
theorem run_unskipped {skip : σ → ι → Bool} {s : σ} {inputs : List ι}
    (h : Along step (fun s i => skip s i = true → (step s i).1 = s) s inputs) :
    run step s (unskipped step skip s inputs) = run step s inputs := by
  induction inputs generalizing s with
  | nil => rfl
  | cons i rest ih =>
    have hrest := ih h.2
    rw [unskipped, run_append]
    split_ifs with hskip
    · have hsame : (step s i).1 = s := h.1 hskip
      rw [run_cons, ← hrest, run_nil, hsame]
    · exact hrest

/-- Under an invariant, and given `F` at each step, two conditions on a step that
agree hold along the same runs. -/
theorem along_iff {P Q F : σ → ι → Prop} {I : σ → Prop}
    (hstep : ∀ s i, I s → F s i → Q s i → I (step s i).1)
    (hiff : ∀ s i, I s → F s i → (P s i ↔ Q s i)) {s : σ} {inputs : List ι} (hinit : I s)
    (hgiven : Along step F s inputs) : Along step P s inputs ↔ Along step Q s inputs := by
  induction inputs generalizing s with
  | nil => exact Iff.rfl
  | cons i rest ih =>
    have here := hiff s i hinit hgiven.1
    constructor
    · intro h
      have hQ := here.mp h.1
      exact ⟨hQ, (ih (hstep s i hinit hgiven.1 hQ) hgiven.2).mp h.2⟩
    · intro h
      exact ⟨here.mpr h.1, (ih (hstep s i hinit hgiven.1 h.1) hgiven.2).mpr h.2⟩

/-- The same under an invariant that every step keeps. -/
theorem along_iff_of_invariant {P Q : σ → ι → Prop} {I : σ → Prop}
    (hstep : ∀ s i, I s → I (step s i).1) (hiff : ∀ s i, I s → (P s i ↔ Q s i)) {s : σ}
    {inputs : List ι} (hinit : I s) : Along step P s inputs ↔ Along step Q s inputs :=
  along_iff (fun s i h _ _ => hstep s i h) (fun s i h _ => hiff s i h) hinit along_true

section

variable {κ : Type} {holds : σ → κ → Prop} {uses : ι → Option κ}

/-- If only an input that uses a key can bring the key into the state, then a key
was there from the start or was used. -/
theorem holds_run (hstep : ∀ s i k, holds (step s i).1 k → holds s k ∨ uses i = some k) {s : σ}
    {inputs : List ι} {k : κ} (h : holds (run step s inputs) k) :
    holds s k ∨ k ∈ inputs.filterMap uses := by
  induction inputs generalizing s with
  | nil => exact .inl h
  | cons i rest ih =>
    rcases ih h with hnext | hrest
    · rcases hstep s i k hnext with hold | huse
      · exact .inl hold
      · exact .inr (List.mem_filterMap.mpr ⟨i, List.mem_cons_self, huse⟩)
    · exact .inr (((List.sublist_cons_self i rest).filterMap uses).mem hrest)

/-- If moreover each key is used once, an input never finds its key there. -/
theorem along_fresh (hstep : ∀ s i k, holds (step s i).1 k → holds s k ∨ uses i = some k) {s : σ}
    {inputs : List ι} (honce : (inputs.filterMap uses).Nodup) (hinit : ∀ k, ¬ holds s k) :
    Along step (fun s i => ∀ k, uses i = some k → ¬ holds s k) s inputs := by
  rw [along_iff_forall]
  rintro before i rest rfl k huse hheld
  rw [List.filterMap_append, List.filterMap_cons_some huse] at honce
  rcases holds_run hstep hheld with hold | hused
  · exact hinit k hold
  · exact (List.nodup_append.mp honce).2.2 k hused k List.mem_cons_self rfl

end

section

variable {κ α : Type} {key : ι → κ} {view : σ → κ → α} {own : α → ι → α × ο} {P : σ → ι → Prop}

/-- A state with a part for each key. A step that meets `P` is a step of the part of its
key alone, and leaves the other parts as they are. -/
structure Keyed (step : σ → ι → σ × ο) (key : ι → κ) (view : σ → κ → α) (own : α → ι → α × ο)
    (P : σ → ι → Prop) : Prop where
  answer : ∀ s i, P s i → (step s i).2 = (own (view s (key i)) i).2
  part : ∀ s i, P s i → view (step s i).1 (key i) = (own (view s (key i)) i).1
  others : ∀ s i k, P s i → k ≠ key i → view (step s i).1 k = view s k

/-- The outputs for a key are those of its part alone, given its inputs alone. -/
theorem Keyed.collected_eq [DecidableEq κ] (h : Keyed step key view own P) {s : σ}
    {inputs : List ι} (halong : Along step P s inputs) (k : κ) :
    collected step (fun i o => if key i = k then some o else none) s inputs =
      outputs own (view s k) (inputs.filter fun i => key i = k) := by
  induction inputs generalizing s with
  | nil => rfl
  | cons i rest ih =>
    have hrest := ih halong.2
    by_cases hk : key i = k
    · have hpart := h.part s i halong.1
      have hanswer := h.answer s i halong.1
      rw [hk] at hpart hanswer
      rw [List.filter_cons_of_pos (by simpa using hk), collected, if_pos hk, hrest, hpart, hanswer]
      rfl
    · rw [List.filter_cons_of_neg (by simpa using hk), collected, if_neg hk, hrest,
        h.others s i k halong.1 (Ne.symm hk)]
      rfl

end

/-- An unconditional invariant holds in every reachable state. -/
theorem Reachable.invariant {I : σ → Prop} (hstep : ∀ s i, I s → I (step s i).1) {s t : σ}
    (hinit : I s) (hreach : Reachable step s t) : I t := by
  obtain ⟨inputs, rfl⟩ := hreach
  induction inputs generalizing s with
  | nil => exact hinit
  | cons i rest ih => exact ih (hstep s i hinit)

end Rust
