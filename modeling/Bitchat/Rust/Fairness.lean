import Bitchat.Rust.Run

/-!
# Fair rounds

Several parties act in turn, in any order. A rank measures the work that is left. No
action adds to it, and as long as there is work some party's action makes it less,
whenever its turn comes. Then rounds in which each of these parties has a turn get
the work done.
-/
namespace Rust

variable {σ ι ο : Type}

/-- What is asked of the actions: under an invariant, an allowed action lowers the rank or
leaves the work `same`, and some kind of action in `helpers` lowers it, now and for as long
as the work is the same. -/
structure Works (step : σ → ι → σ × ο) (I : σ → Prop) (allowed : ι → Prop)
    (helpers : List (ι → Prop)) (done : σ → Prop) (rank : σ → ℕ) (same : σ → σ → Prop) : Prop where
  keeps : ∀ s i, I s → allowed i → I (step s i).1
  refl : ∀ s, same s s
  trans : ∀ s t u, same s t → same t u → same s u
  rank_eq : ∀ s t, same s t → rank t = rank s
  lowers : ∀ s i, I s → allowed i → ¬ done s → rank (step s i).1 < rank s ∨ same s (step s i).1
  helps : ∀ s, I s → ¬ done s → ∃ kind ∈ helpers, ∀ i, kind i → ∀ t, I t → same s t →
    rank (step t i).1 < rank t

/-- Each kind of helper has a turn, and only allowed actions happen. -/
def FairRound (allowed : ι → Prop) (helpers : List (ι → Prop)) (round : List ι) : Prop :=
  (∀ kind ∈ helpers, ∃ i ∈ round, kind i) ∧ ∀ i ∈ round, allowed i

/-- At some point of the run the work is done. -/
def GetsDone (step : σ → ι → σ × ο) (done : σ → Prop) (s : σ) (inputs : List ι) : Prop :=
  ∃ before rest, inputs = before ++ rest ∧ done (run step s before)

variable {step : σ → ι → σ × ο} {I : σ → Prop} {allowed : ι → Prop}
  {helpers : List (ι → Prop)} {done : σ → Prop} {rank : σ → ℕ} {same : σ → σ → Prop} {s : σ}
  {xs ys : List ι}

theorem GetsDone.append_right (h : GetsDone step done s xs) :
    GetsDone step done s (xs ++ ys) := by
  obtain ⟨before, rest, rfl, hdone⟩ := h
  exact ⟨before, rest ++ ys, by simp, hdone⟩

theorem GetsDone.append_left (h : GetsDone step done (run step s xs) ys) :
    GetsDone step done s (xs ++ ys) := by
  obtain ⟨before, rest, rfl, hdone⟩ := h
  exact ⟨xs ++ before, rest, by simp, by rwa [run_append]⟩

theorem getsDone_nil (h : done s) : GetsDone step done s xs := ⟨[], xs, rfl, h⟩

namespace Works

variable (w : Works step I allowed helpers done rank same)
include w

theorem keeps_run (hI : I s) (xs : List ι) (hallowed : ∀ i ∈ xs, allowed i) : I (run step s xs) :=
  run_invariant (P := fun _ i => allowed i) w.keeps hI (along_of_forall hallowed)

/-- Without getting done, a run lowers the rank or leaves the work the same. -/
theorem lowers_run (hI : I s) (xs : List ι) (hallowed : ∀ i ∈ xs, allowed i)
    (hnot : ¬ GetsDone step done s xs) :
    rank (run step s xs) < rank s ∨ same s (run step s xs) := by
  induction xs generalizing s with
  | nil => exact .inr (w.refl s)
  | cons i rest ih =>
    have here := hallowed i List.mem_cons_self
    have undone : ¬ done s := fun h => hnot (getsDone_nil h)
    have later : ¬ GetsDone step done (run step s [i]) rest := fun h => hnot h.append_left
    have tail := ih (w.keeps s i hI here) (fun j hj => hallowed j (List.mem_cons_of_mem i hj)) later
    rw [run_cons]
    rcases w.lowers s i hI here undone with hless | hsame
    · rcases tail with hless' | hsame'
      · exact .inl (Nat.lt_trans hless' hless)
      · exact .inl (by rw [w.rank_eq _ _ hsame']; exact hless)
    · rcases tail with hless' | hsame'
      · exact .inl (by rw [← w.rank_eq _ _ hsame]; exact hless')
      · exact .inr (w.trans _ _ _ hsame hsame')

/-- A fair round gets the work done or leaves less of it. -/
theorem lowers_round (hI : I s) (fair : FairRound allowed helpers xs)
    (hnot : ¬ GetsDone step done s xs) : rank (run step s xs) < rank s := by
  obtain ⟨kind, hkind, hhelps⟩ := w.helps s hI fun h => hnot (getsDone_nil h)
  obtain ⟨i, hi, hikind⟩ := fair.1 kind hkind
  obtain ⟨before, after, rfl⟩ := List.append_of_mem hi
  have hallowed := fair.2
  have notBefore : ¬ GetsDone step done s before := fun h => hnot h.append_right
  have notAfter : ¬ GetsDone step done (run step s (before ++ [i])) after := by
    intro h
    apply hnot
    have later := h.append_left
    rwa [List.append_assoc, List.singleton_append] at later
  have turn : rank (run step s (before ++ [i])) < rank s := by
    rw [run_concat]
    have beforehand := w.lowers_run hI before (fun j hj => hallowed j (by simp [hj])) notBefore
    rcases beforehand with hless | hsame
    · have hundone : ¬ done (run step s before) := by
        intro h
        exact hnot ⟨before, i :: after, rfl, h⟩
      have hmid := w.keeps_run hI before fun j hj => hallowed j (by simp [hj])
      rcases w.lowers _ i hmid (hallowed i (by simp)) hundone with hless' | hsame'
      · exact Nat.lt_trans hless' hless
      · rw [w.rank_eq _ _ hsame']
        exact hless
    · have hmid := w.keeps_run hI before fun j hj => hallowed j (by simp [hj])
      calc rank (step (run step s before) i).1
          < rank (run step s before) := hhelps i hikind _ hmid hsame
        _ = rank s := w.rank_eq _ _ hsame
  have hI' : I (run step s (before ++ [i])) :=
    w.keeps_run hI (before ++ [i]) fun j hj => hallowed j (by
      rcases List.mem_append.mp hj with hj | hj
      · simp [hj]
      · simp [List.mem_singleton.mp hj])
  have rest := w.lowers_run hI' after (fun j hj => hallowed j (by simp [hj])) notAfter
  have split : run step s (before ++ i :: after) = run step (run step s (before ++ [i])) after := by
    rw [← run_append, List.append_assoc, List.singleton_append]
  rw [split]
  rcases rest with hless | hsame
  · exact Nat.lt_trans hless turn
  · rw [w.rank_eq _ _ hsame]
    exact turn

/-- As many fair rounds as there is work get it done. -/
theorem getsDone_of_fair {rounds : List (List ι)} (hI : I s)
    (fair : ∀ round ∈ rounds, FairRound allowed helpers round) (enough : rank s < rounds.length) :
    GetsDone step done s rounds.flatten := by
  induction rounds generalizing s with
  | nil => simp at enough
  | cons round rounds ih =>
    rw [List.flatten_cons]
    by_cases hround : GetsDone step done s round
    · exact hround.append_right
    · have here := fair round List.mem_cons_self
      have less := w.lowers_round hI here hround
      apply GetsDone.append_left
      apply ih (w.keeps_run hI round here.2) (fun r hr => fair r (List.mem_cons_of_mem round hr))
      simp only [List.length_cons] at enough
      omega

end Works

end Rust
