import Mathlib.Data.Finset.Basic
import Mathlib.Data.Finset.Dedup

/-!
# Writing without comparing

Inputs that write values under keys, each over what is there. The values at the
end depend on the order of a set of inputs unless all that write under a key
write the same.
-/
namespace Rust

namespace Overwrites

variable {ι κ α β : Type} (effect : ι → κ → Option α)

/-- What is under each key after the inputs wrote, one after the other. -/
def written (f : κ → Option α) (inputs : List ι) (k : κ) : Option α :=
  inputs.foldl (fun value i => (effect i k).or value) (f k)

/-- The inputs of a finite set, in some order and with duplicates. -/
def Enumerates (S : Finset ι) (inputs : List ι) : Prop := ∀ i, i ∈ inputs ↔ i ∈ S

/-- The inputs lead to the same values in every order. -/
def OrderFree (f : κ → Option α) (S : Finset ι) : Prop :=
  ∀ xs ys, Enumerates S xs → Enumerates S ys → ∀ k, written effect f xs k = written effect f ys k

/-- No input takes the rank of a value down, in any order. -/
def Rising [LE β] (rank : α → β) (f : κ → Option α) (S : Finset ι) : Prop :=
  ∀ before i rest, Enumerates S (before ++ i :: rest) → ∀ k a, written effect f before k = some a →
    ∃ b, written effect f (before ++ [i]) k = some b ∧ rank a ≤ rank b

/-- All inputs that write under a key write the same. -/
def Agree (S : Finset ι) : Prop :=
  ∀ i ∈ S, ∀ j ∈ S, ∀ k a b, effect i k = some a → effect j k = some b → a = b

/-- No input writes a value of a lower rank than the one at first. -/
def Fresh [LE β] (rank : α → β) (f : κ → Option α) (S : Finset ι) : Prop :=
  ∀ i ∈ S, ∀ k a b, f k = some a → effect i k = some b → rank a ≤ rank b

variable {effect} {f : κ → Option α} {S : Finset ι} {xs : List ι} {k : κ} {a : α}

@[simp] theorem written_nil (k : κ) : written effect f [] k = f k := rfl

@[simp] theorem written_concat (xs : List ι) (i : ι) (k : κ) :
    written effect f (xs ++ [i]) k = (effect i k).or (written effect f xs k) := by
  simp [written]

variable (effect f) in
/-- A value under a key was there at first or comes from an input. -/
theorem written_cases (xs : List ι) (k : κ) :
    written effect f xs k = f k ∧ (∀ i ∈ xs, effect i k = none) ∨
      ∃ i ∈ xs, ∃ a, effect i k = some a ∧ written effect f xs k = some a := by
  induction xs using List.reverseRecOn with
  | nil => simp
  | append_singleton xs i ih =>
    rw [written_concat]
    cases hi : effect i k with
    | some a => exact .inr ⟨i, by simp, a, hi, rfl⟩
    | none =>
      rw [Option.none_or]
      rcases ih with ⟨same, silent⟩ | ⟨j, hj, a, hja, value⟩
      · refine .inl ⟨same, fun j hj => ?_⟩
        rcases List.mem_append.mp hj with earlier | last
        · exact silent j earlier
        · rwa [List.mem_singleton.mp last]
      · exact .inr ⟨j, List.mem_append_left _ hj, a, hja, value⟩

/-- Where inputs agree, each of them decides the value. -/
theorem written_of_agree (agree : Agree effect S) (within : ∀ i ∈ xs, i ∈ S) {i : ι} (hi : i ∈ xs)
    (h : effect i k = some a) : written effect f xs k = some a := by
  rcases written_cases effect f xs k with ⟨-, silent⟩ | ⟨j, hj, b, hb, value⟩
  · rw [silent i hi] at h
    cases h
  · rw [value, agree i (within i hi) j (within j hj) k a b h hb]

theorem enumerates_cons {i : ι} (hi : i ∈ S) : Enumerates S (i :: S.toList) := by
  intro j
  rw [List.mem_cons, Finset.mem_toList]
  constructor
  · rintro (rfl | hj)
    · exact hi
    · exact hj
  · exact Or.inr

theorem enumerates_concat {i : ι} (hi : i ∈ S) : Enumerates S (S.toList ++ [i]) := by
  intro j
  rw [List.mem_append, or_comm, List.mem_singleton, ← List.mem_cons]
  exact enumerates_cons hi j

theorem orderFree_of_agree (agree : Agree effect S) : OrderFree effect f S := by
  intro xs ys hxs hys k
  rcases written_cases effect f xs k with ⟨same, silent⟩ | ⟨i, hi, a, ha, value⟩
  · rcases written_cases effect f ys k with ⟨same', -⟩ | ⟨j, hj, b, hb, -⟩
    · rw [same, same']
    · rw [silent j ((hxs j).mpr ((hys j).mp hj))] at hb
      cases hb
  · rw [value, written_of_agree agree (fun j hj => (hys j).mp hj)
      ((hys i).mpr ((hxs i).mp hi)) ha]

theorem agree_of_orderFree (h : OrderFree effect f S) : Agree effect S := by
  intro i hi j hj k a b ha hb
  have same := h _ _ (enumerates_concat hi) (enumerates_concat hj) k
  rw [written_concat, written_concat, ha, hb] at same
  exact Option.some.inj same

variable [Preorder β] {rank : α → β}

theorem rising_of_agree (agree : Agree effect S) (fresh : Fresh effect rank f S) :
    Rising effect rank f S := by
  intro before i rest henum k a ha
  have within (j : ι) (hj : j ∈ before) : j ∈ S := (henum j).mp (List.mem_append_left _ hj)
  have hi : i ∈ S := (henum i).mp (by simp)
  rw [written_concat]
  cases hib : effect i k with
  | none => exact ⟨a, by rw [Option.none_or, ha], le_rfl⟩
  | some b =>
    refine ⟨b, rfl, ?_⟩
    rcases written_cases effect f before k with ⟨same, -⟩ | ⟨j, hj, c, hc, value⟩
    · exact fresh i hi k a b (same ▸ ha) hib
    · have hcb := agree j (within j hj) i hi k c b hc hib
      rw [value] at ha
      rw [← Option.some.inj ha, hcb]

theorem fresh_of_rising (h : Rising effect rank f S) : Fresh effect rank f S := by
  intro i hi k a b ha hb
  obtain ⟨c, hc, rises⟩ := h [] i S.toList (enumerates_cons hi) k a ha
  rw [written_concat, hb] at hc
  rwa [Option.some.inj hc]

variable (effect rank f S) in
/-- Overwriting is order-free and takes no rank down exactly if the inputs agree and none of
them is older than what is there. -/
theorem orderFree_and_rising_iff :
    OrderFree effect f S ∧ Rising effect rank f S ↔ Agree effect S ∧ Fresh effect rank f S :=
  ⟨fun h => ⟨agree_of_orderFree h.1, fresh_of_rising h.2⟩,
    fun h => ⟨orderFree_of_agree h.1, rising_of_agree h.1 h.2⟩⟩

end Overwrites

end Rust
