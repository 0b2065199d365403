import Mathlib.Data.List.Dedup
import Mathlib.Data.List.DropRight
import Mathlib.Data.List.Perm.Basic

/-!
# Recency

The keys of a list of uses in the order of their latest use: `List.dedup` keeps the last
one of equal elements. A list of keys that is in this order stays in it when the key that
is used moves to the back.
-/
namespace Rust

variable {κ : Type} [DecidableEq κ]

def moveToBack (order : List κ) (k : κ) : List κ := order.erase k ++ [k]

theorem mem_moveToBack {order : List κ} {k k' : κ} :
    k' ∈ moveToBack order k ↔ k' ∈ order ∨ k' = k := by
  rw [moveToBack, List.mem_append, List.mem_singleton]
  by_cases hk : k' = k
  · simp [hk]
  · rw [List.mem_erase_of_ne hk]

theorem nodup_moveToBack {order : List κ} (h : order.Nodup) (k : κ) :
    (moveToBack order k).Nodup := by
  refine List.nodup_append.mpr ⟨h.erase k, List.nodup_singleton k, ?_⟩
  rintro k' hk' _ hlast rfl
  rw [List.mem_singleton.mp hlast] at hk'
  exact h.not_mem_erase hk'

/-- A new key that is put behind the others stays there. -/
theorem moveToBack_concat {order : List κ} {k : κ} (hnew : k ∉ order) :
    moveToBack (order ++ [k]) k = moveToBack order k := by
  rw [moveToBack, moveToBack, List.erase_append_right _ hnew, List.erase_of_not_mem hnew,
    List.erase_cons_head, List.append_nil]

omit [DecidableEq κ] in
theorem concat_eq_cons_iff {order : List κ} {k : κ} :
    order ++ [k] = k :: order ↔ ∀ k' ∈ order, k' = k := by
  induction order with
  | nil => simp
  | cons a rest ih =>
    rw [List.cons_append, List.cons.injEq, List.forall_mem_cons]
    refine and_congr_right ?_
    rintro rfl
    exact ih

/-- A listed key stays where it is exactly if no other key stands behind it. -/
theorem moveToBack_eq_self_iff {order : List κ} {k : κ} (hk : k ∈ order) :
    moveToBack order k = order ↔
      ∀ older later, order = older ++ k :: later → ∀ k' ∈ later, k' = k := by
  induction order with
  | nil => exact absurd hk List.not_mem_nil
  | cons a rest ih =>
    by_cases ha : a = k
    · subst ha
      rw [moveToBack, List.erase_cons_head]
      constructor
      · intro hsame older later heq k' hk'
        have hmem : k' ∈ a :: rest := by
          rw [heq]
          exact List.mem_append_right _ (List.mem_cons_of_mem _ hk')
        rcases List.mem_cons.mp hmem with rfl | hrest
        · rfl
        · exact concat_eq_cons_iff.mp hsame k' hrest
      · intro h
        exact concat_eq_cons_iff.mpr (h [] rest rfl)
    · have hrest : k ∈ rest := (List.mem_cons.mp hk).resolve_left (Ne.symm ha)
      rw [moveToBack, List.erase_cons_tail (by simpa using ha), List.cons_append]
      rw [List.cons.injEq, and_iff_right rfl]
      refine (ih hrest).trans ?_
      constructor
      · intro h older later heq
        cases older with
        | nil => exact absurd (List.cons.inj heq).1 ha
        | cons b older => exact h older later (List.cons.inj heq).2
      · intro h older later heq
        exact h (a :: older) later (congrArg (a :: ·) heq)

theorem dedup_concat (uses : List κ) (k : κ) :
    (uses ++ [k]).dedup = moveToBack uses.dedup k := by
  induction uses with
  | nil => rfl
  | cons a uses ih =>
    rw [List.cons_append]
    by_cases hlater : a ∈ uses
    · rw [List.dedup_cons_of_mem (List.mem_append_left _ hlater), List.dedup_cons_of_mem hlater, ih]
    · by_cases hk : a = k
      · subst hk
        have herase : uses.dedup.erase a = uses.dedup :=
          List.erase_of_not_mem fun h => hlater (List.mem_dedup.mp h)
        rw [List.dedup_cons_of_mem (by simp), List.dedup_cons_of_notMem hlater, ih, moveToBack,
          moveToBack, herase, List.erase_cons_head]
      · have hnot : a ∉ uses ++ [k] := by simp [hlater, hk]
        rw [List.dedup_cons_of_notMem hnot, List.dedup_cons_of_notMem hlater, ih, moveToBack,
          moveToBack, List.erase_cons_tail (by simpa using hk), List.cons_append]

/-- The keys of the list stand in the order of their latest use. -/
def ByLatestUse (order uses : List κ) : Prop := order.Sublist uses.dedup

namespace ByLatestUse

variable {order order' uses : List κ} {k k' : κ}

theorem sublist (h : ByLatestUse order uses) (hsub : order'.Sublist order) :
    ByLatestUse order' uses := hsub.trans h

theorem use (h : ByLatestUse order uses) (k : κ) :
    ByLatestUse (moveToBack order k) (uses ++ [k]) := by
  rw [ByLatestUse, dedup_concat]
  exact (h.erase k).append (List.Sublist.refl [k])

/-- A key that was not used just now must not move, unless it is at the back already. -/
theorem moveToBack_iff (h : ByLatestUse order uses) (hk : k ∈ order) :
    ByLatestUse (moveToBack order k) uses ↔ order.getLast? = some k := by
  have hperm : (moveToBack order k).Perm order := by
    have hcons := List.perm_cons_erase hk
    exact (List.perm_append_singleton k (order.erase k)).trans hcons.symm
  have hnodup := List.nodup_dedup uses
  have hend : (moveToBack order k).getLast? = some k := by
    rw [moveToBack, List.getLast?_concat]
  constructor
  · intro hmoved
    have hsame : moveToBack order k = order :=
      (hnodup.perm_iff_eq_of_sublist hmoved h).mp hperm
    rwa [hsame] at hend
  · intro hlast
    obtain ⟨front, hfront⟩ := List.getLast?_eq_some_iff.mp hlast
    have horder : order.Nodup := h.nodup hnodup
    have hsame : moveToBack order k = order := by
      rw [hfront] at horder ⊢
      have hnew : k ∉ front := by
        intro hmem
        exact (List.nodup_append.mp horder).2.2 k hmem k List.mem_cons_self rfl
      rw [moveToBack, List.erase_append_right _ hnew, List.erase_cons_head, List.append_nil]
    rw [hsame]
    exact h

/-- The first key was used before the others. -/
theorem first (h : ByLatestUse (k :: order) uses) (hk' : k' ∈ order) :
    ByLatestUse [k, k'] uses :=
  h.sublist ((List.singleton_sublist.mpr hk').cons_cons k)

end ByLatestUse

/-! ## Logs -/

/-- `log.push(entry); if log.len() > capacity { log.remove(0); }`. -/
def pushCapped {α : Type} (capacity : ℕ) (log : List α) (entry : α) : List α :=
  let pushed := log ++ [entry]
  if capacity < pushed.length then pushed.tail else pushed

/-- A log that holds the last entries goes on doing so. -/
theorem pushCapped_rtake {α : Type} {capacity : ℕ} (positive : 0 < capacity) (entries : List α)
    (entry : α) :
    pushCapped capacity (entries.rtake capacity) entry = (entries ++ [entry]).rtake capacity := by
  obtain ⟨n, rfl⟩ : ∃ n, capacity = n + 1 := ⟨capacity - 1, by omega⟩
  have kept : (entries.rtake (n + 1)).length = min entries.length (n + 1) := by
    rw [List.rtake, List.length_drop]
    omega
  rw [List.rtake_concat_succ, pushCapped]
  simp only [List.length_append, List.length_singleton, kept]
  split_ifs with full
  · have long : n + 1 ≤ entries.length := by omega
    rw [List.tail_append_of_ne_nil (by rw [← List.length_pos_iff, kept]; omega), List.rtake,
      List.rtake, List.tail_drop]
    congr 2
    omega
  · have short : entries.length ≤ n := by omega
    rw [List.rtake, List.rtake, Nat.sub_eq_zero_of_le short, Nat.sub_eq_zero_of_le (by omega)]

end Rust
