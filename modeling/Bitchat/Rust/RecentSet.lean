import Bitchat.Rust.Recency
import Mathlib.Data.Finset.Card
import Mathlib.Data.List.DropRight

/-!
# Sets of the most recently used keys

A set that holds the keys that were used last, and no others, keeps doing so when the key
that is used is added. When it is cut down to a size, it does so if none of the keys that
were used last is taken out.
-/
namespace Rust

variable {κ : Type} [DecidableEq κ]

/-- The last `m` keys by their latest use. -/
def mostRecent (m : ℕ) (uses : List κ) : List κ := uses.dedup.rtake m

theorem mostRecent_suffix (m : ℕ) (uses : List κ) : mostRecent m uses <:+ uses.dedup :=
  List.drop_suffix _ _

theorem nodup_mostRecent (m : ℕ) (uses : List κ) : (mostRecent m uses).Nodup :=
  (mostRecent_suffix m uses).sublist.nodup (List.nodup_dedup uses)

theorem mostRecent_mono {m n : ℕ} (hle : m ≤ n) (uses : List κ) :
    mostRecent m uses ⊆ mostRecent n uses :=
  (List.drop_suffix_drop_left uses.dedup (Nat.sub_le_sub_left hle _)).subset

/-- The set holds the keys that were used last, as many as it has. -/
def HoldsMostRecent (kept : Finset κ) (uses : List κ) : Prop :=
  ∃ last, last <:+ uses.dedup ∧ last.toFinset = kept

namespace HoldsMostRecent

variable {kept dropped : Finset κ} {uses : List κ} {k : κ} {m : ℕ}

theorem use (h : HoldsMostRecent kept uses) (k : κ) :
    HoldsMostRecent (insert k kept) (uses ++ [k]) := by
  obtain ⟨last, ⟨older, hsplit⟩, rfl⟩ := h
  refine ⟨moveToBack last k, ?_, ?_⟩
  · have hnodup : (older ++ last).Nodup := hsplit ▸ List.nodup_dedup uses
    rw [dedup_concat, ← hsplit]
    by_cases hk : k ∈ older
    · have hlast : k ∉ last := fun hmem => (List.disjoint_of_nodup_append hnodup) hk hmem
      refine ⟨older.erase k, ?_⟩
      rw [moveToBack, moveToBack, List.erase_append_left _ hk, List.erase_of_not_mem hlast,
        List.append_assoc]
    · refine ⟨older, ?_⟩
      rw [moveToBack, moveToBack, List.erase_append_right _ hk, List.append_assoc]
  · ext k'
    rw [List.mem_toFinset, mem_moveToBack, Finset.mem_insert, List.mem_toFinset, or_comm]

/-- The keys held are the last ones, as many as there are. -/
theorem eq_mostRecent (h : HoldsMostRecent kept uses) :
    kept = (mostRecent kept.card uses).toFinset := by
  obtain ⟨last, hsuffix, rfl⟩ := h
  have hnodup : last.Nodup := hsuffix.sublist.nodup (List.nodup_dedup uses)
  have hlast : last = uses.dedup.rtake last.length := List.suffix_iff_eq_drop.mp hsuffix
  rw [List.toFinset_card_of_nodup hnodup, mostRecent, ← hlast]

/-- Within the limit, all that is held was used recently. -/
theorem subset_mostRecent (h : HoldsMostRecent kept uses) (hle : kept.card ≤ m) :
    kept ⊆ (mostRecent m uses).toFinset := by
  rw [h.eq_mostRecent]
  intro k hk
  rw [List.mem_toFinset] at hk ⊢
  exact mostRecent_mono hle uses hk

/-- Above the limit, all that was used recently is held. -/
theorem mostRecent_subset (h : HoldsMostRecent kept uses) (hle : m ≤ kept.card) :
    (mostRecent m uses).toFinset ⊆ kept := by
  rw [h.eq_mostRecent]
  intro k hk
  rw [List.mem_toFinset] at hk ⊢
  exact mostRecent_mono hle uses hk

/-- What is left of a set above the limit are the keys that were used last, if none of them
is dropped. -/
theorem sdiff_eq_mostRecent (h : HoldsMostRecent kept uses) (hlt : m < kept.card)
    (hsub : dropped ⊆ kept) (hcard : dropped.card = kept.card - m)
    (hold : ∀ k ∈ dropped, k ∉ mostRecent m uses) :
    kept \ dropped = (mostRecent m uses).toFinset := by
  have hwithin : (mostRecent m uses).toFinset ⊆ kept \ dropped := by
    intro k hk
    refine Finset.mem_sdiff.mpr ⟨h.mostRecent_subset hlt.le hk, fun hdropped => ?_⟩
    exact hold k hdropped (List.mem_toFinset.mp hk)
  have hlong : kept.card ≤ uses.dedup.length := by
    obtain ⟨last, hsuffix, rfl⟩ := h
    exact last.toFinset_card_le.trans hsuffix.length_le
  have hsize : (mostRecent m uses).toFinset.card = m := by
    rw [List.toFinset_card_of_nodup (nodup_mostRecent m uses), mostRecent, List.rtake,
      List.length_drop]
    omega
  refine (Finset.eq_of_subset_of_card_le hwithin ?_).symm
  rw [Finset.card_sdiff_of_subset hsub, hcard, hsize]
  omega

/-- What is left of a set that is cut down to a size are those of its keys that were used
last, if none of them is dropped. -/
theorem sdiff_eq_inter (h : HoldsMostRecent kept uses) (hsub : dropped ⊆ kept)
    (hcard : dropped.card = kept.card - m) (hold : ∀ k ∈ dropped, k ∉ mostRecent m uses) :
    kept \ dropped = kept ∩ (mostRecent m uses).toFinset := by
  rcases Nat.lt_or_ge m kept.card with hover | hwithin
  · rw [h.sdiff_eq_mostRecent hover hsub hcard hold,
      Finset.inter_eq_right.mpr (h.mostRecent_subset hover.le)]
  · rw [Nat.sub_eq_zero_of_le hwithin, Finset.card_eq_zero] at hcard
    rw [hcard, Finset.sdiff_empty, Finset.inter_eq_left.mpr (h.subset_mostRecent hwithin)]

theorem inter_mostRecent (h : HoldsMostRecent kept uses) (m : ℕ) :
    HoldsMostRecent (kept ∩ (mostRecent m uses).toFinset) uses := by
  rcases le_total kept.card m with hwithin | hover
  · rw [Finset.inter_eq_left.mpr (h.subset_mostRecent hwithin)]
    exact h
  · rw [Finset.inter_eq_right.mpr (h.mostRecent_subset hover)]
    exact ⟨_, mostRecent_suffix m uses, rfl⟩

end HoldsMostRecent

end Rust
