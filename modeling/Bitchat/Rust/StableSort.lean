import Mathlib.Data.List.Sort

/-!
# Sorting after every insertion

`Vec::sort_by` is stable. A vector that is sorted by falling rank whenever an item is pushed
holds the items by rank, and items of one rank in the order in which they came. A search from
the front then finds the highest match, and of several the one that came first.
-/
namespace Rust

variable {α κ : Type} [LinearOrder κ]

/-- `sort_by` with the highest rank in front. -/
def sortByRank (rank : α → κ) (l : List α) : List α :=
  l.mergeSort fun a b => rank b ≤ rank a

/-- The order holds the items by falling rank, those of one rank as they came. -/
structure RankOrder (rank : α → κ) (items order : List α) : Prop where
  perm : order.Perm items
  falling : order.Pairwise fun a b => rank b ≤ rank a
  ties : ∀ k, (order.filter fun a => rank a = k) = items.filter fun a => rank a = k

variable {rank : α → κ} {items order : List α}

theorem rankOrder_nil : RankOrder rank [] [] := ⟨.refl [], .nil, fun _ => rfl⟩

theorem perm_sortByRank (rank : α → κ) (l : List α) : (sortByRank rank l).Perm l :=
  List.mergeSort_perm _ _

/-- The comparison by rank, as `mergeSort` asks for it. -/
theorem rank_comparison (rank : α → κ) :
    (∀ a b c, decide (rank b ≤ rank a) = true → decide (rank c ≤ rank b) = true →
      decide (rank c ≤ rank a) = true) ∧
    ∀ a b, (decide (rank b ≤ rank a) || decide (rank a ≤ rank b)) = true := by
  simp only [Bool.or_eq_true, decide_eq_true_eq]
  exact ⟨fun a b c hab hbc => hbc.trans hab, fun a b => le_total _ _⟩

theorem falling_sortByRank (rank : α → κ) (l : List α) :
    (sortByRank rank l).Pairwise fun a b => rank b ≤ rank a := by
  obtain ⟨htrans, htotal⟩ := rank_comparison rank
  exact (List.pairwise_mergeSort htrans htotal l).imp of_decide_eq_true

/-- Items of one rank keep their order. -/
theorem filter_sortByRank (rank : α → κ) (l : List α) (k : κ) :
    ((sortByRank rank l).filter fun a => rank a = k) = l.filter fun a => rank a = k := by
  obtain ⟨htrans, htotal⟩ := rank_comparison rank
  have hties : (l.filter fun a => rank a = k).Pairwise fun a b =>
      decide (rank b ≤ rank a) = true := by
    refine List.pairwise_of_forall_mem_list fun a ha b hb => ?_
    have hrank : rank b = rank a := by
      rw [of_decide_eq_true (List.mem_filter.mp ha).2, of_decide_eq_true (List.mem_filter.mp hb).2]
    exact decide_eq_true (le_of_eq hrank)
  have hsub : (l.filter fun a => rank a = k).Sublist (sortByRank rank l) :=
    List.sublist_mergeSort htrans htotal hties List.filter_sublist
  have hkept := hsub.filter fun a => decide (rank a = k)
  rw [List.filter_filter] at hkept
  simp only [Bool.and_self] at hkept
  have hlength := ((perm_sortByRank rank l).filter fun a => decide (rank a = k)).length_eq
  exact (hkept.eq_of_length hlength.symm).symm

theorem rankOrder_sortByRank (rank : α → κ) (l : List α) :
    RankOrder rank l (sortByRank rank l) :=
  ⟨perm_sortByRank rank l, falling_sortByRank rank l, filter_sortByRank rank l⟩

/-- Sorting again after a push keeps the order. -/
theorem RankOrder.push (h : RankOrder rank items order) (a : α) :
    RankOrder rank (items ++ [a]) (sortByRank rank (order ++ [a])) := by
  refine ⟨?_, falling_sortByRank rank _, fun k => ?_⟩
  · exact (perm_sortByRank rank _).trans (h.perm.append_right [a])
  · rw [filter_sortByRank, List.filter_append, List.filter_append, h.ties k]

/-- A search that fails from the front fails on every item. -/
theorem RankOrder.find?_isSome (h : RankOrder rank items order) (p : α → Bool) :
    (order.find? p).isSome ↔ ∃ a ∈ items, p a = true := by
  rw [List.find?_isSome]
  simp only [h.perm.mem_iff]

/-- What is found has the highest rank of all matches, and came first of those of its rank. -/
theorem RankOrder.find?_eq_some (h : RankOrder rank items order) {p : α → Bool} {a : α}
    (hfind : order.find? p = some a) :
    ∃ earlier later, items = earlier ++ a :: later ∧
      (∀ b ∈ earlier, p b = true → rank b < rank a) ∧
      ∀ b ∈ later, p b = true → rank b ≤ rank a := by
  obtain ⟨hp, front, back, heq, hfront⟩ := List.find?_eq_some_iff_append.mp hfind
  have hhighest (b : α) (hb : b ∈ items) (hpb : p b = true) : rank b ≤ rank a := by
    have hmem := h.perm.mem_iff.mpr hb
    rw [heq, List.mem_append, List.mem_cons] at hmem
    rcases hmem with hmem | rfl | hmem
    · exact absurd hpb (by simpa using hfront b hmem)
    · exact le_rfl
    · have hfalling := h.falling
      rw [heq, List.pairwise_append, List.pairwise_cons] at hfalling
      exact hfalling.2.1.1 b hmem
  -- the first match of this rank is the same in both lists
  have hfirst : ∃ rest, (items.filter fun b => rank b = rank a).filter p = a :: rest := by
    rw [← h.ties (rank a), heq, List.filter_append, List.filter_append,
      List.filter_cons_of_pos (by simp), List.filter_cons_of_pos hp]
    refine ⟨_, List.append_eq_cons_iff.mpr (Or.inl ⟨?_, rfl⟩)⟩
    rw [List.filter_eq_nil_iff]
    intro b hb
    simpa using hfront b (List.mem_filter.mp hb).1
  obtain ⟨rest, hrest⟩ := hfirst
  rw [List.filter_filter, List.filter_eq_cons_iff] at hrest
  obtain ⟨earlier, later, hitems, hearlier, -, -⟩ := hrest
  refine ⟨earlier, later, hitems, fun b hb hpb => ?_, fun b hb hpb => ?_⟩
  · refine lt_of_le_of_ne (hhighest b (by simp [hitems, hb]) hpb) ?_
    intro hsame
    exact hearlier b hb (by simp [hpb, hsame])
  · exact hhighest b (by simp [hitems, hb]) hpb

/-- A search finds a good match exactly if every bad match has a good one in front of it. -/
theorem find?_forall_iff {l : List α} {p : α → Bool} {good : α → Prop} :
    (∀ a, l.find? p = some a → good a) ↔
      ∀ front a back, l = front ++ a :: back → p a = true → ¬ good a →
        ∃ b ∈ front, p b = true ∧ good b := by
  constructor
  · rintro h front a back rfl hp hbad
    cases hfront : front.find? p with
    | none =>
      have hfound : (front ++ a :: back).find? p = some a := by
        rw [List.find?_append, hfront, Option.none_or, List.find?_cons_of_pos hp]
      exact absurd (h a hfound) hbad
    | some b =>
      have hfound : (front ++ a :: back).find? p = some b := by
        rw [List.find?_append, hfront, Option.some_or]
      exact ⟨b, List.mem_of_find?_eq_some hfront, List.find?_some hfront, h b hfound⟩
  · intro h a hfind
    obtain ⟨hp, front, back, heq, hfront⟩ := List.find?_eq_some_iff_append.mp hfind
    by_contra hbad
    obtain ⟨b, hb, hpb, -⟩ := h front a back heq hp hbad
    exact absurd hpb (by simpa using hfront b hb)

end Rust
