import Bitchat.Rust.Run
import Mathlib.Algebra.BigOperators.Group.Multiset.Basic
import Mathlib.Data.Multiset.DershowitzManna
import Mathlib.Logic.Relation

/-!
# Deliveries of copies in flight

Some copies of messages are in flight, and any one of them is delivered next. The
delivery of a copy puts other copies in flight, which only depend on the copy.
When no copy is left, those that were delivered are the descendants of the first
ones, whatever the order was. When descendants have a smaller rank, no sequence
of deliveries goes on for ever.
-/
namespace Rust

structure InFlight (κ : Type) where
  copies : Multiset κ
  delivered : List κ

namespace InFlight

variable {κ : Type} [DecidableEq κ] (next : κ → Multiset κ)

def start (copies : Multiset κ) : InFlight κ := ⟨copies, []⟩

/-- Delivers a copy. What is not in flight cannot be delivered. -/
def deliver (s : InFlight κ) (c : κ) : InFlight κ :=
  if c ∈ s.copies then ⟨s.copies.erase c + next c, c :: s.delivered⟩ else s

def step (s : InFlight κ) (c : κ) : InFlight κ × Unit := (s.deliver next c, ())

/-- Each of the deliveries is one of a copy in flight. -/
def Delivers (s : InFlight κ) (order : List κ) : Prop :=
  Along (step next) (fun s c => c ∈ s.copies) s order

/-- `d` is put in flight by the delivery of `c`. -/
def Descends (c d : κ) : Prop := d ∈ next c

variable {next}

theorem mem_copies_deliver {s : InFlight κ} {c d : κ} (h : d ∈ (s.deliver next c).copies) :
    d ∈ s.copies ∨ (c ∈ s.copies ∧ d ∈ next c) := by
  unfold deliver at h
  split_ifs at h with hc
  · rcases Multiset.mem_add.mp h with hold | hnew
    · exact .inl (Multiset.mem_of_mem_erase hold)
    · exact .inr ⟨hc, hnew⟩
  · exact .inl h

theorem mem_delivered_deliver {s : InFlight κ} {c d : κ} :
    d ∈ (s.deliver next c).delivered ↔ d ∈ s.delivered ∨ (c ∈ s.copies ∧ d = c) := by
  unfold deliver
  split_ifs with hc
  · simp [hc, or_comm]
  · simp [hc]

/-- Only the delivered copy leaves. -/
theorem mem_or_delivered {s : InFlight κ} {c d : κ} (h : d ∈ s.copies ∨ d ∈ s.delivered) :
    d ∈ (s.deliver next c).copies ∨ d ∈ (s.deliver next c).delivered := by
  unfold deliver
  split_ifs with hc
  · by_cases hd : d = c
    · exact .inr (by simp [hd])
    · rcases h with hold | hold
      · exact .inl (Multiset.mem_add.mpr (.inl ((Multiset.mem_erase_of_ne hd).mpr hold)))
      · exact .inr (List.mem_cons_of_mem c hold)
  · exact h

/-- Every copy stems from the first ones. -/
def StemsFrom (next : κ → Multiset κ) (first : Multiset κ) (s : InFlight κ) : Prop :=
  ∀ d, d ∈ s.copies ∨ d ∈ s.delivered →
    ∃ c ∈ first, Relation.ReflTransGen (Descends next) c d

/-- The first copies and what descends from a delivered one have not been lost. -/
structure Complete (next : κ → Multiset κ) (first : Multiset κ) (s : InFlight κ) : Prop where
  first_kept : ∀ c ∈ first, c ∈ s.copies ∨ c ∈ s.delivered
  next_kept : ∀ c ∈ s.delivered, ∀ d ∈ next c, d ∈ s.copies ∨ d ∈ s.delivered

theorem stemsFrom_deliver {first : Multiset κ} {s : InFlight κ} (h : StemsFrom next first s)
    (c : κ) : StemsFrom next first (s.deliver next c) := by
  intro d hd
  rcases hd with hd | hd
  · rcases mem_copies_deliver hd with hold | ⟨hc, hnew⟩
    · exact h d (.inl hold)
    · obtain ⟨a, ha, path⟩ := h c (.inl hc)
      exact ⟨a, ha, path.tail hnew⟩
  · rcases mem_delivered_deliver.mp hd with hold | ⟨hc, rfl⟩
    · exact h d (.inr hold)
    · exact h d (.inl hc)

theorem complete_deliver {first : Multiset κ} {s : InFlight κ} (h : Complete next first s)
    (c : κ) : Complete next first (s.deliver next c) where
  first_kept d hd := mem_or_delivered (h.first_kept d hd)
  next_kept := by
    intro d hd e he
    rcases mem_delivered_deliver.mp hd with hold | ⟨hc, rfl⟩
    · exact mem_or_delivered (h.next_kept d hold e he)
    · left
      unfold deliver
      rw [if_pos hc]
      exact Multiset.mem_add.mpr (.inr he)

theorem stemsFrom_run (first : Multiset κ) (order : List κ) :
    StemsFrom next first (run (step next) (start first) order) := by
  refine Reachable.invariant (I := StemsFrom next first) (fun s c h => stemsFrom_deliver h c) ?_
    ⟨order, rfl⟩
  intro d hd
  rcases hd with hd | hd
  · exact ⟨d, hd, .refl⟩
  · cases hd

variable (next) in
theorem complete_run (first : Multiset κ) (order : List κ) :
    Complete next first (run (step next) (start first) order) := by
  refine Reachable.invariant (I := Complete next first) (fun s c h => complete_deliver h c) ?_
    ⟨order, rfl⟩
  constructor
  · intro c hc
    exact .inl hc
  · intro c hc
    cases hc

/-- When nothing is left in flight, the descendants of the first copies are what was
delivered. -/
theorem mem_delivered_iff {first : Multiset κ} {order : List κ}
    (done : (run (step next) (start first) order).copies = 0) {d : κ} :
    d ∈ (run (step next) (start first) order).delivered ↔
      ∃ c ∈ first, Relation.ReflTransGen (Descends next) c d := by
  have complete := complete_run next first order
  have landed {e : κ} (he : e ∈ (run (step next) (start first) order).copies ∨
      e ∈ (run (step next) (start first) order).delivered) :
      e ∈ (run (step next) (start first) order).delivered := by
    rcases he with he | he
    · rw [done] at he
      exact absurd he (Multiset.notMem_zero e)
    · exact he
  constructor
  · intro hd
    exact stemsFrom_run first order d (.inr hd)
  · rintro ⟨c, hc, path⟩
    induction path with
    | refl => exact landed (complete.first_kept c hc)
    | tail _ last ih => exact landed (complete.next_kept _ ih _ last)

section

variable {α : Type} [Preorder α] [WellFoundedLT α] {rank : κ → α}

/-- Deliveries end: each replaces a copy by copies of smaller rank. -/
theorem deliver_wellFounded (smaller : ∀ c, ∀ d ∈ next c, rank d < rank c) :
    WellFounded fun t s : InFlight κ => ∃ c ∈ s.copies, t = s.deliver next c := by
  refine Subrelation.wf ?_ (InvImage.wf (fun s : InFlight κ => s.copies.map rank)
    Multiset.wellFounded_isDershowitzMannaLT)
  intro t s h
  obtain ⟨c, hc, rfl⟩ := h
  refine ⟨(s.copies.erase c).map rank, (next c).map rank, {rank c}, ?_, ?_, ?_, ?_⟩
  · exact Multiset.singleton_ne_zero _
  · show Multiset.map rank (s.deliver next c).copies = _
    rw [deliver, if_pos hc, Multiset.map_add]
  · show Multiset.map rank s.copies = _
    rw [← Multiset.map_singleton, ← Multiset.map_add, add_comm, Multiset.singleton_add,
      Multiset.cons_erase hc]
  · intro a ha
    obtain ⟨d, hd, rfl⟩ := Multiset.mem_map.mp ha
    exact ⟨rank c, Multiset.mem_singleton_self _, smaller c d hd⟩

/-- Some order of deliveries leaves nothing in flight. -/
theorem exists_order (smaller : ∀ c, ∀ d ∈ next c, rank d < rank c) (s : InFlight κ) :
    ∃ order, Delivers next s order ∧ (run (step next) s order).copies = 0 := by
  induction s using (deliver_wellFounded smaller).induction with
  | _ s ih =>
    by_cases done : s.copies = 0
    · exact ⟨[], trivial, done⟩
    · obtain ⟨c, hc⟩ := Multiset.exists_mem_of_ne_zero done
      obtain ⟨order, hdelivers, hdone⟩ := ih _ ⟨c, hc, rfl⟩
      exact ⟨c :: order, ⟨hc, hdelivers⟩, hdone⟩

end

/-! ### Accounts -/

section

variable {M : Type} [AddCommMonoid M]

/-- What each copy of some kind amounts to together with all that descends from it. -/
structure Accounts (next : κ → Multiset κ) (kind : κ → Prop) (value total : κ → M) : Prop where
  closed : ∀ c, kind c → ∀ d ∈ next c, kind d
  balance : ∀ c, kind c → total c = value c + ((next c).map total).sum

variable {kind : κ → Prop} {value total : κ → M}

/-- The copies in flight are of the kind. -/
def OfKind (kind : κ → Prop) (s : InFlight κ) : Prop := ∀ c ∈ s.copies, kind c

theorem Accounts.ofKind_deliver (h : Accounts next kind value total) {s : InFlight κ}
    (hs : OfKind kind s) (c : κ) : OfKind kind (s.deliver next c) := by
  intro d hd
  rcases mem_copies_deliver hd with hold | ⟨hc, hnew⟩
  · exact hs d hold
  · exact h.closed c (hs c hc) d hnew

theorem Accounts.deliver (h : Accounts next kind value total) {s : InFlight κ}
    (hs : OfKind kind s) (c : κ) :
    ((s.deliver next c).delivered.map value).sum + ((s.deliver next c).copies.map total).sum =
      (s.delivered.map value).sum + (s.copies.map total).sum := by
  by_cases hc : c ∈ s.copies
  · have whole : (s.copies.map total).sum = total c + ((s.copies.erase c).map total).sum := by
      rw [← Multiset.sum_cons, ← Multiset.map_cons, Multiset.cons_erase hc]
    rw [InFlight.deliver, if_pos hc, whole, h.balance c (hs c hc)]
    simp only [List.map_cons, List.sum_cons, Multiset.map_add, Multiset.sum_add]
    ac_rfl
  · rw [InFlight.deliver, if_neg hc]

/-- The account does not depend on the order of the deliveries. -/
theorem Accounts.delivered (h : Accounts next kind value total) {first : Multiset κ}
    (hfirst : ∀ c ∈ first, kind c) {order : List κ}
    (done : (run (step next) (start first) order).copies = 0) :
    ((run (step next) (start first) order).delivered.map value).sum =
      (first.map total).sum := by
  have initial : OfKind kind (start first) := hfirst
  have kept : OfKind kind (run (step next) (start first) order) ∧
      ((run (step next) (start first) order).delivered.map value).sum +
        ((run (step next) (start first) order).copies.map total).sum = (first.map total).sum :=
    Reachable.invariant
      (I := fun s : InFlight κ => OfKind kind s ∧
        (s.delivered.map value).sum + (s.copies.map total).sum = (first.map total).sum)
      (fun s c hs => ⟨h.ofKind_deliver hs.1 c, (h.deliver hs.1 c).trans hs.2⟩)
      ⟨initial, by simp [start]⟩ ⟨order, rfl⟩
  have balance := kept.2
  rwa [done, Multiset.map_zero, Multiset.sum_zero, add_zero] at balance

end

/-- A copy and all that descends from it, with as many generations as the number says. -/
def family (next : κ → Multiset κ) : ℕ → κ → Multiset κ
  | 0, c => {c}
  | n + 1, c => {c} + ((next c).map (family next n)).sum

section

variable {rank : κ → ℕ}

omit [DecidableEq κ] in
theorem next_of_rank_zero (smaller : ∀ c, ∀ d ∈ next c, rank d < rank c) {c : κ}
    (h : rank c = 0) : next c = 0 :=
  Multiset.eq_zero_of_forall_notMem fun d hd => by
    have := smaller c d hd
    omega

omit [DecidableEq κ] in
/-- There are no more generations than the rank. -/
theorem family_of_rank_le (smaller : ∀ c, ∀ d ∈ next c, rank d < rank c) {n : ℕ} {c : κ}
    (h : rank c ≤ n) : family next n c = family next (rank c) c := by
  induction n using Nat.strong_induction_on generalizing c with
  | _ n ih =>
    cases n with
    | zero => rw [Nat.le_zero.mp h]
    | succ n =>
      cases hrank : rank c with
      | zero => simp [family, next_of_rank_zero smaller hrank]
      | succ r =>
        rw [family, family]
        congr 2
        refine Multiset.map_congr rfl fun d hd => ?_
        have hless := smaller c d hd
        rw [ih n (by omega) (by omega), ih r (by omega) (by omega)]

omit [DecidableEq κ] in
theorem accounts_family (smaller : ∀ c, ∀ d ∈ next c, rank d < rank c) :
    Accounts next (fun _ => True) (fun c => ({c} : Multiset κ)) fun c =>
      family next (rank c) c := by
  refine ⟨fun _ _ _ _ => trivial, fun c _ => ?_⟩
  show family next (rank c) c = {c} + ((next c).map fun d => family next (rank d) d).sum
  cases hrank : rank c with
  | zero => simp [family, next_of_rank_zero smaller hrank]
  | succ r =>
    rw [family]
    congr 2
    refine Multiset.map_congr rfl fun d hd => ?_
    have hless := smaller c d hd
    exact family_of_rank_le smaller (by omega)

/-- Whatever the order, the same copies are delivered. -/
theorem delivered_perm (smaller : ∀ c, ∀ d ∈ next c, rank d < rank c) {first : Multiset κ}
    {order order' : List κ} (done : (run (step next) (start first) order).copies = 0)
    (done' : (run (step next) (start first) order').copies = 0) :
    (run (step next) (start first) order).delivered.Perm
      (run (step next) (start first) order').delivered := by
  have whole (l : List κ) : (l.map fun c => ({c} : Multiset κ)).sum = l := by
    induction l with
    | nil => rfl
    | cons c rest ih => simp [ih, ← Multiset.cons_coe, Multiset.singleton_add]
  have all : ∀ c ∈ first, (fun _ : κ => True) c := fun _ _ => trivial
  have here := (accounts_family smaller).delivered all done
  rw [← (accounts_family smaller).delivered all done', whole, whole] at here
  exact Multiset.coe_eq_coe.mp here

end

end InFlight

/-! ## Walks -/

variable {ν : Type} (link : ν → ν → Prop)

/-- A walk of `n` links from the first node to the second. -/
def Walk : ℕ → ν → ν → Prop
  | 0, u, v => u = v
  | n + 1, u, v => ∃ w, link u w ∧ Walk n w v

/-- A walk of `n` links, and none of fewer. -/
def Distance (n : ℕ) (u v : ν) : Prop := Walk link n u v ∧ ∀ m < n, ¬ Walk link m u v

variable {link}

theorem Walk.concat {n : ℕ} {u v w : ν} (h : Walk link n u v) (last : link v w) :
    Walk link (n + 1) u w := by
  induction n generalizing u with
  | zero =>
    obtain rfl : u = v := h
    exact ⟨w, last, rfl⟩
  | succ n ih =>
    obtain ⟨x, first, rest⟩ := h
    exact ⟨x, first, ih rest⟩

theorem exists_distance {n : ℕ} {u v : ν} (h : Walk link n u v) :
    ∃ d ≤ n, Distance link d u v := by
  induction n using Nat.strong_induction_on with
  | _ n ih =>
    by_cases shorter : ∃ m < n, Walk link m u v
    · obtain ⟨m, hm, hwalk⟩ := shorter
      obtain ⟨d, hd, hdist⟩ := ih m hm hwalk
      exact ⟨d, by omega, hdist⟩
    · refine ⟨n, le_refl n, h, ?_⟩
      intro m hm hwalk
      exact shorter ⟨m, hm, hwalk⟩

/-- The first link of a shortest walk leads one link closer. -/
theorem Distance.next {n : ℕ} {u v : ν} (h : Distance link (n + 1) u v) :
    ∃ w, link u w ∧ Distance link n w v := by
  obtain ⟨⟨w, hlink, hwalk⟩, hleast⟩ := h
  refine ⟨w, hlink, hwalk, ?_⟩
  intro m hm hshort
  exact hleast (m + 1) (by omega) ⟨w, hlink, hshort⟩

end Rust
