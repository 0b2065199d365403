import Mathlib.Data.Multiset.Filter
import Mathlib.Data.Multiset.ZeroCons
import Std.Data.ExtTreeMap

/-!
# Ordered maps

`BTreeMap` where the order of its keys shows: in what is iterated, and in which
entry is the first. The entries that updates add and take away are compared as
multisets.
-/
namespace Rust

open Std

abbrev BTreeMap (K V : Type) [Ord K] := ExtTreeMap K V

namespace BTreeMap

variable {K V : Type} [Ord K] [TransOrd K]

/-- `map.iter().next()`. -/
def first (m : BTreeMap K V) : Option (K × V) := m.toList.head?

/-- The entries, in no particular order. -/
def entries (m : BTreeMap K V) : Multiset (K × V) := Multiset.ofList m.toList

/-- `map.values()`, in no particular order. -/
def contents (m : BTreeMap K V) : Multiset V := (entries m).map Prod.snd

/-- Removes one key after the other. -/
def removeAll (m : BTreeMap K V) (ks : List K) : BTreeMap K V :=
  ks.foldl (fun m k => m.erase k) m

variable {m : BTreeMap K V} {k a : K} {v : V}

theorem card_entries (m : BTreeMap K V) : (entries m).card = m.size := ExtTreeMap.length_toList

theorem first_eq_none : first m = none ↔ m.size = 0 := by
  rw [first, List.head?_eq_none_iff, ← List.length_eq_zero_iff, ExtTreeMap.length_toList]

variable [LawfulEqOrd K]

theorem mem_entries : (k, v) ∈ entries m ↔ m[k]? = some v :=
  ExtTreeMap.mem_toList_iff_getElem?_eq_some

theorem mem_entries_iff {e : K × V} : e ∈ entries m ↔ m[e.1]? = some e.2 := mem_entries

theorem nodup_entries (m : BTreeMap K V) : (entries m).Nodup := by
  apply List.Pairwise.imp ?_ (ExtTreeMap.distinct_keys_toList (t := m))
  intro a b distinct same
  exact distinct (by rw [same]; exact ReflCmp.compare_self)

theorem first_mem {e : K × V} (h : first m = some e) : m[e.1]? = some e.2 :=
  mem_entries_iff.mp (List.mem_of_mem_head? h)

/-- A key is among those of the selected entries exactly if its entry is selected. -/
theorem mem_keys_filter {e : K × V} (he : e ∈ entries m) (p : K × V → Bool) :
    e.1 ∈ (m.toList.filter p).map Prod.fst ↔ p e = true := by
  rw [List.mem_map]
  constructor
  · rintro ⟨e', selected, hkey⟩
    obtain ⟨listed, hp⟩ := List.mem_filter.mp selected
    have found := mem_entries_iff.mp he
    have found' := mem_entries_iff.mp (Multiset.mem_coe.mpr listed)
    rw [hkey, found] at found'
    have same : e' = e := Prod.ext hkey (Option.some.inj found').symm
    rwa [same] at hp
  · intro hp
    exact ⟨e, List.mem_filter.mpr ⟨Multiset.mem_coe.mp he, hp⟩, rfl⟩

theorem entries_eq_of_iff {s : Multiset (K × V)} (hs : s.Nodup)
    (h : ∀ k v, m[k]? = some v ↔ (k, v) ∈ s) : entries m = s := by
  rw [Multiset.Nodup.ext (nodup_entries m) hs]
  rintro ⟨k, v⟩
  rw [mem_entries, h]

variable [DecidableEq K]

theorem get_insert (m : BTreeMap K V) (a k : K) (v : V) :
    (m.insert a v)[k]? = if a = k then some v else m[k]? := by
  rw [ExtTreeMap.getElem?_insert]
  simp only [LawfulEqOrd.compare_eq_iff_eq]

theorem get_erase (m : BTreeMap K V) (a k : K) :
    (m.erase a)[k]? = if a = k then none else m[k]? := by
  rw [ExtTreeMap.getElem?_erase]
  simp only [LawfulEqOrd.compare_eq_iff_eq]

/-- An entry under a new key comes on top. -/
theorem entries_insert_of_new (h : m[a]? = none) (v : V) :
    entries (m.insert a v) = (a, v) ::ₘ entries m := by
  apply entries_eq_of_iff
  · rw [Multiset.nodup_cons, mem_entries, h]
    exact ⟨by simp, nodup_entries m⟩
  · intro k w
    rw [get_insert, Multiset.mem_cons, mem_entries]
    by_cases hk : a = k
    · subst hk
      simp [h, eq_comm]
    · simp [hk, Ne.symm hk]

theorem entries_eq_cons_erase (h : m[a]? = some v) :
    entries m = (a, v) ::ₘ entries (m.erase a) := by
  apply entries_eq_of_iff
  · rw [Multiset.nodup_cons, mem_entries, get_erase]
    exact ⟨by simp, nodup_entries _⟩
  · intro k w
    rw [Multiset.mem_cons, mem_entries, get_erase]
    by_cases hk : a = k
    · subst hk
      simp [h, eq_comm]
    · simp [hk, Ne.symm hk]

theorem get_removeAll (m : BTreeMap K V) (ks : List K) (k : K) :
    (removeAll m ks)[k]? = if k ∈ ks then none else m[k]? := by
  rw [removeAll]
  induction ks generalizing m with
  | nil => simp
  | cons a ks ih =>
    rw [List.foldl_cons, ih, get_erase]
    by_cases hk : k ∈ ks
    · simp [hk]
    · by_cases ha : a = k
      · simp [ha]
      · simp [hk, ha, Ne.symm ha]

theorem entries_removeAll (m : BTreeMap K V) (ks : List K) :
    entries (removeAll m ks) = (entries m).filter fun e => e.1 ∉ ks := by
  apply entries_eq_of_iff
  · exact (nodup_entries m).filter _
  · intro k v
    rw [Multiset.mem_filter, mem_entries, get_removeAll]
    by_cases hk : k ∈ ks <;> simp [hk]

theorem contents_insert_of_new (h : m[a]? = none) (v : V) :
    contents (m.insert a v) = v ::ₘ contents m := by
  rw [contents, entries_insert_of_new h, Multiset.map_cons]
  rfl

theorem contents_eq_cons_erase (h : m[a]? = some v) :
    contents m = v ::ₘ contents (m.erase a) := by
  rw [contents, entries_eq_cons_erase h, Multiset.map_cons]
  rfl

/-- An entry under a used key replaces what was there. -/
theorem insert_erase (m : BTreeMap K V) (a : K) (v : V) :
    (m.erase a).insert a v = m.insert a v := by
  apply ExtTreeMap.ext_getElem?
  intro k
  rw [get_insert, get_insert, get_erase]
  by_cases hk : a = k <;> simp [hk]

theorem size_erase_of_get (h : m[a]? = some v) : (m.erase a).size + 1 = m.size := by
  rw [← card_entries, ← card_entries, entries_eq_cons_erase h, Multiset.card_cons]

/-- An entry is added, and none replaced, exactly if the key is new. -/
theorem contents_insert_iff :
    contents (m.insert a v) = v ::ₘ contents m ↔ m[a]? = none := by
  constructor
  · intro h
    cases known : m[a]? with
    | none => rfl
    | some u =>
      rw [← insert_erase, contents_insert_of_new (by rw [get_erase, if_pos rfl]),
        Multiset.cons_inj_right, contents_eq_cons_erase known] at h
      have counts := congrArg Multiset.card h
      rw [Multiset.card_cons] at counts
      omega
  · intro h
    exact contents_insert_of_new h v

end BTreeMap

end Rust
