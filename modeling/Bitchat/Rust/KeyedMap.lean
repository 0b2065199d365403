import Bitchat.Rust.BTreeMap
import Mathlib.Data.Finset.Card
import Mathlib.Data.List.MinMax

/-!
# Maps of values under their own keys

A `BTreeMap` from an id to a value that holds the id. Values are inserted under
the id they hold, so an entry is found under no other.
-/
namespace Rust

open Std

/-- A search finds the only element there is to find. -/
theorem find?_eq_of_unique {α : Type} {l : List α} {p : α → Bool} {found : Option α}
    (h : ∀ a, a ∈ l ∧ p a = true ↔ found = some a) : l.find? p = found := by
  cases hfind : l.find? p with
  | none =>
    cases found with
    | none => rfl
    | some a =>
      obtain ⟨ha, hp⟩ := (h a).mpr rfl
      exact absurd hp (List.find?_eq_none.mp hfind a ha)
  | some a => exact ((h a).mp ⟨List.mem_of_find?_eq_some hfind, List.find?_some hfind⟩).symm

/-- An ordered map in which each value stands under its key. -/
structure KeyedMap {K V : Type} [Ord K] [TransOrd K] (key : V → K) where
  map : BTreeMap K V
  keyed : ∀ k v, map[k]? = some v → key v = k

namespace KeyedMap

variable {K V : Type} [Ord K] [TransOrd K] {key : V → K} {m : KeyedMap key} {k : K} {v : V}

def empty : KeyedMap key where
  map := ∅
  keyed k v h := by simp at h

/-- `map.get(k)`. -/
def get (m : KeyedMap key) (k : K) : Option V := m.map[k]?

/-- `map.values()`, in the order of the keys. -/
def values (m : KeyedMap key) : List V := m.map.toList.map Prod.snd

/-- `map.len()`. -/
def size (m : KeyedMap key) : ℕ := m.map.size

theorem key_of_get (h : m.get k = some v) : key v = k := m.keyed k v h

@[simp] theorem get_empty (k : K) : (empty : KeyedMap key).get k = none := by
  simp [get, empty]

/-- The keys that are in the map. -/
def keys [DecidableEq K] (m : KeyedMap key) : Finset K := m.map.keys.toFinset

theorem card_keys [DecidableEq K] (m : KeyedMap key) : m.keys.card = m.size := by
  rw [keys, List.toFinset_card_of_nodup ExtTreeMap.nodup_keys, ExtTreeMap.length_keys, size]

variable [LawfulEqOrd K]

theorem mem_values : v ∈ m.values ↔ m.get (key v) = some v := by
  rw [values, List.mem_map]
  constructor
  · rintro ⟨⟨k, w⟩, listed, rfl⟩
    have found : m.get k = some w := BTreeMap.mem_entries.mp listed
    rwa [key_of_get found]
  · intro found
    exact ⟨(key v, v), BTreeMap.mem_entries.mpr found, rfl⟩

theorem map_key_values (m : KeyedMap key) : m.values.map key = m.map.keys := by
  rw [values, List.map_map, ← ExtTreeMap.map_fst_toList_eq_keys]
  apply List.map_congr_left
  rintro ⟨k, v⟩ listed
  have found : m.get k = some v := BTreeMap.mem_entries.mp listed
  exact (key_of_get found : key v = k)

theorem values_ordered (m : KeyedMap key) :
    m.values.Pairwise fun v w => compare (key v) (key w) = .lt := by
  have hkeys := ExtTreeMap.ordered_keys (t := m.map)
  rw [← map_key_values] at hkeys
  exact List.pairwise_map.mp hkeys

/-- `map.values().min_by_key(rank)` comes first by its rank and then by its key. -/
theorem argmin_values {rank : V → ℕ} (h : m.values.argmin rank = some v) :
    m.get (key v) = some v ∧ ∀ w, m.get (key w) = some w →
      rank v < rank w ∨ rank v = rank w ∧ (compare (key v) (key w)).isLE := by
  classical
  obtain ⟨hv, hleast, hfirst⟩ := List.argmin_eq_some_iff.mp h
  refine ⟨mem_values.mp hv, ?_⟩
  intro w hfound
  have hw := mem_values.mpr hfound
  rcases Nat.lt_or_eq_of_le (hleast w hw) with hless | hsame
  · exact Or.inl hless
  · refine Or.inr ⟨hsame, ?_⟩
    have hindex := hfirst w hw hsame.ge
    rcases Nat.lt_or_eq_of_le hindex with hbefore | hequal
    · have hordered := List.pairwise_iff_getElem.mp m.values_ordered _ _
        (List.idxOf_lt_length_of_mem hv) (List.idxOf_lt_length_of_mem hw) hbefore
      rw [List.getElem_idxOf, List.getElem_idxOf] at hordered
      rw [hordered]
      rfl
    · have hself : compare (key w) (key w) = .eq := ReflCmp.compare_self
      rw [(List.idxOf_inj hv).mp hequal, hself]
      rfl

variable [DecidableEq K]

/-- `map.insert(v.key, v)`. -/
def put (m : KeyedMap key) (v : V) : KeyedMap key where
  map := m.map.insert (key v) v
  keyed k w h := by
    rw [BTreeMap.get_insert] at h
    split_ifs at h with hk
    · cases h
      exact hk
    · exact m.keyed k w h

/-- `map.remove(k)`. -/
def remove (m : KeyedMap key) (k : K) : KeyedMap key where
  map := m.map.erase k
  keyed a v h := by
    rw [BTreeMap.get_erase] at h
    split_ifs at h
    exact m.keyed a v h

theorem get_put (m : KeyedMap key) (v : V) (k : K) :
    (m.put v).get k = if key v = k then some v else m.get k := BTreeMap.get_insert m.map (key v) k v

theorem mem_keys : k ∈ m.keys ↔ (m.get k).isSome = true := by
  rw [keys, List.mem_toFinset, ExtTreeMap.mem_keys, ExtTreeMap.mem_iff_isSome_getElem?, get]

theorem mem_keys_iff : k ∈ m.keys ↔ ∃ v, m.get k = some v := by
  rw [mem_keys, Option.isSome_iff_exists]

theorem keys_put (m : KeyedMap key) (v : V) : (m.put v).keys = insert (key v) m.keys := by
  ext k
  rw [Finset.mem_insert, mem_keys, mem_keys, get_put]
  by_cases hk : key v = k
  · simp [hk]
  · simp [hk, Ne.symm hk]

theorem get_remove (m : KeyedMap key) (a k : K) :
    (m.remove a).get k = if a = k then none else m.get k := BTreeMap.get_erase m.map a k

theorem keys_remove (m : KeyedMap key) (a : K) : (m.remove a).keys = m.keys.erase a := by
  ext k
  rw [Finset.mem_erase, mem_keys, mem_keys, get_remove]
  by_cases hk : a = k
  · simp [hk]
  · simp [hk, Ne.symm hk]

/-- Inserting one value after the other, the last one under a key stays. -/
theorem get_putAll (m : KeyedMap key) (l : List V) (k : K) :
    (l.foldl put m).get k = (l.reverse.find? fun v => key v = k).or (m.get k) := by
  induction l using List.reverseRecOn with
  | nil => simp
  | append_singleton l v ih =>
    rw [List.foldl_append, List.foldl_cons, List.foldl_nil, get_put, ih, List.reverse_append,
      List.reverse_singleton, List.singleton_append, List.find?_cons]
    by_cases hk : key v = k
    · simp [hk]
    · simp [hk]

end KeyedMap

end Rust
