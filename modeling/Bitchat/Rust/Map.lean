import Mathlib.Data.Finmap

/-!
# Maps

`HashMap` and `BTreeMap` as finite maps. Two maps with the same lookups are
equal, so nothing that is proved about them depends on an iteration order.
-/
namespace Rust

abbrev Map (K V : Type) := Finmap fun _ : K => V

namespace Map

variable {K V : Type}

/-- `map.len()`. -/
def size (m : Map K V) : ℕ := m.keys.card

/-- `map.retain(|k, v| p(k, v))`. -/
def retain (p : K → V → Bool) (m : Map K V) : Map K V where
  entries := m.entries.filter fun e => p e.1 e.2
  nodupKeys := by
    rw [← Multiset.nodup_keys]
    exact Multiset.nodup_of_le (Multiset.map_le_map (Multiset.filter_le _ _))
      (Multiset.nodup_keys.mpr m.nodupKeys)

/-- `map.values()`, in no particular order. -/
def values (m : Map K V) : Multiset V := m.entries.map Sigma.snd

/-- `map.iter().map(|(k, v)| (*k, f(v)))`. -/
def mapValues {W : Type} (f : V → W) (m : Map K V) : Map K W where
  entries := m.entries.map fun e => ⟨e.1, f e.2⟩
  nodupKeys := by
    have hkeys : (m.entries.map fun e => (⟨e.1, f e.2⟩ : Sigma fun _ : K => W)).keys =
        m.entries.keys := by simp [Multiset.keys, Multiset.map_map]
    rw [← Multiset.nodup_keys, hkeys]
    exact Multiset.nodup_keys.mpr m.nodupKeys

@[simp] theorem size_empty : size (∅ : Map K V) = 0 := by
  simp [size]

variable [DecidableEq K]

theorem lookup_insert_if (k a : K) (v : V) (m : Map K V) :
    (m.insert a v).lookup k = if k = a then some v else m.lookup k := by
  by_cases h : k = a
  · rw [h, Finmap.lookup_insert, if_pos rfl]
  · rw [Finmap.lookup_insert_of_ne m h, if_neg h]

/-- What is found after one entry, if it is there, became another one. -/
theorem lookup_of_modified {a : K} {f : V → V} {m m' : Map K V}
    (absent : m.lookup a = none → m' = m)
    (present : ∀ v, m.lookup a = some v → m' = m.insert a (f v)) (k : K) :
    m'.lookup k = if k = a then (m.lookup a).map f else m.lookup k := by
  cases h : m.lookup a with
  | none =>
    rw [absent h]
    split_ifs with hk
    · rw [hk, h, Option.map_none]
    · rfl
  | some v => rw [present v h, lookup_insert_if, Option.map_some]

/-- Inserting under a new key keeps what was there. -/
theorem lookup_insert_of_new {k a : K} {u : V} (v : V) {m : Map K V} (hnew : m.lookup a = none)
    (h : m.lookup k = some u) : (m.insert a v).lookup k = some u := by
  rw [Finmap.lookup_insert_of_ne m, h]
  rintro rfl
  rw [hnew] at h
  cases h

theorem lookup_erase_if (k a : K) (m : Map K V) :
    (m.erase a).lookup k = if k = a then none else m.lookup k := by
  by_cases h : k = a
  · rw [h, Finmap.lookup_erase, if_pos rfl]
  · rw [Finmap.lookup_erase_ne h, if_neg h]

theorem mem_keys_iff {k : K} {m : Map K V} : k ∈ m.keys ↔ ∃ v, m.lookup k = some v := by
  rw [Finmap.mem_keys, Finmap.mem_iff]

theorem keys_eq_iff {W : Type} {m : Map K V} {m' : Map K W} :
    m.keys = m'.keys ↔ ∀ k, (m.lookup k).isSome = (m'.lookup k).isSome := by
  rw [Finset.ext_iff]
  apply forall_congr'
  intro k
  rw [mem_keys_iff, mem_keys_iff, Bool.eq_iff_iff, Option.isSome_iff_exists,
    Option.isSome_iff_exists]

theorem keys_insert (a : K) (v : V) (m : Map K V) : (m.insert a v).keys = insert a m.keys := by
  ext k
  simp [Finmap.mem_keys, Finmap.mem_insert]

theorem size_insert_of_mem {a : K} (v : V) {m : Map K V} (h : a ∈ m) :
    size (m.insert a v) = size m := by
  rw [size, size, keys_insert, Finset.insert_eq_of_mem (Finmap.mem_keys.mpr h)]

theorem size_insert_of_notMem {a : K} (v : V) {m : Map K V} (h : a ∉ m) :
    size (m.insert a v) = size m + 1 := by
  rw [size, size, keys_insert, Finset.card_insert_of_notMem fun hk => h (Finmap.mem_keys.mp hk)]

theorem size_erase_of_mem {a : K} {m : Map K V} (h : a ∈ m) :
    size (m.erase a) + 1 = size m := by
  rw [size, size, Finmap.keys_erase, Finset.card_erase_add_one (Finmap.mem_keys.mpr h)]

theorem erase_of_notMem {a : K} {m : Map K V} (h : a ∉ m) : m.erase a = m := by
  apply Finmap.ext_lookup
  intro k
  rw [lookup_erase_if]
  split_ifs with hk
  · rw [hk, Finmap.lookup_eq_none.mpr h]
  · rfl

theorem mem_retain_entries {p : K → V → Bool} {m : Map K V} {k : K} {v : V} :
    (retain p m).lookup k = some v ↔ m.lookup k = some v ∧ p k v = true := by
  rw [Finmap.lookup_eq_some_iff, Finmap.lookup_eq_some_iff]
  simp [retain]

theorem lookup_retain (p : K → V → Bool) (m : Map K V) (k : K) :
    (retain p m).lookup k = (m.lookup k).filter (p k) := by
  apply Option.ext
  intro v
  rw [mem_retain_entries, Option.filter_eq_some_iff]

theorem size_retain_le (p : K → V → Bool) (m : Map K V) : size (retain p m) ≤ size m := by
  apply Finset.card_le_card
  intro k hk
  obtain ⟨v, hv⟩ := mem_keys_iff.mp hk
  exact mem_keys_iff.mpr ⟨v, (mem_retain_entries.mp hv).1⟩

/-- What is kept and what is not. -/
theorem size_retain_add (p : K → V → Bool) (m : Map K V) :
    size (retain p m) + size (retain (fun k v => !p k v) m) = size m := by
  have parts : (retain p m).keys ∪ (retain (fun k v => !p k v) m).keys = m.keys := by
    ext k
    simp only [Finset.mem_union, mem_keys_iff, lookup_retain, Option.filter_eq_some_iff]
    constructor
    · rintro (⟨v, hv, -⟩ | ⟨v, hv, -⟩)
      · exact ⟨v, hv⟩
      · exact ⟨v, hv⟩
    · rintro ⟨v, hv⟩
      cases h : p k v with
      | true => exact .inl ⟨v, hv, h⟩
      | false => exact .inr ⟨v, hv, by simp [h]⟩
  have apart : Disjoint (retain p m).keys (retain (fun k v => !p k v) m).keys := by
    rw [Finset.disjoint_left]
    intro k hk hk'
    obtain ⟨v, hv⟩ := mem_keys_iff.mp hk
    obtain ⟨w, hw⟩ := mem_keys_iff.mp hk'
    rw [lookup_retain, Option.filter_eq_some_iff] at hv hw
    obtain rfl := Option.some.inj (hv.1.symm.trans hw.1)
    simp [hv.2] at hw
  rw [size, size, size, ← parts, Finset.card_union_of_disjoint apart]

theorem lookup_foldl_erase (ks : List K) (m : Map K V) (k : K) :
    (ks.foldl (fun m a => m.erase a) m).lookup k = if k ∈ ks then none else m.lookup k := by
  induction ks generalizing m with
  | nil => simp
  | cons a ks ih =>
    rw [List.foldl_cons, ih, lookup_erase_if]
    by_cases hk : k ∈ ks <;> by_cases ha : k = a <;> simp [hk, ha]

theorem lookup_foldl_insert (ks : List K) (v : V) (m : Map K V) (k : K) :
    (ks.foldl (fun m a => m.insert a v) m).lookup k = if k ∈ ks then some v else m.lookup k := by
  induction ks generalizing m with
  | nil => simp
  | cons a ks ih =>
    rw [List.foldl_cons, ih, lookup_insert_if]
    by_cases hk : k ∈ ks <;> by_cases ha : k = a <;> simp [hk, ha]

theorem mem_values {m : Map K V} {v : V} : v ∈ m.values ↔ ∃ k, m.lookup k = some v := by
  simp only [values, Multiset.mem_map, Finmap.lookup_eq_some_iff]
  constructor
  · rintro ⟨⟨k, w⟩, he, rfl⟩
    exact ⟨k, he⟩
  · rintro ⟨k, hk⟩
    exact ⟨⟨k, v⟩, hk, rfl⟩

/-- The values are those of the keys, each key once. -/
theorem map_some_values (m : Map K V) : m.values.map some = m.keys.val.map m.lookup := by
  show (m.entries.map Sigma.snd).map some = (m.entries.map Sigma.fst).map m.lookup
  rw [Multiset.map_map, Multiset.map_map]
  refine Multiset.map_congr rfl fun e he => ?_
  exact (Finmap.lookup_eq_some_iff.mpr he).symm

theorem card_values (m : Map K V) : m.values.card = size m := by
  have h := congrArg Multiset.card (map_some_values m)
  rwa [Multiset.card_map, Multiset.card_map] at h

theorem lookup_mapValues {W : Type} (f : V → W) (m : Map K V) (k : K) :
    (mapValues f m).lookup k = (m.lookup k).map f := by
  cases h : m.lookup k with
  | some v =>
    have hv := Finmap.lookup_eq_some_iff.mp h
    exact Finmap.lookup_eq_some_iff.mpr (Multiset.mem_map_of_mem _ hv)
  | none =>
    rw [Option.map_none, Finmap.lookup_eq_none, ← Finmap.mem_keys, mem_keys_iff]
    rintro ⟨w, hw⟩
    obtain ⟨e, he, heq⟩ := Multiset.mem_map.mp (Finmap.lookup_eq_some_iff.mp hw)
    obtain ⟨rfl, _⟩ := Sigma.mk.inj heq
    have found := Finmap.lookup_eq_some_iff.mpr he
    rw [h] at found
    cases found

/-- What the first map has comes before what the second one has. -/
theorem lookup_union (m m' : Map K V) (k : K) :
    (m ∪ m').lookup k = (m.lookup k).or (m'.lookup k) := by
  by_cases h : k ∈ m
  · obtain ⟨v, hv⟩ := Finmap.mem_iff.mp h
    rw [Finmap.lookup_union_left h, hv, Option.some_or]
  · rw [Finmap.lookup_union_right h, Finmap.lookup_eq_none.mpr h, Option.none_or]

/-- A map whose keys lie in a finite set is full exactly when it has as many
entries as the set has elements. -/
theorem size_eq_card_iff {m : Map K V} {s : Finset K} (hsub : m.keys ⊆ s) :
    size m = s.card ↔ ∀ k ∈ s, ∃ v, m.lookup k = some v := by
  constructor
  · intro hcard k hk
    have hkeys : m.keys = s := Finset.eq_of_subset_of_card_le hsub (le_of_eq hcard.symm)
    exact mem_keys_iff.mp (hkeys ▸ hk)
  · intro hall
    have hkeys : m.keys = s :=
      Finset.Subset.antisymm hsub fun k hk => mem_keys_iff.mpr (hall k hk)
    rw [size, hkeys]

/-- Each of some keys that are there takes one entry with it. -/
theorem size_foldl_erase {ks : List K} {m : Map K V} (hnodup : ks.Nodup) (hmem : ∀ k ∈ ks, k ∈ m) :
    size (ks.foldl (fun m k => m.erase k) m) + ks.length = size m := by
  induction ks generalizing m with
  | nil => rfl
  | cons k ks ih =>
    obtain ⟨hk, hks⟩ := List.nodup_cons.mp hnodup
    have hrest : ∀ k' ∈ ks, k' ∈ m.erase k := by
      intro k' hk'
      refine Finmap.mem_erase.mpr ⟨?_, hmem k' (List.mem_cons_of_mem k hk')⟩
      rintro rfl
      exact hk hk'
    rw [List.foldl_cons, List.length_cons, ← Nat.add_assoc, ih hks hrest,
      size_erase_of_mem (hmem k List.mem_cons_self)]

/-- The keys of a map in an order of iteration. -/
structure KeyOrder (m : Map K V) where
  keys : List K
  nodup : keys.Nodup
  mem : ∀ k, k ∈ keys ↔ k ∈ m

instance (m : Map K V) : Nonempty (KeyOrder m) :=
  ⟨⟨m.keys.toList, m.keys.nodup_toList, fun k => by rw [Finset.mem_toList, Finmap.mem_keys]⟩⟩

namespace KeyOrder

variable {m : Map K V} (order : KeyOrder m)

theorem length_keys : order.keys.length = size m := by
  have hsame : order.keys.toFinset = m.keys := by
    ext k
    rw [List.mem_toFinset, order.mem, Finmap.mem_keys]
  rw [size, ← hsame, List.toFinset_card_of_nodup order.nodup]

/-- The entries in this order. -/
def entries : List (K × V) := order.keys.filterMap fun k => (m.lookup k).map fun v => (k, v)

theorem mem_entries {k : K} {v : V} : (k, v) ∈ order.entries ↔ m.lookup k = some v := by
  simp only [entries, List.mem_filterMap, Option.map_eq_some_iff, Prod.mk.injEq]
  constructor
  · rintro ⟨_, -, _, hfound, rfl, rfl⟩
    exact hfound
  · intro hfound
    exact ⟨k, (order.mem k).mpr (Finmap.mem_of_lookup_eq_some hfound), v, hfound, rfl, rfl⟩

theorem keys_entries : order.entries.map Prod.fst = order.keys := by
  have hall : ∀ ks : List K, (∀ k ∈ ks, k ∈ m) →
      (ks.filterMap fun k => (m.lookup k).map fun v => (k, v)).map Prod.fst = ks := by
    intro ks hks
    induction ks with
    | nil => rfl
    | cons k ks ih =>
      obtain ⟨v, hv⟩ := Finmap.mem_iff.mp (hks k List.mem_cons_self)
      rw [List.filterMap_cons_some (by rw [hv, Option.map_some]), List.map_cons,
        ih fun k' hk' => hks k' (List.mem_cons_of_mem k hk')]
  exact hall order.keys fun k => (order.mem k).mp

end KeyOrder

end Map

end Rust
