import Bitchat.Rust.Map

/-!
# Indices over a map

A map from ids to items is indexed by a key of the items: the index maps every
key to the list of the ids that have it. `push` adds an id behind the others of
its key, `dropId` removes it and the list that it leaves empty. Removals of
several ids may be done in any order.
-/
namespace Rust

variable {I V K : Type} [DecidableEq K]

/-- `index.entry(key).or_default().push(id)`. -/
def push (index : Map K (List I)) (key : K) (id : I) : Map K (List I) :=
  index.insert key ((index.lookup key).getD [] ++ [id])

theorem lookup_push (index : Map K (List I)) (key k : K) (id : I) :
    (push index key id).lookup k =
      if k = key then some ((index.lookup key).getD [] ++ [id]) else index.lookup k :=
  Map.lookup_insert_if ..

theorem size_push (index : Map K (List I)) (key : K) (id : I) :
    Map.size (push index key id) = Map.size index + if key ∈ index then 0 else 1 := by
  unfold push
  split_ifs with hkey
  · exact Map.size_insert_of_mem _ hkey
  · exact Map.size_insert_of_notMem _ hkey

variable [DecidableEq I]

/-- What removing an id leaves of a list: nothing when it leaves it empty. -/
def without (id : I) (ids : List I) : Option (List I) :=
  if ids.filter (· ≠ id) = [] then none else some (ids.filter (· ≠ id))

/-- Removes an id from the list of its key, and the key with its last id. -/
def dropId (index : Map K (List I)) (key : K) (id : I) : Map K (List I) :=
  match (index.lookup key).bind (without id) with
  | none => index.erase key
  | some rest => index.insert key rest

/-- Whether removing an id removes the list of its key. -/
def emptied (index : Map K (List I)) (key : K) (id : I) : Bool :=
  (index.lookup key).isSome && ((index.lookup key).bind (without id)).isNone

/-- The index lists every id once under the key of its item, and no other id. -/
structure Indexes (key : V → K) (items : Map I V) (index : Map K (List I)) : Prop where
  listed : ∀ id v, items.lookup id = some v →
    ∃ ids, index.lookup (key v) = some ids ∧ ids.count id = 1
  sound : ∀ k ids, index.lookup k = some ids →
    ids ≠ [] ∧ ∀ id ∈ ids, ∃ v, items.lookup id = some v ∧ key v = k

theorem indexes_empty (key : V → K) :
    Indexes key (∅ : Map I V) (∅ : Map K (List I)) := by
  constructor
  · intro id v h
    rw [Finmap.lookup_empty] at h
    cases h
  · intro k ids h
    rw [Finmap.lookup_empty] at h
    cases h

theorem lookup_dropId (index : Map K (List I)) (key k : K) (id : I) :
    (dropId index key id).lookup k =
      if k = key then (index.lookup key).bind (without id) else index.lookup k := by
  unfold dropId
  cases h : (index.lookup key).bind (without id) with
  | none => exact Map.lookup_erase_if ..
  | some rest => exact Map.lookup_insert_if ..

theorem without_eq_some {id : I} {ids rest : List I} :
    without id ids = some rest ↔ rest ≠ [] ∧ ids.filter (· ≠ id) = rest := by
  unfold without
  split_ifs with h
  · simp only [false_iff, not_and]
    exact fun hne hrest => hne (hrest ▸ h)
  · rw [Option.some.injEq]
    exact ⟨fun hrest => ⟨hrest ▸ h, hrest⟩, And.right⟩

/-- A listed id stands for an item with the key of its list. -/
theorem Indexes.item_of_mem {key : V → K} {items : Map I V} {index : Map K (List I)}
    (h : Indexes key items index) {k : K} {i : I} (hi : i ∈ (index.lookup k).getD []) :
    ∃ w, items.lookup i = some w ∧ key w = k := by
  cases hk : index.lookup k with
  | none =>
    rw [hk] at hi
    cases hi
  | some ids =>
    rw [hk, Option.getD_some] at hi
    exact (h.sound k ids hk).2 i hi

/-- Under a key are listed the ids of the items that have it. -/
theorem Indexes.mem_iff {key : V → K} {items : Map I V} {index : Map K (List I)}
    (h : Indexes key items index) {k : K} {id : I} :
    id ∈ (index.lookup k).getD [] ↔ ∃ v, items.lookup id = some v ∧ key v = k := by
  constructor
  · exact h.item_of_mem
  · rintro ⟨v, hv, rfl⟩
    obtain ⟨ids, hids, hcount⟩ := h.listed id v hv
    rw [hids, Option.getD_some]
    exact List.count_pos_iff.mp (by omega)

theorem Indexes.nodup {key : V → K} {items : Map I V} {index : Map K (List I)}
    (h : Indexes key items index) (k : K) : ((index.lookup k).getD []).Nodup := by
  rw [List.nodup_iff_count_le_one]
  intro id
  by_cases hid : id ∈ (index.lookup k).getD []
  · obtain ⟨v, hv, rfl⟩ := h.mem_iff.mp hid
    obtain ⟨ids, hids, hcount⟩ := h.listed id v hv
    rw [hids, Option.getD_some, hcount]
  · rw [List.count_eq_zero.mpr hid]
    exact Nat.zero_le 1

/-- A new id is in no list. -/
theorem Indexes.count_of_new {key : V → K} {items : Map I V} {index : Map K (List I)}
    (h : Indexes key items index) {id : I} (hnew : items.lookup id = none) (k : K) :
    ((index.lookup k).getD []).count id = 0 := by
  refine List.count_eq_zero.mpr fun hmem => ?_
  obtain ⟨w, hw, _⟩ := h.item_of_mem hmem
  rw [hnew] at hw
  cases hw

theorem Indexes.push {key : V → K} {items : Map I V} {index : Map K (List I)}
    (h : Indexes key items index) {id : I} {v : V} (hnew : items.lookup id = none) :
    Indexes key (items.insert id v) (push index (key v) id) := by
  constructor
  · intro i w hi
    rw [Map.lookup_insert_if] at hi
    rw [lookup_push]
    split_ifs at hi with heq
    · obtain rfl := Option.some.inj hi
      refine ⟨_, if_pos rfl, ?_⟩
      rw [heq, List.count_append, List.count_singleton_self, h.count_of_new hnew]
    · obtain ⟨ids, hids, hcount⟩ := h.listed i w hi
      by_cases hkey : key w = key v
      · refine ⟨_, if_pos hkey, ?_⟩
        rw [← hkey, hids, Option.getD_some, List.count_append, hcount,
          List.count_eq_zero.mpr (by simpa using heq)]
      · exact ⟨ids, by rw [if_neg hkey, hids], hcount⟩
  · intro k ids hk
    rw [lookup_push] at hk
    split_ifs at hk with hkey
    · obtain rfl := Option.some.inj hk
      refine ⟨by simp, fun i hi => ?_⟩
      rcases List.mem_append.mp hi with hi | hi
      · obtain ⟨w, hw, hwk⟩ := h.item_of_mem hi
        exact ⟨w, Map.lookup_insert_of_new v hnew hw, hwk.trans hkey.symm⟩
      · rw [Map.lookup_insert_if, if_pos (List.mem_singleton.mp hi)]
        exact ⟨v, rfl, hkey.symm⟩
    · obtain ⟨hne, hmem⟩ := h.sound k ids hk
      refine ⟨hne, fun i hi => ?_⟩
      obtain ⟨w, hw, hwk⟩ := hmem i hi
      exact ⟨w, Map.lookup_insert_of_new v hnew hw, hwk⟩

theorem Indexes.dropId {key : V → K} {items : Map I V} {index : Map K (List I)}
    (h : Indexes key items index) {id : I} {v : V} (hv : items.lookup id = some v) :
    Indexes key (items.erase id) (dropId index (key v) id) := by
  constructor
  · intro i w hi
    rw [Map.lookup_erase_if] at hi
    split_ifs at hi with heq
    obtain ⟨ids, hids, hcount⟩ := h.listed i w hi
    rw [lookup_dropId]
    by_cases hkey : key w = key v
    · have hmem : i ∈ ids.filter (· ≠ id) := by
        rw [List.mem_filter]
        exact ⟨List.count_pos_iff.mp (by omega), by simpa using heq⟩
      refine ⟨ids.filter (· ≠ id), ?_, ?_⟩
      · rw [if_pos hkey, ← hkey, hids]
        exact without_eq_some.mpr ⟨List.ne_nil_of_mem hmem, rfl⟩
      · rw [List.count_filter (by simpa using heq), hcount]
    · exact ⟨ids, by rw [if_neg hkey, hids], hcount⟩
  · intro k ids hk
    rw [lookup_dropId] at hk
    split_ifs at hk with hkey
    · obtain ⟨old, hold, hids⟩ := Option.bind_eq_some_iff.mp hk
      obtain ⟨hne, rfl⟩ := without_eq_some.mp hids
      refine ⟨hne, fun i hi => ?_⟩
      obtain ⟨hmem, hid⟩ := List.mem_filter.mp hi
      obtain ⟨w, hw, hwk⟩ := (h.sound _ old hold).2 i hmem
      refine ⟨w, ?_, hwk.trans hkey.symm⟩
      rw [Finmap.lookup_erase_ne (by simpa using hid), hw]
    · obtain ⟨hne, hmem⟩ := h.sound k ids hk
      refine ⟨hne, fun i hi => ?_⟩
      obtain ⟨w, hw, hwk⟩ := hmem i hi
      refine ⟨w, ?_, hwk⟩
      rw [Finmap.lookup_erase_ne, hw]
      rintro rfl
      rw [hv] at hw
      exact hkey (hwk.symm.trans (congrArg key (Option.some.inj hw.symm)))

/-! ## The number of lists -/

theorem size_dropId (index : Map K (List I)) (key : K) (id : I) :
    Map.size (dropId index key id) + (if emptied index key id = true then 1 else 0) =
      Map.size index := by
  unfold dropId emptied
  cases hkey : index.lookup key with
  | none =>
    have hnot := Finmap.lookup_eq_none.mp hkey
    simp [Map.erase_of_notMem hnot]
  | some ids =>
    have hmem : key ∈ index := Finmap.mem_of_lookup_eq_some hkey
    cases hrest : without id ids with
    | none => simpa [hrest] using Map.size_erase_of_mem hmem
    | some rest => simpa [hrest] using Map.size_insert_of_mem rest hmem

/-! ## Removals commute -/

theorem without_comm (a b : I) (ids : List I) :
    (without a ids).bind (without b) = (without b ids).bind (without a) := by
  have hbind (x y : I) : (without x ids).bind (without y) =
      if (ids.filter (· ≠ x)).filter (· ≠ y) = [] then none
      else some ((ids.filter (· ≠ x)).filter (· ≠ y)) := by
    unfold without
    split_ifs with h1 h2 h2
    · rfl
    · rw [h1] at h2
      exact absurd rfl h2
    · rw [Option.bind_some, if_pos h2]
    · rw [Option.bind_some, if_neg h2]
  have hfilter : (ids.filter (· ≠ a)).filter (· ≠ b) = (ids.filter (· ≠ b)).filter (· ≠ a) := by
    rw [List.filter_filter, List.filter_filter]
    exact List.filter_congr fun x _ => Bool.and_comm ..
  rw [hbind, hbind, hfilter]

theorem dropId_comm (index : Map K (List I)) (k l : K) (a b : I) :
    dropId (dropId index k a) l b = dropId (dropId index l b) k a := by
  apply Finmap.ext_lookup
  intro j
  simp only [lookup_dropId]
  by_cases hkl : k = l
  · subst hkl
    by_cases hj : j = k
    · simp only [hj, if_true]
      rw [Option.bind_assoc, Option.bind_assoc]
      congr 1
      exact funext (without_comm a b)
    · simp only [hj, if_false]
  · by_cases hjk : j = k
    · subst hjk
      simp [hkl]
    · by_cases hjl : j = l
      · subst hjl
        simp [Ne.symm hkl]
      · simp [hjk, hjl]

theorem emptied_comm (index : Map K (List I)) (k l : K) (a b : I) :
    (if emptied index k a = true then 1 else 0) +
        (if emptied (dropId index k a) l b = true then 1 else 0) =
      (if emptied index l b = true then 1 else 0) +
        (if emptied (dropId index l b) k a = true then 1 else 0) := by
  have hab := size_dropId (dropId index k a) l b
  have hba := size_dropId (dropId index l b) k a
  have ha := size_dropId index k a
  have hb := size_dropId index l b
  rw [dropId_comm index l k b a] at hba
  omega

end Rust
