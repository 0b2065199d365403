import Bitchat.RelayDirectory
import Bitchat.Rust.SipHash
import Mathlib.Data.List.Range

/-!
# Selecting relays in turn

`NostrRelayManager::select_round_robin`. As many relays are picked as are wanted, or as
there are, and the place of each is a hash of the number of the pick. Nothing keeps two
hashes from the same place.
-/
namespace Bitchat
open Rust

structure NostrRelayManager where
  relays : Map Text RelayInfo

namespace NostrRelayManager

def new : NostrRelayManager := ⟨∅⟩

def addRelay (m : NostrRelayManager) (relay : RelayInfo) : NostrRelayManager :=
  ⟨m.relays.insert relay.url relay⟩

def loadDefaultRelays (m : NostrRelayManager) : NostrRelayManager :=
  GeoRelayDirectory.getDefaultRelays.foldl addRelay m

/-- `DefaultHasher` at the numbers of the picks. -/
abbrev PickHash := ℕ → UInt64

/-- The picks that are left, until as many relays are selected as there are. -/
def pickRelays (hash : PickHash) (relayUrls selected : List Text) :
    List ℕ → Outcome Empty (List Text)
  | [] => .ok selected
  | i :: rest =>
    if relayUrls.length ≤ selected.length then .ok selected
    else
      match relayUrls[(hash i).toNat % relayUrls.length]? with
      | some url => pickRelays hash relayUrls (selected ++ [url]) rest
      | none => panicked

def selectRoundRobin (m : NostrRelayManager) (hash : PickHash) (order : Map.KeyOrder m.relays)
    (count : ℕ) : Outcome Empty (List Text) :=
  if order.keys.isEmpty then .ok [] else pickRelays hash order.keys [] (List.range count)

/-- As many relays are selected as are wanted or known, all of them known and no two the
same. -/
def SelectsDistinct (m : NostrRelayManager) (hash : PickHash) (order : Map.KeyOrder m.relays)
    (count : ℕ) : Prop :=
  ∃ urls, m.selectRoundRobin hash order count = .ok urls ∧
    urls.length = min count (Map.size m.relays) ∧ urls.Nodup ∧ ∀ url ∈ urls, url ∈ m.relays

/-- The hashes of the first `picks` numbers differ modulo `n`. -/
def SpreadsOut (hash : PickHash) (picks n : ℕ) : Prop :=
  ∀ i < picks, ∀ j < picks, (hash i).toNat % n = (hash j).toNat % n → i = j

variable {hash : PickHash} {relayUrls : List Text}

/-- The relay at the place of a pick. -/
def picked (hash : PickHash) (relayUrls : List Text) (i : ℕ) : Text :=
  relayUrls[(hash i).toNat % relayUrls.length]?.getD []

theorem picked_eq (hsome : relayUrls ≠ []) (i : ℕ) :
    relayUrls[(hash i).toNat % relayUrls.length]? = some (picked hash relayUrls i) := by
  have hlt := Nat.mod_lt (hash i).toNat (List.length_pos_iff.mpr hsome)
  rw [picked, List.getElem?_eq_getElem hlt, Option.getD_some]

theorem picked_mem (hsome : relayUrls ≠ []) (i : ℕ) : picked hash relayUrls i ∈ relayUrls :=
  List.mem_of_getElem? (picked_eq hsome i)

/-- In a list without duplicates two picks are the same at the same place only. -/
theorem picked_inj (hsome : relayUrls ≠ []) (hnodup : relayUrls.Nodup) {i j : ℕ} :
    picked hash relayUrls i = picked hash relayUrls j ↔
      (hash i).toNat % relayUrls.length = (hash j).toNat % relayUrls.length := by
  have hlt : ∀ k, (hash k).toNat % relayUrls.length < relayUrls.length :=
    fun k => Nat.mod_lt _ (List.length_pos_iff.mpr hsome)
  rw [picked, picked, List.getElem?_eq_getElem (hlt i), List.getElem?_eq_getElem (hlt j),
    Option.getD_some, Option.getD_some]
  exact hnodup.getElem_inj_iff

/-- The loop makes one pick after the other, and stops when there are as many as relays. -/
theorem pickRelays_eq (hash : PickHash) (hsome : relayUrls ≠ []) (selected : List Text)
    (count : ℕ) :
    pickRelays hash relayUrls selected (List.range' selected.length count) =
      .ok (selected ++ (List.range' selected.length
        (min count (relayUrls.length - selected.length))).map (picked hash relayUrls)) := by
  induction count generalizing selected with
  | zero => simp [pickRelays]
  | succ count ih =>
    rw [List.range'_succ, pickRelays]
    split_ifs with hfull
    · rw [Nat.sub_eq_zero_of_le hfull, Nat.min_zero]
      simp
    · have hnext : min (count + 1) (relayUrls.length - selected.length) =
          min count (relayUrls.length - (selected.length + 1)) + 1 := by omega
      have hrest := ih (selected ++ [picked hash relayUrls selected.length])
      rw [List.length_append, List.length_singleton] at hrest
      rw [picked_eq hsome, hnext, List.range'_succ, List.map_cons, List.append_cons]
      exact hrest

/-- Every selection is the list of the picks that the number of relays admits. -/
theorem selectRoundRobin_eq (m : NostrRelayManager) (hash : PickHash)
    (order : Map.KeyOrder m.relays) (count : ℕ) :
    m.selectRoundRobin hash order count =
      .ok ((List.range (min count (Map.size m.relays))).map (picked hash order.keys)) := by
  rw [selectRoundRobin, ← order.length_keys]
  split_ifs with hempty
  · rw [List.isEmpty_iff.mp hempty]
    simp
  · have hsome : order.keys ≠ [] := fun h => hempty (List.isEmpty_iff.mpr h)
    have hpicks := pickRelays_eq hash hsome [] count
    rw [List.length_nil, ← List.range_eq_range', ← List.range_eq_range', List.nil_append] at hpicks
    exact hpicks

/-- **The relays selected are distinct exactly if the hasher spreads the picks out.** -/
theorem selectsDistinct_iff (m : NostrRelayManager) (hash : PickHash)
    (order : Map.KeyOrder m.relays) (count : ℕ) :
    m.SelectsDistinct hash order count ↔
      SpreadsOut hash (min count (Map.size m.relays)) (Map.size m.relays) := by
  have hsome : ∀ i ∈ List.range (min count (Map.size m.relays)), order.keys ≠ [] := by
    intro i hi hnone
    have hlt := List.mem_range.mp hi
    rw [← order.length_keys, hnone, List.length_nil] at hlt
    omega
  have hdistinct : ((List.range (min count (Map.size m.relays))).map
      (picked hash order.keys)).Nodup ↔
        SpreadsOut hash (min count (Map.size m.relays)) (Map.size m.relays) := by
    rw [List.nodup_map_iff_inj_on List.nodup_range, SpreadsOut]
    simp only [List.mem_range]
    refine forall₂_congr fun i hi => forall₂_congr fun j _ => ?_
    rw [picked_inj (hsome i (List.mem_range.mpr hi)) order.nodup, order.length_keys]
  rw [← hdistinct, SelectsDistinct, selectRoundRobin_eq]
  constructor
  · rintro ⟨urls, hurls, -, hnodup, -⟩
    rwa [Except.ok.inj hurls]
  · intro hnodup
    refine ⟨_, rfl, by rw [List.length_map, List.length_range], hnodup, ?_⟩
    intro url hurl
    obtain ⟨i, hi, rfl⟩ := List.mem_map.mp hurl
    exact (order.mem _).mp (picked_mem (hsome i hi) i)

theorem mem_foldl_addRelay (relays : List RelayInfo) (m : NostrRelayManager) (url : Text) :
    url ∈ (relays.foldl addRelay m).relays ↔ url ∈ m.relays ∨ url ∈ relays.map RelayInfo.url := by
  induction relays generalizing m with
  | nil => simp
  | cons relay relays ih =>
    rw [List.foldl_cons, ih, addRelay, Finmap.mem_insert, List.map_cons, List.mem_cons,
      or_comm (a := url = relay.url), or_assoc]

/-- The default relays in the order in which they are listed. -/
def defaultOrder : Map.KeyOrder new.loadDefaultRelays.relays where
  keys := GeoRelayDirectory.getDefaultRelays.map RelayInfo.url
  nodup := by decide +kernel
  mem := by
    intro url
    rw [loadDefaultRelays, mem_foldl_addRelay, or_iff_right]
    exact Finmap.notMem_empty

/-- The default hasher puts the second and the third of three picks at the same of the five
default relays. -/
theorem not_selectsDistinct_default :
    ¬ new.loadDefaultRelays.SelectsDistinct defaultHash defaultOrder 3 := by
  rintro ⟨urls, hurls, -, hnodup, -⟩
  have hsize : Map.size new.loadDefaultRelays.relays = 5 := defaultOrder.length_keys.symm
  have hsome : defaultOrder.keys ≠ [] := by decide
  have hplaces : (defaultHash 1).toNat % 5 = (defaultHash 2).toNat % 5 := by decide +kernel
  have hsame : picked defaultHash defaultOrder.keys 1 = picked defaultHash defaultOrder.keys 2 :=
    (picked_inj hsome defaultOrder.nodup).mpr hplaces
  rw [selectRoundRobin_eq, hsize] at hurls
  rw [← Except.ok.inj hurls, List.nodup_map_iff_inj_on List.nodup_range] at hnodup
  exact absurd (hnodup 1 (by decide) 2 (by decide) hsame) (by decide)

end NostrRelayManager

end Bitchat
