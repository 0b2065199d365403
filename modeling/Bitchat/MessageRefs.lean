import Bitchat.SessionConvergence

/-!
# The stored message references

At most 1000 references are stored. At the limit the oldest one makes room, also for a
reference that only replaces the one with its own id: the oldest one is then lost for
nothing, unless it is the one that is replaced.
-/
namespace Bitchat
open Rust

/-- In milliseconds, 24 hours. -/
def maxSessionSyncAge : ℕ := 24 * 60 * 60 * 1000

/-- The calls that write. Which devices a clean-up finds offline is decided by the table of
devices, which is not read here. -/
inductive SyncCall where
  | updateSession (session : SessionSyncState)
  | addMessageRef (messageRef : MessageRef)
  | processSyncRequest (request : SessionSyncRequest)
  | processSyncResponse (response : SessionSyncResponse)
  | removeDevice (deviceId : DeviceId)
  | cleanupOldData (offlineDevices : List DeviceId)

structure SyncInput where
  call : SyncCall
  now : Timestamp

namespace MultiDeviceSessionManager

def removeDevice (m : MultiDeviceSessionManager) (deviceId : DeviceId) :
    MultiDeviceSessionManager :=
  { m with deviceSyncTimes := m.deviceSyncTimes.erase deviceId }

/-- The ids of the references that are too old. -/
def oldMessages (m : MultiDeviceSessionManager) (now : Timestamp) : List Text :=
  (m.messageRefs.values.filter fun msg =>
    maxSessionSyncAge < now.asMillis.toNat - msg.timestamp.asMillis.toNat).map MessageRef.messageId

def cleanupOldData (m : MultiDeviceSessionManager) (offlineDevices : List DeviceId)
    (now : Timestamp) : MultiDeviceSessionManager :=
  let online := offlineDevices.foldl removeDevice m
  { online with messageRefs := (online.oldMessages now).foldl KeyedMap.remove online.messageRefs }

/-- A call at a time. No answer is looked at. -/
def serve (m : MultiDeviceSessionManager) (i : SyncInput) : MultiDeviceSessionManager × Unit :=
  match i.call with
  | .updateSession session => (m.updateSession session, ())
  | .addMessageRef messageRef => ((m.addMessageRef messageRef).1, ())
  | .processSyncRequest request => ((m.processSyncRequest request i.now).1, ())
  | .processSyncResponse response => ((m.processSyncResponse response i.now).1, ())
  | .removeDevice deviceId => (m.removeDevice deviceId, ())
  | .cleanupOldData offlineDevices => (m.cleanupOldData offlineDevices i.now, ())

/-- The reference is stored. -/
def Stores (m : MultiDeviceSessionManager) (ref : MessageRef) : Prop :=
  m.messageRefs.get ref.messageId = some ref

/-- One insertion: the limit is kept, an id that is stored costs no other reference, and a
new one at the limit costs one of the oldest, and that alone. -/
structure KeepsNewest (m : MultiDeviceSessionManager) (ref : MessageRef) : Prop where
  bounded : (m.addMessageRef ref).1.messageRefs.size ≤ maxMessageRefs
  update : (∃ held, m.messageRefs.get ref.messageId = some held) → ∀ id, id ≠ ref.messageId →
    (m.addMessageRef ref).1.messageRefs.get id = m.messageRefs.get id
  evict : m.messageRefs.get ref.messageId = none → m.messageRefs.size = maxMessageRefs →
    ∃ oldest, m.Stores oldest ∧
      (∀ other, m.Stores other → oldest.timestamp.asMillis ≤ other.timestamp.asMillis) ∧
      (m.addMessageRef ref).1.messageRefs.get oldest.messageId = none ∧
      ∀ id, id ≠ oldest.messageId → id ≠ ref.messageId →
        (m.addMessageRef ref).1.messageRefs.get id = m.messageRefs.get id

/-- The reference comes first of the stored ones, by its time and then by its id. -/
def IsFirst (m : MultiDeviceSessionManager) (ref : MessageRef) : Prop :=
  ∀ other, m.Stores other → ref.timestamp.asMillis.toNat < other.timestamp.asMillis.toNat ∨
    ref.timestamp.asMillis.toNat = other.timestamp.asMillis.toNat ∧
      (compare ref.messageId other.messageId).isLE

/-- A reference that is replaced at the limit is the first one. -/
def ReplacesFirst (m : MultiDeviceSessionManager) (ref : MessageRef) : Prop :=
  m.messageRefs.size = maxMessageRefs →
    ∀ held, m.messageRefs.get ref.messageId = some held → m.IsFirst held

variable {m : MultiDeviceSessionManager} {ref held : MessageRef}

/-- No two references are both the first. -/
theorem IsFirst.unique {other : MessageRef} (h : m.IsFirst ref) (hother : m.IsFirst other)
    (hstored : m.Stores ref) (hstored' : m.Stores other) : ref.messageId = other.messageId := by
  rcases h other hstored' with hless | ⟨hsame, hle⟩
  · rcases hother ref hstored with hless' | ⟨hsame', -⟩
    · omega
    · omega
  · rcases hother ref hstored with hless' | ⟨-, hle'⟩
    · omega
    · exact Std.LawfulEqCmp.eq_of_compare (Std.OrientedCmp.isLE_antisymm hle hle')

theorem isFirst_of_oldestRef (h : m.oldestRef = some ref) : m.Stores ref ∧ m.IsFirst ref :=
  KeyedMap.argmin_values h

/-- At the limit some reference is the first, and it makes room. -/
theorem addMessageRef_of_full (hfull : m.messageRefs.size = maxMessageRefs) (ref : MessageRef) :
    ∃ oldest, m.Stores oldest ∧ m.IsFirst oldest ∧ (m.addMessageRef ref).1.messageRefs =
      (m.messageRefs.remove oldest.messageId).put ref := by
  cases holdest : m.oldestRef with
  | none =>
    have hempty : m.messageRefs.values = [] := List.argmin_eq_none.mp holdest
    have hsize : m.messageRefs.values.length = m.messageRefs.size := by
      rw [KeyedMap.values, List.length_map, Std.ExtTreeMap.length_toList, KeyedMap.size]
    rw [hempty, hfull] at hsize
    exact absurd hsize (by decide)
  | some oldest =>
    obtain ⟨hstored, hfirst⟩ := isFirst_of_oldestRef holdest
    refine ⟨oldest, hstored, hfirst, ?_⟩
    rw [addMessageRef, makeRoom, if_pos hfull.ge, holdest]

/-- The keys after an insertion at the limit. -/
theorem size_addMessageRef_le (hsize : m.messageRefs.size ≤ maxMessageRefs) (ref : MessageRef) :
    (m.addMessageRef ref).1.messageRefs.size ≤ maxMessageRefs := by
  rw [← KeyedMap.card_keys]
  rcases Nat.lt_or_eq_of_le hsize with hroom | hfull
  · rw [addMessageRef_of_room hroom, KeyedMap.keys_put]
    rw [← KeyedMap.card_keys] at hroom
    exact (Finset.card_insert_le _ _).trans hroom
  · obtain ⟨oldest, hstored, -, hrefs⟩ := addMessageRef_of_full hfull ref
    have hmem : oldest.messageId ∈ m.messageRefs.keys := KeyedMap.mem_keys_iff.mpr ⟨_, hstored⟩
    rw [← KeyedMap.card_keys] at hfull
    rw [hrefs, KeyedMap.keys_put, KeyedMap.keys_remove]
    refine (Finset.card_insert_le _ _).trans ?_
    rw [Finset.card_erase_add_one hmem, hfull]

/-- Within the limit an insertion keeps the newest exactly if it replaces no reference at
the limit, or the first one. -/
theorem keepsNewest_step_iff (hsize : m.messageRefs.size ≤ maxMessageRefs) (ref : MessageRef) :
    m.KeepsNewest ref ↔ m.ReplacesFirst ref := by
  rcases Nat.lt_or_eq_of_le hsize with hroom | hfull
  · have hput := addMessageRef_of_room hroom ref
    refine iff_of_true ⟨size_addMessageRef_le hsize ref, ?_, fun _ hfull => ?_⟩ fun hfull => ?_
    · intro _ id hid
      rw [hput, KeyedMap.get_put, if_neg (Ne.symm hid)]
    · omega
    · omega
  · obtain ⟨oldest, hstored, hfirst, hrefs⟩ := addMessageRef_of_full hfull ref
    have hget (id : Text) (hid : id ≠ ref.messageId) :
        (m.addMessageRef ref).1.messageRefs.get id =
          if oldest.messageId = id then none else m.messageRefs.get id := by
      rw [hrefs, KeyedMap.get_put, if_neg (Ne.symm hid), KeyedMap.get_remove]
    constructor
    · intro h _ held hheld
      have hsame : oldest.messageId = ref.messageId := by
        by_contra hother
        have hlost := hget _ hother
        rw [if_pos rfl, h.update ⟨held, hheld⟩ _ hother, hstored] at hlost
        cases hlost
      rw [← hsame, hstored] at hheld
      rwa [← Option.some.inj hheld]
    · intro h
      refine ⟨size_addMessageRef_le hsize ref, ?_, ?_⟩
      · rintro ⟨held, hheld⟩ id hid
        have hkey : held.messageId = ref.messageId := KeyedMap.key_of_get hheld
        have hown : m.Stores held := by rw [Stores, hkey, hheld]
        have hsame := hfirst.unique (h hfull held hheld) hstored hown
        rw [hget id hid, if_neg]
        rw [hsame, hkey]
        exact Ne.symm hid
      · intro hnew _
        have hother : oldest.messageId ≠ ref.messageId := by
          intro hsame
          rw [← hsame, hstored] at hnew
          cases hnew
        refine ⟨oldest, hstored, ?_, ?_, ?_⟩
        · intro other hin
          rw [UInt64.le_iff_toNat_le]
          rcases hfirst other hin with hless | ⟨hsame, -⟩
          · exact hless.le
          · exact hsame.le
        · rw [hget _ hother, if_pos rfl]
        · intro id hid hid'
          rw [hget id hid', if_neg (Ne.symm hid)]

/-! ## Any manager -/

theorem size_addMessageRefs_le (hsize : m.messageRefs.size ≤ maxMessageRefs)
    (refs : List MessageRef) :
    (run addMessageRef m refs).messageRefs.size ≤ maxMessageRefs :=
  Reachable.invariant
    (I := fun m : MultiDeviceSessionManager => m.messageRefs.size ≤ maxMessageRefs)
    (fun _ ref h => size_addMessageRef_le h ref) hsize ⟨refs, rfl⟩

theorem size_removeAll_le (refs : KeyedMap MessageRef.messageId) (ids : List Text) :
    (ids.foldl KeyedMap.remove refs).size ≤ refs.size := by
  induction ids generalizing refs with
  | nil => exact le_rfl
  | cons id ids ih =>
    refine (ih _).trans ?_
    rw [← KeyedMap.card_keys, ← KeyedMap.card_keys, KeyedMap.keys_remove]
    exact Finset.card_erase_le

theorem messageRefs_removeDevices (m : MultiDeviceSessionManager) (devices : List DeviceId) :
    (devices.foldl removeDevice m).messageRefs = m.messageRefs := by
  induction devices generalizing m with
  | nil => rfl
  | cons device devices ih => exact ih _

/-- No call takes the references beyond the limit. -/
theorem size_serve_le (hsize : m.messageRefs.size ≤ maxMessageRefs) (i : SyncInput) :
    (m.serve i).1.messageRefs.size ≤ maxMessageRefs := by
  obtain ⟨call, now⟩ := i
  cases call with
  | updateSession session => exact hsize
  | addMessageRef messageRef => exact size_addMessageRef_le hsize messageRef
  | processSyncRequest request => exact hsize
  | processSyncResponse response =>
    refine size_addMessageRefs_le ?_ response.newMessages
    rw [updateSessions_eq]
    exact hsize
  | removeDevice deviceId => exact hsize
  | cleanupOldData offlineDevices =>
    refine (size_removeAll_le _ _).trans ?_
    rw [messageRefs_removeDevices]
    exact hsize

/-- Insertions into a manager that calls have led to keep the newest references exactly if
each one that replaces a reference at the limit replaces the first one. -/
theorem keepsNewest_iff (localDevice : DeviceInfo) (history : List SyncInput)
    (refs : List MessageRef) :
    Along addMessageRef KeepsNewest (run serve (new localDevice) history) refs ↔
      Along addMessageRef ReplacesFirst (run serve (new localDevice) history) refs := by
  have hsize : (run serve (new localDevice) history).messageRefs.size ≤ maxMessageRefs :=
    Reachable.invariant
      (I := fun m : MultiDeviceSessionManager => m.messageRefs.size ≤ maxMessageRefs)
      (fun m i h => size_serve_le h i) (Nat.zero_le _) ⟨history, rfl⟩
  exact along_iff_of_invariant
    (I := fun m : MultiDeviceSessionManager => m.messageRefs.size ≤ maxMessageRefs)
    (fun m ref h => size_addMessageRef_le h ref) (fun m ref h => keepsNewest_step_iff h ref) hsize

/-- The reference of the time `i`. -/
def numbered (i : ℕ) : MessageRef :=
  ⟨List.replicate i 'a', chatPeer, none, ⟨UInt64.ofNat i⟩, [], false⟩

/-- As many references as are allowed, each newer than the one before. -/
def numberedRefs : List MessageRef := (List.range maxMessageRefs).map numbered

theorem nodup_numberedRefs : (numberedRefs.map MessageRef.messageId).Nodup := by
  rw [numberedRefs, List.map_map]
  refine List.nodup_range.map ?_
  intro i j hsame
  simpa [numbered] using congrArg List.length hsame

theorem length_numberedRefs : numberedRefs.length = maxMessageRefs := by
  rw [numberedRefs, List.length_map, List.length_range]

theorem stores_numbered {i : ℕ} (hi : i < maxMessageRefs) :
    (run addMessageRef phone numberedRefs).Stores (numbered i) := by
  have hmem : numbered i ∈ numberedRefs := List.mem_map_of_mem (List.mem_range.mpr hi)
  have hempty : phone.messageRefs.size = 0 := rfl
  have hadded := get_addMessageRefs (m := phone) nodup_numberedRefs
    (fun ref _ => KeyedMap.get_empty ref.messageId)
    (by rw [hempty, Nat.zero_add, length_numberedRefs]) (numbered i).messageId
  have hfind : numberedRefs.find? (fun ref => ref.messageId = (numbered i).messageId) =
      some (numbered i) := by
    apply find?_eq_of_unique
    intro ref
    rw [decide_eq_true_iff, Option.some.injEq]
    constructor
    · rintro ⟨href, hid⟩
      exact List.inj_on_of_nodup_map nodup_numberedRefs hmem href hid.symm
    · rintro rfl
      exact ⟨hmem, rfl⟩
  rw [Stores, hadded, hfind]
  rfl

theorem size_numberedRefs :
    (run addMessageRef phone numberedRefs).messageRefs.size = maxMessageRefs := by
  refine le_antisymm (size_addMessageRefs_le (Nat.zero_le _) numberedRefs) ?_
  have hids : (numberedRefs.map MessageRef.messageId).toFinset.card = maxMessageRefs := by
    rw [List.toFinset_card_of_nodup nodup_numberedRefs, List.length_map, length_numberedRefs]
  rw [← KeyedMap.card_keys]
  refine hids.ge.trans (Finset.card_le_card ?_)
  intro id hid
  obtain ⟨ref, href, rfl⟩ := List.mem_map.mp (List.mem_toFinset.mp hid)
  obtain ⟨i, hi, rfl⟩ := List.mem_map.mp href
  exact KeyedMap.mem_keys_iff.mpr ⟨_, stores_numbered (List.mem_range.mp hi)⟩

/-- The first of the references is the one of the time 0. -/
theorem eq_zero_of_isFirst {i : ℕ} (hi : i < maxMessageRefs)
    (h : (run addMessageRef phone numberedRefs).IsFirst (numbered i)) : i = 0 := by
  have htime (j : ℕ) (hj : j < maxMessageRefs) :
      (numbered j).timestamp.asMillis.toNat = j := by
    unfold maxMessageRefs at hj
    exact UInt64.toNat_ofNat_of_lt' (show j < 2 ^ 64 by omega)
  have hzero : 0 < maxMessageRefs := Nat.zero_lt_of_lt hi
  have hnone := h (numbered 0) (stores_numbered hzero)
  rw [htime i hi, htime 0 hzero] at hnone
  rcases hnone with hless | ⟨hsame, -⟩
  · omega
  · exact hsame

/-- The newest reference is added once more. -/
theorem readded_loses_oldest :
    ¬ Along addMessageRef KeepsNewest (run serve phone []) (numberedRefs ++ [numbered 999]) := by
  rw [run_nil, along_append]
  rintro ⟨-, hkeeps, -⟩
  have hlast : 999 < maxMessageRefs := by norm_num [maxMessageRefs]
  have hfirst := (keepsNewest_step_iff size_numberedRefs.le _).mp hkeeps size_numberedRefs _
    (stores_numbered hlast)
  exact absurd (eq_zero_of_isFirst hlast hfirst) (by decide)

end MultiDeviceSessionManager

end Bitchat
