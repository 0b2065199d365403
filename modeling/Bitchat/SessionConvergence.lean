import Bitchat.SessionSync

/-!
# What a synchronisation brings

One device asks another one and takes in its answer. Message references are
always exchanged; session states only of the peers that the asking device knows.
-/
namespace Bitchat
open Rust

namespace MultiDeviceSessionManager

variable {a b m : MultiDeviceSessionManager} {p : PeerId}

/-- Of two states for one peer, the one that was synchronised last. -/
def newer : Option SessionSyncState → Option SessionSyncState → Option SessionSyncState
  | none, remote => remote
  | own, none => own
  | some own, some remote =>
    if own.lastSync.asMillis < remote.lastSync.asMillis then some remote else some own

@[simp] theorem sessionStates_addMessageRef (m : MultiDeviceSessionManager) (ref : MessageRef) :
    (m.addMessageRef ref).1.sessionStates = m.sessionStates := by
  unfold addMessageRef makeRoom
  split_ifs
  · cases m.oldestRef <;> rfl
  · rfl

theorem sessionStates_addMessageRefs (m : MultiDeviceSessionManager) (refs : List MessageRef) :
    (run addMessageRef m refs).sessionStates = m.sessionStates := by
  induction refs generalizing m with
  | nil => rfl
  | cons ref refs ih => rw [run_cons, ih, sessionStates_addMessageRef]

theorem updateSessions_eq (m : MultiDeviceSessionManager) (updates : List SessionSyncState) :
    updates.foldl updateSession m =
      { m with sessionStates := updates.foldl KeyedMap.put m.sessionStates } := by
  induction updates generalizing m with
  | nil => rfl
  | cons update updates ih => rw [List.foldl_cons, ih, updateSession, List.foldl_cons]

theorem sessionStates_processSyncResponse (m : MultiDeviceSessionManager)
    (response : SessionSyncResponse) (now : Timestamp) :
    (m.processSyncResponse response now).1.sessionStates =
      response.sessionUpdates.foldl KeyedMap.put m.sessionStates := by
  simp only [processSyncResponse, sessionStates_addMessageRefs, updateSessions_eq]

/-- Where there is room, nothing makes place for a reference. -/
theorem addMessageRef_of_room (room : m.messageRefs.size < maxMessageRefs) (ref : MessageRef) :
    (m.addMessageRef ref).1 = { m with messageRefs := m.messageRefs.put ref } := by
  have stays : m.makeRoom = m := if_neg (not_le.mpr room)
  rw [addMessageRef, stays]

theorem size_put_of_new {ref : MessageRef} (new : m.messageRefs.get ref.messageId = none) :
    (m.messageRefs.put ref).size = m.messageRefs.size + 1 := by
  have absent : ref.messageId ∉ m.messageRefs.keys := by simp [KeyedMap.mem_keys, new]
  rw [← KeyedMap.card_keys, ← KeyedMap.card_keys, KeyedMap.keys_put,
    Finset.card_insert_of_notMem absent]

/-- New references for which there is room are all added. -/
theorem get_addMessageRefs {refs : List MessageRef} (nodup : (refs.map MessageRef.messageId).Nodup)
    (new : ∀ ref ∈ refs, m.messageRefs.get ref.messageId = none)
    (room : m.messageRefs.size + refs.length ≤ maxMessageRefs) (id : Text) :
    (run addMessageRef m refs).messageRefs.get id =
      (m.messageRefs.get id).or (refs.find? fun ref => ref.messageId = id) := by
  induction refs generalizing m with
  | nil => simp
  | cons ref refs ih =>
    rw [List.length_cons] at room
    obtain ⟨other, nodup⟩ := List.nodup_cons.mp nodup
    have unknown := new ref List.mem_cons_self
    rw [run_cons, addMessageRef_of_room (by omega), ih nodup]
    · rw [KeyedMap.get_put, List.find?_cons]
      by_cases hid : ref.messageId = id
      · rw [← hid, unknown]
        simp
      · simp [hid]
    · intro later hlater
      have distinct : ref.messageId ≠ later.messageId := by
        intro same
        exact other (List.mem_map.mpr ⟨later, hlater, same.symm⟩)
      rw [KeyedMap.get_put, if_neg distinct]
      exact new later (List.mem_cons_of_mem ref hlater)
    · simp only [size_put_of_new unknown]
      omega

/-- The references that the other device has and this one has not. -/
def missing (a b : MultiDeviceSessionManager) : List MessageRef :=
  b.messageRefs.values.filter fun ref => (a.messageRefs.get ref.messageId).isNone

def phone : MultiDeviceSessionManager := new ⟨⟨['p']⟩⟩

def chatPeer : PeerId := ⟨List.Vector.replicate 8 1⟩

end MultiDeviceSessionManager

end Bitchat
