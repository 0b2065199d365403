import Bitchat.Rust.Overwrites
import Bitchat.SessionConvergence

/-!
# Merging responses of several devices

The updates of a response are written over the stored states. What that does to
responses that come in any order, and more than once.
-/
namespace Bitchat
open Rust

namespace SessionSyncResponse

/-- The last update of a response for a peer. -/
def lastUpdate (r : SessionSyncResponse) (p : PeerId) : Option SessionSyncState :=
  r.sessionUpdates.reverse.find? fun s => s.peerId = p

/-- No two updates for one peer have the same time and differ. -/
def Unambiguous (S : Finset SessionSyncResponse) : Prop :=
  ∀ r ∈ S, ∀ r' ∈ S, ∀ s ∈ r.sessionUpdates, ∀ s' ∈ r'.sessionUpdates,
    s.peerId = s'.peerId → s.lastSync = s'.lastSync → s = s'

end SessionSyncResponse

namespace MultiDeviceSessionManager

open Overwrites SessionSyncResponse

/-- The response and the time at which it is processed. -/
abbrev Received := SessionSyncResponse × Timestamp

def step (m : MultiDeviceSessionManager) (input : Received) :
    Call BitchatError MultiDeviceSessionManager Unit :=
  m.processSyncResponse input.1 input.2

/-- The responses of a set lead to the same session states in every order, and no step takes a
session back to an earlier time. -/
structure MergesSafely (m : MultiDeviceSessionManager) (S : Finset SessionSyncResponse) : Prop where
  orderFree : ∀ xs ys : List Received, Enumerates S (xs.map Prod.fst) →
    Enumerates S (ys.map Prod.fst) → ∀ p,
      (run step m xs).sessionStates.get p = (run step m ys).sessionStates.get p
  rising : ∀ before (i : Received) rest, Enumerates S ((before ++ i :: rest).map Prod.fst) →
    ∀ p s, (run step m before).sessionStates.get p = some s →
      ∃ s', (step (run step m before) i).1.sessionStates.get p = some s' ∧
        s.lastSync.asMillis.toNat ≤ s'.lastSync.asMillis.toNat

/-- All responses that update a peer end on the same update, which is not older than the
stored state. -/
structure UpToDate (m : MultiDeviceSessionManager) (S : Finset SessionSyncResponse) : Prop where
  agree : ∀ r ∈ S, ∀ r' ∈ S, ∀ p s s', r.lastUpdate p = some s → r'.lastUpdate p = some s' → s = s'
  fresh : ∀ r ∈ S, ∀ p s s', m.sessionStates.get p = some s → r.lastUpdate p = some s' →
    s.lastSync.asMillis.toNat ≤ s'.lastSync.asMillis.toNat

theorem get_step (m : MultiDeviceSessionManager) (input : Received) (p : PeerId) :
    (step m input).1.sessionStates.get p =
      (input.1.lastUpdate p).or (m.sessionStates.get p) := by
  rw [step, sessionStates_processSyncResponse, KeyedMap.get_putAll, lastUpdate]

/-- The session states after a run are what its responses wrote. -/
theorem get_run (m : MultiDeviceSessionManager) (inputs : List Received) (p : PeerId) :
    (run step m inputs).sessionStates.get p =
      written lastUpdate m.sessionStates.get (inputs.map Prod.fst) p := by
  induction inputs using List.reverseRecOn with
  | nil => rfl
  | append_singleton inputs i ih =>
    rw [run_concat, get_step, ih, List.map_append, List.map_singleton, written_concat]

/-- Responses that are all processed at the same time. -/
def atOnce (responses : List SessionSyncResponse) : List Received :=
  responses.map fun r => (r, ⟨0⟩)

theorem map_fst_atOnce (responses : List SessionSyncResponse) :
    (atOnce responses).map Prod.fst = responses := by
  rw [atOnce, List.map_map]
  exact List.map_id responses

theorem orderFree_iff (m : MultiDeviceSessionManager) (S : Finset SessionSyncResponse) :
    (∀ xs ys : List Received, Enumerates S (xs.map Prod.fst) → Enumerates S (ys.map Prod.fst) →
      ∀ p, (run step m xs).sessionStates.get p = (run step m ys).sessionStates.get p) ↔
    OrderFree lastUpdate m.sessionStates.get S := by
  simp only [get_run]
  constructor
  · intro h xs ys hxs hys p
    have here := h (atOnce xs) (atOnce ys)
    rw [map_fst_atOnce, map_fst_atOnce] at here
    exact here hxs hys p
  · intro h xs ys hxs hys p
    exact h _ _ hxs hys p

theorem rising_iff (m : MultiDeviceSessionManager) (S : Finset SessionSyncResponse) :
    (∀ before (i : Received) rest, Enumerates S ((before ++ i :: rest).map Prod.fst) →
      ∀ p s, (run step m before).sessionStates.get p = some s →
        ∃ s', (step (run step m before) i).1.sessionStates.get p = some s' ∧
          s.lastSync.asMillis.toNat ≤ s'.lastSync.asMillis.toNat) ↔
    Rising lastUpdate (fun s => s.lastSync.asMillis.toNat) m.sessionStates.get S := by
  simp only [← run_concat, get_run]
  constructor
  · intro h before i rest henum p s hs
    have here := h (atOnce before) (i, ⟨0⟩) (atOnce rest)
    simp only [List.map_append, List.map_cons, map_fst_atOnce, List.map_nil] at here
    exact here henum p s hs
  · intro h before i rest henum p s hs
    rw [List.map_append, List.map_cons] at henum
    simpa using h _ _ _ henum p s hs

/-- Merging is safe exactly if the responses agree on what is new. -/
theorem mergesSafely_iff_upToDate (m : MultiDeviceSessionManager)
    (S : Finset SessionSyncResponse) : m.MergesSafely S ↔ m.UpToDate S := by
  have abstract := orderFree_and_rising_iff lastUpdate m.sessionStates.get S
    fun s => s.lastSync.asMillis.toNat
  rw [← orderFree_iff, ← rising_iff] at abstract
  constructor
  · intro safe
    obtain ⟨agree, fresh⟩ := abstract.mp ⟨safe.orderFree, safe.rising⟩
    exact ⟨agree, fresh⟩
  · intro upToDate
    obtain ⟨orderFree, rising⟩ := abstract.mpr ⟨upToDate.agree, upToDate.fresh⟩
    exact ⟨orderFree, rising⟩

/-- A response with one update. -/
def updateOf (device : DeviceId) (s : SessionSyncState) : SessionSyncResponse :=
  ⟨device, [s], [], [], ⟨9⟩⟩

def activeUpdate : SessionSyncResponse :=
  updateOf ⟨['l']⟩ ⟨chatPeer, .active, none, 0, none, ⟨5⟩⟩

def staleUpdate : SessionSyncResponse :=
  updateOf ⟨['t']⟩ ⟨chatPeer, .handshaking, none, 0, none, ⟨2⟩⟩

/-- The stale answer of one device rolls back what another one brought. -/
theorem stale_rolls_back :
    Unambiguous {activeUpdate, staleUpdate} ∧ ¬ phone.MergesSafely {activeUpdate, staleUpdate} := by
  refine ⟨by unfold Unambiguous; decide, fun safe => ?_⟩
  have same := safe.orderFree [(activeUpdate, ⟨10⟩), (staleUpdate, ⟨11⟩)]
    [(staleUpdate, ⟨10⟩), (activeUpdate, ⟨11⟩)] (by intro r; simp) (by intro r; simp [or_comm])
    chatPeer
  exact absurd same (by decide)

end MultiDeviceSessionManager

end Bitchat
