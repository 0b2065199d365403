import Bitchat.ConnectionDeadlines
import Bitchat.Rust.Panics
import Bitchat.Rust.Purge
import Bitchat.Rust.Recency

/-!
# The books of the connection manager

What the statistics and the audit trail say after any calls. A peer whose event is rejected
is gone without being counted as removed. The calls about one peer do not notice those about
others.
-/
namespace Bitchat
open Rust

/-- Nobody was seen since, and no connection is being made. -/
def ConnectionState.isOld (cutoffTime : ℕ) : ConnectionState → Bool
  | .disconnected s => s.lastSeen.any fun lastSeen => lastSeen.asMillis.toNat < cutoffTime
  | .failed s => s.failedAt.asMillis.toNat < cutoffTime
  | _ => false

inductive ConnectionCall where
  | initializePeer (peerId : PeerId)
  | processConnectionEvent (peerId : PeerId) (event : ConnectionEvent)
  | removePeer (peerId : PeerId)
  | cleanupOldPeers (maxAgeSeconds : UInt64)

/-- A clean-up concerns every peer. -/
def ConnectionCall.concerns (p : PeerId) : ConnectionCall → Bool
  | .initializePeer peerId => peerId = p
  | .processConnectionEvent peerId _ => peerId = p
  | .removePeer peerId => peerId = p
  | .cleanupOldPeers _ => true

inductive ConnectionAnswer where
  | initialized (state : Option ConnectionState)
  | processed (result : Outcome InvalidTransition StateTransition)
  | removed (state : Option ConnectionState)
  | cleaned (result : Outcome InvalidTransition Unit)

namespace ConnectionAnswer

/-- The audit entry of an accepted event. -/
def entry : ConnectionAnswer → Option AuditEntry
  | .processed (.ok t) => some t.auditEntry
  | _ => none

/-- The event was rejected, or its deadline overflowed. -/
def failed : ConnectionAnswer → Bool
  | .processed (.error _) => true
  | _ => false

end ConnectionAnswer

namespace ConnectionManager

def removePeer (m : ConnectionManager) (peerId : PeerId) :
    ConnectionManager × Option ConnectionState :=
  match m.getConnection peerId with
  | none => (m, none)
  | some state =>
    ({ m with
      connections := m.connections.erase peerId
      stats := { m.stats with peersRemoved := m.stats.peersRemoved + 1 } }, some state)

/-- The peers to remove are collected first, then removed in some order. -/
def cleanupOldPeers (m : ConnectionManager) (maxAgeSeconds : UInt64) (now : Timestamp) :
    Call InvalidTransition ConnectionManager Unit :=
  match (u64Mul maxAgeSeconds.toNat 1000 : Outcome InvalidTransition ℕ) with
  | .error e => (m, .error e)
  | .ok maxAge =>
    let isOld := fun (_ : PeerId) (state : ConnectionState) =>
      state.isOld (now.asMillis.toNat - maxAge)
    let removed := Map.size (Map.retain isOld m.connections)
    ({ m with
      connections := Map.retain (fun p state => !isOld p state) m.connections
      stats := { m.stats with
        peersRemoved := m.stats.peersRemoved + removed
        peersCleanedUp := m.stats.peersCleanedUp + removed } }, .ok ())

def serve (m : ConnectionManager) (call : ConnectionCall × Timestamp) :
    ConnectionManager × ConnectionAnswer :=
  match call.1 with
  | .initializePeer peerId =>
    (m.initializePeer peerId, .initialized ((m.initializePeer peerId).getConnection peerId))
  | .processConnectionEvent peerId event =>
    let processed := m.processConnectionEvent peerId event call.2
    (processed.1, .processed processed.2)
  | .removePeer peerId => ((m.removePeer peerId).1, .removed (m.removePeer peerId).2)
  | .cleanupOldPeers maxAgeSeconds =>
    let cleaned := m.cleanupOldPeers maxAgeSeconds call.2
    (cleaned.1, .cleaned cleaned.2)

/-- The books after the answers that were given so far. -/
structure Balanced (m : ConnectionManager) (answers : List ConnectionAnswer) : Prop where
  peers : m.stats.peersInitialized = Map.size m.connections + m.stats.peersRemoved +
    answers.countP ConnectionAnswer.failed
  transitions : m.stats.stateTransitions = (answers.filterMap ConnectionAnswer.entry).length
  trail : m.auditTrail = (answers.filterMap ConnectionAnswer.entry).rtake 1000
  cleaned : m.stats.peersCleanedUp ≤ m.stats.peersRemoved

variable {m : ConnectionManager} {answers : List ConnectionAnswer} {p : PeerId}
  {c : ConnectionState}

theorem initializePeer_of_tracked (tracked : m.getConnection p = some c) :
    m.initializePeer p = m := by simp [initializePeer, tracked]

theorem initializePeer_of_new (new : m.getConnection p = none) :
    m.initializePeer p =
      { m with
        connections := m.connections.insert p (.newDisconnected p)
        stats := { m.stats with peersInitialized := m.stats.peersInitialized + 1 } } := by
  simp [initializePeer, new]

theorem size_of_tracked (tracked : m.getConnection p = some c) :
    Map.size (m.connections.erase p) + 1 = Map.size m.connections :=
  Map.size_erase_of_mem (Finmap.mem_iff.mpr ⟨c, tracked⟩)

theorem Balanced.initializePeer (h : m.Balanced answers) (p : PeerId) :
    (m.initializePeer p).Balanced answers := by
  cases tracked : m.getConnection p with
  | some c =>
    rw [initializePeer_of_tracked tracked]
    exact h
  | none =>
    have absent : p ∉ m.connections := Finmap.lookup_eq_none.mp tracked
    have peers := h.peers
    rw [initializePeer_of_new tracked]
    refine ⟨?_, h.transitions, h.trail, h.cleaned⟩
    rw [Map.size_insert_of_notMem _ absent]
    show m.stats.peersInitialized + 1 =
      Map.size m.connections + 1 + m.stats.peersRemoved + answers.countP ConnectionAnswer.failed
    omega

theorem Balanced.removePeer (h : m.Balanced answers) (p : PeerId) :
    (m.removePeer p).1.Balanced answers := by
  cases tracked : m.getConnection p with
  | none => simpa [ConnectionManager.removePeer, tracked] using h
  | some c =>
    have size := size_of_tracked tracked
    have peers := h.peers
    have cleaned := h.cleaned
    simp only [ConnectionManager.removePeer, tracked]
    refine ⟨?_, h.transitions, h.trail, ?_⟩
    · show m.stats.peersInitialized = Map.size (m.connections.erase p) +
        (m.stats.peersRemoved + 1) + answers.countP ConnectionAnswer.failed
      omega
    · show m.stats.peersCleanedUp ≤ m.stats.peersRemoved + 1
      omega

theorem Balanced.cleanupOldPeers (h : m.Balanced answers) (maxAgeSeconds : UInt64)
    (now : Timestamp) : (m.cleanupOldPeers maxAgeSeconds now).1.Balanced answers := by
  unfold ConnectionManager.cleanupOldPeers
  cases (u64Mul maxAgeSeconds.toNat 1000 : Outcome InvalidTransition ℕ) with
  | error fault => exact h
  | ok maxAge =>
    have size := Map.size_retain_add (fun (_ : PeerId) (state : ConnectionState) =>
      state.isOld (now.asMillis.toNat - maxAge)) m.connections
    have peers := h.peers
    refine ⟨?_, h.transitions, h.trail, Nat.add_le_add_right h.cleaned _⟩
    simp only at size ⊢
    omega

/-- An answer that notes nothing in the books. -/
theorem Balanced.answer (h : m.Balanced answers) {answer : ConnectionAnswer}
    (nothing : answer.entry = none) (unfailing : answer.failed = false) :
    m.Balanced (answers ++ [answer]) := by
  refine ⟨?_, ?_, ?_, h.cleaned⟩
  · simpa [unfailing] using h.peers
  · simpa [nothing] using h.transitions
  · simpa [nothing] using h.trail

/-- The entry is taken before the transition, and stored again after it. -/
theorem Balanced.processConnectionEvent (h : m.Balanced answers) (p : PeerId)
    (event : ConnectionEvent) (now : Timestamp) :
    (m.processConnectionEvent p event now).1.Balanced
      (answers ++ [.processed (m.processConnectionEvent p event now).2]) := by
  have start := h.initializePeer p
  have tracked : (m.initializePeer p).getConnection p = some _ :=
    (getConnection_initializePeer m p p).trans (if_pos rfl)
  have size := size_of_tracked tracked
  have peers := start.peers
  have processed := m.step_eq ⟨p, event, now⟩
  rw [step] at processed
  rw [processed]
  cases m.met ⟨p, event, now⟩ |>.transition event now with
  | error fault =>
    have same : (answers ++ [ConnectionAnswer.processed (.error fault)]).filterMap
        ConnectionAnswer.entry = answers.filterMap ConnectionAnswer.entry := by
      rw [List.filterMap_append]
      exact List.append_nil _
    refine ⟨?_, same ▸ start.transitions, same ▸ start.trail, start.cleaned⟩
    · rw [List.countP_append]
      show (m.initializePeer p).stats.peersInitialized =
        Map.size ((m.initializePeer p).connections.erase p) +
          (m.initializePeer p).stats.peersRemoved +
          (answers.countP ConnectionAnswer.failed + 1)
      omega
  | ok t =>
    have stored : Map.size (((m.initializePeer p).connections.erase p).insert p t.newState) =
        Map.size ((m.initializePeer p).connections.erase p) + 1 :=
      Map.size_insert_of_notMem _ (Finmap.notMem_erase_self)
    refine ⟨?_, ?_, ?_, start.cleaned⟩
    · rw [List.countP_append]
      show (m.initializePeer p).stats.peersInitialized =
        Map.size (((m.initializePeer p).connections.erase p).insert p t.newState) +
          (m.initializePeer p).stats.peersRemoved +
          (answers.countP ConnectionAnswer.failed + 0)
      omega
    · rw [List.filterMap_append]
      show (m.initializePeer p).stats.stateTransitions + 1 = _
      rw [start.transitions]
      simp [ConnectionAnswer.entry]
    · rw [List.filterMap_append]
      show pushCapped 1000 (m.initializePeer p).auditTrail t.auditEntry = _
      rw [start.trail, pushCapped_rtake (by decide)]
      rfl

/-- The books balance after any calls. -/
theorem balanced_run (calls : List (ConnectionCall × Timestamp)) :
    (run serve new calls).Balanced (outputs serve new calls) := by
  refine outputs_invariant (J := fun _ => True) (I := Balanced) (fun _ _ _ => trivial) ?_ trivial ?_
    calls
  · rintro m answers ⟨call, now⟩ - h
    cases call with
    | initializePeer p => exact (h.initializePeer p).answer rfl rfl
    | processConnectionEvent p event => exact h.processConnectionEvent p event now
    | removePeer p => exact (h.removePeer p).answer rfl rfl
    | cleanupOldPeers maxAgeSeconds => exact (h.cleanupOldPeers maxAgeSeconds now).answer rfl rfl
  · exact ⟨rfl, rfl, rfl, le_rfl⟩

/-! ## One peer among others -/

/-- The peer has the same entry in both, or in neither. -/
def AlikeFor (p : PeerId) (m m' : ConnectionManager) : Prop :=
  m.getConnection p = m'.getConnection p

theorem getConnection_removePeer (m : ConnectionManager) (p q : PeerId) :
    (m.removePeer p).1.getConnection q = if q = p then none else m.getConnection q := by
  cases tracked : m.getConnection p with
  | none =>
    simp only [removePeer, tracked]
    split_ifs with h
    · rw [h, tracked]
    · rfl
  | some c =>
    simp only [removePeer, tracked]
    exact Map.lookup_erase_if q p m.connections

theorem removePeer_result (m : ConnectionManager) (p : PeerId) :
    (m.removePeer p).2 = m.getConnection p := by
  cases tracked : m.getConnection p <;> simp [removePeer, tracked]

theorem alike_cleanupOldPeers {m' : ConnectionManager} (alike : AlikeFor p m m')
    (maxAgeSeconds : UInt64) (now : Timestamp) :
    AlikeFor p (m.serve (.cleanupOldPeers maxAgeSeconds, now)).1
        (m'.serve (.cleanupOldPeers maxAgeSeconds, now)).1 ∧
      (m.serve (.cleanupOldPeers maxAgeSeconds, now)).2 =
        (m'.serve (.cleanupOldPeers maxAgeSeconds, now)).2 := by
  simp only [serve, cleanupOldPeers]
  cases (u64Mul maxAgeSeconds.toNat 1000 : Outcome InvalidTransition ℕ) with
  | error fault => exact ⟨alike, rfl⟩
  | ok maxAge =>
    refine ⟨?_, rfl⟩
    have entry : m.connections.lookup p = m'.connections.lookup p := alike
    show (Map.retain _ m.connections).lookup p = (Map.retain _ m'.connections).lookup p
    rw [Map.lookup_retain, Map.lookup_retain, entry]

/-- The calls about a peer depend on its entry alone, and the others leave it as it is. -/
theorem purges (p : PeerId) : Purges serve (fun call => call.1.concerns p) (AlikeFor p) := by
  constructor
  · rintro m m' ⟨call, now⟩ alike concerns
    cases call with
    | initializePeer q =>
      obtain rfl : q = p := by simpa [ConnectionCall.concerns] using concerns
      have same : (m.initializePeer q).getConnection q = (m'.initializePeer q).getConnection q := by
        rw [getConnection_initializePeer, getConnection_initializePeer, alike]
      exact ⟨same, congrArg ConnectionAnswer.initialized same⟩
    | processConnectionEvent q event =>
      obtain rfl : q = p := by simpa [ConnectionCall.concerns] using concerns
      have result : (m.step ⟨q, event, now⟩).2 = (m'.step ⟨q, event, now⟩).2 := by
        rw [step_result, step_result, met, met, alike]
      have same : (m.step ⟨q, event, now⟩).1.getConnection q =
          (m'.step ⟨q, event, now⟩).1.getConnection q := by
        rw [getConnection_step, getConnection_step, result, alike]
      exact ⟨same, congrArg ConnectionAnswer.processed result⟩
    | removePeer q =>
      obtain rfl : q = p := by simpa [ConnectionCall.concerns] using concerns
      have same : (m.removePeer q).1.getConnection q = (m'.removePeer q).1.getConnection q := by
        rw [getConnection_removePeer, getConnection_removePeer, alike]
      refine ⟨same, congrArg ConnectionAnswer.removed ?_⟩
      rw [removePeer_result, removePeer_result, alike]
    | cleanupOldPeers maxAgeSeconds =>
      exact alike_cleanupOldPeers alike maxAgeSeconds now
  · rintro m m' ⟨call, now⟩ alike concerns
    refine Eq.trans ?_ alike
    cases call with
    | initializePeer q =>
      have other : p ≠ q := by simpa [ConnectionCall.concerns, eq_comm] using concerns
      exact (getConnection_initializePeer m q p).trans (if_neg other)
    | processConnectionEvent q event =>
      have other : p ≠ q := by simpa [ConnectionCall.concerns, eq_comm] using concerns
      exact (getConnection_step m ⟨q, event, now⟩ p).trans (if_neg other)
    | removePeer q =>
      have other : p ≠ q := by simpa [ConnectionCall.concerns, eq_comm] using concerns
      exact (getConnection_removePeer m q p).trans (if_neg other)
    | cleanupOldPeers maxAgeSeconds => cases concerns

/-- The answers about a peer are those of a manager that serves nobody else. -/
theorem answers_alone (p : PeerId) (calls : List (ConnectionCall × Timestamp)) :
    Rust.answers serve (fun call => call.1.concerns p) new calls =
      outputs serve new (calls.filter fun call => call.1.concerns p) :=
  (purges p).answers_eq rfl

end ConnectionManager

end Bitchat
