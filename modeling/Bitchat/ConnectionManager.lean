import Bitchat.ConnectionState
import Bitchat.Rust.Call
import Bitchat.Rust.Map

/-!
# The connection manager

`ConnectionManager` of `managers/connection.rs` and the events it passes to the
connection state of a peer. Its time source serves the timeout report and the
clean-up only and is left out with them.
-/
namespace Bitchat
open Rust

structure ConnectionStats where
  peersInitialized : ℕ
  peersRemoved : ℕ
  stateTransitions : ℕ
  peersCleanedUp : ℕ
  deriving DecidableEq

structure ConnectionManager where
  connections : Map PeerId ConnectionState
  auditTrail : List AuditEntry
  stats : ConnectionStats

namespace ConnectionManager

def new : ConnectionManager := ⟨∅, [], ⟨0, 0, 0, 0⟩⟩

def getConnection (m : ConnectionManager) (peerId : PeerId) : Option ConnectionState :=
  m.connections.lookup peerId

/-- Starts a peer that has no entry. -/
def initializePeer (m : ConnectionManager) (peerId : PeerId) : ConnectionManager :=
  match m.getConnection peerId with
  | some _ => m
  | none =>
    { m with
      connections := m.connections.insert peerId (ConnectionState.newDisconnected peerId)
      stats := { m.stats with peersInitialized := m.stats.peersInitialized + 1 } }

/-- `connections.remove(&peer_id)`, for the table that is left. -/
def takeConnection (m : ConnectionManager) (peerId : PeerId) : ConnectionManager :=
  { m with connections := m.connections.erase peerId }

/-- Stores the successor and its audit entry. The last 1000 entries are kept. -/
def storeTransition (m : ConnectionManager) (peerId : PeerId) (t : StateTransition) :
    ConnectionManager :=
  let trail := m.auditTrail ++ [t.auditEntry]
  { connections := m.connections.insert peerId t.newState
    auditTrail := if 1000 < trail.length then trail.tail else trail
    stats := { m.stats with stateTransitions := m.stats.stateTransitions + 1 } }

def processConnectionEvent (m : ConnectionManager) (peerId : PeerId) (event : ConnectionEvent)
    (now : Timestamp) : Call InvalidTransition ConnectionManager StateTransition :=
  let m := m.initializePeer peerId
  match m.getConnection peerId with
  | none => (m, panicked)
  | some currentState =>
    -- the rejection returns here, with the entry already taken
    Call.andThen (m.takeConnection peerId, currentState.transition event now) fun m transition =>
      (m.storeTransition peerId transition, .ok transition)

/-- A rejected event leaves the manager as it was; an accepted one changes the
entry of its peer alone. -/
def AtomicOnFailure (m : ConnectionManager) (peerId : PeerId) (event : ConnectionEvent)
    (now : Timestamp) : Prop :=
  (∀ e, (m.processConnectionEvent peerId event now).2 = fail e →
    (m.processConnectionEvent peerId event now).1 = m) ∧
  ∀ t, (m.processConnectionEvent peerId event now).2 = .ok t → ∀ q, q ≠ peerId →
    (m.processConnectionEvent peerId event now).1.getConnection q = m.getConnection q

theorem getConnection_takeConnection (m : ConnectionManager) (p q : PeerId) :
    (m.takeConnection p).getConnection q = if q = p then none else m.getConnection q :=
  Map.lookup_erase_if q p m.connections

theorem getConnection_storeTransition (m : ConnectionManager) (p q : PeerId)
    (t : StateTransition) :
    (m.storeTransition p t).getConnection q =
      if q = p then some t.newState else m.getConnection q :=
  Map.lookup_insert_if q p _ m.connections

section

variable {m : ConnectionManager} {p : PeerId} {c : ConnectionState}

/-- What the call does for a peer that has an entry. -/
theorem processConnectionEvent_of_tracked (tracked : m.getConnection p = some c)
    (event : ConnectionEvent) (now : Timestamp) :
    m.processConnectionEvent p event now =
      Call.andThen (m.takeConnection p, c.transition event now) fun m transition =>
        (m.storeTransition p transition, .ok transition) := by
  have same : m.initializePeer p = m := by simp [initializePeer, tracked]
  simp [processConnectionEvent, same, tracked]

/-- A rejection takes the entry of the peer with it. -/
theorem getConnection_of_rejected (tracked : m.getConnection p = some c)
    {event : ConnectionEvent} {now : Timestamp} {e : InvalidTransition}
    (rejected : c.transition event now = fail e) :
    (m.processConnectionEvent p event now).2 = fail e ∧
      (m.processConnectionEvent p event now).1.getConnection p = none := by
  rw [processConnectionEvent_of_tracked tracked, rejected]
  exact ⟨rfl, (getConnection_takeConnection m p p).trans (if_pos rfl)⟩

theorem getConnection_of_accepted (tracked : m.getConnection p = some c)
    {event : ConnectionEvent} {now : Timestamp} {t : StateTransition}
    (accepted : c.transition event now = .ok t) (q : PeerId) :
    (m.processConnectionEvent p event now).1.getConnection q =
      if q = p then some t.newState else m.getConnection q := by
  rw [processConnectionEvent_of_tracked tracked, accepted, Call.andThen_ok,
    getConnection_storeTransition, getConnection_takeConnection]
  by_cases hq : q = p
  · rw [if_pos hq, if_pos hq]
  · rw [if_neg hq, if_neg hq, if_neg hq]

/-- The result of the call is that of the transition. -/
theorem processConnectionEvent_result (tracked : m.getConnection p = some c)
    (event : ConnectionEvent) (now : Timestamp) :
    (m.processConnectionEvent p event now).2 = c.transition event now := by
  rw [processConnectionEvent_of_tracked tracked]
  cases c.transition event now <;> rfl

/-- Processing an event is atomic on failure exactly when the peer's state
accepts the event: every rejection loses the entry. -/
theorem atomicOnFailure_iff_accepts (tracked : m.getConnection p = some c)
    (event : ConnectionEvent) (now : Timestamp) :
    m.AtomicOnFailure p event now ↔ c.accepts event = true := by
  have result := processConnectionEvent_result tracked event now
  constructor
  · intro atomic
    by_contra h
    obtain ⟨e, rejected⟩ :=
      (c.transition_rejected_iff event now).mpr ((Bool.not_eq_true _).mp h)
    have unchanged := atomic.1 e (result.trans rejected)
    have lost := (getConnection_of_rejected tracked rejected).2
    rw [unchanged, tracked] at lost
    cases lost
  · intro accepted
    constructor
    · intro e he
      have refused := (c.transition_rejected_iff event now).mp ⟨e, result.symm.trans he⟩
      rw [accepted] at refused
      cases refused
    · intro t ht q hq
      rw [getConnection_of_accepted tracked (result.symm.trans ht) q, if_neg hq]

end

/-- A manager that tracks one peer, which was never seen. -/
def managerOf (peerId : PeerId) : ConnectionManager := new.initializePeer peerId

def somePeer : PeerId := ⟨List.Vector.replicate 8 1⟩

theorem atomicOnFailure_of_startDiscovery :
    (managerOf somePeer).AtomicOnFailure somePeer (.startDiscovery (some 60)) ⟨1700000000000⟩ :=
  (atomicOnFailure_iff_accepts (c := ConnectionState.newDisconnected somePeer) rfl _ _).mpr rfl

/-- An establishment that a disconnected peer rejects returns an error and loses
the entry of the peer. -/
theorem rejected_establishment_loses_peer :
    (managerOf somePeer).getConnection somePeer =
        some (ConnectionState.newDisconnected somePeer) ∧
      ((managerOf somePeer).processConnectionEvent somePeer (.connectionEstablished "session")
        ⟨1700000000000⟩).2 = fail ⟨"Disconnected", .connectionEstablished "session"⟩ ∧
      ((managerOf somePeer).processConnectionEvent somePeer (.connectionEstablished "session")
        ⟨1700000000000⟩).1.getConnection somePeer = none ∧
      ¬ (managerOf somePeer).AtomicOnFailure somePeer (.connectionEstablished "session")
        ⟨1700000000000⟩ := by
  refine ⟨rfl, rfl, rfl, ?_⟩
  intro atomic
  have unchanged := congrArg (fun m => m.getConnection somePeer) (atomic.1 _ rfl)
  cases unchanged

end ConnectionManager

end Bitchat
