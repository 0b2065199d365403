import Bitchat.ConnectionState
import Bitchat.Rust.Call
import Bitchat.Session

/-!
# The core state

`CoreState` of `logic/state.rs` and the way its handlers move the connection
state of one peer: the entry is taken out of the table, the transition consumes
it, and the successor is put back. The delivery tracker is left out, since no
handler uses it.
-/
namespace Bitchat
open Rust

structure CoreStats where
  commandsProcessed : ℕ
  eventsProcessed : ℕ
  effectsGenerated : ℕ
  appEventsGenerated : ℕ
  stateTransitions : ℕ
  messagesSent : ℕ
  messagesReceived : ℕ
  deriving DecidableEq

structure CoreState (H T : Type) where
  peerId : PeerId
  sessionManager : NoiseSessionManager H T
  messageStore : MessageStore
  connections : Map PeerId ConnectionState
  auditTrail : List AuditEntry
  messageSequence : UInt64
  stats : CoreStats

namespace CoreState

variable {H T : Type}

/-- The key pair of the session manager is generated by the caller. -/
def new (peerId : PeerId) (localKey : Key32) : CoreState H T where
  peerId := peerId
  sessionManager := NoiseSessionManager.new localKey
  messageStore := MessageStore.withConfig MessageStoreConfig.default
  connections := ∅
  auditTrail := []
  messageSequence := 0
  stats := ⟨0, 0, 0, 0, 0, 0, 0⟩

/-- The connection of a peer, if there is an entry. -/
def connection (s : CoreState H T) (peerId : PeerId) : Option ConnectionState :=
  s.connections.lookup peerId

/-- `connections.insert(peer_id, connection)`. -/
def setConnection (s : CoreState H T) (peerId : PeerId) (c : ConnectionState) : CoreState H T :=
  { s with connections := s.connections.insert peerId c }

/-- `connections.remove(&peer_id)`, for the table that is left. -/
def dropConnection (s : CoreState H T) (peerId : PeerId) : CoreState H T :=
  { s with connections := s.connections.erase peerId }

/-- The effects of the transition are not handed on. -/
def applyStateTransition (s : CoreState H T) (t : StateTransition) : CoreState H T :=
  { s with
    connections := s.connections.insert t.newState.peerId t.newState
    auditTrail := s.auditTrail ++ [t.auditEntry]
    stats := { s.stats with stateTransitions := s.stats.stateTransitions + 1 } }

/-- Takes the peer's entry out, feeds `c` the event and applies the transition.
After a rejection the entry is gone. -/
def feed (s : CoreState H T) (peerId : PeerId) (c : ConnectionState) (event : ConnectionEvent)
    (now : Timestamp) : Call InvalidTransition (CoreState H T) Unit :=
  match c.transition event now with
  | .ok t => ((s.dropConnection peerId).applyStateTransition t, .ok ())
  | .error e => (s.dropConnection peerId, .error e)

/-- Feeds the event; a rejection leaves a new disconnected state. -/
def feedOrReset (s : CoreState H T) (peerId : PeerId) (c : ConnectionState)
    (event : ConnectionEvent) (now : Timestamp) : Call BitchatError (CoreState H T) Unit :=
  match s.feed peerId c event now with
  | (s, .ok _) => (s, .ok ())
  | (s, .error (.err _)) =>
    (s.setConnection peerId (ConnectionState.newDisconnected peerId), .ok ())
  | (s, .error .panic) => (s, panicked)

/-- Feeds the event to a peer that has an entry. -/
def feedKnown (s : CoreState H T) (peerId : PeerId) (event : ConnectionEvent) (now : Timestamp) :
    Call BitchatError (CoreState H T) Unit :=
  match s.connection peerId with
  | some c => s.feedOrReset peerId c event now
  | none => (s, .ok ())

/-- Every entry is stored under its own peer. -/
def OwnEntries (s : CoreState H T) : Prop :=
  ∀ p c, s.connection p = some c → c.peerId = p

/-- The entry that an accepted event leaves; a rejected one leaves none. -/
def successorEntry (c : ConnectionState) (event : ConnectionEvent) (now : Timestamp) :
    Option ConnectionState :=
  match c.transition event now with
  | .ok t => some t.newState
  | .error _ => none

/-- The entry that `feedOrReset` leaves for the state it was given. -/
def settled (peerId : PeerId) (c : ConnectionState) (event : ConnectionEvent) (now : Timestamp) :
    Option ConnectionState :=
  match c.transition event now with
  | .ok t => some t.newState
  | .error (.err _) => some (ConnectionState.newDisconnected peerId)
  | .error .panic => none

@[simp] theorem connection_new (peerId : PeerId) (localKey : Key32) (p : PeerId) :
    (new peerId localKey : CoreState H T).connection p = none := Finmap.lookup_empty p

theorem ownEntries_new (peerId : PeerId) (localKey : Key32) :
    (new peerId localKey : CoreState H T).OwnEntries := by
  intro p c h
  simp at h

theorem connection_setConnection (s : CoreState H T) (p q : PeerId) (c : ConnectionState) :
    (s.setConnection p c).connection q = if q = p then some c else s.connection q :=
  Map.lookup_insert_if q p c s.connections

theorem connection_dropConnection (s : CoreState H T) (p q : PeerId) :
    (s.dropConnection p).connection q = if q = p then none else s.connection q :=
  Map.lookup_erase_if q p s.connections

theorem connection_applyStateTransition (s : CoreState H T) (t : StateTransition) (q : PeerId) :
    (s.applyStateTransition t).connection q =
      if q = t.newState.peerId then some t.newState else s.connection q :=
  Map.lookup_insert_if q _ _ s.connections

/-- Feeding one peer changes its entry alone. -/
theorem connection_feed {s : CoreState H T} {p : PeerId} {c : ConnectionState}
    (own : c.peerId = p) (event : ConnectionEvent) (now : Timestamp) (q : PeerId) :
    (s.feed p c event now).1.connection q =
      if q = p then successorEntry c event now else s.connection q := by
  unfold feed successorEntry
  cases h : c.transition event now with
  | ok t =>
    have hp : t.newState.peerId = p := (ConnectionState.transition_peerId h).trans own
    simp only [connection_applyStateTransition, connection_dropConnection, hp]
    by_cases hq : q = p <;> simp [hq]
  | error e => exact connection_dropConnection s p q

theorem connection_feedOrReset {s : CoreState H T} {p : PeerId} {c : ConnectionState}
    (own : c.peerId = p) (event : ConnectionEvent) (now : Timestamp) (q : PeerId) :
    (s.feedOrReset p c event now).1.connection q =
      if q = p then settled p c event now else s.connection q := by
  have fed := connection_feed own event now q (s := s)
  unfold feed successorEntry at fed
  unfold feedOrReset settled feed
  cases h : c.transition event now with
  | ok t =>
    rw [h] at fed
    exact fed
  | error e =>
    rw [h] at fed
    cases e with
    | err e =>
      simp only [connection_setConnection]
      by_cases hq : q = p
      · rw [if_pos hq, if_pos hq]
      · rw [if_neg hq, if_neg hq]
        exact fed.trans (if_neg hq)
    | panic => exact fed

theorem successorEntry_peerId {c c' : ConnectionState} {event : ConnectionEvent} {now : Timestamp}
    (h : successorEntry c event now = some c') : c'.peerId = c.peerId := by
  unfold successorEntry at h
  cases ht : c.transition event now with
  | ok t =>
    rw [ht] at h
    rw [← Option.some.inj h]
    exact ConnectionState.transition_peerId ht
  | error e =>
    rw [ht] at h
    cases h

theorem settled_peerId {p : PeerId} {c c' : ConnectionState} {event : ConnectionEvent}
    {now : Timestamp} (own : c.peerId = p) (h : settled p c event now = some c') :
    c'.peerId = p := by
  unfold settled at h
  cases ht : c.transition event now with
  | ok t =>
    rw [ht] at h
    rw [← Option.some.inj h]
    exact (ConnectionState.transition_peerId ht).trans own
  | error e =>
    cases e with
    | err e =>
      rw [ht] at h
      rw [← Option.some.inj h]
      rfl
    | panic =>
      rw [ht] at h
      cases h

/-- Replacing one peer's entry by another of that peer keeps the table in order. -/
theorem OwnEntries.update {s s' : CoreState H T} (own : s.OwnEntries) {p : PeerId}
    {entry : Option ConnectionState} (hentry : ∀ c, entry = some c → c.peerId = p)
    (h : ∀ q, s'.connection q = if q = p then entry else s.connection q) : s'.OwnEntries := by
  intro q c hc
  rw [h q] at hc
  by_cases hq : q = p
  · rw [if_pos hq] at hc
    rw [hq]
    exact hentry c hc
  · rw [if_neg hq] at hc
    exact own q c hc

/-- The state that a handler starts from when it may have to create one. -/
theorem OwnEntries.getD {s : CoreState H T} (own : s.OwnEntries) (p : PeerId) :
    ((s.connection p).getD (ConnectionState.newDisconnected p)).peerId = p := by
  cases h : s.connection p with
  | none => rfl
  | some c => exact own p c h

/-- Feeding a connection touches neither the store nor the message count. -/
theorem feedOrReset_frame (s : CoreState H T) (p : PeerId) (c : ConnectionState)
    (event : ConnectionEvent) (now : Timestamp) :
    (s.feedOrReset p c event now).1.messageStore = s.messageStore ∧
      (s.feedOrReset p c event now).1.stats.messagesReceived = s.stats.messagesReceived := by
  simp only [feedOrReset, feed]
  cases c.transition event now with
  | ok t => exact ⟨rfl, rfl⟩
  | error e => cases e <;> exact ⟨rfl, rfl⟩

theorem feedKnown_frame (s : CoreState H T) (p : PeerId) (event : ConnectionEvent)
    (now : Timestamp) :
    (s.feedKnown p event now).1.messageStore = s.messageStore ∧
      (s.feedKnown p event now).1.stats.messagesReceived = s.stats.messagesReceived := by
  unfold feedKnown
  cases s.connection p with
  | none => exact ⟨rfl, rfl⟩
  | some c => exact s.feedOrReset_frame p c event now

end CoreState

end Bitchat
