import Bitchat.Channel

/-!
# The connection state machine

`ConnectionState::transition` of `connection_state.rs`. A transition is a
successor with effects, or the rejection of the event; both name the state that
was left.
-/
namespace Bitchat
open Rust

structure DisconnectedState where
  peerId : PeerId
  lastSeen : Option Timestamp
  failedAttempts : ℕ
  deriving DecidableEq

structure DiscoveringState where
  peerId : PeerId
  discoveryStarted : Timestamp
  discoveredTransports : List ChannelTransportType
  discoveryTimeout : Option Timestamp
  deriving DecidableEq

structure SessionParams where
  protocolVersion : UInt32
  encryptionKey : Bytes
  timeoutSeconds : UInt64
  deriving DecidableEq

structure ConnectingState where
  peerId : PeerId
  transport : ChannelTransportType
  connectionStarted : Timestamp
  connectionTimeout : Timestamp
  sessionParams : Option SessionParams
  deriving DecidableEq

structure ConnectedState where
  peerId : PeerId
  transport : ChannelTransportType
  connectedSince : Timestamp
  sessionId : String
  lastActivity : Timestamp
  messageCount : ℕ
  deriving DecidableEq

structure FailedState where
  peerId : PeerId
  transport : Option ChannelTransportType
  failedAt : Timestamp
  errorReason : String
  retryAfter : Option Timestamp
  deriving DecidableEq

inductive ConnectionState where
  | disconnected (state : DisconnectedState)
  | discovering (state : DiscoveringState)
  | connecting (state : ConnectingState)
  | connected (state : ConnectedState)
  | failed (state : FailedState)
  deriving DecidableEq

inductive ConnectionEvent where
  | startDiscovery (timeoutSeconds : Option UInt64)
  | peerDiscovered (transport : ChannelTransportType) (signalStrength : Option Int8)
  | initiateConnection (transport : ChannelTransportType) (sessionParams : SessionParams)
  | connectionEstablished (sessionId : String)
  | connectionFailed (reason : String)
  | connectionLost (reason : String)
  | activityDetected
  | timeout
  | disconnect
  | retry
  deriving DecidableEq

/-- An entry of the audit trail. The event stands for its debug text. -/
structure AuditEntry where
  timestamp : Timestamp
  peerId : PeerId
  fromState : String
  toState : String
  event : ConnectionEvent
  effectsCount : ℕ
  deriving DecidableEq

structure StateTransition where
  newState : ConnectionState
  effects : List Effect
  auditEntry : AuditEntry
  deriving DecidableEq

/-- `StateTransitionError::InvalidTransition`. The event stands for its debug
text, from which the reason is put together. -/
structure InvalidTransition where
  fromState : String
  event : ConnectionEvent
  deriving DecidableEq

namespace ConnectionState

def newDisconnected (peerId : PeerId) : ConnectionState := .disconnected ⟨peerId, none, 0⟩

def peerId : ConnectionState → PeerId
  | .disconnected s => s.peerId
  | .discovering s => s.peerId
  | .connecting s => s.peerId
  | .connected s => s.peerId
  | .failed s => s.peerId

def stateName : ConnectionState → String
  | .disconnected _ => "Disconnected"
  | .discovering _ => "Discovering"
  | .connecting _ => "Connecting"
  | .connected _ => "Connected"
  | .failed _ => "Failed"

def canSendMessages : ConnectionState → Bool
  | .connected _ => true
  | _ => false

/-- The state after a failure, with the time of the next attempt. -/
def failWith (peerId : PeerId) (transport : Option ChannelTransportType) (reason : String)
    (retrySecs : UInt64) (now : Timestamp) : Outcome InvalidTransition ConnectionState := do
  let retryAfter ← now.plus retrySecs
  pure (.failed ⟨peerId, transport, now, reason, some retryAfter⟩)

/-- `timeout_seconds.map(|secs| current_timestamp() + secs)`. -/
def discoveryDeadline (timeoutSeconds : Option UInt64) (now : Timestamp) :
    Outcome InvalidTransition (Option Timestamp) :=
  match timeoutSeconds with
  | some secs => do
    let deadline ← now.plus secs
    pure (some deadline)
  | none => .ok none

/-- The match of `transition`: the new state and its effects. -/
def successor (s : ConnectionState) (event : ConnectionEvent) (now : Timestamp) :
    Outcome InvalidTransition (ConnectionState × List Effect) :=
  match s, event with
  | .disconnected s, .startDiscovery timeoutSeconds => do
    let timeout ← discoveryDeadline timeoutSeconds now
    pure (.discovering ⟨s.peerId, now, [], timeout⟩,
      [.startTransportDiscovery .ble, .startTransportDiscovery .nostr])
  | .discovering s, .peerDiscovered transport _ =>
    .ok (.discovering { s with discoveredTransports :=
      if transport ∈ s.discoveredTransports then s.discoveredTransports
      else s.discoveredTransports ++ [transport] }, [])
  | .discovering s, .initiateConnection transport sessionParams => do
    let timeout ← now.plus sessionParams.timeoutSeconds
    pure (.connecting ⟨s.peerId, transport, now, timeout, some sessionParams⟩,
      [.initiateConnection s.peerId transport])
  | .discovering s, .timeout => do
    let failed ← failWith s.peerId none "Discovery timeout" 60 now
    pure (failed, [])
  | .connecting s, .connectionEstablished sessionId =>
    .ok (.connected ⟨s.peerId, s.transport, now, sessionId, now, 0⟩, [])
  | .connecting s, .connectionFailed reason => do
    let failed ← failWith s.peerId (some s.transport) reason 30 now
    pure (failed, [])
  | .connecting s, .timeout => do
    let failed ← failWith s.peerId none "Connection timeout" 60 now
    pure (failed, [])
  | .connected s, .activityDetected =>
    .ok (.connected { s with lastActivity := now, messageCount := s.messageCount + 1 }, [])
  | .connected s, .connectionLost reason => do
    let failed ← failWith s.peerId (some s.transport) reason 10 now
    pure (failed, [])
  | .failed s, .retry => .ok (.disconnected ⟨s.peerId, none, 0⟩, [])
  | s, .disconnect => .ok (.disconnected ⟨s.peerId, some now, 0⟩, [])
  | s, event => fail ⟨s.stateName, event⟩

def transition (s : ConnectionState) (event : ConnectionEvent) (now : Timestamp) :
    Outcome InvalidTransition StateTransition := do
  let (newState, effects) ← s.successor event now
  pure ⟨newState, effects,
    ⟨now, s.peerId, s.stateName, newState.stateName, event, effects.length⟩⟩

/-- The events that a state has a successor for. -/
def accepts : ConnectionState → ConnectionEvent → Bool
  | .disconnected _, .startDiscovery _ => true
  | .discovering _, .peerDiscovered _ _ => true
  | .discovering _, .initiateConnection _ _ => true
  | .discovering _, .timeout => true
  | .connecting _, .connectionEstablished _ => true
  | .connecting _, .connectionFailed _ => true
  | .connecting _, .timeout => true
  | .connected _, .activityDetected => true
  | .connected _, .connectionLost _ => true
  | .failed _, .retry => true
  | _, .disconnect => true
  | _, _ => false

theorem failWith_peerId {p : PeerId} {transport : Option ChannelTransportType} {reason : String}
    {secs : UInt64} {now : Timestamp} {s : ConnectionState}
    (h : failWith p transport reason secs now = .ok s) : s.peerId = p := by
  obtain ⟨retryAfter, _, hs⟩ := bind_eq_ok.mp h
  rw [← Except.ok.inj hs]
  rfl

/-- Whatever state results belongs to the peer. -/
def StaysWith (p : PeerId) (result : Outcome InvalidTransition (ConnectionState × List Effect)) :
    Prop :=
  ∀ s effects, result = .ok (s, effects) → s.peerId = p

theorem staysWith_ok {p : PeerId} {s : ConnectionState} {effects : List Effect}
    (h : s.peerId = p) : StaysWith p (.ok (s, effects)) := by
  intro s' effects' hs
  obtain ⟨rfl, _⟩ := Prod.mk.inj (Except.ok.inj hs)
  exact h

theorem staysWith_fail (p : PeerId) (e : InvalidTransition) : StaysWith p (fail e) := by
  intro s effects h
  exact absurd h (fail_ne_ok _ _)

theorem staysWith_bind {α : Type} {p : PeerId} {x : Outcome InvalidTransition α}
    {f : α → Outcome InvalidTransition (ConnectionState × List Effect)}
    (h : ∀ a, x = .ok a → StaysWith p (f a)) : StaysWith p (x >>= f) := by
  intro s effects hs
  obtain ⟨a, ha, hfa⟩ := bind_eq_ok.mp hs
  exact h a ha s effects hfa

/-- A transition stays with its peer. -/
theorem successor_staysWith (s : ConnectionState) (event : ConnectionEvent) (now : Timestamp) :
    StaysWith s.peerId (s.successor event now) := by
  cases s <;> cases event <;>
    first
      | exact staysWith_fail _ _
      | exact staysWith_ok rfl
      | exact staysWith_bind fun _ h => staysWith_ok (failWith_peerId h)
      | exact staysWith_bind fun _ _ => staysWith_ok rfl

theorem transition_eq_ok {s : ConnectionState} {event : ConnectionEvent} {now : Timestamp}
    {t : StateTransition} (h : s.transition event now = .ok t) :
    s.successor event now = .ok (t.newState, t.effects) := by
  obtain ⟨⟨newState, effects⟩, hs, ht⟩ := bind_eq_ok.mp h
  rw [← Except.ok.inj ht]
  exact hs

theorem transition_peerId {s : ConnectionState} {event : ConnectionEvent} {now : Timestamp}
    {t : StateTransition} (h : s.transition event now = .ok t) : t.newState.peerId = s.peerId :=
  successor_staysWith s event now _ _ (transition_eq_ok h)

theorem plus_ne_fail (t : Timestamp) (n : UInt64) (e : InvalidTransition) :
    t.plus n ≠ fail e := by
  unfold Timestamp.plus
  split_ifs <;> simp [fail, panicked]

theorem failWith_ne_fail (p : PeerId) (transport : Option ChannelTransportType) (reason : String)
    (secs : UInt64) (now : Timestamp) (e : InvalidTransition) :
    failWith p transport reason secs now ≠ fail e :=
  bind_ne_fail (plus_ne_fail now secs e) fun _ => ok_ne_fail _ e

theorem discoveryDeadline_ne_fail (timeoutSeconds : Option UInt64) (now : Timestamp)
    (e : InvalidTransition) : discoveryDeadline timeoutSeconds now ≠ fail e := by
  cases timeoutSeconds with
  | none => exact ok_ne_fail none e
  | some secs => exact bind_ne_fail (plus_ne_fail now secs e) fun _ => ok_ne_fail _ e

/-- An accepted event is not rejected, though its deadline may overflow. -/
theorem successor_ne_fail {s : ConnectionState} {event : ConnectionEvent}
    (h : s.accepts event = true) (now : Timestamp) (e : InvalidTransition) :
    s.successor event now ≠ fail e := by
  cases s <;> cases event <;>
    first
      | exact ok_ne_fail _ e
      | exact bind_ne_fail (discoveryDeadline_ne_fail _ now e) fun _ => ok_ne_fail _ e
      | exact bind_ne_fail (failWith_ne_fail _ _ _ _ now e) fun _ => ok_ne_fail _ e
      | exact bind_ne_fail (plus_ne_fail now _ e) fun _ => ok_ne_fail _ e
      | cases h

theorem successor_of_not_accepts {s : ConnectionState} {event : ConnectionEvent}
    (h : s.accepts event = false) (now : Timestamp) :
    s.successor event now = fail ⟨s.stateName, event⟩ := by
  cases s <;> cases event <;>
    first
      | rfl
      | cases h

/-- A transition is rejected exactly when the state does not accept the event. -/
theorem transition_rejected_iff (s : ConnectionState) (event : ConnectionEvent)
    (now : Timestamp) :
    (∃ e, s.transition event now = fail e) ↔ s.accepts event = false := by
  constructor
  · rintro ⟨e, he⟩
    by_contra h
    have accepted := (Bool.not_eq_false _).mp h
    exact bind_ne_fail (successor_ne_fail accepted now e) (fun _ => ok_ne_fail _ e) he
  · intro h
    refine ⟨⟨s.stateName, event⟩, ?_⟩
    rw [transition, successor_of_not_accepts h now, fail_bind]

/-- Activity keeps a connected peer connected. -/
theorem transition_activityDetected (s : ConnectedState) (now : Timestamp) :
    ∃ t, (connected s).transition .activityDetected now = .ok t ∧
      ∃ s', t.newState = connected s' :=
  ⟨_, rfl, _, rfl⟩

/-- Every state accepts a disconnect. -/
theorem transition_disconnect (s : ConnectionState) (now : Timestamp) :
    ∃ t, s.transition .disconnect now = .ok t ∧
      t.newState = disconnected ⟨s.peerId, some now, 0⟩ := by
  cases s <;> exact ⟨_, rfl, rfl⟩

end ConnectionState

end Bitchat
