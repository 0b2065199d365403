import Bitchat.Handlers
import Bitchat.RateLimiter
import Bitchat.Rust.Run

/-!
# The core logic task

`CoreLogicTask` of `logic/task.rs`: one command or event at a time, with the
rate limiter in front of messages and new connections. The channels are open, so
that every effect and application event is sent; the results are returned.
-/
namespace Bitchat
open Rust

structure CoreLogicTask (H T : Type) where
  state : CoreState H T
  rateLimiter : RateLimiter
  startTime : Timestamp
  running : Bool

/-- What one call reads from its surroundings: the wall clock, the monotonic
clock and the iteration order of the limiter's peer table. -/
structure Surroundings where
  now : Timestamp
  instant : ℕ
  order : PeerOrder

namespace CoreLogicTask

variable {H T : Type}

def new (peerId : PeerId) (localKey : Key32) (config : RateLimitConfig) (startTime : Timestamp) :
    CoreLogicTask H T :=
  ⟨CoreState.new peerId localKey, RateLimiter.new config, startTime, true⟩

/-- A handler's call on the state of the task. -/
def onState {α : Type} (task : CoreLogicTask H T) (c : Call BitchatError (CoreState H T) α) :
    Call BitchatError (CoreLogicTask H T) α :=
  ({ task with state := c.1 }, c.2)

def withStats (task : CoreLogicTask H T) (update : CoreStats → CoreStats) : CoreLogicTask H T :=
  { task with state := { task.state with stats := update task.state.stats } }

/-- Milliseconds since the task was created, saturating. -/
def uptimeMs (task : CoreLogicTask H T) (now : Timestamp) : ℕ :=
  now.asMillis.toNat - task.startTime.asMillis.toNat

def handleGetSystemStatus (task : CoreLogicTask H T) (now : Timestamp) : Handled :=
  ([], [.systemStatusReport (Map.size task.state.connections)
    (Map.size (Map.retain (fun _ c => c.canSendMessages) task.state.connections))
    (task.state.stats.messagesSent + task.state.stats.messagesReceived)
    (task.uptimeMs now / 1000) [(.ble, .active), (.nostr, .active)]])

def handleQueryMessageStatus (messageId : MessageId) : Handled :=
  ([], [.messageStatusReport messageId .pending])

def encryptionStatusOf : PeerSessionState → EncryptionStatus
  | .established => .noiseProtocol
  | .establishing => .negotiating
  | _ => .none

/-- Any session counts as established. -/
def handleQueryPeerSession (task : CoreLogicTask H T) (peerId : PeerId) : Handled :=
  let sessionState : PeerSessionState :=
    if (task.state.sessionManager.getSession peerId).isSome then .established else .none
  ([], [.peerSessionReport peerId sessionState (encryptionStatusOf sessionState)])

def handleQueryDeliveryStatus (peerId : PeerId) : Handled := ([], [.deliveryStatusReport peerId])

def reportedStatus (c : ConnectionState) : ConnectionStatus :=
  if c.canSendMessages then .connected else .disconnected

def handleQueryInternalState (task : CoreLogicTask H T) (now : Timestamp) : Handled :=
  ([], [.internalStateReport task.state.peerId task.state.sessionManager.establishedCount
    (Map.mapValues reportedStatus task.state.connections) (task.uptimeMs now)])

/-- The match of `process_command`. -/
def handleCommand (sha256 : Bytes → Key32) (noise : NoiseLibrary H T) (task : CoreLogicTask H T)
    (command : Command) (now : Timestamp) : Call BitchatError (CoreLogicTask H T) Handled :=
  match command with
  | .sendMessage recipient content =>
    task.onState (CommandHandlers.handleSendMessage sha256 noise task.state recipient content now)
  | .connectToPeer peerId =>
    task.onState (CommandHandlers.handleConnectToPeer task.state peerId now)
  | .startDiscovery => (task, CommandHandlers.handleStartDiscovery)
  | .stopDiscovery => (task, CommandHandlers.handleStopDiscovery)
  | .disconnectFromPeer peerId =>
    task.onState (CommandHandlers.handleDisconnectFromPeer task.state peerId now)
  | .pauseTransport transport => (task, .ok ([.pauseTransport transport], []))
  | .resumeTransport transport => (task, .ok ([.resumeTransport transport], []))
  | .getSystemStatus => (task, .ok (task.handleGetSystemStatus now))
  | .queryMessageStatus messageId => (task, .ok (handleQueryMessageStatus messageId))
  | .queryPeerSession peerId => (task, .ok (task.handleQueryPeerSession peerId))
  | .queryDeliveryStatus peerId => (task, .ok (handleQueryDeliveryStatus peerId))
  | .queryInternalState => (task, .ok (task.handleQueryInternalState now))
  | .shutdown => ({ task with running := false }, CommandHandlers.handleShutdown)

/-- Sends and counts the results of a handler. -/
def emit (task : CoreLogicTask H T) (handled : Handled) :
    Call BitchatError (CoreLogicTask H T) Handled :=
  (task.withStats fun stats =>
    { stats with
      effectsGenerated := stats.effectsGenerated + handled.1.length
      appEventsGenerated := stats.appEventsGenerated + handled.2.length }, .ok handled)

/-- `self.state.stats.commands_processed += 1`. -/
def countCommand (task : CoreLogicTask H T) : CoreLogicTask H T :=
  task.withStats fun stats => { stats with commandsProcessed := stats.commandsProcessed + 1 }

/-- `self.state.stats.events_processed += 1`. -/
def countEvent (task : CoreLogicTask H T) : CoreLogicTask H T :=
  task.withStats fun stats => { stats with eventsProcessed := stats.eventsProcessed + 1 }

def processCommand (sha256 : Bytes → Key32) (noise : NoiseLibrary H T) (task : CoreLogicTask H T)
    (command : Command) (now : Timestamp) : Call BitchatError (CoreLogicTask H T) Handled :=
  (task.countCommand.handleCommand sha256 noise command now).andThen emit

/-- The rate limiter's word on an event. -/
def checkRateLimit (task : CoreLogicTask H T) (event : Event) (env : Surroundings) :
    Call BitchatError (CoreLogicTask H T) Unit :=
  let limited (checked : RateLimiter × BitchatResult Unit) :=
    ({ task with rateLimiter := checked.1 }, checked.2)
  match event with
  | .messageReceived sender _ _ _ _ _ _ =>
    limited (task.rateLimiter.checkMessageAllowed sender env.instant env.order)
  | .bitchatPacketReceived sender _ _ =>
    limited (task.rateLimiter.checkMessageAllowed sender env.instant env.order)
  | .connectionEstablished peerId _ =>
    limited (task.rateLimiter.checkConnectionAllowed peerId env.instant env.order)
  | _ => (task, .ok ())

def processEvent (sha256 : Bytes → Key32) (task : CoreLogicTask H T) (event : Event)
    (env : Surroundings) : Call BitchatError (CoreLogicTask H T) Handled :=
  (task.countEvent.checkRateLimit event env).andThen fun task _ =>
    (task.onState (CommandHandlers.handleEvent sha256 task.state event env.now)).andThen emit

/-- What the task receives. -/
inductive Input where
  | command (command : Command)
  | event (event : Event)

/-- Handles one input. -/
def step (sha256 : Bytes → Key32) (noise : NoiseLibrary H T) (task : CoreLogicTask H T)
    (received : Input × Surroundings) : CoreLogicTask H T × BitchatResult Handled :=
  match received.1 with
  | .command command => task.processCommand sha256 noise command received.2.now
  | .event event => task.processEvent sha256 event received.2

/-- The peer whose entry an input concerns and what its handler feeds it. -/
def Input.feeds : Input → Option (PeerId × ConnectionEvent)
  | .command (.connectToPeer p) => some (p, CommandHandlers.startDiscovery)
  | .command (.disconnectFromPeer p) => some (p, .disconnect)
  | .command _ => none
  | .event e => CommandHandlers.fedBy e

/-- Whether the handler of an input is reached. -/
def Admits (task : CoreLogicTask H T) (received : Input × Surroundings) : Prop :=
  match received.1 with
  | .command _ => True
  | .event event => (task.checkRateLimit event received.2).2 = .ok ()

section

open CommandHandlers

variable (sha256 : Bytes → Key32) (noise : NoiseLibrary H T) {task : CoreLogicTask H T}

/-- Counting and sending the results does not touch the connections. -/
theorem connection_andThen_emit (c : Call BitchatError (CoreLogicTask H T) Handled) (p : PeerId) :
    (c.andThen emit).1.state.connection p = c.1.state.connection p := by
  apply Call.andThen_frame fun task : CoreLogicTask H T => task.state.connection p
  · rfl
  · intro handled _
    rfl

/-- Two commands change an entry, and only that of the peer they name. -/
theorem connection_processCommand (own : task.state.OwnEntries) (command : Command)
    (now : Timestamp) (q : PeerId) :
    (task.processCommand sha256 noise command now).1.state.connection q =
      match command with
      | .connectToPeer p =>
        if q = p then
          CoreState.successorEntry
            ((task.state.connection p).getD (ConnectionState.newDisconnected p)) startDiscovery now
        else task.state.connection q
      | .disconnectFromPeer p =>
        if q = p then (task.state.connection p).map fun _ => .disconnected ⟨p, some now, 0⟩
        else task.state.connection q
      | _ => task.state.connection q := by
  rw [processCommand, connection_andThen_emit]
  cases command with
  | sendMessage recipient content =>
    have same := connections_handleSendMessage sha256 noise task.countCommand.state recipient
      content now
    exact congrArg (Finmap.lookup q) same
  | connectToPeer p =>
    exact connection_handleConnectToPeer (s := task.countCommand.state) own p now q
  | disconnectFromPeer p =>
    exact connection_handleDisconnectFromPeer (s := task.countCommand.state) own p now q
  | _ => rfl

theorem state_checkRateLimit (event : Event) (env : Surroundings) :
    (task.checkRateLimit event env).1.state = task.state := by
  cases event <;> rfl

/-- Counting does not change the rate limiter's word. -/
theorem checkRateLimit_countEvent (event : Event) (env : Surroundings) :
    (task.countEvent.checkRateLimit event env).2 = (task.checkRateLimit event env).2 := by
  cases event <;> rfl

/-- An admitted event has the effect of its handler on the connections. -/
theorem connection_processEvent_of_admitted {event : Event} {env : Surroundings}
    (admitted : (task.checkRateLimit event env).2 = .ok ()) (q : PeerId) :
    (task.processEvent sha256 event env).1.state.connection q =
      (handleEvent sha256 task.countEvent.state event env.now).1.connection q := by
  have counted := (checkRateLimit_countEvent event env).trans admitted
  rw [processEvent, Call.andThen_of_ok _ counted, connection_andThen_emit, onState,
    state_checkRateLimit]

/-- An event that the rate limiter refuses leaves the connections alone. -/
theorem connection_processEvent_of_refused {event : Event} {env : Surroundings}
    (refused : (task.checkRateLimit event env).2 ≠ .ok ()) (q : PeerId) :
    (task.processEvent sha256 event env).1.state.connection q = task.state.connection q := by
  cases result : (task.countEvent.checkRateLimit event env).2 with
  | ok u => exact absurd ((checkRateLimit_countEvent event env).symm.trans result) refused
  | error e =>
    rw [processEvent, Call.andThen_of_error _ result, state_checkRateLimit]
    rfl

theorem ownEntries_step (own : task.state.OwnEntries) (received : Input × Surroundings) :
    (task.step sha256 noise received).1.state.OwnEntries := by
  obtain ⟨command | event, env⟩ := received
  · have entries := connection_processCommand sha256 noise own command env.now
    cases command with
    | connectToPeer p =>
      apply own.update ?_ entries
      intro c hc
      exact (CoreState.successorEntry_peerId hc).trans (own.getD p)
    | disconnectFromPeer p =>
      apply own.update ?_ entries
      intro c hc
      obtain ⟨_, _, rfl⟩ := Option.map_eq_some_iff.mp hc
      rfl
    | _ =>
      intro q c hc
      exact own q c ((entries q).symm.trans hc)
  · intro q c hc
    by_cases admitted : (task.checkRateLimit event env).2 = .ok ()
    · have handled := ownEntries_handleEvent sha256 (s := task.countEvent.state) own event env.now
      rw [step, connection_processEvent_of_admitted sha256 admitted] at hc
      exact handled q c hc
    · rw [step, connection_processEvent_of_refused sha256 admitted] at hc
      exact own q c hc

/-- In every reachable task the entries are stored under their own peers. -/
theorem ownEntries_of_reachable {peerId : PeerId} {localKey : Key32} {config : RateLimitConfig}
    {startTime : Timestamp}
    (reach : Reachable (step sha256 noise) (new peerId localKey config startTime) task) :
    task.state.OwnEntries := by
  apply Reachable.invariant (I := fun task => task.state.OwnEntries) ?_ ?_ reach
  · intro task received own
    exact ownEntries_step sha256 noise own received
  · exact CoreState.ownEntries_new peerId localKey

/-- The inputs that can take a connected peer out of that state. A discovery and
a second establishment are among them: a connected state rejects both. -/
def Input.EndsConnection (input : Input) (p : PeerId) : Prop :=
  input = .command (.disconnectFromPeer p) ∨
    (∃ transport reason, input = .event (.connectionLost p transport reason)) ∨
    (∃ transport signalStrength, input = .event (.peerDiscovered p transport signalStrength)) ∨
    ∃ transport, input = .event (.connectionEstablished p transport)

/-- A rejected event leaves a new disconnected state, unless the rate limiter
kept it from the handler. What a request to connect leaves is not told. -/
def ResetsRejected (task : CoreLogicTask H T) (received : Input × Surroundings) : Prop :=
  ∀ p fed c e, received.1 ≠ .command (.connectToPeer p) →
    received.1.feeds = some (p, fed) → task.state.connection p = some c →
    c.transition fed received.2.now = fail e →
      (task.Admits received → (task.step sha256 noise received).1.state.connection p =
        some (ConnectionState.newDisconnected p)) ∧
      (¬ task.Admits received → (task.step sha256 noise received).1.state.connection p = some c)

def KeepsConnected (task : CoreLogicTask H T) (received : Input × Surroundings) : Prop :=
  ∀ p c, received.1 ≠ .command (.connectToPeer p) →
    task.state.connection p = some (.connected c) → ¬ received.1.EndsConnection p →
    ∃ c', (task.step sha256 noise received).1.state.connection p = some (.connected c')

theorem settled_of_rejected {p : PeerId} {c : ConnectionState} {fed : ConnectionEvent}
    {now : Timestamp} {e : InvalidTransition} (rejected : c.transition fed now = fail e) :
    CoreState.settled p c fed now = some (ConnectionState.newDisconnected p) := by
  simp [CoreState.settled, rejected, fail]

/-- A known peer is fed its own entry. -/
theorem takenBy_of_known {s : CoreState H T} {p : PeerId} {c : ConnectionState} (event : Event)
    (known : s.connection p = some c) : takenBy s event p = some c := by
  cases event with
  | peerDiscovered => simp [takenBy, known]
  | _ => exact known

theorem resetsRejected_of_ownEntries (own : task.state.OwnEntries)
    (received : Input × Surroundings) : task.ResetsRejected sha256 noise received := by
  obtain ⟨command | event, env⟩ := received
  · intro p fed c e other hfed hc rejected
    cases command with
    | connectToPeer q =>
      obtain ⟨rfl, -⟩ := Prod.mk.inj (Option.some.inj hfed)
      exact absurd rfl other
    | disconnectFromPeer q =>
      obtain ⟨rfl, rfl⟩ := Prod.mk.inj (Option.some.inj hfed)
      obtain ⟨t, ht, _⟩ := c.transition_disconnect env.now
      exact absurd (rejected.symm.trans ht) (fail_ne_ok e t)
    | _ => cases hfed
  · rintro p fed c e - hfed hc rejected
    constructor
    · intro admitted
      have entries := connection_handleEvent sha256 (s := task.countEvent.state) own event env.now p
      have hfedBy : fedBy event = some (p, fed) := hfed
      simp only [hfedBy, takenBy_of_known (s := task.countEvent.state) event hc,
        Option.bind_some, settled_of_rejected rejected] at entries
      rw [step, connection_processEvent_of_admitted sha256 admitted]
      exact entries
    · intro refused
      rw [step, connection_processEvent_of_refused sha256 refused]
      exact hc

theorem keepsConnected_of_ownEntries (own : task.state.OwnEntries)
    (received : Input × Surroundings) : task.KeepsConnected sha256 noise received := by
  obtain ⟨command | event, env⟩ := received
  · intro p c other hc stays
    have entries := connection_processCommand sha256 noise own command env.now p
    cases command with
    | connectToPeer q =>
      have hne : p ≠ q := by
        rintro rfl
        exact other rfl
      exact ⟨c, entries.trans ((if_neg hne).trans hc)⟩
    | disconnectFromPeer q =>
      have hne : p ≠ q := by
        rintro rfl
        exact stays (.inl rfl)
      exact ⟨c, entries.trans ((if_neg hne).trans hc)⟩
    | _ => exact ⟨c, entries.trans hc⟩
  · rintro p c - hc stays
    by_cases admitted : (task.checkRateLimit event env).2 = .ok ()
    · have entries := connection_handleEvent sha256 (s := task.countEvent.state) own event env.now p
      rw [step, connection_processEvent_of_admitted sha256 admitted, entries]
      cases hfed : fedBy event with
      | none => exact ⟨c, hc⟩
      | some concern =>
        obtain ⟨q, fed⟩ := concern
        by_cases hq : p = q
        · have activity : fed = .activityDetected := by
            cases event <;> cases hfed <;>
              first
                | rfl
                | exact absurd (by simp [Input.EndsConnection, hq]) stays
          subst hq activity
          have taken := takenBy_of_known (s := task.countEvent.state) event hc
          obtain ⟨t, ht, s', hs'⟩ := ConnectionState.transition_activityDetected c env.now
          refine ⟨s', ?_⟩
          simp [taken, CoreState.settled, ht, hs']
        · exact ⟨c, (if_neg hq).trans hc⟩
    · rw [step, connection_processEvent_of_refused sha256 admitted]
      exact ⟨c, hc⟩

/-- Every reachable task stores its entries under their own peers. In every such
task an event that the connection state rejects resets the peer's entry, and
what takes a connected peer out of that state is a loss, a disconnect, a
discovery or another establishment. -/
theorem rejected_event_resets (peerId : PeerId) (localKey : Key32) (config : RateLimitConfig)
    (startTime : Timestamp) :
    (∀ task, Reachable (step sha256 noise) (new peerId localKey config startTime) task →
      task.state.OwnEntries) ∧
    ∀ task : CoreLogicTask H T, task.state.OwnEntries → ∀ received : Input × Surroundings,
      task.ResetsRejected sha256 noise received ∧ task.KeepsConnected sha256 noise received := by
  constructor
  · intro task reach
    exact ownEntries_of_reachable sha256 noise reach
  · intro task own received
    exact ⟨resetsRejected_of_ownEntries sha256 noise own received,
      keepsConnected_of_ownEntries sha256 noise own received⟩

end

/-- A call made at `millis`, before any message was counted. -/
def callAt (millis : UInt64) : Surroundings := ⟨⟨millis⟩, 0, fun _ => []⟩

def localPeer : PeerId := ⟨List.Vector.replicate 8 1⟩

def remotePeer : PeerId := ⟨List.Vector.replicate 8 2⟩

/-- A task that just started. -/
def startedTask : CoreLogicTask Unit Unit :=
  new localPeer (List.Vector.replicate 32 0) RateLimitConfig.default ⟨1700000000000⟩

/-- The task after a connect request: the peer is being discovered. -/
def discoveringTask : CoreLogicTask Unit Unit :=
  (step MessageStore.lastByteDigest NoiseLibrary.masked startedTask
    (.command (.connectToPeer remotePeer), callAt 1700000000000)).1

/-- The report of a loss, which only a connected state accepts. -/
def lossReport : Input × Surroundings :=
  (.event (.connectionLost remotePeer .ble "out of range"), callAt 1700000001000)

def connectedEntry : ConnectionState :=
  .connected ⟨remotePeer, .ble, ⟨1700000000000⟩, "session", ⟨1700000000000⟩, 0⟩

/-- A task with one connected peer. -/
def connectedTask : CoreLogicTask Unit Unit :=
  { startedTask with state := startedTask.state.setConnection remotePeer connectedEntry }

/-- A rejected event does not leave the entry as it was, and a connected peer is
reset by being discovered again. -/
theorem rejected_event_changes_entry :
    (Reachable (step MessageStore.lastByteDigest NoiseLibrary.masked) startedTask discoveringTask ∧
      ∃ fed c e, lossReport.1.feeds = some (remotePeer, fed) ∧
        discoveringTask.state.connection remotePeer = some c ∧
        c.transition fed lossReport.2.now = fail e ∧
        (step MessageStore.lastByteDigest NoiseLibrary.masked discoveringTask
          lossReport).1.state.connection remotePeer ≠ some c) ∧
    connectedTask.state.connection remotePeer = some connectedEntry ∧
      (step MessageStore.lastByteDigest NoiseLibrary.masked connectedTask
        (.event (.peerDiscovered remotePeer .ble none), callAt 0)).1.state.connection remotePeer =
          some (ConnectionState.newDisconnected remotePeer) := by
  refine ⟨⟨⟨[_], rfl⟩, _, _, _, rfl, rfl, rfl, ?_⟩, rfl, rfl⟩
  decide

theorem rejected_event_resets_loss :
    (step MessageStore.lastByteDigest NoiseLibrary.masked discoveringTask
      lossReport).1.state.connection remotePeer =
        some (ConnectionState.newDisconnected remotePeer) := by
  have general := rejected_event_resets MessageStore.lastByteDigest NoiseLibrary.masked localPeer
    (List.Vector.replicate 32 0) RateLimitConfig.default ⟨1700000000000⟩
  have own := general.1 discoveringTask ⟨[_], rfl⟩
  have resets := (general.2 discoveringTask own lossReport).1
  exact (resets remotePeer _ _ _ nofun rfl rfl rfl).1 rfl

end CoreLogicTask

end Bitchat
