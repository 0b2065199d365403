import Bitchat.Channel
import Bitchat.CoreLogicTask
import Bitchat.Delivery
import Bitchat.Monitoring
import Bitchat.Rust.Channels

/-!
# The decomposed runtime

The tasks of `tasks.rs` under the supervisor of `supervisor.rs`: message ingress,
session manager and storage, with the channels between them. A step is one action of
one task. The session manager and the message store inside the tasks are never used
and left out; a store request only tracks a delivery. A task that panics ends.
-/
namespace Bitchat
open Rust

inductive InternalCommand where
  | processEncryptedMessage (peerId : PeerId) (ciphertext : Bytes)
      (transport : ChannelTransportType)
  | storeMessage (messageId : MessageId) (content : Text) (sender : PeerId)
      (recipient : Option PeerId)
  | establishSession (peerId : PeerId) (transport : ChannelTransportType)
  | rotateSessionKeys (peerId : PeerId)
  | updateDeliveryStatus (messageId : MessageId) (status : DeliveryStatus)
  | shutdown
  deriving DecidableEq

inductive TaskHealthStatus where
  | healthy
  | degraded
  | failed
  deriving DecidableEq

inductive InternalEvent where
  | sessionEstablished (peerId : PeerId) (transport : ChannelTransportType)
  | sessionFailed (peerId : PeerId) (reason : String)
  | messageDecrypted (messageId : MessageId) (content : Text) (sender : PeerId)
      (recipient : Option PeerId)
  | messageStored (messageId : MessageId) (timestamp : Timestamp)
  | deliveryConfirmed (messageId : MessageId) (peerId : PeerId)
  | taskHealth (taskId : TaskId) (status : TaskHealthStatus) (message : String)
  deriving DecidableEq

/-- The state of `MessageIngressTask`. -/
structure MessageIngressTask where
  rateLimiter : RateLimiter
  messageSequence : UInt64
  running : Bool

/-- The state of `SessionManagerTask`. -/
structure SessionManagerTask where
  connections : Map PeerId ConnectionState
  running : Bool

/-- The state of `StorageDeliveryTask`. -/
structure StorageDeliveryTask where
  deliveryTracker : DeliveryTracker
  running : Bool

/-- An instant is in nanoseconds of the monotonic clock. -/
structure TaskHealthInfo where
  status : TaskHealthStatus
  lastUpdate : ℕ
  lastError : Option String

/-- What a health check makes of an entry: after a minute without an update it is
degraded, and that counts as an update. -/
def TaskHealthInfo.checked (instant : ℕ) (info : TaskHealthInfo) : TaskHealthInfo :=
  if 60 * nanosPerSec < instant - info.lastUpdate then
    { info with status := .degraded, lastUpdate := instant }
  else info

/-- The part of `SupervisorTask` that its loop reads and writes. -/
structure Supervisor where
  health : Map TaskId TaskHealthInfo

namespace Supervisor

/-- The supervised tasks. -/
def tasks : List TaskId := [.coreLogic, .sessionManager, .deliveryManager]

/-- All three tasks start healthy, each noted at its own instant. -/
def started (instants : TaskId → ℕ) : Supervisor where
  health := tasks.foldl (fun health task => health.insert task ⟨.healthy, instants task, none⟩) ∅

/-- The branch `TaskHealth` of `handle_internal_event`; the others are logged. -/
def handleInternalEvent (s : Supervisor) (event : InternalEvent) (instant : ℕ) : Supervisor :=
  match event with
  | .taskHealth taskId status message =>
    ⟨s.health.insert taskId ⟨status, instant, some message⟩⟩
  | _ => s

def performHealthCheck (s : Supervisor) (instant : ℕ) : Supervisor :=
  ⟨Map.mapValues (TaskHealthInfo.checked instant) s.health⟩

/-- `is_healthy`. -/
def IsHealthy (s : Supervisor) : Prop :=
  ∀ taskId info, s.health.lookup taskId = some info → info.status = .healthy

end Supervisor

structure DecomposedRuntime where
  peerId : PeerId
  ingress : MessageIngressTask
  session : SessionManagerTask
  storage : StorageDeliveryTask
  supervisor : Supervisor
  commands : Mpsc Command
  commandsOpen : Bool
  events : Mpsc Event
  eventsOpen : Bool
  sessionCommands : Unbounded InternalCommand
  storageCommands : Unbounded InternalCommand
  internalEvents : Unbounded InternalEvent
  effects : Broadcast ℕ Effect
  appEvents : Mpsc AppEvent
  appEventsOpen : Bool

namespace DecomposedRuntime

/-- The sizes of the bounded channels. -/
structure Buffers where
  commands : ℕ
  events : ℕ
  effects : ℕ
  appEvents : ℕ

/-- What `build_and_start` has started when the transports are attached. They are numbered,
since two of them may be of the same type. -/
def start (peerId : PeerId) (rateLimiting : RateLimitConfig) (buffers : Buffers)
    (transports : ℕ) (instants : TaskId → ℕ) : DecomposedRuntime where
  peerId := peerId
  ingress := ⟨RateLimiter.new rateLimiting, 0, true⟩
  session := ⟨∅, true⟩
  storage := ⟨DeliveryTracker.withConfig DeliveryConfig.default, true⟩
  supervisor := Supervisor.started instants
  commands := Mpsc.new buffers.commands
  commandsOpen := true
  events := Mpsc.new buffers.events
  eventsOpen := true
  sessionCommands := Unbounded.new
  storageCommands := Unbounded.new
  internalEvents := Unbounded.new
  effects := (List.range transports).foldl Broadcast.subscribe (Broadcast.new buffers.effects)
  appEvents := Mpsc.new buffers.appEvents
  appEventsOpen := true

/-- What an action did, as far as other tasks notice it. -/
inductive Seen where
  | took (input : CoreLogicTask.Input)
  | requestedSession (command : InternalCommand)
  | requestedStorage (command : InternalCommand)
  | told (appEvent : AppEvent)
  | handledSession (command : InternalCommand)
  | handledStorage (command : InternalCommand)
  | announced (event : InternalEvent)
  | sentEffect (effect : Effect)
  | handledEffect (transport : ℕ) (effect : Effect)
  | shown (appEvent : AppEvent)
  | checkedHealth (instant : ℕ)

abbrev Stepped := DecomposedRuntime × List Seen

section

variable (sha256 : Bytes → Key32) (rt : DecomposedRuntime)

/-- `let _ = app_event_sender.try_send(..)`. -/
def tell (appEvent : AppEvent) : Stepped :=
  if rt.appEventsOpen then
    match rt.appEvents.trySend appEvent with
    | some appEvents => ({ rt with appEvents := appEvents }, [.told appEvent])
    | none => (rt, [])
  else (rt, [])

/-- `let _ = event_sender.send(..)` to the supervisor. -/
def announce (event : InternalEvent) : Stepped :=
  match rt.internalEvents.send event with
  | some events => ({ rt with internalEvents := events }, [.announced event])
  | none => (rt, [])

/-- A request to the session manager; `none` is the error that ends the handler. -/
def requestSession (command : InternalCommand) : Option Stepped :=
  (rt.sessionCommands.send command).map fun commands =>
    ({ rt with sessionCommands := commands }, [.requestedSession command])

def requestStorage (command : InternalCommand) : Option Stepped :=
  (rt.storageCommands.send command).map fun commands =>
    ({ rt with storageCommands := commands }, [.requestedStorage command])

/-- `{:?}` of a peer id. -/
def debugPeerId (p : PeerId) : Text :=
  "PeerId([".toList ++ List.intercalate ", ".toList
    (p.asBytes.map fun b => (toString b.toNat).toList) ++ "])".toList

/-- The id of an own message: the hash of `format!("{:?}:{}", peer_id, sequence)`. -/
def ownMessageId (p : PeerId) (sequence : UInt64) : MessageId :=
  ⟨sha256 (Text.asBytes (debugPeerId p ++ ':' :: (toString sequence.toNat).toList))⟩

/-- The id of a message that came without one: the hash of `format!("{}:{}", from, content)`. -/
def receivedMessageId (sender : PeerId) (content : Text) : MessageId :=
  ⟨sha256 (Text.asBytes (sender.display.toList ++ ':' :: content))⟩

/-- The branch `SendMessage`, with the number already taken. A failed send ends it. -/
def sendMessage (recipient : PeerId) (content : Text) (now : Timestamp) : Stepped :=
  match rt.requestSession (.establishSession recipient .ble) with
  | none => (rt, [])
  | some (rt, seen) =>
    let id := ownMessageId sha256 rt.peerId rt.ingress.messageSequence
    match rt.requestStorage (.storeMessage id content rt.peerId (some recipient)) with
    | none => (rt, seen)
    | some (rt, seen') =>
      let told := rt.tell (.messageSent recipient content now.asMillis)
      (told.1, seen ++ seen' ++ told.2)

/-- The commands that have a branch, behind the rate limiter. -/
def runCommand (command : Command) (now : Timestamp) : Stepped :=
  match command with
  | .sendMessage recipient content =>
    if rt.ingress.messageSequence.toNat + 1 < 2 ^ 64 then
      { rt with ingress := { rt.ingress with
        messageSequence := rt.ingress.messageSequence + 1 } }.sendMessage sha256 recipient content
          now
    else ({ rt with ingress := { rt.ingress with running := false } }, [])
  | .connectToPeer p => (rt.requestSession (.establishSession p .ble)).getD (rt, [])
  | .shutdown =>
    let rt := { rt with ingress := { rt.ingress with running := false } }
    let toSession := (rt.requestSession .shutdown).getD (rt, [])
    let toStorage := (toSession.1.requestStorage .shutdown).getD (toSession.1, [])
    (toStorage.1, toSession.2 ++ toStorage.2)
  | _ => (rt, [])

/-- `PeerId::new([0; 8])`. -/
def dummyPeer : PeerId := ⟨List.Vector.replicate 8 0⟩

/-- `MessageIngressTask::handle_command`: all commands count for one dummy peer. -/
def handleCommand (command : Command) (env : Surroundings) : Stepped :=
  let checked := rt.ingress.rateLimiter.checkMessageAllowed dummyPeer env.instant env.order
  let rt := { rt with ingress := { rt.ingress with rateLimiter := checked.1 } }
  match checked.2 with
  | .ok _ => rt.runCommand sha256 command env.now
  | .error (.err _) => (rt, [])
  | .error .panic => ({ rt with ingress := { rt.ingress with running := false } }, [])

/-- `MessageIngressTask::handle_event`. -/
def handleEvent (event : Event) (now : Timestamp) : Stepped :=
  match event with
  | .messageReceived sender content _ messageId _ _ _ =>
    if content.isEmpty then (rt, [])
    else
      let id := messageId.getD (receivedMessageId sha256 sender content)
      match rt.requestStorage (.storeMessage id content sender (some rt.peerId)) with
      | none => (rt, [])
      | some (rt, seen) =>
        let told := rt.tell (.messageReceived sender content now.asMillis)
        (told.1, seen ++ told.2)
  | .peerDiscovered p transport _ =>
    rt.tell (.peerStatusChanged p .discovering (some transport))
  | .connectionEstablished p transport =>
    rt.tell (.peerStatusChanged p .connected (some transport))
  | .connectionLost p transport _ =>
    rt.tell (.peerStatusChanged p .disconnected (some transport))
  | _ => (rt, [])

/-- `let _ = effect_sender.send(..)`. -/
def sendEffect (effect : Effect) : Stepped :=
  match rt.effects.send effect with
  | some effects => ({ rt with effects := effects }, [.sentEffect effect])
  | none => (rt, [])

/-- `SessionManagerTask::handle_command`. -/
def handleSession (command : InternalCommand) : Stepped :=
  match command with
  | .establishSession p transport =>
    let connections := match rt.session.connections.lookup p with
      | some _ => rt.session.connections
      | none => rt.session.connections.insert p (ConnectionState.newDisconnected p)
    let rt := { rt with session := { rt.session with connections := connections } }
    let announced := rt.announce (.sessionEstablished p transport)
    let sent := announced.1.sendEffect (.initiateConnection p transport)
    (sent.1, announced.2 ++ sent.2)
  | .processEncryptedMessage p ciphertext _ =>
    let decrypted := match fromUtf8 ciphertext with
      | some text => text
      | none => "Invalid UTF-8".toList
    rt.announce (.messageDecrypted (receivedMessageId sha256 p decrypted) decrypted p
      (some rt.peerId))
  | .shutdown =>
    ({ rt with
      session := { rt.session with running := false }
      sessionCommands := rt.sessionCommands.close }, [])
  | _ => (rt, [])

/-- `StorageDeliveryTask::handle_command`. The uuid of a tracked message is new. -/
def handleStorage (command : InternalCommand) (uuid : Uuid) (now : Timestamp) : Stepped :=
  match command with
  | .storeMessage messageId content sender recipient =>
    let rt := match recipient with
      | some p =>
        if sender = dummyPeer then
          { rt with storage := { rt.storage with deliveryTracker :=
            (rt.storage.deliveryTracker.trackMessage uuid p content.asBytes now).1 } }
        else rt
      | none => rt
    rt.announce (.messageStored messageId now)
  | .shutdown =>
    ({ rt with
      storage := { rt.storage with running := false }
      storageCommands := rt.storageCommands.close }, [])
  | _ => (rt, [])

/-- One action of one task. The application and the transports may drop their ends. -/
inductive Act where
  | submit (command : Command)
  | report (event : Event)
  | ingressCommand (env : Surroundings)
  | ingressEvent (now : Timestamp)
  | ingressIdle
  | sessionCommand
  | storageCommand (uuid : Uuid) (now : Timestamp)
  | internalEvent (instant : ℕ)
  | healthCheck (instant : ℕ)
  | pollEffect (transport : ℕ)
  | pollAppEvent
  | leave (transport : ℕ)
  | closeCommands
  | closeEvents
  | closeAppEvents

/-- The ingress takes a command, which it may refuse. -/
def ingressCommand (env : Surroundings) : Stepped :=
  if rt.ingress.running then
    match rt.commands.recv with
    | some (command, commands) =>
      let handled := { rt with commands := commands }.handleCommand sha256 command env
      (handled.1, .took (.command command) :: handled.2)
    | none => (rt, [])
  else (rt, [])

def ingressEvent (now : Timestamp) : Stepped :=
  if rt.ingress.running then
    match rt.events.recv with
    | some (event, events) =>
      let handled := { rt with events := events }.handleEvent sha256 event now
      (handled.1, .took (.event event) :: handled.2)
    | none => (rt, [])
  else (rt, [])

/-- The `else` of the `select!`: both channels are closed and empty. -/
def ingressIdle : Stepped :=
  if rt.commandsOpen = false ∧ rt.eventsOpen = false ∧ rt.commands.queue = [] ∧
      rt.events.queue = [] then
    ({ rt with ingress := { rt.ingress with running := false } }, [])
  else (rt, [])

def sessionCommand : Stepped :=
  if rt.session.running then
    match rt.sessionCommands.recv with
    | some (command, commands) =>
      let handled := { rt with sessionCommands := commands }.handleSession sha256 command
      (handled.1, .handledSession command :: handled.2)
    | none => (rt, [])
  else (rt, [])

def storageCommand (uuid : Uuid) (now : Timestamp) : Stepped :=
  if rt.storage.running then
    match rt.storageCommands.recv with
    | some (command, commands) =>
      let handled := { rt with storageCommands := commands }.handleStorage command uuid now
      (handled.1, .handledStorage command :: handled.2)
    | none => (rt, [])
  else (rt, [])

def internalEvent (instant : ℕ) : Stepped :=
  match rt.internalEvents.recv with
  | some (event, events) =>
    ({ rt with
      internalEvents := events
      supervisor := rt.supervisor.handleInternalEvent event instant }, [])
  | none => (rt, [])

/-- A transport gives up when it has lagged, and when all who could send are gone. -/
def pollEffect (transport : ℕ) : Stepped :=
  match rt.effects.recv transport with
  | (.value effect, effects) =>
    ({ rt with effects := effects }, [.handledEffect transport effect])
  | (.lagged _, _) => ({ rt with effects := rt.effects.unsubscribe transport }, [])
  | (.empty, _) =>
    if rt.ingress.running = false ∧ rt.session.running = false then
      ({ rt with effects := rt.effects.unsubscribe transport }, [])
    else (rt, [])

def pollAppEvent : Stepped :=
  if rt.appEventsOpen then
    match rt.appEvents.recv with
    | some (appEvent, appEvents) => ({ rt with appEvents := appEvents }, [.shown appEvent])
    | none => (rt, [])
  else (rt, [])

def step (act : Act) : Stepped :=
  match act with
  | .submit command =>
    if rt.commandsOpen = true ∧ rt.ingress.running = true then
      ({ rt with commands := (rt.commands.trySend command).getD rt.commands }, [])
    else (rt, [])
  | .report event =>
    if rt.eventsOpen = true ∧ rt.ingress.running = true then
      ({ rt with events := (rt.events.trySend event).getD rt.events }, [])
    else (rt, [])
  | .ingressCommand env => rt.ingressCommand sha256 env
  | .ingressEvent now => rt.ingressEvent sha256 now
  | .ingressIdle => rt.ingressIdle
  | .sessionCommand => rt.sessionCommand sha256
  | .storageCommand uuid now => rt.storageCommand uuid now
  | .internalEvent instant => rt.internalEvent instant
  | .healthCheck instant =>
    ({ rt with supervisor := rt.supervisor.performHealthCheck instant }, [.checkedHealth instant])
  | .pollEffect transport => rt.pollEffect transport
  | .pollAppEvent => rt.pollAppEvent
  | .leave transport => ({ rt with effects := rt.effects.unsubscribe transport }, [])
  | .closeCommands => ({ rt with commandsOpen := false }, [])
  | .closeEvents => ({ rt with eventsOpen := false }, [])
  | .closeAppEvents => ({ rt with appEventsOpen := false }, [])

/-- What was seen in a run, in order. -/
def log (acts : List Act) : List Seen := (outputs (step sha256) rt acts).flatten

end

end DecomposedRuntime

end Bitchat
