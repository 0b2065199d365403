import Bitchat.CoreLogicTask

/-!
# The counters of results

The core counts the effects and application events it has sent. No handler reads
these two counters, so that a step does the same whatever they say.
-/
namespace Bitchat
open Rust

namespace CoreState

variable {H T : Type}

/-- The state with other counts of results. -/
def addGenerated (effects appEvents : ℕ) (s : CoreState H T) : CoreState H T :=
  { s with stats := { s.stats with
    effectsGenerated := s.stats.effectsGenerated + effects
    appEventsGenerated := s.stats.appEventsGenerated + appEvents } }

variable (m n : ℕ) (s : CoreState H T)

theorem feed_addGenerated (p : PeerId) (c : ConnectionState) (event : ConnectionEvent)
    (now : Timestamp) :
    (s.addGenerated m n).feed p c event now =
      (s.feed p c event now).mapState (addGenerated m n) := by
  unfold feed
  cases c.transition event now <;> rfl

theorem feedOrReset_addGenerated (p : PeerId) (c : ConnectionState) (event : ConnectionEvent)
    (now : Timestamp) : (s.addGenerated m n).feedOrReset p c event now =
      (s.feedOrReset p c event now).mapState (addGenerated m n) := by
  unfold feedOrReset
  rw [feed_addGenerated]
  obtain ⟨s', (_ | _) | _⟩ := s.feed p c event now <;> rfl

theorem feedKnown_addGenerated (p : PeerId) (event : ConnectionEvent) (now : Timestamp) :
    (s.addGenerated m n).feedKnown p event now =
      (s.feedKnown p event now).mapState (addGenerated m n) := by
  unfold feedKnown
  have same : (s.addGenerated m n).connection p = s.connection p := rfl
  rw [same]
  cases s.connection p with
  | none => rfl
  | some c => exact feedOrReset_addGenerated m n s p c event now

end CoreState

namespace CommandHandlers

open CoreState

variable {H T : Type} (sha256 : Bytes → Key32) (noise : NoiseLibrary H T) (m n : ℕ)
  (s : CoreState H T)

theorem encryptFor_addGenerated (p : PeerId) (content : Text) (now : Timestamp) :
    encryptFor noise (s.addGenerated m n) p content now =
      (encryptFor noise s p content now).mapState (addGenerated m n) := by
  unfold encryptFor
  have same : (s.addGenerated m n).sessionManager = s.sessionManager := rfl
  rw [same]
  cases s.sessionManager.getSession p with
  | none => rfl
  | some session =>
    simp only
    split_ifs
    · rfl
    · obtain ⟨sealed, (_ | _) | _⟩ := session.encrypt noise content.asBytes now <;> rfl

theorem sendStored_addGenerated (c : ConnectionState) (p : PeerId)
    (message : ContentAddressedMessage) (now : Timestamp) :
    sendStored noise (s.addGenerated m n) c p message now =
      (sendStored noise s c p message now).mapState (addGenerated m n) := by
  unfold sendStored
  rw [encryptFor_addGenerated]
  obtain ⟨s', (_ | _) | _⟩ := encryptFor noise s p message.content now <;> rfl

theorem storeIn_addGenerated (message : ContentAddressedMessage) (now : Timestamp) :
    storeIn sha256 (s.addGenerated m n) message now =
      (storeIn sha256 s message now).mapState (addGenerated m n) := rfl

theorem advanceSequence_addGenerated :
    advanceSequence (s.addGenerated m n) = (advanceSequence s).mapState (addGenerated m n) := by
  unfold advanceSequence
  have same : (s.addGenerated m n).messageSequence = s.messageSequence := rfl
  rw [same]
  split_ifs <;> rfl

theorem handleSendMessage_addGenerated (p : PeerId) (content : Text) (now : Timestamp) :
    handleSendMessage sha256 noise (s.addGenerated m n) p content now =
      (handleSendMessage sha256 noise s p content now).mapState (addGenerated m n) := by
  unfold handleSendMessage
  have same : (s.addGenerated m n).connection p = s.connection p := rfl
  rw [same]
  cases s.connection p with
  | none => rfl
  | some c =>
    simp only
    split_ifs
    · rfl
    · rw [advanceSequence_addGenerated]
      apply Call.andThen_mapState
      intro s sequence
      rw [storeIn_addGenerated]
      apply Call.andThen_mapState
      intro s _
      exact sendStored_addGenerated noise m n (countSent s) c p _ now

theorem handleConnectToPeer_addGenerated (p : PeerId) (now : Timestamp) :
    handleConnectToPeer (s.addGenerated m n) p now =
      (handleConnectToPeer s p now).mapState (addGenerated m n) := by
  unfold handleConnectToPeer
  have same : (s.addGenerated m n).connection p = s.connection p := rfl
  rw [same]
  simp only [feed_addGenerated]
  obtain ⟨s', (_ | _) | _⟩ :=
    s.feed p ((s.connection p).getD (ConnectionState.newDisconnected p)) startDiscovery now <;> rfl

theorem handleDisconnectFromPeer_addGenerated (p : PeerId) (now : Timestamp) :
    handleDisconnectFromPeer (s.addGenerated m n) p now =
      (handleDisconnectFromPeer s p now).mapState (addGenerated m n) := by
  unfold handleDisconnectFromPeer
  have same : (s.addGenerated m n).connection p = s.connection p := rfl
  rw [same]
  cases s.connection p with
  | none => rfl
  | some c =>
    simp only [feed_addGenerated]
    obtain ⟨s', (_ | _) | _⟩ := s.feed p c .disconnect now <;> rfl

theorem acceptMessage_addGenerated (message : BitchatResult ContentAddressedMessage)
    (now : Timestamp) : acceptMessage sha256 (s.addGenerated m n) message now =
      (acceptMessage sha256 s message now).mapState (addGenerated m n) := by
  unfold acceptMessage
  have started : (s.addGenerated m n, message) =
    Call.mapState (addGenerated m n) (s, message) := rfl
  rw [started]
  apply Call.andThen_mapState
  intro s message
  rw [storeIn_addGenerated]
  apply Call.andThen_mapState
  intro s _
  rfl

theorem messageFrom_addGenerated (sender : PeerId) (content : Text)
    (messageId : Option MessageId) (recipient : Option PeerId)
    (timestamp sequence : Option UInt64) (now : Timestamp) :
    messageFrom sha256 (s.addGenerated m n) sender content messageId recipient timestamp sequence
        now =
      (messageFrom sha256 s sender content messageId recipient timestamp sequence now).mapState
        (addGenerated m n) := by
  cases sequence <;> rfl

/-- No event handler reads the counters of results. -/
theorem handleEvent_addGenerated (event : Event) (now : Timestamp) :
    handleEvent sha256 (s.addGenerated m n) event now =
      (handleEvent sha256 s event now).mapState (addGenerated m n) := by
  cases event with
  | peerDiscovered p transport signalStrength =>
    simp only [handleEvent, handlePeerDiscovered]
    have same : (s.addGenerated m n).connection p = s.connection p := rfl
    rw [same, feedOrReset_addGenerated]
    apply Call.andThen_mapState
    intro s _
    rfl
  | messageReceived sender content transport messageId recipient timestamp sequence =>
    simp only [handleEvent, handleMessageReceived, feedKnown_addGenerated]
    apply Call.andThen_mapState
    intro s _
    simp only [messageFrom_addGenerated, Call.mapState]
    exact acceptMessage_addGenerated sha256 m n _ _ now
  | bitchatPacketReceived sender packet transport =>
    simp only [handleEvent, handleBitchatPacketReceived, feedKnown_addGenerated]
    apply Call.andThen_mapState
    intro s _
    have same : messageOfPacket sha256 (s.addGenerated m n) packet =
      (messageOfPacket sha256 s packet).mapState (addGenerated m n) := rfl
    simp only [same, Call.mapState]
    exact acceptMessage_addGenerated sha256 m n _ _ now
  | connectionEstablished p transport =>
    simp only [handleEvent, handleConnectionEstablished, feedKnown_addGenerated]
    apply Call.andThen_mapState
    intro s _
    rfl
  | connectionLost p transport reason =>
    simp only [handleEvent, handleConnectionLost, feedKnown_addGenerated]
    apply Call.andThen_mapState
    intro s _
    rfl
  | _ => rfl

end CommandHandlers

namespace CoreLogicTask

open CommandHandlers

variable {H T : Type} (sha256 : Bytes → Key32) (noise : NoiseLibrary H T)

/-- What the handler of an input returns, before any of it is sent. -/
def receive (task : CoreLogicTask H T) (received : Input × Surroundings) :
    Call BitchatError (CoreLogicTask H T) Handled :=
  match received.1 with
  | .command command => task.countCommand.handleCommand sha256 noise command received.2.now
  | .event event => (task.countEvent.checkRateLimit event received.2).andThen fun task _ =>
      task.onState (handleEvent sha256 task.state event received.2.now)

/-- The task with other counts of results. -/
def addGenerated (effects appEvents : ℕ) (task : CoreLogicTask H T) : CoreLogicTask H T :=
  { task with state := task.state.addGenerated effects appEvents }

variable {sha256 noise}

@[simp] theorem addGenerated_zero (task : CoreLogicTask H T) : task.addGenerated 0 0 = task := rfl

theorem addGenerated_addGenerated (m n m' n' : ℕ) (task : CoreLogicTask H T) :
    (task.addGenerated m n).addGenerated m' n' = task.addGenerated (m + m') (n + n') := by
  simp [addGenerated, CoreState.addGenerated, Nat.add_assoc]

theorem emit_eq (task : CoreLogicTask H T) (handled : Handled) :
    task.emit handled = (task.addGenerated handled.1.length handled.2.length, .ok handled) := rfl

/-- A step of the core handles the input and sends what the handler returned. -/
theorem step_eq_receive (task : CoreLogicTask H T) (received : Input × Surroundings) :
    task.step sha256 noise received = (task.receive sha256 noise received).andThen emit := by
  obtain ⟨command | event, env⟩ := received
  · rfl
  · simp only [step, receive, processEvent]
    obtain ⟨task', e | u⟩ := task.countEvent.checkRateLimit event env <;> rfl

/-- No handler reads the counters of results. -/
theorem receive_addGenerated (m n : ℕ) (task : CoreLogicTask H T)
    (received : Input × Surroundings) : (task.addGenerated m n).receive sha256 noise received =
      (task.receive sha256 noise received).mapState (addGenerated m n) := by
  obtain ⟨command | event, env⟩ := received
  · simp only [receive]
    have counted : (task.addGenerated m n).countCommand =
      task.countCommand.addGenerated m n := rfl
    rw [counted]
    cases command with
    | sendMessage p content =>
      exact congrArg (onState _)
        (handleSendMessage_addGenerated sha256 noise m n task.countCommand.state p content env.now)
    | connectToPeer p =>
      exact congrArg (onState _)
        (handleConnectToPeer_addGenerated m n task.countCommand.state p env.now)
    | disconnectFromPeer p =>
      exact congrArg (onState _)
        (handleDisconnectFromPeer_addGenerated m n task.countCommand.state p env.now)
    | _ => rfl
  · simp only [receive]
    have limited : (task.addGenerated m n).countEvent.checkRateLimit event env =
        (task.countEvent.checkRateLimit event env).mapState (addGenerated m n) := by
      cases event <;> rfl
    rw [limited]
    apply Call.andThen_mapState
    intro task _
    exact congrArg (onState _) (handleEvent_addGenerated sha256 m n task.state event env.now)

end CoreLogicTask

end Bitchat
