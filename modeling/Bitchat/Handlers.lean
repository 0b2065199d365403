import Bitchat.CoreState
import Bitchat.Rust.Utf8

/-!
# Command and event handlers

`CommandHandlers` of `logic/handlers.rs`. A handler returns effects for the
transports and events for the application. The clock is read once per call.
-/
namespace Bitchat
open Rust

/-- `(Vec<Effect>, Vec<AppEvent>)`. -/
abbrev Handled := List Effect × List AppEvent

/-- A handler's result: nothing to do but report an error. -/
def reportError (error : String) : BitchatResult Handled := .ok ([], [.systemError error])

def reportStatus (peerId : PeerId) (status : ConnectionStatus)
    (transport : Option ChannelTransportType) : BitchatResult Handled :=
  .ok ([], [.peerStatusChanged peerId status transport])

namespace CommandHandlers

variable {H T : Type}

/-- The ciphertext for a peer, or the text of the error event. -/
def encryptFor (noise : NoiseLibrary H T) (s : CoreState H T) (recipient : PeerId)
    (content : Text) (now : Timestamp) : Call String (CoreState H T) Bytes :=
  match s.sessionManager.getSession recipient with
  | none => (s, fail ("No session with peer " ++ recipient.display))
  | some session =>
    if session.state ≠ .established then
      (s, fail ("Session with peer " ++ recipient.display ++ " not established"))
    else
      let sealed := session.encrypt noise content.asBytes now
      let s := { s with sessionManager := s.sessionManager.setSession recipient sealed.1 }
      match sealed.2 with
      | .ok encrypted => (s, .ok encrypted)
      | .error (.err e) => (s, fail ("Encryption failed: " ++ e.display))
      | .error .panic => (s, panicked)

/-- The transport of a connected peer. -/
def transportOf : ConnectionState → ChannelTransportType
  | .connected c => c.transport
  | _ => .ble

/-- Encrypts the stored message and hands it to the transport. -/
def sendStored (noise : NoiseLibrary H T) (s : CoreState H T) (connection : ConnectionState)
    (recipient : PeerId) (message : ContentAddressedMessage) (now : Timestamp) :
    Call BitchatError (CoreState H T) Handled :=
  match encryptFor noise s recipient message.content now with
  | (s, .ok packetData) =>
    (s, .ok ([.sendPacket recipient packetData (transportOf connection)],
      [.messageSent recipient message.content message.timestamp]))
  | (s, .error (.err error)) => (s, reportError error)
  | (s, .error .panic) => (s, panicked)

/-- The store is updated also when it refuses the message. -/
def storeIn (sha256 : Bytes → Key32) (s : CoreState H T) (message : ContentAddressedMessage)
    (now : Timestamp) : Call BitchatError (CoreState H T) Bool :=
  let stored := s.messageStore.storeMessage sha256 message now
  ({ s with messageStore := stored.1 }, stored.2)

/-- `state.stats.messages_sent += 1`. -/
def countSent (s : CoreState H T) : CoreState H T :=
  { s with stats := { s.stats with messagesSent := s.stats.messagesSent + 1 } }

/-- `state.stats.messages_received += 1`. -/
def countReceived (s : CoreState H T) : CoreState H T :=
  { s with stats := { s.stats with messagesReceived := s.stats.messagesReceived + 1 } }

/-- `state.message_sequence += 1`, which panics when it overflows. -/
def advanceSequence (s : CoreState H T) : Call BitchatError (CoreState H T) UInt64 :=
  if s.messageSequence.toNat + 1 < 2 ^ 64 then
    ({ s with messageSequence := s.messageSequence + 1 }, .ok (s.messageSequence + 1))
  else (s, panicked)

def handleSendMessage (sha256 : Bytes → Key32) (noise : NoiseLibrary H T) (s : CoreState H T)
    (recipient : PeerId) (content : Text) (now : Timestamp) :
    Call BitchatError (CoreState H T) Handled :=
  match s.connection recipient with
  | none => (s, reportError ("Peer " ++ recipient.display ++ " not found"))
  | some connection =>
    if connection.canSendMessages = false then
      (s, reportError ("Cannot send to peer " ++ recipient.display ++ " - not connected"))
    else
      (advanceSequence s).andThen fun s sequence =>
        let message :=
          ContentAddressedMessage.new sha256 s.peerId (some recipient) content sequence now
        (storeIn sha256 s message now).andThen fun s _ =>
          sendStored noise (countSent s) connection recipient message now

/-- The event that a connect request feeds. -/
def startDiscovery : ConnectionEvent := .startDiscovery (some 60)

/-- The text of the rejection, with the debug text of the event. -/
def connectError (rejection : InvalidTransition) : String :=
  "Failed to connect to peer: Invalid transition from " ++ rejection.fromState ++
    " on event StartDiscovery \x7b timeout_seconds: Some(60) \x7d: " ++
    "Event StartDiscovery \x7b timeout_seconds: Some(60) \x7d not valid for state " ++
    rejection.fromState

/-- A rejected request loses the entry. -/
def handleConnectToPeer (s : CoreState H T) (peerId : PeerId) (now : Timestamp) :
    Call BitchatError (CoreState H T) Handled :=
  let connection := (s.connection peerId).getD (ConnectionState.newDisconnected peerId)
  match s.feed peerId connection startDiscovery now with
  | (s, .ok _) => (s, .ok ([], []))
  | (s, .error (.err e)) => (s, reportError (connectError e))
  | (s, .error .panic) => (s, panicked)

def handleStartDiscovery : BitchatResult Handled :=
  .ok ([.startTransportDiscovery .ble, .startTransportDiscovery .nostr],
    [.discoveryStateChanged true none])

def handleStopDiscovery : BitchatResult Handled :=
  .ok ([.stopTransportDiscovery .ble, .stopTransportDiscovery .nostr],
    [.discoveryStateChanged false none])

def handleDisconnectFromPeer (s : CoreState H T) (peerId : PeerId) (now : Timestamp) :
    Call BitchatError (CoreState H T) Handled :=
  match s.connection peerId with
  | none => (s, reportStatus peerId .disconnected none)
  | some connection =>
    match s.feed peerId connection .disconnect now with
    | (s, .ok _) => (s, reportStatus peerId .disconnected none)
    | (s, .error (.err _)) => (s, reportStatus peerId .disconnected none)
    | (s, .error .panic) => (s, panicked)

def handleShutdown : BitchatResult Handled := .ok ([.stopListening .ble, .stopListening .nostr], [])

def handlePeerDiscovered (s : CoreState H T) (peerId : PeerId) (transport : ChannelTransportType)
    (signalStrength : Option Int8) (now : Timestamp) : Call BitchatError (CoreState H T) Handled :=
  let connection := (s.connection peerId).getD (ConnectionState.newDisconnected peerId)
  (s.feedOrReset peerId connection (.peerDiscovered transport signalStrength) now).andThen
    fun s _ => (s, reportStatus peerId .discovering (some transport))

/-- The given sequence number, or the next one of the core, which wraps. -/
def resolveSequence (s : CoreState H T) (sequence : Option UInt64) : CoreState H T × UInt64 :=
  match sequence with
  | some sequence => (s, sequence)
  | none => ({ s with messageSequence := s.messageSequence + 1 }, s.messageSequence + 1)

/-- Stores a message that was put together from what arrived, and announces it. -/
def acceptMessage (sha256 : Bytes → Key32) (s : CoreState H T)
    (message : BitchatResult ContentAddressedMessage) (now : Timestamp) :
    Call BitchatError (CoreState H T) Handled :=
  Call.andThen (s, message) fun s message =>
    (storeIn sha256 s message now).andThen fun s _ =>
      (countReceived s,
        .ok ([], [.messageReceived message.sender message.content message.timestamp]))

/-- The message of a `MessageReceived` event. -/
def messageFrom (sha256 : Bytes → Key32) (s : CoreState H T) (sender : PeerId) (content : Text)
    (messageId : Option MessageId) (recipient : Option PeerId)
    (timestamp sequence : Option UInt64) (now : Timestamp) :
    Call BitchatError (CoreState H T) ContentAddressedMessage :=
  let resolved := resolveSequence s sequence
  (resolved.1, ContentAddressedMessage.fromMetadata sha256 sender
    (some (recipient.getD s.peerId)) content resolved.2 (timestamp.getD now.asMillis) messageId)

/-- The message of a packet. Its sequence number is always a new one. -/
def messageOfPacket (sha256 : Bytes → Key32) (s : CoreState H T) (packet : BitchatPacket) :
    Call BitchatError (CoreState H T) ContentAddressedMessage :=
  let resolved := resolveSequence s none
  (resolved.1, ContentAddressedMessage.fromMetadata sha256 packet.senderId
    (packet.recipientId.or (some s.peerId)) (fromUtf8Lossy packet.payload) resolved.2
    packet.header.timestamp.asMillis none)

def handleMessageReceived (sha256 : Bytes → Key32) (s : CoreState H T) (sender : PeerId)
    (content : Text) (messageId : Option MessageId) (recipient : Option PeerId)
    (timestamp sequence : Option UInt64) (now : Timestamp) :
    Call BitchatError (CoreState H T) Handled :=
  (s.feedKnown sender .activityDetected now).andThen fun s _ =>
    let built := messageFrom sha256 s sender content messageId recipient timestamp sequence now
    acceptMessage sha256 built.1 built.2 now

def handleBitchatPacketReceived (sha256 : Bytes → Key32) (s : CoreState H T) (sender : PeerId)
    (packet : BitchatPacket) (now : Timestamp) : Call BitchatError (CoreState H T) Handled :=
  (s.feedKnown sender .activityDetected now).andThen fun s _ =>
    let built := messageOfPacket sha256 s packet
    acceptMessage sha256 built.1 built.2 now

/-- `format!("session-{}-{}", peer_id, transport)`. -/
def sessionId (peerId : PeerId) (transport : ChannelTransportType) : String :=
  "session-" ++ peerId.display ++ "-" ++ transport.display

def handleConnectionEstablished (s : CoreState H T) (peerId : PeerId)
    (transport : ChannelTransportType) (now : Timestamp) :
    Call BitchatError (CoreState H T) Handled :=
  (s.feedKnown peerId (.connectionEstablished (sessionId peerId transport)) now).andThen
    fun s _ => (s, reportStatus peerId .connected (some transport))

def handleConnectionLost (s : CoreState H T) (peerId : PeerId)
    (transport : ChannelTransportType) (reason : String) (now : Timestamp) :
    Call BitchatError (CoreState H T) Handled :=
  (s.feedKnown peerId (.connectionLost reason) now).andThen
    fun s _ => (s, reportStatus peerId .error (some transport))

def handleTransportError (error : String) : BitchatResult Handled := reportError error

/-- The handler that the core runs for an event, once the event is admitted. -/
def handleEvent (sha256 : Bytes → Key32) (s : CoreState H T) (event : Event) (now : Timestamp) :
    Call BitchatError (CoreState H T) Handled :=
  match event with
  | .peerDiscovered peerId transport signalStrength =>
    handlePeerDiscovered s peerId transport signalStrength now
  | .messageReceived sender content _ messageId recipient timestamp sequence =>
    handleMessageReceived sha256 s sender content messageId recipient timestamp sequence now
  | .bitchatPacketReceived sender packet _ => handleBitchatPacketReceived sha256 s sender packet now
  | .connectionEstablished peerId transport => handleConnectionEstablished s peerId transport now
  | .connectionLost peerId transport reason => handleConnectionLost s peerId transport reason now
  | .transportError _ error => (s, handleTransportError error)
  | .transportHealthCheckCompleted _ => (s, .ok ([], []))
  | .transportMetricsUpdated _ => (s, .ok ([], []))
  | .transportFailoverOccurred _ _ => (s, .ok ([], []))

/-- The peer whose entry an event concerns and what its handler feeds it. -/
def fedBy : Event → Option (PeerId × ConnectionEvent)
  | .peerDiscovered peerId transport signalStrength =>
    some (peerId, .peerDiscovered transport signalStrength)
  | .messageReceived sender _ _ _ _ _ _ => some (sender, .activityDetected)
  | .bitchatPacketReceived sender _ _ => some (sender, .activityDetected)
  | .connectionEstablished peerId transport =>
    some (peerId, .connectionEstablished (sessionId peerId transport))
  | .connectionLost peerId _ reason => some (peerId, .connectionLost reason)
  | _ => none

/-- The entry that an event's handler takes out. A discovery starts one. -/
def takenBy (s : CoreState H T) (event : Event) (peerId : PeerId) : Option ConnectionState :=
  match event with
  | .peerDiscovered _ _ _ =>
    some ((s.connection peerId).getD (ConnectionState.newDisconnected peerId))
  | _ => s.connection peerId

section

variable (sha256 : Bytes → Key32) (noise : NoiseLibrary H T)

theorem connections_advanceSequence (s : CoreState H T) :
    (advanceSequence s).1.connections = s.connections := by
  unfold advanceSequence
  split_ifs <;> rfl

theorem connections_resolveSequence (s : CoreState H T) (sequence : Option UInt64) :
    (resolveSequence s sequence).1.connections = s.connections := by
  cases sequence <;> rfl

theorem connections_encryptFor (s : CoreState H T) (recipient : PeerId) (content : Text)
    (now : Timestamp) :
    (encryptFor noise s recipient content now).1.connections = s.connections := by
  unfold encryptFor
  cases s.sessionManager.getSession recipient with
  | none => rfl
  | some session =>
    simp only
    split_ifs
    · rfl
    · split <;> rfl

theorem connections_sendStored (s : CoreState H T) (connection : ConnectionState)
    (recipient : PeerId) (message : ContentAddressedMessage) (now : Timestamp) :
    (sendStored noise s connection recipient message now).1.connections = s.connections := by
  have hencrypt := connections_encryptFor noise s recipient message.content now
  unfold sendStored
  split <;> simp_all

/-- Sending leaves every connection as it is. -/
theorem connections_handleSendMessage (s : CoreState H T) (recipient : PeerId) (content : Text)
    (now : Timestamp) :
    (handleSendMessage sha256 noise s recipient content now).1.connections = s.connections := by
  unfold handleSendMessage
  cases s.connection recipient with
  | none => rfl
  | some connection =>
    simp only
    split_ifs
    · rfl
    · apply Call.andThen_frame CoreState.connections
      · exact connections_advanceSequence s
      · intro sequence _
        apply Call.andThen_frame CoreState.connections
        · exact connections_advanceSequence s
        · intro _ _
          rw [connections_sendStored]
          exact connections_advanceSequence s

theorem connections_acceptMessage (s : CoreState H T)
    (message : BitchatResult ContentAddressedMessage) (now : Timestamp) :
    (acceptMessage sha256 s message now).1.connections = s.connections := by
  unfold acceptMessage
  apply Call.andThen_frame CoreState.connections
  · rfl
  · intro _ _
    apply Call.andThen_frame CoreState.connections
    · rfl
    · intro _ _
      rfl

theorem connections_handleMessageReceived (s : CoreState H T) (sender : PeerId) (content : Text)
    (messageId : Option MessageId) (recipient : Option PeerId)
    (timestamp sequence : Option UInt64) (now : Timestamp) :
    (handleMessageReceived sha256 s sender content messageId recipient timestamp sequence
      now).1.connections = (s.feedKnown sender .activityDetected now).1.connections := by
  unfold handleMessageReceived
  apply Call.andThen_frame CoreState.connections
  · rfl
  · intro _ _
    rw [connections_acceptMessage]
    exact connections_resolveSequence _ sequence

theorem connections_handleBitchatPacketReceived (s : CoreState H T) (sender : PeerId)
    (packet : BitchatPacket) (now : Timestamp) :
    (handleBitchatPacketReceived sha256 s sender packet now).1.connections =
      (s.feedKnown sender .activityDetected now).1.connections := by
  unfold handleBitchatPacketReceived
  apply Call.andThen_frame CoreState.connections
  · rfl
  · intro _ _
    rw [connections_acceptMessage]
    exact connections_resolveSequence _ none

/-- The connections after an event are those after feeding the peer it concerns. -/
theorem connections_handleEvent (s : CoreState H T) (event : Event) (now : Timestamp) :
    (handleEvent sha256 s event now).1.connections =
      match fedBy event with
      | some (p, fed) =>
        match takenBy s event p with
        | some c => (s.feedOrReset p c fed now).1.connections
        | none => s.connections
      | none => s.connections := by
  have known : ∀ p fed, (s.feedKnown p fed now).1.connections =
      match s.connection p with
      | some c => (s.feedOrReset p c fed now).1.connections
      | none => s.connections := by
    intro p fed
    cases h : s.connection p <;> simp [CoreState.feedKnown, h]
  cases event with
  | peerDiscovered peerId transport signalStrength =>
    apply Call.andThen_frame CoreState.connections <;> intros <;> rfl
  | messageReceived sender =>
    exact (connections_handleMessageReceived sha256 s _ _ _ _ _ _ now).trans (known sender _)
  | bitchatPacketReceived sender packet =>
    exact (connections_handleBitchatPacketReceived sha256 s _ _ now).trans (known sender _)
  | connectionEstablished peerId transport =>
    refine Eq.trans ?_ (known peerId _)
    apply Call.andThen_frame CoreState.connections <;> intros <;> rfl
  | connectionLost peerId transport reason =>
    refine Eq.trans ?_ (known peerId _)
    apply Call.andThen_frame CoreState.connections <;> intros <;> rfl
  | _ => rfl

variable {s : CoreState H T}

theorem takenBy_peerId (own : s.OwnEntries) {event : Event} {p : PeerId} {c : ConnectionState}
    (h : takenBy s event p = some c) : c.peerId = p := by
  cases event with
  | peerDiscovered =>
    rw [← Option.some.inj h]
    exact own.getD p
  | _ => exact own p c h

/-- An event changes the entry of the peer it concerns and no other. -/
theorem connection_handleEvent (own : s.OwnEntries) (event : Event) (now : Timestamp)
    (q : PeerId) :
    (handleEvent sha256 s event now).1.connection q =
      match fedBy event with
      | some (p, fed) =>
        if q = p then (takenBy s event p).bind fun c => CoreState.settled p c fed now
        else s.connection q
      | none => s.connection q := by
  rw [CoreState.connection, connections_handleEvent]
  cases fedBy event with
  | none => rfl
  | some concern =>
    obtain ⟨p, fed⟩ := concern
    simp only
    cases htaken : takenBy s event p with
    | some c => exact CoreState.connection_feedOrReset (takenBy_peerId own htaken) fed now q
    | none =>
      have absent : s.connection p = none := by
        cases event with
        | peerDiscovered => cases htaken
        | _ => exact htaken
      by_cases hq : q = p
      · rw [if_pos hq, hq]
        exact absent
      · rw [if_neg hq]
        rfl

theorem ownEntries_handleEvent (own : s.OwnEntries) (event : Event) (now : Timestamp) :
    (handleEvent sha256 s event now).1.OwnEntries := by
  have entries := connection_handleEvent sha256 own event now
  cases hfed : fedBy event with
  | none =>
    intro q c h
    rw [entries, hfed] at h
    exact own q c h
  | some concern =>
    obtain ⟨p, fed⟩ := concern
    simp only [hfed] at entries
    refine own.update (p := p) ?_ entries
    intro c hc
    obtain ⟨taken, htaken, hsettled⟩ := Option.bind_eq_some_iff.mp hc
    exact CoreState.settled_peerId (takenBy_peerId own htaken) hsettled

/-- A connect request changes the entry of its peer; a rejection removes it. -/
theorem connection_handleConnectToPeer (own : s.OwnEntries) (p : PeerId) (now : Timestamp)
    (q : PeerId) :
    (handleConnectToPeer s p now).1.connection q =
      if q = p then
        CoreState.successorEntry ((s.connection p).getD (ConnectionState.newDisconnected p))
          startDiscovery now
      else s.connection q := by
  rw [← CoreState.connection_feed (own.getD p) startDiscovery now q]
  unfold handleConnectToPeer
  simp only
  split <;> simp_all

/-- A disconnect is never rejected: a known peer ends up disconnected. -/
theorem connection_handleDisconnectFromPeer (own : s.OwnEntries) (p : PeerId) (now : Timestamp)
    (q : PeerId) :
    (handleDisconnectFromPeer s p now).1.connection q =
      if q = p then (s.connection p).map fun _ => .disconnected ⟨p, some now, 0⟩
      else s.connection q := by
  unfold handleDisconnectFromPeer
  cases h : s.connection p with
  | none => by_cases hq : q = p <;> simp [h, hq]
  | some c =>
    have fed := CoreState.connection_feed (s := s) (own p c h) .disconnect now q
    obtain ⟨t, ht, hnew⟩ := c.transition_disconnect now
    rw [own p c h] at hnew
    simp only [CoreState.successorEntry, CoreState.feed, ht, hnew] at fed ⊢
    exact fed

end

end CommandHandlers

end Bitchat
