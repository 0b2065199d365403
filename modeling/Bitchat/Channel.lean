import Bitchat.MessageStore
import Bitchat.Packet

/-!
# Commands, events and effects

The messages that the tasks exchange, from `communication.rs`. A variant keeps
the fields that some task reads or writes.
-/
namespace Bitchat
open Rust

inductive ChannelTransportType where
  | ble
  | nostr
  deriving DecidableEq, Repr

/-- The `Display` text of a transport. -/
def ChannelTransportType.display : ChannelTransportType → String
  | .ble => "BLE"
  | .nostr => "Nostr"

inductive Command where
  | sendMessage (recipient : PeerId) (content : Text)
  | connectToPeer (peerId : PeerId)
  | startDiscovery
  | stopDiscovery
  | disconnectFromPeer (peerId : PeerId)
  | shutdown
  | pauseTransport (transport : ChannelTransportType)
  | resumeTransport (transport : ChannelTransportType)
  | getSystemStatus
  | queryMessageStatus (messageId : MessageId)
  | queryPeerSession (peerId : PeerId)
  | queryDeliveryStatus (peerId : PeerId)
  | queryInternalState

/-- The last three report on the transports themselves; the core only logs them. -/
inductive Event where
  | peerDiscovered (peerId : PeerId) (transport : ChannelTransportType)
      (signalStrength : Option Int8)
  | messageReceived (sender : PeerId) (content : Text) (transport : ChannelTransportType)
      (messageId : Option MessageId) (recipient : Option PeerId)
      (timestamp sequence : Option UInt64)
  | bitchatPacketReceived (sender : PeerId) (packet : BitchatPacket)
      (transport : ChannelTransportType)
  | connectionEstablished (peerId : PeerId) (transport : ChannelTransportType)
  | connectionLost (peerId : PeerId) (transport : ChannelTransportType) (reason : String)
  | transportError (transport : ChannelTransportType) (error : String)
  | transportHealthCheckCompleted (transport : ChannelTransportType)
  | transportMetricsUpdated (transport : ChannelTransportType)
  | transportFailoverOccurred (source target : ChannelTransportType)
  deriving DecidableEq

inductive Effect where
  | sendPacket (peerId : PeerId) (data : Bytes) (transport : ChannelTransportType)
  | sendBitchatPacket (peerId : PeerId) (packet : BitchatPacket)
      (transport : ChannelTransportType)
  | broadcastBitchatPacket (packet : BitchatPacket) (transport : ChannelTransportType)
  | initiateConnection (peerId : PeerId) (transport : ChannelTransportType)
  | startListening (transport : ChannelTransportType)
  | stopListening (transport : ChannelTransportType)
  | startTransportDiscovery (transport : ChannelTransportType)
  | stopTransportDiscovery (transport : ChannelTransportType)
  | pauseTransport (transport : ChannelTransportType)
  | resumeTransport (transport : ChannelTransportType)
  deriving DecidableEq

inductive ConnectionStatus where
  | disconnected
  | discovering
  | connecting
  | connected
  | error
  deriving DecidableEq, Repr

inductive TransportStatus where
  | active
  | paused
  | disabled
  | unavailable
  deriving DecidableEq, Repr

inductive MessageDeliveryStatus where
  | pending
  | delivered
  | failed
  | retrying
  | timedOut
  deriving DecidableEq, Repr

inductive PeerSessionState where
  | none
  | establishing
  | established
  | failed
  | rekeying
  deriving DecidableEq, Repr

inductive EncryptionStatus where
  | none
  | noiseProtocol
  | failed
  | negotiating
  deriving DecidableEq, Repr

/-- The list of connection states in a report is in no particular order, hence a
map. Report fields that are always absent or zero are left out. -/
inductive AppEvent where
  | messageReceived (sender : PeerId) (content : Text) (timestamp : UInt64)
  | messageSent (recipient : PeerId) (content : Text) (timestamp : UInt64)
  | peerStatusChanged (peerId : PeerId) (status : ConnectionStatus)
      (transport : Option ChannelTransportType)
  | discoveryStateChanged (active : Bool) (transport : Option ChannelTransportType)
  | systemError (error : String)
  | systemStatusReport (peerCount activeConnections messageCount uptimeSeconds : ℕ)
      (transportStatus : List (ChannelTransportType × TransportStatus))
  | messageStatusReport (messageId : MessageId) (status : MessageDeliveryStatus)
  | peerSessionReport (peerId : PeerId) (sessionState : PeerSessionState)
      (encryptionStatus : EncryptionStatus)
  | deliveryStatusReport (peerId : PeerId)
  | internalStateReport (peerId : PeerId) (activeSessions : ℕ)
      (connectionStates : Map PeerId ConnectionStatus) (uptimeMs : ℕ)
  deriving DecidableEq

end Bitchat
