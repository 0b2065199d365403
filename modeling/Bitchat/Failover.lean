import Bitchat.Rust.Map
import Bitchat.Types
import Mathlib.Data.Rat.Defs

/-!
# Transport selection

Which transport a message goes out by: the basic selection of `failover.rs`, and
the rules and the scores of `advanced_failover.rs` on top of it. Times are
milliseconds.
-/
namespace Bitchat
open Rust

inductive TransportType where
  | ble
  | nostr
  deriving DecidableEq

inductive BasicRoutingStrategy where
  | preferPrimary
  | loadBalance
  | broadcastAll
  deriving DecidableEq

/-- `failover::TransportStatus`. -/
structure Failover.TransportStatus where
  isAvailable : Bool
  consecutiveFailures : ℕ

namespace Failover.TransportStatus

def new : TransportStatus := ⟨false, 0⟩

def isHealthy (status : TransportStatus) : Bool :=
  status.isAvailable && status.consecutiveFailures < 3

end Failover.TransportStatus

structure FailoverConfig where
  primaryTransport : TransportType
  routingStrategy : BasicRoutingStrategy

def FailoverConfig.default : FailoverConfig := ⟨.ble, .preferPrimary⟩

structure PeerReachability where
  bleReachable : Bool
  nostrAvailable : Bool
  lastBleSeen : Option ℕ
  lastNostrSeen : Option ℕ

def PeerReachability.preferredTransport (reach : PeerReachability) (config : FailoverConfig) :
    Option TransportType :=
  match config.routingStrategy with
  | .preferPrimary =>
    if reach.bleReachable && config.primaryTransport = .ble then some .ble
    else if reach.nostrAvailable then some .nostr
    else none
  | .loadBalance =>
    match reach.bleReachable, reach.nostrAvailable with
    | true, true =>
      match reach.lastBleSeen, reach.lastNostrSeen with
      | some bleTime, some nostrTime => if nostrTime < bleTime then some .ble else some .nostr
      | _, _ => some config.primaryTransport
    | true, false => some .ble
    | false, true => some .nostr
    | false, false => none
  | .broadcastAll =>
    if reach.bleReachable then some .ble
    else if reach.nostrAvailable then some .nostr
    else none

inductive MessageContext where
  | privateMessage (recipient : PeerId)
  | publicMesh
  | publicLocation
  | readReceipt (recipient : PeerId)
  | deliveryAck (recipient : PeerId)
  | favoriteNotification (recipient : PeerId)
  deriving DecidableEq

/-- The peer that a message is for, if it is for one. -/
def MessageContext.recipient : MessageContext → Option PeerId
  | .privateMessage recipient => some recipient
  | .readReceipt recipient => some recipient
  | .deliveryAck recipient => some recipient
  | .favoriteNotification recipient => some recipient
  | .publicMesh => none
  | .publicLocation => none

/-- `mem::discriminant(a) == mem::discriminant(b)`. -/
def MessageContext.sameKind : MessageContext → MessageContext → Bool
  | .privateMessage _, .privateMessage _ => true
  | .publicMesh, .publicMesh => true
  | .publicLocation, .publicLocation => true
  | .readReceipt _, .readReceipt _ => true
  | .deliveryAck _, .deliveryAck _ => true
  | .favoriteNotification _, .favoriteNotification _ => true
  | _, _ => false

inductive TransportSelection where
  | useTransport (transport : TransportType)
  | useAll (transports : List TransportType)
  | queue
  | cannotSend (reason : String)
  deriving DecidableEq

structure BasicTransportManager where
  config : FailoverConfig
  transportStatus : Map TransportType Failover.TransportStatus
  peerReachability : Map PeerId PeerReachability

namespace BasicTransportManager

def new (config : FailoverConfig) : BasicTransportManager where
  config := config
  transportStatus := (Finmap.singleton .ble .new).insert .nostr .new
  peerReachability := ∅

def isTransportHealthy (m : BasicTransportManager) (transport : TransportType) : Bool :=
  ((m.transportStatus.lookup transport).map Failover.TransportStatus.isHealthy).getD false

/-- The transport if it is healthy, else the queue. -/
def useIfHealthy (m : BasicTransportManager) (transport : TransportType) : TransportSelection :=
  if m.isTransportHealthy transport then .useTransport transport else .queue

def selectTransportForPeer (m : BasicTransportManager) (peerId : PeerId) : TransportSelection :=
  let reachability := m.peerReachability.lookup peerId
  match m.config.routingStrategy with
  | .preferPrimary =>
    match reachability with
    | some reach =>
      if reach.bleReachable && m.isTransportHealthy .ble then .useTransport .ble
      else if reach.nostrAvailable && m.isTransportHealthy .nostr then .useTransport .nostr
      else .queue
    | none => m.useIfHealthy m.config.primaryTransport
  | .loadBalance =>
    match reachability with
    | some reach =>
      match reach.preferredTransport m.config with
      | some transport =>
        let other : TransportType := match transport with
          | .ble => .nostr
          | .nostr => .ble
        if m.isTransportHealthy transport then .useTransport transport else m.useIfHealthy other
      | none => .cannotSend "Peer not reachable via any transport"
    | none => .queue
  | .broadcastAll =>
    let available := match reachability with
      | some reach =>
        (if reach.bleReachable && m.isTransportHealthy .ble then [TransportType.ble] else []) ++
          if reach.nostrAvailable && m.isTransportHealthy .nostr then [.nostr] else []
      | none => []
    if available.isEmpty then .queue else .useAll available

def selectTransport (m : BasicTransportManager) : MessageContext → TransportSelection
  | .privateMessage recipient => m.selectTransportForPeer recipient
  | .readReceipt recipient => m.selectTransportForPeer recipient
  | .deliveryAck recipient => m.selectTransportForPeer recipient
  | .favoriteNotification recipient => m.selectTransportForPeer recipient
  | .publicMesh => m.useIfHealthy .ble
  | .publicLocation => m.useIfHealthy .nostr

end BasicTransportManager

/-- What routing reads of the health of a transport. The rate and the score, which is the
value of `get_transport_score`, are floating-point numbers of which only the order counts. -/
structure TransportHealth where
  successRate : ℚ
  consecutiveFailures : ℕ
  transportScore : ℚ

def TransportHealth.isHealthy (health : TransportHealth) : Bool :=
  health.consecutiveFailures < 3 && 1 / 2 < health.successRate

structure RoutingRule where
  peerId : Option PeerId
  messageContext : Option MessageContext
  preferredTransport : TransportType
  fallbackTransports : List TransportType
  priority : ℕ
  enabled : Bool

/-- A rule that names no peer, or no kind of message, applies to all. -/
def RoutingRule.matches (rule : RoutingRule) (peerId : Option PeerId) (context : MessageContext) :
    Bool :=
  rule.enabled && (rule.peerId.isNone || peerId = rule.peerId) &&
    rule.messageContext.all fun ruleContext => MessageContext.sameKind ruleContext context

/-- The rules by falling priority. -/
structure RoutingTable where
  rules : List RoutingRule

namespace RoutingTable

def new : RoutingTable := ⟨[]⟩

def findRule (table : RoutingTable) (peerId : Option PeerId) (context : MessageContext) :
    Option RoutingRule :=
  table.rules.find? fun rule => rule.matches peerId context

end RoutingTable

end Bitchat
