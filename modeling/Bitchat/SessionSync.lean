import Bitchat.Rust.Call
import Bitchat.Rust.KeyedMap
import Bitchat.Rust.Map
import Bitchat.Rust.Run
import Bitchat.Rust.Text
import Bitchat.Types
import Mathlib.Data.List.MinMax

/-!
# Session synchronisation between devices

The session states and message references of `MultiDeviceSessionManager` of
`session_sync.rs`, and the exchange of a request and its response.
-/
namespace Bitchat
open Rust Std

def maxMessageRefs : ℕ := 1000

/-- The derived order of peer ids is that of their bytes. -/
instance : Ord PeerId := ⟨compareOn PeerId.asBytes⟩

instance : TransOrd PeerId := inferInstanceAs (TransCmp (compareOn PeerId.asBytes))

instance : LawfulEqOrd PeerId where
  eq_of_compare h := PeerId.asBytes_injective (LawfulEqOrd.eq_of_compare h)

structure DeviceId where
  id : Text
  deriving DecidableEq

structure DeviceInfo where
  deviceId : DeviceId
  deriving DecidableEq

inductive SessionStatus where
  | handshaking
  | active
  | idle
  | terminated
  deriving DecidableEq

structure SessionSyncState where
  peerId : PeerId
  status : SessionStatus
  lastMessage : Option Timestamp
  unreadCount : UInt32
  sessionFingerprint : Option Fingerprint
  lastSync : Timestamp
  deriving DecidableEq

structure MessageRef where
  messageId : Text
  sender : PeerId
  recipient : Option PeerId
  timestamp : Timestamp
  contentHash : Text
  read : Bool
  deriving DecidableEq

structure SessionSyncRequest where
  deviceId : DeviceId
  knownSessions : List SessionSyncState
  messageRefs : List MessageRef
  timestamp : Timestamp
  deriving DecidableEq

structure SessionSyncResponse where
  deviceId : DeviceId
  sessionUpdates : List SessionSyncState
  missingMessages : List MessageRef
  newMessages : List MessageRef
  timestamp : Timestamp
  deriving DecidableEq

structure MultiDeviceSessionManager where
  localDevice : DeviceInfo
  sessionStates : KeyedMap SessionSyncState.peerId
  messageRefs : KeyedMap MessageRef.messageId
  deviceSyncTimes : Map DeviceId Timestamp

namespace MultiDeviceSessionManager

def new (localDevice : DeviceInfo) : MultiDeviceSessionManager := ⟨localDevice, .empty, .empty, ∅⟩

def updateSession (m : MultiDeviceSessionManager) (session : SessionSyncState) :
    MultiDeviceSessionManager :=
  { m with sessionStates := m.sessionStates.put session }

/-- `min_by_key(|(_, msg)| msg.timestamp)`, the first one where several are oldest. -/
def oldestRef (m : MultiDeviceSessionManager) : Option MessageRef :=
  m.messageRefs.values.argmin fun ref => ref.timestamp.asMillis.toNat

/-- The oldest reference goes when there are as many as allowed. -/
def makeRoom (m : MultiDeviceSessionManager) : MultiDeviceSessionManager :=
  if maxMessageRefs ≤ m.messageRefs.size then
    match m.oldestRef with
    | some oldest => { m with messageRefs := m.messageRefs.remove oldest.messageId }
    | none => m
  else m

def addMessageRef (m : MultiDeviceSessionManager) (messageRef : MessageRef) :
    Call BitchatError MultiDeviceSessionManager Unit :=
  ({ m.makeRoom with messageRefs := m.makeRoom.messageRefs.put messageRef }, .ok ())

def createSyncRequest (m : MultiDeviceSessionManager) (now : Timestamp) : SessionSyncRequest :=
  ⟨m.localDevice.deviceId, m.sessionStates.values, m.messageRefs.values, now⟩

/-- The local state of a session of the request, if it is the newer one. -/
def newerSession (m : MultiDeviceSessionManager) (remote : SessionSyncState) :
    Option SessionSyncState :=
  (m.sessionStates.get remote.peerId).filter fun own =>
    remote.lastSync.asMillis < own.lastSync.asMillis

def processSyncRequest (m : MultiDeviceSessionManager) (request : SessionSyncRequest)
    (now : Timestamp) : Call BitchatError MultiDeviceSessionManager SessionSyncResponse :=
  ({ m with deviceSyncTimes := m.deviceSyncTimes.insert request.deviceId now },
    .ok {
      deviceId := m.localDevice.deviceId
      sessionUpdates := request.knownSessions.filterMap m.newerSession
      missingMessages := request.messageRefs.filter fun remote =>
        (m.messageRefs.get remote.messageId).isNone
      newMessages := m.messageRefs.values.filter fun own =>
        !request.messageRefs.any fun msg => msg.messageId = own.messageId
      timestamp := now })

/-- The updates are written one after the other, then the new references are added, which
never fails. -/
def processSyncResponse (m : MultiDeviceSessionManager) (response : SessionSyncResponse)
    (now : Timestamp) : Call BitchatError MultiDeviceSessionManager Unit :=
  let updated := response.sessionUpdates.foldl updateSession m
  let added := run addMessageRef updated response.newMessages
  ({ added with deviceSyncTimes := added.deviceSyncTimes.insert response.deviceId now }, .ok ())

end MultiDeviceSessionManager

end Bitchat
