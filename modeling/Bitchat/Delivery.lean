import Bitchat.Rust.Map
import Bitchat.Rust.Run
import Bitchat.Types

/-!
# Delivery tracking

`TrackedMessage` of the core's `delivery.rs` and the two trackers that are built
on it, the core's own and that of the runtime's `managers/delivery.rs`. The two
have the same fields; calls that read alike in both are defined once. The clock
is read once per call. Durations are nanoseconds.
-/
namespace Bitchat
open Rust

structure Uuid where
  bytes : List.Vector UInt8 16
  deriving DecidableEq

inductive DeliveryStatus where
  | pending
  | sent
  | confirmed
  | failed
  | cancelled
  deriving DecidableEq, Repr

/-- `backoffMillis n` stands for the initial delay times the multiplier to the
power `n`, which is computed in floating point and cast to milliseconds. -/
structure DeliveryConfig where
  maxRetries : ℕ
  backoffMillis : ℕ → ℕ
  maxRetryDelay : ℕ
  confirmationTimeout : ℕ

/-- `Duration::from_millis(n)`. -/
def fromMillis (n : ℕ) : ℕ := n * 10 ^ 6

/-- The cast to 64 bits saturates. -/
def DeliveryConfig.default : DeliveryConfig where
  maxRetries := 5
  backoffMillis n := min (500 * 2 ^ n) (2 ^ 64 - 1)
  maxRetryDelay := fromMillis 30000
  confirmationTimeout := fromMillis 60000

/-- The time from `earlier` to `now`, saturating. -/
def elapsedSince (now earlier : Timestamp) : ℕ :=
  fromMillis (now.asMillis.toNat - earlier.asMillis.toNat)

structure DeliveryAttempt where
  attemptNumber : ℕ
  timestamp : Timestamp
  nextRetryDelay : ℕ
  deriving DecidableEq

structure TrackedMessage where
  messageId : Uuid
  recipient : PeerId
  status : DeliveryStatus
  payload : Bytes
  attempts : List DeliveryAttempt
  createdAt : Timestamp
  confirmedAt : Option Timestamp
  maxRetries : ℕ
  deriving DecidableEq

namespace TrackedMessage

def new (messageId : Uuid) (recipient : PeerId) (payload : Bytes) (maxRetries : ℕ)
    (now : Timestamp) : TrackedMessage :=
  ⟨messageId, recipient, .pending, payload, [], now, none, maxRetries⟩

/-- The length is cast to 32 bits. -/
def attemptCount (m : TrackedMessage) : ℕ := m.attempts.length % 2 ^ 32

def canRetry (m : TrackedMessage) : Bool :=
  m.attemptCount < m.maxRetries && (m.status == .pending || m.status == .sent)

/-- `matches!(status, Confirmed | Failed | Cancelled)`. -/
def isFinished (m : TrackedMessage) : Bool :=
  m.status == .confirmed || m.status == .failed || m.status == .cancelled

def markSent (m : TrackedMessage) (nextRetryDelay : ℕ) (now : Timestamp) : TrackedMessage :=
  { m with
    attempts := m.attempts ++ [⟨m.attemptCount + 1, now, nextRetryDelay⟩]
    status := .sent }

def markConfirmed (m : TrackedMessage) (now : Timestamp) : TrackedMessage :=
  { m with status := .confirmed, confirmedAt := some now }

def markFailed (m : TrackedMessage) : TrackedMessage := { m with status := .failed }

def markCancelled (m : TrackedMessage) : TrackedMessage := { m with status := .cancelled }

def nextRetryDelay (m : TrackedMessage) (config : DeliveryConfig) : ℕ :=
  let delay := fromMillis (config.backoffMillis m.attemptCount)
  if config.maxRetryDelay < delay then config.maxRetryDelay else delay

def isTimedOut (m : TrackedMessage) (config : DeliveryConfig) (now : Timestamp) : Bool :=
  config.confirmationTimeout < elapsedSince now m.createdAt

def isReadyForRetry (m : TrackedMessage) (now : Timestamp) : Bool :=
  match m.attempts.getLast? with
  | none => false
  | some lastAttempt =>
    m.canRetry && lastAttempt.nextRetryDelay ≤ elapsedSince now lastAttempt.timestamp

end TrackedMessage

/-- The four ways to write the status of a message. -/
inductive Mark where
  | sent
  | confirmed
  | failed
  | cancelled
  deriving DecidableEq

def Mark.apply (mark : Mark) (config : DeliveryConfig) (now : Timestamp) (m : TrackedMessage) :
    TrackedMessage :=
  match mark with
  | .sent => m.markSent (m.nextRetryDelay config) now
  | .confirmed => m.markConfirmed now
  | .failed => m.markFailed
  | .cancelled => m.markCancelled

/-- What a clean-up does with a message. -/
inductive Disposal where
  | completed
  | expired
  | exhausted
  | kept
  deriving DecidableEq

/-- The match of the core's `cleanup`. -/
def TrackedMessage.disposal (m : TrackedMessage) (config : DeliveryConfig) (now : Timestamp) :
    Disposal :=
  match m.status with
  | .confirmed => .completed
  | .failed => .completed
  | .cancelled => .completed
  | _ =>
    if m.isTimedOut config now then .expired
    else if m.canRetry then .kept
    else .exhausted

/-- The counters wrap. -/
structure DeliveryStats where
  total : UInt32
  pending : UInt32
  sent : UInt32
  confirmed : UInt32
  failed : UInt32
  cancelled : UInt32
  totalAttempts : UInt32
  deriving DecidableEq

/-- The iteration order of a table of tracked messages. -/
abbrev TrackedOrder := Map Uuid TrackedMessage → List (Uuid × TrackedMessage)

structure DeliveryTracker where
  config : DeliveryConfig
  trackedMessages : Map Uuid TrackedMessage

namespace DeliveryTracker

def withConfig (config : DeliveryConfig) : DeliveryTracker := ⟨config, ∅⟩

def getTracked (d : DeliveryTracker) (messageId : Uuid) : Option TrackedMessage :=
  d.trackedMessages.lookup messageId

def trackMessage (d : DeliveryTracker) (messageId : Uuid) (recipient : PeerId) (payload : Bytes)
    (now : Timestamp) : DeliveryTracker × TrackedMessage :=
  let tracked := TrackedMessage.new messageId recipient payload d.config.maxRetries now
  ({ d with trackedMessages := d.trackedMessages.insert messageId tracked }, tracked)

/-- `if let Some(tracked) = tracked_messages.get_mut(message_id)`. -/
def markMessage (d : DeliveryTracker) (mark : Mark) (messageId : Uuid) (now : Timestamp) :
    DeliveryTracker × Bool :=
  match d.getTracked messageId with
  | some tracked =>
    let marked := mark.apply d.config now tracked
    ({ d with trackedMessages := d.trackedMessages.insert messageId marked }, true)
  | none => (d, false)

def markSent (d : DeliveryTracker) (messageId : Uuid) (now : Timestamp) : DeliveryTracker × Bool :=
  d.markMessage .sent messageId now

def confirmDelivery (d : DeliveryTracker) (messageId : Uuid) (now : Timestamp) :
    DeliveryTracker × Bool :=
  d.markMessage .confirmed messageId now

def markFailed (d : DeliveryTracker) (messageId : Uuid) (now : Timestamp) :
    DeliveryTracker × Bool :=
  d.markMessage .failed messageId now

/-- The runtime's name for `confirm_delivery`. -/
def markConfirmed (d : DeliveryTracker) (messageId : Uuid) (now : Timestamp) :
    DeliveryTracker × Bool :=
  d.markMessage .confirmed messageId now

/-- In the runtime a cancelled message stays in the table. -/
def markCancelled (d : DeliveryTracker) (messageId : Uuid) (now : Timestamp) :
    DeliveryTracker × Bool :=
  d.markMessage .cancelled messageId now

def removeMessage (d : DeliveryTracker) (messageId : Uuid) :
    DeliveryTracker × Option TrackedMessage :=
  ({ d with trackedMessages := d.trackedMessages.erase messageId }, d.getTracked messageId)

/-- In the core a cancelled message is taken out and returned. -/
def cancelTracking (d : DeliveryTracker) (messageId : Uuid) :
    DeliveryTracker × Option TrackedMessage :=
  let removed := d.removeMessage messageId
  (removed.1, removed.2.map TrackedMessage.markCancelled)

def getReadyForRetry (d : DeliveryTracker) (now : Timestamp) : Multiset TrackedMessage :=
  d.trackedMessages.values.filter fun m => m.isReadyForRetry now

/-- The runtime's answer does not depend on the time. -/
def getRetryReadyMessages (d : DeliveryTracker) : Multiset TrackedMessage :=
  d.trackedMessages.values.filter fun m => m.canRetry

def getTimedOut (d : DeliveryTracker) (now : Timestamp) : Multiset TrackedMessage :=
  d.trackedMessages.values.filter fun m => m.isTimedOut d.config now

def getMessagesForPeer (d : DeliveryTracker) (peerId : PeerId) : Multiset TrackedMessage :=
  d.trackedMessages.values.filter fun m => m.recipient = peerId

/-- The completed and the expired messages. An exhausted one is marked failed
and counts as completed. -/
def cleanup (d : DeliveryTracker) (now : Timestamp) :
    DeliveryTracker × Multiset TrackedMessage × Multiset TrackedMessage :=
  let disposed (how : Disposal) :=
    d.trackedMessages.values.filter fun m => m.disposal d.config now = how
  ({ d with trackedMessages :=
      Map.retain (fun _ m => m.disposal d.config now = .kept) d.trackedMessages },
    disposed .completed + (disposed .exhausted).map TrackedMessage.markFailed, disposed .expired)

def cleanupByAge (d : DeliveryTracker) (maxAge : ℕ) (now : Timestamp) : DeliveryTracker × ℕ :=
  let young := Map.retain (fun _ m => elapsedSince now m.createdAt ≤ maxAge) d.trackedMessages
  ({ d with trackedMessages := young }, Map.size d.trackedMessages - Map.size young)

/-- Removes the oldest messages beyond the limit. -/
def cleanupByCount (d : DeliveryTracker) (maxCount : ℕ) (order : TrackedOrder) :
    DeliveryTracker × ℕ :=
  if Map.size d.trackedMessages ≤ maxCount then (d, 0)
  else
    let byAge := (order d.trackedMessages).mergeSort fun a b =>
      a.2.createdAt.asMillis ≤ b.2.createdAt.asMillis
    let oldest := (byAge.take (Map.size d.trackedMessages - maxCount)).map Prod.fst
    ({ d with trackedMessages := oldest.foldl (fun m id => m.erase id) d.trackedMessages },
      oldest.length)

/-- The runtime's clean-up. -/
def cleanupCompleted (d : DeliveryTracker) : DeliveryTracker :=
  { d with trackedMessages := Map.retain (fun _ m => !m.isFinished) d.trackedMessages }

def countStatus (d : DeliveryTracker) (status : DeliveryStatus) : UInt32 :=
  .ofNat (d.trackedMessages.values.filter fun m => m.status = status).card

def getStats (d : DeliveryTracker) : DeliveryStats where
  total := .ofNat d.trackedMessages.values.card
  pending := d.countStatus .pending
  sent := d.countStatus .sent
  confirmed := d.countStatus .confirmed
  failed := d.countStatus .failed
  cancelled := d.countStatus .cancelled
  totalAttempts := .ofNat (d.trackedMessages.values.map TrackedMessage.attemptCount).sum

def setConfig (d : DeliveryTracker) (config : DeliveryConfig) : DeliveryTracker :=
  { d with config := config }

end DeliveryTracker

/-- What a call on a tracker returns. -/
inductive TrackerAnswer where
  | done
  | found (found : Bool)
  | message (message : Option TrackedMessage)
  | messages (messages : Multiset TrackedMessage)
  | cleaned (completed expired : Multiset TrackedMessage)
  | count (count : ℕ)
  | stats (stats : DeliveryStats)
  deriving DecidableEq

/-- The calls on the core's tracker. -/
inductive CoreTrackerCall where
  | trackMessage (messageId : Uuid) (recipient : PeerId) (payload : Bytes)
  | markSent (messageId : Uuid)
  | confirmDelivery (messageId : Uuid)
  | markFailed (messageId : Uuid)
  | cancelTracking (messageId : Uuid)
  | cleanup
  | cleanupByAge (maxAge : ℕ)
  | cleanupByCount (maxCount : ℕ) (order : TrackedOrder)
  | setConfig (config : DeliveryConfig)
  | getTracked (messageId : Uuid)
  | getReadyForRetry
  | getTimedOut
  | getStats

/-- The calls on the runtime's tracker. -/
inductive RuntimeTrackerCall where
  | trackMessage (messageId : Uuid) (recipient : PeerId) (payload : Bytes)
  | markSent (messageId : Uuid)
  | markConfirmed (messageId : Uuid)
  | markFailed (messageId : Uuid)
  | markCancelled (messageId : Uuid)
  | removeMessage (messageId : Uuid)
  | cleanupCompleted
  | getMessage (messageId : Uuid)
  | getRetryReadyMessages
  | getMessagesForPeer (peerId : PeerId)
  | getStatistics
  | trackedCount

namespace DeliveryTracker

def coreStep (d : DeliveryTracker) (call : CoreTrackerCall × Timestamp) :
    DeliveryTracker × TrackerAnswer :=
  match call.1 with
  | .trackMessage messageId recipient payload =>
    (d.trackMessage messageId recipient payload call.2).map id fun m => .message (some m)
  | .markSent messageId => (d.markSent messageId call.2).map id .found
  | .confirmDelivery messageId => (d.confirmDelivery messageId call.2).map id .found
  | .markFailed messageId => (d.markFailed messageId call.2).map id .found
  | .cancelTracking messageId => (d.cancelTracking messageId).map id .message
  | .cleanup => (d.cleanup call.2).map id fun lists => .cleaned lists.1 lists.2
  | .cleanupByAge maxAge => (d.cleanupByAge maxAge call.2).map id .count
  | .cleanupByCount maxCount order => (d.cleanupByCount maxCount order).map id .count
  | .setConfig config => (d.setConfig config, .done)
  | .getTracked messageId => (d, .message (d.getTracked messageId))
  | .getReadyForRetry => (d, .messages (d.getReadyForRetry call.2))
  | .getTimedOut => (d, .messages (d.getTimedOut call.2))
  | .getStats => (d, .stats d.getStats)

def runtimeStep (d : DeliveryTracker) (call : RuntimeTrackerCall × Timestamp) :
    DeliveryTracker × TrackerAnswer :=
  match call.1 with
  | .trackMessage messageId recipient payload =>
    (d.trackMessage messageId recipient payload call.2).map id fun m => .message (some m)
  | .markSent messageId => (d.markSent messageId call.2).map id .found
  | .markConfirmed messageId => (d.markConfirmed messageId call.2).map id .found
  | .markFailed messageId => (d.markFailed messageId call.2).map id .found
  | .markCancelled messageId => (d.markCancelled messageId call.2).map id .found
  | .removeMessage messageId => (d.removeMessage messageId).map id .message
  | .cleanupCompleted => (d.cleanupCompleted, .done)
  | .getMessage messageId => (d, .message (d.getTracked messageId))
  | .getRetryReadyMessages => (d, .messages d.getRetryReadyMessages)
  | .getMessagesForPeer peerId => (d, .messages (d.getMessagesForPeer peerId))
  | .getStatistics => (d, .stats d.getStats)
  | .trackedCount => (d, .count (Map.size d.trackedMessages))

end DeliveryTracker

/-- What a call on a tracker does to the messages, apart from removing some. -/
inductive Deed where
  | track (messageId : Uuid)
  | mark (messageId : Uuid) (kind : Mark)
  | other

def CoreTrackerCall.deed : CoreTrackerCall → Deed
  | .trackMessage messageId _ _ => .track messageId
  | .markSent messageId => .mark messageId .sent
  | .confirmDelivery messageId => .mark messageId .confirmed
  | .markFailed messageId => .mark messageId .failed
  | _ => .other

def RuntimeTrackerCall.deed : RuntimeTrackerCall → Deed
  | .trackMessage messageId _ _ => .track messageId
  | .markSent messageId => .mark messageId .sent
  | .markConfirmed messageId => .mark messageId .confirmed
  | .markFailed messageId => .mark messageId .failed
  | .markCancelled messageId => .mark messageId .cancelled
  | _ => .other

namespace Deed

def tracks : Deed → Option Uuid
  | .track messageId => some messageId
  | _ => none

/-- A finished message is not sent again, and a confirmed one neither fails nor
is cancelled. -/
def Orderly (deed : Deed) (d : DeliveryTracker) : Prop :=
  match deed with
  | .mark messageId .sent => ∀ m, d.getTracked messageId = some m → m.isFinished = false
  | .mark messageId .failed => ∀ m, d.getTracked messageId = some m → m.status ≠ .confirmed
  | .mark messageId .cancelled => ∀ m, d.getTracked messageId = some m → m.status ≠ .confirmed
  | _ => True

/-- The second tracker is the first one after the deed. -/
def Performs (deed : Deed) (d d' : DeliveryTracker) : Prop :=
  match deed with
  | .track messageId => ∃ m : TrackedMessage, m.status = .pending ∧ m.confirmedAt = none ∧
      ∀ q, d'.getTracked q = if q = messageId then some m else d.getTracked q
  | .mark messageId kind => ∃ config now, ∀ q, d'.getTracked q =
      if q = messageId then (d.getTracked messageId).map (kind.apply config now)
      else d.getTracked q
  | .other => ∀ q m, d'.getTracked q = some m → d.getTracked q = some m

end Deed

namespace DeliveryTracker

@[simp] theorem getTracked_withConfig (config : DeliveryConfig) (id : Uuid) :
    (withConfig config).getTracked id = none := Finmap.lookup_empty id

theorem getTracked_trackMessage (d : DeliveryTracker) (id : Uuid) (recipient : PeerId)
    (payload : Bytes) (now : Timestamp) (q : Uuid) :
    (d.trackMessage id recipient payload now).1.getTracked q =
      if q = id then some (TrackedMessage.new id recipient payload d.config.maxRetries now)
      else d.getTracked q :=
  Map.lookup_insert_if q id _ d.trackedMessages

theorem getTracked_markMessage (d : DeliveryTracker) (mark : Mark) (id : Uuid) (now : Timestamp)
    (q : Uuid) :
    (d.markMessage mark id now).1.getTracked q =
      if q = id then (d.getTracked id).map (mark.apply d.config now) else d.getTracked q := by
  apply Map.lookup_of_modified
  · intro absent
    rw [markMessage, getTracked, absent]
  · intro tracked known
    rw [markMessage, getTracked, known]

theorem getTracked_confirmDelivery (d : DeliveryTracker) (id : Uuid) (now : Timestamp) (q : Uuid) :
    (d.confirmDelivery id now).1.getTracked q =
      if q = id then (d.getTracked id).map fun m => m.markConfirmed now else d.getTracked q :=
  d.getTracked_markMessage .confirmed id now q

theorem getTracked_removeMessage (d : DeliveryTracker) (id q : Uuid) :
    (d.removeMessage id).1.getTracked q = if q = id then none else d.getTracked q :=
  Map.lookup_erase_if q id d.trackedMessages

theorem getTracked_cleanup (d : DeliveryTracker) (now : Timestamp) (q : Uuid) :
    (d.cleanup now).1.getTracked q =
      (d.getTracked q).filter fun m => m.disposal d.config now = .kept :=
  Map.lookup_retain _ d.trackedMessages q

theorem getTracked_cleanupByAge (d : DeliveryTracker) (maxAge : ℕ) (now : Timestamp) (q : Uuid) :
    (d.cleanupByAge maxAge now).1.getTracked q =
      (d.getTracked q).filter fun m => elapsedSince now m.createdAt ≤ maxAge :=
  Map.lookup_retain _ d.trackedMessages q

theorem getTracked_cleanupCompleted (d : DeliveryTracker) (q : Uuid) :
    d.cleanupCompleted.getTracked q = (d.getTracked q).filter fun m => !m.isFinished :=
  Map.lookup_retain _ d.trackedMessages q

theorem getTracked_of_cleanupByCount {d : DeliveryTracker} {maxCount : ℕ} {order : TrackedOrder}
    {q : Uuid} {m : TrackedMessage}
    (h : (d.cleanupByCount maxCount order).1.getTracked q = some m) : d.getTracked q = some m := by
  unfold cleanupByCount at h
  split_ifs at h
  · exact h
  · simp only [getTracked, Map.lookup_foldl_erase] at h
    split_ifs at h
    exact h

theorem performs_trackMessage (d : DeliveryTracker) (id : Uuid) (recipient : PeerId)
    (payload : Bytes) (now : Timestamp) :
    (Deed.track id).Performs d (d.trackMessage id recipient payload now).1 :=
  ⟨_, rfl, rfl, d.getTracked_trackMessage id recipient payload now⟩

theorem performs_markMessage (d : DeliveryTracker) (mark : Mark) (id : Uuid) (now : Timestamp) :
    (Deed.mark id mark).Performs d (d.markMessage mark id now).1 :=
  ⟨d.config, now, d.getTracked_markMessage mark id now⟩

theorem performs_removeMessage (d : DeliveryTracker) (id : Uuid) :
    Deed.other.Performs d (d.removeMessage id).1 := by
  intro q m h
  rw [getTracked_removeMessage] at h
  split_ifs at h
  exact h

/-- Keeping some of the messages removes the others. -/
theorem performs_of_filter {d d' : DeliveryTracker} {keep : TrackedMessage → Bool}
    (h : ∀ q, d'.getTracked q = (d.getTracked q).filter keep) : Deed.other.Performs d d' := by
  intro q m hm
  rw [h q] at hm
  exact (Option.filter_eq_some_iff.mp hm).1

theorem performs_coreStep (d : DeliveryTracker) (call : CoreTrackerCall × Timestamp) :
    call.1.deed.Performs d (d.coreStep call).1 := by
  obtain ⟨call, now⟩ := call
  cases call with
  | trackMessage id recipient payload => exact d.performs_trackMessage id recipient payload now
  | markSent id => exact d.performs_markMessage .sent id now
  | confirmDelivery id => exact d.performs_markMessage .confirmed id now
  | markFailed id => exact d.performs_markMessage .failed id now
  | cancelTracking id => exact d.performs_removeMessage id
  | cleanup => exact performs_of_filter (d.getTracked_cleanup now)
  | cleanupByAge maxAge => exact performs_of_filter (d.getTracked_cleanupByAge maxAge now)
  | cleanupByCount maxCount order => exact fun q m h => getTracked_of_cleanupByCount h
  | _ => exact fun q m h => h

theorem performs_runtimeStep (d : DeliveryTracker) (call : RuntimeTrackerCall × Timestamp) :
    call.1.deed.Performs d (d.runtimeStep call).1 := by
  obtain ⟨call, now⟩ := call
  cases call with
  | trackMessage id recipient payload => exact d.performs_trackMessage id recipient payload now
  | markSent id => exact d.performs_markMessage .sent id now
  | markConfirmed id => exact d.performs_markMessage .confirmed id now
  | markFailed id => exact d.performs_markMessage .failed id now
  | markCancelled id => exact d.performs_markMessage .cancelled id now
  | removeMessage id => exact d.performs_removeMessage id
  | cleanupCompleted => exact performs_of_filter d.getTracked_cleanupCompleted
  | _ => exact fun q m h => h

end DeliveryTracker

end Bitchat
