import Bitchat.Delivery
import Bitchat.MessageStore

/-!
# Delivery tracking with acknowledgments and read receipts

The types of `acknowledgments.rs` and the `EnhancedDeliveryTracker` of the core's
`delivery.rs`, which keeps a status and a message id for each UUID beside the
core's tracker. What is received names a message by its id alone.
-/
namespace Bitchat
open Rust

structure DeliveryAck where
  messageId : MessageId
  toPeerId : PeerId
  timestamp : Timestamp
  recipientNickname : Option Text
  deriving DecidableEq

structure ReadReceipt where
  messageId : MessageId
  readerPeerId : PeerId
  toPeerId : PeerId
  timestamp : Timestamp
  readerNickname : Option Text
  deriving DecidableEq

inductive EnhancedDeliveryStatus where
  | sending
  | sent
  | delivered (recipient : PeerId) (timestamp : Timestamp) (recipientNickname : Option Text)
  | read (reader : PeerId) (timestamp : Timestamp) (readerNickname : Option Text)
  | failed (reason : String)
  deriving DecidableEq

namespace EnhancedDeliveryStatus

/-- The recipient is the peer that the acknowledgment is sent to. -/
def fromDeliveryAck (ack : DeliveryAck) : EnhancedDeliveryStatus :=
  .delivered ack.toPeerId ack.timestamp ack.recipientNickname

def fromReadReceipt (receipt : ReadReceipt) : EnhancedDeliveryStatus :=
  .read receipt.readerPeerId receipt.timestamp receipt.readerNickname

def isDelivered : EnhancedDeliveryStatus → Bool
  | .delivered _ _ _ => true
  | .read _ _ _ => true
  | _ => false

def isRead : EnhancedDeliveryStatus → Bool
  | .read _ _ _ => true
  | _ => false

end EnhancedDeliveryStatus

/-- The iteration order of a set of message ids. -/
abbrev ReceiptOrder := Finset MessageId → List MessageId

structure ReceiptManager where
  sentDeliveryAcks : Finset MessageId
  sentReadReceipts : Finset MessageId
  sendReadReceiptsEnabled : Bool
  sendDeliveryAcksEnabled : Bool

namespace ReceiptManager

def new : ReceiptManager := ⟨∅, ∅, true, true⟩

def shouldSendDeliveryAck (r : ReceiptManager) (messageId : MessageId) : Bool :=
  r.sendDeliveryAcksEnabled && !decide (messageId ∈ r.sentDeliveryAcks)

def shouldSendReadReceipt (r : ReceiptManager) (messageId : MessageId) : Bool :=
  r.sendReadReceiptsEnabled && !decide (messageId ∈ r.sentReadReceipts)

def markDeliveryAckSent (r : ReceiptManager) (messageId : MessageId) : ReceiptManager :=
  { r with sentDeliveryAcks := insert messageId r.sentDeliveryAcks }

def markReadReceiptSent (r : ReceiptManager) (messageId : MessageId) : ReceiptManager :=
  { r with sentReadReceipts := insert messageId r.sentReadReceipts }

def configure (r : ReceiptManager) (deliveryAcks readReceipts : Bool) : ReceiptManager :=
  { r with sendDeliveryAcksEnabled := deliveryAcks, sendReadReceiptsEnabled := readReceipts }

/-- Removes as many ids as are over the limit, in the order of the set. -/
def dropExcess (ids : Finset MessageId) (maxEntries : ℕ) (order : ReceiptOrder) :
    Finset MessageId :=
  if maxEntries < ids.card then ids \ ((order ids).take (ids.card - maxEntries)).toFinset
  else ids

/-- Each set has its own order. -/
def cleanupOldReceipts (r : ReceiptManager) (maxEntries : ℕ)
    (ackOrder receiptOrder : ReceiptOrder) : ReceiptManager :=
  { r with
    sentDeliveryAcks := dropExcess r.sentDeliveryAcks maxEntries ackOrder
    sentReadReceipts := dropExcess r.sentReadReceipts maxEntries receiptOrder }

end ReceiptManager

structure EnhancedDeliveryTracker where
  deliveryTracker : DeliveryTracker
  receiptManager : ReceiptManager
  enhancedStatuses : Map Uuid EnhancedDeliveryStatus
  messageIdMapping : Map Uuid MessageId

/-- The messages that a clean-up returns: the completed and the expired ones. -/
abbrev CleanedMessages := Multiset TrackedMessage × Multiset TrackedMessage

namespace EnhancedDeliveryTracker

def withConfig (config : DeliveryConfig) : EnhancedDeliveryTracker :=
  ⟨DeliveryTracker.withConfig config, ReceiptManager.new, ∅, ∅⟩

def getEnhancedStatus (d : EnhancedDeliveryTracker) (messageUuid : Uuid) :
    Option EnhancedDeliveryStatus :=
  d.enhancedStatuses.lookup messageUuid

def getMessageId (d : EnhancedDeliveryTracker) (messageUuid : Uuid) : Option MessageId :=
  d.messageIdMapping.lookup messageUuid

/-- The first UUID with the message id, when the mapping is iterated in `order`. -/
def findUuid (d : EnhancedDeliveryTracker) (messageId : MessageId) (order : List Uuid) :
    Option Uuid :=
  order.find? fun uuid => d.getMessageId uuid = some messageId

def trackMessageWithId (d : EnhancedDeliveryTracker) (messageUuid : Uuid) (messageId : MessageId)
    (recipient : PeerId) (payload : Bytes) (now : Timestamp) :
    EnhancedDeliveryTracker × TrackedMessage :=
  let tracked := d.deliveryTracker.trackMessage messageUuid recipient payload now
  ({ d with
    deliveryTracker := tracked.1
    messageIdMapping := d.messageIdMapping.insert messageUuid messageId
    enhancedStatuses := d.enhancedStatuses.insert messageUuid .sending }, tracked.2)

/-- `enhanced_statuses.insert(uuid, status)`. -/
def setStatus (d : EnhancedDeliveryTracker) (uuid : Uuid) (status : EnhancedDeliveryStatus) :
    EnhancedDeliveryTracker :=
  { d with enhancedStatuses := d.enhancedStatuses.insert uuid status }

/-- The status is set when the core's tracker knows the message. -/
def processDeliveryAck (d : EnhancedDeliveryTracker) (ack : DeliveryAck) (order : List Uuid)
    (now : Timestamp) : EnhancedDeliveryTracker × Bool :=
  match d.findUuid ack.messageId order with
  | none => (d, false)
  | some uuid =>
    let confirmed := d.deliveryTracker.confirmDelivery uuid now
    let d := { d with deliveryTracker := confirmed.1 }
    if confirmed.2 then (d.setStatus uuid (.fromDeliveryAck ack), true) else (d, false)

/-- The core's tracker is not told. -/
def processReadReceipt (d : EnhancedDeliveryTracker) (receipt : ReadReceipt)
    (order : List Uuid) : EnhancedDeliveryTracker × Bool :=
  match d.findUuid receipt.messageId order with
  | none => (d, false)
  | some uuid => (d.setStatus uuid (.fromReadReceipt receipt), true)

/-- The last 1000 receipts are kept. -/
def cleanup (d : EnhancedDeliveryTracker) (ackOrder receiptOrder : ReceiptOrder)
    (now : Timestamp) : EnhancedDeliveryTracker × CleanedMessages :=
  let cleaned := d.deliveryTracker.cleanup now
  let gone := (cleaned.2.1 + cleaned.2.2).map TrackedMessage.messageId
  ({ deliveryTracker := cleaned.1
     receiptManager := d.receiptManager.cleanupOldReceipts 1000 ackOrder receiptOrder
     enhancedStatuses := Map.retain (fun uuid _ => uuid ∉ gone) d.enhancedStatuses
     messageIdMapping := Map.retain (fun uuid _ => uuid ∉ gone) d.messageIdMapping }, cleaned.2)

end EnhancedDeliveryTracker

/-- The calls that may change the tracker. The core's tracker and the receipt
manager can also be called directly. -/
inductive EnhancedCall where
  | trackMessageWithId (messageUuid : Uuid) (messageId : MessageId) (recipient : PeerId)
      (payload : Bytes)
  | processDeliveryAck (ack : DeliveryAck) (order : List Uuid)
  | processReadReceipt (receipt : ReadReceipt) (order : List Uuid)
  | cleanup (ackOrder receiptOrder : ReceiptOrder)
  | markDeliveryAckSent (messageId : MessageId)
  | markReadReceiptSent (messageId : MessageId)
  | configureReceipts (deliveryAcks readReceipts : Bool)
  | cleanupOldReceipts (maxEntries : ℕ) (ackOrder receiptOrder : ReceiptOrder)
  | deliveryTracker (call : CoreTrackerCall)

namespace EnhancedCall

/-- What comes from the network. -/
def received : EnhancedCall → Bool
  | .processDeliveryAck _ _ => true
  | .processReadReceipt _ _ => true
  | _ => false

/-- A call on the core's tracker behind the back of the enhanced one. -/
def direct : EnhancedCall → Bool
  | .deliveryTracker _ => true
  | _ => false

def tracks : EnhancedCall → Option Uuid
  | .trackMessageWithId messageUuid _ _ _ => some messageUuid
  | _ => none

def tracksId : EnhancedCall → Option MessageId
  | .trackMessageWithId _ messageId _ _ => some messageId
  | _ => none

end EnhancedCall

inductive EnhancedAnswer where
  | done
  | tracked (message : TrackedMessage)
  | processed (success : Bool)
  | cleaned (messages : CleanedMessages)
  | deliveryTracker (answer : TrackerAnswer)

namespace EnhancedDeliveryTracker

/-- A call on the receipt manager. -/
def onReceipts (d : EnhancedDeliveryTracker) (receipts : ReceiptManager) :
    EnhancedDeliveryTracker × EnhancedAnswer :=
  ({ d with receiptManager := receipts }, .done)

def step (d : EnhancedDeliveryTracker) (call : EnhancedCall × Timestamp) :
    EnhancedDeliveryTracker × EnhancedAnswer :=
  match call.1 with
  | .trackMessageWithId messageUuid messageId recipient payload =>
    (d.trackMessageWithId messageUuid messageId recipient payload call.2).map id .tracked
  | .processDeliveryAck ack order => (d.processDeliveryAck ack order call.2).map id .processed
  | .processReadReceipt receipt order => (d.processReadReceipt receipt order).map id .processed
  | .cleanup ackOrder receiptOrder =>
    (d.cleanup ackOrder receiptOrder call.2).map id .cleaned
  | .markDeliveryAckSent messageId => d.onReceipts (d.receiptManager.markDeliveryAckSent messageId)
  | .markReadReceiptSent messageId => d.onReceipts (d.receiptManager.markReadReceiptSent messageId)
  | .configureReceipts deliveryAcks readReceipts =>
    d.onReceipts (d.receiptManager.configure deliveryAcks readReceipts)
  | .cleanupOldReceipts maxEntries ackOrder receiptOrder =>
    d.onReceipts (d.receiptManager.cleanupOldReceipts maxEntries ackOrder receiptOrder)
  | .deliveryTracker call' =>
    let answered := d.deliveryTracker.coreStep (call', call.2)
    ({ d with deliveryTracker := answered.1 }, .deliveryTracker answered.2)

/-- The message that an acknowledgment or a receipt is found to be about. -/
def found (d : EnhancedDeliveryTracker) : EnhancedCall → Option Uuid
  | .processDeliveryAck ack order => d.findUuid ack.messageId order
  | .processReadReceipt receipt order => d.findUuid receipt.messageId order
  | _ => none

/-- What is said of every message that is found is said of the one that is. -/
theorem forall_found_iff {α : Type} {found : Option Uuid} {uuid : Uuid} {P : Uuid → α → Prop}
    (hfound : found = some uuid) :
    (∀ a, P uuid a) ↔ ∀ uuid' a, found = some uuid' → P uuid' a := by
  constructor
  · intro h uuid' a hfound'
    obtain rfl := Option.some.inj (hfound.symm.trans hfound')
    exact h a
  · exact fun h a => h uuid a hfound

theorem getMessageId_of_findUuid {d : EnhancedDeliveryTracker} {messageId : MessageId}
    {order : List Uuid} {uuid : Uuid} (h : d.findUuid messageId order = some uuid) :
    d.getMessageId uuid = some messageId := by
  simpa using List.find?_some h

variable (d : EnhancedDeliveryTracker)

theorem getEnhancedStatus_setStatus (uuid : Uuid) (status : EnhancedDeliveryStatus) (q : Uuid) :
    (d.setStatus uuid status).getEnhancedStatus q =
      if q = uuid then some status else d.getEnhancedStatus q :=
  Map.lookup_insert_if q uuid status d.enhancedStatuses

theorem getEnhancedStatus_trackMessageWithId (uuid : Uuid) (messageId : MessageId)
    (recipient : PeerId) (payload : Bytes) (now : Timestamp) (q : Uuid) :
    (d.trackMessageWithId uuid messageId recipient payload now).1.getEnhancedStatus q =
      if q = uuid then some .sending else d.getEnhancedStatus q :=
  Map.lookup_insert_if q uuid EnhancedDeliveryStatus.sending d.enhancedStatuses

theorem getMessageId_trackMessageWithId (uuid : Uuid) (messageId : MessageId)
    (recipient : PeerId) (payload : Bytes) (now : Timestamp) (q : Uuid) :
    (d.trackMessageWithId uuid messageId recipient payload now).1.getMessageId q =
      if q = uuid then some messageId else d.getMessageId q :=
  Map.lookup_insert_if q uuid messageId d.messageIdMapping

theorem messageIdMapping_processDeliveryAck (ack : DeliveryAck) (order : List Uuid)
    (now : Timestamp) :
    (d.processDeliveryAck ack order now).1.messageIdMapping = d.messageIdMapping := by
  unfold processDeliveryAck
  split
  · rfl
  · dsimp only
    split <;> rfl

theorem messageIdMapping_processReadReceipt (receipt : ReadReceipt) (order : List Uuid) :
    (d.processReadReceipt receipt order).1.messageIdMapping = d.messageIdMapping := by
  unfold processReadReceipt
  split <;> rfl

theorem deliveryTracker_processReadReceipt (receipt : ReadReceipt) (order : List Uuid) :
    (d.processReadReceipt receipt order).1.deliveryTracker = d.deliveryTracker := by
  unfold processReadReceipt
  split <;> rfl

variable {d} {order : List Uuid} {uuid : Uuid}

/-- An acknowledgment of a message that the core does not track changes nothing. -/
theorem step_deliveryAck_of_untracked {ack : DeliveryAck} (now : Timestamp)
    (h : ∀ uuid, d.findUuid ack.messageId order = some uuid →
      d.deliveryTracker.getTracked uuid = none) :
    (d.step (.processDeliveryAck ack order, now)).1 = d := by
  change (d.processDeliveryAck ack order now).1 = d
  unfold processDeliveryAck
  cases hfind : d.findUuid ack.messageId order with
  | none => rfl
  | some uuid =>
    simp [DeliveryTracker.confirmDelivery, DeliveryTracker.markMessage, h uuid hfind]

theorem processDeliveryAck_of_tracked {ack : DeliveryAck} {m : TrackedMessage} (now : Timestamp)
    (hfind : d.findUuid ack.messageId order = some uuid)
    (hm : d.deliveryTracker.getTracked uuid = some m) :
    d.processDeliveryAck ack order now =
      (setStatus { d with deliveryTracker := (d.deliveryTracker.confirmDelivery uuid now).1 } uuid
        (.fromDeliveryAck ack), true) := by
  have success : (d.deliveryTracker.confirmDelivery uuid now).2 = true := by
    simp [DeliveryTracker.confirmDelivery, DeliveryTracker.markMessage, hm]
  simp only [processDeliveryAck, hfind, success, if_pos]

/-- A receipt that finds no message changes nothing. -/
theorem step_readReceipt_of_unknown {receipt : ReadReceipt} (now : Timestamp)
    (hfind : d.findUuid receipt.messageId order = none) :
    (d.step (.processReadReceipt receipt order, now)).1 = d := by
  change (d.processReadReceipt receipt order).1 = d
  simp only [processReadReceipt, hfind]

theorem processReadReceipt_of_found {receipt : ReadReceipt}
    (hfind : d.findUuid receipt.messageId order = some uuid) :
    d.processReadReceipt receipt order = (d.setStatus uuid (.fromReadReceipt receipt), true) := by
  simp only [processReadReceipt, hfind]

/-- An acknowledgment finds a message that the core tracks, or else changes nothing. -/
theorem deliveryAck_cases (d : EnhancedDeliveryTracker) (ack : DeliveryAck)
    (order : List Uuid) (now : Timestamp) :
    (∃ uuid m, d.findUuid ack.messageId order = some uuid ∧
      d.deliveryTracker.getTracked uuid = some m) ∨
    (∀ uuid m, d.findUuid ack.messageId order = some uuid →
      d.deliveryTracker.getTracked uuid ≠ some m) ∧
      (d.step (.processDeliveryAck ack order, now)).1 = d := by
  by_cases h : ∃ uuid m, d.findUuid ack.messageId order = some uuid ∧
      d.deliveryTracker.getTracked uuid = some m
  · exact .inl h
  · have none_found : ∀ uuid m, d.findUuid ack.messageId order = some uuid →
        d.deliveryTracker.getTracked uuid ≠ some m :=
      fun uuid m hfind hm => h ⟨uuid, m, hfind, hm⟩
    refine .inr ⟨none_found, step_deliveryAck_of_untracked now ?_⟩
    exact fun uuid hfind =>
      Option.eq_none_iff_forall_ne_some.mpr fun m => none_found uuid m hfind

theorem getEnhancedStatus_processDeliveryAck {ack : DeliveryAck} {m : TrackedMessage}
    (now : Timestamp) (hfind : d.findUuid ack.messageId order = some uuid)
    (hm : d.deliveryTracker.getTracked uuid = some m) (q : Uuid) :
    (d.processDeliveryAck ack order now).1.getEnhancedStatus q =
      if q = uuid then some (.fromDeliveryAck ack) else d.getEnhancedStatus q := by
  rw [processDeliveryAck_of_tracked now hfind hm]
  exact getEnhancedStatus_setStatus _ uuid _ q

theorem getEnhancedStatus_processReadReceipt {receipt : ReadReceipt}
    (hfind : d.findUuid receipt.messageId order = some uuid) (q : Uuid) :
    (d.processReadReceipt receipt order).1.getEnhancedStatus q =
      if q = uuid then some (.fromReadReceipt receipt) else d.getEnhancedStatus q := by
  rw [processReadReceipt_of_found hfind]
  exact getEnhancedStatus_setStatus d uuid _ q

theorem deliveryTracker_processDeliveryAck {d : EnhancedDeliveryTracker} {ack : DeliveryAck}
    {order : List Uuid} {uuid : Uuid} (now : Timestamp)
    (hfind : d.findUuid ack.messageId order = some uuid) :
    (d.processDeliveryAck ack order now).1.deliveryTracker =
      (d.deliveryTracker.confirmDelivery uuid now).1 := by
  simp only [processDeliveryAck, hfind]
  split <;> rfl

theorem getTracked_processDeliveryAck {d : EnhancedDeliveryTracker} {ack : DeliveryAck}
    {order : List Uuid} {uuid : Uuid} {m : TrackedMessage} (now : Timestamp)
    (hfind : d.findUuid ack.messageId order = some uuid)
    (hm : d.deliveryTracker.getTracked uuid = some m) (q : Uuid) :
    (d.processDeliveryAck ack order now).1.deliveryTracker.getTracked q =
      if q = uuid then some (m.markConfirmed now) else d.deliveryTracker.getTracked q := by
  rw [deliveryTracker_processDeliveryAck now hfind, DeliveryTracker.getTracked_confirmDelivery,
    hm, Option.map_some]

end EnhancedDeliveryTracker

end Bitchat
