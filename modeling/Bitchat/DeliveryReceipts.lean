import Bitchat.DeliveryOutcomes
import Bitchat.EnhancedDelivery

/-!
# What a status says about a delivery

Acknowledgments and receipts come from the network in any order and more than
once. The status only advances as long as no acknowledgment comes after a receipt,
and it names the recipient as long as what is received does.
-/
namespace Bitchat
open Rust

namespace EnhancedDeliveryStatus

/-- The order Sending, Sent, Delivered, Read. No call stores a failure. -/
def rank : EnhancedDeliveryStatus → ℕ
  | .sending => 0
  | .sent => 1
  | .delivered _ _ _ => 2
  | .read _ _ _ => 3
  | .failed _ => 0

/-- The peer that a delivered or read status names. -/
def peer : EnhancedDeliveryStatus → Option PeerId
  | .delivered recipient _ _ => some recipient
  | .read reader _ _ => some reader
  | _ => none

theorem rank_le_delivered_iff (status : EnhancedDeliveryStatus) :
    status.rank ≤ 2 ↔ status.isRead = false := by
  cases status <;> simp [rank, isRead]

theorem rank_le_read (status : EnhancedDeliveryStatus) : status.rank ≤ 3 := by
  cases status <;> simp [rank]

end EnhancedDeliveryStatus

namespace EnhancedDeliveryTracker

/-- Each message keeps a status, and the status never goes back. -/
def Advances (d d' : EnhancedDeliveryTracker) : Prop :=
  ∀ uuid status, d.getEnhancedStatus uuid = some status →
    ∃ status', d'.getEnhancedStatus uuid = some status' ∧ status.rank ≤ status'.rank

/-- The statuses advance between any two points of the run. -/
def AdvancesThroughout (d : EnhancedDeliveryTracker) (calls : List (EnhancedCall × Timestamp)) :
    Prop :=
  ∀ before later rest, calls = before ++ later ++ rest →
    (run step d before).Advances (run step d (before ++ later))

/-- No acknowledgment meets a message that was read. -/
def SparesRead (d : EnhancedDeliveryTracker) : EnhancedCall → Prop
  | .processDeliveryAck ack order => ∀ uuid m status,
      d.findUuid ack.messageId order = some uuid → d.deliveryTracker.getTracked uuid = some m →
        d.getEnhancedStatus uuid = some status → status.isRead = false
  | _ => True

theorem Advances.refl (d : EnhancedDeliveryTracker) : d.Advances d :=
  fun _ status h => ⟨status, h, le_rfl⟩

theorem Advances.trans {d d' d'' : EnhancedDeliveryTracker} (h : d.Advances d')
    (h' : d'.Advances d'') : d.Advances d'' := by
  intro uuid status hstatus
  obtain ⟨status', hstatus', hle⟩ := h uuid status hstatus
  obtain ⟨status'', hstatus'', hle'⟩ := h' uuid status' hstatus'
  exact ⟨status'', hstatus'', hle.trans hle'⟩

/-- Setting one status is an advance exactly if the old one is not later. -/
theorem advances_iff_of_set {d d' : EnhancedDeliveryTracker} {uuid : Uuid}
    {status : EnhancedDeliveryStatus}
    (hset : ∀ q, d'.getEnhancedStatus q = if q = uuid then some status else d.getEnhancedStatus q) :
    d.Advances d' ↔ ∀ old, d.getEnhancedStatus uuid = some old → old.rank ≤ status.rank := by
  constructor
  · intro h old hold
    obtain ⟨new, hnew, hle⟩ := h uuid old hold
    rw [hset, if_pos rfl] at hnew
    rwa [Option.some.inj hnew]
  · intro h q old hold
    by_cases hq : q = uuid
    · exact ⟨status, by rw [hset, if_pos hq], h old (hq ▸ hold)⟩
    · exact ⟨old, by rw [hset, if_neg hq, hold], le_rfl⟩

theorem advances_step_iff (d : EnhancedDeliveryTracker) {call : EnhancedCall × Timestamp}
    (hcall : call.1.received = true) : d.Advances (d.step call).1 ↔ d.SparesRead call.1 := by
  obtain ⟨call, now⟩ := call
  cases call with
  | processDeliveryAck ack order =>
    rcases d.deliveryAck_cases ack order now with ⟨uuid, m, hfind, hm⟩ | ⟨untracked, unchanged⟩
    · refine (advances_iff_of_set (getEnhancedStatus_processDeliveryAck now hfind hm)).trans ?_
      constructor
      · intro h uuid' m' old hfind' hm' hold
        obtain rfl := Option.some.inj (hfind.symm.trans hfind')
        exact old.rank_le_delivered_iff.mp (h old hold)
      · intro h old hold
        exact old.rank_le_delivered_iff.mpr (h uuid m old hfind hm hold)
    · rw [unchanged]
      exact iff_of_true (.refl d) fun uuid m _ hfind hm => absurd hm (untracked uuid m hfind)
  | processReadReceipt receipt order =>
    refine iff_of_true ?_ trivial
    cases hfind : d.findUuid receipt.messageId order with
    | none =>
      rw [step_readReceipt_of_unknown now hfind]
      exact .refl d
    | some uuid =>
      apply (advances_iff_of_set (getEnhancedStatus_processReadReceipt hfind)).mpr
      exact fun old _ => old.rank_le_read
  | _ => cases hcall

/-- Under any acknowledgments and receipts the statuses only advance exactly if no
acknowledgment meets a message that was read. -/
theorem statuses_advance_iff_sparesRead (d : EnhancedDeliveryTracker)
    {calls : List (EnhancedCall × Timestamp)} (hcalls : ∀ call ∈ calls, call.1.received = true) :
    d.AdvancesThroughout calls ↔ Along step (fun d call => d.SparesRead call.1) d calls := by
  rw [AdvancesThroughout, related_iff_along Advances.refl fun _ _ _ => Advances.trans]
  apply along_iff (I := fun _ => True) (fun _ _ _ _ _ => trivial) ?_ trivial
    (along_of_forall hcalls)
  exact fun d call _ received => d.advances_step_iff received

def someMessageId : MessageId := ⟨List.Vector.replicate 32 4⟩

/-- The peer that sent the message, and that acknowledgments are sent to. -/
def senderPeer : PeerId := ⟨List.Vector.replicate 8 3⟩

def someAck : DeliveryAck := ⟨someMessageId, senderPeer, ⟨2000⟩, none⟩

def someReceipt : ReadReceipt :=
  ⟨someMessageId, DeliveryTracker.recipientPeer, senderPeer, ⟨2000⟩, none⟩

def trackCall : EnhancedCall × Timestamp :=
  (.trackMessageWithId DeliveryTracker.someUuid someMessageId DeliveryTracker.recipientPeer [],
    ⟨1000⟩)

def ackCall : EnhancedCall × Timestamp :=
  (.processDeliveryAck someAck [DeliveryTracker.someUuid], ⟨3000⟩)

def receiptCall : EnhancedCall × Timestamp :=
  (.processReadReceipt someReceipt [DeliveryTracker.someUuid], ⟨3000⟩)

/-- One message is tracked. -/
def trackingOne : EnhancedDeliveryTracker := ((withConfig .default).step trackCall).1

theorem ack_then_receipt_advances : trackingOne.AdvancesThroughout [ackCall, receiptCall] := by
  apply (statuses_advance_iff_sparesRead trackingOne (by decide)).mpr
  refine ⟨?_, trivial, trivial⟩
  intro uuid m status hfind _ hstatus
  cases hfind
  cases hstatus
  rfl

/-- An acknowledgment that comes after the receipt takes the message back from Read. -/
theorem late_ack_takes_back_read :
    ¬ ∀ (d : EnhancedDeliveryTracker) (calls : List (EnhancedCall × Timestamp)),
      (∀ call ∈ calls, call.1.received = true) → d.AdvancesThroughout calls := by
  intro h
  have advances := h trackingOne [receiptCall, ackCall] (by decide) [receiptCall] [ackCall] [] rfl
  obtain ⟨status, hstatus, hle⟩ := advances DeliveryTracker.someUuid _ rfl
  cases hstatus
  exact absurd hle (by decide)

/-- A delivered or read status of a tracked message names its recipient. -/
def NamesRecipient (d : EnhancedDeliveryTracker) : Prop :=
  ∀ uuid m status peer, d.deliveryTracker.getTracked uuid = some m →
    d.getEnhancedStatus uuid = some status → status.peer = some peer → peer = m.recipient

/-- The peer that becomes the status's is the recipient. A direct call that tracks a
message anew leaves the status as it is. -/
def FromRecipient (d : EnhancedDeliveryTracker) : EnhancedCall → Prop
  | .processDeliveryAck ack order => ∀ uuid m, d.findUuid ack.messageId order = some uuid →
      d.deliveryTracker.getTracked uuid = some m → ack.toPeerId = m.recipient
  | .processReadReceipt receipt order => ∀ uuid m,
      d.findUuid receipt.messageId order = some uuid →
        d.deliveryTracker.getTracked uuid = some m → receipt.readerPeerId = m.recipient
  | .deliveryTracker (.trackMessage uuid recipient _) => ∀ status peer,
      d.getEnhancedStatus uuid = some status → status.peer = some peer → peer = recipient
  | _ => True

theorem namesRecipient_withConfig (config : DeliveryConfig) :
    (withConfig config).NamesRecipient := by
  intro uuid m status peer hm
  cases hm

/-- Marks leave the recipient alone, and no deed but tracking brings in a message. -/
theorem recipient_of_performs {deed : Deed} {inner inner' : DeliveryTracker}
    (h : deed.Performs inner inner') (hdeed : deed.tracks = none) {uuid : Uuid}
    {m' : TrackedMessage} (hm' : inner'.getTracked uuid = some m') :
    ∃ m, inner.getTracked uuid = some m ∧ m.recipient = m'.recipient := by
  cases deed with
  | track key => cases hdeed
  | mark key kind =>
    obtain ⟨config, now, h⟩ := h
    rw [h uuid] at hm'
    by_cases hkey : uuid = key
    · rw [if_pos hkey] at hm'
      obtain ⟨m, hm, rfl⟩ := Option.map_eq_some_iff.mp hm'
      exact ⟨m, hkey ▸ hm, by cases kind <;> rfl⟩
    · exact ⟨m', (if_neg hkey).symm.trans hm', rfl⟩
  | other => exact ⟨m', h uuid m' hm', rfl⟩

/-- Nothing goes wrong where no status and no message is new. -/
theorem NamesRecipient.of_fewer {d d' : EnhancedDeliveryTracker} (named : d.NamesRecipient)
    (hstatus : ∀ uuid status, d'.getEnhancedStatus uuid = some status →
      d.getEnhancedStatus uuid = some status)
    (htracked : ∀ uuid m', d'.deliveryTracker.getTracked uuid = some m' →
      ∃ m, d.deliveryTracker.getTracked uuid = some m ∧ m.recipient = m'.recipient) :
    d'.NamesRecipient := by
  intro uuid m' status peer hm' hs hpeer
  obtain ⟨m, hm, heq⟩ := htracked uuid m' hm'
  rw [← heq]
  exact named uuid m status peer hm (hstatus uuid status hs) hpeer

/-- Where one status is set, it is right exactly if it names the recipient. -/
theorem namesRecipient_iff_of_set {d d' : EnhancedDeliveryTracker} {uuid : Uuid}
    {status : EnhancedDeliveryStatus} {peer : PeerId} (named : d.NamesRecipient)
    (hpeer : status.peer = some peer)
    (hset : ∀ q, d'.getEnhancedStatus q = if q = uuid then some status else d.getEnhancedStatus q)
    (htracked : ∀ q, (d'.deliveryTracker.getTracked q).map TrackedMessage.recipient =
      (d.deliveryTracker.getTracked q).map TrackedMessage.recipient) :
    d'.NamesRecipient ↔
      ∀ m, d.deliveryTracker.getTracked uuid = some m → peer = m.recipient := by
  constructor
  · intro named' m hm
    have same := htracked uuid
    rw [hm] at same
    obtain ⟨m', hm', heq⟩ := Option.map_eq_some_iff.mp same
    rw [← heq]
    exact named' uuid m' status peer hm' (by rw [hset, if_pos rfl]) hpeer
  · intro right q m' status' peer' hm' hstatus' hpeer'
    have same := htracked q
    rw [hm'] at same
    obtain ⟨m, hm, heq⟩ := Option.map_eq_some_iff.mp same.symm
    rw [hset] at hstatus'
    rw [← heq]
    by_cases hq : q = uuid
    · rw [if_pos hq] at hstatus'
      obtain rfl := Option.some.inj hstatus'
      obtain rfl := Option.some.inj (hpeer.symm.trans hpeer')
      exact right m (hq ▸ hm)
    · rw [if_neg hq] at hstatus'
      exact named q m status' peer' hm hstatus' hpeer'

theorem recipient_confirmDelivery (inner : DeliveryTracker) (uuid : Uuid) (now : Timestamp)
    (q : Uuid) :
    ((inner.confirmDelivery uuid now).1.getTracked q).map TrackedMessage.recipient =
      (inner.getTracked q).map TrackedMessage.recipient := by
  rw [DeliveryTracker.getTracked_confirmDelivery]
  by_cases hq : q = uuid
  · rw [if_pos hq, hq, Option.map_map]
    rfl
  · rw [if_neg hq]

/-- A message that is tracked anew is being sent, which names nobody. -/
theorem NamesRecipient.trackMessageWithId {d : EnhancedDeliveryTracker} (named : d.NamesRecipient)
    (uuid : Uuid) (messageId : MessageId) (recipient : PeerId) (payload : Bytes) (now : Timestamp) :
    (d.trackMessageWithId uuid messageId recipient payload now).1.NamesRecipient := by
  intro q m' status peer hm' hstatus hpeer
  rw [getEnhancedStatus_trackMessageWithId] at hstatus
  have hm := (d.deliveryTracker.getTracked_trackMessage uuid recipient payload now q).symm.trans hm'
  by_cases hq : q = uuid
  · rw [if_pos hq] at hstatus
    cases hstatus
    cases hpeer
  · rw [if_neg hq] at hstatus hm
    exact named q m' status peer hm hstatus hpeer

/-- A direct call goes wrong only where it tracks a message whose status names another peer. -/
theorem namesRecipient_direct_iff (d : EnhancedDeliveryTracker) (call : CoreTrackerCall)
    (now : Timestamp) (named : d.NamesRecipient) :
    (d.step (.deliveryTracker call, now)).1.NamesRecipient ↔
      d.FromRecipient (.deliveryTracker call) := by
  by_cases htrack : call.deed.tracks = none
  · refine iff_of_true (named.of_fewer (fun _ _ h => h) fun uuid m' hm' =>
      recipient_of_performs (d.deliveryTracker.performs_coreStep (call, now)) htrack hm') ?_
    cases call with
    | trackMessage => cases htrack
    | _ => trivial
  · cases call with
    | trackMessage key recipient payload =>
      have after := d.deliveryTracker.getTracked_trackMessage key recipient payload now
      constructor
      · intro named' status peer hstatus hpeer
        exact named' key _ status peer ((after key).trans (if_pos rfl)) hstatus hpeer
      · intro right q m' status peer hm' hstatus hpeer
        have hm := (after q).symm.trans hm'
        by_cases hq : q = key
        · rw [if_pos hq] at hm
          obtain rfl := Option.some.inj hm
          exact right status peer (hq ▸ hstatus) hpeer
        · rw [if_neg hq] at hm
          exact named q m' status peer hm hstatus hpeer
    | _ => exact absurd rfl htrack

theorem namesRecipient_step_iff (d : EnhancedDeliveryTracker) (call : EnhancedCall × Timestamp)
    (named : d.NamesRecipient) :
    (d.step call).1.NamesRecipient ↔ d.FromRecipient call.1 := by
  obtain ⟨call, now⟩ := call
  cases call with
  | trackMessageWithId uuid messageId recipient payload =>
    exact iff_of_true (named.trackMessageWithId uuid messageId recipient payload now) trivial
  | processDeliveryAck ack order =>
    rcases d.deliveryAck_cases ack order now with ⟨uuid, m, hfind, hm⟩ | ⟨untracked, unchanged⟩
    · have recipients (q : Uuid) : ((d.processDeliveryAck ack order
          now).1.deliveryTracker.getTracked q).map TrackedMessage.recipient =
          (d.deliveryTracker.getTracked q).map TrackedMessage.recipient := by
        rw [deliveryTracker_processDeliveryAck now hfind, recipient_confirmDelivery]
      refine (namesRecipient_iff_of_set named rfl
        (getEnhancedStatus_processDeliveryAck now hfind hm) recipients).trans ?_
      exact forall_found_iff (P := fun uuid m => d.deliveryTracker.getTracked uuid = some m →
        ack.toPeerId = m.recipient) hfind
    · rw [unchanged]
      exact iff_of_true named fun uuid m hfind hm => absurd hm (untracked uuid m hfind)
  | processReadReceipt receipt order =>
    cases hfind : d.findUuid receipt.messageId order with
    | none =>
      rw [step_readReceipt_of_unknown now hfind]
      exact iff_of_true named (by simp [FromRecipient, hfind])
    | some uuid =>
      have recipients (q : Uuid) : ((d.processReadReceipt receipt
          order).1.deliveryTracker.getTracked q).map TrackedMessage.recipient =
          (d.deliveryTracker.getTracked q).map TrackedMessage.recipient := by
        rw [deliveryTracker_processReadReceipt]
      refine (namesRecipient_iff_of_set named rfl
        (getEnhancedStatus_processReadReceipt hfind) recipients).trans ?_
      exact forall_found_iff (P := fun uuid m => d.deliveryTracker.getTracked uuid = some m →
        receipt.readerPeerId = m.recipient) hfind
  | cleanup ackOrder receiptOrder =>
    refine iff_of_true (named.of_fewer ?_ ?_) trivial
    · exact fun uuid status h => (Map.mem_retain_entries.mp h).1
    · intro uuid m' hm'
      have kept := DeliveryTracker.performs_of_filter (d.deliveryTracker.getTracked_cleanup now)
      exact recipient_of_performs kept rfl hm'
  | deliveryTracker call => exact namesRecipient_direct_iff d call now named
  | _ => exact iff_of_true named trivial

/-- In every state of a run the statuses name the recipients exactly if every
acknowledgment and receipt that finds a tracked message names its recipient. -/
theorem names_recipient_iff_fromRecipient (config : DeliveryConfig)
    (calls : List (EnhancedCall × Timestamp)) :
    (∀ before rest, calls = before ++ rest →
      (run step (withConfig config) before).NamesRecipient) ↔
    Along step (fun d call => d.FromRecipient call.1) (withConfig config) calls := by
  rw [throughout_iff_along (namesRecipient_withConfig config)]
  exact along_step_iff (fun d call named => d.namesRecipient_step_iff call named)
    (namesRecipient_withConfig config)

/-- The acknowledgment is sent to the sender, which the status then names. -/
theorem ack_names_sender :
    ¬ ∀ (config : DeliveryConfig) (calls : List (EnhancedCall × Timestamp)) before rest,
      calls = before ++ rest → (run step (withConfig config) before).NamesRecipient := by
  intro h
  have named := h .default [trackCall, ackCall] [trackCall, ackCall] [] rfl
  exact absurd (named DeliveryTracker.someUuid _ _ senderPeer rfl rfl rfl) (by decide)

end EnhancedDeliveryTracker

end Bitchat
