import Bitchat.DeliveryReceipts

/-!
# The two layers of delivery tracking

The enhanced tracker keeps a status and a message id for each message of the
core's tracker. The two agree on which messages were delivered as long as receipts
only meet messages that an acknowledgment has confirmed, and then no clean-up
gives up a message that was delivered.
-/
namespace Bitchat
open Rust

namespace DeliveryTracker

/-- The messages are stored under their own ids. -/
def OwnIds (d : DeliveryTracker) : Prop := ∀ uuid m, d.getTracked uuid = some m → m.messageId = uuid

/-- The ids of the messages that a clean-up returns. -/
def gone (d : DeliveryTracker) (now : Timestamp) : Multiset Uuid :=
  ((d.cleanup now).2.1 + (d.cleanup now).2.2).map TrackedMessage.messageId

theorem ownIds_withConfig (config : DeliveryConfig) : (withConfig config).OwnIds := by
  intro uuid m hm
  cases hm

variable {d : DeliveryTracker} {now : Timestamp} {m : TrackedMessage}

theorem mem_cleanup_expired :
    m ∈ (d.cleanup now).2.2 ↔
      ∃ uuid, d.getTracked uuid = some m ∧ m.disposal d.config now = .expired := by
  simp [cleanup, Map.mem_values, getTracked]

theorem mem_cleanup_completed :
    m ∈ (d.cleanup now).2.1 ↔
      (∃ uuid, d.getTracked uuid = some m ∧ m.disposal d.config now = .completed) ∨
      ∃ uuid tried, d.getTracked uuid = some tried ∧
        tried.disposal d.config now = .exhausted ∧ tried.markFailed = m := by
  simp only [cleanup, Multiset.mem_add, Multiset.mem_map, Multiset.mem_filter, Map.mem_values,
    getTracked, exists_and_right, and_assoc]
  rw [exists_comm]
  simp only [exists_and_right]

/-- A clean-up returns what it does not keep. -/
theorem mem_gone_iff (own : d.OwnIds) {uuid : Uuid} :
    uuid ∈ d.gone now ↔ ∃ m, d.getTracked uuid = some m ∧ m.disposal d.config now ≠ .kept := by
  rw [gone, Multiset.mem_map]
  constructor
  · rintro ⟨m, hm, rfl⟩
    rcases Multiset.mem_add.mp hm with hcompleted | hexpired
    · rcases mem_cleanup_completed.mp hcompleted with ⟨key, h, how⟩ | ⟨key, tried, h, how, rfl⟩
      · exact ⟨m, (own key m h) ▸ h, by simp [how]⟩
      · exact ⟨tried, (own key tried h) ▸ h, by simp [how]⟩
    · obtain ⟨key, h, how⟩ := mem_cleanup_expired.mp hexpired
      exact ⟨m, (own key m h) ▸ h, by simp [how]⟩
  · rintro ⟨m, h, hkept⟩
    have hid := own uuid m h
    cases how : m.disposal d.config now with
    | completed =>
      exact ⟨m, Multiset.mem_add.mpr (.inl (mem_cleanup_completed.mpr (.inl ⟨uuid, h, how⟩))), hid⟩
    | expired =>
      exact ⟨m, Multiset.mem_add.mpr (.inr (mem_cleanup_expired.mpr ⟨uuid, h, how⟩)), hid⟩
    | exhausted =>
      exact ⟨m.markFailed, Multiset.mem_add.mpr
        (.inl (mem_cleanup_completed.mpr (.inr ⟨uuid, m, h, how, rfl⟩))), hid⟩
    | kept => exact absurd how hkept

/-- What is dropped with the messages that a clean-up returns is there for the others. -/
theorem isSome_filter_gone (own : d.OwnIds) {α : Type} {entry : Option α} {uuid : Uuid}
    (same : entry.isSome = (d.getTracked uuid).isSome) :
    (entry.filter fun _ => uuid ∉ d.gone now).isSome =
      ((d.cleanup now).1.getTracked uuid).isSome := by
  rw [getTracked_cleanup]
  have hgone : uuid ∈ d.gone now ↔ _ := mem_gone_iff own
  cases hm : d.getTracked uuid with
  | none =>
    rw [hm, Option.isSome_none, Option.isSome_eq_false_iff, Option.isNone_iff_eq_none] at same
    rw [same]
    rfl
  | some m =>
    rw [hm, Option.isSome_some] at same
    obtain ⟨a, rfl⟩ := Option.isSome_iff_exists.mp same
    have kept : uuid ∉ d.gone now ↔ m.disposal d.config now = .kept := by
      simp [hgone, hm]
    by_cases how : m.disposal d.config now = .kept <;> simp [kept, how]

/-- The message is confirmed as long as it is there. -/
def ConfirmedIfTracked (d : DeliveryTracker) (uuid : Uuid) : Prop :=
  ∀ m, d.getTracked uuid = some m → m.status = .confirmed

/-- A clean-up returns a confirmed message neither as expired nor as failed. -/
theorem cleanup_spares_confirmed (own : d.OwnIds) {uuid : Uuid}
    (confirmed : d.ConfirmedIfTracked uuid) :
    (∀ m ∈ (d.cleanup now).2.2, m.messageId ≠ uuid) ∧
      ∀ m ∈ (d.cleanup now).2.1, m.messageId = uuid → m.status ≠ .failed := by
  have completed {key : Uuid} {m : TrackedMessage} (h : d.getTracked key = some m)
      (hid : m.messageId = uuid) :
      m.status = .confirmed ∧ m.disposal d.config now = .completed := by
    have hkey : key = uuid := (own key m h).symm.trans hid
    have status := confirmed m (hkey ▸ h)
    exact ⟨status, by simp [TrackedMessage.disposal, status]⟩
  constructor
  · intro m hm hid
    obtain ⟨key, h, how⟩ := mem_cleanup_expired.mp hm
    rw [(completed h hid).2] at how
    cases how
  · intro m hm hid
    rcases mem_cleanup_completed.mp hm with ⟨key, h, _⟩ | ⟨key, tried, h, how, rfl⟩
    · rw [(completed h hid).1]
      decide
    · rw [(completed h hid).2] at how
      cases how

end DeliveryTracker

namespace EnhancedDeliveryTracker

/-- The two trackers have the same messages and agree on which were delivered. -/
structure Coupled (d : EnhancedDeliveryTracker) : Prop where
  statuses : d.enhancedStatuses.keys = d.deliveryTracker.trackedMessages.keys
  mapping : d.messageIdMapping.keys = d.deliveryTracker.trackedMessages.keys
  delivered : ∀ uuid status m, d.getEnhancedStatus uuid = some status →
    d.deliveryTracker.getTracked uuid = some m → (status.isDelivered = true ↔ m.status = .confirmed)

/-- A receipt only meets messages that an acknowledgment has confirmed. -/
def ReadsConfirmed (d : EnhancedDeliveryTracker) : EnhancedCall → Prop
  | .processReadReceipt receipt order => ∀ uuid m,
      d.findUuid receipt.messageId order = some uuid →
        d.deliveryTracker.getTracked uuid = some m → m.status = .confirmed
  | _ => True

/-- The call processes an acknowledgment or a receipt of the message. -/
def Processes (d : EnhancedDeliveryTracker) (call : EnhancedCall × Timestamp) (uuid : Uuid) :
    Prop :=
  d.found call.1 = some uuid ∧ (d.step call).2 = .processed true

/-- No clean-up returns a message as expired or failed after an acknowledgment or a
receipt of it was processed. -/
def KeepsProcessed (d : EnhancedDeliveryTracker) (calls : List (EnhancedCall × Timestamp)) : Prop :=
  ∀ before call later cleanup rest uuid messages,
    calls = before ++ (call :: (later ++ cleanup :: rest)) →
    (run step d before).Processes call uuid →
    ((run step d (before ++ call :: later)).step cleanup).2 = .cleaned messages →
      (∀ m ∈ messages.2, m.messageId ≠ uuid) ∧
        ∀ m ∈ messages.1, m.messageId = uuid → m.status ≠ .failed

theorem coupled_iff_isSome {d : EnhancedDeliveryTracker} :
    d.Coupled ↔
      (∀ q, (d.getEnhancedStatus q).isSome = (d.deliveryTracker.getTracked q).isSome) ∧
      (∀ q, (d.getMessageId q).isSome = (d.deliveryTracker.getTracked q).isSome) ∧
      ∀ uuid status m, d.getEnhancedStatus uuid = some status →
        d.deliveryTracker.getTracked uuid = some m →
          (status.isDelivered = true ↔ m.status = .confirmed) := by
  constructor
  · intro h
    exact ⟨Map.keys_eq_iff.mp h.statuses, Map.keys_eq_iff.mp h.mapping, h.delivered⟩
  · rintro ⟨statuses, mapping, delivered⟩
    exact ⟨Map.keys_eq_iff.mpr statuses, Map.keys_eq_iff.mpr mapping, delivered⟩

theorem coupled_withConfig (config : DeliveryConfig) : (withConfig config).Coupled where
  statuses := rfl
  mapping := rfl
  delivered := fun _ _ _ h => by cases h

/-- A message that is found is tracked. -/
theorem Coupled.getTracked_of_findUuid {d : EnhancedDeliveryTracker} (coupled : d.Coupled)
    {messageId : MessageId} {order : List Uuid} {uuid : Uuid}
    (hfind : d.findUuid messageId order = some uuid) :
    ∃ m, d.deliveryTracker.getTracked uuid = some m := by
  have mapped := getMessageId_of_findUuid hfind
  have same := (coupled_iff_isSome.mp coupled).2.1 uuid
  rw [mapped] at same
  exact Option.isSome_iff_exists.mp same.symm

theorem isSome_of_same_mapping {d d' : EnhancedDeliveryTracker} {messageId : MessageId}
    {order : List Uuid} {uuid : Uuid} (same : d'.messageIdMapping = d.messageIdMapping)
    (hfind : d.findUuid messageId order = some uuid) (q : Uuid) :
    (d'.getMessageId q).isSome = if q = uuid then true else (d.getMessageId q).isSome := by
  rw [getMessageId, same]
  by_cases hq : q = uuid
  · have mapped := getMessageId_of_findUuid hfind
    rw [if_pos hq, hq]
    exact congrArg Option.isSome mapped
  · rw [if_neg hq]
    rfl

/-- Where one message is set in both trackers, they agree exactly if they do on it. -/
theorem coupled_iff_of_set {d d' : EnhancedDeliveryTracker} {uuid : Uuid}
    {status : EnhancedDeliveryStatus} {m : TrackedMessage} (coupled : d.Coupled)
    (hset : ∀ q, d'.getEnhancedStatus q = if q = uuid then some status else d.getEnhancedStatus q)
    (hmapped : ∀ q, (d'.getMessageId q).isSome =
      if q = uuid then true else (d.getMessageId q).isSome)
    (htracked : ∀ q, d'.deliveryTracker.getTracked q =
      if q = uuid then some m else d.deliveryTracker.getTracked q) :
    d'.Coupled ↔ (status.isDelivered = true ↔ m.status = .confirmed) := by
  obtain ⟨statuses, mapping, delivered⟩ := coupled_iff_isSome.mp coupled
  rw [coupled_iff_isSome]
  constructor
  · rintro ⟨-, -, delivered'⟩
    exact delivered' uuid status m (by rw [hset, if_pos rfl]) (by rw [htracked, if_pos rfl])
  · intro agree
    refine ⟨?_, ?_, ?_⟩
    · intro q
      rw [hset, htracked]
      by_cases hq : q = uuid
      · simp [hq]
      · simp [hq, statuses q]
    · intro q
      rw [hmapped, htracked]
      by_cases hq : q = uuid
      · simp [hq]
      · simp [hq, mapping q]
    · intro q status' m' hstatus hm
      rw [hset] at hstatus
      rw [htracked] at hm
      by_cases hq : q = uuid
      · rw [if_pos hq] at hstatus hm
        rwa [← Option.some.inj hstatus, ← Option.some.inj hm]
      · rw [if_neg hq] at hstatus hm
        exact delivered q status' m' hstatus hm

theorem Coupled.cleanup {d : EnhancedDeliveryTracker} (coupled : d.Coupled)
    (own : d.deliveryTracker.OwnIds) (ackOrder receiptOrder : ReceiptOrder) (now : Timestamp) :
    (d.cleanup ackOrder receiptOrder now).1.Coupled := by
  obtain ⟨statuses, mapping, delivered⟩ := coupled_iff_isSome.mp coupled
  have hstatus (q : Uuid) : (d.cleanup ackOrder receiptOrder now).1.getEnhancedStatus q =
      (d.getEnhancedStatus q).filter fun _ => q ∉ d.deliveryTracker.gone now :=
    Map.lookup_retain _ d.enhancedStatuses q
  have hmapped (q : Uuid) : (d.cleanup ackOrder receiptOrder now).1.getMessageId q =
      (d.getMessageId q).filter fun _ => q ∉ d.deliveryTracker.gone now :=
    Map.lookup_retain _ d.messageIdMapping q
  rw [coupled_iff_isSome]
  refine ⟨?_, ?_, ?_⟩
  · intro q
    rw [hstatus]
    exact DeliveryTracker.isSome_filter_gone own (statuses q)
  · intro q
    rw [hmapped]
    exact DeliveryTracker.isSome_filter_gone own (mapping q)
  · intro q status m hs hm
    rw [hstatus] at hs
    have kept := (d.deliveryTracker.getTracked_cleanup now q).symm.trans hm
    exact delivered q status m (Option.filter_eq_some_iff.mp hs).1
      (Option.filter_eq_some_iff.mp kept).1

/-- A new message is neither delivered nor confirmed. -/
theorem Coupled.trackMessageWithId {d : EnhancedDeliveryTracker} (coupled : d.Coupled)
    (uuid : Uuid) (messageId : MessageId) (recipient : PeerId) (payload : Bytes) (now : Timestamp) :
    (d.trackMessageWithId uuid messageId recipient payload now).1.Coupled := by
  have undelivered : EnhancedDeliveryStatus.sending.isDelivered = false := rfl
  apply (coupled_iff_of_set coupled
    (d.getEnhancedStatus_trackMessageWithId uuid messageId recipient payload now) ?_
    (d.deliveryTracker.getTracked_trackMessage uuid recipient payload now)).mpr
  · rw [undelivered]
    exact iff_of_false Bool.false_ne_true (by simp [TrackedMessage.new])
  · intro q
    rw [getMessageId_trackMessageWithId]
    split <;> rfl

/-- An acknowledgment confirms the message whose status it sets. -/
theorem Coupled.deliveryAck {d : EnhancedDeliveryTracker} (coupled : d.Coupled)
    (ack : DeliveryAck) (order : List Uuid) (now : Timestamp) :
    (d.step (.processDeliveryAck ack order, now)).1.Coupled := by
  rcases d.deliveryAck_cases ack order now with ⟨uuid, m, hfind, hm⟩ | ⟨_, unchanged⟩
  · refine (coupled_iff_of_set coupled (getEnhancedStatus_processDeliveryAck now hfind hm)
      (isSome_of_same_mapping (messageIdMapping_processDeliveryAck d ack order now) hfind)
      (getTracked_processDeliveryAck now hfind hm)).mpr ?_
    exact iff_of_true rfl rfl
  · rwa [unchanged]

/-- A receipt only sets the status, so the message has to be confirmed before. -/
theorem coupled_readReceipt_iff {d : EnhancedDeliveryTracker} (coupled : d.Coupled)
    (receipt : ReadReceipt) (order : List Uuid) (now : Timestamp) :
    (d.step (.processReadReceipt receipt order, now)).1.Coupled ↔
      d.ReadsConfirmed (.processReadReceipt receipt order) := by
  cases hfind : d.findUuid receipt.messageId order with
  | none =>
    rw [step_readReceipt_of_unknown now hfind]
    exact iff_of_true coupled (by simp [ReadsConfirmed, hfind])
  | some uuid =>
    obtain ⟨m, hm⟩ := coupled.getTracked_of_findUuid hfind
    have read : (EnhancedDeliveryStatus.fromReadReceipt receipt).isDelivered = true := rfl
    refine (coupled_iff_of_set (m := m) coupled (getEnhancedStatus_processReadReceipt hfind)
      (isSome_of_same_mapping (messageIdMapping_processReadReceipt d receipt order) hfind)
      ?_).trans ?_
    · intro q
      rw [deliveryTracker_processReadReceipt]
      by_cases hq : q = uuid
      · rw [if_pos hq, hq, hm]
      · rw [if_neg hq]
    · rw [read, eq_self, true_iff]
      constructor
      · intro confirmed uuid' m' hfind' hm'
        obtain rfl := Option.some.inj (hfind.symm.trans hfind')
        obtain rfl := Option.some.inj (hm.symm.trans hm')
        exact confirmed
      · exact fun confirmed => confirmed uuid m hfind hm

/-- The trackers agree after a call exactly if the call is no receipt for a message
that no acknowledgment has confirmed. -/
theorem coupled_step_iff {d : EnhancedDeliveryTracker} {call : EnhancedCall × Timestamp}
    (coupled : d.Coupled) (own : d.deliveryTracker.OwnIds) (hcall : call.1.direct = false) :
    (d.step call).1.Coupled ↔ d.ReadsConfirmed call.1 := by
  obtain ⟨call, now⟩ := call
  cases call with
  | trackMessageWithId uuid messageId recipient payload =>
    exact iff_of_true (coupled.trackMessageWithId uuid messageId recipient payload now) trivial
  | processDeliveryAck ack order => exact iff_of_true (coupled.deliveryAck ack order now) trivial
  | processReadReceipt receipt order => exact coupled_readReceipt_iff coupled receipt order now
  | cleanup ackOrder receiptOrder =>
    exact iff_of_true (coupled.cleanup own ackOrder receiptOrder now) trivial
  | deliveryTracker call => cases hcall
  | _ => exact iff_of_true ⟨coupled.statuses, coupled.mapping, coupled.delivered⟩ trivial

/-- Where a message of the core's tracker comes from: it is new, or it was there
before and stays confirmed if it was. -/
theorem getTracked_of_step {d : EnhancedDeliveryTracker} {call : EnhancedCall × Timestamp}
    (hcall : call.1.direct = false) {q : Uuid} {m' : TrackedMessage}
    (h : (d.step call).1.deliveryTracker.getTracked q = some m') :
    (call.1.tracks = some q ∧ m'.messageId = q) ∨
      ∃ m, d.deliveryTracker.getTracked q = some m ∧ m'.messageId = m.messageId ∧
        (m.status = .confirmed → m'.status = .confirmed) := by
  obtain ⟨call, now⟩ := call
  cases call with
  | trackMessageWithId uuid messageId recipient payload =>
    have after := (DeliveryTracker.getTracked_trackMessage _ uuid recipient payload now
      q).symm.trans h
    by_cases hq : q = uuid
    · rw [if_pos hq] at after
      obtain rfl := Option.some.inj after
      exact .inl ⟨congrArg some hq.symm, hq.symm⟩
    · rw [if_neg hq] at after
      exact .inr ⟨m', after, rfl, fun status => status⟩
  | processDeliveryAck ack order =>
    rcases d.deliveryAck_cases ack order now with ⟨uuid, m, hfind, hm⟩ | ⟨_, unchanged⟩
    · have after := (getTracked_processDeliveryAck now hfind hm q).symm.trans h
      by_cases hq : q = uuid
      · rw [if_pos hq] at after
        obtain rfl := Option.some.inj after
        exact .inr ⟨m, hq ▸ hm, rfl, fun _ => rfl⟩
      · rw [if_neg hq] at after
        exact .inr ⟨m', after, rfl, fun status => status⟩
    · rw [unchanged] at h
      exact .inr ⟨m', h, rfl, fun status => status⟩
  | processReadReceipt receipt order =>
    have after := d.deliveryTracker_processReadReceipt receipt order
    refine .inr ⟨m', ?_, rfl, fun status => status⟩
    rw [← after]
    exact h
  | cleanup ackOrder receiptOrder =>
    have kept := (d.deliveryTracker.getTracked_cleanup now q).symm.trans h
    exact .inr ⟨m', (Option.filter_eq_some_iff.mp kept).1, rfl, fun status => status⟩
  | deliveryTracker call => cases hcall
  | _ => exact .inr ⟨m', h, rfl, fun status => status⟩

theorem ownIds_step {d : EnhancedDeliveryTracker} {call : EnhancedCall × Timestamp}
    (own : d.deliveryTracker.OwnIds) (hcall : call.1.direct = false) :
    (d.step call).1.deliveryTracker.OwnIds := by
  intro uuid m' hm'
  rcases getTracked_of_step hcall hm' with ⟨_, hid⟩ | ⟨m, hm, hid, _⟩
  · exact hid
  · exact hid.trans (own uuid m hm)

theorem confirmedIfTracked_step {d : EnhancedDeliveryTracker} {call : EnhancedCall × Timestamp}
    {uuid : Uuid} (confirmed : d.deliveryTracker.ConfirmedIfTracked uuid)
    (hcall : call.1.direct = false) (hnew : call.1.tracks ≠ some uuid) :
    (d.step call).1.deliveryTracker.ConfirmedIfTracked uuid := by
  intro m' hm'
  rcases getTracked_of_step hcall hm' with ⟨htrack, _⟩ | ⟨m, hm, _, hkeeps⟩
  · exact absurd htrack hnew
  · exact hkeeps (confirmed m hm)

/-- What an acknowledgment or a receipt is processed for is confirmed, if receipts
only meet confirmed messages. -/
theorem confirmedIfTracked_of_processes {d : EnhancedDeliveryTracker}
    {call : EnhancedCall × Timestamp} {uuid : Uuid} (processes : d.Processes call uuid)
    (reads : d.ReadsConfirmed call.1) :
    (d.step call).1.deliveryTracker.ConfirmedIfTracked uuid := by
  obtain ⟨call, now⟩ := call
  obtain ⟨hfind, -⟩ := processes
  intro m' hm'
  cases call with
  | processDeliveryAck ack order =>
    have after := deliveryTracker_processDeliveryAck now hfind
    have confirmed := d.deliveryTracker.getTracked_confirmDelivery uuid now uuid
    rw [← after, if_pos rfl] at confirmed
    obtain ⟨m, _, rfl⟩ := Option.map_eq_some_iff.mp (confirmed.symm.trans hm')
    rfl
  | processReadReceipt receipt order =>
    have after := d.deliveryTracker_processReadReceipt receipt order
    exact reads uuid m' hfind (by rw [← after]; exact hm')
  | _ => cases hfind

/-- The message has an id in the mapping. -/
def Mapped (d : EnhancedDeliveryTracker) (uuid : Uuid) : Prop :=
  ∃ messageId, d.getMessageId uuid = some messageId

theorem mapped_of_found {d : EnhancedDeliveryTracker} {call : EnhancedCall} {uuid : Uuid}
    (hfound : d.found call = some uuid) : d.Mapped uuid := by
  cases call with
  | processDeliveryAck ack order => exact ⟨_, getMessageId_of_findUuid hfound⟩
  | processReadReceipt receipt order => exact ⟨_, getMessageId_of_findUuid hfound⟩
  | _ => cases hfound

/-- Only tracking a message brings it into the mapping. -/
theorem mapped_step (d : EnhancedDeliveryTracker) (call : EnhancedCall × Timestamp) (uuid : Uuid)
    (h : (d.step call).1.Mapped uuid) : d.Mapped uuid ∨ call.1.tracks = some uuid := by
  obtain ⟨call, now⟩ := call
  obtain ⟨messageId, h⟩ := h
  cases call with
  | trackMessageWithId key messageId' recipient payload =>
    have after := (d.getMessageId_trackMessageWithId key messageId' recipient payload now
      uuid).symm.trans h
    by_cases hkey : uuid = key
    · exact .inr (congrArg some hkey.symm)
    · rw [if_neg hkey] at after
      exact .inl ⟨messageId, after⟩
  | processDeliveryAck ack order =>
    have same := d.messageIdMapping_processDeliveryAck ack order now
    exact .inl ⟨messageId, (congrArg (Finmap.lookup uuid) same).symm.trans h⟩
  | processReadReceipt receipt order =>
    have same := d.messageIdMapping_processReadReceipt receipt order
    exact .inl ⟨messageId, (congrArg (Finmap.lookup uuid) same).symm.trans h⟩
  | cleanup ackOrder receiptOrder => exact .inl ⟨messageId, (Map.mem_retain_entries.mp h).1⟩
  | _ => exact .inl ⟨messageId, h⟩

theorem ownIds_run {config : DeliveryConfig} {calls : List (EnhancedCall × Timestamp)}
    (hcalls : ∀ call ∈ calls, call.1.direct = false) :
    (run step (withConfig config) calls).deliveryTracker.OwnIds :=
  run_invariant (I := fun d : EnhancedDeliveryTracker => d.deliveryTracker.OwnIds)
    (fun _ _ => ownIds_step) (DeliveryTracker.ownIds_withConfig config) (along_of_forall hcalls)

/-- The trackers agree throughout a run exactly if its receipts only meet messages
that an acknowledgment has confirmed. -/
theorem coupled_throughout_iff {config : DeliveryConfig} {calls : List (EnhancedCall × Timestamp)}
    (hcalls : ∀ call ∈ calls, call.1.direct = false) :
    (∀ before rest, calls = before ++ rest → (run step (withConfig config) before).Coupled) ↔
      Along step (fun d call => d.ReadsConfirmed call.1) (withConfig config) calls := by
  rw [throughout_iff_along (coupled_withConfig config)]
  apply along_iff (I := fun d => d.Coupled ∧ d.deliveryTracker.OwnIds) ?_ ?_
    ⟨coupled_withConfig config, DeliveryTracker.ownIds_withConfig config⟩ (along_of_forall hcalls)
  · rintro d call ⟨coupled, own⟩ hcall reads
    exact ⟨(coupled_step_iff coupled own hcall).mpr reads, ownIds_step own hcall⟩
  · rintro d call ⟨coupled, own⟩ hcall
    exact coupled_step_iff coupled own hcall

theorem keepsProcessed_of_readsConfirmed {config : DeliveryConfig}
    {calls : List (EnhancedCall × Timestamp)} (hcalls : ∀ call ∈ calls, call.1.direct = false)
    (honce : (calls.filterMap fun call => call.1.tracks).Nodup)
    (reads : Along step (fun d call => d.ReadsConfirmed call.1) (withConfig config) calls) :
    (withConfig config).KeepsProcessed calls := by
  intro before call later cleanup rest uuid messages heq processes hcleaned
  have split : calls = (before ++ call :: later) ++ cleanup :: rest := by simp [heq]
  rw [split, along_append] at reads
  have hown : (run step (withConfig config) (before ++ call :: later)).deliveryTracker.OwnIds :=
    ownIds_run fun c hc => hcalls c (split ▸ List.mem_append_left _ hc)
  -- the message was tracked before, so it is not tracked again
  have used : uuid ∈ before.filterMap fun call => call.1.tracks := by
    rcases holds_run mapped_step (mapped_of_found processes.1) with ⟨messageId, h⟩ | hused
    · cases h
    · exact hused
  have hnew : ∀ call ∈ later, call.1.tracks ≠ some uuid := by
    intro c hc htrack
    have again : uuid ∈ (call :: (later ++ cleanup :: rest)).filterMap fun call =>
        call.1.tracks :=
      List.mem_filterMap.mpr ⟨c, by simp [hc], htrack⟩
    rw [heq, List.filterMap_append] at honce
    exact (List.nodup_append.mp honce).2.2 uuid used uuid again rfl
  -- it is confirmed when the call is over, and stays so
  have first := confirmedIfTracked_of_processes processes (along_append.mp reads.1).2.1
  have last : (run step (withConfig config)
      (before ++ call :: later)).deliveryTracker.ConfirmedIfTracked uuid := by
    rw [run_append, run_cons]
    refine run_invariant
      (I := fun d : EnhancedDeliveryTracker => d.deliveryTracker.ConfirmedIfTracked uuid)
      (P := fun _ (c : EnhancedCall × Timestamp) => c.1.direct = false ∧ c.1.tracks ≠ some uuid)
      (fun d c h hc => confirmedIfTracked_step h hc.1 hc.2) first (along_of_forall ?_)
    exact fun c hc => ⟨hcalls c (by simp [heq, hc]), hnew c hc⟩
  obtain ⟨cleanup, now⟩ := cleanup
  cases cleanup with
  | cleanup ackOrder receiptOrder =>
    obtain rfl := EnhancedAnswer.cleaned.inj hcleaned
    exact DeliveryTracker.cleanup_spares_confirmed hown last
  | _ => cases hcleaned

/-- In a run that tracks each message once the two trackers agree, and no clean-up
returns a processed message as expired or failed, exactly if receipts only meet
messages that an acknowledgment has confirmed. -/
theorem trackers_agree_iff_readsConfirmed (config : DeliveryConfig)
    {calls : List (EnhancedCall × Timestamp)} (hcalls : ∀ call ∈ calls, call.1.direct = false)
    (honce : (calls.filterMap fun call => call.1.tracks).Nodup) :
    (∀ before rest, calls = before ++ rest → (run step (withConfig config) before).Coupled) ∧
      (withConfig config).KeepsProcessed calls ↔
    Along step (fun d call => d.ReadsConfirmed call.1) (withConfig config) calls := by
  rw [coupled_throughout_iff hcalls]
  constructor
  · exact fun h => h.1
  · exact fun reads => ⟨reads, keepsProcessed_of_readsConfirmed hcalls honce reads⟩

/-- A clean-up after the confirmation timeout, with no receipts to order. -/
def lateCleanup : EnhancedCall × Timestamp := (.cleanup (fun _ => []) fun _ => [], ⟨100000⟩)

def acknowledgedRead : List (EnhancedCall × Timestamp) :=
  [trackCall, ackCall, receiptCall, lateCleanup]

theorem acknowledgedRead_agrees :
    (∀ before rest, acknowledgedRead = before ++ rest →
      (run step (withConfig .default) before).Coupled) ∧
    (withConfig .default).KeepsProcessed acknowledgedRead := by
  apply (trackers_agree_iff_readsConfirmed .default (by decide) (by decide)).mpr
  refine ⟨trivial, trivial, ?_, trivial, trivial⟩
  intro uuid m hfind hm
  cases hfind
  cases hm
  rfl

/-- A message that was read, but not acknowledged before. -/
def unacknowledgedRead : List (EnhancedCall × Timestamp) := [trackCall, receiptCall, lateCleanup]

/-- The core's tracker still waits for the message, and gives it up. -/
theorem receipt_leaves_core_pending :
    (∀ call ∈ unacknowledgedRead, call.1.direct = false) ∧
    (unacknowledgedRead.filterMap fun call => call.1.tracks).Nodup ∧
    (unacknowledgedRead.filterMap fun call => call.1.tracksId).Nodup ∧
    ¬ (run step (withConfig .default) (unacknowledgedRead.take 2)).Coupled ∧
    ¬ (withConfig .default).KeepsProcessed unacknowledgedRead := by
  refine ⟨by decide, by decide, by decide, ?_, ?_⟩
  · intro coupled
    have agree := coupled.delivered DeliveryTracker.someUuid _ _ rfl rfl
    exact absurd (agree.mp rfl) (by decide)
  · intro keeps
    have spared := (keeps [trackCall] receiptCall [] lateCleanup [] DeliveryTracker.someUuid _ rfl
      ⟨rfl, rfl⟩ rfl).1
    exact spared (.new DeliveryTracker.someUuid DeliveryTracker.recipientPeer [] 5 ⟨1000⟩)
      (by decide) rfl

end EnhancedDeliveryTracker

end Bitchat
