import Bitchat.Handlers

/-!
# Agreement on message ids

A message that one side builds arrives at the other as a `MessageReceived` event
with all its metadata. The receiver puts the message together anew and compares the
ids. An event without recipient is taken to be for the receiver itself, so the id of
a broadcast does not come out again.
-/
namespace Bitchat
open Rust

namespace ContentAddressedMessage

variable {sha256 : Bytes → Key32}

theorem normalizeTimestamp_of_millis {timestamp : UInt64}
    (h : millisecondThreshold ≤ timestamp.toNat) : normalizeTimestamp timestamp = timestamp :=
  if_neg (Nat.not_lt.mpr h)

/-- With an id the parts must hash to it. -/
theorem fromMetadata_eq_ok {sender : PeerId} {recipient : Option PeerId} {content : Text}
    {sequence timestamp : UInt64} {id : MessageId} {m : ContentAddressedMessage}
    (hmillis : millisecondThreshold ≤ timestamp.toNat) :
    fromMetadata sha256 sender recipient content sequence timestamp (some id) = .ok m ↔
      computeId sha256 sender recipient content timestamp sequence = id ∧
        m = ⟨id, sender, recipient, content, timestamp, sequence⟩ := by
  simp only [fromMetadata, normalizeTimestamp_of_millis hmillis, rejectIf_bind_eq_ok, not_not,
    pure_eq_ok, Except.ok.injEq]
  constructor
  · rintro ⟨hid, rfl⟩
    exact ⟨hid.symm, rfl⟩
  · rintro ⟨hid, rfl⟩
    exact ⟨hid.symm, rfl⟩

end ContentAddressedMessage

namespace MessageStore

variable {s : MessageStore} {m : ContentAddressedMessage} {now : Timestamp}

/-- The store in which the conversation of a new message is measured. -/
def cleanedIfFull (s : MessageStore) (now : Timestamp) : MessageStore :=
  if s.config.maxTotalMessages ≤ s.stats.totalMessages then (s.cleanupOldMessages now).1 else s

/-- The store is not full or has something to clean up, and the conversation is not full. -/
def HasRoom (s : MessageStore) (m : ContentAddressedMessage) (now : Timestamp) : Prop :=
  (s.stats.totalMessages < s.config.maxTotalMessages ∨ (s.expired now).Nonempty) ∧
    ∀ ids, (s.cleanedIfFull now).conversations.lookup m.conversationId = some ids →
      ids.length < s.config.maxMessagesPerConversation

theorem makeRoom_eq_ok : (s.makeRoom now).2 = .ok () ↔
    s.stats.totalMessages < s.config.maxTotalMessages ∨ (s.expired now).Nonempty := by
  unfold makeRoom
  split_ifs with hfull
  · rw [rejectIf_eq_ok]
    have hcard : (s.cleanupOldMessages now).2 = (s.expired now).card := rfl
    by_cases hsome : (s.expired now).Nonempty
    · have hpos := hsome.card_pos
      simp only [hsome, or_true, iff_true]
      omega
    · have hempty := Finset.not_nonempty_iff_eq_empty.mp hsome
      have hsame : (s.cleanupOldMessages now).1 = s := by simp [cleanupOldMessages, hempty]
      rw [hsame, hcard, hempty]
      simp [hfull]
  · simp [Nat.not_le.mp hfull]

theorem makeRoom_state : (s.makeRoom now).1 = s.cleanedIfFull now := by
  unfold makeRoom cleanedIfFull
  split_ifs <;> rfl

theorem cleanedIfFull_config (s : MessageStore) (now : Timestamp) :
    (s.cleanedIfFull now).config = s.config := by
  unfold cleanedIfFull
  split_ifs
  · exact (foldl_removeMessageCompletely (s.expired now).val s).1
  · rfl

theorem checkConversationLimit_eq_ok : s.checkConversationLimit m = .ok () ↔
    ∀ ids, s.conversations.lookup m.conversationId = some ids →
      ids.length < s.config.maxMessagesPerConversation := by
  unfold checkConversationLimit
  cases s.conversations.lookup m.conversationId with
  | none => simp
  | some ids => simp

theorem enforceCapacityLimits_eq_ok :
    (s.enforceCapacityLimits m now).2 = .ok () ↔ s.HasRoom m now := by
  unfold HasRoom
  rw [← makeRoom_eq_ok, ← cleanedIfFull_config s now, ← makeRoom_state,
    ← checkConversationLimit_eq_ok]
  unfold enforceCapacityLimits
  cases hmade : s.makeRoom now with
  | mk made result => cases result <;> simp

/-- After `store_message` an id stands for a message if it did before, or if this
message was taken in now. -/
theorem storeMessage_leaves_iff (now : Timestamp) {sha256 : Bytes → Key32}
    {k : ContentAddressedMessage}
    (hid : m.id = k.id) (hintegrity : m.verifyIntegrity sha256 = true) :
    ((∃ stored, (s.storeMessage sha256 m now).2 = .ok stored) ∧
        (s.storeMessage sha256 m now).1.messages.lookup k.id = some k) ↔
      validateMessageInput s.config m = .ok () ∧ (s.messages.lookup k.id = some k ∨
        k.id ∉ s.messages ∧ m = k ∧ s.HasRoom m now) := by
  unfold storeMessage
  cases hvalid : validateMessageInput s.config m with
  | error e => simp
  | ok u =>
    simp only [hintegrity, Bool.true_eq_false, if_false, true_and, hid]
    split_ifs with hknown
    · simp [hknown]
    · have habsent : s.messages.lookup k.id ≠ some k := by
        rw [Finmap.lookup_eq_none.mpr hknown]
        simp
      rw [← enforceCapacityLimits_eq_ok]
      cases hroom : s.enforceCapacityLimits m now with
      | mk room result =>
        cases result with
        | error e => simp [habsent]
        | ok u => simp [habsent, hknown, insertMessage, hid, Finmap.lookup_insert]

end MessageStore

namespace CoreState

variable {H T : Type} (s : CoreState H T)

/-- Activity of a peer never fails: whoever is not connected is disconnected anew. -/
theorem feedKnown_activity (p : PeerId) (now : Timestamp) :
    (s.feedKnown p .activityDetected now).2 = .ok () ∧
      (s.feedKnown p .activityDetected now).1.peerId = s.peerId := by
  unfold feedKnown
  cases s.connection p with
  | none => exact ⟨rfl, rfl⟩
  | some c => cases c <;> exact ⟨rfl, rfl⟩

end CoreState

namespace CommandHandlers

variable {H T : Type} (sha256 : Bytes → Key32)

/-- The event that carries a message with all its metadata. -/
def carrying (m : ContentAddressedMessage) (transport : ChannelTransportType) : Event :=
  .messageReceived m.sender m.content transport (some m.id) m.recipient (some m.timestamp)
    (some m.sequence)

/-- Handling the message succeeds and leaves it stored as it was built. -/
def Agrees (s : CoreState H T) (m : ContentAddressedMessage) (transport : ChannelTransportType)
    (now : Timestamp) : Prop :=
  (∃ handled, (handleEvent sha256 s (carrying m transport) now).2 = .ok handled) ∧
    (handleEvent sha256 s (carrying m transport) now).1.messageStore.messages.lookup m.id = some m

/-- A message to a peer is stored already, or is new and there is room for it. A
broadcast is stored already, and passes for a message to the receiver. -/
def CanAgree (s : CoreState H T) (m : ContentAddressedMessage) (now : Timestamp) : Prop :=
  match m.recipient with
  | some _ => s.messageStore.messages.lookup m.id = some m ∨
      m.id ∉ s.messageStore.messages ∧ s.messageStore.HasRoom m now
  | none => s.messageStore.messages.lookup m.id = some m ∧
      ContentAddressedMessage.computeId sha256 m.sender (some s.peerId) m.content m.timestamp
        m.sequence = m.id ∧
      MessageStore.validateMessageInput s.messageStore.config
        { m with recipient := some s.peerId } = .ok ()

theorem acceptMessage_leaves_iff (s : CoreState H T)
    (built : BitchatResult ContentAddressedMessage) (now : Timestamp)
    (k : ContentAddressedMessage) :
    ((∃ handled, (acceptMessage sha256 s built now).2 = .ok handled) ∧
        (acceptMessage sha256 s built now).1.messageStore.messages.lookup k.id = some k) ↔
      ∃ m, built = .ok m ∧
        (∃ stored, (s.messageStore.storeMessage sha256 m now).2 = .ok stored) ∧
        (s.messageStore.storeMessage sha256 m now).1.messages.lookup k.id = some k := by
  unfold acceptMessage
  cases built with
  | error e => simp
  | ok m =>
    simp only [Call.andThen_ok, storeIn]
    cases hstored : s.messageStore.storeMessage sha256 m now with
    | mk store result => cases result <;> simp [countReceived, hstored]

/-- The receiver stores the message that has its own id where the recipient is missing. -/
theorem agrees_iff_stores (s : CoreState H T) (m : ContentAddressedMessage)
    (transport : ChannelTransportType) (now : Timestamp)
    (hmillis : millisecondThreshold ≤ m.timestamp.toNat) :
    Agrees sha256 s m transport now ↔
      ContentAddressedMessage.computeId sha256 m.sender (some (m.recipient.getD s.peerId))
          m.content m.timestamp m.sequence = m.id ∧
        MessageStore.validateMessageInput s.messageStore.config
          { m with recipient := some (m.recipient.getD s.peerId) } = .ok () ∧
        (s.messageStore.messages.lookup m.id = some m ∨ m.id ∉ s.messageStore.messages ∧
          m.recipient.isSome = true ∧ s.messageStore.HasRoom m now) := by
  obtain ⟨hfed, hpeer⟩ := s.feedKnown_activity m.sender now
  have hstore := (s.feedKnown_frame m.sender .activityDetected now).1
  have hhandled : handleEvent sha256 s (carrying m transport) now =
      acceptMessage sha256 (s.feedKnown m.sender .activityDetected now).1
        (ContentAddressedMessage.fromMetadata sha256 m.sender
          (some (m.recipient.getD s.peerId)) m.content m.sequence m.timestamp (some m.id)) now := by
    simp only [handleEvent, carrying, handleMessageReceived, messageFrom, resolveSequence,
      Call.andThen_of_ok _ hfed, hpeer, Option.getD_some]
  have hleaves_iff (hid : ContentAddressedMessage.computeId sha256 m.sender
      (some (m.recipient.getD s.peerId)) m.content m.timestamp m.sequence = m.id) :=
    MessageStore.storeMessage_leaves_iff now (s := s.messageStore) (k := m)
      (m := { m with recipient := some (m.recipient.getD s.peerId) }) rfl
      (beq_iff_eq.mpr hid : ContentAddressedMessage.verifyIntegrity sha256 _ = true)
  unfold Agrees
  rw [hhandled, acceptMessage_leaves_iff, hstore]
  simp only [ContentAddressedMessage.fromMetadata_eq_ok hmillis]
  constructor
  · rintro ⟨_, ⟨hid, rfl⟩, hstored⟩
    obtain ⟨hvalid, hleaves⟩ := (hleaves_iff hid).mp hstored
    refine ⟨hid, hvalid, hleaves.imp_right ?_⟩
    rintro ⟨habsent, hsame, hroom⟩
    rw [hsame] at hroom
    have hrecipient := congrArg ContentAddressedMessage.recipient hsame
    exact ⟨habsent, Option.isSome_iff_exists.mpr ⟨_, hrecipient.symm⟩, hroom⟩
  · rintro ⟨hid, hvalid, hleaves⟩
    refine ⟨_, ⟨hid, rfl⟩, (hleaves_iff hid).mpr ⟨hvalid, hleaves.imp_right ?_⟩⟩
    rintro ⟨habsent, hsome, hroom⟩
    obtain ⟨r, hr⟩ := Option.isSome_iff_exists.mp hsome
    have hsame : { m with recipient := some (m.recipient.getD s.peerId) } = m := by
      rw [hr, Option.getD_some, ← hr]
    refine ⟨habsent, hsame, ?_⟩
    rw [hsame]
    exact hroom

/-- A message that passes the checks of the store is handled and stored as it was built
exactly when it is for a peer and the store has it or has room for it, or when it is a
broadcast that the store has and that passes for a message to the receiver. -/
theorem agrees_iff (s : CoreState H T) (sender : PeerId) (recipient : Option PeerId)
    (content : Text) (sequence : UInt64) (created now : Timestamp)
    (transport : ChannelTransportType)
    (hmillis : millisecondThreshold ≤ created.asMillis.toNat)
    (hvalid : MessageStore.validateMessageInput s.messageStore.config
      (.new sha256 sender recipient content sequence created) = .ok ()) :
    Agrees sha256 s (.new sha256 sender recipient content sequence created) transport now ↔
      CanAgree sha256 s (.new sha256 sender recipient content sequence created) now := by
  rw [agrees_iff_stores sha256 s _ transport now hmillis]
  cases recipient with
  | none =>
    simp only [CanAgree, ContentAddressedMessage.new, Option.getD_none, Option.isSome_none,
      Bool.false_eq_true, false_and, and_false, or_false]
    tauto
  | some r =>
    constructor
    · rintro ⟨_, _, hleaves⟩
      exact hleaves.imp_right fun h => ⟨h.1, h.2.2⟩
    · intro hleaves
      exact ⟨rfl, hvalid, Or.imp_right (fun h => ⟨h.1, rfl, h.2⟩) hleaves⟩

/-- A digest that shows the first bytes, with those of sender and recipient. -/
def leadingDigest (bytes : Bytes) : Key32 :=
  ⟨(bytes ++ List.replicate 32 0).take 32, by simp⟩

def author : PeerId := ⟨List.Vector.replicate 8 2⟩

def reader : PeerId := ⟨List.Vector.replicate 8 1⟩

/-- A receiver that has stored nothing yet. -/
def emptyCore : CoreState Unit Unit := CoreState.new reader (List.Vector.replicate 32 0)

theorem agrees_iff_greeting : Agrees leadingDigest emptyCore
    (.new leadingDigest author (some reader) ['h', 'i'] 7 ⟨1700000000000⟩) .ble ⟨0⟩ := by
  refine (agrees_iff leadingDigest emptyCore author (some reader) ['h', 'i'] 7 ⟨1700000000000⟩ ⟨0⟩
    .ble (by decide) (by decide +kernel)).mpr (.inr ⟨by decide +kernel, .inl (by decide), ?_⟩)
  intro ids hids
  cases hids

/-- A broadcast is refused by a receiver with an id of its own. -/
theorem broadcast_not_agreed :
    millisecondThreshold ≤ (⟨1700000000000⟩ : Timestamp).asMillis.toNat ∧
      MessageStore.validateMessageInput emptyCore.messageStore.config
        (.new leadingDigest author none ['h', 'i'] 7 ⟨1700000000000⟩) = .ok () ∧
      ¬ Agrees leadingDigest emptyCore
        (.new leadingDigest author none ['h', 'i'] 7 ⟨1700000000000⟩) .ble ⟨0⟩ := by
  refine ⟨by decide, by decide +kernel, fun h => ?_⟩
  exact absurd h.2 (by decide +kernel)

end CommandHandlers

end Bitchat
