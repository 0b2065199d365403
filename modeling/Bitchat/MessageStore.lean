import Bitchat.Rust.Index
import Bitchat.Rust.Run
import Bitchat.Rust.Text
import Bitchat.Types

/-!
# The message store

`ContentAddressedMessage` and `MessageStore` of `message_store.rs`. The two
indices are maintained alongside the messages by insertion and by the clean-up
that an insertion may start. A single invariant relates messages, indices and
counters, and every call preserves it.
-/
namespace Bitchat
open Rust

structure MessageId where
  bytes : Key32
  deriving DecidableEq

inductive ConversationId where
  | direct (peer1 peer2 : PeerId)
  | broadcast
  deriving DecidableEq

/-- The two peers in the order of their bytes. -/
def ConversationId.new (peer1 peer2 : PeerId) : ConversationId :=
  if peer1.asBytes < peer2.asBytes then .direct peer1 peer2 else .direct peer2 peer1

structure ContentAddressedMessage where
  id : MessageId
  sender : PeerId
  recipient : Option PeerId
  content : Text
  timestamp : UInt64
  sequence : UInt64
  deriving DecidableEq

/-- Below this a timestamp counts as seconds. -/
def millisecondThreshold : ℕ := 1000000000000

namespace ContentAddressedMessage

section

variable (sha256 : Bytes → Key32)

/-- A missing recipient is hashed as eight zeros. -/
def computeId (sender : PeerId) (recipient : Option PeerId) (content : Text)
    (timestamp sequence : UInt64) : MessageId :=
  ⟨sha256 (sender.asBytes ++ (recipient.elim (List.replicate 8 0) PeerId.asBytes) ++
    content.asBytes ++ u64ToBeBytes timestamp ++ u64ToBeBytes sequence)⟩

def new (sender : PeerId) (recipient : Option PeerId) (content : Text) (sequence : UInt64)
    (now : Timestamp) : ContentAddressedMessage :=
  ⟨computeId sha256 sender recipient content now.asMillis sequence, sender, recipient, content,
    now.asMillis, sequence⟩

/-- Seconds become milliseconds, saturating. -/
def normalizeTimestamp (timestamp : UInt64) : UInt64 :=
  if timestamp.toNat < millisecondThreshold then
    UInt64.ofNat (min (timestamp.toNat * 1000) (2 ^ 64 - 1))
  else timestamp

def fromMetadata (sender : PeerId) (recipient : Option PeerId) (content : Text)
    (sequence timestamp : UInt64) (messageId : Option MessageId) :
    BitchatResult ContentAddressedMessage :=
  let normalized := normalizeTimestamp timestamp
  let computedId := computeId sha256 sender recipient content normalized sequence
  match messageId with
  | some providedId => do
    rejectIf (providedId ≠ computedId) "Provided message ID does not match computed content hash"
    pure ⟨providedId, sender, recipient, content, normalized, sequence⟩
  | none => .ok ⟨computedId, sender, recipient, content, normalized, sequence⟩

def verifyIntegrity (m : ContentAddressedMessage) : Bool :=
  computeId sha256 m.sender m.recipient m.content m.timestamp m.sequence == m.id

end

def conversationId (m : ContentAddressedMessage) : ConversationId :=
  match m.recipient with
  | some recipient =>
    if m.sender.asBytes < recipient.asBytes then ConversationId.new m.sender recipient
    else ConversationId.new recipient m.sender
  | none => .broadcast

/-- `bincode::serialized_size`: fixed-width integers, a byte in front of an
option and eight bytes of length in front of a string. -/
def serializedSize (m : ContentAddressedMessage) : ℕ :=
  32 + 8 + (if m.recipient.isSome then 9 else 1) + (8 + m.content.asBytes.length) + 8 + 8

end ContentAddressedMessage

structure MessageStoreConfig where
  maxMessageSize : ℕ
  maxMessagesPerConversation : ℕ
  maxTotalMessages : ℕ
  maxContentLength : ℕ
  maxMessageAgeSecs : ℕ
  strictContentValidation : Bool

def MessageStoreConfig.default : MessageStoreConfig where
  maxMessageSize := 65536
  maxMessagesPerConversation := 10000
  maxTotalMessages := 100000
  maxContentLength := 32768
  maxMessageAgeSecs := 86400 * 30
  strictContentValidation := true

structure MessageStoreStats where
  totalMessages : ℕ
  uniqueConversations : ℕ
  deduplicationSaves : ℕ
  integrityFailures : ℕ
  deriving DecidableEq

structure MessageStore where
  messages : Map MessageId ContentAddressedMessage
  conversations : Map ConversationId (List MessageId)
  timeIndex : Map UInt64 (List MessageId)
  config : MessageStoreConfig
  stats : MessageStoreStats

namespace MessageStore

def withConfig (config : MessageStoreConfig) : MessageStore :=
  ⟨∅, ∅, ∅, config, ⟨0, 0, 0, 0⟩⟩

def validateContentSafety (content : Text) : BitchatResult Unit := do
  rejectIf ('\x00' ∈ content) "Message content contains null bytes"
  rejectIf (0 < content.length ∧
      ratioExceedsNineTenths (content.countP isWhitespace) content.length = true)
    "Message content is mostly whitespace"
  rejectIf (content.any (fun c => isControl c && c != '\n' && c != '\r' && c != '\t') = true)
    "Message content contains invalid control characters"

def validateMessageInput (config : MessageStoreConfig) (m : ContentAddressedMessage) :
    BitchatResult Unit := do
  rejectIf (config.maxContentLength < m.content.length)
    ("Message content exceeds maximum length of " ++ toString config.maxContentLength ++
      " characters")
  rejectIf (config.maxMessageSize < m.serializedSize)
    ("Message size " ++ toString m.serializedSize ++ " bytes exceeds maximum of " ++
      toString config.maxMessageSize ++ " bytes")
  if config.strictContentValidation then validateContentSafety m.content else .ok ()

/-- Removes a message from the messages and from both indices. -/
def removeMessageCompletely (s : MessageStore) (id : MessageId) : MessageStore :=
  match s.messages.lookup id with
  | none => s
  | some m =>
    { s with
      messages := s.messages.erase id
      conversations := dropId s.conversations m.conversationId id
      timeIndex := dropId s.timeIndex m.timestamp id
      stats := { s.stats with
        totalMessages := s.stats.totalMessages - 1
        uniqueConversations := s.stats.uniqueConversations -
          (if emptied s.conversations m.conversationId id = true then 1 else 0) } }

/-- The order in which messages are removed does not matter. -/
instance : RightCommutative removeMessageCompletely where
  right_comm s a b := by
    by_cases hab : a = b
    · rw [hab]
    · unfold removeMessageCompletely
      cases ha : s.messages.lookup a with
      | none =>
        cases hb : s.messages.lookup b with
        | none => simp [ha]
        | some n => simp [ha, Finmap.lookup_erase_ne hab]
      | some m =>
        cases hb : s.messages.lookup b with
        | none => simp [hb, ha, Finmap.lookup_erase_ne (Ne.symm hab)]
        | some n =>
          have hcount := emptied_comm s.conversations m.conversationId n.conversationId a b
          simp only [Finmap.lookup_erase_ne hab, Finmap.lookup_erase_ne (Ne.symm hab), ha, hb]
          rw [Finmap.erase_erase, dropId_comm s.conversations, dropId_comm s.timeIndex]
          congr 2
          omega

/-- The ids of the messages below the cutoff, which is in seconds. -/
def expired (s : MessageStore) (now : Timestamp) : Finset MessageId :=
  (Map.retain (fun _ m => m.timestamp.toNat < now.asMillis.toNat / 1000 -
    s.config.maxMessageAgeSecs) s.messages).keys

/-- Also returns how many messages were removed. -/
def cleanupOldMessages (s : MessageStore) (now : Timestamp) : MessageStore × ℕ :=
  ((s.expired now).val.foldl removeMessageCompletely s, (s.expired now).card)

/-- A full store is cleaned up, and refuses when nothing was removed. -/
def makeRoom (s : MessageStore) (now : Timestamp) : MessageStore × BitchatResult Unit :=
  if s.config.maxTotalMessages ≤ s.stats.totalMessages then
    let cleaned := s.cleanupOldMessages now
    (cleaned.1, rejectIf (cleaned.2 = 0 ∧
        cleaned.1.config.maxTotalMessages ≤ cleaned.1.stats.totalMessages)
      "Message store at maximum capacity")
  else (s, .ok ())

def checkConversationLimit (s : MessageStore) (m : ContentAddressedMessage) : BitchatResult Unit :=
  match s.conversations.lookup m.conversationId with
  | some ids =>
    rejectIf (s.config.maxMessagesPerConversation ≤ ids.length)
      ("Conversation has reached maximum of " ++ toString s.config.maxMessagesPerConversation ++
        " messages")
  | none => .ok ()

def enforceCapacityLimits (s : MessageStore) (m : ContentAddressedMessage) (now : Timestamp) :
    MessageStore × BitchatResult Unit :=
  match s.makeRoom now with
  | (s, .error e) => (s, .error e)
  | (s, .ok _) => (s, s.checkConversationLimit m)

/-- The updates of an accepted message. -/
def insertMessage (s : MessageStore) (m : ContentAddressedMessage) : MessageStore :=
  { s with
    messages := s.messages.insert m.id m
    conversations := push s.conversations m.conversationId m.id
    timeIndex := push s.timeIndex m.timestamp m.id
    stats := { s.stats with
      totalMessages := s.stats.totalMessages + 1
      uniqueConversations := s.stats.uniqueConversations +
        (if m.conversationId ∈ s.conversations then 0 else 1) } }

def storeMessage (sha256 : Bytes → Key32) (s : MessageStore) (m : ContentAddressedMessage)
    (now : Timestamp) : MessageStore × BitchatResult Bool :=
  match validateMessageInput s.config m with
  | .error e => (s, .error e)
  | .ok _ =>
    if m.verifyIntegrity sha256 = false then
      ({ s with stats := { s.stats with integrityFailures := s.stats.integrityFailures + 1 } },
        invalidPacket "Message integrity verification failed")
    else if m.id ∈ s.messages then
      ({ s with stats := { s.stats with deduplicationSaves := s.stats.deduplicationSaves + 1 } },
        .ok false)
    else
      match s.enforceCapacityLimits m now with
      | (s, .error e) => (s, .error e)
      | (s, .ok _) => (s.insertMessage m, .ok true)

/-- Messages, indices, counters and limits agree. -/
structure Consistent (sha256 : Bytes → Key32) (s : MessageStore) : Prop where
  ownId : ∀ id m, s.messages.lookup id = some m → m.id = id ∧ m.verifyIntegrity sha256 = true
  conversations : Indexes ContentAddressedMessage.conversationId s.messages s.conversations
  timeIndex : Indexes ContentAddressedMessage.timestamp s.messages s.timeIndex
  totalMessages : s.stats.totalMessages = Map.size s.messages
  uniqueConversations : s.stats.uniqueConversations = Map.size s.conversations
  maxTotal : Map.size s.messages ≤ s.config.maxTotalMessages
  maxPerConversation : ∀ c ids, s.conversations.lookup c = some ids →
    ids.length ≤ s.config.maxMessagesPerConversation

theorem consistent_withConfig (sha256 : Bytes → Key32) (config : MessageStoreConfig) :
    Consistent sha256 (withConfig config) where
  ownId := by
    intro id m h
    cases (Finmap.lookup_empty id).symm.trans h
  conversations := indexes_empty _
  timeIndex := indexes_empty _
  totalMessages := Map.size_empty.symm
  uniqueConversations := Map.size_empty.symm
  maxTotal := by
    show Map.size ∅ ≤ _
    rw [Map.size_empty]
    exact Nat.zero_le _
  maxPerConversation := by
    intro c ids h
    cases (Finmap.lookup_empty c).symm.trans h

/-! ## Removal -/

@[simp] theorem removeMessageCompletely_config (s : MessageStore) (id : MessageId) :
    (s.removeMessageCompletely id).config = s.config := by
  unfold removeMessageCompletely
  cases s.messages.lookup id <;> rfl

theorem removeMessageCompletely_messages (s : MessageStore) (id : MessageId) :
    (s.removeMessageCompletely id).messages = s.messages.erase id := by
  unfold removeMessageCompletely
  cases h : s.messages.lookup id with
  | none => exact (Map.erase_of_notMem (Finmap.lookup_eq_none.mp h)).symm
  | some m => rfl

theorem Consistent.removeMessageCompletely {sha256 : Bytes → Key32} {s : MessageStore}
    (h : Consistent sha256 s) (id : MessageId) :
    Consistent sha256 (s.removeMessageCompletely id) := by
  unfold MessageStore.removeMessageCompletely
  cases hm : s.messages.lookup id with
  | none => exact h
  | some m =>
    have hsize := Map.size_erase_of_mem (Finmap.mem_of_lookup_eq_some hm)
    have hlists := size_dropId s.conversations m.conversationId id
    refine ⟨?_, h.conversations.dropId hm, h.timeIndex.dropId hm, ?_, ?_, ?_, ?_⟩
    · intro i n hi
      rw [Map.lookup_erase_if] at hi
      split_ifs at hi
      exact h.ownId i n hi
    · have htotal := h.totalMessages
      simp only
      omega
    · have hunique := h.uniqueConversations
      simp only
      omega
    · have hmax := h.maxTotal
      simp only
      omega
    · intro c ids hc
      rw [lookup_dropId] at hc
      split_ifs at hc with hkey
      · obtain ⟨old, hold, hids⟩ := Option.bind_eq_some_iff.mp hc
        obtain ⟨_, rfl⟩ := without_eq_some.mp hids
        have hle := List.length_filter_le (fun i => decide (i ≠ id)) old
        exact hle.trans (h.maxPerConversation _ old hold)
      · exact h.maxPerConversation c ids hc

/-- Removing several messages keeps the invariant and leaves exactly the others. -/
theorem foldl_removeMessageCompletely (ids : Multiset MessageId) (s : MessageStore) :
    (ids.foldl removeMessageCompletely s).config = s.config ∧
      (∀ sha256, Consistent sha256 s →
        Consistent sha256 (ids.foldl removeMessageCompletely s)) ∧
      ∀ id, id ∈ (ids.foldl removeMessageCompletely s).messages ↔ id ∈ s.messages ∧ id ∉ ids := by
  induction ids using Multiset.induction generalizing s with
  | empty => simp
  | cons a ids ih =>
    rw [Multiset.foldl_cons]
    obtain ⟨hconfig, hinv, hmem⟩ := ih (s.removeMessageCompletely a)
    refine ⟨hconfig.trans (removeMessageCompletely_config s a),
      fun sha256 h => hinv sha256 (h.removeMessageCompletely a), fun id => ?_⟩
    rw [hmem, removeMessageCompletely_messages, Finmap.mem_erase, Multiset.mem_cons]
    tauto

/-- A clean-up that removes a message makes the store smaller. -/
theorem size_cleanupOldMessages_lt (s : MessageStore) (now : Timestamp)
    (h : (s.cleanupOldMessages now).2 ≠ 0) :
    Map.size (s.cleanupOldMessages now).1.messages < Map.size s.messages := by
  obtain ⟨id, hid⟩ := Finset.card_pos.mp (Nat.pos_of_ne_zero h)
  obtain ⟨m, hm⟩ := Map.mem_keys_iff.mp hid
  have hin : id ∈ s.messages := Finmap.mem_of_lookup_eq_some (Map.mem_retain_entries.mp hm).1
  have hmem := (foldl_removeMessageCompletely (s.expired now).val s).2.2
  refine Finset.card_lt_card ⟨fun i hi => ?_, fun hsub => ?_⟩
  · exact Finmap.mem_keys.mpr ((hmem i).mp (Finmap.mem_keys.mp hi)).1
  · exact ((hmem id).mp (Finmap.mem_keys.mp (hsub (Finmap.mem_keys.mpr hin)))).2 hid

/-- After a successful check there is room for one more message. -/
theorem Consistent.makeRoom {sha256 : Bytes → Key32} {s : MessageStore}
    (h : Consistent sha256 s) (now : Timestamp) :
    Consistent sha256 (s.makeRoom now).1 ∧ (s.makeRoom now).1.config = s.config ∧
      ((s.makeRoom now).2 = .ok () →
        Map.size (s.makeRoom now).1.messages < s.config.maxTotalMessages) := by
  obtain ⟨hconfig, hinv, _⟩ := foldl_removeMessageCompletely (s.expired now).val s
  have hclean := hinv sha256 h
  unfold MessageStore.makeRoom
  split_ifs with hfull
  · refine ⟨hclean, hconfig, fun hroom => ?_⟩
    show Map.size (s.cleanupOldMessages now).1.messages < _
    have hnot := rejectIf_eq_ok.mp hroom
    by_cases hremoved : (s.cleanupOldMessages now).2 = 0
    · have hlt := fun hle => hnot ⟨hremoved, hle⟩
      have htotal : (s.cleanupOldMessages now).1.stats.totalMessages =
          Map.size (s.cleanupOldMessages now).1.messages := hclean.totalMessages
      have hmax : (s.cleanupOldMessages now).1.config.maxTotalMessages =
          s.config.maxTotalMessages := congrArg _ hconfig
      omega
    · have hlt := size_cleanupOldMessages_lt s now hremoved
      have hmax := h.maxTotal
      omega
  · refine ⟨h, rfl, fun _ => ?_⟩
    show Map.size s.messages < _
    have htotal := h.totalMessages
    omega

theorem mem_of_mem_makeRoom {s : MessageStore} {now : Timestamp} {id : MessageId}
    (h : id ∈ (s.makeRoom now).1.messages) : id ∈ s.messages := by
  unfold MessageStore.makeRoom at h
  split_ifs at h
  · exact (((foldl_removeMessageCompletely (s.expired now).val s).2.2 id).mp h).1
  · exact h

/-! ## Insertion -/

theorem Consistent.insertMessage {sha256 : Bytes → Key32} {s : MessageStore}
    {m : ContentAddressedMessage} (h : Consistent sha256 s)
    (hpositive : 1 ≤ s.config.maxMessagesPerConversation)
    (hintegrity : m.verifyIntegrity sha256 = true) (hnew : m.id ∉ s.messages)
    (hroom : Map.size s.messages < s.config.maxTotalMessages)
    (hlimit : s.checkConversationLimit m = .ok ()) :
    Consistent sha256 (s.insertMessage m) := by
  have hlookup := Finmap.lookup_eq_none.mpr hnew
  have hsize : Map.size (s.messages.insert m.id m) = Map.size s.messages + 1 :=
    Map.size_insert_of_notMem m hnew
  refine ⟨?_, h.conversations.push hlookup, h.timeIndex.push hlookup, ?_, ?_, ?_, ?_⟩
  · intro id n hid
    rw [MessageStore.insertMessage, Map.lookup_insert_if] at hid
    split_ifs at hid with heq
    · obtain rfl := Option.some.inj hid
      exact ⟨heq.symm, hintegrity⟩
    · exact h.ownId id n hid
  · show s.stats.totalMessages + 1 = _
    rw [h.totalMessages]
    exact hsize.symm
  · show s.stats.uniqueConversations + _ = _
    rw [h.uniqueConversations]
    exact (size_push _ _ _).symm
  · show Map.size (s.messages.insert m.id m) ≤ _
    rw [hsize]
    exact hroom
  · intro c ids hc
    show ids.length ≤ s.config.maxMessagesPerConversation
    rw [MessageStore.insertMessage, lookup_push] at hc
    split_ifs at hc with hkey
    · obtain rfl := Option.some.inj hc
      unfold checkConversationLimit at hlimit
      cases hold : s.conversations.lookup m.conversationId with
      | none => simpa [hold] using hpositive
      | some old =>
        rw [hold] at hlimit
        have hlt := rejectIf_eq_ok.mp hlimit
        rw [Option.getD_some, List.length_append, List.length_singleton]
        omega
    · exact h.maxPerConversation c ids hc

/-- One call of `store_message` keeps the invariant. -/
theorem Consistent.storeMessage {sha256 : Bytes → Key32} {s : MessageStore}
    (h : Consistent sha256 s) (hpositive : 1 ≤ s.config.maxMessagesPerConversation)
    (m : ContentAddressedMessage) (now : Timestamp) :
    Consistent sha256 (s.storeMessage sha256 m now).1 ∧
      (s.storeMessage sha256 m now).1.config = s.config := by
  obtain ⟨hclean, hconfig, hroom⟩ := h.makeRoom now
  unfold MessageStore.storeMessage
  cases hinput : validateMessageInput s.config m with
  | error e => exact ⟨h, rfl⟩
  | ok _ =>
    simp only
    split_ifs with hintegrity hdup
    · exact ⟨⟨h.ownId, h.conversations, h.timeIndex, h.totalMessages, h.uniqueConversations,
        h.maxTotal, h.maxPerConversation⟩, rfl⟩
    · exact ⟨⟨h.ownId, h.conversations, h.timeIndex, h.totalMessages, h.uniqueConversations,
        h.maxTotal, h.maxPerConversation⟩, rfl⟩
    · unfold enforceCapacityLimits
      have hmem : m.id ∉ (s.makeRoom now).1.messages := fun hin => hdup (mem_of_mem_makeRoom hin)
      cases hmade : s.makeRoom now with
      | mk made result =>
        rw [hmade] at hclean hconfig hroom hmem
        cases result with
        | error e => exact ⟨hclean, hconfig⟩
        | ok _ =>
          simp only
          cases hlimit : made.checkConversationLimit m with
          | error e => exact ⟨hclean, hconfig⟩
          | ok _ =>
            simp only at hclean hconfig hmem
            refine ⟨hclean.insertMessage ?_ (by simpa using hintegrity) hmem ?_ hlimit, hconfig⟩
            · rw [hconfig]
              exact hpositive
            · rw [hconfig]
              exact hroom rfl

/-- `store_message` of a message at a time, as a step. -/
def step (sha256 : Bytes → Key32) (s : MessageStore) (call : ContentAddressedMessage × Timestamp) :
    MessageStore × BitchatResult Bool :=
  s.storeMessage sha256 call.1 call.2

/-- The indices of every reachable store agree with its messages. -/
theorem reachable_consistent (sha256 : Bytes → Key32) (config : MessageStoreConfig)
    (hpositive : 1 ≤ config.maxMessagesPerConversation) (s : MessageStore)
    (hreach : Reachable (step sha256) (withConfig config) s) : Consistent sha256 s := by
  have hinv : Consistent sha256 s ∧ s.config = config := by
    refine hreach.invariant (I := fun s => Consistent sha256 s ∧ s.config = config) ?_
      ⟨consistent_withConfig sha256 config, rfl⟩
    rintro s ⟨m, now⟩ ⟨h, hconfig⟩
    obtain ⟨hnext, hsame⟩ := h.storeMessage (hconfig ▸ hpositive) m now
    exact ⟨hnext, hsame.trans hconfig⟩
  exact hinv.1

/-- A digest that shows the last byte, which is that of the sequence number. -/
def lastByteDigest (bytes : Bytes) : Key32 := List.Vector.replicate 32 (bytes.getLastD 0)

/-- One message at most, kept for no time. -/
def smallConfig : MessageStoreConfig := { MessageStoreConfig.default with
  maxTotalMessages := 1
  maxMessagesPerConversation := 1
  maxMessageAgeSecs := 0 }

/-- Two broadcasts of one second, the second stored a while later. -/
def twoBroadcasts : List (ContentAddressedMessage × Timestamp) :=
  [(ContentAddressedMessage.new lastByteDigest PeerId.broadcast none ['h', 'i'] 1 ⟨5⟩, ⟨5⟩),
    (ContentAddressedMessage.new lastByteDigest PeerId.broadcast none ['h', 'i'] 2 ⟨5⟩, ⟨9000⟩)]

theorem reachable_consistent_twoBroadcasts :
    Consistent lastByteDigest (run (step lastByteDigest) (withConfig smallConfig) twoBroadcasts) ∧
      (run (step lastByteDigest) (withConfig smallConfig) twoBroadcasts).stats =
        ⟨1, 1, 0, 0⟩ :=
  ⟨reachable_consistent lastByteDigest smallConfig (by decide) _ ⟨twoBroadcasts, rfl⟩,
    by decide +kernel⟩

end MessageStore

end Bitchat
