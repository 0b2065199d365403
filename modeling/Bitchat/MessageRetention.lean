import Bitchat.MessageStore

/-!
# Making room in the message store

A full store is cleaned up before the limit of the conversation is checked, so that a
message may be refused behind a clean-up. The clean-up compares the timestamps of the
messages, in milliseconds, with a cutoff in seconds, and misses most of the old ones.
-/
namespace Bitchat
open Rust

namespace MessageStore

/-- Messages, indices and the counters but one are those of before. -/
structure Unchanged (s s' : MessageStore) : Prop where
  messages : s'.messages = s.messages
  conversations : s'.conversations = s.conversations
  timeIndex : s'.timeIndex = s.timeIndex
  stats : s'.stats = { s.stats with integrityFailures := s'.stats.integrityFailures }

/-- What refuses a message of a conversation at its limit. -/
def conversationLimit (config : MessageStoreConfig) : BitchatError :=
  .invalidPacket ("Conversation has reached maximum of " ++
    toString config.maxMessagesPerConversation ++ " messages")

/-- The store is at its capacity. -/
def IsFull (s : MessageStore) : Prop := s.config.maxTotalMessages ≤ s.stats.totalMessages

/-- The timestamp is more than the maximal age before the current time. -/
def TooOld (config : MessageStoreConfig) (now : Timestamp) (m : ContentAddressedMessage) : Prop :=
  m.timestamp.toNat + 1000 * config.maxMessageAgeSecs < now.asMillis.toNat

instance (s : MessageStore) : Decidable s.IsFull := Nat.decLe _ _

instance (config : MessageStoreConfig) (now : Timestamp) (m : ContentAddressedMessage) :
    Decidable (TooOld config now m) := Nat.decLt _ _

/-- The number of the timestamp, of milliseconds, is below the cutoff, of seconds. -/
def BelowCutoff (config : MessageStoreConfig) (now : Timestamp) (m : ContentAddressedMessage) :
    Prop :=
  m.timestamp.toNat < now.asMillis.toNat / 1000 - config.maxMessageAgeSecs

/-- The message is new and valid, and its conversation below its limit. -/
structure Welcome (sha256 : Bytes → Key32) (s : MessageStore) (m : ContentAddressedMessage) :
    Prop where
  valid : validateMessageInput s.config m = .ok ()
  integrity : m.verifyIntegrity sha256 = true
  isNew : m.id ∉ s.messages
  belowLimit : ((s.conversations.lookup m.conversationId).getD []).length <
    s.config.maxMessagesPerConversation

/-- The message is stored, and of the others exactly those that are too old are removed. -/
structure MakesRoomByAge (sha256 : Bytes → Key32) (s : MessageStore) (m : ContentAddressedMessage)
    (now : Timestamp) : Prop where
  stored : (s.storeMessage sha256 m now).2 = .ok true
  removed : ∀ id old, s.messages.lookup id = some old →
    (id ∉ (s.storeMessage sha256 m now).1.messages ↔ TooOld s.config now old)

variable {sha256 : Bytes → Key32} {s s' : MessageStore} {m : ContentAddressedMessage}
  {now : Timestamp} {e : BitchatError} {id : MessageId}

theorem Unchanged.refl (s : MessageStore) : Unchanged s s := ⟨rfl, rfl, rfl, rfl⟩

/-! ## Messages that are refused -/

/-- A clean-up that removes nothing changes nothing. -/
theorem cleanupOldMessages_of_none (h : (s.cleanupOldMessages now).2 = 0) :
    (s.cleanupOldMessages now).1 = s := by
  have hnone : s.expired now = ∅ := Finset.card_eq_zero.mp h
  rw [cleanupOldMessages, hnone]
  rfl

theorem makeRoom_of_ne_ok (h : (s.makeRoom now).2 ≠ .ok ()) : (s.makeRoom now).1 = s := by
  unfold makeRoom at h ⊢
  by_cases hfull : s.config.maxTotalMessages ≤ s.stats.totalMessages
  · rw [if_pos hfull] at h ⊢
    have hnone := not_not.mp (mt rejectIf_eq_ok.mpr h)
    exact cleanupOldMessages_of_none hnone.1
  · rw [if_neg hfull]

/-- The clean-up is only made in a full store. -/
theorem makeRoom_cases (s : MessageStore) (now : Timestamp) :
    (s.makeRoom now).1 = s ∨ (s.IsFull ∧ (s.makeRoom now).1 = (s.cleanupOldMessages now).1) := by
  unfold makeRoom
  by_cases hfull : s.config.maxTotalMessages ≤ s.stats.totalMessages
  · rw [if_pos hfull]
    exact Or.inr ⟨hfull, rfl⟩
  · rw [if_neg hfull]
    exact Or.inl rfl

theorem checkConversationLimit_fails (h : s.checkConversationLimit m = fail e) :
    e = conversationLimit s.config := by
  unfold checkConversationLimit at h
  cases hids : s.conversations.lookup m.conversationId with
  | none =>
    rw [hids] at h
    cases h
  | some ids =>
    rw [hids] at h
    simp only [rejectIf, failIf] at h
    split_ifs at h with hlimit
    · exact (Fault.err.inj (Except.error.inj h)).symm
    · cases h

/-- A call of the last check, behind the clean-up. -/
theorem enforceCapacityLimits_fails (h : (s.enforceCapacityLimits m now).2 = fail e) :
    (s.enforceCapacityLimits m now).1 = s ∨ (s.IsFull ∧ e = conversationLimit s.config ∧
      (s.enforceCapacityLimits m now).1 = (s.cleanupOldMessages now).1) := by
  unfold enforceCapacityLimits at h ⊢
  have hcases := makeRoom_cases s now
  have hconfig : (s.cleanupOldMessages now).1.config = s.config :=
    (foldl_removeMessageCompletely (s.expired now).val s).1
  have hmade : (s.makeRoom now).2 ≠ .ok () → (s.makeRoom now).1 = s := makeRoom_of_ne_ok
  cases hroom : s.makeRoom now with
  | mk made result =>
    rw [hroom] at h hcases hmade
    cases result with
    | error fault => exact Or.inl (hmade (by simp))
    | ok _ =>
      rcases hcases with hsame | ⟨hfull, hcleaned⟩
      · exact Or.inl hsame
      · refine Or.inr ⟨hfull, ?_, hcleaned⟩
        rw [checkConversationLimit_fails h, show made = _ from hcleaned, hconfig]

/-- A message that is refused leaves the store as it is, unless it was full: then the limit
of the conversation was checked behind the clean-up. -/
theorem storeMessage_fails (sha256 : Bytes → Key32) (s : MessageStore)
    (m : ContentAddressedMessage) (now : Timestamp) (e : BitchatError)
    (hfails : (s.storeMessage sha256 m now).2 = fail e) :
    Unchanged s (s.storeMessage sha256 m now).1 ∨
      (s.IsFull ∧ e = conversationLimit s.config ∧
        (s.storeMessage sha256 m now).1 = (s.cleanupOldMessages now).1) := by
  unfold storeMessage at hfails ⊢
  cases hinput : validateMessageInput s.config m with
  | error fault => exact Or.inl (Unchanged.refl s)
  | ok _ =>
    rw [hinput] at hfails
    simp only at hfails ⊢
    split_ifs at hfails ⊢ with hintegrity hdup
    · exact Or.inl ⟨rfl, rfl, rfl, rfl⟩
    · cases hfails
    · have hcapacity : (s.enforceCapacityLimits m now).2 = fail e → _ := enforceCapacityLimits_fails
      cases hlimits : s.enforceCapacityLimits m now with
      | mk made result =>
        rw [hlimits] at hfails hcapacity
        cases result with
        | error fault =>
          obtain rfl : fault = .err e := Except.error.inj hfails
          rcases hcapacity rfl with hsame | hcleaned
          · rw [show made = s from hsame]
            exact Or.inl (Unchanged.refl s)
          · exact Or.inr hcleaned
        | ok _ => cases hfails

/-- A store for two messages, of which every conversation may have one. -/
def twoPlaces : MessageStoreConfig := { smallConfig with maxTotalMessages := 2 }

/-- A message to a peer or to all, as it is created at a time. -/
def written (recipient : Option PeerId) (sequence : UInt64) (now : Timestamp) :
    ContentAddressedMessage :=
  ContentAddressedMessage.new lastByteDigest PeerId.broadcast recipient ['h', 'i'] sequence now

/-- An old message to all and a fresh one to a peer. -/
def oldAndFresh : MessageStore :=
  run (step lastByteDigest) (withConfig twoPlaces)
    [(written none 1 ⟨5⟩, ⟨5⟩), (written (some PeerId.broadcast) 2 ⟨9000⟩, ⟨9000⟩)]

/-- One more for the conversation of the fresh message. -/
def refused : ContentAddressedMessage := written (some PeerId.broadcast) 3 ⟨9000⟩

theorem refused_fails :
    (oldAndFresh.storeMessage lastByteDigest refused ⟨9000⟩).2 =
      fail (conversationLimit twoPlaces) := by
  decide +kernel

theorem storeMessage_fails_refused :
    Unchanged oldAndFresh (oldAndFresh.storeMessage lastByteDigest refused ⟨9000⟩).1 ∨
      (oldAndFresh.IsFull ∧
        conversationLimit twoPlaces = conversationLimit oldAndFresh.config ∧
        (oldAndFresh.storeMessage lastByteDigest refused ⟨9000⟩).1 =
          (oldAndFresh.cleanupOldMessages ⟨9000⟩).1) :=
  storeMessage_fails lastByteDigest oldAndFresh refused ⟨9000⟩ (conversationLimit twoPlaces)
    refused_fails

/-- The message to the peer is refused, and the message to all is removed for it. -/
theorem refused_message_removes :
    Reachable (step lastByteDigest) (withConfig twoPlaces) oldAndFresh ∧
      (oldAndFresh.storeMessage lastByteDigest refused ⟨9000⟩).2 =
        fail (conversationLimit twoPlaces) ∧
      ¬ Unchanged oldAndFresh (oldAndFresh.storeMessage lastByteDigest refused ⟨9000⟩).1 := by
  refine ⟨⟨_, rfl⟩, refused_fails, fun hunchanged => ?_⟩
  have htotal : (oldAndFresh.storeMessage lastByteDigest refused ⟨9000⟩).1.stats.totalMessages =
      oldAndFresh.stats.totalMessages := congrArg MessageStoreStats.totalMessages hunchanged.stats
  revert htotal
  decide +kernel

/-! ## Messages that are too old -/

theorem mem_expired_iff :
    id ∈ s.expired now ↔ ∃ m, s.messages.lookup id = some m ∧ BelowCutoff s.config now m := by
  rw [expired, Map.mem_keys_iff]
  simp only [Map.mem_retain_entries, BelowCutoff, decide_eq_true_eq]

/-- What is below the cutoff is old enough by far. -/
theorem TooOld.of_belowCutoff {config : MessageStoreConfig} (h : BelowCutoff config now m) :
    TooOld config now m := by
  unfold BelowCutoff at h
  unfold TooOld
  omega

/-- A removal makes no list of a conversation longer. -/
theorem length_conversations_remove (s : MessageStore) (id : MessageId) (c : ConversationId) :
    (((s.removeMessageCompletely id).conversations.lookup c).getD []).length ≤
      ((s.conversations.lookup c).getD []).length := by
  unfold removeMessageCompletely
  cases s.messages.lookup id with
  | none => exact le_rfl
  | some m =>
    simp only [lookup_dropId]
    split_ifs with hc
    · rw [hc]
      cases s.conversations.lookup m.conversationId with
      | none => exact le_rfl
      | some ids =>
        cases hrest : without id ids with
        | none => simp [hrest]
        | some rest =>
          obtain ⟨-, rfl⟩ := without_eq_some.mp hrest
          simpa [hrest] using List.length_filter_le (fun i => decide (i ≠ id)) ids
    · exact le_rfl

theorem length_conversations_foldl (ids : Multiset MessageId) (s : MessageStore)
    (c : ConversationId) :
    (((ids.foldl removeMessageCompletely s).conversations.lookup c).getD []).length ≤
      ((s.conversations.lookup c).getD []).length := by
  induction ids using Multiset.induction generalizing s with
  | empty => exact le_rfl
  | cons id ids ih =>
    rw [Multiset.foldl_cons]
    exact (ih (s.removeMessageCompletely id)).trans (length_conversations_remove s id c)

theorem checkConversationLimit_ok
    (h : ((s.conversations.lookup m.conversationId).getD []).length <
      s.config.maxMessagesPerConversation) : s.checkConversationLimit m = .ok () := by
  unfold checkConversationLimit
  cases hids : s.conversations.lookup m.conversationId with
  | none => rfl
  | some ids =>
    rw [hids, Option.getD_some] at h
    exact rejectIf_eq_ok.mpr (Nat.not_le.mpr h)

theorem storeMessage_of_welcome (h : Welcome sha256 s m) (now : Timestamp) :
    s.storeMessage sha256 m now =
      match s.enforceCapacityLimits m now with
      | (s, .error e) => (s, .error e)
      | (s, .ok _) => (s.insertMessage m, .ok true) := by
  have hintact : ¬ m.verifyIntegrity sha256 = false := by
    rw [h.integrity]
    exact Bool.noConfusion
  unfold storeMessage
  rw [h.valid]
  exact (if_neg hintact).trans (if_neg h.isNew)

/-- A message that is welcome is stored if the clean-up removes something for it. -/
theorem storeMessage_of_expired (h : Welcome sha256 s m) (hfull : s.IsFull)
    (hsome : (s.cleanupOldMessages now).2 ≠ 0) :
    s.storeMessage sha256 m now = ((s.cleanupOldMessages now).1.insertMessage m, .ok true) := by
  have hroom : s.makeRoom now = ((s.cleanupOldMessages now).1, .ok ()) := by
    unfold IsFull at hfull
    rw [makeRoom, if_pos hfull]
    exact Prod.ext rfl (rejectIf_eq_ok.mpr fun hnone => hsome hnone.1)
  have hconfig : (s.cleanupOldMessages now).1.config = s.config :=
    (foldl_removeMessageCompletely (s.expired now).val s).1
  have hlimit : (s.cleanupOldMessages now).1.checkConversationLimit m = .ok () := by
    refine checkConversationLimit_ok (lt_of_le_of_lt ?_ (hconfig.symm ▸ h.belowLimit))
    exact length_conversations_foldl (s.expired now).val s m.conversationId
  rw [storeMessage_of_welcome h, enforceCapacityLimits, hroom]
  simp only [hlimit]

/-- Without anything to remove the message is refused. -/
theorem storeMessage_of_nothing_expired (h : Welcome sha256 s m) (hfull : s.IsFull)
    (hnone : (s.cleanupOldMessages now).2 = 0) :
    (s.storeMessage sha256 m now).2 ≠ .ok true := by
  have hroom : (s.makeRoom now).2 ≠ .ok () := by
    unfold IsFull at hfull
    rw [makeRoom, if_pos hfull]
    refine mt rejectIf_eq_ok.mp (not_not.mpr ⟨hnone, ?_⟩)
    rw [cleanupOldMessages_of_none hnone]
    exact hfull
  rw [storeMessage_of_welcome h, enforceCapacityLimits]
  cases hmade : s.makeRoom now with
  | mk made result =>
    rw [hmade] at hroom
    cases result with
    | error fault => simp
    | ok _ => exact absurd rfl hroom

/-- A full store with an old message makes room by age exactly if all its old messages are
below the cutoff. -/
theorem makesRoomByAge_iff (sha256 : Bytes → Key32) (s : MessageStore)
    (m : ContentAddressedMessage) (now : Timestamp) (hfull : s.IsFull)
    (hold : ∃ id old, s.messages.lookup id = some old ∧ TooOld s.config now old)
    (hwelcome : Welcome sha256 s m) :
    MakesRoomByAge sha256 s m now ↔ ∀ id old, s.messages.lookup id = some old →
      TooOld s.config now old → BelowCutoff s.config now old := by
  -- what is left of the old messages when the message is stored
  have hleft (hsome : (s.cleanupOldMessages now).2 ≠ 0) (id : MessageId)
      (old : ContentAddressedMessage) (hlookup : s.messages.lookup id = some old) :
      id ∉ (s.storeMessage sha256 m now).1.messages ↔ BelowCutoff s.config now old := by
    have hstored : id ∈ s.messages := Finmap.mem_of_lookup_eq_some hlookup
    have hne : id ≠ m.id := by
      rintro rfl
      exact hwelcome.isNew hstored
    rw [storeMessage_of_expired hwelcome hfull hsome]
    show id ∉ (s.cleanupOldMessages now).1.messages.insert m.id m ↔ _
    rw [Finmap.mem_insert, or_iff_right hne, cleanupOldMessages,
      (foldl_removeMessageCompletely (s.expired now).val s).2.2, not_and, imp_iff_right hstored,
      not_not, Finset.mem_val, mem_expired_iff]
    simp [hlookup]
  constructor
  · intro h id old hlookup htooOld
    have hsome : (s.cleanupOldMessages now).2 ≠ 0 := fun hnone =>
      storeMessage_of_nothing_expired hwelcome hfull hnone h.stored
    exact (hleft hsome id old hlookup).mp ((h.removed id old hlookup).mpr htooOld)
  · intro h
    obtain ⟨id, old, hlookup, htooOld⟩ := hold
    have hexpired : id ∈ s.expired now :=
      mem_expired_iff.mpr ⟨old, hlookup, h id old hlookup htooOld⟩
    have hsome : (s.cleanupOldMessages now).2 ≠ 0 := Finset.card_ne_zero_of_mem hexpired
    refine ⟨by rw [storeMessage_of_expired hwelcome hfull hsome], fun i n hn => ?_⟩
    exact (hleft hsome i n hn).trans ⟨TooOld.of_belowCutoff, h i n hn⟩

/-- A store for one message, with one that was created at a time. -/
def withOne (created : Timestamp) : MessageStore :=
  run (step lastByteDigest) (withConfig smallConfig) [(written none 1 created, created)]

/-- The next message. -/
def next : ContentAddressedMessage := written (some PeerId.broadcast) 2 ⟨9000⟩

theorem welcome_next_five : Welcome lastByteDigest (withOne ⟨5⟩) next :=
  ⟨by decide +kernel, by decide +kernel, by decide +kernel, by decide +kernel⟩

theorem welcome_next_thousands : Welcome lastByteDigest (withOne ⟨5000⟩) next :=
  ⟨by decide +kernel, by decide +kernel, by decide +kernel, by decide +kernel⟩

theorem makesRoomByAge_iff_five :
    MakesRoomByAge lastByteDigest (withOne ⟨5⟩) next ⟨9000⟩ ↔
      ∀ id old, (withOne ⟨5⟩).messages.lookup id = some old →
        TooOld (withOne ⟨5⟩).config ⟨9000⟩ old → BelowCutoff (withOne ⟨5⟩).config ⟨9000⟩ old :=
  makesRoomByAge_iff lastByteDigest (withOne ⟨5⟩) next ⟨9000⟩ (by decide +kernel)
    ⟨(written none 1 ⟨5⟩).id, written none 1 ⟨5⟩, by decide +kernel, by decide +kernel⟩
    welcome_next_five

/-- A message that is four seconds old stays in a store that keeps them for no time, and the
next message is refused for it. -/
theorem old_message_stays :
    Reachable (step lastByteDigest) (withConfig smallConfig) (withOne ⟨5000⟩) ∧
      (withOne ⟨5000⟩).IsFull ∧ TooOld smallConfig ⟨9000⟩ (written none 1 ⟨5000⟩) ∧
      Welcome lastByteDigest (withOne ⟨5000⟩) next ∧
      ((withOne ⟨5000⟩).storeMessage lastByteDigest next ⟨9000⟩).2 =
        invalidPacket "Message store at maximum capacity" ∧
      ¬ MakesRoomByAge lastByteDigest (withOne ⟨5000⟩) next ⟨9000⟩ := by
  have hrefused : ((withOne ⟨5000⟩).storeMessage lastByteDigest next ⟨9000⟩).2 =
      invalidPacket "Message store at maximum capacity" := by decide +kernel
  refine ⟨⟨_, rfl⟩, by decide +kernel, by decide +kernel, welcome_next_thousands, hrefused, ?_⟩
  intro h
  have hstored := h.stored
  rw [hrefused] at hstored
  cases hstored

end MessageStore

end Bitchat
