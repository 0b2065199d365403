import Bitchat.MessageRetention
import Mathlib.Data.Finset.Sort
import Mathlib.Data.List.Nodup

/-!
# Queries of the message store

The answers are put together from the indices, and ids without a message are left out of
them. Since the indices of every reachable store are exact, so are the answers. A range of
times whose start is behind its end is not empty but a panic.
-/
namespace Bitchat
open Rust

/-- Timestamps in order, and for equal ones the sequence numbers. -/
def ContentAddressedMessage.NotAfter (a b : ContentAddressedMessage) : Prop :=
  a.timestamp < b.timestamp ∨ (a.timestamp = b.timestamp ∧ a.sequence ≤ b.sequence)

instance (a b : ContentAddressedMessage) : Decidable (a.NotAfter b) := instDecidableOr

theorem ContentAddressedMessage.NotAfter.trans {a b c : ContentAddressedMessage}
    (hab : a.NotAfter b) (hbc : b.NotAfter c) : a.NotAfter c := by
  simp only [NotAfter, UInt64.lt_iff_toNat_lt, UInt64.le_iff_toNat_le, ← UInt64.toNat_inj]
    at hab hbc ⊢
  omega

theorem ContentAddressedMessage.NotAfter.total (a b : ContentAddressedMessage) :
    a.NotAfter b ∨ b.NotAfter a := by
  simp only [NotAfter, UInt64.lt_iff_toNat_lt, UInt64.le_iff_toNat_le, ← UInt64.toNat_inj]
  omega

namespace MessageStore

/-- The messages of a list of ids, sorted. -/
def sorted (s : MessageStore) (ids : List MessageId) : List ContentAddressedMessage :=
  (ids.filterMap s.messages.lookup).mergeSort fun a b => a.NotAfter b

def getConversationMessages (s : MessageStore) (conversationId : ConversationId) :
    List ContentAddressedMessage :=
  match s.conversations.lookup conversationId with
  | some messageIds => s.sorted messageIds
  | none => []

/-- `time_index.range(start..=end)` has the keys in order, and panics if the start is behind
the end. -/
def getMessagesInRange (s : MessageStore) (startTime endTime : UInt64) :
    Outcome Empty (List ContentAddressedMessage) :=
  if endTime < startTime then panicked
  else
    let range := s.timeIndex.keys.sort.filter fun t => startTime ≤ t ∧ t ≤ endTime
    .ok (s.sorted (range.flatMap fun t => (s.timeIndex.lookup t).getD []))

/-- The answer has the stored messages with a property, each once and in order. -/
structure Exactly (s : MessageStore) (P : ContentAddressedMessage → Prop)
    (answer : List ContentAddressedMessage) : Prop where
  mem_iff : ∀ m, m ∈ answer ↔ m ∈ s.messages.values ∧ P m
  nodup : answer.Nodup
  sorted : answer.Pairwise ContentAddressedMessage.NotAfter

/-- The messages of a conversation and those of a range of times are answered exactly. -/
structure AnswersExactly (s : MessageStore) (c : ConversationId) (startTime endTime : UInt64) :
    Prop where
  conversation : s.Exactly (fun m => m.conversationId = c) (s.getConversationMessages c)
  range : ∃ answer, s.getMessagesInRange startTime endTime = .ok answer ∧
    s.Exactly (fun m => startTime ≤ m.timestamp ∧ m.timestamp ≤ endTime) answer

/-- The messages are stored under their ids, and the indices list them. -/
structure Indexed (s : MessageStore) : Prop where
  ownId : ∀ id m, s.messages.lookup id = some m → m.id = id
  conversations : Indexes ContentAddressedMessage.conversationId s.messages s.conversations
  timeIndex : Indexes ContentAddressedMessage.timestamp s.messages s.timeIndex

variable {sha256 : Bytes → Key32} {s : MessageStore} {m : ContentAddressedMessage}
  {now : Timestamp}

/-! ## Exact indices -/

theorem indexed_withConfig (config : MessageStoreConfig) : (withConfig config).Indexed where
  ownId := by
    intro id m h
    cases (Finmap.lookup_empty id).symm.trans h
  conversations := indexes_empty _
  timeIndex := indexes_empty _

theorem Indexed.removeMessageCompletely (h : s.Indexed) (id : MessageId) :
    (s.removeMessageCompletely id).Indexed := by
  unfold MessageStore.removeMessageCompletely
  cases hm : s.messages.lookup id with
  | none => exact h
  | some m =>
    refine ⟨fun i n hi => ?_, h.conversations.dropId hm, h.timeIndex.dropId hm⟩
    rw [Map.lookup_erase_if] at hi
    split_ifs at hi
    exact h.ownId i n hi

theorem Indexed.cleanupOldMessages (h : s.Indexed) (now : Timestamp) :
    (s.cleanupOldMessages now).1.Indexed := by
  show ((s.expired now).val.foldl MessageStore.removeMessageCompletely s).Indexed
  induction (s.expired now).val using Multiset.induction generalizing s with
  | empty => exact h
  | cons id ids ih =>
    rw [Multiset.foldl_cons]
    exact ih (h.removeMessageCompletely id)

theorem Indexed.makeRoom (h : s.Indexed) (now : Timestamp) : (s.makeRoom now).1.Indexed := by
  rcases makeRoom_cases s now with hsame | ⟨-, hcleaned⟩
  · rw [hsame]
    exact h
  · rw [hcleaned]
    exact h.cleanupOldMessages now

theorem Indexed.insertMessage (h : s.Indexed) (hnew : m.id ∉ s.messages) :
    (s.insertMessage m).Indexed := by
  have hlookup := Finmap.lookup_eq_none.mpr hnew
  refine ⟨fun i n hi => ?_, h.conversations.push hlookup, h.timeIndex.push hlookup⟩
  rw [MessageStore.insertMessage, Map.lookup_insert_if] at hi
  split_ifs at hi with heq
  · obtain rfl := Option.some.inj hi
    exact heq.symm
  · exact h.ownId i n hi

/-- One call of `store_message` keeps the indices exact. -/
theorem Indexed.storeMessage (sha256 : Bytes → Key32) (h : s.Indexed)
    (m : ContentAddressedMessage) (now : Timestamp) :
    (s.storeMessage sha256 m now).1.Indexed := by
  unfold MessageStore.storeMessage
  cases hinput : validateMessageInput s.config m with
  | error fault => exact h
  | ok _ =>
    simp only
    split_ifs with hintegrity hdup
    · exact ⟨h.ownId, h.conversations, h.timeIndex⟩
    · exact ⟨h.ownId, h.conversations, h.timeIndex⟩
    · unfold enforceCapacityLimits
      have hroom := h.makeRoom now
      have hmem : m.id ∉ (s.makeRoom now).1.messages := fun hin => hdup (mem_of_mem_makeRoom hin)
      cases hmade : s.makeRoom now with
      | mk made result =>
        rw [hmade] at hroom hmem
        cases result with
        | error fault => exact hroom
        | ok _ =>
          simp only
          cases made.checkConversationLimit m with
          | error fault => exact hroom
          | ok _ => exact hroom.insertMessage hmem

theorem reachable_indexed {config : MessageStoreConfig}
    (hreach : Reachable (step sha256) (withConfig config) s) : s.Indexed :=
  hreach.invariant (fun _ call h => h.storeMessage sha256 call.1 call.2)
    (indexed_withConfig config)

/-! ## Exact answers -/

theorem pairwise_sorted (s : MessageStore) (ids : List MessageId) :
    (s.sorted ids).Pairwise ContentAddressedMessage.NotAfter := by
  have htrans (a b c : ContentAddressedMessage) (hab : decide (a.NotAfter b) = true)
      (hbc : decide (b.NotAfter c) = true) : decide (a.NotAfter c) = true :=
    decide_eq_true ((of_decide_eq_true hab).trans (of_decide_eq_true hbc))
  have htotal (a b : ContentAddressedMessage) :
      (decide (a.NotAfter b) || decide (b.NotAfter a)) = true := by
    simpa using ContentAddressedMessage.NotAfter.total a b
  have hpairwise := List.pairwise_mergeSort htrans htotal (ids.filterMap s.messages.lookup)
  simp only [decide_eq_true_eq] at hpairwise
  exact hpairwise

/-- The messages of ids that are those of the messages with a property. -/
theorem Indexed.exactly_sorted (h : s.Indexed) {P : ContentAddressedMessage → Prop}
    {ids : List MessageId} (hnodup : ids.Nodup)
    (hids : ∀ id, id ∈ ids ↔ ∃ m, s.messages.lookup id = some m ∧ P m) :
    s.Exactly P (s.sorted ids) := by
  have hperm : (s.sorted ids).Perm (ids.filterMap s.messages.lookup) := List.mergeSort_perm _ _
  refine ⟨fun m => ?_, ?_, pairwise_sorted s ids⟩
  · rw [hperm.mem_iff, List.mem_filterMap, Map.mem_values]
    constructor
    · rintro ⟨id, hid, hm⟩
      obtain ⟨n, hn, hP⟩ := (hids id).mp hid
      obtain rfl := Option.some.inj (hm.symm.trans hn)
      exact ⟨⟨id, hm⟩, hP⟩
    · rintro ⟨⟨id, hm⟩, hP⟩
      exact ⟨id, (hids id).mpr ⟨m, hm, hP⟩, hm⟩
  · rw [hperm.nodup_iff]
    refine hnodup.filterMap fun i j m hi hj => ?_
    exact (h.ownId i m hi).symm.trans (h.ownId j m hj)

theorem Indexed.conversation_exactly (h : s.Indexed) (c : ConversationId) :
    s.Exactly (fun m => m.conversationId = c) (s.getConversationMessages c) := by
  have hexact := h.exactly_sorted (h.conversations.nodup c) fun _ => h.conversations.mem_iff
  rw [getConversationMessages]
  cases hids : s.conversations.lookup c with
  | none =>
    rw [hids, Option.getD_none] at hexact
    simpa [MessageStore.sorted] using hexact
  | some ids =>
    rw [hids, Option.getD_some] at hexact
    exact hexact

/-- The ids of a range of times, in the order of the times, are those of its messages. -/
theorem Indexed.range_exactly (h : s.Indexed) (startTime endTime : UInt64) :
    s.Exactly (fun m => startTime ≤ m.timestamp ∧ m.timestamp ≤ endTime)
      (s.sorted ((s.timeIndex.keys.sort.filter fun t => startTime ≤ t ∧ t ≤ endTime).flatMap
        fun t => (s.timeIndex.lookup t).getD [])) := by
  apply h.exactly_sorted
  · rw [List.nodup_flatMap]
    refine ⟨fun t _ => h.timeIndex.nodup t, ?_⟩
    -- an id is listed under the time of its message only
    refine ((Finset.sort_nodup _ _).filter _).imp fun {t t'} hne => ?_
    intro id ht ht'
    obtain ⟨m, hm, rfl⟩ := h.timeIndex.mem_iff.mp ht
    obtain ⟨n, hn, rfl⟩ := h.timeIndex.mem_iff.mp ht'
    rw [Option.some.inj (hm.symm.trans hn)] at hne
    exact hne rfl
  · intro id
    simp only [List.mem_flatMap, List.mem_filter, Finset.mem_sort, decide_eq_true_eq,
      h.timeIndex.mem_iff]
    constructor
    · rintro ⟨t, ⟨-, hrange⟩, m, hm, rfl⟩
      exact ⟨m, hm, hrange⟩
    · rintro ⟨m, hm, hrange⟩
      obtain ⟨ids, hids, -⟩ := h.timeIndex.listed id m hm
      exact ⟨m.timestamp, ⟨Map.mem_keys_iff.mpr ⟨ids, hids⟩, hrange⟩, m, hm, rfl⟩

/-- Every reachable store answers exactly if the start of the range is not behind its end. -/
theorem answersExactly_iff (sha256 : Bytes → Key32) (config : MessageStoreConfig)
    (s : MessageStore) (hreach : Reachable (step sha256) (withConfig config) s)
    (c : ConversationId) (startTime endTime : UInt64) :
    AnswersExactly s c startTime endTime ↔ startTime ≤ endTime := by
  have hindexed := reachable_indexed hreach
  constructor
  · rintro ⟨-, answer, hanswer, -⟩
    by_contra hlt
    rw [getMessagesInRange, if_pos (UInt64.not_le.mp hlt)] at hanswer
    cases hanswer
  · intro hle
    refine ⟨hindexed.conversation_exactly c, _, ?_, hindexed.range_exactly startTime endTime⟩
    exact if_neg (UInt64.not_lt.mpr hle)

theorem answersExactly_iff_oldAndFresh :
    AnswersExactly oldAndFresh .broadcast 5 9000 ↔ (5 : UInt64) ≤ 9000 :=
  answersExactly_iff lastByteDigest twoPlaces oldAndFresh ⟨_, rfl⟩ .broadcast 5 9000

/-- A range whose start is behind its end is a panic, where no message would be the answer. -/
theorem reversed_range_panics :
    Reachable (step lastByteDigest) (withConfig twoPlaces) oldAndFresh ∧
      oldAndFresh.getMessagesInRange 9000 5 = panicked ∧
      ¬ AnswersExactly oldAndFresh .broadcast 9000 5 := by
  refine ⟨⟨_, rfl⟩, rfl, ?_⟩
  rintro ⟨-, answer, hanswer, -⟩
  cases hanswer

end MessageStore

end Bitchat
