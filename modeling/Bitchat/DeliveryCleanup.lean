import Bitchat.Delivery

/-!
# Clean-up of tracked messages

The clean-up of the core's tracker sorts every message into one of four ways to go: it is
returned as completed or as expired, it is marked failed and then returned as completed, or
it is kept. A message whose attempts are used up is not kept, not even while the last one
is under way.
-/
namespace Bitchat
open Rust

namespace TrackedMessage

/-- The message is to go: it is finished, past its timeout, or has no attempt left. -/
def Leaves (m : TrackedMessage) (config : DeliveryConfig) (now : Timestamp) : Prop :=
  m.isFinished = true ∨ m.isTimedOut config now = true ∨ m.maxRetries ≤ m.attemptCount

/-- A message as the list of the completed ones has it. -/
def closed (m : TrackedMessage) : TrackedMessage :=
  if m.isFinished = true then m else m.markFailed

/-- The message is sent, and there is time left both for its confirmation and until its
next attempt. -/
def InFlight (m : TrackedMessage) (config : DeliveryConfig) (now : Timestamp) : Prop :=
  m.status = .sent ∧ m.isTimedOut config now = false ∧
    ∃ last, m.attempts.getLast? = some last ∧ elapsedSince now last.timestamp < last.nextRetryDelay

end TrackedMessage

namespace DeliveryTracker

/-- The list has what `f` makes of the messages with the given ids, each of them once. -/
def Lists (d : DeliveryTracker) (f : TrackedMessage → TrackedMessage) (ids : Finset Uuid)
    (messages : Multiset TrackedMessage) : Prop :=
  messages.map some = ids.val.map fun id => (d.getTracked id).map f

/-- The counts of the statuses add up to the number of the messages, modulo `2 ^ 32`, and none
of them wraps as long as that number does not. -/
structure CountsAddUp (d : DeliveryTracker) : Prop where
  total : d.getStats.total = .ofNat (Map.size d.trackedMessages)
  wrapping : d.getStats.pending + d.getStats.sent + d.getStats.confirmed + d.getStats.failed +
    d.getStats.cancelled = d.getStats.total
  bounded : Map.size d.trackedMessages < 2 ^ 32 →
    d.getStats.total.toNat = Map.size d.trackedMessages ∧
      d.getStats.pending.toNat + d.getStats.sent.toNat + d.getStats.confirmed.toNat +
        d.getStats.failed.toNat + d.getStats.cancelled.toNat = Map.size d.trackedMessages

/-- The clean-up keeps the messages that are not to go as they are, and returns each of the
others once, in one of its two lists. -/
structure CleansUp (d : DeliveryTracker) (now : Timestamp) : Prop where
  kept : ∀ id m, (d.cleanup now).1.getTracked id = some m ↔
    d.getTracked id = some m ∧ ¬ m.Leaves d.config now
  returned : ∃ completed expired : Finset Uuid, Disjoint completed expired ∧
    (∀ id, id ∈ completed ∪ expired ↔
      (d.getTracked id).isSome = true ∧ (d.cleanup now).1.getTracked id = none) ∧
    d.Lists TrackedMessage.closed completed (d.cleanup now).2.1 ∧
    d.Lists id expired (d.cleanup now).2.2
  terminal : ∀ m ∈ (d.cleanup now).2.1, m.isFinished = true
  counts : d.CountsAddUp ∧ (d.cleanup now).1.CountsAddUp

variable {d : DeliveryTracker} {m : TrackedMessage} {config : DeliveryConfig} {now : Timestamp}
  {how : Disposal}

/-! ## The four ways to go -/

theorem disposal_completed_iff : m.disposal config now = .completed ↔ m.isFinished = true := by
  unfold TrackedMessage.disposal TrackedMessage.isFinished
  cases m.status with
  | confirmed => simp
  | failed => simp
  | cancelled => simp
  | pending => split_ifs <;> simp
  | sent => split_ifs <;> simp

/-- What may still be sent has not used up its attempts. -/
theorem canRetry_iff (h : m.isFinished = false) :
    m.canRetry = true ↔ m.attemptCount < m.maxRetries := by
  unfold TrackedMessage.isFinished at h
  unfold TrackedMessage.canRetry
  cases hstatus : m.status with
  | pending => simp
  | sent => simp
  | confirmed => simp [hstatus] at h
  | failed => simp [hstatus] at h
  | cancelled => simp [hstatus] at h

theorem disposal_of_unfinished (h : m.isFinished = false) :
    m.disposal config now =
      if m.isTimedOut config now = true then .expired
      else if m.attemptCount < m.maxRetries then .kept else .exhausted := by
  have hretry := if_congr (canRetry_iff h) (rfl : Disposal.kept = .kept)
    (rfl : Disposal.exhausted = .exhausted)
  unfold TrackedMessage.isFinished at h
  unfold TrackedMessage.disposal
  cases hstatus : m.status with
  | pending => rw [← hretry]
  | sent => rw [← hretry]
  | confirmed => simp [hstatus] at h
  | failed => simp [hstatus] at h
  | cancelled => simp [hstatus] at h

/-- Kept is what is not to go. -/
theorem disposal_kept_iff : m.disposal config now = .kept ↔ ¬ m.Leaves config now := by
  unfold TrackedMessage.Leaves
  cases hfinished : m.isFinished with
  | true =>
    rw [disposal_completed_iff.mpr hfinished]
    simp
  | false =>
    rw [disposal_of_unfinished hfinished]
    split_ifs with htimeout hretry
    · simp [htimeout]
    · simp [htimeout, Nat.not_le.mpr hretry]
    · simp [Nat.not_lt.mp hretry]

theorem closed_of_completed (h : m.disposal config now = .completed) : m.closed = m :=
  if_pos (disposal_completed_iff.mp h)

theorem closed_of_exhausted (h : m.disposal config now = .exhausted) : m.closed = m.markFailed := by
  refine if_neg fun hfinished => ?_
  rw [disposal_completed_iff.mpr hfinished] at h
  cases h

/-! ## The two lists -/

/-- The ids of the messages that go one of the ways. -/
def disposedIds (d : DeliveryTracker) (how : Disposal) (now : Timestamp) : Finset Uuid :=
  (Map.retain (fun _ m => m.disposal d.config now = how) d.trackedMessages).keys

theorem mem_disposedIds {id : Uuid} :
    id ∈ d.disposedIds how now ↔
      ∃ m, d.getTracked id = some m ∧ m.disposal d.config now = how := by
  rw [disposedIds, Map.mem_keys_iff]
  simp only [Map.mem_retain_entries, getTracked, decide_eq_true_eq]

theorem disjoint_disposedIds {how' : Disposal} (hne : how ≠ how') :
    Disjoint (d.disposedIds how now) (d.disposedIds how' now) := by
  rw [Finset.disjoint_left]
  intro id h h'
  obtain ⟨m, hm, hhow⟩ := mem_disposedIds.mp h
  obtain ⟨n, hn, hhow'⟩ := mem_disposedIds.mp h'
  obtain rfl := Option.some.inj (hm.symm.trans hn)
  exact hne (hhow.symm.trans hhow')

/-- The messages that go one of the ways, and what becomes of them. -/
theorem lists_disposed (d : DeliveryTracker) (how : Disposal) (now : Timestamp)
    {f g : TrackedMessage → TrackedMessage}
    (hfg : ∀ m, m.disposal d.config now = how → f m = g m) :
    d.Lists f (d.disposedIds how now)
      ((d.trackedMessages.values.filter fun m => m.disposal d.config now = how).map g) := by
  have hvalues : (d.trackedMessages.values.filter fun m => m.disposal d.config now = how) =
      (Map.retain (fun _ m => m.disposal d.config now = how) d.trackedMessages).values := by
    simp only [Map.values, Map.retain, Multiset.filter_map, decide_eq_true_eq]
    rfl
  rw [Lists, hvalues]
  have hsome : (some ∘ g : TrackedMessage → Option TrackedMessage) = Option.map g ∘ some := rfl
  rw [Multiset.map_map, hsome, ← Multiset.map_map, Map.map_some_values, Multiset.map_map]
  refine Multiset.map_congr rfl fun id hid => ?_
  obtain ⟨m, hm⟩ := Map.mem_keys_iff.mp hid
  obtain ⟨hlookup, hhow⟩ := Map.mem_retain_entries.mp hm
  rw [Function.comp_apply, hm, show d.getTracked id = some m from hlookup, Option.map_some,
    Option.map_some, hfg m (of_decide_eq_true hhow)]

theorem Lists.add {f : TrackedMessage → TrackedMessage} {ids ids' : Finset Uuid}
    {messages messages' : Multiset TrackedMessage} (h : d.Lists f ids messages)
    (h' : d.Lists f ids' messages') (hdisjoint : Disjoint ids ids') :
    d.Lists f (ids ∪ ids') (messages + messages') := by
  rw [Lists, ← Finset.disjUnion_eq_union ids ids' hdisjoint, Finset.disjUnion_val,
    Multiset.map_add, Multiset.map_add]
  exact congrArg₂ (· + ·) h h'

/-! ## The counts -/

theorem countStatus_add_up (messages : Multiset TrackedMessage) :
    (messages.filter fun m => m.status = .pending).card +
      (messages.filter fun m => m.status = .sent).card +
      (messages.filter fun m => m.status = .confirmed).card +
      (messages.filter fun m => m.status = .failed).card +
      (messages.filter fun m => m.status = .cancelled).card = messages.card := by
  induction messages using Multiset.induction with
  | empty => rfl
  | cons m messages ih =>
    cases hstatus : m.status <;> simp [hstatus] <;> omega

theorem countsAddUp (d : DeliveryTracker) : d.CountsAddUp := by
  have sum := countStatus_add_up d.trackedMessages.values
  have total := Map.card_values d.trackedMessages
  refine ⟨congrArg UInt32.ofNat total, ?_, fun few => ?_⟩
  · simp only [getStats, countStatus, ← UInt32.ofNat_add, sum]
  · rw [total] at sum
    simp only [getStats, countStatus, total]
    rw [UInt32.toNat_ofNat_of_lt' few, UInt32.toNat_ofNat_of_lt', UInt32.toNat_ofNat_of_lt',
      UInt32.toNat_ofNat_of_lt', UInt32.toNat_ofNat_of_lt', UInt32.toNat_ofNat_of_lt', sum]
    · exact ⟨rfl, rfl⟩
    all_goals
      show _ < 2 ^ 32
      omega

/-! ## The clean-up -/

theorem kept_iff (d : DeliveryTracker) (now : Timestamp) (id : Uuid) (m : TrackedMessage) :
    (d.cleanup now).1.getTracked id = some m ↔
      d.getTracked id = some m ∧ ¬ m.Leaves d.config now := by
  rw [getTracked_cleanup, Option.filter_eq_some_iff, decide_eq_true_iff, disposal_kept_iff]

theorem removed_iff {id : Uuid} (h : d.getTracked id = some m) :
    (d.cleanup now).1.getTracked id = none ↔ m.disposal d.config now ≠ .kept := by
  rw [getTracked_cleanup, h, Option.filter_some]
  simp

/-- Every clean-up is a partition of the messages. -/
theorem cleansUp (d : DeliveryTracker) (now : Timestamp) : d.CleansUp now := by
  have hcompleted := d.lists_disposed .completed now (f := TrackedMessage.closed) (g := id)
    fun m => closed_of_completed
  have hexhausted := d.lists_disposed .exhausted now (f := TrackedMessage.closed)
    (g := TrackedMessage.markFailed) fun m => closed_of_exhausted
  have hexpired := d.lists_disposed .expired now (f := id) (g := id) fun m _ => rfl
  rw [Multiset.map_id] at hcompleted hexpired
  refine ⟨d.kept_iff now, ⟨d.disposedIds .completed now ∪ d.disposedIds .exhausted now,
    d.disposedIds .expired now, ?_, fun id => ?_, ?_, hexpired⟩, fun m hm => ?_,
    countsAddUp d, countsAddUp (d.cleanup now).1⟩
  · rw [Finset.disjoint_union_left]
    exact ⟨disjoint_disposedIds (by decide), disjoint_disposedIds (by decide)⟩
  · simp only [Finset.mem_union, mem_disposedIds]
    cases hid : d.getTracked id with
    | none => simp
    | some m =>
      rw [removed_iff hid]
      cases hhow : m.disposal d.config now <;> simp [hhow]
  · exact hcompleted.add hexhausted (disjoint_disposedIds (by decide))
  · rcases Multiset.mem_add.mp hm with hm | hm
    · exact disposal_completed_iff.mp (Multiset.mem_filter.mp hm).2
    · obtain ⟨n, -, rfl⟩ := Multiset.mem_map.mp hm
      rfl

/-! ## The last attempt -/

/-- A clean-up keeps the messages that are in flight. -/
def SparesInFlight (d : DeliveryTracker) (call : CoreTrackerCall × Timestamp) : Prop :=
  call.1 = .cleanup → ∀ id m, d.getTracked id = some m → m.InFlight d.config call.2 →
    (d.coreStep call).1.getTracked id = some m

/-- A clean-up finds no message in flight with its last attempt. -/
def NoLastInFlight (d : DeliveryTracker) (call : CoreTrackerCall × Timestamp) : Prop :=
  call.1 = .cleanup → ∀ id m, d.getTracked id = some m → m.InFlight d.config call.2 →
    m.attemptCount < m.maxRetries

/-- A message in flight is to go exactly if its attempts are used up. -/
theorem leaves_of_inFlight (h : m.InFlight config now) :
    m.Leaves config now ↔ m.maxRetries ≤ m.attemptCount := by
  obtain ⟨hsent, htimeout, -⟩ := h
  simp [TrackedMessage.Leaves, TrackedMessage.isFinished, hsent, htimeout]

theorem sparesInFlight_iff (d : DeliveryTracker) (call : CoreTrackerCall × Timestamp) :
    d.SparesInFlight call ↔ d.NoLastInFlight call := by
  obtain ⟨op, now⟩ := call
  refine imp_congr_right fun hcleanup => forall₂_congr fun id m => ?_
  refine imp_congr_right fun hm => imp_congr_right fun hflight => ?_
  have hstep : (d.coreStep (op, now)).1 = (d.cleanup now).1 := by
    rw [show op = .cleanup from hcleanup]
    rfl
  rw [hstep, kept_iff, leaves_of_inFlight hflight, Nat.not_le, and_iff_right hm]

/-- In every history the clean-ups keep what is in flight exactly as long as they find
nothing in flight with its last attempt. -/
theorem sparesInFlight_run_iff (config : DeliveryConfig)
    (calls : List (CoreTrackerCall × Timestamp)) :
    Along coreStep SparesInFlight (withConfig config) calls ↔
      Along coreStep NoLastInFlight (withConfig config) calls :=
  along_congr sparesInFlight_iff

/-- One attempt for every message. -/
def oneAttempt : DeliveryConfig := { DeliveryConfig.default with maxRetries := 1 }

def sentOnce : Uuid := ⟨List.Vector.replicate 16 3⟩

/-- A message is sent. -/
def trackAndSend : List (CoreTrackerCall × Timestamp) :=
  [(.trackMessage sentOnce PeerId.broadcast [1], ⟨0⟩), (.markSent sentOnce, ⟨0⟩)]

/-- The message with its only attempt. -/
def inFirstFlight : TrackedMessage where
  messageId := sentOnce
  recipient := PeerId.broadcast
  status := .sent
  payload := [1]
  attempts := [⟨1, ⟨0⟩, fromMillis 500⟩]
  createdAt := ⟨0⟩
  confirmedAt := none
  maxRetries := 1

/-- A millisecond after it was sent, the clean-up gives the message up. -/
theorem only_attempt_given_up :
    (run coreStep (withConfig oneAttempt) trackAndSend).getTracked sentOnce = some inFirstFlight ∧
      inFirstFlight.InFlight oneAttempt ⟨1⟩ ∧
      (run coreStep (withConfig oneAttempt)
        (trackAndSend ++ [(.cleanup, ⟨1⟩)])).getTracked sentOnce = none ∧
      ¬ Along coreStep SparesInFlight (withConfig oneAttempt)
        (trackAndSend ++ [(.cleanup, ⟨1⟩)]) := by
  have htracked : (run coreStep (withConfig oneAttempt) trackAndSend).getTracked sentOnce =
      some inFirstFlight := by decide +kernel
  have hflight : inFirstFlight.InFlight oneAttempt ⟨1⟩ :=
    ⟨rfl, by decide +kernel, _, rfl, by decide +kernel⟩
  have hgone : (run coreStep (withConfig oneAttempt)
      (trackAndSend ++ [(.cleanup, ⟨1⟩)])).getTracked sentOnce = none := by decide +kernel
  refine ⟨htracked, hflight, hgone, fun halong => ?_⟩
  have hspares := (along_append.mp halong).2.1 rfl sentOnce inFirstFlight htracked hflight
  rw [← run_concat, hgone] at hspares
  cases hspares

section

variable {order : Map.KeyOrder d.trackedMessages} {maxCount : ℕ}

/-- The clean-up leaves as many messages as are allowed, counts the others, which are no
younger than any that stays, and changes none that stays. -/
structure KeepsNewest (d : DeliveryTracker) (maxCount : ℕ)
    (order : Map.KeyOrder d.trackedMessages) : Prop where
  left : Map.size (d.cleanupByCount maxCount fun _ => order.entries).1.trackedMessages =
    min (Map.size d.trackedMessages) maxCount
  count : (d.cleanupByCount maxCount fun _ => order.entries).2 =
    Map.size d.trackedMessages - min (Map.size d.trackedMessages) maxCount
  older : ∀ id m id' m', d.getTracked id = some m →
    (d.cleanupByCount maxCount fun _ => order.entries).1.getTracked id = none →
    (d.cleanupByCount maxCount fun _ => order.entries).1.getTracked id' = some m' →
      m.createdAt.asMillis ≤ m'.createdAt.asMillis
  unchanged : ∀ id m, (d.cleanupByCount maxCount fun _ => order.entries).1.getTracked id = some m →
    d.getTracked id = some m

/-- The entries by their age, the oldest in front. -/
def byAge (d : DeliveryTracker) (order : Map.KeyOrder d.trackedMessages) :
    List (Uuid × TrackedMessage) :=
  order.entries.mergeSort fun a b => a.2.createdAt.asMillis ≤ b.2.createdAt.asMillis

theorem mem_byAge (order : Map.KeyOrder d.trackedMessages) {id : Uuid} :
    (id, m) ∈ d.byAge order ↔ d.getTracked id = some m := by
  rw [byAge, List.mem_mergeSort, order.mem_entries, getTracked]

theorem keys_byAge (order : Map.KeyOrder d.trackedMessages) :
    ((d.byAge order).map Prod.fst).Perm order.keys := by
  rw [← order.keys_entries]
  exact (List.mergeSort_perm _ _).map Prod.fst

theorem nodup_keys_byAge (order : Map.KeyOrder d.trackedMessages) :
    ((d.byAge order).map Prod.fst).Nodup :=
  (keys_byAge order).nodup_iff.mpr order.nodup

theorem length_byAge (order : Map.KeyOrder d.trackedMessages) :
    (d.byAge order).length = Map.size d.trackedMessages := by
  rw [← order.length_keys, ← (keys_byAge order).length_eq, List.length_map]

theorem pairwise_byAge (order : Map.KeyOrder d.trackedMessages) :
    (d.byAge order).Pairwise fun a b => a.2.createdAt.asMillis ≤ b.2.createdAt.asMillis := by
  refine (List.pairwise_mergeSort ?_ ?_ _).imp of_decide_eq_true
  · intro a b c hab hbc
    exact decide_eq_true (UInt64.le_trans (of_decide_eq_true hab) (of_decide_eq_true hbc))
  · intro a b
    rw [Bool.or_eq_true, decide_eq_true_eq, decide_eq_true_eq]
    exact UInt64.le_total _ _

/-- The ids of the oldest messages, as many as are over the limit. -/
def overLimit (d : DeliveryTracker) (maxCount : ℕ) (order : Map.KeyOrder d.trackedMessages) :
    List Uuid :=
  ((d.byAge order).take (Map.size d.trackedMessages - maxCount)).map Prod.fst

theorem length_overLimit :
    (d.overLimit maxCount order).length = Map.size d.trackedMessages - maxCount := by
  rw [overLimit, List.length_map, List.length_take, length_byAge]
  omega

theorem cleanupByCount_eq :
    d.cleanupByCount maxCount (fun _ => order.entries) =
      ({ d with trackedMessages :=
          (d.overLimit maxCount order).foldl (fun m id => m.erase id) d.trackedMessages },
        (d.overLimit maxCount order).length) := by
  rw [cleanupByCount]
  split_ifs with hwithin
  · have hnone : d.overLimit maxCount order = [] := by
      rw [← List.length_eq_zero_iff, length_overLimit, Nat.sub_eq_zero_of_le hwithin]
    rw [hnone]
    rfl
  · rfl

theorem getTracked_cleanupByCount (id : Uuid) :
    (d.cleanupByCount maxCount fun _ => order.entries).1.getTracked id =
      if id ∈ d.overLimit maxCount order then none else d.getTracked id := by
  rw [cleanupByCount_eq]
  exact Map.lookup_foldl_erase _ _ id

/-- What is over the limit is no younger than what is not. -/
theorem overLimit_older {id id' : Uuid} {m' : TrackedMessage} (hm : d.getTracked id = some m)
    (hover : id ∈ d.overLimit maxCount order) (hm' : d.getTracked id' = some m')
    (hleft : id' ∉ d.overLimit maxCount order) :
    m.createdAt.asMillis ≤ m'.createdAt.asMillis := by
  have hsplit := List.take_append_drop (Map.size d.trackedMessages - maxCount) (d.byAge order)
  have hsorted := pairwise_byAge order
  rw [← hsplit, List.pairwise_append] at hsorted
  obtain ⟨⟨_, n⟩, hfront, rfl⟩ := List.mem_map.mp hover
  have hn := (mem_byAge order).mp (List.mem_of_mem_take hfront)
  obtain rfl : n = m := Option.some.inj (hn.symm.trans hm)
  have hback := (mem_byAge order).mpr hm'
  rw [← hsplit, List.mem_append] at hback
  rcases hback with hback | hback
  · exact absurd (List.mem_map_of_mem (f := Prod.fst) hback) hleft
  · exact hsorted.2.2 _ hfront _ hback

/-- **The clean-up by count keeps the newest messages, whatever the order of the table.** -/
theorem cleanupByCount_keepsNewest (d : DeliveryTracker) (maxCount : ℕ)
    (order : Map.KeyOrder d.trackedMessages) : d.KeepsNewest maxCount order where
  left := by
    have hnodup : (d.overLimit maxCount order).Nodup :=
      (nodup_keys_byAge order).sublist ((List.take_sublist _ _).map Prod.fst)
    have hmem : ∀ id ∈ d.overLimit maxCount order, id ∈ d.trackedMessages := by
      intro id hid
      refine (order.mem id).mp ((keys_byAge order).mem_iff.mp ?_)
      exact ((List.take_sublist _ _).map Prod.fst).subset hid
    have hsize := Map.size_foldl_erase hnodup hmem
    rw [length_overLimit] at hsize
    rw [cleanupByCount_eq]
    dsimp only
    omega
  count := by
    rw [cleanupByCount_eq, length_overLimit]
    omega
  older := by
    intro id m id' m' hm hgone hm'
    rw [getTracked_cleanupByCount] at hgone hm'
    split_ifs at hgone hm' with hover hleft
    · exact overLimit_older hm hover hm' hleft
    · rw [hm] at hgone
      cases hgone
  unchanged := fun _ _ => getTracked_of_cleanupByCount

end

end DeliveryTracker

end Bitchat
