import Bitchat.EnhancedDelivery
import Bitchat.Rust.RecentSet

/-!
# Remembered receipts

The receipt manager remembers the messages that it has acknowledged in a hash set, and a
clean-up takes as many ids out of it as are over the limit, in the order of iteration. That
order knows nothing of age, so an id that was marked last may be the first to go, and its
receipt is sent again.
-/
namespace Bitchat
open Rust

/-- An order of iteration lists every id of a set once. -/
structure IterationOrder where
  order : ReceiptOrder
  nodup : ∀ ids, (order ids).Nodup
  mem : ∀ ids id, id ∈ order ids ↔ id ∈ ids

/-- The order in which an id comes before all others. -/
noncomputable def IterationOrder.startingWith (id : MessageId) : IterationOrder where
  order ids := if id ∈ ids then id :: (ids.erase id).toList else ids.toList
  nodup := by
    intro ids
    split_ifs
    · simp [Finset.nodup_toList]
    · exact ids.nodup_toList
  mem := by
    intro ids id'
    split_ifs with hid
    · rw [List.mem_cons, Finset.mem_toList, Finset.mem_erase]
      constructor
      · rintro (rfl | ⟨-, hid'⟩)
        · exact hid
        · exact hid'
      · intro hid'
        by_cases hsame : id' = id
        · exact .inl hsame
        · exact .inr ⟨hsame, hid'⟩
    · exact Finset.mem_toList

inductive ReceiptKind where
  | deliveryAck
  | readReceipt
  deriving DecidableEq

inductive ReceiptCall where
  | mark (kind : ReceiptKind) (messageId : MessageId)
  | cleanupOldReceipts (maxEntries : ℕ) (orders : ReceiptKind → IterationOrder)

/-- The id that a call marks as one of a kind. -/
def ReceiptCall.marks (kind : ReceiptKind) : ReceiptCall → Option MessageId
  | .mark kind' messageId => if kind' = kind then some messageId else none
  | .cleanupOldReceipts _ _ => none

namespace ReceiptManager

def sent (r : ReceiptManager) : ReceiptKind → Finset MessageId
  | .deliveryAck => r.sentDeliveryAcks
  | .readReceipt => r.sentReadReceipts

def shouldSend (r : ReceiptManager) : ReceiptKind → MessageId → Bool
  | .deliveryAck => r.shouldSendDeliveryAck
  | .readReceipt => r.shouldSendReadReceipt

def step (r : ReceiptManager) : ReceiptCall → ReceiptManager × Unit
  | .mark .deliveryAck messageId => (r.markDeliveryAckSent messageId, ())
  | .mark .readReceipt messageId => (r.markReadReceiptSent messageId, ())
  | .cleanupOldReceipts maxEntries orders =>
    (r.cleanupOldReceipts maxEntries (orders .deliveryAck).order (orders .readReceipt).order, ())

/-- The ids of a kind in the order in which the calls mark them. -/
def marked (kind : ReceiptKind) (calls : List ReceiptCall) : List MessageId :=
  calls.filterMap (ReceiptCall.marks kind)

/-- A call, noted next to the ids that were marked before it. -/
def note (kind : ReceiptKind) (ids : List MessageId) (call : ReceiptCall) :
    List MessageId × Unit :=
  (ids ++ (call.marks kind).toList, ())

/-- If the call is a clean-up, the id is among the most recently marked ones that it is to
leave. -/
def RanksRecent (messageId : MessageId) (ids : List MessageId) (call : ReceiptCall) : Prop :=
  ∀ maxEntries orders, call = .cleanupOldReceipts maxEntries orders →
    messageId ∈ mostRecent maxEntries ids

/-- The id was marked, and was among the most recently marked ones at every clean-up since. -/
def StaysRecent (kind : ReceiptKind) (calls : List ReceiptCall) (messageId : MessageId) : Prop :=
  ∃ before call since, calls = before ++ call :: since ∧ call.marks kind = some messageId ∧
    Along (note kind) (RanksRecent messageId) (marked kind (before ++ [call])) since

/-- At every point of the run no receipt is sent again for an id that stays recent. -/
def SuppressesRecent (calls : List ReceiptCall) : Prop :=
  ∀ before, before <+: calls → ∀ kind messageId, StaysRecent kind before messageId →
    (run step new before).shouldSend kind messageId = false

/-- The ids over the limit that a clean-up comes across first. -/
def excess (ids : Finset MessageId) (maxEntries : ℕ) (order : IterationOrder) :
    Finset MessageId :=
  ((order.order ids).take (ids.card - maxEntries)).toFinset

/-- The clean-ups of the run come across no recently marked id among those over the limit. -/
def TrimsOldest (calls : List ReceiptCall) : Prop :=
  ∀ before maxEntries orders, before ++ [.cleanupOldReceipts maxEntries orders] <+: calls →
    ∀ kind, ∀ messageId ∈ excess ((run step new before).sent kind) maxEntries (orders kind),
      messageId ∉ mostRecent maxEntries (marked kind before)

variable {r : ReceiptManager} {kind : ReceiptKind} {messageId : MessageId}
  {calls : List ReceiptCall}

theorem sent_mark (kind' : ReceiptKind) (messageId : MessageId) :
    (r.step (.mark kind' messageId)).1.sent kind =
      if kind' = kind then insert messageId (r.sent kind) else r.sent kind := by
  cases kind' <;> cases kind <;> rfl

theorem sent_cleanup (maxEntries : ℕ) (orders : ReceiptKind → IterationOrder) :
    (r.step (.cleanupOldReceipts maxEntries orders)).1.sent kind =
      dropExcess (r.sent kind) maxEntries (orders kind).order := by
  cases kind <;> rfl

theorem dropExcess_eq (ids : Finset MessageId) (maxEntries : ℕ) (order : IterationOrder) :
    dropExcess ids maxEntries order.order = ids \ excess ids maxEntries order := by
  unfold dropExcess excess
  split_ifs with hover
  · rfl
  · have hnone : ids.card - maxEntries = 0 := by omega
    rw [hnone, List.take_zero, List.toFinset_nil, Finset.sdiff_empty]

theorem excess_subset (ids : Finset MessageId) (maxEntries : ℕ) (order : IterationOrder) :
    excess ids maxEntries order ⊆ ids := by
  intro id hid
  exact (order.mem ids id).mp (List.mem_of_mem_take (List.mem_toFinset.mp hid))

theorem card_excess (ids : Finset MessageId) (maxEntries : ℕ) (order : IterationOrder) :
    (excess ids maxEntries order).card = ids.card - maxEntries := by
  have hall : (order.order ids).length = ids.card := by
    have hsame : (order.order ids).toFinset = ids := by
      ext id
      rw [List.mem_toFinset, order.mem]
    rw [← List.toFinset_card_of_nodup (order.nodup ids), hsame]
  rw [excess, List.toFinset_card_of_nodup ((order.nodup ids).sublist (List.take_sublist _ _)),
    List.length_take, hall]
  omega

theorem mem_sent_cleanup {maxEntries : ℕ} {orders : ReceiptKind → IterationOrder} :
    messageId ∈ (r.step (.cleanupOldReceipts maxEntries orders)).1.sent kind ↔
      messageId ∈ r.sent kind ∧ messageId ∉ excess (r.sent kind) maxEntries (orders kind) := by
  rw [sent_cleanup, dropExcess_eq, Finset.mem_sdiff]

theorem marked_concat (kind : ReceiptKind) (calls : List ReceiptCall) (call : ReceiptCall) :
    marked kind (calls ++ [call]) = marked kind calls ++ (call.marks kind).toList := by
  rw [marked, List.filterMap_append, marked]
  cases hmarks : call.marks kind with
  | none => rw [List.filterMap_cons_none hmarks, List.filterMap_nil, Option.toList_none]
  | some id => rw [List.filterMap_cons_some hmarks, List.filterMap_nil, Option.toList_some]

theorem run_note (ids : List MessageId) (calls : List ReceiptCall) :
    run (note kind) ids calls = ids ++ marked kind calls := by
  induction calls using List.reverseRecOn with
  | nil => rw [run_nil, marked, List.filterMap_nil, List.append_nil]
  | append_singleton calls call ih =>
    rw [run_concat, ih, marked_concat, ← List.append_assoc, note]

/-- An id stays recent because it is marked now, or because it was recent and is not over
the limit now. -/
theorem staysRecent_concat (calls : List ReceiptCall) (call : ReceiptCall) :
    StaysRecent kind (calls ++ [call]) messageId ↔
      call.marks kind = some messageId ∨
        StaysRecent kind calls messageId ∧ RanksRecent messageId (marked kind calls) call := by
  have hhistory : ∀ before marking since, calls = before ++ marking :: since →
      run (note kind) (marked kind (before ++ [marking])) since = marked kind calls := by
    rintro before marking since rfl
    rw [run_note, marked, marked, marked, ← List.filterMap_append, List.append_assoc,
      List.singleton_append]
  constructor
  · rintro ⟨before, marking, since, hsplit, hmarks, halong⟩
    rcases List.eq_nil_or_concat' since with rfl | ⟨earlier, last, rfl⟩
    · obtain ⟨-, hcall⟩ := List.append_inj' hsplit rfl
      obtain rfl : call = marking := List.singleton_inj.mp hcall
      exact .inl hmarks
    · have hsplit' : calls ++ [call] = (before ++ marking :: earlier) ++ [last] := by
        rw [hsplit, List.append_assoc, List.cons_append]
      obtain ⟨hcalls, hcall⟩ := List.append_inj' hsplit' rfl
      obtain rfl : call = last := List.singleton_inj.mp hcall
      obtain ⟨hearlier, hlast, -⟩ := along_append.mp halong
      rw [hhistory before marking earlier hcalls] at hlast
      exact .inr ⟨⟨before, marking, earlier, hcalls, hmarks, hearlier⟩, hlast⟩
  · rintro (hmarks | ⟨⟨before, marking, since, hcalls, hmarks, halong⟩, hranks⟩)
    · exact ⟨calls, call, [], rfl, hmarks, trivial⟩
    · refine ⟨before, marking, since ++ [call], ?_, hmarks, along_append.mpr ⟨halong, ?_⟩⟩
      · rw [hcalls, List.append_assoc, List.cons_append]
      · rw [hhistory before marking since hcalls]
        exact ⟨hranks, trivial⟩

theorem ranksRecent_mark (kind' : ReceiptKind) (id : MessageId) (ids : List MessageId) :
    RanksRecent messageId ids (.mark kind' id) :=
  fun _ _ hcall => absurd hcall ReceiptCall.noConfusion

theorem ranksRecent_cleanup {ids : List MessageId} {maxEntries : ℕ}
    {orders : ReceiptKind → IterationOrder} :
    RanksRecent messageId ids (.cleanupOldReceipts maxEntries orders) ↔
      messageId ∈ mostRecent maxEntries ids := by
  constructor
  · intro h
    exact h maxEntries orders rfl
  · rintro h _ _ ⟨⟩
    exact h

/-- The set of a kind holds the ids that were marked last, and these are the ones that stay
recent. -/
structure RemembersRecent (kind : ReceiptKind) (calls : List ReceiptCall) : Prop where
  holds : HoldsMostRecent ((run step new calls).sent kind) (marked kind calls)
  recent : ∀ id, StaysRecent kind calls id ↔ id ∈ (run step new calls).sent kind

namespace RemembersRecent

theorem nil : RemembersRecent kind [] where
  holds := by
    cases kind <;> exact ⟨[], List.nil_suffix, rfl⟩
  recent := by
    intro id
    constructor
    · rintro ⟨before, call, since, hsplit, -⟩
      simp at hsplit
    · intro hid
      cases kind <;> exact absurd hid (Finset.notMem_empty id)

theorem mark (h : RemembersRecent kind calls) (kind' : ReceiptKind) (id : MessageId) :
    RemembersRecent kind (calls ++ [.mark kind' id]) where
  holds := by
    rw [run_concat, sent_mark, marked_concat, ReceiptCall.marks]
    split_ifs
    · exact h.holds.use id
    · rw [Option.toList_none, List.append_nil]
      exact h.holds
  recent := by
    intro id'
    rw [staysRecent_concat, h.recent, and_iff_left (ranksRecent_mark kind' id _), run_concat,
      sent_mark, ReceiptCall.marks]
    split_ifs
    · rw [Finset.mem_insert, Option.some_inj, eq_comm]
    · simp

/-- A clean-up that comes across no recent id first leaves just the recent ones. -/
theorem cleanup (h : RemembersRecent kind calls) {maxEntries : ℕ}
    {orders : ReceiptKind → IterationOrder}
    (hold : ∀ id ∈ excess ((run step new calls).sent kind) maxEntries (orders kind),
      id ∉ mostRecent maxEntries (marked kind calls)) :
    RemembersRecent kind (calls ++ [.cleanupOldReceipts maxEntries orders]) := by
  have hmarked : marked kind (calls ++ [.cleanupOldReceipts maxEntries orders]) =
      marked kind calls := by
    rw [marked_concat, ReceiptCall.marks, Option.toList_none, List.append_nil]
  have hsent : (run step new (calls ++ [.cleanupOldReceipts maxEntries orders])).sent kind =
      (run step new calls).sent kind ∩ (mostRecent maxEntries (marked kind calls)).toFinset := by
    rw [run_concat, sent_cleanup, dropExcess_eq]
    exact h.holds.sdiff_eq_inter (excess_subset _ maxEntries (orders kind))
      (card_excess _ maxEntries (orders kind)) hold
  constructor
  · rw [hsent, hmarked]
    exact h.holds.inter_mostRecent maxEntries
  · intro id
    rw [staysRecent_concat, ranksRecent_cleanup, h.recent, hsent, Finset.mem_inter,
      List.mem_toFinset, ReceiptCall.marks, or_iff_right nofun]

end RemembersRecent

theorem TrimsOldest.of_prefix {before : List ReceiptCall} (h : TrimsOldest calls)
    (hfront : before <+: calls) : TrimsOldest before :=
  fun earlier maxEntries orders hearlier => h earlier maxEntries orders (hearlier.trans hfront)

theorem remembersRecent_of_trimsOldest (h : TrimsOldest calls) : RemembersRecent kind calls := by
  induction calls using List.reverseRecOn with
  | nil => exact .nil
  | append_singleton before call ih =>
    have hbefore := ih (h.of_prefix (List.prefix_append before [call]))
    cases call with
    | mark kind' id => exact hbefore.mark kind' id
    | cleanupOldReceipts maxEntries orders =>
      exact hbefore.cleanup (h before maxEntries orders List.prefix_rfl kind)

/-- No call of the run changes the settings. -/
theorem shouldSend_run (calls : List ReceiptCall) :
    (run step new calls).shouldSend kind messageId = false ↔
      messageId ∈ (run step new calls).sent kind := by
  have henabled : (run step new calls).sendReadReceiptsEnabled = true ∧
      (run step new calls).sendDeliveryAcksEnabled = true := by
    refine run_invariant (P := fun _ _ => True) (I := fun r : ReceiptManager =>
      r.sendReadReceiptsEnabled = true ∧ r.sendDeliveryAcksEnabled = true) ?_ ⟨rfl, rfl⟩ along_true
    intro r call hr _
    cases call with
    | mark kind' id => cases kind' <;> exact hr
    | cleanupOldReceipts maxEntries orders => exact hr
  cases kind with
  | deliveryAck => simp [shouldSend, sent, shouldSendDeliveryAck, henabled.2]
  | readReceipt => simp [shouldSend, sent, shouldSendReadReceipt, henabled.1]

/-- **No receipt is sent again for a recent message in the runs whose clean-ups come across no
recently marked id first, and in no others.** -/
theorem suppressesRecent_iff (calls : List ReceiptCall) :
    SuppressesRecent calls ↔ TrimsOldest calls := by
  constructor
  · intro hsuppress
    induction calls using List.reverseRecOn with
    | nil =>
      intro before maxEntries orders hfront
      simp at hfront
    | append_singleton calls call ih =>
      have hcalls : TrimsOldest calls := ih fun before hfront =>
        hsuppress before (hfront.trans (List.prefix_append calls [call]))
      intro before maxEntries orders hfront kind id hexcess hrecent
      rcases List.prefix_concat_iff.mp hfront with hlast | hearlier
      · obtain ⟨rfl, hcall⟩ := List.append_inj' hlast rfl
        obtain rfl := List.singleton_inj.mp hcall
        have hstored := excess_subset _ maxEntries (orders kind) hexcess
        have hstays := (remembersRecent_of_trimsOldest hcalls).recent id |>.mpr hstored
        have hstill : StaysRecent kind (before ++ [.cleanupOldReceipts maxEntries orders]) id :=
          (staysRecent_concat before _).mpr (.inr ⟨hstays, ranksRecent_cleanup.mpr hrecent⟩)
        have hmem := (shouldSend_run _).mp (hsuppress _ List.prefix_rfl kind id hstill)
        rw [run_concat, mem_sent_cleanup] at hmem
        exact hmem.2 hexcess
      · exact hcalls before maxEntries orders hearlier kind id hexcess hrecent
  · intro htrims before hfront kind id hstays
    have hbefore : RemembersRecent kind before :=
      remembersRecent_of_trimsOldest (htrims.of_prefix hfront)
    exact (shouldSend_run before).mpr ((hbefore.recent id).mp hstays)

/-- Of two acknowledged messages a clean-up to one entry may forget the later one. -/
theorem not_suppressesRecent :
    let older : MessageId := ⟨List.Vector.replicate 32 0⟩
    let newer : MessageId := ⟨List.Vector.replicate 32 1⟩
    ¬ SuppressesRecent [.mark .deliveryAck older, .mark .deliveryAck newer,
      .cleanupOldReceipts 1 fun _ => .startingWith newer] := by
  intro older newer hsuppress
  have hne : newer ≠ older := by decide
  have hstays : StaysRecent .deliveryAck [.mark .deliveryAck older, .mark .deliveryAck newer,
      .cleanupOldReceipts 1 fun _ => .startingWith newer] newer := by
    refine ⟨[.mark .deliveryAck older], .mark .deliveryAck newer,
      [.cleanupOldReceipts 1 fun _ => .startingWith newer], rfl, rfl, ?_, trivial⟩
    rw [ranksRecent_cleanup]
    decide +kernel
  have hmem := (shouldSend_run _).mp (hsuppress _ List.prefix_rfl .deliveryAck newer hstays)
  have hcalls : [ReceiptCall.mark .deliveryAck older, .mark .deliveryAck newer,
      .cleanupOldReceipts 1 fun _ => .startingWith newer] =
        [.mark .deliveryAck older, .mark .deliveryAck newer] ++
          [.cleanupOldReceipts 1 fun _ => .startingWith newer] := rfl
  have hkept : (run step new [.mark .deliveryAck older, .mark .deliveryAck newer]).sent
      .deliveryAck = {newer, older} := rfl
  rw [hcalls, run_concat, mem_sent_cleanup, hkept] at hmem
  refine hmem.2 ?_
  simp [excess, IterationOrder.startingWith, Finset.card_pair hne]

end ReceiptManager

end Bitchat
