import Bitchat.Delivery

/-!
# Agreement on retries

The two trackers hold the same messages after the same calls. What is ready for a retry
they decide differently: the runtime only asks whether a message may be sent again, the
core also whether it has been sent and its delay is over. So they agree at a time exactly
if no message is waiting then, for its first attempt or for its next.
-/
namespace Bitchat
open Rust

/-- A call that both trackers have. -/
inductive RetryOp where
  | track (recipient : PeerId) (payload : Bytes)
  | markSent
  | confirm
  | fail
  deriving DecidableEq

structure RetryCall where
  op : RetryOp
  messageId : Uuid
  now : Timestamp

namespace RetryCall

def core (c : RetryCall) : CoreTrackerCall × Timestamp :=
  match c.op with
  | .track recipient payload => (.trackMessage c.messageId recipient payload, c.now)
  | .markSent => (.markSent c.messageId, c.now)
  | .confirm => (.confirmDelivery c.messageId, c.now)
  | .fail => (.markFailed c.messageId, c.now)

def runtime (c : RetryCall) : RuntimeTrackerCall × Timestamp :=
  match c.op with
  | .track recipient payload => (.trackMessage c.messageId recipient payload, c.now)
  | .markSent => (.markSent c.messageId, c.now)
  | .confirm => (.markConfirmed c.messageId, c.now)
  | .fail => (.markFailed c.messageId, c.now)

/-- What the call makes of the entry of its message. -/
def write (c : RetryCall) (config : DeliveryConfig) (entry : Option TrackedMessage) :
    Option TrackedMessage :=
  match c.op with
  | .track recipient payload =>
    some (TrackedMessage.new c.messageId recipient payload config.maxRetries c.now)
  | .markSent => entry.map (Mark.sent.apply config c.now)
  | .confirm => entry.map (Mark.confirmed.apply config c.now)
  | .fail => entry.map (Mark.failed.apply config c.now)

/-- The calls for its message since it was tracked. -/
def extend (c : RetryCall) (since : Option (List RetryCall)) : Option (List RetryCall) :=
  match c.op with
  | .track _ _ => some []
  | _ => since.map (· ++ [c])

end RetryCall

/-- The calls for a message since it was tracked last, if it was. -/
def sinceTracked (id : Uuid) (calls : List RetryCall) : Option (List RetryCall) :=
  calls.foldl (fun since c => if c.messageId = id then c.extend since else since) none

def sends (since : List RetryCall) : ℕ := since.countP fun c => c.op = .markSent

/-- The delay after an attempt, given the number of attempts before it. -/
def DeliveryConfig.retryDelay (config : DeliveryConfig) (attempts : ℕ) : ℕ :=
  min (fromMillis (config.backoffMillis (attempts % 2 ^ 32))) config.maxRetryDelay

/-- A message that was not sent yet, or that was sent last and whose delay is not over. -/
def Waits (config : DeliveryConfig) (now : Timestamp) (since : List RetryCall) : Prop :=
  sends since % 2 ^ 32 < config.maxRetries ∧
    match since.getLast? with
    | none => True
    | some last => last.op = .markSent ∧
        elapsedSince now last.now < config.retryDelay (sends since - 1)

/-- A message as the calls since it was tracked have left it. -/
structure Replays (config : DeliveryConfig) (since : List RetryCall) (m : TrackedMessage) :
    Prop where
  maxRetries : m.maxRetries = config.maxRetries
  attempts : m.attempts.length = sends since
  latest : match since.getLast? with
    | none => m.status = .pending
    | some last => last.op = .markSent ∧ m.status = .sent ∧
          (∃ n, m.attempts.getLast? = some ⟨n, last.now, config.retryDelay (sends since - 1)⟩) ∨
        last.op ≠ .markSent ∧ m.isFinished = true

namespace TrackedMessage

variable {config : DeliveryConfig} {since : List RetryCall} {m : TrackedMessage}

theorem replays_new (id : Uuid) (recipient : PeerId) (payload : Bytes) (now : Timestamp) :
    Replays config [] (new id recipient payload config.maxRetries now) := ⟨rfl, rfl, rfl⟩

theorem nextRetryDelay_eq (m : TrackedMessage) (config : DeliveryConfig) :
    m.nextRetryDelay config = config.retryDelay m.attempts.length := by
  unfold nextRetryDelay DeliveryConfig.retryDelay attemptCount
  simp only
  split_ifs <;> omega

theorem canRetry_iff (m : TrackedMessage) : m.canRetry = true ↔
    m.attempts.length % 2 ^ 32 < m.maxRetries ∧ (m.status = .pending ∨ m.status = .sent) := by
  rw [canRetry, Bool.and_eq_true, Bool.or_eq_true, decide_eq_true_iff, beq_iff_eq, beq_iff_eq]
  rfl

theorem replays_markSent (h : Replays config since m) {c : RetryCall} (hsent : c.op = .markSent) :
    Replays config (since ++ [c]) (m.markSent (m.nextRetryDelay config) c.now) := by
  have hcount : sends (since ++ [c]) = sends since + 1 := by simp [sends, hsent]
  refine ⟨h.maxRetries, ?_, ?_⟩
  · simp [markSent, hcount, h.attempts]
  · rw [List.getLast?_concat]
    left
    refine ⟨hsent, rfl, m.attemptCount + 1, ?_⟩
    simp [markSent, hcount, nextRetryDelay_eq, h.attempts]

theorem replays_finish (h : Replays config since m) {c : RetryCall} (hsent : c.op ≠ .markSent)
    {m' : TrackedMessage} (hretries : m'.maxRetries = m.maxRetries)
    (hattempts : m'.attempts = m.attempts) (hfinished : m'.isFinished = true) :
    Replays config (since ++ [c]) m' := by
  have hcount : sends (since ++ [c]) = sends since := by simp [sends, hsent]
  refine ⟨hretries.trans h.maxRetries, ?_, ?_⟩
  · rw [hattempts, hcount]
    exact h.attempts
  · rw [List.getLast?_concat]
    exact Or.inr ⟨hsent, hfinished⟩

/-- A message may be sent again but is not ready exactly if it waits. -/
theorem waits_iff (h : Replays config since m) (now : Timestamp) :
    (m.canRetry = true ∧ m.isReadyForRetry now = false) ↔ Waits config now since := by
  have hlatest := h.latest
  unfold Waits isReadyForRetry
  rw [canRetry_iff, h.attempts, h.maxRetries]
  cases hlast : since.getLast? with
  | none =>
    rw [hlast] at hlatest
    have hnone : m.attempts.getLast? = none := by
      obtain rfl := List.getLast?_eq_none_iff.mp hlast
      rw [List.getLast?_eq_none_iff, ← List.length_eq_zero_iff]
      exact h.attempts
    simp [hnone, show m.status = .pending from hlatest]
  | some last =>
    rw [hlast] at hlatest
    rcases hlatest with ⟨hop, hstatus, n, hattempt⟩ | ⟨hop, hfinished⟩
    · simp only [hattempt, hstatus, hop, or_true, and_true, true_and]
      refine and_congr_right fun hmore => ?_
      have hretry : m.canRetry = true := by
        rw [canRetry_iff, h.attempts, h.maxRetries, hstatus]
        exact ⟨hmore, Or.inr rfl⟩
      simp [hretry]
    · have hover : ¬ (m.status = .pending ∨ m.status = .sent) := by
        rintro (hstatus | hstatus) <;> simp [isFinished, hstatus] at hfinished
      simp [hover, hop]

end TrackedMessage

/-- What a tracker has for an id is what the calls since it was tracked have left. -/
def Replayed (config : DeliveryConfig) (since : Option (List RetryCall))
    (entry : Option TrackedMessage) : Prop :=
  match since, entry with
  | none, none => True
  | some since, some m => Replays config since m
  | _, _ => False

namespace Replayed

variable {config : DeliveryConfig}

theorem of_some {since : List RetryCall} {entry : Option TrackedMessage}
    (h : Replayed config (some since) entry) : ∃ m, entry = some m ∧ Replays config since m := by
  cases entry with
  | none => exact h.elim
  | some m => exact ⟨m, rfl, h⟩

theorem of_entry {since : Option (List RetryCall)} {m : TrackedMessage}
    (h : Replayed config since (some m)) :
    ∃ calls, since = some calls ∧ Replays config calls m := by
  cases since with
  | none => exact h.elim
  | some calls => exact ⟨calls, rfl, h⟩

theorem map {since : Option (List RetryCall)} {entry : Option TrackedMessage}
    (h : Replayed config since entry) {extend : List RetryCall → List RetryCall}
    {write : TrackedMessage → TrackedMessage}
    (hnext : ∀ calls m, Replays config calls m → Replays config (extend calls) (write m)) :
    Replayed config (since.map extend) (entry.map write) := by
  cases since with
  | none =>
    cases entry with
    | none => trivial
    | some m => exact h.elim
  | some calls =>
    obtain ⟨m, rfl, hm⟩ := h.of_some
    exact hnext calls m hm

/-- A call extends the calls of its message. -/
theorem write {since : Option (List RetryCall)} {entry : Option TrackedMessage}
    (h : Replayed config since entry) (c : RetryCall) :
    Replayed config (c.extend since) (c.write config entry) := by
  unfold RetryCall.extend RetryCall.write
  cases hop : c.op with
  | track recipient payload =>
    exact TrackedMessage.replays_new c.messageId recipient payload c.now
  | markSent => exact h.map fun _ _ hm => TrackedMessage.replays_markSent hm hop
  | confirm =>
    exact h.map fun _ _ hm => TrackedMessage.replays_finish hm (by simp [hop]) rfl rfl rfl
  | fail =>
    exact h.map fun _ _ hm => TrackedMessage.replays_finish hm (by simp [hop]) rfl rfl rfl

end Replayed

namespace DeliveryTracker

variable {config : DeliveryConfig}

theorem run_lockstep (d : DeliveryTracker) (calls : List RetryCall) :
    run runtimeStep d (calls.map RetryCall.runtime) =
      run coreStep d (calls.map RetryCall.core) := by
  induction calls generalizing d with
  | nil => rfl
  | cons c rest ih =>
    have hstep : (d.runtimeStep c.runtime).1 = (d.coreStep c.core).1 := by
      unfold RetryCall.runtime RetryCall.core
      cases c.op <;> rfl
    rw [List.map_cons, List.map_cons, run_cons, run_cons, hstep]
    exact ih _

theorem coreStep_config (d : DeliveryTracker) (c : RetryCall) :
    (d.coreStep c.core).1.config = d.config := by
  have hmark (mark : Mark) : (d.markMessage mark c.messageId c.now).1.config = d.config := by
    unfold markMessage
    cases d.getTracked c.messageId <;> rfl
  unfold RetryCall.core
  cases c.op with
  | track recipient payload => rfl
  | markSent => exact hmark .sent
  | confirm => exact hmark .confirmed
  | fail => exact hmark .failed

theorem getTracked_coreStep (d : DeliveryTracker) (c : RetryCall) (id : Uuid) :
    (d.coreStep c.core).1.getTracked id =
      if id = c.messageId then c.write d.config (d.getTracked c.messageId)
      else d.getTracked id := by
  unfold RetryCall.core RetryCall.write
  cases c.op with
  | track recipient payload =>
    exact d.getTracked_trackMessage c.messageId recipient payload c.now id
  | markSent => exact d.getTracked_markMessage .sent c.messageId c.now id
  | confirm => exact d.getTracked_markMessage .confirmed c.messageId c.now id
  | fail => exact d.getTracked_markMessage .failed c.messageId c.now id

theorem replayed_run (config : DeliveryConfig) (calls : List RetryCall) (id : Uuid) :
    (run coreStep (withConfig config) (calls.map RetryCall.core)).config = config ∧
      Replayed config (sinceTracked id calls)
        ((run coreStep (withConfig config) (calls.map RetryCall.core)).getTracked id) := by
  induction calls using List.reverseRecOn with
  | nil =>
    refine ⟨rfl, ?_⟩
    show Replayed config none ((withConfig config).getTracked id)
    rw [getTracked_withConfig]
    trivial
  | append_singleton calls c ih =>
    obtain ⟨hconfig, hreplayed⟩ := ih
    rw [List.map_append, List.map_singleton, run_concat, coreStep_config, getTracked_coreStep,
      sinceTracked, List.foldl_concat, hconfig]
    refine ⟨rfl, ?_⟩
    by_cases hid : c.messageId = id
    · rw [if_pos hid, if_pos hid.symm, hid]
      exact hreplayed.write c
    · rw [if_neg hid, if_neg (Ne.symm hid)]
      exact hreplayed

/-- The answers are the same if nothing may be sent again and is not ready. -/
theorem retries_eq_iff (d : DeliveryTracker) (now : Timestamp) :
    d.getRetryReadyMessages = d.getReadyForRetry now ↔
      ∀ id m, d.getTracked id = some m →
        ¬ (m.canRetry = true ∧ m.isReadyForRetry now = false) := by
  have hready (m : TrackedMessage) (h : m.isReadyForRetry now = true) : m.canRetry = true := by
    unfold TrackedMessage.isReadyForRetry at h
    cases hlast : m.attempts.getLast? with
    | none => simp [hlast] at h
    | some last =>
      rw [hlast, Bool.and_eq_true] at h
      exact h.1
  constructor
  · rintro heq id m hm ⟨hretry, hwaiting⟩
    have hmem : m ∈ d.trackedMessages.values := Map.mem_values.mpr ⟨id, hm⟩
    have hin : m ∈ d.getRetryReadyMessages := Multiset.mem_filter.mpr ⟨hmem, hretry⟩
    rw [heq] at hin
    have hdue := (Multiset.mem_filter.mp hin).2
    rw [hwaiting] at hdue
    cases hdue
  · intro h
    refine Multiset.filter_congr fun m hmem => ?_
    obtain ⟨id, hm⟩ := Map.mem_values.mp hmem
    constructor
    · intro hretry
      by_contra hwaiting
      exact h id m hm ⟨hretry, by simpa using hwaiting⟩
    · exact hready m

/-- After the same calls the trackers agree at a time exactly if no message waits then. -/
theorem retries_agree_iff (config : DeliveryConfig) (calls : List RetryCall) (now : Timestamp) :
    (run runtimeStep (withConfig config) (calls.map RetryCall.runtime)).getRetryReadyMessages =
        (run coreStep (withConfig config) (calls.map RetryCall.core)).getReadyForRetry now ↔
      ∀ id since, sinceTracked id calls = some since → ¬ Waits config now since := by
  rw [run_lockstep, retries_eq_iff]
  have hreplayed := fun id => (replayed_run config calls id).2
  constructor
  · intro h id since hsince hwaits
    obtain ⟨m, hm, hreplays⟩ := (hsince ▸ hreplayed id).of_some
    exact h id m hm ((TrackedMessage.waits_iff hreplays now).mpr hwaits)
  · intro h id m hm hwaiting
    obtain ⟨since, hsince, hreplays⟩ := (hm ▸ hreplayed id).of_entry
    exact h id since hsince ((TrackedMessage.waits_iff hreplays now).mp hwaiting)

/-- A message that is tracked and was not sent yet. -/
def unsent : List RetryCall := [⟨.track PeerId.broadcast [], ⟨List.Vector.replicate 16 1⟩, ⟨0⟩⟩]

theorem retries_disagree :
    (run runtimeStep (withConfig .default) (unsent.map RetryCall.runtime)).getRetryReadyMessages ≠
      (run coreStep (withConfig .default) (unsent.map RetryCall.core)).getReadyForRetry ⟨0⟩ := by
  decide

end DeliveryTracker

end Bitchat
