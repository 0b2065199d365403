import Bitchat.Delivery

/-!
# How deliveries end

A confirmed delivery stays confirmed and a failed or cancelled one is not sent
again, as long as the calls on the tracker are orderly: no finished message is
sent, and no confirmed one fails or is cancelled. The trackers do not check this.
-/
namespace Bitchat
open Rust

/-- What may become of a message that stays tracked. -/
structure TrackedMessage.Lasts (m m' : TrackedMessage) : Prop where
  confirmed : m.status = .confirmed → m'.status = .confirmed
  ended : m.status = .failed ∨ m.status = .cancelled → m'.status ≠ .pending ∧ m'.status ≠ .sent

namespace DeliveryTracker

def Lasting (d d' : DeliveryTracker) : Prop :=
  ∀ id m m', d.getTracked id = some m → d'.getTracked id = some m' → m.Lasts m'

/-- The time of the confirmation is known for the confirmed messages. -/
def DatesConfirmed (d : DeliveryTracker) : Prop :=
  ∀ id m, d.getTracked id = some m → (m.confirmedAt.isSome = true ↔ m.status = .confirmed)

/-- What holds between any two points of a run, and at each of them. -/
def KeepsOutcomes {ι : Type} (step : DeliveryTracker → ι → DeliveryTracker × TrackerAnswer)
    (d : DeliveryTracker) (calls : List ι) : Prop :=
  ∀ before later rest, calls = before ++ later ++ rest →
    (run step d before).Lasting (run step d (before ++ later)) ∧
      (run step d before).DatesConfirmed

end DeliveryTracker

namespace TrackedMessage

theorem Lasts.refl (m : TrackedMessage) : m.Lasts m where
  confirmed h := h
  ended h := by rcases h with h | h <;> simp [h]

theorem Lasts.trans {m m' m'' : TrackedMessage} (h : m.Lasts m') (h' : m'.Lasts m'') :
    m.Lasts m'' where
  confirmed hm := h'.confirmed (h.confirmed hm)
  ended hm := by
    obtain ⟨notPending, notSent⟩ := h.ended hm
    cases status : m'.status with
    | pending => exact absurd status notPending
    | sent => exact absurd status notSent
    | confirmed => simp [h'.confirmed status]
    | failed => exact h'.ended (.inl status)
    | cancelled => exact h'.ended (.inr status)

end TrackedMessage

namespace Mark

/-- The marks that keep the outcome of a message. -/
def Keeps (mark : Mark) (m : TrackedMessage) : Prop :=
  match mark with
  | .sent => m.isFinished = false
  | .confirmed => True
  | .failed => m.status ≠ .confirmed
  | .cancelled => m.status ≠ .confirmed

/-- Of a message that is dated when it is confirmed. -/
theorem keeps_iff (mark : Mark) (config : DeliveryConfig) (now : Timestamp) {m : TrackedMessage}
    (dated : m.confirmedAt.isSome = true ↔ m.status = .confirmed) :
    mark.Keeps m ↔ m.Lasts (mark.apply config now m) ∧
      ((mark.apply config now m).confirmedAt.isSome = true ↔
        (mark.apply config now m).status = .confirmed) := by
  have split : m.Lasts (mark.apply config now m) ↔
      (m.status = .confirmed → (mark.apply config now m).status = .confirmed) ∧
      (m.status = .failed ∨ m.status = .cancelled →
        (mark.apply config now m).status ≠ .pending ∧
          (mark.apply config now m).status ≠ .sent) :=
    ⟨fun h => ⟨h.confirmed, h.ended⟩, fun h => ⟨h.1, h.2⟩⟩
  rw [split]
  cases mark <;> cases status : m.status <;>
    simp_all [Keeps, apply, TrackedMessage.isFinished, TrackedMessage.markSent,
      TrackedMessage.markConfirmed, TrackedMessage.markFailed, TrackedMessage.markCancelled]

end Mark

namespace Deed

/-- An orderly mark keeps the outcome of the message it finds. -/
theorem orderly_mark_iff (kind : Mark) (id : Uuid) (d : DeliveryTracker) :
    (Deed.mark id kind).Orderly d ↔ ∀ m, d.getTracked id = some m → kind.Keeps m := by
  cases kind <;> simp [Orderly, Mark.Keeps]

/-- A deed brings in no message but the one it tracks. -/
theorem getTracked_of_performs {deed : Deed} {d d' : DeliveryTracker} (h : deed.Performs d d')
    {id : Uuid} {m' : TrackedMessage} (hm : d'.getTracked id = some m') :
    (∃ m, d.getTracked id = some m) ∨ deed.tracks = some id := by
  cases deed with
  | track key =>
    obtain ⟨m, _, _, h⟩ := h
    by_cases hid : id = key
    · exact .inr (by rw [hid]; rfl)
    · exact .inl ⟨m', ((h id).trans (if_neg hid)).symm.trans hm⟩
  | mark key kind =>
    obtain ⟨config, now, h⟩ := h
    rw [h id] at hm
    by_cases hid : id = key
    · rw [if_pos hid] at hm
      obtain ⟨m, hold, _⟩ := Option.map_eq_some_iff.mp hm
      exact .inl ⟨m, hid ▸ hold⟩
    · exact .inl ⟨m', (if_neg hid).symm.trans hm⟩
  | other => exact .inl ⟨m', h id m' hm⟩

variable {deed : Deed} {d d' : DeliveryTracker}

/-- Tracking a message that is not there yet leaves the others as they are. -/
theorem lasting_of_track {key : Uuid} (h : (Deed.track key).Performs d d')
    (dates : d.DatesConfirmed) (fresh : d.getTracked key = none) :
    d.Lasting d' ∧ d'.DatesConfirmed := by
  obtain ⟨new, pending, undated, h⟩ := h
  constructor
  · intro id m m' hm hm'
    rw [h id] at hm'
    by_cases hid : id = key
    · rw [hid, fresh] at hm
      cases hm
    · rw [if_neg hid, hm] at hm'
      exact Option.some.inj hm' ▸ .refl m
  · intro id m hm
    rw [h id] at hm
    by_cases hid : id = key
    · rw [if_pos hid] at hm
      rw [← Option.some.inj hm, pending, undated]
      decide
    · exact dates id m ((if_neg hid).symm.trans hm)

theorem lasting_of_removal (h : Deed.other.Performs d d') (dates : d.DatesConfirmed) :
    d.Lasting d' ∧ d'.DatesConfirmed := by
  constructor
  · intro id m m' hm hm'
    exact Option.some.inj (hm.symm.trans (h id m' hm')) ▸ .refl m
  · exact fun id m hm => dates id m (h id m hm)

/-- A mark keeps the outcomes exactly if it keeps that of the message it finds. -/
theorem lasting_iff_keeps {key : Uuid} {kind : Mark} (h : (Deed.mark key kind).Performs d d')
    (dates : d.DatesConfirmed) :
    d.Lasting d' ∧ d'.DatesConfirmed ↔ ∀ m, d.getTracked key = some m → kind.Keeps m := by
  obtain ⟨config, now, h⟩ := h
  constructor
  · rintro ⟨lasting, dates'⟩ m hm
    have after : d'.getTracked key = some (kind.apply config now m) := by
      rw [h key, if_pos rfl, hm, Option.map_some]
    exact (kind.keeps_iff config now (dates key m hm)).mpr
      ⟨lasting key m _ hm after, dates' key _ after⟩
  · intro keeps
    constructor
    · intro id m m' hm hm'
      rw [h id] at hm'
      by_cases hid : id = key
      · subst hid
        rw [if_pos rfl, hm, Option.map_some] at hm'
        rw [← Option.some.inj hm']
        exact ((kind.keeps_iff config now (dates id m hm)).mp (keeps m hm)).1
      · rw [if_neg hid, hm] at hm'
        exact Option.some.inj hm' ▸ .refl m
    · intro id m' hm'
      rw [h id] at hm'
      by_cases hid : id = key
      · subst hid
        rw [if_pos rfl] at hm'
        obtain ⟨m, hm, rfl⟩ := Option.map_eq_some_iff.mp hm'
        exact ((kind.keeps_iff config now (dates id m hm)).mp (keeps m hm)).2
      · exact dates id m' ((if_neg hid).symm.trans hm')

/-- A deed that tracks no message twice keeps the outcomes exactly if it is orderly. -/
theorem lasting_iff_orderly (h : deed.Performs d d') (dates : d.DatesConfirmed)
    (fresh : ∀ id, deed.tracks = some id → d.getTracked id = none) :
    d.Lasting d' ∧ d'.DatesConfirmed ↔ deed.Orderly d := by
  cases deed with
  | track key => exact iff_of_true (lasting_of_track h dates (fresh key rfl)) trivial
  | mark key kind => exact (lasting_iff_keeps h dates).trans (orderly_mark_iff kind key d).symm
  | other => exact iff_of_true (lasting_of_removal h dates) trivial

end Deed

namespace DeliveryTracker

section

variable {ι : Type} {step : DeliveryTracker → ι → DeliveryTracker × TrackerAnswer} {deed : ι → Deed}

/-- The ids that a list of calls starts to track. -/
def trackedIds (deed : ι → Deed) (calls : List ι) : List Uuid :=
  calls.filterMap fun call => (deed call).tracks

def Tracked (d : DeliveryTracker) (id : Uuid) : Prop := ∃ m, d.getTracked id = some m

theorem not_tracked_withConfig (config : DeliveryConfig) (id : Uuid) :
    ¬ (withConfig config).Tracked id := by
  simp [Tracked]

theorem datesConfirmed_withConfig (config : DeliveryConfig) :
    (withConfig config).DatesConfirmed := by
  intro id m hm
  simp at hm

theorem tracked_step (hperforms : ∀ d call, (deed call).Performs d (step d call).1)
    (d : DeliveryTracker) (call : ι) (id : Uuid) (h : (step d call).1.Tracked id) :
    d.Tracked id ∨ (deed call).tracks = some id := by
  obtain ⟨m, hm⟩ := h
  exact Deed.getTracked_of_performs (hperforms d call) hm

/-- Outcomes that every step keeps last over a run that does not track the message again. -/
theorem lasts_run (hperforms : ∀ d call, (deed call).Performs d (step d call).1)
    {d : DeliveryTracker} {calls : List ι} {id : Uuid} {m : TrackedMessage}
    (hkeeps : Along step (fun d call => d.Lasting (step d call).1) d calls)
    (hnew : id ∉ trackedIds deed calls) (hm : d.getTracked id = some m) :
    ∀ m', (run step d calls).getTracked id = some m' → m.Lasts m' := by
  induction calls generalizing d m with
  | nil =>
    intro m' hm'
    exact Option.some.inj (hm.symm.trans hm') ▸ .refl m
  | cons call rest ih =>
    have notLater : id ∉ trackedIds deed rest := fun h =>
      hnew (((List.sublist_cons_self call rest).filterMap _).mem h)
    intro m' hm'
    cases hnext : (step d call).1.getTracked id with
    | some next =>
      have first : m.Lasts next := hkeeps.1 id m next hm hnext
      exact first.trans (ih hkeeps.2 notLater hnext m' hm')
    | none =>
      -- a removed message does not come back
      have back : (run step (step d call).1 rest).Tracked id := ⟨m', hm'⟩
      rcases holds_run (tracked_step hperforms) back with ⟨next, h⟩ | h
      · rw [hnext] at h
        cases h
      · exact absurd h notLater

/-- What lasts over each step lasts over a part of a run that tracks each message once. -/
theorem lasting_between (hperforms : ∀ d call, (deed call).Performs d (step d call).1)
    {config : DeliveryConfig} {before later rest : List ι}
    (honce : (trackedIds deed (before ++ later ++ rest)).Nodup)
    (hkeeps : Along step (fun d call => d.Lasting (step d call).1)
      (run step (withConfig config) before) later) :
    (run step (withConfig config) before).Lasting
      (run step (withConfig config) (before ++ later)) := by
  intro id m m' hm hm'
  rw [run_append] at hm'
  have used : id ∈ trackedIds deed before := by
    rcases holds_run (tracked_step hperforms) ⟨m, hm⟩ with h | h
    · exact absurd h (not_tracked_withConfig config id)
    · exact h
  have hnew : id ∉ trackedIds deed later := by
    rw [trackedIds, List.filterMap_append, List.filterMap_append] at honce
    have disjoint := (List.nodup_append.mp (List.nodup_append.mp honce).1).2.2
    exact fun h => disjoint id used id h rfl
  exact lasts_run hperforms hkeeps hnew hm m' hm'

/-- The outcomes last in a run that tracks each message once exactly if all its
calls are orderly. -/
theorem keepsOutcomes_iff (hperforms : ∀ d call, (deed call).Performs d (step d call).1)
    (config : DeliveryConfig) {calls : List ι} (honce : (trackedIds deed calls).Nodup) :
    KeepsOutcomes step (withConfig config) calls ↔
      Along step (fun d call => (deed call).Orderly d) (withConfig config) calls := by
  have fresh : Along step (fun d call => ∀ id, (deed call).tracks = some id →
      d.getTracked id = none) (withConfig config) calls := by
    have unheld := along_fresh (tracked_step hperforms) honce (not_tracked_withConfig config)
    rw [along_iff_forall] at unheld ⊢
    intro before call rest heq id hid
    exact Option.eq_none_iff_forall_ne_some.mpr fun m hm =>
      unheld before call rest heq id hid ⟨m, hm⟩
  have stepwise : Along step (fun d call => d.Lasting (step d call).1 ∧
        (step d call).1.DatesConfirmed) (withConfig config) calls ↔
      Along step (fun d call => (deed call).Orderly d) (withConfig config) calls := by
    apply along_iff (I := DatesConfirmed) ?_ ?_ (datesConfirmed_withConfig config) fresh
    · intro d call dates new orderly
      exact ((Deed.lasting_iff_orderly (hperforms d call) dates new).mpr orderly).2
    · intro d call dates new
      exact Deed.lasting_iff_orderly (hperforms d call) dates new
  rw [← stepwise]
  constructor
  · intro keeps
    rw [along_iff_forall]
    intro before call rest heq
    have here := keeps before [call] rest (by simp [heq])
    have next := keeps (before ++ [call]) [] rest (by simp [heq])
    rw [run_concat] at here next
    exact ⟨here.1, next.2⟩
  · intro along before later rest heq
    rw [heq, along_append, along_append] at along
    obtain ⟨⟨first, second⟩, _⟩ := along
    constructor
    · rw [heq] at honce
      apply lasting_between hperforms honce
      rw [along_iff_forall] at second ⊢
      exact fun before call rest heq => (second before call rest heq).1
    · exact run_invariant (fun d call _ h => h.2) (datesConfirmed_withConfig config) first

end

/-- In both trackers the outcomes last in a run that tracks each message once
exactly if no finished message is sent and no confirmed one fails or is cancelled. -/
theorem outcomes_last_iff_orderly (config : DeliveryConfig) :
    (∀ calls : List (CoreTrackerCall × Timestamp),
      (trackedIds (fun call => call.1.deed) calls).Nodup →
        (KeepsOutcomes coreStep (withConfig config) calls ↔
          Along coreStep (fun d call => call.1.deed.Orderly d) (withConfig config) calls)) ∧
    ∀ calls : List (RuntimeTrackerCall × Timestamp),
      (trackedIds (fun call => call.1.deed) calls).Nodup →
        (KeepsOutcomes runtimeStep (withConfig config) calls ↔
          Along runtimeStep (fun d call => call.1.deed.Orderly d) (withConfig config) calls) :=
  ⟨fun _ honce => keepsOutcomes_iff performs_coreStep config honce,
    fun _ honce => keepsOutcomes_iff performs_runtimeStep config honce⟩

def someUuid : Uuid := ⟨List.Vector.replicate 16 1⟩

def recipientPeer : PeerId := ⟨List.Vector.replicate 8 2⟩

/-- A delivery that is confirmed after it was sent. -/
def plainDelivery : List (CoreTrackerCall × Timestamp) :=
  [(.trackMessage someUuid recipientPeer [], ⟨1000⟩), (.markSent someUuid, ⟨1000⟩),
    (.confirmDelivery someUuid, ⟨2000⟩)]

theorem plainDelivery_keepsOutcomes :
    KeepsOutcomes coreStep (withConfig DeliveryConfig.default) plainDelivery := by
  have honce : (trackedIds (fun call => call.1.deed) plainDelivery).Nodup := by decide
  refine ((outcomes_last_iff_orderly DeliveryConfig.default).1 plainDelivery honce).mpr
    ⟨trivial, ?_, trivial, trivial⟩
  intro m hm
  cases hm
  rfl

/-- A delivery that is sent again after it was confirmed. -/
def lateSend : List (CoreTrackerCall × Timestamp) :=
  [(.trackMessage someUuid recipientPeer [], ⟨1000⟩), (.confirmDelivery someUuid, ⟨2000⟩),
    (.markSent someUuid, ⟨3000⟩)]

/-- A delivery that is cancelled after it was confirmed. -/
def lateCancel : List (RuntimeTrackerCall × Timestamp) :=
  [(.trackMessage someUuid recipientPeer [], ⟨1000⟩), (.markConfirmed someUuid, ⟨2000⟩),
    (.markCancelled someUuid, ⟨3000⟩)]

/-- A late send reopens a confirmed delivery, and a late cancellation ends one. -/
theorem late_calls_overwrite_confirmed :
    ((trackedIds (fun call => call.1.deed) lateSend).Nodup ∧
      ¬ KeepsOutcomes coreStep (withConfig DeliveryConfig.default) lateSend) ∧
    (trackedIds (fun call => call.1.deed) lateCancel).Nodup ∧
      ¬ KeepsOutcomes runtimeStep (withConfig DeliveryConfig.default) lateCancel := by
  refine ⟨⟨by decide, ?_⟩, by decide, ?_⟩
  · intro keeps
    have lasts := (keeps (lateSend.take 2) (lateSend.drop 2) [] rfl).1 someUuid _ _ rfl rfl
    exact absurd (lasts.confirmed rfl) (by decide)
  · intro keeps
    have lasts := (keeps (lateCancel.take 2) (lateCancel.drop 2) [] rfl).1 someUuid _ _ rfl rfl
    exact absurd (lasts.confirmed rfl) (by decide)

end DeliveryTracker

end Bitchat
