import Bitchat.ConnectionManager
import Bitchat.Rust.Run

/-!
# Deadlines of connections

A transition that arms a deadline is meant to leave its peer a number of seconds, and adds
this number to a timestamp in milliseconds. So a deadline is right only if it is to pass at
once.
-/
namespace Bitchat
open Rust

namespace ConnectionState

/-- The deadline for the discovery or the connection. -/
def hasTimeout : ConnectionState → Option Timestamp
  | .discovering s => s.discoveryTimeout
  | .connecting s => some s.connectionTimeout
  | _ => none

/-- The deadline of a state, be it for a timeout or for the next attempt. -/
def deadline : ConnectionState → Option Timestamp
  | .failed s => s.retryAfter
  | s => s.hasTimeout

/-- The seconds that a transition is meant to set a deadline for. -/
def armedSecs : ConnectionState → ConnectionEvent → Option UInt64
  | .disconnected _, .startDiscovery timeoutSeconds => timeoutSeconds
  | .discovering _, .initiateConnection _ sessionParams => some sessionParams.timeoutSeconds
  | .discovering _, .timeout => some 60
  | .connecting _, .connectionFailed _ => some 30
  | .connecting _, .timeout => some 60
  | .connected _, .connectionLost _ => some 10
  | _, _ => none

variable {s : ConnectionState} {event : ConnectionEvent} {now : Timestamp} {secs : UInt64}

/-- A transition that is meant to set a deadline adds the seconds as if they were
milliseconds. -/
theorem transition_arms (h : s.armedSecs event = some secs) {deadline : Timestamp}
    (hplus : (now.plus secs : Outcome InvalidTransition Timestamp) = .ok deadline) :
    ∃ t, s.transition event now = .ok t ∧ t.newState.deadline = some deadline := by
  cases s <;> cases event <;>
    first
      | (cases h; done)
      | obtain rfl := Option.some.inj h
        simp only [transition, successor, failWith, hplus, ok_bind]
        exact ⟨_, rfl, rfl⟩
      | obtain rfl : _ = some secs := h
        simp only [transition, successor, discoveryDeadline, hplus, ok_bind]
        exact ⟨_, rfl, rfl⟩

theorem transition_panics (h : s.armedSecs event = some secs)
    (hplus : (now.plus secs : Outcome InvalidTransition Timestamp) = panicked) :
    s.transition event now = panicked := by
  cases s <;> cases event <;>
    first
      | (cases h; done)
      | obtain rfl := Option.some.inj h
        simp only [transition, successor, failWith, hplus]
        rfl
      | obtain rfl : _ = some secs := h
        simp only [transition, successor, discoveryDeadline, hplus]
        rfl

/-- The other transitions keep the deadline or leave none. -/
theorem transition_keeps (h : s.armedSecs event = none) {t : StateTransition}
    (ht : s.transition event now = .ok t) :
    t.newState.deadline = none ∨ t.newState.deadline = s.deadline := by
  cases s <;> cases event <;>
    first
      | (cases h; done)
      | (cases ht; done)
      | obtain rfl := Except.ok.inj ht
        exact Or.inl rfl
      | obtain rfl := Except.ok.inj ht
        exact Or.inr rfl
      | obtain rfl : _ = none := h
        obtain rfl := Except.ok.inj ht
        exact Or.inl rfl

theorem transition_returns (h : s.armedSecs event = none) (now : Timestamp) :
    s.transition event now ≠ panicked := by
  cases s <;> cases event <;>
    first
      | (cases h; done)
      | (intro hpanic; cases hpanic)
      | obtain rfl : _ = none := h
        intro hpanic
        cases hpanic

end ConnectionState

namespace ConnectionManager

/-- `Vec<(PeerId, ConnectionEvent)>`, in no particular order. -/
def getTimedOutPeers (m : ConnectionManager) (now : Timestamp) :
    Multiset (PeerId × ConnectionEvent) :=
  (Map.retain (fun _ state => state.hasTimeout.any fun timeout =>
    timeout.asMillis ≤ now.asMillis) m.connections).keys.val.map fun peerId => (peerId, .timeout)

/-- A call of `process_connection_event`. -/
structure EventCall where
  peerId : PeerId
  event : ConnectionEvent
  now : Timestamp

def step (m : ConnectionManager) (call : EventCall) :
    ConnectionManager × Outcome InvalidTransition StateTransition :=
  m.processConnectionEvent call.peerId call.event call.now

/-- The state that the event of a call meets. -/
def met (m : ConnectionManager) (call : EventCall) : ConnectionState :=
  (m.getConnection call.peerId).getD (.newDisconnected call.peerId)

/-- A deadline was set for a peer: the time, and the seconds it was set for. -/
structure Arming where
  peerId : PeerId
  now : Timestamp
  secs : UInt64

/-- The milliseconds at which the peer is out of time. -/
def Arming.due (arming : Arming) : ℕ := arming.now.asMillis.toNat + 1000 * arming.secs.toNat

/-- A step with the deadline that it is meant to set. -/
def stepArming (m : ConnectionManager) (call : EventCall) : ConnectionManager × Option Arming :=
  ((m.step call).1, ((m.met call).armedSecs call.event).map fun secs =>
    ⟨call.peerId, call.now, secs⟩)

/-- The deadlines of a run, in order. -/
def armings (m : ConnectionManager) (calls : List EventCall) : List Arming :=
  collected stepArming (fun _ arming => arming) m calls

/-- The last deadline of a peer, in milliseconds. -/
def lastDue (history : List Arming) (p : PeerId) : Option ℕ :=
  (history.filter fun arming => arming.peerId = p).getLast?.map Arming.due

/-- Every stored deadline is the last one that was set for its peer, to the millisecond. -/
def Timely (m : ConnectionManager) (history : List Arming) : Prop :=
  ∀ p c deadline, m.getConnection p = some c → c.deadline = some deadline →
    lastDue history p = some deadline.asMillis.toNat

/-- Along a run the deadlines are right, peers are reported when their seconds have elapsed
and not before, and no addition overflows. -/
structure KeepsTime (calls : List EventCall) : Prop where
  timely : ∀ before rest, calls = before ++ rest →
    (run step new before).Timely (armings new before)
  reported : ∀ before rest, calls = before ++ rest → ∀ p now,
    (p, ConnectionEvent.timeout) ∈ (run step new before).getTimedOutPeers now →
      ∃ due, lastDue (armings new before) p = some due ∧ due ≤ now.asMillis.toNat
  noOverflow : Along step (fun m call => (m.step call).2 ≠ panicked) new calls

/-- The step sets no deadline, or one that is to pass at once. -/
def ArmsNoSeconds (m : ConnectionManager) (call : EventCall) : Prop :=
  ∀ secs, (m.met call).armedSecs call.event = some secs → secs = 0

variable {m : ConnectionManager} {p : PeerId} {history : List Arming} {call : EventCall}

/-! ## Steps -/

theorem getConnection_initializePeer (m : ConnectionManager) (p q : PeerId) :
    (m.initializePeer p).getConnection q =
      if q = p then some ((m.getConnection p).getD (.newDisconnected p))
      else m.getConnection q := by
  unfold initializePeer
  cases h : m.getConnection p with
  | none => exact Map.lookup_insert_if ..
  | some c =>
    rw [Option.getD_some]
    split_ifs with hq
    · rw [hq, h]
    · rfl

theorem initializePeer_initializePeer (m : ConnectionManager) (p : PeerId) :
    (m.initializePeer p).initializePeer p = m.initializePeer p := by
  have htracked := getConnection_initializePeer m p p
  rw [if_pos rfl] at htracked
  rw [initializePeer, htracked]

theorem step_eq (m : ConnectionManager) (call : EventCall) :
    m.step call = Call.andThen ((m.initializePeer call.peerId).takeConnection call.peerId,
        (m.met call).transition call.event call.now) fun m transition =>
      (m.storeTransition call.peerId transition, .ok transition) := by
  have htracked := getConnection_initializePeer m call.peerId call.peerId
  rw [if_pos rfl] at htracked
  have hprocess := processConnectionEvent_of_tracked htracked call.event call.now
  rw [processConnectionEvent, initializePeer_initializePeer] at hprocess
  exact hprocess

theorem step_result (m : ConnectionManager) (call : EventCall) :
    (m.step call).2 = (m.met call).transition call.event call.now := by
  rw [step_eq]
  cases (m.met call).transition call.event call.now <;> rfl

/-- A step stores the new state of its peer, or has taken the old one. -/
theorem getConnection_step (m : ConnectionManager) (call : EventCall) (q : PeerId) :
    (m.step call).1.getConnection q =
      if q = call.peerId then (m.step call).2.toOption.map StateTransition.newState
      else m.getConnection q := by
  rw [step_result, step_eq]
  cases (m.met call).transition call.event call.now with
  | error fault =>
    rw [Call.andThen_error, getConnection_takeConnection, getConnection_initializePeer]
    split_ifs <;> rfl
  | ok t =>
    rw [Call.andThen_ok, getConnection_storeTransition, getConnection_takeConnection,
      getConnection_initializePeer]
    split_ifs <;> rfl

/-! ## Deadlines over a run -/

theorem lastDue_concat (history : List Arming) (arming : Arming) (p : PeerId) :
    lastDue (history ++ [arming]) p =
      if arming.peerId = p then some arming.due else lastDue history p := by
  unfold lastDue
  rw [List.filter_append]
  split_ifs with h
  · simp [h]
  · simp [h]

/-- The deadline of the state that an event meets is stored. -/
theorem getConnection_of_met {deadline : Timestamp}
    (h : (m.met call).deadline = some deadline) :
    m.getConnection call.peerId = some (m.met call) := by
  unfold met at h ⊢
  cases hc : m.getConnection call.peerId with
  | none =>
    rw [hc] at h
    cases h
  | some c => rfl

theorem plus_zero (now : Timestamp) :
    (now.plus 0 : Outcome InvalidTransition Timestamp) = .ok now := by
  have hfits : now.asMillis.toNat + (0 : UInt64).toNat < 2 ^ 64 := now.asMillis.toNat_lt
  rw [Timestamp.plus, if_pos hfits, UInt64.add_zero]

/-- The state that a step leaves its peer in comes from the transition. -/
theorem transition_of_stored {c : ConnectionState}
    (hc : (m.step call).1.getConnection call.peerId = some c) :
    ∃ t, (m.met call).transition call.event call.now = .ok t ∧ t.newState = c := by
  rw [getConnection_step, if_pos rfl, step_result] at hc
  cases ht : (m.met call).transition call.event call.now with
  | error fault =>
    rw [ht] at hc
    cases hc
  | ok t =>
    rw [ht] at hc
    exact ⟨t, rfl, Option.some.inj hc⟩

theorem Timely.step_unarmed (h : m.Timely history)
    (harmed : (m.met call).armedSecs call.event = none) : (m.step call).1.Timely history := by
  intro p c deadline hc hdeadline
  by_cases hp : p = call.peerId
  · rw [hp] at hc ⊢
    obtain ⟨t, ht, rfl⟩ := transition_of_stored hc
    rcases ConnectionState.transition_keeps harmed ht with hnone | hsame
    · rw [hnone] at hdeadline
      cases hdeadline
    · rw [hsame] at hdeadline
      exact h call.peerId _ deadline (getConnection_of_met hdeadline) hdeadline
  · rw [getConnection_step, if_neg hp] at hc
    exact h p c deadline hc hdeadline

theorem Timely.step_armed (h : m.Timely history)
    (harmed : (m.met call).armedSecs call.event = some 0) :
    (m.step call).1.Timely (history ++ [⟨call.peerId, call.now, 0⟩]) := by
  intro p c deadline hc hdeadline
  rw [lastDue_concat]
  by_cases hp : p = call.peerId
  · rw [hp] at hc
    obtain ⟨t, ht, rfl⟩ := transition_of_stored hc
    obtain ⟨t', ht', hset⟩ := ConnectionState.transition_arms harmed (plus_zero call.now)
    obtain rfl := Except.ok.inj (ht.symm.trans ht')
    rw [hset] at hdeadline
    rw [if_pos hp.symm, ← Option.some.inj hdeadline]
    rfl
  · rw [getConnection_step, if_neg hp] at hc
    rw [if_neg (Ne.symm hp)]
    exact h p c deadline hc hdeadline

/-- What a step that sets no deadline, or one that is to pass at once, leaves of the
deadlines is right if they were. -/
theorem Timely.step (h : m.Timely history) (hnone : m.ArmsNoSeconds call) :
    (m.step call).1.Timely (history ++ (m.stepArming call).2.toList) := by
  cases harmed : (m.met call).armedSecs call.event with
  | none =>
    have hnote : (m.stepArming call).2 = none := by rw [stepArming, harmed, Option.map_none]
    rw [hnote, Option.toList_none, List.append_nil]
    exact h.step_unarmed harmed
  | some secs =>
    obtain rfl := hnone secs harmed
    have hnote : (m.stepArming call).2 = some ⟨call.peerId, call.now, 0⟩ := by
      rw [stepArming, harmed, Option.map_some]
    rw [hnote, Option.toList_some]
    exact h.step_armed harmed

theorem timely_run {calls : List EventCall} (h : Along step ArmsNoSeconds new calls) :
    (run step new calls).Timely (armings new calls) := by
  have hinit : (new : ConnectionManager).Timely [] := by
    intro p c deadline hc
    cases hc
  -- the run with the deadlines has the states of the run without them
  have hnoted : Along stepArming ArmsNoSeconds new calls := by
    rw [along_iff_forall] at h ⊢
    exact h
  have htimely : (run stepArming new calls).Timely (armings new calls) :=
    collected_invariant (I := Timely) (fun _ _ _ hbefore hcall => hbefore.step hcall) hinit hnoted
  exact htimely

theorem Timely.reported (h : m.Timely history) {now : Timestamp}
    (hp : (p, ConnectionEvent.timeout) ∈ m.getTimedOutPeers now) :
    ∃ due, lastDue history p = some due ∧ due ≤ now.asMillis.toNat := by
  obtain ⟨q, hq, heq⟩ := Multiset.mem_map.mp hp
  obtain ⟨rfl, -⟩ := Prod.mk.inj heq
  obtain ⟨c, hc⟩ := Map.mem_keys_iff.mp hq
  obtain ⟨hlookup, hpast⟩ := Map.mem_retain_entries.mp hc
  obtain ⟨timeout, htimeout, hle⟩ := (Option.any_eq_true _ _).mp hpast
  refine ⟨timeout.asMillis.toNat, h q c timeout hlookup ?_,
    UInt64.le_iff_toNat_le.mp (of_decide_eq_true hle)⟩
  cases c with
  | failed state => cases htimeout
  | _ => exact htimeout

/-- In a run that keeps time no step sets a deadline for a positive number of seconds. -/
theorem armsNoSeconds_of_keepsTime {calls : List EventCall} (h : KeepsTime calls) :
    Along step ArmsNoSeconds new calls := by
  rw [along_iff_forall]
  rintro before call rest rfl secs harmed
  have hreturns := along_iff_forall.mp h.noOverflow before call rest rfl
  have htimely := h.timely (before ++ [call]) rest (by simp)
  have hsame : run stepArming new before = run step new before := rfl
  have hnote : (stepArming (run step new before) call).2 =
      some ⟨call.peerId, call.now, secs⟩ := by rw [stepArming, harmed, Option.map_some]
  rw [run_concat, armings, collected_concat, hsame, hnote, Option.toList_some] at htimely
  rw [step_result] at hreturns
  by_cases hfits : call.now.asMillis.toNat + secs.toNat < 2 ^ 64
  · have hplus : (call.now.plus secs : Outcome InvalidTransition Timestamp) =
        .ok ⟨call.now.asMillis + secs⟩ := if_pos hfits
    obtain ⟨t, ht, hset⟩ := ConnectionState.transition_arms harmed hplus
    have hc : (step (run step new before) call).1.getConnection call.peerId = some t.newState := by
      rw [getConnection_step, if_pos rfl, step_result, ht]
      rfl
    have hdue := htimely call.peerId t.newState _ hc hset
    rw [lastDue_concat, if_pos rfl, Option.some.injEq, Arming.due, UInt64.toNat_add,
      Nat.mod_eq_of_lt hfits] at hdue
    rw [← UInt64.toNat_inj, UInt64.toNat_zero]
    dsimp only at hdue
    omega
  · exact absurd (ConnectionState.transition_panics harmed (if_neg hfits)) hreturns

/-- A run keeps time exactly if no step of it sets a deadline for a positive number of
seconds. -/
theorem keepsTime_iff (calls : List EventCall) :
    KeepsTime calls ↔ Along step ArmsNoSeconds new calls := by
  refine ⟨armsNoSeconds_of_keepsTime, fun h => ?_⟩
  have htimely (before rest : List EventCall) (heq : calls = before ++ rest) :
      (run step new before).Timely (armings new before) := by
    rw [heq] at h
    exact timely_run (along_append.mp h).1
  refine ⟨htimely, fun before rest heq p now hp => (htimely before rest heq).reported hp, ?_⟩
  rw [along_iff_forall] at h ⊢
  intro before call rest heq
  have hcall := h before call rest heq
  rw [step_result]
  cases harmed : ((run step new before).met call).armedSecs call.event with
  | none => exact ConnectionState.transition_returns harmed call.now
  | some secs =>
    obtain rfl := hcall secs harmed
    obtain ⟨t, ht, -⟩ := ConnectionState.transition_arms harmed (plus_zero call.now)
    rw [ht]
    exact fun hpanic => nomatch hpanic

/-- A discovery of a minute. -/
def minuteOfDiscovery : EventCall := ⟨somePeer, .startDiscovery (some 60), ⟨1700000000000⟩⟩

/-- The discovery is reported to be over after 60 milliseconds, and the largest number of
seconds overflows. -/
theorem minute_of_sixty_millis :
    ((step new minuteOfDiscovery).1.getTimedOutPeers ⟨1700000000060⟩ =
        {(somePeer, ConnectionEvent.timeout)}) ∧
      (step new { minuteOfDiscovery with event := .startDiscovery (some (2 ^ 64 - 1)) }).2 =
        panicked ∧
      ¬ KeepsTime [minuteOfDiscovery] := by
  refine ⟨by decide +kernel, by decide +kernel, fun h => ?_⟩
  have hsecs := (armsNoSeconds_of_keepsTime h).1 60 rfl
  cases hsecs

end ConnectionManager

end Bitchat
