import Bitchat.Capabilities

/-!
# Negotiated peers

A peer that has answered is negotiated until it is asked again. The answer takes it out
of neither the legacy peers nor the timeouts, so that an answer after a timeout does not
count, and a timeout that is left over undoes the answer later.
-/
namespace Bitchat
open Rust

/-- A hello or an acknowledgement of the peer that is processed successfully. -/
def CapabilityInput.answers (i : CapabilityInput) (p : PeerId) : Bool :=
  match i.call with
  | .processHello hello =>
    hello.peerId = p && hello.supportedVersions.any ProtocolVersion.current.isCompatibleWith
  | .processAck ack => ack.peerId = p
  | _ => false

/-- The peer is asked again, forgotten, or declared a legacy peer by the caller. -/
def CapabilityInput.reopens (i : CapabilityInput) (p : PeerId) : Bool :=
  match i.call with
  | .trackHelloSent peerId => peerId = p
  | .removePeer peerId => peerId = p
  | .markAsLegacyPeer peerId => peerId = p
  | _ => false

/-- The peer has answered, and was not asked again since. -/
def answered (p : PeerId) (before : List CapabilityInput) : Bool :=
  before.foldl (fun earlier i => i.answers p || (earlier && ! i.reopens p)) false

theorem answered_concat (p : PeerId) (before : List CapabilityInput) (i : CapabilityInput) :
    answered p (before ++ [i]) = (i.answers p || (answered p before && ! i.reopens p)) := by
  simp [answered]

namespace CapabilityManager

variable {m : CapabilityManager} {i : CapabilityInput} {p : PeerId}

/-- An answer is recorded, and the legacy peers stay as they are. -/
theorem step_of_answers (m : CapabilityManager) (h : i.answers p = true) :
    p ∈ (m.step i).1.peerCapabilities ∧ (m.step i).1.legacyPeers = m.legacyPeers := by
  have heffect := effect_step m i
  generalize (m.step i).1 = m' at heffect ⊢
  cases heffect with
  | rejected hello call noVersion => simp [CapabilityInput.answers, call, noVersion] at h
  | greeted hello version call fits =>
    have hpeer : hello.peerId = p := by
      simp only [CapabilityInput.answers, call, Bool.and_eq_true, decide_eq_true_eq] at h
      exact h.1
    exact ⟨Finmap.mem_insert.mpr (Or.inl hpeer.symm), rfl⟩
  | acknowledged ack call =>
    have hpeer : ack.peerId = p := by
      simpa only [CapabilityInput.answers, call, decide_eq_true_eq] using h
    exact ⟨Finmap.mem_insert.mpr (Or.inl hpeer.symm), rfl⟩
  | untracked peerId call => simp [CapabilityInput.answers, call] at h
  | removed peerId call => simp [CapabilityInput.answers, call] at h
  | tracked peerId timeout call => simp [CapabilityInput.answers, call] at h
  | checked call => simp [CapabilityInput.answers, call] at h
  | marked peerId call => simp [CapabilityInput.answers, call] at h

/-- A check makes legacy peers of those that have expired. -/
theorem mem_legacyPeers_check (now : Timestamp) :
    p ∈ (m.checkHelloTimeouts now).1.legacyPeers ↔
      p ∈ m.legacyPeers ∨ p ∈ m.expiredPeers now := Finset.mem_union

theorem lookup_capabilities_check (now : Timestamp) (p : PeerId) :
    (m.checkHelloTimeouts now).1.peerCapabilities.lookup p =
      if p ∈ m.expiredPeers now then some Capability.core else m.peerCapabilities.lookup p :=
  lookup_check ..

theorem lookup_versions_check (now : Timestamp) (p : PeerId) :
    (m.checkHelloTimeouts now).1.peerVersions.lookup p =
      if p ∈ m.expiredPeers now then some .current else m.peerVersions.lookup p :=
  lookup_check ..

/-- A call that neither answers for a peer nor reopens it leaves a negotiated peer alone,
unless it finds that its time has run out. -/
theorem step_of_quiet (hquiet : i.reopens p = false)
    (htime : i.call = .checkHelloTimeouts → p ∉ m.expiredPeers i.now)
    (hcaps : p ∈ m.peerCapabilities) (hlegacy : p ∉ m.legacyPeers) :
    p ∈ (m.step i).1.peerCapabilities ∧ p ∉ (m.step i).1.legacyPeers := by
  have heffect := effect_step m i
  generalize (m.step i).1 = m' at heffect ⊢
  cases heffect with
  | rejected hello call noVersion => exact ⟨hcaps, hlegacy⟩
  | untracked peerId call => exact ⟨hcaps, hlegacy⟩
  | greeted hello version call fits => exact ⟨Finmap.mem_insert.mpr (Or.inr hcaps), hlegacy⟩
  | acknowledged ack call => exact ⟨Finmap.mem_insert.mpr (Or.inr hcaps), hlegacy⟩
  | removed peerId call =>
    have hother : peerId ≠ p := by
      simpa only [CapabilityInput.reopens, call, decide_eq_false_iff_not] using hquiet
    refine ⟨Finmap.mem_erase.mpr ⟨hother.symm, hcaps⟩, ?_⟩
    intro hmem
    exact hlegacy (Finset.mem_of_mem_erase hmem)
  | tracked peerId timeout call => exact ⟨hcaps, hlegacy⟩
  | checked call =>
    have hin := htime call
    constructor
    · obtain ⟨caps, hcaps⟩ := Finmap.mem_iff.mp hcaps
      refine Finmap.mem_iff.mpr ⟨caps, ?_⟩
      rw [lookup_capabilities_check, if_neg hin, hcaps]
    · rw [mem_legacyPeers_check]
      exact not_or.mpr ⟨hlegacy, hin⟩
  | marked peerId call =>
    have hother : peerId ≠ p := by
      simpa only [CapabilityInput.reopens, call, decide_eq_false_iff_not] using hquiet
    refine ⟨Finmap.mem_insert.mpr (Or.inr hcaps), ?_⟩
    intro hmem
    rcases Finset.mem_insert.mp hmem with heq | hold
    · exact hother heq.symm
    · exact hlegacy hold

/-- A peer that has answered is negotiated, and a check leaves its record alone. -/
structure KeepsNegotiated (localPeerId : PeerId) (implementation : ImplementationInfo)
    (inputs : List CapabilityInput) : Prop where
  status : ∀ before rest, inputs = before ++ rest → ∀ p, answered p before = true →
    (run step (fresh localPeerId implementation) before).getNegotiationStatus p = .negotiated
  kept : ∀ before i rest, inputs = before ++ i :: rest → i.call = .checkHelloTimeouts →
    ∀ p, answered p before = true →
      let m := run step (fresh localPeerId implementation) before
      (m.step i).1.peerCapabilities.lookup p = m.peerCapabilities.lookup p ∧
        (m.step i).1.peerVersions.lookup p = m.peerVersions.lookup p

/-- No answer comes from a legacy peer, and no check finds a timeout that was left over for a
peer that has answered. -/
def AnswersInTime (localPeerId : PeerId) (implementation : ImplementationInfo)
    (inputs : List CapabilityInput) : Prop :=
  ∀ before i rest, inputs = before ++ i :: rest →
    let m := run step (fresh localPeerId implementation) before
    (∀ p, i.answers p = true → p ∉ m.legacyPeers) ∧
      (i.call = .checkHelloTimeouts → ∀ p, answered p before = true → p ∉ m.expiredPeers i.now)

theorem status_eq_negotiated_iff :
    m.getNegotiationStatus p = .negotiated ↔ p ∈ m.peerCapabilities ∧ p ∉ m.legacyPeers := by
  unfold getNegotiationStatus
  split_ifs with hlegacy hcaps hpending
  · simp [hlegacy]
  · simp [hlegacy, hcaps]
  · simp [hcaps]
  · simp [hcaps]

theorem negotiated_of_inTime {localPeerId : PeerId} {implementation : ImplementationInfo}
    {inputs : List CapabilityInput} (h : AnswersInTime localPeerId implementation inputs)
    (p : PeerId) (hanswered : answered p inputs = true) :
    p ∈ (run step (fresh localPeerId implementation) inputs).peerCapabilities ∧
      p ∉ (run step (fresh localPeerId implementation) inputs).legacyPeers := by
  induction inputs using List.reverseRecOn with
  | nil => cases hanswered
  | append_singleton before i ih =>
    have hfront : AnswersInTime localPeerId implementation before := by
      intro earlier j later heq
      exact h earlier j (later ++ [i]) (by simp [heq])
    obtain ⟨hfresh, htime⟩ := h before i [] rfl
    rw [run_concat]
    rw [answered_concat, Bool.or_eq_true, Bool.and_eq_true, Bool.not_eq_true'] at hanswered
    rcases hanswered with hnow | ⟨hearlier, hquiet⟩
    · obtain ⟨hcaps, hlegacy⟩ := step_of_answers (run step _ before) hnow
      rw [hlegacy]
      exact ⟨hcaps, hfresh p hnow⟩
    · obtain ⟨hcaps, hlegacy⟩ := ih hfront hearlier
      exact step_of_quiet hquiet (fun hcall => htime hcall p hearlier) hcaps hlegacy

/-- Peers that have answered stay negotiated exactly if none of them was a legacy peer, and
no check finds a timeout of theirs. -/
theorem keepsNegotiated_iff (localPeerId : PeerId) (implementation : ImplementationInfo)
    (inputs : List CapabilityInput) :
    KeepsNegotiated localPeerId implementation inputs ↔
      AnswersInTime localPeerId implementation inputs := by
  constructor
  · intro h before i rest heq
    have hafter : ∀ p, answered p (before ++ [i]) = true →
        p ∉ ((run step (fresh localPeerId implementation) before).step i).1.legacyPeers := by
      intro p hanswered
      have hstatus := h.status (before ++ [i]) rest (by simp [heq]) p hanswered
      rw [run_concat] at hstatus
      exact (status_eq_negotiated_iff.mp hstatus).2
    constructor
    · intro p hnow hlegacy
      refine hafter p (by rw [answered_concat, hnow, Bool.true_or]) ?_
      rw [(step_of_answers _ hnow).2]
      exact hlegacy
    · intro hcall p hanswered hexpired
      obtain ⟨call, now⟩ := i
      obtain rfl : call = .checkHelloTimeouts := hcall
      refine hafter p ?_ ((mem_legacyPeers_check now).mpr (Or.inr hexpired))
      rw [answered_concat, hanswered]
      rfl
  · intro h
    have hfront : ∀ before rest, inputs = before ++ rest →
        AnswersInTime localPeerId implementation before := by
      intro before rest heq earlier j later hbefore
      exact h earlier j (later ++ rest) (by simp [heq, hbefore])
    constructor
    · intro before rest heq p hanswered
      exact status_eq_negotiated_iff.mpr (negotiated_of_inTime (hfront before rest heq) p hanswered)
    · intro before i rest heq hcall p hanswered
      obtain ⟨call, now⟩ := i
      obtain rfl : call = .checkHelloTimeouts := hcall
      have hin := (h before _ rest heq).2 rfl p hanswered
      exact ⟨(lookup_capabilities_check now p).trans (if_neg hin),
        (lookup_versions_check now p).trans (if_neg hin)⟩

/-- The peer acknowledges our hello after ten milliseconds. -/
def leftoverTimeout : List CapabilityInput :=
  [⟨.trackHelloSent stranger, ⟨0⟩⟩,
    ⟨.processAck ⟨stranger, .current, [], ⟨[], [], none⟩, ⟨10⟩⟩, ⟨10⟩⟩,
    ⟨.checkHelloTimeouts, ⟨40000⟩⟩]

/-- The check after the timeout makes a legacy peer of it nevertheless. -/
theorem leftoverTimeout_demotes :
    (run step ourManager leftoverTimeout).getNegotiationStatus stranger = .legacy ∧
      ¬ KeepsNegotiated ourManager.localPeerId ourManager.implementation leftoverTimeout := by
  have hlegacy : (run step ourManager leftoverTimeout).getNegotiationStatus stranger = .legacy := by
    decide
  refine ⟨hlegacy, ?_⟩
  intro h
  have hstatus := h.status leftoverTimeout [] rfl stranger (by decide)
  exact absurd (hlegacy.symm.trans hstatus) (by decide)

end CapabilityManager

end Bitchat
