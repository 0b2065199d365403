import Bitchat.Authentication
import Bitchat.Rust.Tickets

/-!
# Use of challenges

A run of the verification service opens challenges and closes them. Fresh nonces tell the
challenges apart. A response is a success only for the challenge that is still open for its
peer, in its time, and takes it out of the table, so that it is not a success again. Any
other response of the peer, true or bogus, takes it out as well.
-/
namespace Bitchat
open Rust

inductive VerificationAnswer where
  | scanned (result : Outcome BitchatError PendingChallenge)
  | responded (result : Outcome BitchatError VerificationResult)
  | done

namespace VerificationService

section

variable (codec : QrCodec) (ed : Ed25519)

def step (s : VerificationService) (call : VerificationCall) :
    VerificationService × VerificationAnswer :=
  match call with
  | .scan uri ourNonce now => (s.processScannedQr codec ed uri ourNonce now).map id .scanned
  | .respond response now => (s.processVerificationResponse ed response now).map id .responded
  | .cleanup now => (s.cleanupExpiredChallenges now, .done)
  | .configure config => ({ s with config := config }, .done)

/-- The challenge that a scan has opened. -/
def openedBy (_ : VerificationCall) (answer : VerificationAnswer) : Option PendingChallenge :=
  match answer with
  | .scanned (.ok challenge) => some challenge
  | _ => none

/-- The challenges that a run opens, in order. -/
def opened (s : VerificationService) (calls : List VerificationCall) : List PendingChallenge :=
  collected (step codec ed) openedBy s calls

/-- The call is a response with the nonces of the challenge, and it is a success. -/
def Succeeds (s : VerificationService) (call : VerificationCall) (c : PendingChallenge)
    (now : Timestamp) : Prop :=
  ∃ response, call = .respond response now ∧ response.Answers c ∧
    ∃ peerId nickname verifiedAt, (s.processVerificationResponse ed response now).2 =
      .ok (.success peerId nickname verifiedAt)

/-- The challenge is the one that is open for its peer. -/
def Awaits (s : VerificationService) (c : PendingChallenge) : Prop :=
  s.pendingChallenges.lookup c.peerQr.peerId = some c

end

/-- Every challenge is kept for its own peer. -/
def Own (s : VerificationService) : Prop :=
  ∀ p c, s.pendingChallenges.lookup p = some c → p = c.peerQr.peerId

variable {codec : QrCodec} {ed : Ed25519} {s : VerificationService} {call : VerificationCall}
  {c : PendingChallenge} {p : PeerId}

theorem step_scan (uri : Text) (ourNonce : Key32) (now : Timestamp) :
    s.step codec ed (.scan uri ourNonce now) =
      (s.processScannedQr codec ed uri ourNonce now).map id .scanned := rfl

/-- A response takes the challenge of its peer out of the table, if there is one. -/
theorem processVerificationResponse_state (s : VerificationService)
    (response : VerificationResponse) (now : Timestamp) :
    (s.processVerificationResponse ed response now).1 =
      { s with pendingChallenges := s.pendingChallenges.erase response.responderQr.peerId } := by
  unfold processVerificationResponse
  cases hpending : s.pendingChallenges.lookup response.responderQr.peerId with
  | none => simp only [hpending, Map.erase_of_notMem (Finmap.lookup_eq_none.mp hpending)]
  | some challenge => simp only [hpending]

/-- A call opens a challenge after a clean-up, or it opens none and only closes some. -/
theorem step_cases (codec : QrCodec) (ed : Ed25519) (s : VerificationService)
    (call : VerificationCall) :
    (∃ c now, openedBy call (s.step codec ed call).2 = some c ∧
      (s.step codec ed call).1 = { s.cleanupExpiredChallenges now with
        pendingChallenges :=
          (s.cleanupExpiredChallenges now).pendingChallenges.insert c.peerQr.peerId c } ∧
      Map.size (s.cleanupExpiredChallenges now).pendingChallenges <
        s.config.maxPendingChallenges) ∨
    (openedBy call (s.step codec ed call).2 = none ∧
      ∀ p c, (s.step codec ed call).1.pendingChallenges.lookup p = some c →
        s.pendingChallenges.lookup p = some c) := by
  cases call with
  | scan uri ourNonce now =>
    rw [step_scan]
    rcases processScannedQr_cases codec ed s uri ourNonce now with
      ⟨challenge, hscan, -, -, hroom, -⟩ | ⟨e, hscan | hscan⟩
    · rw [hscan]
      exact Or.inl ⟨challenge, now, rfl, rfl, hroom⟩
    · rw [hscan]
      exact Or.inr ⟨rfl, fun p c hc => hc⟩
    · rw [hscan]
      exact Or.inr ⟨rfl, fun p c hc => lookup_cleanup hc⟩
  | respond response now =>
    refine Or.inr ⟨rfl, ?_⟩
    intro p c hc
    rw [step, Prod.map_fst, id, processVerificationResponse_state, Map.lookup_erase_if] at hc
    split_ifs at hc
    exact hc
  | cleanup now => exact Or.inr ⟨rfl, fun p c hc => lookup_cleanup hc⟩
  | configure config => exact Or.inr ⟨rfl, fun p c hc => hc⟩

/-- What is open after a call was open before, or is opened by it. -/
theorem lookup_step (h : (s.step codec ed call).1.pendingChallenges.lookup p = some c) :
    s.pendingChallenges.lookup p = some c ∨
      (openedBy call (s.step codec ed call).2 = some c ∧ p = c.peerQr.peerId) := by
  rcases step_cases codec ed s call with ⟨challenge, now, hopened, hstep, -⟩ | ⟨-, hsub⟩
  · rw [hstep, Map.lookup_insert_if] at h
    split_ifs at h with hp
    · obtain rfl := Option.some.inj h
      exact Or.inr ⟨hopened, hp⟩
    · exact Or.inl (lookup_cleanup h)
  · exact Or.inl (hsub p c h)

theorem tickets_step : Tickets (step codec ed) openedBy Awaits := by
  intro s call c h
  rcases lookup_step h with hold | ⟨hopened, -⟩
  · exact Or.inl hold
  · exact Or.inr hopened

/-- A challenge that is opened is open. -/
theorem awaits_of_openedBy (h : openedBy call (s.step codec ed call).2 = some c) :
    (s.step codec ed call).1.Awaits c := by
  rcases step_cases codec ed s call with ⟨challenge, now, hopened, hstep, -⟩ | ⟨hnone, -⟩
  · rw [hopened] at h
    obtain rfl := Option.some.inj h
    rw [Awaits, hstep]
    exact Finmap.lookup_insert _
  · rw [hnone] at h
    cases h

theorem Own.step (h : Own s) (call : VerificationCall) : Own (s.step codec ed call).1 := by
  intro p c hc
  rcases lookup_step hc with hold | ⟨-, hown⟩
  · exact h p c hold
  · exact hown

/-- No call takes the table beyond the limit. -/
theorem size_step_le (codec : QrCodec) (ed : Ed25519) (call : VerificationCall)
    (h : Map.size s.pendingChallenges ≤ s.config.maxPendingChallenges) :
    Map.size (s.step codec ed call).1.pendingChallenges ≤ s.config.maxPendingChallenges := by
  rcases step_cases codec ed s call with ⟨challenge, now, -, hstep, hroom⟩ | ⟨-, hsub⟩
  · rw [hstep, Map.size, Map.keys_insert]
    exact (Finset.card_insert_le _ _).trans hroom
  · refine (Finset.card_le_card ?_).trans h
    intro p hp
    obtain ⟨c, hc⟩ := Map.mem_keys_iff.mp hp
    exact Map.mem_keys_iff.mpr ⟨c, hsub p c hc⟩

theorem config_step (h : ∀ config, call ≠ .configure config) :
    (s.step codec ed call).1.config = s.config := by
  cases call with
  | scan uri ourNonce now =>
    rw [step_scan]
    rcases processScannedQr_cases codec ed s uri ourNonce now with
      ⟨challenge, hscan, -⟩ | ⟨e, hscan | hscan⟩
    · rw [hscan]
      rfl
    · rw [hscan]
      rfl
    · rw [hscan]
      rfl
  | respond response now => rw [step, Prod.map_fst, id, processVerificationResponse_state]
  | cleanup now => rfl
  | configure config => exact absurd rfl (h config)

/-- A success is one for a challenge that is open with the nonces of the response, and
that is not open after it. -/
theorem succeeds_spec (codec : QrCodec) {now : Timestamp} (h : s.Succeeds ed call c now) :
    ∃ p c', s.pendingChallenges.lookup p = some c' ∧ c'.nonceB = c.nonceB ∧
      now.asMillis ≤ c'.expiresAt.asMillis ∧
      (s.step codec ed call).1.pendingChallenges.lookup p = none := by
  obtain ⟨response, rfl, ⟨-, hnonce⟩, peerId, nickname, verifiedAt, hsuccess⟩ := h
  obtain ⟨rfl, challenge, hpending, hfresh, ⟨-, hnonce'⟩, -⟩ :=
    processVerificationResponse_success hsuccess
  refine ⟨response.responderQr.peerId, challenge, hpending, hnonce'.symm.trans hnonce, ?_, ?_⟩
  · rw [PendingChallenge.isExpired, decide_eq_false_iff_not] at hfresh
    exact UInt64.not_lt.mp hfresh
  · rw [step, Prod.map_fst, id, processVerificationResponse_state]
    exact Finmap.lookup_erase _ _

/-! ## Runs -/

section

variable (codec ed)

/-- A success answers a challenge that was opened. It comes in time, and neither after
another success for the challenge nor after another scan of its peer. -/
structure SingleUse (s : VerificationService) (calls : List VerificationCall) : Prop where
  known : ∀ before response now rest, calls = before ++ .respond response now :: rest →
    ∀ p nickname verifiedAt, ((run (step codec ed) s before).processVerificationResponse ed
        response now).2 = .ok (.success p nickname verifiedAt) →
      ∃ c ∈ opened codec ed s before, response.Answers c
  inTime : ∀ before call rest, calls = before ++ call :: rest →
    ∀ c ∈ opened codec ed s calls, ∀ now, (run (step codec ed) s before).Succeeds ed call c now →
      now.asMillis ≤ c.expiresAt.asMillis
  once : ∀ before first between second rest,
    calls = before ++ first :: between ++ second :: rest →
    ∀ c ∈ opened codec ed s calls, ∀ now now',
      (run (step codec ed) s before).Succeeds ed first c now →
      ¬ (run (step codec ed) s (before ++ first :: between)).Succeeds ed second c now'
  replaced : ∀ before scan between call rest,
    calls = before ++ scan :: between ++ call :: rest →
    ∀ c ∈ opened codec ed s before, ∀ c',
      openedBy scan ((run (step codec ed) s before).step codec ed scan).2 = some c' →
      c'.peerQr.peerId = c.peerQr.peerId → ∀ now,
        ¬ (run (step codec ed) s (before ++ scan :: between)).Succeeds ed call c now

end

theorem own_run {calls : List VerificationCall} (hstart : s.pendingChallenges = ∅) :
    Own (run (step codec ed) s calls) := by
  refine Reachable.invariant (fun s call h => h.step call) ?_ ⟨calls, rfl⟩
  intro p c h
  rw [hstart, Finmap.lookup_empty] at h
  cases h

theorem mem_opened_of_awaits {calls : List VerificationCall} (hstart : s.pendingChallenges = ∅)
    (h : (run (step codec ed) s calls).Awaits c) : c ∈ opened codec ed s calls := by
  rcases tickets_step.held_run h with hold | hopened
  · rw [Awaits, hstart, Finmap.lookup_empty] at hold
    cases hold
  · exact hopened

/-- A run opens first what its beginning opens. -/
theorem opened_append (codec : QrCodec) (ed : Ed25519) (s : VerificationService)
    (calls rest : List VerificationCall) :
    opened codec ed s calls <+: opened codec ed s (calls ++ rest) := by
  rw [opened, opened, collected_append]
  exact List.prefix_append _ _

section

variable {before between rest calls : List VerificationCall} {now : Timestamp}

/-- With fresh nonces a success is for the challenge that awaits it. -/
theorem awaits_of_succeeds (hstart : s.pendingChallenges = ∅)
    (hfresh : ((opened codec ed s calls).map PendingChallenge.nonceB).Nodup)
    (hcalls : calls = before ++ rest) (hc : c ∈ opened codec ed s calls)
    (h : (run (step codec ed) s before).Succeeds ed call c now) :
    (run (step codec ed) s before).Awaits c ∧ now.asMillis ≤ c.expiresAt.asMillis ∧
      ¬ (run (step codec ed) s (before ++ [call])).Awaits c := by
  obtain ⟨p, c', hlookup, hnonce, htime, hgone⟩ := succeeds_spec codec h
  obtain rfl := own_run hstart p c' hlookup
  have hawaits : (run (step codec ed) s before).Awaits c' := hlookup
  have hc' : c' ∈ opened codec ed s calls := by
    rw [hcalls]
    exact (opened_append codec ed s before rest).subset (mem_opened_of_awaits hstart hawaits)
  obtain rfl := List.inj_on_of_nodup_map hfresh hc' hc hnonce
  refine ⟨hawaits, htime, ?_⟩
  rw [run_concat, Awaits, hgone]
  exact Option.some_ne_none c' ∘ Eq.symm

/-- A challenge that was opened and is closed after a call is not open any more. -/
theorem not_awaits_again (hfresh : ((opened codec ed s calls).map PendingChallenge.nonceB).Nodup)
    (hcalls : calls = before ++ call :: between ++ rest)
    (hc : c ∈ opened codec ed s (before ++ [call]))
    (hgone : ¬ (run (step codec ed) s (before ++ [call])).Awaits c) :
    ¬ (run (step codec ed) s (before ++ call :: between)).Awaits c := by
  have hsplit : before ++ call :: between = before ++ [call] ++ between := by simp
  have honce := hfresh.of_map
  rw [hcalls, hsplit] at honce
  rw [hsplit]
  exact tickets_step.not_held_again
    (honce.sublist (opened_append codec ed s (before ++ [call] ++ between) rest).sublist) hc hgone

theorem singleUse (hstart : s.pendingChallenges = ∅)
    (hfresh : ((opened codec ed s calls).map PendingChallenge.nonceB).Nodup) :
    SingleUse codec ed s calls where
  known := by
    intro before response now rest _ p nickname verifiedAt hsuccess
    obtain ⟨rfl, challenge, hpending, -, hanswers, -⟩ :=
      processVerificationResponse_success hsuccess
    have hown := own_run hstart _ challenge hpending
    rw [hown] at hpending
    exact ⟨challenge, mem_opened_of_awaits hstart hpending, hanswers⟩
  inTime := by
    intro before call rest hcalls c hc now hsuccess
    exact (awaits_of_succeeds hstart hfresh hcalls hc hsuccess).2.1
  once := by
    intro before first between second rest hcalls c hc now now' hfirst hsecond
    have hfront : calls = before ++ (first :: between ++ second :: rest) := by simp [hcalls]
    obtain ⟨hawaits, -, hgone⟩ := awaits_of_succeeds hstart hfresh hfront hc hfirst
    have hissued : c ∈ opened codec ed s (before ++ [first]) :=
      (opened_append codec ed s before [first]).subset (mem_opened_of_awaits hstart hawaits)
    exact not_awaits_again hfresh hcalls hissued hgone
      (awaits_of_succeeds hstart hfresh hcalls hc hsecond).1
  replaced := by
    intro before scan between call rest hcalls c hc c' hopened hpeer now hsuccess
    have hscan : opened codec ed s (before ++ [scan]) = opened codec ed s before ++ [c'] := by
      rw [opened, opened, collected_concat, hopened]
      rfl
    have hissued : c ∈ opened codec ed s (before ++ [scan]) :=
      (opened_append codec ed s before [scan]).subset hc
    have hfirst : opened codec ed s (before ++ [scan]) <+: opened codec ed s calls := by
      have hall : calls = before ++ [scan] ++ (between ++ call :: rest) := by simp [hcalls]
      rw [hall]
      exact opened_append codec ed s _ _
    have hc_all : c ∈ opened codec ed s calls := hfirst.subset hissued
    have hne : c ≠ c' := by
      have honce := hfresh.of_map.sublist hfirst.sublist
      rw [hscan] at honce
      exact (List.nodup_append.mp honce).2.2 c hc c' List.mem_cons_self
    have hgone : ¬ (run (step codec ed) s (before ++ [scan])).Awaits c := by
      intro hawaits
      have hnew := awaits_of_openedBy hopened
      rw [run_concat, Awaits, ← hpeer, hnew] at hawaits
      exact hne (Option.some.inj hawaits).symm
    exact not_awaits_again hfresh hcalls hissued hgone
      (awaits_of_succeeds hstart hfresh hcalls hc_all hsuccess).1

end

theorem size_run_le {calls : List VerificationCall} (hstart : s.pendingChallenges = ∅)
    (hfixed : ∀ call ∈ calls, ∀ config, call ≠ .configure config) :
    Map.size (run (step codec ed) s calls).pendingChallenges ≤ s.config.maxPendingChallenges := by
  have hrun : Map.size (run (step codec ed) s calls).pendingChallenges ≤
      s.config.maxPendingChallenges ∧ (run (step codec ed) s calls).config = s.config := by
    refine run_invariant (P := fun _ call => ∀ config, call ≠ VerificationCall.configure config)
      (I := fun t : VerificationService =>
        Map.size t.pendingChallenges ≤ s.config.maxPendingChallenges ∧ t.config = s.config)
      ?_ ?_ (along_of_forall hfixed)
    · rintro t call ⟨hsize, hconfig⟩ hcall
      rw [← hconfig] at hsize ⊢
      exact ⟨size_step_le codec ed call hsize, config_step hcall⟩
    · rw [hstart, Map.size_empty]
      exact ⟨Nat.zero_le _, rfl⟩
  exact hrun.1

/-- As long as the configuration stays, the challenges are bounded, and with fresh nonces
each of them is good for one success, in time and before it is replaced. -/
theorem challenges_single_use (codec : QrCodec) (ed : Ed25519) (config : VerificationConfig)
    (signingSecret noisePublicKey : Key32) (nickname : Option Text) (calls : List VerificationCall)
    (hfixed : ∀ call ∈ calls, ∀ config, call ≠ .configure config) :
    (∀ before rest, calls = before ++ rest →
      Map.size (run (step codec ed) (new config signingSecret noisePublicKey nickname)
        before).pendingChallenges ≤ config.maxPendingChallenges) ∧
    (((opened codec ed (new config signingSecret noisePublicKey nickname) calls).map
        PendingChallenge.nonceB).Nodup →
      SingleUse codec ed (new config signingSecret noisePublicKey nickname) calls) := by
  constructor
  · rintro before rest rfl
    exact size_run_le (s := new config signingSecret noisePublicKey nickname) rfl
      fun call hcall => hfixed call (List.mem_append_left _ hcall)
  · exact singleUse rfl

/-- A scan of a code, the answer to it, and the same answer again. -/
def answeredTwice : List VerificationCall :=
  [Verifier.scanCall, Verifier.answer (List.Vector.replicate 32 4),
    Verifier.answer (List.Vector.replicate 32 4)]

theorem opened_answeredTwice : opened QrCodec.standard Verifier.labelEd25519
    Verifier.scanner.service answeredTwice = [Verifier.opened] := by
  decide +kernel

theorem challenges_single_use_answeredTwice :
    ¬ (run (step QrCodec.standard Verifier.labelEd25519) Verifier.scanner.service
        [Verifier.scanCall, Verifier.answer (List.Vector.replicate 32 4)]).Succeeds
      Verifier.labelEd25519 (Verifier.answer (List.Vector.replicate 32 4)) Verifier.opened
      ⟨1700000001000⟩ := by
  have huse := (challenges_single_use QrCodec.standard Verifier.labelEd25519 ⟨300000000000, 10⟩
    (List.Vector.replicate 32 8) (List.Vector.replicate 32 9) none answeredTwice ?_).2 ?_
  · refine huse.once [Verifier.scanCall] _ [] _ [] rfl Verifier.opened ?_ ⟨1700000001000⟩ _ ?_
    · exact opened_answeredTwice ▸ List.mem_singleton_self _
    · exact ⟨_, rfl, ⟨rfl, rfl⟩, PeerId.fromNoiseKey Verifier.noiseKey, some ['A'],
        ⟨1700000001000⟩, by decide +kernel⟩
  · intro call hcall config
    simp only [answeredTwice, List.mem_cons, List.not_mem_nil, or_false] at hcall
    rcases hcall with rfl | rfl | rfl <;> exact fun h => nomatch h
  · show ((opened _ _ Verifier.scanner.service answeredTwice).map _).Nodup
    rw [opened_answeredTwice]
    exact List.nodup_singleton _

/-! ## Responses that do not verify -/

section

variable (ed : Ed25519)

/-- A response arrives. -/
def receive (s : VerificationService) (arrival : VerificationResponse × Timestamp) :
    Call BitchatError VerificationService VerificationResult :=
  s.processVerificationResponse ed arrival.1 arrival.2

/-- The response does not answer the challenge, and arrives before it expires. -/
def Bogus (c : PendingChallenge) (arrival : VerificationResponse × Timestamp) : Prop :=
  arrival.1.verify ed c ≠ .ok true ∧ c.isExpired arrival.2 = false

/-- The challenge is open for the peer, and whoever answers it in time has success. -/
structure StillOpen (s : VerificationService) (p : PeerId) (c : PendingChallenge) : Prop where
  pending : s.pendingChallenges.lookup p = some c
  genuine : ∀ response now, response.responderQr.peerId = p → response.verify ed c = .ok true →
    c.isExpired now = false → (s.receive ed (response, now)).2 =
      .ok (.success p response.responderQr.nickname now)

end

theorem stillOpen_iff : StillOpen ed s p c ↔ s.pendingChallenges.lookup p = some c := by
  refine ⟨StillOpen.pending, fun hpending => ⟨hpending, ?_⟩⟩
  rintro response now rfl hverify hfresh
  rw [receive, processVerificationResponse]
  simp only [hpending, judge, hfresh, hverify, Bool.false_eq_true, if_false]

/-- A challenge is open after some responses if it was open before and none of them is
from its peer. -/
theorem lookup_received_iff {arrivals : List (VerificationResponse × Timestamp)} :
    (run (receive ed) s arrivals).pendingChallenges.lookup p = some c ↔
      s.pendingChallenges.lookup p = some c ∧ ∀ a ∈ arrivals, a.1.responderQr.peerId ≠ p := by
  induction arrivals generalizing s with
  | nil => simp
  | cons a rest ih =>
    rw [run_cons, ih, receive, processVerificationResponse_state, Map.lookup_erase_if,
      List.forall_mem_cons]
    split_ifs with hpeer
    · simp [hpeer]
    · rw [and_iff_right (Ne.symm hpeer)]

/-- Responses, bogus or not, leave a challenge open exactly if none is from its peer. -/
theorem stillOpen_received_iff (ed : Ed25519) (s : VerificationService) (p : PeerId)
    (c : PendingChallenge) (arrivals : List (VerificationResponse × Timestamp))
    (hpending : s.pendingChallenges.lookup p = some c) :
    StillOpen ed (run (receive ed) s arrivals) p c ↔
      ∀ a ∈ arrivals, a.1.responderQr.peerId ≠ p := by
  rw [stillOpen_iff, lookup_received_iff, and_iff_right hpending]

/-- The service that has scanned a code. -/
def awaiting : VerificationService :=
  (Verifier.step QrCodec.standard Verifier.labelEd25519 Verifier.scanner
    Verifier.scanCall).1.service

theorem lookup_awaiting :
    awaiting.pendingChallenges.lookup (PeerId.fromNoiseKey Verifier.noiseKey) =
      some Verifier.opened := by
  unfold awaiting
  exact Verifier.lookup_opened

/-- An unsigned response in the name of whoever has the Noise key. -/
def unsigned (noisePublicKey : Key32) : VerificationResponse × Timestamp :=
  (⟨Verifier.opened.nonceA, Verifier.opened.nonceB, [],
    { Verifier.scannedCode with noisePublicKey := noisePublicKey }⟩, ⟨1700000001000⟩)

theorem stillOpen_received_stranger :
    StillOpen Verifier.labelEd25519
      (run (receive Verifier.labelEd25519) awaiting [unsigned (List.Vector.replicate 32 1)])
      (PeerId.fromNoiseKey Verifier.noiseKey) Verifier.opened := by
  refine (stillOpen_received_iff Verifier.labelEd25519 awaiting _ Verifier.opened _
    lookup_awaiting).mpr ?_
  rw [List.forall_mem_singleton]
  decide +kernel

/-- The empty signature in the name of the peer. -/
theorem bogus_response_cancels :
    Bogus Verifier.labelEd25519 Verifier.opened (unsigned Verifier.noiseKey) ∧
      awaiting.pendingChallenges.lookup (PeerId.fromNoiseKey Verifier.noiseKey) =
        some Verifier.opened ∧
      ¬ StillOpen Verifier.labelEd25519
        (run (receive Verifier.labelEd25519) awaiting [unsigned Verifier.noiseKey])
        (PeerId.fromNoiseKey Verifier.noiseKey) Verifier.opened := by
  refine ⟨⟨by decide +kernel, by decide +kernel⟩, lookup_awaiting, ?_⟩
  intro hopen
  obtain ⟨-, hothers⟩ := lookup_received_iff.mp hopen.pending
  exact hothers _ List.mem_cons_self rfl

end VerificationService

end Bitchat
