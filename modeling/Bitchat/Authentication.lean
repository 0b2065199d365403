import Bitchat.Rust.Run
import Bitchat.Verification

/-!
# The key behind a verification

Runs of `VerificationService` over scans, responses and clean-ups. Beside the
service a run records which code was scanned last for each peer. A success rests
on the key of that code as long as the responses bring along the same key.
-/
namespace Bitchat
open Rust

/-- What happens to a service, with the nonce that it draws and the time. -/
inductive VerificationCall where
  | scan (uri : Text) (ourNonce : Key32) (now : Timestamp)
  | respond (response : VerificationResponse) (now : Timestamp)
  | cleanup (now : Timestamp)
  | configure (config : VerificationConfig)

structure Verifier where
  service : VerificationService
  scanned : Map PeerId VerificationQR

namespace Verifier

def new (config : VerificationConfig) (signingSecret noisePublicKey : Key32)
    (nickname : Option Text) : Verifier :=
  ⟨VerificationService.new config signingSecret noisePublicKey nickname, ∅⟩

variable (codec : QrCodec) (ed : Ed25519)

def scan (v : Verifier) (uri : Text) (ourNonce : Key32) (now : Timestamp) : Verifier :=
  let call := v.service.processScannedQr codec ed uri ourNonce now
  match call.2, VerificationQR.fromUri codec ed uri with
  | .ok _, .ok qr => ⟨call.1, v.scanned.insert qr.peerId qr⟩
  | _, _ => ⟨call.1, v.scanned⟩

/-- The output is the answer to a response. -/
def step (v : Verifier) : VerificationCall → Verifier × Option (BitchatResult VerificationResult)
  | .scan uri ourNonce now => (v.scan codec ed uri ourNonce now, none)
  | .respond response now =>
    let call := v.service.processVerificationResponse ed response now
    ({ v with service := call.1 }, some call.2)
  | .cleanup now => ({ v with service := v.service.cleanupExpiredChallenges now }, none)
  | .configure config => ({ v with service := { v.service with config := config } }, none)

/-- A success for a peer comes with a signature over the nonces of its challenge
by the key of the code that was scanned for it. -/
def Authenticated (v : Verifier) : VerificationCall → Prop
  | .respond response now => ∀ peerId nickname verifiedAt,
    (v.step codec ed (.respond response now)).2 =
        some (.ok (.success peerId nickname verifiedAt)) →
      ∃ challenge, v.service.pendingChallenges.lookup peerId = some challenge ∧
        v.scanned.lookup peerId = some challenge.peerQr ∧
        ed.accepts challenge.peerQr.signingPublicKey challenge.challengeData
          response.signature = true
  | _ => True

/-- A response to an open challenge brings along the key of the scanned code. -/
def SameKey (v : Verifier) : VerificationCall → Prop
  | .respond response now => ∀ challenge,
    v.service.pendingChallenges.lookup response.responderQr.peerId = some challenge →
      challenge.isExpired now = false → response.Answers challenge →
      response.responderQr.signingPublicKey = challenge.peerQr.signingPublicKey
  | _ => True

/-- An open challenge carries the code that was scanned for its peer. -/
def Tracked (v : Verifier) : Prop :=
  ∀ peerId challenge, v.service.pendingChallenges.lookup peerId = some challenge →
    v.scanned.lookup peerId = some challenge.peerQr

variable {codec ed} {v : Verifier}

theorem Tracked.cleanup (tracked : v.Tracked) (now : Timestamp) :
    Tracked { v with service := v.service.cleanupExpiredChallenges now } := by
  intro peerId challenge h
  exact tracked peerId challenge (VerificationService.lookup_cleanup h)

theorem Tracked.scan (tracked : v.Tracked) (uri : Text) (ourNonce : Key32) (now : Timestamp) :
    (v.scan codec ed uri ourNonce now).Tracked := by
  obtain ⟨challenge, hscan, hread, _⟩ | ⟨e, hscan | hscan⟩ :=
    v.service.processScannedQr_cases codec ed uri ourNonce now
  · intro peerId other h
    simp only [Verifier.scan, hscan, hread] at h ⊢
    rw [Map.lookup_insert_if] at h ⊢
    split_ifs at h ⊢ with hpeer
    · rw [Option.some.inj h]
    · exact tracked.cleanup now peerId other h
  · have unchanged : v.scan codec ed uri ourNonce now = v := by
      simp only [Verifier.scan, hscan]
    rw [unchanged]
    exact tracked
  · have cleaned : v.scan codec ed uri ourNonce now =
        { v with service := v.service.cleanupExpiredChallenges now } := by
      simp only [Verifier.scan, hscan]
    rw [cleaned]
    exact tracked.cleanup now

theorem Tracked.respond (tracked : v.Tracked) (response : VerificationResponse)
    (now : Timestamp) :
    Tracked { v with service := (v.service.processVerificationResponse ed response now).1 } := by
  intro peerId challenge h
  apply tracked peerId challenge
  unfold VerificationService.processVerificationResponse at h
  cases hpending : v.service.pendingChallenges.lookup response.responderQr.peerId with
  | none => simpa only [hpending] using h
  | some other =>
    simp only [hpending] at h
    rw [Map.lookup_erase_if] at h
    split_ifs at h
    exact h

theorem Tracked.step (tracked : v.Tracked) (call : VerificationCall) :
    (v.step codec ed call).1.Tracked := by
  cases call with
  | scan uri ourNonce now => exact tracked.scan uri ourNonce now
  | respond response now => exact tracked.respond response now
  | cleanup now => exact tracked.cleanup now
  | configure config => exact tracked

/-- With the key of the scanned code, the response's own key is the right one. -/
theorem Tracked.authenticated (tracked : v.Tracked) {call : VerificationCall}
    (sameKey : v.SameKey call) : v.Authenticated codec ed call := by
  cases call with
  | respond response now =>
    intro peerId nickname verifiedAt success
    obtain ⟨rfl, challenge, hpending, hopen, answers, accepted⟩ :=
      VerificationService.processVerificationResponse_success (Option.some.inj success)
    have key := sameKey challenge hpending hopen answers
    exact ⟨challenge, hpending, tracked _ challenge hpending, key ▸ accepted⟩
  | scan => trivial
  | cleanup => trivial
  | configure => trivial

/-- Whatever is scanned and answered, every success of a run is authenticated by
the scanned code when the responses bring along its key. -/
theorem run_authenticated (codec : QrCodec) (ed : Ed25519) (config : VerificationConfig)
    (signingSecret noisePublicKey : Key32) (nickname : Option Text)
    (calls : List VerificationCall)
    (sameKey : Along (step codec ed) SameKey (new config signingSecret noisePublicKey nickname)
      calls) :
    Along (step codec ed) (Authenticated codec ed)
      (new config signingSecret noisePublicKey nickname) calls := by
  apply along_of_invariant (I := Tracked) ?_ ?_ ?_ sameKey
  · intro v call tracked _
    exact tracked.step call
  · intro v call tracked hcall
    exact tracked.authenticated hcall
  · intro peerId challenge h
    rw [new, VerificationService.new, Finmap.lookup_empty] at h
    cases h

/-- A signature that shows the key and the sum of the message. -/
def label (key : Key32) (message : Bytes) : Signature64 :=
  ⟨key.toList ++ List.replicate 32 (message.foldl (· + ·) 0), by simp⟩

def labelEd25519 : Ed25519 where
  publicKey := id
  sign := label
  verify := fun key message signature => signature == label key message

def noiseKey : Key32 := List.Vector.replicate 32 3

/-- A code for the peer with `noiseKey`, made with a signing key of one's choice. -/
def code (secret : Key32) : VerificationQR where
  version := 1
  noisePublicKey := noiseKey
  signingPublicKey := labelEd25519.publicKey secret
  nickname := some ['A']
  timestamp := ⟨1700000000000⟩
  nonce := List.Vector.replicate 32 5
  signature := (label secret (SignedFields.write (1, noiseKey, labelEd25519.publicKey secret,
    some ['A'], ⟨1700000000000⟩, List.Vector.replicate 32 5))).toList

def scannedCode : VerificationQR := code (List.Vector.replicate 32 4)

def scannedUri : Text :=
  VerificationQR.uriPrefix ++ Base64.urlSafeNoPad.encode scannedCode.write

def scanner : Verifier :=
  new ⟨300000000000, 10⟩ (List.Vector.replicate 32 8) (List.Vector.replicate 32 9) none

/-- The challenge that scanning the code opens. -/
def opened : PendingChallenge where
  nonceA := List.Vector.replicate 32 5
  nonceB := List.Vector.replicate 32 6
  expiresAt := ⟨1700000300000⟩
  peerQr := scannedCode

def scanCall : VerificationCall :=
  .scan scannedUri (List.Vector.replicate 32 6) ⟨1700000000000⟩

/-- An answer to the challenge by whoever has `secret`. -/
def answer (secret : Key32) : VerificationCall :=
  .respond (VerificationResponse.new labelEd25519 opened secret (code secret)) ⟨1700000001000⟩

theorem lookup_opened :
    (step QrCodec.standard labelEd25519 scanner scanCall).1.service.pendingChallenges.lookup
      (PeerId.fromNoiseKey noiseKey) = some opened := by
  decide +kernel

theorem run_authenticated_answer :
    Along (step QrCodec.standard labelEd25519) (Authenticated QrCodec.standard labelEd25519)
      scanner [scanCall, answer (List.Vector.replicate 32 4)] := by
  have sameKey : SameKey (step QrCodec.standard labelEd25519 scanner scanCall).1
      (answer (List.Vector.replicate 32 4)) := by
    rintro challenge (hpending : Finmap.lookup (PeerId.fromNoiseKey noiseKey) _ = _) _ _
    rw [lookup_opened] at hpending
    obtain rfl := Option.some.inj hpending
    rfl
  apply run_authenticated
  exact ⟨trivial, sameKey, trivial⟩

/-- Somebody else's key, together with the Noise key of the scanned code. -/
theorem foreign_key_succeeds :
    outputs (step QrCodec.standard labelEd25519) scanner
        [scanCall, answer (List.Vector.replicate 32 7)] =
      [none, some (.ok (.success (PeerId.fromNoiseKey noiseKey) (some ['A']) ⟨1700000001000⟩))] ∧
    ¬ Along (step QrCodec.standard labelEd25519) (Authenticated QrCodec.standard labelEd25519)
        scanner [scanCall, answer (List.Vector.replicate 32 7)] := by
  have succeeds : outputs (step QrCodec.standard labelEd25519) scanner
        [scanCall, answer (List.Vector.replicate 32 7)] =
      [none, some (.ok (.success (PeerId.fromNoiseKey noiseKey) (some ['A'])
        ⟨1700000001000⟩))] := by decide +kernel
  refine ⟨succeeds, ?_⟩
  rintro ⟨_, authenticated, _⟩
  obtain ⟨challenge, hpending, _, accepted⟩ :=
    authenticated _ _ _ (List.cons.inj (List.cons.inj succeeds).2).1
  rw [lookup_opened] at hpending
  obtain rfl := Option.some.inj hpending
  revert accepted
  decide +kernel

end Verifier

end Bitchat
