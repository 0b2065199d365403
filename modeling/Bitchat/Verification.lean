import Bitchat.Rust.Base64
import Bitchat.Rust.Bincode
import Bitchat.Rust.Call
import Bitchat.Rust.Map
import Bitchat.Signing

/-!
# Verification by QR code

`VerificationQR`, the challenge and response, and `VerificationService` of
`verification.rs`. A scan opens a challenge for the scanned peer, and a response
closes it. The codecs, Ed25519 and the random nonces are parameters.
-/
namespace Bitchat
open Rust

structure VerificationConfig where
  challengeTimeoutNanos : ℕ
  maxPendingChallenges : ℕ

def nanosPerMilli : ℕ := 1000000

structure VerificationQR where
  version : UInt8
  noisePublicKey : Key32
  signingPublicKey : Key32
  nickname : Option Text
  timestamp : Timestamp
  nonce : Key32
  signature : Bytes
  deriving DecidableEq

/-- The fields that a code's own signature covers. -/
abbrev SignedFields := UInt8 × Key32 × Key32 × Option Text × Timestamp × Key32

/-- The codecs that a code passes through. -/
structure QrCodec where
  base64 : Base64Engine
  bincode : Bincode VerificationQR
  serializeFields : SignedFields → Except String Bytes

def SignedFields.write : SignedFields → Bytes
  | (version, noisePublicKey, signingPublicKey, nickname, timestamp, nonce) =>
    version :: (noisePublicKey.toList ++ (signingPublicKey.toList ++
      (Bincode.writeOption Bincode.writeText nickname ++
        (Bincode.writeU64 timestamp.asMillis ++ nonce.toList))))

def SignedFields.read : Bincode.Reader SignedFields := fun bytes => do
  let (version, bytes) ← Bincode.readU8 bytes
  let (noisePublicKey, bytes) ← Bincode.readArray 32 bytes
  let (signingPublicKey, bytes) ← Bincode.readArray 32 bytes
  let (nickname, bytes) ← Bincode.readOption Bincode.readText bytes
  let (millis, bytes) ← Bincode.readU64 bytes
  let (nonce, bytes) ← Bincode.readArray 32 bytes
  pure ((version, noisePublicKey, signingPublicKey, nickname, ⟨millis⟩, nonce), bytes)

/-- Whether the bytes are a signature, 64 in number, that the key accepts. -/
def Ed25519.accepts (ed : Ed25519) (publicKey : Key32) (data signature : Bytes) : Bool :=
  if h : signature.length = 64 then ed.verify publicKey data ⟨signature, h⟩ else false

namespace VerificationQR

def uriPrefix : Text := "bitchat://verify?data=".toList

def signedFields (qr : VerificationQR) : SignedFields :=
  (qr.version, qr.noisePublicKey, qr.signingPublicKey, qr.nickname, qr.timestamp, qr.nonce)

/-- A library error behind a message. -/
def mapInvalid {α : Type} (message : String) : Except String α → BitchatResult α :=
  mapErr fun e => .invalidPacket (message ++ e)

section

variable (codec : QrCodec) (ed : Ed25519)

def signableData (qr : VerificationQR) : BitchatResult Bytes :=
  mapInvalid "Failed to serialize QR data: " (codec.serializeFields qr.signedFields)

def new (noisePublicKey secret : Key32) (nickname : Option Text) (nonce : Key32)
    (now : Timestamp) : BitchatResult VerificationQR := do
  let qr : VerificationQR :=
    ⟨1, noisePublicKey, ed.publicKey secret, nickname, now, nonce, []⟩
  let dataToSign ← qr.signableData codec
  pure { qr with signature := (ed.sign secret dataToSign).toList }

/-- The length is looked at before the data is put together. -/
def verifySelfSignature (qr : VerificationQR) : BitchatResult Bool :=
  if qr.signature.length ≠ 64 then .ok false
  else do
    let dataToVerify ← qr.signableData codec
    pure (ed.accepts qr.signingPublicKey dataToVerify qr.signature)

def toUri (qr : VerificationQR) : BitchatResult Text := do
  let serialized ← mapInvalid "Failed to serialize QR: " (codec.bincode.serialize qr)
  pure (uriPrefix ++ codec.base64.encode serialized)

def fromUri (uri : Text) : BitchatResult VerificationQR := do
  rejectIf (¬ uriPrefix <+: uri) "Invalid verification URI format"
  let serialized ← mapInvalid "Invalid base64: " (codec.base64.decode (uri.drop uriPrefix.length))
  let qr ← mapInvalid "Failed to deserialize QR: " (codec.bincode.deserialize serialized)
  let verified ← qr.verifySelfSignature codec ed
  rejectIf (verified = false) "Invalid QR self-signature"
  pure qr

end

/-- A code from the future counts as new. -/
def isExpired (qr : VerificationQR) (timeoutNanos : ℕ) (now : Timestamp) : Bool :=
  timeoutNanos < (now.asMillis.toNat - qr.timestamp.asMillis.toNat) * nanosPerMilli

def peerId (qr : VerificationQR) : PeerId := PeerId.fromNoiseKey qr.noisePublicKey

/-- The layout of a code: its signed fields and its signature. -/
def write (qr : VerificationQR) : Bytes := qr.signedFields.write ++ Bincode.writeBytes qr.signature

def read : Bincode.Reader VerificationQR := fun bytes => do
  let (fields, bytes) ← SignedFields.read bytes
  let (signature, bytes) ← Bincode.readBytes bytes
  let (version, noisePublicKey, signingPublicKey, nickname, timestamp, nonce) := fields
  pure (⟨version, noisePublicKey, signingPublicKey, nickname, timestamp, nonce, signature⟩, bytes)

/-- The nickname and the signature have lengths that the layout can hold. -/
def Fits (qr : VerificationQR) : Prop :=
  (∀ name ∈ qr.nickname, name.asBytes.length < 2 ^ 64) ∧ qr.signature.length < 2 ^ 64

instance (qr : VerificationQR) : Decidable qr.Fits :=
  inferInstanceAs (Decidable (_ ∧ _))

/-- Bytes after a code are not looked at. -/
def defaultBincode : Bincode VerificationQR where
  serialize qr := if qr.Fits then .ok qr.write else .error "too long"
  deserialize bytes :=
    match read bytes with
    | some (qr, _) => .ok qr
    | none => .error "unexpected end of file"

theorem reads_signedFields {qr : VerificationQR} (fits : qr.Fits) :
    Bincode.Reads SignedFields.read qr.signedFields.write qr.signedFields := by
  intro rest
  have name := Bincode.reads_option qr.nickname fun n hn => Bincode.reads_text (fits.1 n hn)
  simp [SignedFields.read, SignedFields.write, signedFields, Bincode.readU8, List.append_assoc,
    Bincode.reads_array _ _, name _, Bincode.reads_u64 _ _]

theorem reads_write {qr : VerificationQR} (fits : qr.Fits) : Bincode.Reads read qr.write qr := by
  intro rest
  simp [read, write, List.append_assoc, reads_signedFields fits _, Bincode.reads_bytes fits.2 _]
  rfl

theorem defaultBincode_roundTrips : defaultBincode.RoundTrips := by
  intro qr bytes h
  simp only [defaultBincode] at h ⊢
  split_ifs at h with fits
  have found := reads_write fits []
  rw [List.append_nil, Except.ok.inj h] at found
  rw [found]

variable {codec : QrCodec} {ed : Ed25519}

/-- A code that carries its own signature is read back from its address. -/
theorem fromUri_toUri (hbase : codec.base64.RoundTrips) (hbin : codec.bincode.RoundTrips)
    {qr : VerificationQR} {uri : Text} (signed : qr.verifySelfSignature codec ed = .ok true)
    (h : qr.toUri codec = .ok uri) : fromUri codec ed uri = .ok qr := by
  obtain ⟨serialized, hserialized, hpure⟩ := bind_eq_ok.mp h
  obtain rfl := Except.ok.inj hpure
  have written : codec.bincode.serialize qr = .ok serialized := mapErr_eq_ok.mp hserialized
  have back : (uriPrefix ++ codec.base64.encode serialized).drop uriPrefix.length =
      codec.base64.encode serialized := List.drop_left
  simp [fromUri, mapInvalid, mapErr, hbase serialized, hbin qr serialized written, signed]

/-- An accepted address is that of a code with its own signature. -/
theorem verifySelfSignature_of_fromUri {qr : VerificationQR} {uri : Text}
    (h : fromUri codec ed uri = .ok qr) : qr.verifySelfSignature codec ed = .ok true := by
  obtain ⟨_, h⟩ := rejectIf_bind_eq_ok.mp h
  obtain ⟨serialized, _, h⟩ := bind_eq_ok.mp h
  obtain ⟨found, _, h⟩ := bind_eq_ok.mp h
  obtain ⟨verified, hverified, h⟩ := bind_eq_ok.mp h
  obtain ⟨hverified', h⟩ := rejectIf_bind_eq_ok.mp h
  obtain rfl := Except.ok.inj h
  rw [hverified, Bool.not_eq_false _ |>.mp hverified']

end VerificationQR

/-- The codecs in the configuration of the source. -/
def QrCodec.standard : QrCodec where
  base64 := Base64.urlSafeNoPad
  bincode := VerificationQR.defaultBincode
  serializeFields := fun fields =>
    if ∀ name ∈ fields.2.2.2.1, name.asBytes.length < 2 ^ 64 then .ok fields.write
    else .error "too long"

structure PendingChallenge where
  nonceA : Key32
  nonceB : Key32
  expiresAt : Timestamp
  peerQr : VerificationQR
  deriving DecidableEq

namespace PendingChallenge

def challengeData (c : PendingChallenge) : Bytes := c.nonceA.toList ++ c.nonceB.toList

def isExpired (c : PendingChallenge) (now : Timestamp) : Bool :=
  c.expiresAt.asMillis < now.asMillis

end PendingChallenge

structure VerificationResponse where
  challengeNonceA : Key32
  challengeNonceB : Key32
  signature : Bytes
  responderQr : VerificationQR
  deriving DecidableEq

namespace VerificationResponse

def new (ed : Ed25519) (challenge : PendingChallenge) (secret : Key32)
    (responderQr : VerificationQR) : VerificationResponse :=
  ⟨challenge.nonceA, challenge.nonceB, (ed.sign secret challenge.challengeData).toList, responderQr⟩

/-- The response repeats the nonces of the challenge. -/
def Answers (response : VerificationResponse) (challenge : PendingChallenge) : Prop :=
  response.challengeNonceA = challenge.nonceA ∧ response.challengeNonceB = challenge.nonceB

/-- The signature is checked against the key that the response brings along. -/
def verify (ed : Ed25519) (response : VerificationResponse) (challenge : PendingChallenge) :
    BitchatResult Bool :=
  if response.challengeNonceA ≠ challenge.nonceA ∨
      response.challengeNonceB ≠ challenge.nonceB then .ok false
  else .ok (ed.accepts response.responderQr.signingPublicKey challenge.challengeData
    response.signature)

end VerificationResponse

/-- The error stands for its debug text in the reason of a failure. -/
inductive VerificationResult where
  | success (peerId : PeerId) (nickname : Option Text) (verifiedAt : Timestamp)
  | failed (peerId : PeerId) (reason : BitchatError)
  | expired (peerId : PeerId)
  | invalidSignature (peerId : PeerId)
  deriving DecidableEq

structure VerificationService where
  config : VerificationConfig
  pendingChallenges : Map PeerId PendingChallenge
  signingSecret : Key32
  noisePublicKey : Key32
  nickname : Option Text

namespace VerificationService

section

variable (codec : QrCodec) (ed : Ed25519)

def new (config : VerificationConfig) (signingSecret noisePublicKey : Key32)
    (nickname : Option Text) : VerificationService :=
  ⟨config, ∅, signingSecret, noisePublicKey, nickname⟩

def generateVerificationQr (s : VerificationService) (nonce : Key32) (now : Timestamp) :
    BitchatResult VerificationQR :=
  VerificationQR.new codec ed s.noisePublicKey s.signingSecret s.nickname nonce now

def createChallengeResponse (s : VerificationService) (challenge : PendingChallenge)
    (nonce : Key32) (now : Timestamp) : BitchatResult VerificationResponse := do
  let ourQr ← s.generateVerificationQr codec ed nonce now
  pure (VerificationResponse.new ed challenge s.signingSecret ourQr)

def cleanupExpiredChallenges (s : VerificationService) (now : Timestamp) : VerificationService :=
  { s with
    pendingChallenges := Map.retain (fun _ c => !c.isExpired now) s.pendingChallenges }

/-- The time at which a challenge that is made now expires. The timeout is cast
to 64 bits of milliseconds. -/
def expiry (s : VerificationService) (now : Timestamp) : BitchatResult Timestamp :=
  now.plus (UInt64.ofNat (s.config.challengeTimeoutNanos / nanosPerMilli))

/-- Opens a challenge for the peer of a code that is in date. -/
def openChallenge (s : VerificationService) (peerQr : VerificationQR) (ourNonce : Key32)
    (now : Timestamp) : Call BitchatError VerificationService PendingChallenge :=
  if s.config.maxPendingChallenges ≤ Map.size s.pendingChallenges then
    (s, invalidPacket "Too many pending challenges")
  else
    match s.expiry now with
    | .error e => (s, .error e)
    | .ok expiresAt =>
      let challenge : PendingChallenge := ⟨peerQr.nonce, ourNonce, expiresAt, peerQr⟩
      ({ s with pendingChallenges := s.pendingChallenges.insert peerQr.peerId challenge },
        .ok challenge)

def processScannedQr (s : VerificationService) (uri : Text) (ourNonce : Key32)
    (now : Timestamp) : Call BitchatError VerificationService PendingChallenge :=
  match VerificationQR.fromUri codec ed uri with
  | .error e => (s, .error e)
  | .ok peerQr =>
    if peerQr.isExpired s.config.challengeTimeoutNanos now then
      (s, invalidPacket "QR code has expired")
    else (s.cleanupExpiredChallenges now).openChallenge peerQr ourNonce now

/-- The answer to a response, given the challenge that it closes. -/
def judge (response : VerificationResponse) (challenge : PendingChallenge) (now : Timestamp) :
    VerificationResult :=
  let peerId := response.responderQr.peerId
  if challenge.isExpired now then .expired peerId
  else
    match response.verify ed challenge with
    | .ok true => .success peerId response.responderQr.nickname now
    | .ok false => .invalidSignature peerId
    | .error (.err e) => .failed peerId e
    | .error .panic => .invalidSignature peerId

/-- The challenge is taken out of the table whatever the answer. -/
def processVerificationResponse (s : VerificationService) (response : VerificationResponse)
    (now : Timestamp) : Call BitchatError VerificationService VerificationResult :=
  let peerId := response.responderQr.peerId
  match s.pendingChallenges.lookup peerId with
  | none => (s, invalidPacket "No pending challenge for peer")
  | some challenge =>
    ({ s with pendingChallenges := s.pendingChallenges.erase peerId },
      .ok (judge ed response challenge now))

end

variable {codec : QrCodec} {ed : Ed25519} {s : VerificationService}

/-- A scan opens the challenge of the scanned code after a clean-up, when there
is room for it, or it fails and opens none. -/
theorem processScannedQr_cases (codec : QrCodec) (ed : Ed25519) (s : VerificationService)
    (uri : Text) (ourNonce : Key32) (now : Timestamp) :
    (∃ challenge, s.processScannedQr codec ed uri ourNonce now =
        ({ s.cleanupExpiredChallenges now with
          pendingChallenges := (s.cleanupExpiredChallenges now).pendingChallenges.insert
            challenge.peerQr.peerId challenge }, .ok challenge) ∧
      VerificationQR.fromUri codec ed uri = .ok challenge.peerQr ∧
      challenge.peerQr.isExpired s.config.challengeTimeoutNanos now = false ∧
      Map.size (s.cleanupExpiredChallenges now).pendingChallenges <
        s.config.maxPendingChallenges ∧
      s.expiry now = .ok challenge.expiresAt ∧
      challenge.nonceA = challenge.peerQr.nonce ∧ challenge.nonceB = ourNonce) ∨
    ∃ e, s.processScannedQr codec ed uri ourNonce now = (s, .error e) ∨
      s.processScannedQr codec ed uri ourNonce now =
        (s.cleanupExpiredChallenges now, .error e) := by
  unfold processScannedQr openChallenge
  cases hread : VerificationQR.fromUri codec ed uri with
  | error e => exact Or.inr ⟨e, Or.inl rfl⟩
  | ok peerQr =>
    by_cases hexpired : peerQr.isExpired s.config.challengeTimeoutNanos now = true
    · right
      exact ⟨_, Or.inl (if_pos hexpired)⟩
    · simp only [if_neg hexpired]
      have hconfig : (s.cleanupExpiredChallenges now).config = s.config := rfl
      by_cases hfull : s.config.maxPendingChallenges ≤
          Map.size (s.cleanupExpiredChallenges now).pendingChallenges
      · right
        exact ⟨_, Or.inr (if_pos hfull)⟩
      · simp only [hconfig, if_neg hfull]
        have hsame : (s.cleanupExpiredChallenges now).expiry now = s.expiry now := rfl
        cases hexpiry : s.expiry now with
        | error e =>
          right
          exact ⟨e, Or.inr (by rw [hsame, hexpiry])⟩
        | ok expiresAt =>
          left
          refine ⟨⟨peerQr.nonce, ourNonce, expiresAt, peerQr⟩, by rw [hsame, hexpiry], rfl, ?_, ?_,
            rfl, rfl, rfl⟩
          · simpa using hexpired
          · omega

theorem lookup_cleanup {now : Timestamp} {peerId : PeerId} {challenge : PendingChallenge}
    (h : (s.cleanupExpiredChallenges now).pendingChallenges.lookup peerId = some challenge) :
    s.pendingChallenges.lookup peerId = some challenge :=
  (Map.mem_retain_entries.mp h).1

/-- A success names the peer of the response, whose challenge was open with the
nonces of the response, and the response's own key accepts its signature. -/
theorem processVerificationResponse_success {response : VerificationResponse} {now : Timestamp}
    {peerId : PeerId} {nickname : Option Text} {verifiedAt : Timestamp}
    (h : (s.processVerificationResponse ed response now).2 =
      .ok (.success peerId nickname verifiedAt)) :
    peerId = response.responderQr.peerId ∧
      ∃ challenge, s.pendingChallenges.lookup peerId = some challenge ∧
        challenge.isExpired now = false ∧ response.Answers challenge ∧
        ed.accepts response.responderQr.signingPublicKey challenge.challengeData
          response.signature = true := by
  unfold processVerificationResponse judge VerificationResponse.verify at h
  cases hpending : s.pendingChallenges.lookup response.responderQr.peerId with
  | none =>
    simp only [hpending] at h
    exact absurd h (invalidPacket_ne_ok _ _)
  | some challenge =>
    simp only [hpending] at h
    have hjudge := Except.ok.inj h
    split_ifs at hjudge with hexpired hnonces
    · cases haccept : ed.accepts response.responderQr.signingPublicKey challenge.challengeData
        response.signature with
      | false =>
        rw [haccept] at hjudge
        cases hjudge
      | true =>
        rw [haccept] at hjudge
        cases hjudge
        simp only [not_or, not_not] at hnonces
        exact ⟨rfl, challenge, hpending, by simpa using hexpired, hnonces, haccept⟩

end VerificationService

end Bitchat
