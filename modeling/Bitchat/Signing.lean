import Bitchat.Packet
import Mathlib.Data.Set.Function

/-!
# What a packet signature covers

`BitchatPacket::sign` and `verify_signature`. The signed bytes are the digest of
a concatenation in which the recipient is optional and nothing marks its
presence. Two packets are compared through that concatenation, and from it
follows when the signature of the one is accepted on the other.
-/
namespace Bitchat
open Rust

/-- Ed25519 as the crate uses it. `verify` is false when the key does not decode. -/
structure Ed25519 where
  publicKey : Key32 → Key32
  sign : Key32 → Bytes → Signature64
  verify : Key32 → Bytes → Signature64 → Bool

/-- Among `messages`, a signature is accepted on the message it was made for and
on no other. -/
def Ed25519.UnforgeableOn (ed : Ed25519) (messages : Set Bytes) : Prop :=
  ∀ secret, ∀ m ∈ messages, ∀ m' ∈ messages,
    ed.verify (ed.publicKey secret) m' (ed.sign secret m) = true ↔ m' = m

/-- A signature is accepted on the message it was made for, under the matching key. -/
def Ed25519.AcceptsOwn (ed : Ed25519) : Prop :=
  ∀ secret m, ed.verify (ed.publicKey secret) m (ed.sign secret m) = true

/-- `IdentityKeyPair::verify`. -/
def Ed25519.verifyResult (ed : Ed25519) (publicKey : Key32) (data : Bytes)
    (signature : Signature64) : BitchatResult Unit :=
  failIf (ed.verify publicKey data signature = false) .signature

namespace BitchatPacket

/-- The bytes of `b"bitchat-packet-v1"`. -/
def signingContext : Bytes :=
  [0x62, 0x69, 0x74, 0x63, 0x68, 0x61, 0x74, 0x2d, 0x70, 0x61, 0x63, 0x6b, 0x65, 0x74, 0x2d,
    0x76, 0x31]

/-- The bytes fed to the hasher, in the order of the updates. -/
def canonicalPreimage (p : BitchatPacket) : Bytes :=
  signingContext ++ [p.header.version] ++ [p.header.messageType.asU8] ++
    u64ToBeBytes p.header.timestamp.asMillis ++ p.senderId.asBytes ++
    (p.recipientId.elim [] PeerId.asBytes) ++ p.payload

def withSignature (p : BitchatPacket) (signature : Signature64) : BitchatPacket :=
  { p with
    signature := some signature
    header := { p.header with flags := p.header.flags.withSignature } }

section

variable (sha256 : Bytes → Key32) (ed : Ed25519)

def canonicalBytesForSigning (p : BitchatPacket) : Bytes := (sha256 p.canonicalPreimage).toList

def sign (secret : Key32) (p : BitchatPacket) : BitchatPacket :=
  p.withSignature (ed.sign secret (p.canonicalBytesForSigning sha256))

def verifySignature (p : BitchatPacket) (publicKey : Key32) : BitchatResult Unit := do
  let signature ← okOr p.signature (.invalidPacket "No signature present for verification")
  ed.verifyResult publicKey (p.canonicalBytesForSigning sha256) signature

end

/-- A difference in a field that the signature is meant to bind. -/
def Differs (p q : BitchatPacket) : Prop :=
  p.header.version ≠ q.header.version ∨ p.header.messageType ≠ q.header.messageType ∨
    p.header.timestamp ≠ q.header.timestamp ∨ p.senderId ≠ q.senderId ∨
    p.recipientId ≠ q.recipientId ∨ p.route ≠ q.route ∨ p.payload ≠ q.payload ∨
    p.header.flags.isCompressed ≠ q.header.flags.isCompressed ∨
    p.header.flags.hasRoute ≠ q.header.flags.hasRoute

/-- Recipient and payload tell two packets apart: with equally many recipients
one of the two differs; otherwise the payload of the broadcast packet does not
start with the recipient of the other and go on as its payload. -/
def BodyDistinct (p q : BitchatPacket) : Prop :=
  match p.recipientId, q.recipientId with
  | none, none => p.payload ≠ q.payload
  | some r, some s => r ≠ s ∨ p.payload ≠ q.payload
  | some r, none => q.payload ≠ r.asBytes ++ p.payload
  | none, some s => p.payload ≠ s.asBytes ++ q.payload

/-- The differences that reach the hasher. -/
def Distinguished (p q : BitchatPacket) : Prop :=
  p.header.version ≠ q.header.version ∨ p.header.messageType ≠ q.header.messageType ∨
    p.header.timestamp ≠ q.header.timestamp ∨ p.senderId ≠ q.senderId ∨ BodyDistinct p q

theorem recipientPayload_eq_iff (p q : BitchatPacket) :
    p.recipientId.elim [] PeerId.asBytes ++ p.payload =
      q.recipientId.elim [] PeerId.asBytes ++ q.payload ↔ ¬ BodyDistinct p q := by
  unfold BodyDistinct
  cases p.recipientId with
  | none =>
    cases q.recipientId with
    | none => simp
    | some s => simp
  | some r =>
    cases q.recipientId with
    | none => simp [eq_comm]
    | some s =>
      simp only [Option.elim_some, ne_eq, not_or, not_not]
      constructor
      · intro h
        obtain ⟨hr, hp⟩ := List.append_inj h (by simp)
        exact ⟨PeerId.asBytes_injective hr, hp⟩
      · rintro ⟨rfl, hp⟩
        rw [hp]

/-- The part in front of recipient and payload has a fixed layout, so that the
preimage determines every field in it. -/
theorem canonicalPreimage_eq_iff (p q : BitchatPacket) :
    p.canonicalPreimage = q.canonicalPreimage ↔ ¬ Distinguished p q := by
  have hbody := recipientPayload_eq_iff p q
  unfold canonicalPreimage Distinguished
  simp only [List.append_assoc, ne_eq, not_or, not_not]
  constructor
  · intro h
    obtain ⟨_, h⟩ := List.append_inj h rfl
    obtain ⟨hversion, h⟩ := List.append_inj h rfl
    obtain ⟨htype, h⟩ := List.append_inj h rfl
    obtain ⟨hts, h⟩ := List.append_inj h (by simp)
    obtain ⟨hsender, h⟩ := List.append_inj h (by simp)
    refine ⟨by simpa using hversion, MessageType.asU8_injective (by simpa using htype), ?_,
      PeerId.asBytes_injective hsender, hbody.mp h⟩
    have hmillis := u64ToBeBytes_injective hts
    cases hp : p.header.timestamp
    cases hq : q.header.timestamp
    rw [hp, hq] at hmillis
    exact congrArg Timestamp.mk hmillis
  · rintro ⟨hversion, htype, hts, hsender, h⟩
    rw [hversion, htype, hts, hsender, hbody.mpr h]

/-- Signing changes neither the hashed fields nor what they hash to. -/
@[simp] theorem canonicalPreimage_withSignature (p : BitchatPacket) (signature : Signature64) :
    (p.withSignature signature).canonicalPreimage = p.canonicalPreimage := rfl

/-- The signature of `p` is accepted on a packet that hashes the same bytes. -/
theorem verifySignature_of_preimage {sha256 : Bytes → Key32} {ed : Ed25519} {secret : Key32}
    {p q : BitchatPacket} (hown : ed.AcceptsOwn)
    (hsignature : q.signature = (p.sign sha256 ed secret).signature)
    (hpreimage : q.canonicalPreimage = p.canonicalPreimage) :
    q.verifySignature sha256 ed (ed.publicKey secret) = .ok () := by
  have haccept := hown secret (p.canonicalBytesForSigning sha256)
  have hbytes : q.canonicalBytesForSigning sha256 = p.canonicalBytesForSigning sha256 := by
    rw [canonicalBytesForSigning, hpreimage, canonicalBytesForSigning]
  rw [verifySignature, hsignature, hbytes]
  show failIf _ _ = .ok ()
  rw [failIf_eq_ok]
  simpa using haccept

/-- A packet verifies under the signer of its own bytes. -/
theorem verifySignature_sign (sha256 : Bytes → Key32) (ed : Ed25519) (secret : Key32)
    (p : BitchatPacket) (hed : ed.UnforgeableOn {p.canonicalBytesForSigning sha256}) :
    (p.sign sha256 ed secret).verifySignature sha256 ed (ed.publicKey secret) = .ok () := by
  have haccept := (hed secret _ rfl _ rfl).mpr rfl
  show failIf _ _ = .ok ()
  rw [failIf_eq_ok]
  simpa [sign, canonicalBytesForSigning] using haccept

/-- The signature made on `p` is accepted on `q` exactly when the two packets
hash the same bytes. -/
theorem verifySignature_transfer (sha256 : Bytes → Key32) (ed : Ed25519) (secret : Key32)
    (p q : BitchatPacket) (signature : Signature64)
    (hsha : Set.InjOn sha256 {p.canonicalPreimage, q.canonicalPreimage})
    (hed : ed.UnforgeableOn
      {p.canonicalBytesForSigning sha256, q.canonicalBytesForSigning sha256})
    (hsign : (p.sign sha256 ed secret).signature = some signature) :
    (q.withSignature signature).verifySignature sha256 ed (ed.publicKey secret) = .ok () ↔
      p.canonicalPreimage = q.canonicalPreimage := by
  obtain rfl := Option.some.inj hsign
  have haccept := hed secret (p.canonicalBytesForSigning sha256) (Or.inl rfl)
    (q.canonicalBytesForSigning sha256) (Or.inr rfl)
  have hdigest : q.canonicalBytesForSigning sha256 = p.canonicalBytesForSigning sha256 ↔
      p.canonicalPreimage = q.canonicalPreimage := by
    constructor
    · intro h
      exact (hsha (Or.inr rfl) (Or.inl rfl) (List.Vector.toList_injective h)).symm
    · intro h
      rw [canonicalBytesForSigning, canonicalBytesForSigning, h]
  rw [← hdigest, ← haccept]
  show failIf _ _ = .ok () ↔ _
  rw [failIf_eq_ok]
  simp [canonicalBytesForSigning]

/-- The hashed bytes of two packets differ, and with them the signature of one is
refused on the other, exactly when a difference reaches the hasher. -/
theorem signature_binds (p q : BitchatPacket) :
    (p.canonicalPreimage ≠ q.canonicalPreimage ↔ Distinguished p q) ∧
      ∀ (sha256 : Bytes → Key32) (ed : Ed25519) (secret : Key32) (signature : Signature64),
        Set.InjOn sha256 {p.canonicalPreimage, q.canonicalPreimage} →
        ed.UnforgeableOn
          {p.canonicalBytesForSigning sha256, q.canonicalBytesForSigning sha256} →
        (p.sign sha256 ed secret).signature = some signature →
        ((q.withSignature signature).verifySignature sha256 ed (ed.publicKey secret) ≠ .ok () ↔
          Distinguished p q) := by
  have hpre : p.canonicalPreimage ≠ q.canonicalPreimage ↔ Distinguished p q := by
    rw [ne_eq, canonicalPreimage_eq_iff, not_not]
  refine ⟨hpre, fun sha256 ed secret signature hsha hed hsign => ?_⟩
  rw [ne_eq, verifySignature_transfer sha256 ed secret p q signature hsha hed hsign]
  exact hpre

/-- A broadcast packet whose payload starts with eight bytes of `2`. -/
def broadcastPacket : BitchatPacket where
  header := ⟨1, .message, ⟨7⟩, ⟨1700000000000⟩, ⟨0⟩, 10⟩
  senderId := ⟨List.Vector.replicate 8 1⟩
  recipientId := none
  route := none
  payload := [2, 2, 2, 2, 2, 2, 2, 2, 0x68, 0x69]
  signature := none

/-- The packet in which these eight bytes are the recipient. -/
def privatePacket : BitchatPacket where
  header := ⟨1, .message, ⟨7⟩, ⟨1700000000000⟩, ⟨0x01⟩, 2⟩
  senderId := ⟨List.Vector.replicate 8 1⟩
  recipientId := some ⟨List.Vector.replicate 8 2⟩
  route := none
  payload := [0x68, 0x69]
  signature := none

theorem private_broadcast_same_preimage :
    broadcastPacket.validate = .ok () ∧ privatePacket.validate = .ok () ∧
      Differs broadcastPacket privatePacket ∧
      broadcastPacket.canonicalPreimage = privatePacket.canonicalPreimage := by
  refine ⟨rfl, rfl, ?_, rfl⟩
  refine Or.inr (Or.inr (Or.inr (Or.inr (Or.inl ?_))))
  simp [broadcastPacket, privatePacket]

/-- The broadcast packet as an announcement. -/
def announcePacket : BitchatPacket :=
  { broadcastPacket with header := ⟨1, .announce, ⟨7⟩, ⟨1700000000000⟩, ⟨0⟩, 10⟩ }

/-- A digest that shows the type byte, and signatures that show the digest. -/
def typeDigest (bytes : Bytes) : Key32 := List.Vector.replicate 32 (bytes.getD 18 0)

def firstByteEd25519 : Ed25519 where
  publicKey := id
  sign := fun _ m => List.Vector.replicate 64 (m.headD 0)
  verify := fun _ m signature => signature == List.Vector.replicate 64 (m.headD 0)

theorem signature_binds_announce :
    broadcastPacket.canonicalPreimage ≠ announcePacket.canonicalPreimage ∧
      (announcePacket.withSignature (List.Vector.replicate 64 2)).verifySignature typeDigest
        firstByteEd25519 (List.Vector.replicate 32 0) ≠ .ok () := by
  have hdistinct : Distinguished broadcastPacket announcePacket := Or.inr (Or.inl (by decide))
  have hbinds := signature_binds broadcastPacket announcePacket
  refine ⟨hbinds.1.mpr hdistinct,
    (hbinds.2 typeDigest firstByteEd25519 (List.Vector.replicate 32 0) _ ?_ ?_ rfl).mpr hdistinct⟩
  · rintro _ (rfl | rfl) _ (rfl | rfl) h
    · rfl
    · exact absurd h (by decide)
    · exact absurd h (by decide)
    · rfl
  · rintro _ _ (rfl | rfl) _ (rfl | rfl) <;> simp only [firstByteEd25519] <;> decide

end BitchatPacket

end Bitchat
