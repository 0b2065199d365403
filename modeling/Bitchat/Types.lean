import Bitchat.Rust.BigEndian
import Bitchat.Rust.Hex

/-!
# Identifiers, times and errors

The newtypes of `types.rs` and the part of `BitchatError` that the modelled
functions return. A `usize` or a counter is a natural number; the fields that
travel in a packet keep their machine width.
-/
namespace Bitchat
open Rust

abbrev Key32 := List.Vector UInt8 32
abbrev Signature64 := List.Vector UInt8 64

/-- `PeerId([u8; 8])`. -/
structure PeerId where
  bytes : List.Vector UInt8 8
  deriving DecidableEq

namespace PeerId

def asBytes (p : PeerId) : Bytes := p.bytes.toList

@[simp] theorem asBytes_length (p : PeerId) : p.asBytes.length = 8 := p.bytes.toList_length

theorem asBytes_injective : Function.Injective asBytes := by
  intro p q h
  cases p; cases q
  congr
  exact List.Vector.toList_injective h

/-- The first 8 bytes of a Noise public key. -/
def fromNoiseKey (key : Key32) : PeerId :=
  ⟨⟨key.toList.take 8, by simp⟩⟩

/-- `PeerId([0xFF; 8])`, the addressee of broadcast packets. -/
def broadcast : PeerId := ⟨List.Vector.replicate 8 0xFF⟩

end PeerId

/-- The `Display` text of a peer id. -/
def PeerId.display (p : PeerId) : String := hexEncode p.asBytes

/-- `Fingerprint([u8; 32])`, the hash of a public key. -/
structure Fingerprint where
  bytes : Key32
  deriving DecidableEq

/-- Milliseconds since the Unix epoch. -/
structure Timestamp where
  asMillis : UInt64
  deriving DecidableEq, Repr

/-- `timestamp + n`, which panics when it overflows. -/
def Timestamp.plus {ε : Type} (t : Timestamp) (n : UInt64) : Outcome ε Timestamp :=
  if t.asMillis.toNat + n.toNat < 2 ^ 64 then .ok ⟨t.asMillis + n⟩ else panicked

/-- Time to live of a packet. -/
structure Ttl where
  value : UInt8
  deriving DecidableEq, Repr

namespace Ttl

def default : Ttl := ⟨7⟩

/-- `None` when there is nothing left to decrement. -/
def decrement (t : Ttl) : Option Ttl :=
  if 0 < t.value then some ⟨t.value - 1⟩ else none

end Ttl

inductive SessionError where
  | sessionNotFound (peerId : String)
  | invalidState (peerId expected actual : String)
  deriving DecidableEq, Repr

inductive TransportError where
  | connectionFailed (peerId reason : String)
  | receiveFailed (reason : String)
  | timeout (durationMs : UInt64)
  | invalidConfiguration (reason : String)
  | peerNotFound (peerId : String)
  deriving DecidableEq, Repr

/-- The errors of the modelled functions. The payload of a library error is its
rendered text. -/
inductive BitchatError where
  | serialization (error : String)
  | invalidPacket (message : String)
  | noise (error : String)
  | transport (e : TransportError)
  | session (e : SessionError)
  | signature
  | rateLimited (reason : String)
  | invalidTlvType (value : UInt8)
  | tlvValueTooLarge (size : ℕ)
  | invalidUtf8
  | invalidKeyLength (size : ℕ)
  | invalidDataLength (size : ℕ)
  | insufficientData (size : ℕ)
  | missingRequiredTlv (value : UInt8)
  deriving DecidableEq, Repr

/-- The `Display` texts of the errors. -/
def SessionError.display : SessionError → String
  | .sessionNotFound peerId => "Session not found for peer " ++ peerId
  | .invalidState peerId expected actual =>
    "Session state invalid for peer " ++ peerId ++ ": expected " ++ expected ++ ", got " ++ actual

def TransportError.display : TransportError → String
  | .connectionFailed peerId reason => "Connection failed to peer " ++ peerId ++ ": " ++ reason
  | .receiveFailed reason => "Receive failed: " ++ reason
  | .timeout durationMs => "Transport timeout after " ++ toString durationMs ++ "ms"
  | .invalidConfiguration reason => "Invalid transport configuration: " ++ reason
  | .peerNotFound peerId => "Peer not found: " ++ peerId

def BitchatError.display : BitchatError → String
  | .serialization error => "Serialization error: " ++ error
  | .invalidPacket message => "Invalid packet: " ++ message
  | .noise error => "Noise protocol error: " ++ error
  | .transport e => "Transport error: " ++ e.display
  | .session e => "Session error: " ++ e.display
  | .signature => "Signature verification failed"
  | .rateLimited reason => "Rate limited: " ++ reason
  | .invalidTlvType value => "Invalid TLV type: " ++ toString value
  | .tlvValueTooLarge size => "TLV value too large: " ++ toString size ++ " bytes"
  | .invalidUtf8 => "Invalid UTF-8 encoding"
  | .invalidKeyLength size =>
    "Invalid key length: " ++ toString size ++ " bytes (expected 32)"
  | .invalidDataLength size => "Invalid data length: " ++ toString size ++ " bytes"
  | .insufficientData size => "Insufficient data: " ++ toString size ++ " bytes available"
  | .missingRequiredTlv value => "Missing required TLV type: " ++ toString value

/-- `Result<T>` of the crate. -/
abbrev BitchatResult (α : Type) := Outcome BitchatError α

/-- `Err(BitchatError::invalid_packet(message))`. -/
def invalidPacket {α : Type} (message : String) : BitchatResult α :=
  fail (.invalidPacket message)

/-- `if c { return Err(BitchatError::invalid_packet(message)) }`. -/
def rejectIf (c : Prop) [Decidable c] (message : String) : BitchatResult Unit :=
  failIf c (.invalidPacket message)

@[simp] theorem rejectIf_bind_eq_ok {α : Type} {c : Prop} [Decidable c] {message : String}
    {f : Unit → BitchatResult α} {a : α} :
    (rejectIf c message >>= f) = .ok a ↔ ¬ c ∧ f () = .ok a := failIf_bind_eq_ok

@[simp] theorem rejectIf_eq_ok {c : Prop} [Decidable c] {message : String} {u : Unit} :
    rejectIf c message = .ok u ↔ ¬ c := failIf_eq_ok

@[simp] theorem invalidPacket_ne_ok {α : Type} (message : String) (a : α) :
    invalidPacket message ≠ .ok a := fail_ne_ok _ _

end Bitchat
