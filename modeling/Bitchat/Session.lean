import Bitchat.Rust.Map
import Bitchat.Types

/-!
# Noise sessions

`NoiseSession` of `session.rs` and the session table of the runtime. The Noise
library is a parameter: its handshake and transport states are opaque, and
every call returns the next state with a result or an error text.
-/
namespace Bitchat
open Rust

/-- The calls of the Noise library, over its handshake states `H` and transport
states `T`. -/
structure NoiseLibrary (H T : Type) where
  buildInitiator : Key32 → Except String H
  buildResponder : Key32 → Except String H
  writeHandshake : H → Bytes → H × Except String Bytes
  readHandshake : H → Bytes → H × Except String Bytes
  isHandshakeFinished : H → Bool
  getRemoteStatic : H → Option Key32
  intoTransportMode : H → Except String T
  writeMessage : T → Bytes → T × Except String Bytes
  readMessage : T → Bytes → T × Except String Bytes

/-- A ciphertext is sixteen bytes of tag longer than its plaintext. -/
def NoiseLibrary.Tags {H T : Type} (noise : NoiseLibrary H T) : Prop :=
  ∀ transport plaintext data, (noise.writeMessage transport plaintext).2 = .ok data →
    data.length = plaintext.length + 16

/-- A library with one fixed key: every byte is masked, and a ciphertext ends in a
tag of sixteen bytes. -/
def NoiseLibrary.masked : NoiseLibrary Unit Unit where
  buildInitiator _ := .ok ()
  buildResponder _ := .ok ()
  writeHandshake _ payload := ((), .ok payload)
  readHandshake _ message := ((), .ok message)
  isHandshakeFinished _ := false
  getRemoteStatic _ := none
  intoTransportMode _ := .error "state must be HandshakeState"
  writeMessage _ plaintext :=
    ((), .ok (plaintext.map (fun b => b ^^^ 0x5A) ++ List.replicate 16 0xC3))
  readMessage _ ciphertext :=
    ((), if ciphertext.drop (ciphertext.length - 16) = List.replicate 16 0xC3 then
        .ok ((ciphertext.take (ciphertext.length - 16)).map fun b => b ^^^ 0x5A)
      else .error "decrypt error")

/-- `map_err(BitchatError::Noise)`. -/
def mapNoise {α : Type} : Except String α → BitchatResult α := mapErr .noise

inductive SessionState where
  | handshaking
  | established
  | rekeying
  | failed
  deriving DecidableEq, Repr

structure NoiseSession (H T : Type) where
  peerId : PeerId
  peerFingerprint : Option Key32
  state : SessionState
  handshake : Option H
  transport : Option T
  createdAt : Timestamp
  lastActivity : Timestamp
  messageCount : ℕ
  rekeyThreshold : ℕ
  rekeyIntervalSecs : ℕ
  lastRekey : Timestamp

namespace NoiseSession

variable {H T : Type} (noise : NoiseLibrary H T)

/-- A session with a fresh handshake. -/
def starting (peerId : PeerId) (handshake : H) (now : Timestamp) : NoiseSession H T where
  peerId := peerId
  peerFingerprint := none
  state := .handshaking
  handshake := some handshake
  transport := none
  createdAt := now
  lastActivity := now
  messageCount := 0
  rekeyThreshold := 1000000000
  rekeyIntervalSecs := 86400
  lastRekey := now

def newOutbound (peerId : PeerId) (localKey : Key32) (now : Timestamp) :
    BitchatResult (NoiseSession H T) := do
  let handshake ← mapNoise (noise.buildInitiator localKey)
  pure (starting peerId handshake now)

def newInbound (peerId : PeerId) (localKey : Key32) (now : Timestamp) :
    BitchatResult (NoiseSession H T) := do
  let handshake ← mapNoise (noise.buildResponder localKey)
  pure (starting peerId handshake now)

/-- The call that both directions of traffic make. The message is counted and
the activity recorded also when the library reports an error. -/
def transfer (call : T → Bytes → T × Except String Bytes) (s : NoiseSession H T) (data : Bytes)
    (now : Timestamp) : NoiseSession H T × BitchatResult Bytes :=
  if s.state ≠ .established then (s, invalidPacket "Session not established")
  else
    match s.transport with
    | none =>
      (s, fail (.session (.invalidState s.peerId.display "Established" "No transport state")))
    | some transport =>
      ({ s with
          transport := some (call transport data).1
          messageCount := s.messageCount + 1
          lastActivity := now },
        mapNoise (call transport data).2)

def encrypt (s : NoiseSession H T) (plaintext : Bytes) (now : Timestamp) :
    NoiseSession H T × BitchatResult Bytes :=
  transfer noise.writeMessage s plaintext now

def decrypt (s : NoiseSession H T) (ciphertext : Bytes) (now : Timestamp) :
    NoiseSession H T × BitchatResult Bytes :=
  transfer noise.readMessage s ciphertext now

end NoiseSession

/-- `NoiseSessionManager`, as far as the core reads it. -/
structure NoiseSessionManager (H T : Type) where
  localKey : Key32
  sessions : Map PeerId (NoiseSession H T)

namespace NoiseSessionManager

variable {H T : Type}

def new (localKey : Key32) : NoiseSessionManager H T := ⟨localKey, ∅⟩

def getSession (m : NoiseSessionManager H T) (peerId : PeerId) : Option (NoiseSession H T) :=
  m.sessions.lookup peerId

/-- Writes back a session obtained by `get_session_mut`. -/
def setSession (m : NoiseSessionManager H T) (peerId : PeerId) (s : NoiseSession H T) :
    NoiseSessionManager H T :=
  { m with sessions := m.sessions.insert peerId s }

/-- The number of established sessions, the count that the core reports. -/
def establishedCount (m : NoiseSessionManager H T) : ℕ :=
  Map.size (Map.retain (fun _ s => s.state == .established) m.sessions)

end NoiseSessionManager

end Bitchat
