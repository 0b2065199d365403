import Bitchat.Channel
import Bitchat.Rust.Base64
import Bitchat.Rust.Bincode

/-!
# The Nostr transport

Raw data on its way over Nostr: `BitchatNostrMessage`, the sending of data and
the legacy branch of receiving. The codecs and the relay client are parameters.
An event is represented by its content.
-/
namespace Bitchat
open Rust

inductive NostrTransportError where
  | eventSendFailed (error : String)
  | serializationFailed (error : String)
  | deserializationFailed (error : String)
  | keyOperationFailed (reason : String)
  | clientNotInitialized
  | encryptionFailed (reason : String)
  | messageTooLarge (size maxSize : ℕ)
  deriving DecidableEq, Repr

def NostrTransportError.display : NostrTransportError → String
  | .eventSendFailed error => "Failed to send event: " ++ error
  | .serializationFailed error => "Failed to serialize message: " ++ error
  | .deserializationFailed error => "Failed to deserialize message: " ++ error
  | .keyOperationFailed reason => "Key operation failed: " ++ reason
  | .encryptionFailed reason => "Failed to create encrypted message: " ++ reason
  | .clientNotInitialized => "Client not initialized"
  | .messageTooLarge size maxSize =>
    "Message too large: " ++ toString size ++ " bytes (max: " ++ toString maxSize ++ ")"

structure BitchatNostrMessage where
  senderPeerId : PeerId
  recipientPeerId : Option PeerId
  data : Text
  timestamp : UInt64
  deriving DecidableEq

/-- `base64` and `bincode` as the messages use them. -/
structure NostrCodec where
  base64 : Base64Engine
  bincode : Bincode BitchatNostrMessage

namespace BitchatNostrMessage

variable (codec : NostrCodec)

def new (senderPeerId : PeerId) (recipientPeerId : Option PeerId) (data : Bytes)
    (now : Timestamp) : BitchatNostrMessage :=
  ⟨senderPeerId, recipientPeerId, codec.base64.encode data, now.asMillis⟩

def toData (m : BitchatNostrMessage) : Outcome NostrTransportError Bytes :=
  mapErr .deserializationFailed (codec.base64.decode m.data)

def toNostrContent (m : BitchatNostrMessage) : Outcome NostrTransportError Text := do
  let messageBytes ← mapErr .serializationFailed (codec.bincode.serialize m)
  pure (codec.base64.encode messageBytes)

def fromNostrContent (content : Text) : Outcome NostrTransportError BitchatNostrMessage := do
  let messageBytes ← mapErr .deserializationFailed (codec.base64.decode content)
  mapErr .serializationFailed (codec.bincode.deserialize messageBytes)

def isForPeer (m : BitchatNostrMessage) (peerId : PeerId) : Bool :=
  match m.recipientPeerId with
  | some recipient => recipient == peerId
  | none => true

def isBroadcast (m : BitchatNostrMessage) : Bool := m.recipientPeerId.isNone

variable {codec}

theorem toData_new (hbase : codec.base64.RoundTrips) (sender : PeerId)
    (recipient : Option PeerId) (data : Bytes) (now : Timestamp) :
    (new codec sender recipient data now).toData codec = .ok data :=
  mapErr_eq_ok.mpr (hbase data)

theorem fromNostrContent_toNostrContent (hbase : codec.base64.RoundTrips)
    (hbin : codec.bincode.RoundTrips) {m : BitchatNostrMessage} {content : Text}
    (h : m.toNostrContent codec = .ok content) : fromNostrContent codec content = .ok m := by
  obtain ⟨bytes, hbytes, hcontent⟩ := bind_eq_ok.mp h
  rw [← Except.ok.inj hcontent]
  refine bind_eq_ok.mpr ⟨bytes, mapErr_eq_ok.mpr (hbase bytes), ?_⟩
  exact mapErr_eq_ok.mpr (hbin m bytes (mapErr_eq_ok.mp hbytes))

/-- The default layout of a message. -/
def write (m : BitchatNostrMessage) : Bytes :=
  m.senderPeerId.asBytes ++ (Bincode.writeOption PeerId.asBytes m.recipientPeerId ++
    (Bincode.writeText m.data ++ Bincode.writeU64 m.timestamp))

def readPeerId : Bincode.Reader PeerId := fun bytes =>
  (Bincode.readArray 8 bytes).map fun found => (⟨found.1⟩, found.2)

def read : Bincode.Reader BitchatNostrMessage := fun bytes => do
  let (senderPeerId, bytes) ← readPeerId bytes
  let (recipientPeerId, bytes) ← Bincode.readOption readPeerId bytes
  let (data, bytes) ← Bincode.readText bytes
  let (timestamp, bytes) ← Bincode.readU64 bytes
  pure (⟨senderPeerId, recipientPeerId, data, timestamp⟩, bytes)

/-- Bytes after a message are not looked at. -/
def defaultBincode : Bincode BitchatNostrMessage where
  serialize m :=
    if m.data.asBytes.length < 2 ^ 64 then .ok m.write else .error "string too long"
  deserialize bytes :=
    match read bytes with
    | some (m, _) => .ok m
    | none => .error "unexpected end of file"

theorem reads_peerId (p : PeerId) : Bincode.Reads readPeerId p.asBytes p := by
  intro rest
  simp [readPeerId, PeerId.asBytes, Bincode.reads_array p.bytes rest]

theorem reads_write {m : BitchatNostrMessage} (short : m.data.asBytes.length < 2 ^ 64) :
    Bincode.Reads read m.write m := by
  intro rest
  have recipient := Bincode.reads_option m.recipientPeerId fun p _ => reads_peerId p
  simp [read, write, List.append_assoc, reads_peerId m.senderPeerId _, recipient _,
    Bincode.reads_text short _, Bincode.reads_u64 m.timestamp _]

theorem defaultBincode_roundTrips : defaultBincode.RoundTrips := by
  intro m bytes h
  simp only [defaultBincode] at h ⊢
  split_ifs at h with short
  have found := reads_write short []
  rw [List.append_nil, Except.ok.inj h] at found
  rw [found]

end BitchatNostrMessage

/-- The codecs in their default configuration. -/
def NostrCodec.standard : NostrCodec := ⟨Base64.standard, BitchatNostrMessage.defaultBincode⟩

/-- The relay client: signing and publishing an event with a given content. -/
structure NostrClient where
  toEvent : Text → Except String Unit
  sendEvent : Text → Except String Unit

structure NostrTransport where
  client : Option NostrClient
  localPeerId : Option PeerId
  maxDataSize : ℕ

namespace NostrTransport

variable (codec : NostrCodec)

/-- `From<NostrTransportError> for BitchatError`. -/
def raise {α : Type} : Outcome NostrTransportError α → BitchatResult α
  | .ok a => .ok a
  | .error (.err e) => fail (.transport (.receiveFailed e.display))
  | .error .panic => panicked

/-- The content that was published. -/
def sendDataToPeer (t : NostrTransport) (peerId : PeerId) (data : Bytes) (now : Timestamp) :
    BitchatResult Text :=
  raise (do
    let client ← okOr t.client .clientNotInitialized
    let localPeerId ← okOr t.localPeerId .clientNotInitialized
    failIf (t.maxDataSize < data.length) (.messageTooLarge data.length t.maxDataSize)
    let content ← (BitchatNostrMessage.new codec localPeerId (some peerId) data now).toNostrContent
      codec
    mapErr .deserializationFailed (client.toEvent content)
    mapErr .eventSendFailed (client.sendEvent content)
    pure content)

/-- The events for the core of a message that is for us. The discovery goes out
before the data is read. -/
def messageEvents (m : BitchatNostrMessage) : List Event × Outcome NostrTransportError Unit :=
  let discovery : Event := .peerDiscovered m.senderPeerId .nostr none
  match m.toData codec with
  | .ok data =>
    ([discovery, .messageReceived m.senderPeerId (fromUtf8Lossy data) .nostr none
      m.recipientPeerId (some m.timestamp) none], .ok ())
  | .error e => ([discovery], .error e)

/-- Whether a message is for the local peer, which may not be known yet. -/
def isForUs (t : NostrTransport) (m : BitchatNostrMessage) : Bool :=
  match t.localPeerId with
  | some ourPeerId => m.isForPeer ourPeerId || m.isBroadcast
  | none => m.isBroadcast

/-- The legacy branch of `process_nostr_event_static`. -/
def processLegacyContent (t : NostrTransport) (content : Text) :
    List Event × Outcome NostrTransportError Unit :=
  match BitchatNostrMessage.fromNostrContent codec content with
  | .error e => ([], .error e)
  | .ok m => if t.isForUs m then messageEvents codec m else ([], .ok ())

variable {codec}

@[simp] theorem raise_eq_ok {α : Type} {x : Outcome NostrTransportError α} {a : α} :
    raise x = .ok a ↔ x = .ok a := by
  cases x with
  | ok b => simp [raise]
  | error f => cases f <;> simp [raise]

/-- A successful sending published the message with the data. -/
theorem sendDataToPeer_eq_ok {t : NostrTransport} {peerId : PeerId} {data : Bytes}
    {now : Timestamp} {content : Text}
    (h : t.sendDataToPeer codec peerId data now = .ok content) :
    ∃ localPeerId, t.localPeerId = some localPeerId ∧
      (BitchatNostrMessage.new codec localPeerId (some peerId) data now).toNostrContent codec =
        .ok content := by
  unfold sendDataToPeer raise at h
  split at h
  · rename_i published hsent
    obtain rfl := Except.ok.inj h
    obtain ⟨client, _, hsent⟩ := bind_eq_ok.mp hsent
    obtain ⟨localPeerId, hlocal, hsent⟩ := bind_eq_ok.mp hsent
    obtain ⟨_, hsent⟩ := failIf_bind_eq_ok.mp hsent
    obtain ⟨content, hcontent, hsent⟩ := bind_eq_ok.mp hsent
    obtain ⟨_, _, hsent⟩ := bind_eq_ok.mp hsent
    obtain ⟨_, _, hsent⟩ := bind_eq_ok.mp hsent
    rw [← Except.ok.inj hsent]
    exact ⟨localPeerId, okOr_eq_ok.mp hlocal, hcontent⟩
  · cases h
  · cases h

/-- What the receiving side makes of published data: the data, read as text. -/
theorem processLegacyContent_of_sent (hbase : codec.base64.RoundTrips)
    (hbin : codec.bincode.RoundTrips) {t : NostrTransport} {peerId : PeerId} {data : Bytes}
    {now : Timestamp} {content : Text} (t' : NostrTransport)
    (h : t.sendDataToPeer codec peerId data now = .ok content) :
    ∃ localPeerId, t.localPeerId = some localPeerId ∧
      (t'.processLegacyContent codec content).1 =
        if t'.localPeerId = some peerId then
          [.peerDiscovered localPeerId .nostr none,
            .messageReceived localPeerId (fromUtf8Lossy data) .nostr none (some peerId)
              (some now.asMillis) none]
        else [] := by
  obtain ⟨localPeerId, hlocal, hcontent⟩ := sendDataToPeer_eq_ok h
  have read := BitchatNostrMessage.fromNostrContent_toNostrContent hbase hbin hcontent
  have hdata := BitchatNostrMessage.toData_new hbase localPeerId (some peerId) data now
  refine ⟨localPeerId, hlocal, ?_⟩
  have forUs : t'.isForUs (BitchatNostrMessage.new codec localPeerId (some peerId) data now) =
      (t'.localPeerId == some peerId) := by
    cases hlocal' : t'.localPeerId with
    | none => simp [isForUs, hlocal', BitchatNostrMessage.isBroadcast, BitchatNostrMessage.new]
    | some ours =>
      simp [isForUs, hlocal', BitchatNostrMessage.isBroadcast, BitchatNostrMessage.isForPeer,
        BitchatNostrMessage.new, Bool.beq_eq_decide_eq, eq_comm]
  simp only [processLegacyContent, read, forUs, messageEvents, hdata, beq_iff_eq]
  split_ifs <;> rfl

end NostrTransport

end Bitchat
