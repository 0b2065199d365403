import Bitchat.Rust.Call
import Bitchat.Rust.Map
import Bitchat.Rust.Text
import Bitchat.Types

/-!
# File transfer

Offers, chunks, sessions and `FileTransferManager` of `file_transfer.rs`. The
hash function and the time of a call are arguments.
-/
namespace Bitchat
open Rust

def maxChunkSize : ℕ := 16384
def maxFileSize : ℕ := 104857600

structure FileTransferId where
  id : Text
  deriving DecidableEq

structure FileHash where
  bytes : Key32
  deriving DecidableEq

namespace FileHash

variable (sha256 : Bytes → Key32)

def fromData (data : Bytes) : FileHash := ⟨sha256 data⟩

def verify (h : FileHash) (data : Bytes) : Bool := fromData sha256 data = h

end FileHash

structure FileMetadata where
  filename : Text
  size : UInt64
  mimeType : Option Text
  hash : FileHash
  createdAt : Timestamp
  deriving DecidableEq

def FileMetadata.validate (m : FileMetadata) : BitchatResult Unit := do
  rejectIf (m.filename = []) "Filename cannot be empty"
  rejectIf (m.size = 0) "File size cannot be zero"
  rejectIf (maxFileSize < m.size.toNat) "File size exceeds maximum allowed"

structure FileOffer where
  transferId : FileTransferId
  metadata : FileMetadata
  description : Option Text
  expiresAt : Timestamp
  deriving DecidableEq

namespace FileOffer

def isExpired (offer : FileOffer) (now : Timestamp) : Bool :=
  offer.expiresAt.asMillis < now.asMillis

/-- `size.div_ceil(MAX_CHUNK_SIZE as u64) as u32`. -/
def totalChunks (offer : FileOffer) : UInt32 :=
  UInt32.ofNat ((offer.metadata.size.toNat + maxChunkSize - 1) / maxChunkSize)

end FileOffer

structure FileAccept where
  transferId : FileTransferId
  accepted : Bool
  reason : Option String
  deriving DecidableEq

structure FileChunk where
  transferId : FileTransferId
  chunkIndex : UInt32
  totalChunks : UInt32
  data : Bytes
  chunkHash : FileHash
  deriving DecidableEq

def FileChunk.verify (sha256 : Bytes → Key32) (chunk : FileChunk) : Bool :=
  chunk.chunkHash.verify sha256 chunk.data

structure FileComplete where
  transferId : FileTransferId
  success : Bool
  error : Option String
  finalHash : Option FileHash
  deriving DecidableEq

/-- `FileComplete::success`. -/
def FileComplete.ofSuccess (transferId : FileTransferId) (finalHash : FileHash) : FileComplete :=
  ⟨transferId, true, none, some finalHash⟩

inductive TransferStatus where
  | offered
  | inProgress
  | completed
  | failed
  | cancelled
  | expired
  deriving DecidableEq

structure FileTransferSession where
  transferId : FileTransferId
  sender : PeerId
  recipient : PeerId
  metadata : FileMetadata
  status : TransferStatus
  chunksReceived : List Bool
  totalChunks : UInt32
  startedAt : Timestamp
  lastActivity : Timestamp
  error : Option String
  deriving DecidableEq

namespace FileTransferSession

def fromOffer (offer : FileOffer) (sender recipient : PeerId) (now : Timestamp) :
    FileTransferSession where
  transferId := offer.transferId
  sender := sender
  recipient := recipient
  metadata := offer.metadata
  status := .offered
  chunksReceived := List.replicate offer.totalChunks.toNat false
  totalChunks := offer.totalChunks
  startedAt := now
  lastActivity := now
  error := none

def accept (s : FileTransferSession) (now : Timestamp) : FileTransferSession :=
  { s with status := .inProgress, lastActivity := now }

def fail (s : FileTransferSession) (error : String) (now : Timestamp) : FileTransferSession :=
  { s with status := .failed, error := some error, lastActivity := now }

/-- `chunks_received.iter().all(|&received| received)`. -/
def allReceived (s : FileTransferSession) : Bool := s.chunksReceived.all id

/-- The checks that a chunk passes before it is marked. -/
def Verified (sha256 : Bytes → Key32) (s : FileTransferSession) (chunk : FileChunk) : Prop :=
  chunk.transferId = s.transferId ∧ chunk.chunkIndex < s.totalChunks ∧
    chunk.verify sha256 = true

instance (sha256 : Bytes → Key32) (s : FileTransferSession) (chunk : FileChunk) :
    Decidable (s.Verified sha256 chunk) := inferInstanceAs (Decidable (_ ∧ _ ∧ _))

def checkChunk (sha256 : Bytes → Key32) (s : FileTransferSession) (chunk : FileChunk) :
    BitchatResult Unit := do
  rejectIf (chunk.transferId ≠ s.transferId) "Transfer ID mismatch"
  rejectIf (s.totalChunks ≤ chunk.chunkIndex) "Chunk index out of range"
  rejectIf (chunk.verify sha256 = false) "Chunk verification failed"

/-- Marks a chunk and completes the transfer if it was the last one. -/
def markReceived (s : FileTransferSession) (index : ℕ) (now : Timestamp) : FileTransferSession :=
  let chunksReceived := s.chunksReceived.set index true
  { s with
    chunksReceived := chunksReceived
    lastActivity := now
    status := if chunksReceived.all id then .completed else s.status }

/-- Indexing panics when the bit vector is shorter than the number of chunks. -/
def receiveChunk (sha256 : Bytes → Key32) (s : FileTransferSession) (chunk : FileChunk)
    (now : Timestamp) : Call BitchatError FileTransferSession Unit :=
  match s.checkChunk sha256 chunk with
  | .error e => (s, .error e)
  | .ok _ =>
    if chunk.chunkIndex.toNat < s.chunksReceived.length then
      (s.markReceived chunk.chunkIndex.toNat now, .ok ())
    else (s, panicked)

def missingChunks (s : FileTransferSession) : List UInt32 :=
  s.chunksReceived.zipIdx.filterMap fun (received, index) =>
    if received then none else some (UInt32.ofNat index)

/-- The final hash is not looked at. -/
def complete (s : FileTransferSession) (_finalHash : FileHash) (now : Timestamp) :
    Call BitchatError FileTransferSession Unit :=
  if s.status ≠ .inProgress then (s, invalidPacket "Transfer not in progress")
  else if s.allReceived = false then (s, invalidPacket "Not all chunks received")
  else ({ s with status := .completed, lastActivity := now }, .ok ())

theorem checkChunk_eq_ok {sha256 : Bytes → Key32} {s : FileTransferSession} {chunk : FileChunk} :
    s.checkChunk sha256 chunk = .ok () ↔ s.Verified sha256 chunk := by
  simp [checkChunk, Verified, UInt32.not_le]

theorem receiveChunk_state (sha256 : Bytes → Key32) (s : FileTransferSession) (chunk : FileChunk)
    (now : Timestamp) :
    (s.receiveChunk sha256 chunk now).1 =
      if s.Verified sha256 chunk ∧ chunk.chunkIndex.toNat < s.chunksReceived.length then
        s.markReceived chunk.chunkIndex.toNat now
      else s := by
  unfold receiveChunk
  cases hcheck : s.checkChunk sha256 chunk with
  | error e =>
    have unverified : ¬ s.Verified sha256 chunk := by
      rw [← checkChunk_eq_ok, hcheck]
      exact nofun
    simp [unverified]
  | ok u =>
    have verified : s.Verified sha256 chunk := checkChunk_eq_ok.mp hcheck
    by_cases within : chunk.chunkIndex.toNat < s.chunksReceived.length
    · simp [verified, within]
    · simp [within]

end FileTransferSession

inductive FileTransferCall where
  | startTransfer (offer : FileOffer) (sender recipient : PeerId)
  | receiveOffer (offer : FileOffer) (sender recipient : PeerId)
  | processAccept (accept : FileAccept)
  | processChunk (chunk : FileChunk)
  | processComplete (complete : FileComplete)
  | cancelTransfer (transferId : FileTransferId)

structure FileTransferManager where
  sessions : Map FileTransferId FileTransferSession

namespace FileTransferManager

variable (sha256 : Bytes → Key32)

def new : FileTransferManager := ⟨∅⟩

/-- Makes a session for an offer with a new id. -/
def startTransfer (m : FileTransferManager) (offer : FileOffer) (sender recipient : PeerId)
    (now : Timestamp) : Call BitchatError FileTransferManager FileTransferSession :=
  if offer.transferId ∈ m.sessions then (m, invalidPacket "Transfer ID already exists")
  else
    let session := FileTransferSession.fromOffer offer sender recipient now
    (⟨m.sessions.insert offer.transferId session⟩, .ok session)

def receiveOffer (m : FileTransferManager) (offer : FileOffer) (sender recipient : PeerId)
    (now : Timestamp) : Call BitchatError FileTransferManager FileTransferSession :=
  if offer.isExpired now then (m, invalidPacket "File offer has expired")
  else m.startTransfer offer sender recipient now

/-- Calls a method of the session under an id. -/
def onSession (m : FileTransferManager) (transferId : FileTransferId)
    (call : FileTransferSession → Call BitchatError FileTransferSession Unit) :
    Call BitchatError FileTransferManager Unit :=
  match m.sessions.lookup transferId with
  | none => (m, invalidPacket "Transfer not found")
  | some s => (⟨m.sessions.insert transferId (call s).1⟩, (call s).2)

def processAccept (m : FileTransferManager) (accept : FileAccept) (now : Timestamp) :
    Call BitchatError FileTransferManager Unit :=
  m.onSession accept.transferId fun s =>
    if accept.accepted then (s.accept now, .ok ())
    else (s.fail (accept.reason.getD "Rejected") now, .ok ())

def processChunk (m : FileTransferManager) (chunk : FileChunk) (now : Timestamp) :
    Call BitchatError FileTransferManager Unit :=
  m.onSession chunk.transferId fun s => s.receiveChunk sha256 chunk now

def processComplete (m : FileTransferManager) (complete : FileComplete) (now : Timestamp) :
    Call BitchatError FileTransferManager Unit :=
  m.onSession complete.transferId fun s =>
    if complete.success then
      match complete.finalHash with
      | some finalHash => s.complete finalHash now
      | none => (s.fail "No final hash provided" now, .ok ())
    else (s.fail (complete.error.getD "Transfer failed") now, .ok ())

def cancelTransfer (m : FileTransferManager) (transferId : FileTransferId) (now : Timestamp) :
    Call BitchatError FileTransferManager Unit :=
  m.onSession transferId fun s => ({ s with status := .cancelled, lastActivity := now }, .ok ())

/-- The state after a call at a time, and whether it succeeded. -/
def step (m : FileTransferManager) (input : FileTransferCall × Timestamp) :
    FileTransferManager × Bool :=
  match input.1 with
  | .startTransfer offer sender recipient =>
    let (m, result) := m.startTransfer offer sender recipient input.2
    (m, result.isOk)
  | .receiveOffer offer sender recipient =>
    let (m, result) := m.receiveOffer offer sender recipient input.2
    (m, result.isOk)
  | .processAccept accept =>
    let (m, result) := m.processAccept accept input.2
    (m, result.isOk)
  | .processChunk chunk =>
    let (m, result) := m.processChunk sha256 chunk input.2
    (m, result.isOk)
  | .processComplete complete =>
    let (m, result) := m.processComplete complete input.2
    (m, result.isOk)
  | .cancelTransfer transferId =>
    let (m, result) := m.cancelTransfer transferId input.2
    (m, result.isOk)

theorem lookup_onSession (m : FileTransferManager) (transferId id : FileTransferId)
    (call : FileTransferSession → Call BitchatError FileTransferSession Unit) :
    (m.onSession transferId call).1.sessions.lookup id =
      if id = transferId then (m.sessions.lookup transferId).map fun s => (call s).1
      else m.sessions.lookup id := by
  apply Map.lookup_of_modified
  · intro absent
    rw [onSession, absent]
  · intro s known
    rw [onSession, known]

theorem onSession_of_lookup {m : FileTransferManager} {transferId : FileTransferId}
    {s : FileTransferSession} (h : m.sessions.lookup transferId = some s)
    (call : FileTransferSession → Call BitchatError FileTransferSession Unit) :
    m.onSession transferId call =
      (⟨m.sessions.insert transferId (call s).1⟩, (call s).2) := by
  rw [onSession, h]

/-- A session that is there stays as it is when an offer comes in. -/
theorem lookup_startTransfer {m : FileTransferManager} {id : FileTransferId}
    {s : FileTransferSession} (h : m.sessions.lookup id = some s) (offer : FileOffer)
    (sender recipient : PeerId) (now : Timestamp) :
    (m.startTransfer offer sender recipient now).1.sessions.lookup id = some s := by
  unfold startTransfer
  split_ifs with known
  · exact h
  · exact Map.lookup_insert_of_new _ (Finmap.lookup_eq_none.mpr known) h

theorem lookup_receiveOffer {m : FileTransferManager} {id : FileTransferId}
    {s : FileTransferSession} (h : m.sessions.lookup id = some s) (offer : FileOffer)
    (sender recipient : PeerId) (now : Timestamp) :
    (m.receiveOffer offer sender recipient now).1.sessions.lookup id = some s := by
  unfold receiveOffer
  split_ifs
  · exact h
  · exact lookup_startTransfer h offer sender recipient now

end FileTransferManager

end Bitchat
