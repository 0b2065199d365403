import Bitchat.FileTransferFinality

/-!
# Completing a file transfer

The chunks of an accepted offer arrive in some order. The last one completes the
session, and the completion message finds it so.
-/
namespace Bitchat
open Rust

theorem FileMetadata.validate_eq_ok {m : FileMetadata} :
    m.validate = .ok () ↔ m.filename ≠ [] ∧ m.size ≠ 0 ∧ m.size.toNat ≤ maxFileSize := by
  simp [validate]

/-- The number of chunks of a valid file is not truncated, and positive. -/
theorem FileOffer.totalChunks_pos {offer : FileOffer} (h : offer.metadata.validate = .ok ()) :
    0 < offer.totalChunks.toNat := by
  obtain ⟨-, nonempty, bounded⟩ := FileMetadata.validate_eq_ok.mp h
  have positive : 0 < offer.metadata.size.toNat :=
    Nat.pos_of_ne_zero fun zero => nonempty (UInt64.toNat_inj.mp zero)
  rw [totalChunks, UInt32.toNat_ofNat']
  simp only [maxFileSize, maxChunkSize] at bounded ⊢
  omega

namespace FileTransferSession

variable (sha256 : Bytes → Key32) {s : FileTransferSession} {offer : FileOffer}

/-- A session of an offer, which is completed once it has every chunk. -/
structure Receives (offer : FileOffer) (s : FileTransferSession) : Prop where
  transferId : s.transferId = offer.transferId
  totalChunks : s.totalChunks = offer.totalChunks
  length : s.chunksReceived.length = offer.totalChunks.toNat
  completed : s.allReceived = true → s.status = .completed

def Received (s : FileTransferSession) (i : ℕ) : Prop := s.chunksReceived[i]? = some true

theorem allReceived_iff : s.allReceived = true ↔ ∀ i < s.chunksReceived.length, s.Received i := by
  rw [allReceived, List.all_eq_true]
  constructor
  · intro h i hi
    rw [Received, List.getElem?_eq_getElem hi]
    exact congrArg some (h _ (List.getElem_mem hi))
  · intro h bit hbit
    obtain ⟨i, hi, rfl⟩ := List.getElem_of_mem hbit
    exact (List.getElem_eq_iff hi).mpr (h i hi)

theorem missingChunks_eq_nil_iff : s.missingChunks = [] ↔ s.allReceived = true := by
  rw [missingChunks, List.filterMap_eq_nil_iff, allReceived_iff]
  constructor
  · intro none_missing i hi
    have received := none_missing (s.chunksReceived[i], i)
      (List.mem_zipIdx_iff_getElem?.mpr (List.getElem?_eq_getElem hi))
    rw [Received, List.getElem?_eq_getElem hi]
    simpa using received
  · rintro all ⟨bit, i⟩ hbit
    have here : s.chunksReceived[i]? = some bit := List.mem_zipIdx_iff_getElem?.mp hbit
    have received := all i (List.getElem?_eq_some_iff.mp here).1
    cases here.symm.trans received
    rfl

/-- A chunk of the offer that passes verification. -/
def IsChunkOf (offer : FileOffer) (i : UInt32) (chunk : FileChunk) : Prop :=
  chunk.transferId = offer.transferId ∧ chunk.chunkIndex = i ∧ chunk.verify sha256 = true

theorem receives_accept (valid : offer.metadata.validate = .ok ()) (sender recipient : PeerId)
    (now later : Timestamp) :
    ((fromOffer offer sender recipient now).accept later).Receives offer where
  transferId := rfl
  totalChunks := rfl
  length := List.length_replicate
  completed := by
    intro all
    have nonempty := FileOffer.totalChunks_pos valid
    have first := allReceived_iff.mp all 0 (by simpa [accept, fromOffer] using nonempty)
    simp [Received, accept, fromOffer, nonempty] at first

theorem receives_receiveChunk (h : s.Receives offer) (chunk : FileChunk) (now : Timestamp) :
    (s.receiveChunk sha256 chunk now).1.Receives offer := by
  rw [receiveChunk_state]
  split_ifs
  · refine ⟨h.transferId, h.totalChunks, (List.length_set ..).trans h.length, ?_⟩
    intro all
    exact if_pos all
  · exact h

/-- What was received stays so, and a chunk that passes the checks is received. -/
theorem received_receiveChunk (h : s.Receives offer) {chunk : FileChunk} {i : UInt32}
    (hi : i < offer.totalChunks) (now : Timestamp)
    (arrives : s.Received i.toNat ∨ IsChunkOf sha256 offer i chunk) :
    (s.receiveChunk sha256 chunk now).1.Received i.toNat := by
  have within : i.toNat < s.chunksReceived.length := by
    rw [h.length]
    exact UInt32.lt_iff_toNat_lt.mp hi
  rw [receiveChunk_state]
  split_ifs with marks
  · rw [Received, markReceived]
    by_cases same : chunk.chunkIndex.toNat = i.toNat
    · rw [same, List.getElem?_set_self within]
    · rw [List.getElem?_set_ne same]
      rcases arrives with known | ⟨_, index, _⟩
      · exact known
      · exact absurd (congrArg UInt32.toNat index) same
  · rcases arrives with known | ⟨own, index, verified⟩
    · exact known
    · refine absurd ⟨⟨?_, ?_, verified⟩, ?_⟩ marks
      · rw [own, h.transferId]
      · rw [index, h.totalChunks]
        exact hi
      · rw [index]
        exact within

/-- The session after chunks arrived. -/
def afterChunks (s : FileTransferSession) (chunks : List (FileChunk × Timestamp)) :
    FileTransferSession :=
  run (fun s c => s.receiveChunk sha256 c.1 c.2) s chunks

theorem receives_afterChunks (h : s.Receives offer) (chunks : List (FileChunk × Timestamp)) :
    (s.afterChunks sha256 chunks).Receives offer := by
  induction chunks generalizing s with
  | nil => exact h
  | cons c rest ih => exact ih (receives_receiveChunk sha256 h c.1 c.2)

theorem received_afterChunks (h : s.Receives offer) (chunks : List (FileChunk × Timestamp))
    {i : UInt32} (hi : i < offer.totalChunks)
    (arrives : s.Received i.toNat ∨ ∃ c ∈ chunks, IsChunkOf sha256 offer i c.1) :
    (s.afterChunks sha256 chunks).Received i.toNat := by
  induction chunks generalizing s with
  | nil =>
    rcases arrives with known | ⟨c, hc, _⟩
    · exact known
    · cases hc
  | cons c rest ih =>
    refine ih (receives_receiveChunk sha256 h c.1 c.2) ?_
    rcases arrives with known | ⟨c', hc', own⟩
    · exact .inl (received_receiveChunk sha256 h hi c.2 (.inl known))
    · rcases List.mem_cons.mp hc' with rfl | later
      · exact .inl (received_receiveChunk sha256 h hi c'.2 (.inr own))
      · exact .inr ⟨c', later, own⟩

/-- Once chunks that cover the file have arrived, the session is completed and misses none. -/
theorem completed_afterChunks (h : s.Receives offer) {chunks : List (FileChunk × Timestamp)}
    (covers : ∀ i < offer.totalChunks, ∃ c ∈ chunks, IsChunkOf sha256 offer i c.1) :
    (s.afterChunks sha256 chunks).status = .completed ∧
      (s.afterChunks sha256 chunks).missingChunks = [] := by
  have receives := receives_afterChunks sha256 h chunks
  suffices all : (s.afterChunks sha256 chunks).allReceived = true from
    ⟨receives.completed all, missingChunks_eq_nil_iff.mpr all⟩
  refine allReceived_iff.mpr fun j hj => ?_
  rw [receives.length] at hj
  have representable : j < 2 ^ 32 := lt_trans hj offer.totalChunks.toNat_lt
  have index : (UInt32.ofNat j).toNat = j := UInt32.toNat_ofNat_of_lt' representable
  have hi : UInt32.ofNat j < offer.totalChunks := by
    rw [UInt32.lt_iff_toNat_lt, index]
    exact hj
  have received := received_afterChunks sha256 h chunks hi (.inr (covers _ hi))
  rwa [index] at received

/-- A completed transfer refuses to be completed. -/
theorem complete_of_completed (h : s.status = .completed) (finalHash : FileHash)
    (now : Timestamp) :
    s.complete finalHash now = (s, invalidPacket "Transfer not in progress") := by
  simp [complete, h]

end FileTransferSession

namespace FileTransferManager

variable {sha256 : Bytes → Key32} {m : FileTransferManager} {s : FileTransferSession}
  {transferId : FileTransferId}

/-- The completion message is accepted, and leaves the transfer completed with no chunk missing. -/
def Completes (m : FileTransferManager) (transferId : FileTransferId) (finalHash : FileHash)
    (now : Timestamp) : Prop :=
  let after := m.processComplete (.ofSuccess transferId finalHash) now
  after.2 = .ok () ∧ ∃ s, after.1.sessions.lookup transferId = some s ∧
    s.status = .completed ∧ s.missingChunks = []

variable (sha256) in
/-- The state after an offer came in and was answered, and chunks arrived. -/
def afterArrival (m : FileTransferManager) (offer : FileOffer) (sender recipient : PeerId)
    (offered : Timestamp) (accept : FileAccept) (answered : Timestamp)
    (chunks : List (FileChunk × Timestamp)) : FileTransferManager :=
  let m := (m.receiveOffer offer sender recipient offered).1
  let m := (m.processAccept accept answered).1
  run (fun m c => m.processChunk sha256 c.1 c.2) m chunks

theorem lookup_processChunk (h : m.sessions.lookup transferId = some s)
    (own : s.transferId = transferId) (chunk : FileChunk) (now : Timestamp) :
    (m.processChunk sha256 chunk now).1.sessions.lookup transferId =
      some (s.receiveChunk sha256 chunk now).1 := by
  rw [processChunk, lookup_onSession]
  split_ifs with hid
  · rw [← hid, h, Option.map_some]
  · have foreign : ¬ s.Verified sha256 chunk := fun verified => hid (own ▸ verified.1.symm)
    rw [FileTransferSession.receiveChunk_state, if_neg fun marks => foreign marks.1, h]

variable (sha256) in
theorem lookup_processChunks {offer : FileOffer} (h : m.sessions.lookup offer.transferId = some s)
    (receives : s.Receives offer) (chunks : List (FileChunk × Timestamp)) :
    (run (fun m c => m.processChunk sha256 c.1 c.2) m chunks).sessions.lookup offer.transferId =
      some (s.afterChunks sha256 chunks) := by
  induction chunks generalizing m s with
  | nil => exact h
  | cons c rest ih =>
    exact ih (lookup_processChunk h receives.transferId c.1 c.2)
      (FileTransferSession.receives_receiveChunk sha256 receives c.1 c.2)

theorem lookup_accepted {offer : FileOffer} {sender recipient : PeerId} {now later : Timestamp}
    {accept : FileAccept} {session : FileTransferSession}
    (received : (m.receiveOffer offer sender recipient now).2 = .ok session)
    (own : accept.transferId = offer.transferId) (accepted : accept.accepted = true) :
    ((m.receiveOffer offer sender recipient now).1.processAccept accept later).1.sessions.lookup
        offer.transferId =
      some ((FileTransferSession.fromOffer offer sender recipient now).accept later) := by
  unfold receiveOffer startTransfer at received ⊢
  split_ifs at received ⊢ with expired known
  · cases received
  · cases received
  · rw [processAccept, lookup_onSession, own, if_pos rfl, Finmap.lookup_insert]
    simp [accepted]

/-- The completion message of a transfer that has all its chunks is never accepted. -/
theorem never_completes (m : FileTransferManager) {offer : FileOffer} {sender recipient : PeerId}
    {offered answered now : Timestamp} {accept : FileAccept} {session : FileTransferSession}
    {chunks : List (FileChunk × Timestamp)} (finalHash : FileHash)
    (valid : offer.metadata.validate = .ok ())
    (received : (m.receiveOffer offer sender recipient offered).2 = .ok session)
    (own : accept.transferId = offer.transferId) (accepted : accept.accepted = true)
    (covers : ∀ i < offer.totalChunks, ∃ c ∈ chunks,
      FileTransferSession.IsChunkOf sha256 offer i c.1) :
    ¬ (m.afterArrival sha256 offer sender recipient offered accept answered chunks).Completes
      offer.transferId finalHash now := by
  have receives := FileTransferSession.receives_accept valid sender recipient offered answered
  have stored := lookup_processChunks sha256 (lookup_accepted received own accepted) receives
    chunks
  have completed := FileTransferSession.completed_afterChunks sha256 receives covers
  rintro ⟨success, -⟩
  rw [processComplete, afterArrival, FileComplete.ofSuccess, onSession_of_lookup stored] at success
  simp [FileTransferSession.complete_of_completed completed.1] at success

def smallChunk : FileChunk :=
  ⟨smallOffer.transferId, 0, 1, [7], .fromData MessageStore.lastByteDigest [7]⟩

/-- The only chunk of a file, which arrives twice. -/
theorem smallTransfer_not_completed :
    ¬ (new.afterArrival MessageStore.lastByteDigest smallOffer ⟨List.Vector.replicate 8 1⟩
        ⟨List.Vector.replicate 8 2⟩ ⟨0⟩ ⟨smallOffer.transferId, true, none⟩ ⟨1⟩
        [(smallChunk, ⟨2⟩), (smallChunk, ⟨3⟩)]).Completes smallOffer.transferId
      smallOffer.metadata.hash ⟨4⟩ := by
  refine never_completes new smallOffer.metadata.hash rfl rfl rfl rfl ?_
  intro i hi
  have single : smallOffer.totalChunks.toNat = 1 := by decide
  have first : i.toNat = 0 := by
    rw [UInt32.lt_iff_toNat_lt, single] at hi
    omega
  exact ⟨_, List.mem_cons_self, rfl, (UInt32.toNat_inj.mp first).symm, by decide⟩

/-- An accepted transfer of one chunk refuses its completion message. -/
theorem completion_message_refused :
    ¬ (new.afterArrival MessageStore.lastByteDigest smallOffer ⟨List.Vector.replicate 8 1⟩
        ⟨List.Vector.replicate 8 2⟩ ⟨0⟩ ⟨smallOffer.transferId, true, none⟩ ⟨1⟩
        [(smallChunk, ⟨2⟩)]).Completes smallOffer.transferId smallOffer.metadata.hash ⟨3⟩ := by
  rintro ⟨success, -⟩
  cases success

end FileTransferManager

end Bitchat
