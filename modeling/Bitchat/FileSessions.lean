import Bitchat.FileTransferCompletion
import Mathlib.Algebra.Order.Floor.Div

/-!
# Well-formed file sessions

A session has the metadata and the number of chunks of its offer as long as it lives. Only
`FileOffer::new` looks at the metadata, and the entry points take any offer: so the sessions
are well formed as long as the offers that are taken are valid.
-/
namespace Bitchat
open Rust

/-- The number of chunks of a file: the division rounds up, and nothing is cut off. -/
def FileMetadata.chunkCount (m : FileMetadata) : ℕ := m.size.toNat ⌈/⌉ maxChunkSize

namespace FileTransferSession

/-- Valid metadata, an entry for each chunk, and as many chunks as the file has. -/
structure WellFormed (s : FileTransferSession) : Prop where
  valid : s.metadata.validate = .ok ()
  length : s.chunksReceived.length = s.totalChunks.toNat
  count : s.totalChunks.toNat = s.metadata.chunkCount
  nonempty : 1 ≤ s.totalChunks.toNat

/-- The second session has the shape of the first one. -/
structure SameShape (a b : FileTransferSession) : Prop where
  metadata : b.metadata = a.metadata
  length : b.chunksReceived.length = a.chunksReceived.length
  totalChunks : b.totalChunks = a.totalChunks

variable {a b : FileTransferSession}

theorem SameShape.refl (a : FileTransferSession) : SameShape a a := ⟨rfl, rfl, rfl⟩

theorem WellFormed.of_sameShape (h : a.WellFormed) (hshape : SameShape a b) : b.WellFormed := by
  obtain ⟨hmetadata, hlength, htotal⟩ := hshape
  refine ⟨?_, ?_, ?_, ?_⟩
  · rw [hmetadata]
    exact h.valid
  · rw [hlength, htotal]
    exact h.length
  · rw [htotal, hmetadata]
    exact h.count
  · rw [htotal]
    exact h.nonempty

theorem sameShape_receiveChunk (sha256 : Bytes → Key32) (s : FileTransferSession)
    (chunk : FileChunk) (now : Timestamp) : SameShape s (s.receiveChunk sha256 chunk now).1 := by
  rw [receiveChunk_state]
  split_ifs
  · exact ⟨rfl, List.length_set .., rfl⟩
  · exact SameShape.refl s

theorem sameShape_complete (s : FileTransferSession) (finalHash : FileHash) (now : Timestamp) :
    SameShape s (s.complete finalHash now).1 := by
  unfold complete
  split_ifs
  · exact SameShape.refl s
  · exact SameShape.refl s
  · exact ⟨rfl, rfl, rfl⟩

/-- The session of an offer is well formed exactly if the metadata are valid. -/
theorem wellFormed_fromOffer_iff (offer : FileOffer) (sender recipient : PeerId)
    (now : Timestamp) :
    (fromOffer offer sender recipient now).WellFormed ↔ offer.metadata.validate = .ok () := by
  constructor
  · intro h
    exact h.valid
  · intro h
    refine ⟨h, List.length_replicate, ?_, FileOffer.totalChunks_pos h⟩
    obtain ⟨-, -, hbounded⟩ := FileMetadata.validate_eq_ok.mp h
    show offer.totalChunks.toNat = offer.metadata.chunkCount
    rw [FileOffer.totalChunks, UInt32.toNat_ofNat', FileMetadata.chunkCount,
      Nat.ceilDiv_eq_add_pred_div]
    simp only [maxFileSize, maxChunkSize] at hbounded ⊢
    omega

end FileTransferSession

namespace FileTransferManager

variable {sha256 : Bytes → Key32} {m : FileTransferManager}

def WellFormed (m : FileTransferManager) : Prop :=
  ∀ id s, m.sessions.lookup id = some s → s.WellFormed

/-- An offer that makes a session has valid metadata. -/
def OfferValid (m : FileTransferManager) (input : FileTransferCall × Timestamp) : Prop :=
  match input.1 with
  | .startTransfer offer _ _ =>
    offer.transferId ∉ m.sessions → offer.metadata.validate = .ok ()
  | .receiveOffer offer _ _ => offer.isExpired input.2 = false →
    offer.transferId ∉ m.sessions → offer.metadata.validate = .ok ()
  | _ => True

theorem WellFormed.startTransfer_iff (h : m.WellFormed) (offer : FileOffer)
    (sender recipient : PeerId) (now : Timestamp) :
    (m.startTransfer offer sender recipient now).1.WellFormed ↔
      (offer.transferId ∉ m.sessions → offer.metadata.validate = .ok ()) := by
  unfold startTransfer
  by_cases hknown : offer.transferId ∈ m.sessions
  · rw [if_pos hknown]
    exact ⟨fun _ hnew => absurd hknown hnew, fun _ => h⟩
  · rw [if_neg hknown]
    constructor
    · intro hnext _
      have hsession := hnext offer.transferId _ (Finmap.lookup_insert m.sessions)
      exact (FileTransferSession.wellFormed_fromOffer_iff offer sender recipient now).mp hsession
    · intro hvalid id s hs
      simp only [Map.lookup_insert_if] at hs
      split_ifs at hs with hid
      · rw [← Option.some.inj hs]
        exact (FileTransferSession.wellFormed_fromOffer_iff offer sender recipient now).mpr
          (hvalid hknown)
      · exact h id s hs

theorem WellFormed.receiveOffer_iff (h : m.WellFormed) (offer : FileOffer)
    (sender recipient : PeerId) (now : Timestamp) :
    (m.receiveOffer offer sender recipient now).1.WellFormed ↔
      (offer.isExpired now = false → offer.transferId ∉ m.sessions →
        offer.metadata.validate = .ok ()) := by
  unfold receiveOffer
  split_ifs with hexpired
  · exact ⟨fun _ hfresh => absurd hexpired (by simp [hfresh]), fun _ => h⟩
  · rw [h.startTransfer_iff offer sender recipient now]
    simp [hexpired]

/-- A call on a session that leaves its shape keeps all of them well formed. -/
theorem WellFormed.onSession (h : m.WellFormed) (transferId : FileTransferId)
    {call : FileTransferSession → Call BitchatError FileTransferSession Unit}
    (hcall : ∀ s, FileTransferSession.SameShape s (call s).1) :
    (m.onSession transferId call).1.WellFormed := by
  intro id s hs
  rw [lookup_onSession] at hs
  split_ifs at hs
  · obtain ⟨old, hold, rfl⟩ := Option.map_eq_some_iff.mp hs
    exact (h transferId old hold).of_sameShape (hcall old)
  · exact h id s hs

/-- The sessions stay well formed exactly if an offer that is taken is valid. -/
theorem WellFormed.step_iff (h : m.WellFormed) (input : FileTransferCall × Timestamp) :
    (m.step sha256 input).1.WellFormed ↔ m.OfferValid input := by
  obtain ⟨call, now⟩ := input
  have hkept {transferId : FileTransferId}
      {change : FileTransferSession → Call BitchatError FileTransferSession Unit}
      (hchange : ∀ s, FileTransferSession.SameShape s (change s).1) :
      (m.onSession transferId change).1.WellFormed ↔ True :=
    iff_true_intro (h.onSession transferId hchange)
  cases call with
  | startTransfer offer sender recipient => exact h.startTransfer_iff offer sender recipient now
  | receiveOffer offer sender recipient => exact h.receiveOffer_iff offer sender recipient now
  | processAccept accept =>
    refine hkept fun s => ?_
    split_ifs
    · exact ⟨rfl, rfl, rfl⟩
    · exact ⟨rfl, rfl, rfl⟩
  | processChunk chunk => exact hkept fun s => s.sameShape_receiveChunk sha256 chunk now
  | processComplete complete =>
    refine hkept fun s => ?_
    split_ifs
    · cases complete.finalHash with
      | some finalHash => exact s.sameShape_complete finalHash now
      | none => exact ⟨rfl, rfl, rfl⟩
    · exact ⟨rfl, rfl, rfl⟩
  | cancelTransfer transferId => exact hkept fun s => ⟨rfl, rfl, rfl⟩

/-- In every state of a run the sessions are well formed exactly if each offer that the
run takes is valid. -/
theorem sessions_wellFormed_iff (sha256 : Bytes → Key32)
    (inputs : List (FileTransferCall × Timestamp)) :
    (∀ before rest, inputs = before ++ rest → (run (step sha256) new before).WellFormed) ↔
      Along (step sha256) OfferValid new inputs := by
  have hnew : new.WellFormed := by
    intro id s hs
    cases (Finmap.lookup_empty id).symm.trans hs
  rw [throughout_iff_along hnew]
  exact along_step_iff (fun m input h => h.step_iff input) hnew

/-- An offer of a file so long that the number of its chunks is truncated to nothing. -/
def hugeOffer : FileOffer :=
  ⟨⟨['a']⟩, ⟨['f'], 70368744177664, none, ⟨List.Vector.replicate 32 0⟩, ⟨0⟩⟩, none, ⟨9⟩⟩

theorem hugeOffer_not_wellFormed :
    ¬ (run (step MessageStore.lastByteDigest) new [(.receiveOffer hugeOffer
      ⟨List.Vector.replicate 8 1⟩ ⟨List.Vector.replicate 8 2⟩, ⟨5⟩)]).WellFormed := by
  intro h
  have hsession := h ⟨['a']⟩ (.fromOffer hugeOffer ⟨List.Vector.replicate 8 1⟩
    ⟨List.Vector.replicate 8 2⟩ ⟨5⟩) (by decide)
  have hpositive := hsession.nonempty
  revert hpositive
  decide

end FileTransferManager

end Bitchat
