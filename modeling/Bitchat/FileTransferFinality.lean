import Bitchat.FileTransfer
import Bitchat.MessageStore
import Bitchat.Rust.Run

/-!
# Final states of file transfers

A transfer that is completed, failed or cancelled should stay so, and chunks
should be recorded only while it is in progress. Which calls keep to that.
-/
namespace Bitchat
open Rust

/-- The states that `cleanup_sessions` takes for ended. -/
def TransferStatus.IsFinal (status : TransferStatus) : Prop :=
  status = .completed ∨ status = .failed ∨ status = .cancelled

namespace FileTransferSession

variable {a b : FileTransferSession}

/-- A session may become another one: not out of a final state, and with other chunks only
while it is in progress. -/
structure Keeps (a b : FileTransferSession) : Prop where
  final : a.status.IsFinal → b.status = a.status
  recorded : b.chunksReceived ≠ a.chunksReceived → a.status = .inProgress

theorem Keeps.refl (a : FileTransferSession) : a.Keeps a := ⟨fun _ => rfl, fun h => absurd rfl h⟩

/-- With the chunks as they were, only the status matters. -/
theorem keeps_of_sameChunks (h : b.chunksReceived = a.chunksReceived) :
    a.Keeps b ↔ (a.status.IsFinal → a.status = b.status) := by
  constructor
  · intro keeps final
    exact (keeps.final final).symm
  · intro same
    exact ⟨fun final => (same final).symm, fun changed => absurd h changed⟩

theorem not_isFinal_inProgress : ¬ TransferStatus.IsFinal .inProgress := by
  simp [TransferStatus.IsFinal]

theorem keeps_accept (now : Timestamp) : a.Keeps (a.accept now) ↔ ¬ a.status.IsFinal := by
  have same : (a.accept now).chunksReceived = a.chunksReceived := rfl
  rw [keeps_of_sameChunks same]
  constructor
  · intro keeps final
    have status : a.status = .inProgress := keeps final
    rw [status] at final
    exact not_isFinal_inProgress final
  · intro running final
    exact absurd final running

theorem keeps_fail (error : String) (now : Timestamp) :
    a.Keeps (a.fail error now) ↔ (a.status.IsFinal → a.status = .failed) :=
  keeps_of_sameChunks (b := a.fail error now) rfl

theorem keeps_cancel (now : Timestamp) :
    a.Keeps { a with status := .cancelled, lastActivity := now } ↔
      (a.status.IsFinal → a.status = .cancelled) :=
  keeps_of_sameChunks (b := { a with status := .cancelled, lastActivity := now }) rfl

theorem keeps_complete (finalHash : FileHash) (now : Timestamp) :
    a.Keeps (a.complete finalHash now).1 := by
  unfold complete
  split_ifs with other missing
  · exact Keeps.refl a
  · exact Keeps.refl a
  · have running : a.status = .inProgress := not_ne_iff.mp other
    refine ⟨fun final => ?_, fun _ => running⟩
    rw [running] at final
    exact absurd final not_isFinal_inProgress

theorem set_true_eq_self {bits : List Bool} {i : ℕ} (h : i < bits.length) :
    bits.set i true = bits ↔ bits[i]? = some true := by
  constructor
  · intro same
    rw [← same, List.getElem?_set_self h]
  · intro known
    obtain ⟨_, received⟩ := List.getElem?_eq_some_iff.mp known
    rw [← received, List.set_getElem_self]

/-- The chunk is one that may be marked: the transfer is in progress, or the chunk is known and
marking it again does not complete a transfer that ended otherwise. -/
def MayMark (s : FileTransferSession) (chunk : FileChunk) : Prop :=
  s.status = .inProgress ∨
    s.chunksReceived[chunk.chunkIndex.toNat]? = some true ∧
      (s.status.IsFinal → s.allReceived = true → s.status = .completed)

theorem keeps_markReceived {i : ℕ} (h : i < a.chunksReceived.length) (now : Timestamp) :
    a.Keeps (a.markReceived i now) ↔ a.status = .inProgress ∨ a.chunksReceived[i]? = some true ∧
      (a.status.IsFinal → a.allReceived = true → a.status = .completed) := by
  by_cases running : a.status = .inProgress
  · refine iff_of_true ⟨fun final => ?_, fun _ => running⟩ (.inl running)
    rw [running] at final
    exact absurd final not_isFinal_inProgress
  · simp only [running, false_or]
    by_cases known : a.chunksReceived[i]? = some true
    · have same : a.chunksReceived.set i true = a.chunksReceived := (set_true_eq_self h).mpr known
      have kept : (a.markReceived i now).chunksReceived = a.chunksReceived := same
      rw [keeps_of_sameChunks kept]
      simp only [known, true_and, markReceived, same, allReceived]
      refine imp_congr_right fun _ => ?_
      by_cases all : a.chunksReceived.all id = true
      · simp [all]
      · simp [all]
    · refine iff_of_false (fun keeps => running (keeps.recorded ?_)) fun h => known h.1
      exact fun same => known ((set_true_eq_self h).mp same)

theorem keeps_receiveChunk (sha256 : Bytes → Key32) (chunk : FileChunk) (now : Timestamp) :
    a.Keeps (a.receiveChunk sha256 chunk now).1 ↔
      (a.Verified sha256 chunk → chunk.chunkIndex.toNat < a.chunksReceived.length →
        a.MayMark chunk) := by
  rw [receiveChunk_state]
  split_ifs with marks
  · simp only [marks, true_implies]
    exact keeps_markReceived marks.2 now
  · exact iff_of_true (Keeps.refl a) fun verified within => absurd ⟨verified, within⟩ marks

end FileTransferSession

namespace FileTransferManager

variable {sha256 : Bytes → Key32} {m : FileTransferManager}

/-- From the one state to the other, no transfer leaves a final state. -/
def FinalTo (m m' : FileTransferManager) : Prop :=
  ∀ id a, m.sessions.lookup id = some a → a.status.IsFinal →
    ∃ b, m'.sessions.lookup id = some b ∧ b.status = a.status

/-- From the one state to the other, chunks are recorded only for transfers in progress. -/
def RecordsInProgress (m m' : FileTransferManager) : Prop :=
  ∀ id a, m.sessions.lookup id = some a →
    ∃ b, m'.sessions.lookup id = some b ∧
      (b.chunksReceived ≠ a.chunksReceived → a.status = .inProgress)

variable (sha256) in
/-- Final states are final between any two points of a run, and each of its calls
records chunks only for transfers in progress. -/
def FinalThroughout (m : FileTransferManager) (inputs : List (FileTransferCall × Timestamp)) :
    Prop :=
  (∀ before later rest, inputs = before ++ later ++ rest →
    FinalTo (run (step sha256) m before) (run (step sha256) m (before ++ later))) ∧
  ∀ before i rest, inputs = before ++ i :: rest →
    RecordsInProgress (run (step sha256) m before) (step sha256 (run (step sha256) m before) i).1

variable (sha256) in
/-- The call does not change what is final, and records no new chunk out of turn. -/
def Respects (m : FileTransferManager) (input : FileTransferCall × Timestamp) : Prop :=
  match input.1 with
  | .processAccept accept => ∀ s, m.sessions.lookup accept.transferId = some s →
      s.status.IsFinal → accept.accepted = false ∧ s.status = .failed
  | .processChunk chunk => ∀ s, m.sessions.lookup chunk.transferId = some s →
      s.Verified sha256 chunk → chunk.chunkIndex.toNat < s.chunksReceived.length →
        s.MayMark chunk
  | .processComplete complete => ∀ s, m.sessions.lookup complete.transferId = some s →
      s.status.IsFinal →
        complete.success = true ∧ complete.finalHash.isSome = true ∨ s.status = .failed
  | .cancelTransfer transferId => ∀ s, m.sessions.lookup transferId = some s →
      s.status.IsFinal → s.status = .cancelled
  | _ => True

/-- Every session is there after the step, and has become one it may become. -/
def StepKeeps (m m' : FileTransferManager) : Prop :=
  ∀ id a, m.sessions.lookup id = some a → ∃ b, m'.sessions.lookup id = some b ∧ a.Keeps b

theorem stepKeeps_iff {m m' : FileTransferManager} :
    m.FinalTo m' ∧ m.RecordsInProgress m' ↔ m.StepKeeps m' := by
  constructor
  · rintro ⟨final, records⟩ id a ha
    obtain ⟨b, hb, recorded⟩ := records id a ha
    refine ⟨b, hb, ?_, recorded⟩
    intro hfinal
    obtain ⟨b', hb', status⟩ := final id a ha hfinal
    cases hb.symm.trans hb'
    exact status
  · intro keeps
    constructor
    · intro id a ha final
      obtain ⟨b, hb, hkeeps⟩ := keeps id a ha
      exact ⟨b, hb, hkeeps.final final⟩
    · intro id a ha
      obtain ⟨b, hb, hkeeps⟩ := keeps id a ha
      exact ⟨b, hb, hkeeps.recorded⟩

/-- A step that leaves the sessions alone, or adds one. -/
theorem stepKeeps_of_lookup {m' : FileTransferManager}
    (h : ∀ id a, m.sessions.lookup id = some a → m'.sessions.lookup id = some a) :
    m.StepKeeps m' := fun id a ha => ⟨a, h id a ha, .refl a⟩

theorem stepKeeps_onSession (transferId : FileTransferId)
    (call : FileTransferSession → Call BitchatError FileTransferSession Unit) :
    m.StepKeeps (m.onSession transferId call).1 ↔
      ∀ s, m.sessions.lookup transferId = some s → s.Keeps (call s).1 := by
  simp only [StepKeeps, lookup_onSession]
  constructor
  · intro keeps s hs
    obtain ⟨b, hb, hkeeps⟩ := keeps transferId s hs
    rw [if_pos rfl, hs, Option.map_some] at hb
    cases hb
    exact hkeeps
  · intro keeps id a ha
    split_ifs with hid
    · rw [hid] at ha
      exact ⟨_, by rw [ha, Option.map_some], keeps a ha⟩
    · exact ⟨a, ha, .refl a⟩

theorem stepKeeps_step (m : FileTransferManager) (input : FileTransferCall × Timestamp) :
    m.StepKeeps (m.step sha256 input).1 ↔ m.Respects sha256 input := by
  obtain ⟨call, now⟩ := input
  cases call with
  | startTransfer offer sender recipient =>
    exact iff_of_true
      (stepKeeps_of_lookup fun _ _ h => lookup_startTransfer h offer sender recipient now) trivial
  | receiveOffer offer sender recipient =>
    exact iff_of_true
      (stepKeeps_of_lookup fun _ _ h => lookup_receiveOffer h offer sender recipient now) trivial
  | processAccept accept =>
    refine (stepKeeps_onSession accept.transferId _).trans (forall₂_congr fun s _ => ?_)
    cases accepts : accept.accepted with
    | true => simpa using FileTransferSession.keeps_accept now
    | false => simpa using FileTransferSession.keeps_fail (accept.reason.getD "Rejected") now
  | processChunk chunk =>
    exact (stepKeeps_onSession chunk.transferId _).trans (forall₂_congr fun s _ =>
      FileTransferSession.keeps_receiveChunk sha256 chunk now)
  | processComplete complete =>
    refine (stepKeeps_onSession complete.transferId _).trans (forall₂_congr fun s _ => ?_)
    cases succeeds : complete.success with
    | false =>
      simpa using FileTransferSession.keeps_fail (complete.error.getD "Transfer failed") now
    | true =>
      cases hash : complete.finalHash with
      | none => simpa using FileTransferSession.keeps_fail "No final hash provided" now
      | some finalHash =>
        simpa using FileTransferSession.keeps_complete (a := s) finalHash now
  | cancelTransfer transferId =>
    refine (stepKeeps_onSession transferId _).trans (forall₂_congr fun s _ => ?_)
    exact FileTransferSession.keeps_cancel now

/-- Final states stay, and chunks are recorded only in progress, exactly in the runs whose
calls respect them. -/
theorem finalThroughout_iff_respects (m : FileTransferManager)
    (inputs : List (FileTransferCall × Timestamp)) :
    FinalThroughout sha256 m inputs ↔ Along (step sha256) (Respects sha256) m inputs := by
  have refl (s : FileTransferManager) : s.FinalTo s := fun _ a ha _ => ⟨a, ha, rfl⟩
  have trans (s t u : FileTransferManager) (first : s.FinalTo t) (second : t.FinalTo u) :
      s.FinalTo u := by
    intro id a ha final
    obtain ⟨b, hb, hab⟩ := first id a ha final
    obtain ⟨c, hc, hbc⟩ := second id b hb (hab ▸ final)
    exact ⟨c, hc, hbc.trans hab⟩
  have records : Along (step sha256) (fun s i => s.RecordsInProgress (s.step sha256 i).1) m
      inputs ↔ _ := along_iff_forall
  rw [FinalThroughout, related_iff_along refl trans, ← records, ← along_and]
  exact along_congr fun s i => stepKeeps_iff.trans (stepKeeps_step s i)

/-- An offer of a file that fits into one chunk. -/
def smallOffer : FileOffer where
  transferId := ⟨['t']⟩
  metadata := ⟨['f'], 1, none, ⟨List.Vector.replicate 32 0⟩, ⟨0⟩⟩
  description := none
  expiresAt := ⟨1800000⟩

def offeredSession : FileTransferSession :=
  .fromOffer smallOffer ⟨List.Vector.replicate 8 1⟩ ⟨List.Vector.replicate 8 2⟩ ⟨0⟩

def offeredManager : FileTransferManager :=
  ⟨Finmap.singleton smallOffer.transferId offeredSession⟩

def cancelThenAccept : List (FileTransferCall × Timestamp) :=
  [(.cancelTransfer smallOffer.transferId, ⟨1⟩),
    (.processAccept ⟨smallOffer.transferId, true, none⟩, ⟨2⟩)]

/-- A transfer that was cancelled is in progress again after it is accepted. -/
theorem cancelled_then_accepted_resumes :
    ¬ FinalThroughout MessageStore.lastByteDigest offeredManager cancelThenAccept := by
  intro h
  obtain ⟨b, hb, status⟩ := h.1 [_] [_] [] rfl smallOffer.transferId
    { offeredSession with status := .cancelled, lastActivity := ⟨1⟩ } (by decide)
    (.inr (.inr rfl))
  have resumed : (run (step MessageStore.lastByteDigest) offeredManager
      cancelThenAccept).sessions.lookup smallOffer.transferId =
    some (offeredSession.accept ⟨2⟩) := by decide
  cases resumed.symm.trans hb
  cases status

end FileTransferManager

end Bitchat
