import Bitchat.IdentityPersistence

/-!
# Blocked peers

The block of a peer is a flag of its social identity. It stays until it is taken back,
unless a clean-up drops the social identity, or a caller writes the flag by itself.
-/
namespace Bitchat
open Rust

/-- `social.is_blocked` of the social identity, if there is one. -/
def IdentityCache.isBlocked (c : IdentityCache) (fingerprint : Fingerprint) : Bool :=
  (c.socialIdentities.lookup fingerprint).any SocialIdentity.isBlocked

/-- What a call says about the block of a fingerprint, if it says anything. -/
def IdentityOp.asks (fingerprint : Fingerprint) : IdentityOp → Option Bool
  | .setBlocked f blocked => if f = fingerprint then some blocked else none
  | .removeIdentity f => if f = fingerprint then some false else none
  | .panicClearAllData => some false
  | _ => none

/-- The last word on the block of a fingerprint is that it is blocked. -/
def blockedBy (fingerprint : Fingerprint) (inputs : List IdentityInput) : Bool :=
  inputs.foldl (fun asked i => (i.op.asks fingerprint).getD asked) false

theorem blockedBy_concat (fingerprint : Fingerprint) (before : List IdentityInput)
    (i : IdentityInput) :
    blockedBy fingerprint (before ++ [i]) =
      (i.op.asks fingerprint).getD (blockedBy fingerprint before) := by
  simp [blockedBy]

namespace IdentityCache

variable {c : IdentityCache} {fingerprint f : Fingerprint} {now : ℕ}

theorem isBlocked_iff : c.isBlocked fingerprint = true ↔
    ∃ s, c.socialIdentities.lookup fingerprint = some s ∧ s.isBlocked = true := by
  rw [isBlocked, Option.any_eq_true]

theorem isBlocked_editSocial (edit : SocialIdentity → SocialIdentity) :
    (c.editSocial f edit now).isBlocked fingerprint =
      if fingerprint = f then (edit (c.socialOf f now)).isBlocked else c.isBlocked fingerprint := by
  rw [isBlocked, editSocial, Map.lookup_insert_if]
  split_ifs
  · rfl
  · rfl

/-- An edit that leaves the flag alone leaves the block alone. -/
theorem isBlocked_editSocial_of_same {edit : SocialIdentity → SocialIdentity}
    (same : ∀ s, (edit s).isBlocked = s.isBlocked) (h : c.isBlocked fingerprint = true) :
    (c.editSocial f edit now).isBlocked fingerprint = true := by
  rw [isBlocked_editSocial]
  split_ifs with hf
  · obtain ⟨s, hs, blocked⟩ := isBlocked_iff.mp h
    rw [same, socialOf, ← hf, hs]
    exact blocked
  · exact h

theorem isBlocked_editSocial_iff {edit : SocialIdentity → SocialIdentity}
    (h : c.isBlocked fingerprint = true) :
    (c.editSocial f edit now).isBlocked fingerprint = true ↔
      (f = fingerprint → ∀ s, c.socialIdentities.lookup fingerprint = some s →
        (edit s).isBlocked = true) := by
  obtain ⟨s, hs, blocked⟩ := isBlocked_iff.mp h
  rw [isBlocked_editSocial]
  by_cases hf : fingerprint = f
  · rw [if_pos hf, socialOf, ← hf, hs]
    simp
  · rw [if_neg hf]
    exact iff_of_true h fun same => absurd same.symm hf

/-- Recording a handshake does not touch the social identities. -/
theorem isBlocked_updateLastHandshake :
    (c.updateLastHandshake f now).isBlocked fingerprint = c.isBlocked fingerprint := by
  unfold updateLastHandshake
  cases c.cryptographicIdentities.lookup f with
  | none => rfl
  | some crypto => rfl

theorem isBlocked_setVerified {verified : Bool} :
    (c.setVerified f verified).isBlocked fingerprint = c.isBlocked fingerprint := by
  unfold setVerified
  split_ifs
  · rfl
  · rfl
  · rfl

theorem isBlocked_removeIdentity (other : f ≠ fingerprint) :
    (c.removeIdentity f).isBlocked fingerprint = c.isBlocked fingerprint := by
  rw [isBlocked, removeIdentity, Map.lookup_erase_if, if_neg (Ne.symm other)]
  rfl

/-- A clean-up keeps what it knows of a fingerprint with a recent or verified key. -/
def KeepsOld (c : IdentityCache) (fingerprint : Fingerprint) (maxAge now : ℕ) : Prop :=
  ∃ crypto, c.cryptographicIdentities.lookup fingerprint = some crypto ∧
    (now - maxAge ≤ crypto.lastHandshake ∨ fingerprint ∈ c.verifiedFingerprints)

theorem isBlocked_cleanupOldIdentities_iff {maxAge : ℕ} (h : c.isBlocked fingerprint = true) :
    (c.cleanupOldIdentities maxAge now).isBlocked fingerprint = true ↔
      c.KeepsOld fingerprint maxAge now := by
  obtain ⟨s, hs, blocked⟩ := isBlocked_iff.mp h
  simp only [isBlocked_iff, cleanupOldIdentities, Map.mem_retain_entries, hs, Finmap.mem_iff,
    decide_eq_true_eq, Bool.or_eq_true, KeepsOld]
  constructor
  · rintro ⟨_, ⟨_, kept⟩, _⟩
    exact kept
  · intro kept
    exact ⟨s, ⟨rfl, kept⟩, blocked⟩

end IdentityCache

namespace SecureIdentityStateManager

variable {S : Type} {lib : IdentityLibrary S} {m : SecureIdentityStateManager S}
  {fingerprint : Fingerprint} {i : IdentityInput}

/-- The call leaves the block of a fingerprint alone: a clean-up keeps its key, and what a
caller writes into its social identity has the flag set. -/
def SparesBlock (m : SecureIdentityStateManager S) (fingerprint : Fingerprint)
    (i : IdentityInput) : Prop :=
  match i.op with
  | .cleanupOldIdentities maxAgeMs => m.identityCache.KeepsOld fingerprint maxAgeMs i.now
  | .getOrCreateSocialIdentity f edit => f = fingerprint → ∀ s,
      m.identityCache.socialIdentities.lookup fingerprint = some s → (edit s).isBlocked = true
  | .updateSocialIdentity f updateFn => f = fingerprint → ∀ s,
      m.identityCache.socialIdentities.lookup fingerprint = some s → (updateFn s).isBlocked = true
  | _ => True

/-- A call that asks for a block sets it. -/
theorem isBlocked_of_asks (h : i.op.asks fingerprint = some true) :
    (step lib m i).1.identityCache.isBlocked fingerprint = true := by
  rw [identityCache_step]
  obtain ⟨op, now, nonce⟩ := i
  cases op with
  | setBlocked f blocked =>
    simp only [IdentityOp.asks] at h
    split_ifs at h with hf
    rw [cacheAfter, IdentityCache.isBlocked_editSocial, if_pos hf.symm]
    exact Option.some.inj h
  | removeIdentity f => simp [IdentityOp.asks] at h
  | panicClearAllData => simp [IdentityOp.asks] at h
  | _ => cases h

/-- A block that a call says nothing about stays exactly if the call spares it. -/
theorem isBlocked_step_iff (h : m.identityCache.isBlocked fingerprint = true)
    (silent : i.op.asks fingerprint = none) :
    (step lib m i).1.identityCache.isBlocked fingerprint = true ↔
      m.SparesBlock fingerprint i := by
  rw [identityCache_step]
  obtain ⟨op, now, nonce⟩ := i
  have edits : ∀ f edit, (∀ s : SocialIdentity, (edit s).isBlocked = s.isBlocked) →
      ((m.identityCache.editSocial f edit now).isBlocked fingerprint = true ↔ True) := by
    intro f edit same
    exact iff_of_true (IdentityCache.isBlocked_editSocial_of_same same h) trivial
  cases op with
  | registerEphemeralIdentity peerId edit => exact iff_of_true h trivial
  | getEphemeralIdentityMut peerId edit => exact iff_of_true h trivial
  | updateHandshakeState peerId state =>
    refine iff_of_true ?_ trivial
    simp only [cacheAfter]
    cases m.ephemeralSessions.lookup peerId with
    | none => exact h
    | some ephemeral =>
      cases state.fingerprint with
      | none => exact h
      | some f => exact IdentityCache.isBlocked_updateLastHandshake.trans h
  | cleanupEphemeralSessions => exact iff_of_true h trivial
  | upsertCryptographicIdentity identity => exact iff_of_true h trivial
  | updateLastHandshake f =>
    exact iff_of_true (IdentityCache.isBlocked_updateLastHandshake.trans h) trivial
  | createCryptographicIdentity noisePublicKey signingPublicKey => exact iff_of_true h trivial
  | getOrCreateSocialIdentity f edit => exact IdentityCache.isBlocked_editSocial_iff h
  | updateSocialIdentity f updateFn => exact IdentityCache.isBlocked_editSocial_iff h
  | setNickname f nickname => exact edits f _ fun _ => rfl
  | setPetname f petname => exact edits f _ fun _ => rfl
  | setTrustLevel f level => exact edits f _ fun _ => rfl
  | setVerified f verified =>
    exact iff_of_true (IdentityCache.isBlocked_setVerified.trans h) trivial
  | setFavorite f favorite => exact edits f _ fun _ => rfl
  | setBlocked f blocked =>
    simp only [IdentityOp.asks] at silent
    split_ifs at silent with other
    refine iff_of_true ?_ trivial
    rw [cacheAfter, IdentityCache.isBlocked_editSocial, if_neg (Ne.symm other)]
    exact h
  | cleanupOldIdentities maxAgeMs => exact IdentityCache.isBlocked_cleanupOldIdentities_iff h
  | removeIdentity f =>
    simp only [IdentityOp.asks] at silent
    split_ifs at silent with other
    exact iff_of_true ((IdentityCache.isBlocked_removeIdentity other).trans h) trivial
  | panicClearAllData => cases silent

/-- At every point of the run the fingerprints that were blocked, and not unblocked since,
are blocked. -/
def BlocksPersist (lib : IdentityLibrary S) (m : SecureIdentityStateManager S)
    (inputs : List IdentityInput) : Prop :=
  ∀ fingerprint before rest, inputs = before ++ rest → blockedBy fingerprint before = true →
    (run (step lib) m before).identityCache.isBlocked fingerprint = true

/-- Every call of the run that says nothing about such a fingerprint spares its block. -/
def SparesBlocks (lib : IdentityLibrary S) (m : SecureIdentityStateManager S)
    (inputs : List IdentityInput) : Prop :=
  ∀ fingerprint before i rest, inputs = before ++ i :: rest →
    blockedBy fingerprint before = true → i.op.asks fingerprint = none →
      (run (step lib) m before).SparesBlock fingerprint i

/-- Blocks persist exactly in the runs whose calls all spare them. -/
theorem blocksPersist_iff_sparesBlocks (lib : IdentityLibrary S)
    (m : SecureIdentityStateManager S) (inputs : List IdentityInput) :
    BlocksPersist lib m inputs ↔ SparesBlocks lib m inputs := by
  constructor
  · intro persist fingerprint before i rest heq asked silent
    have here := persist fingerprint before (i :: rest) heq asked
    have after := persist fingerprint (before ++ [i]) rest (by simp [heq])
      (by rw [blockedBy_concat, silent]; exact asked)
    rw [run_concat] at after
    exact (isBlocked_step_iff here silent).mp after
  · intro spares fingerprint before
    induction before using List.reverseRecOn with
    | nil =>
      intro rest _ asked
      cases asked
    | append_singleton before i ih =>
      intro rest heq asked
      have heq' : inputs = before ++ i :: rest := by simp [heq]
      rw [blockedBy_concat] at asked
      rw [run_concat]
      cases hasks : i.op.asks fingerprint with
      | some blocked =>
        rw [hasks] at asked
        apply isBlocked_of_asks
        rw [hasks, ← asked]
        rfl
      | none =>
        rw [hasks] at asked
        have here := ih (i :: rest) heq' asked
        exact (isBlocked_step_iff here hasks).mpr
          (spares fingerprint before i rest heq' asked hasks)

/-- A peer that was blocked is not blocked any more after a clean-up of identities that
are older than thirty days. -/
theorem cleanup_unblocks :
    ¬ BlocksPersist smallLibrary openedManager
      [identityCall (.setBlocked someFingerprint true),
        identityCall (.cleanupOldIdentities 2592000000)] := by
  intro persist
  have blocked := persist someFingerprint _ [] (List.append_nil _).symm (by decide)
  exact absurd blocked (by decide)

end SecureIdentityStateManager

end Bitchat
