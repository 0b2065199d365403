import Bitchat.GroupAuthorization
import Bitchat.Rust.Run

/-!
# The groups this peer is a member of

A stored group is one the local peer is a member of, and is within the limits
of `GroupMetadata::new` and `add_member`. Which calls keep it so.
-/
namespace Bitchat
open Rust

namespace GroupMetadata

/-- The limits on a group. -/
structure WithinLimits (g : GroupMetadata) : Prop where
  name : NameFits g.name
  description : DescriptionFits g.description
  members : Map.size g.members ≤ maxGroupSize
  creator : g.creator ∈ g.members

/-- A group as the manager of a peer should store it. -/
def HeldBy (p : PeerId) (g : GroupMetadata) : Prop := g.WithinLimits ∧ p ∈ g.members

variable {g : GroupMetadata} {p q : PeerId}

theorem new_heldBy {groupId : GroupId} {name : Text} {description : Option Text}
    {creator : PeerId} {nickname : Text} {fingerprint : Fingerprint} {now : ℕ}
    (h : new groupId name description creator nickname fingerprint now = .ok g) :
    g.HeldBy creator := by
  rw [new] at h
  obtain ⟨_, hname, h⟩ := bind_eq_ok.mp h
  obtain ⟨_, hdescription, h⟩ := bind_eq_ok.mp h
  obtain ⟨member, _, h⟩ := bind_eq_ok.mp h
  cases h
  have own : creator ∈ (Finmap.singleton creator member : Map PeerId GroupMember) :=
    (Finmap.mem_singleton creator creator member).mpr rfl
  refine ⟨⟨checkName_eq_ok.mp hname, checkDescription_eq_ok.mp hdescription, ?_, own⟩, own⟩
  simp [Map.size, maxGroupSize]

theorem heldBy_addMember (member : GroupMember) (h : g.HeldBy p) :
    (g.addMember member).1.HeldBy p := by
  obtain ⟨⟨name, description, members, creator⟩, own⟩ := h
  unfold addMember
  split_ifs with full known
  · exact ⟨⟨name, description, members, creator⟩, own⟩
  · exact ⟨⟨name, description, members, creator⟩, own⟩
  · refine ⟨⟨name, description, ?_, Finmap.mem_insert.mpr (.inr creator)⟩,
      Finmap.mem_insert.mpr (.inr own)⟩
    rw [Map.size_insert_of_notMem _ known]
    omega

theorem heldBy_apply (update : GroupUpdate) (h : g.HeldBy p) : (g.apply update).1.HeldBy p := by
  obtain ⟨⟨name, description, members, creator⟩, own⟩ := h
  have newName (hname : ∀ n ∈ update.name, NameFits n) : NameFits (update.name.getD g.name) := by
    cases hn : update.name with
    | none => exact name
    | some n => exact hname n hn
  rw [apply_state]
  split_ifs with hname hdescription
  · refine ⟨⟨newName hname, ?_, members, creator⟩, own⟩
    cases hd : update.description with
    | none => exact description
    | some d => exact hdescription d hd
  · exact ⟨⟨newName hname, description, members, creator⟩, own⟩
  · exact ⟨⟨name, description, members, creator⟩, own⟩

/-- The peer itself is removed unless it is the creator. -/
theorem heldBy_removeMember (q : PeerId) (h : g.HeldBy p) :
    (g.removeMember q).1.HeldBy p ↔ (q = p → g.creator = p) := by
  obtain ⟨⟨name, description, members, creator⟩, own⟩ := h
  unfold removeMember
  split_ifs with isCreator known
  · constructor
    · intro _ hq
      rw [← isCreator, hq]
    · intro _
      exact ⟨⟨name, description, members, creator⟩, own⟩
  · constructor
    · intro held hq
      exact absurd held.2 (by simp [hq])
    · intro sparing
      have other : p ≠ q := by
        intro hp
        exact isCreator (by rw [sparing hp.symm, hp])
      refine ⟨⟨name, description, ?_, Finmap.mem_erase.mpr ⟨Ne.symm isCreator, creator⟩⟩,
        Finmap.mem_erase.mpr ⟨other, own⟩⟩
      have smaller := Map.size_erase_of_mem known
      simp only
      omega
  · constructor
    · intro _ hq
      exact absurd own (hq ▸ known)
    · intro _
      exact ⟨⟨name, description, members, creator⟩, own⟩

end GroupMetadata

def NicknameFits (nickname : Text) : Prop :=
  nickname ≠ [] ∧ nickname.size ≤ maxMemberNicknameLength

theorem GroupMember.new_isOk_iff {peerId : PeerId} {nickname : Text} {fingerprint : Fingerprint}
    {role : GroupRole} {now : ℕ} :
    (GroupMember.new peerId nickname fingerprint role now).isOk = true ↔
      NicknameFits nickname := by
  unfold GroupMember.new NicknameFits
  split_ifs with hempty hlong
  · exact iff_of_false Bool.false_ne_true fun fits => fits.1 hempty
  · exact iff_of_false Bool.false_ne_true fun fits => not_le.mpr hlong fits.2
  · exact iff_of_true rfl ⟨hempty, not_lt.mp hlong⟩

inductive GroupCall where
  | createGroup (groupId : GroupId) (name : Text) (description : Option Text) (nickname : Text)
      (fingerprint : Fingerprint) (now : ℕ)
  | joinGroup (groupMetadata : GroupMetadata) (nickname : Text) (fingerprint : Fingerprint)
      (now : ℕ)
  | leaveGroup (groupId : GroupId)
  | processMessage (message : GroupMessagingMessage)

/-- The metadata that `join_group` is given is within the limits. -/
def GroupCall.GivesSound : GroupCall → Prop
  | .joinGroup groupMetadata _ _ _ => groupMetadata.WithinLimits
  | _ => True

namespace GroupManager

/-- The state after a call, and whether it succeeded. -/
def step (m : GroupManager) : GroupCall → GroupManager × Bool
  | .createGroup groupId name description nickname fingerprint now =>
    let (m, result) := m.createGroup groupId name description nickname fingerprint now
    (m, result.isOk)
  | .joinGroup groupMetadata nickname fingerprint now =>
    let (m, result) := m.joinGroup groupMetadata nickname fingerprint now
    (m, result.isOk)
  | .leaveGroup groupId =>
    let (m, result) := m.leaveGroup groupId
    (m, result.isOk)
  | .processMessage message =>
    let (m, result) := m.processMessage message
    (m, result.isOk)

/-- Every stored group is within the limits, and being a member of a group is being
in the member map of the stored one. -/
structure MembershipHolds (m : GroupManager) : Prop where
  limits : ∀ id g, m.groups.lookup id = some g → g.WithinLimits
  member : ∀ id, m.isMemberOf id = true ↔
    ∃ g, m.groups.lookup id = some g ∧ m.localPeerId ∈ g.members

def MembershipThroughout (p : PeerId) (calls : List GroupCall) : Prop :=
  ∀ before rest, calls = before ++ rest → (run step (new p) before).MembershipHolds

/-- The call brings no group of which the local peer is no member or that is out of
the limits, and does not take the local peer out of one. -/
def Minds (m : GroupManager) : GroupCall → Prop
  | .joinGroup groupMetadata nickname _ _ => groupMetadata.groupId ∉ m.groups →
      NicknameFits nickname → m.localPeerId ∈ groupMetadata.members
  | .processMessage (.create metadata) =>
      metadata.WithinLimits ∧ m.localPeerId ∈ metadata.members
  | .processMessage (.leave groupId peerId) => peerId = m.localPeerId →
      ∀ g, m.groups.lookup groupId = some g → g.creator = m.localPeerId
  | .processMessage (.kick kick) => kick.kickedMember = m.localPeerId →
      ∀ g, m.groups.lookup kick.groupId = some g → g.creator = m.localPeerId
  | _ => True

variable {m : GroupManager} {id : GroupId} {g : GroupMetadata}

theorem membershipHolds_iff :
    m.MembershipHolds ↔ ∀ id g, m.groups.lookup id = some g → g.HeldBy m.localPeerId := by
  constructor
  · intro h id g hg
    refine ⟨h.limits id g hg, ?_⟩
    have stored : m.isMemberOf id = true := by
      simp [isMemberOf, ← Finmap.lookup_isSome, hg]
    obtain ⟨g', hg', own⟩ := (h.member id).mp stored
    cases hg.symm.trans hg'
    exact own
  · intro h
    refine ⟨fun id g hg => (h id g hg).1, ?_⟩
    intro id
    rw [isMemberOf, decide_eq_true_iff, Finmap.mem_iff]
    constructor
    · rintro ⟨g, hg⟩
      exact ⟨g, hg, (h id g hg).2⟩
    · rintro ⟨g, hg, _⟩
      exact ⟨g, hg⟩

theorem membershipHolds_insert (h : m.MembershipHolds) (id : GroupId) (g : GroupMetadata) :
    MembershipHolds { m with groups := m.groups.insert id g } ↔ g.HeldBy m.localPeerId := by
  rw [membershipHolds_iff] at h ⊢
  constructor
  · intro after
    exact after id g (Finmap.lookup_insert _)
  · intro held id' g' hg'
    rw [Map.lookup_insert_if] at hg'
    split_ifs at hg' with hid
    · cases hg'
      exact held
    · exact h id' g' hg'

theorem membershipHolds_onGroup (h : m.MembershipHolds) (id : GroupId)
    (call : GroupMetadata → Call BitchatError GroupMetadata Unit) :
    (m.onGroup id call).1.MembershipHolds ↔
      ∀ g, m.groups.lookup id = some g → (call g).1.HeldBy m.localPeerId := by
  unfold onGroup
  cases hg : m.groups.lookup id with
  | none => simp [h]
  | some g => simp [membershipHolds_insert h]

theorem membershipHolds_removal (h : m.MembershipHolds) (id : GroupId) (p : PeerId) :
    (m.onGroup id fun g => g.removeMember p).1.MembershipHolds ↔
      (p = m.localPeerId → ∀ g, m.groups.lookup id = some g → g.creator = m.localPeerId) := by
  rw [membershipHolds_onGroup h]
  have held := membershipHolds_iff.mp h id
  constructor
  · intro after hp g hg
    exact (GroupMetadata.heldBy_removeMember p (held g hg)).mp (after g hg) hp
  · intro sparing g hg
    exact (GroupMetadata.heldBy_removeMember p (held g hg)).mpr fun hp => sparing hp g hg

theorem membershipHolds_createGroup (h : m.MembershipHolds) (groupId : GroupId) (name : Text)
    (description : Option Text) (nickname : Text) (fingerprint : Fingerprint) (now : ℕ) :
    (m.createGroup groupId name description nickname fingerprint now).1.MembershipHolds := by
  unfold createGroup
  cases hnew : GroupMetadata.new groupId name description m.localPeerId nickname fingerprint
    now with
  | error e => exact h
  | ok metadata => exact (membershipHolds_insert h _ metadata).mpr (GroupMetadata.new_heldBy hnew)

theorem membershipHolds_joinGroup (h : m.MembershipHolds) (nickname : Text)
    (fingerprint : Fingerprint) (now : ℕ) (hg : g.WithinLimits) :
    (m.joinGroup g nickname fingerprint now).1.MembershipHolds ↔
      (g.groupId ∉ m.groups → NicknameFits nickname → m.localPeerId ∈ g.members) := by
  unfold joinGroup
  by_cases stored : g.groupId ∈ m.groups
  · simp [stored, h]
  · rw [if_neg stored]
    cases hnew : GroupMember.new m.localPeerId nickname fingerprint .member now with
    | error e =>
      have misfit : ¬ NicknameFits nickname := by
        rw [← GroupMember.new_isOk_iff, hnew]
        exact nofun
      simp [misfit, h]
    | ok member =>
      have fits : NicknameFits nickname := GroupMember.new_isOk_iff.mp (by rw [hnew]; rfl)
      simp [membershipHolds_insert h, GroupMetadata.HeldBy, hg, stored, fits]

theorem membershipHolds_leaveGroup (h : m.MembershipHolds) (groupId : GroupId) :
    (m.leaveGroup groupId).1.MembershipHolds := by
  unfold leaveGroup
  split_ifs with stored
  · rw [membershipHolds_iff] at h ⊢
    intro id g hg
    rw [Map.lookup_erase_if] at hg
    split_ifs at hg
    exact h id g hg
  · exact h

theorem membershipHolds_step {call : GroupCall} (h : m.MembershipHolds)
    (sound : call.GivesSound) : (m.step call).1.MembershipHolds ↔ m.Minds call := by
  cases call with
  | createGroup groupId name description nickname fingerprint now =>
    exact iff_of_true
      (membershipHolds_createGroup h groupId name description nickname fingerprint now) trivial
  | joinGroup groupMetadata nickname fingerprint now =>
    exact membershipHolds_joinGroup h nickname fingerprint now sound
  | leaveGroup groupId => exact iff_of_true (membershipHolds_leaveGroup h groupId) trivial
  | processMessage message =>
    cases message with
    | create metadata => exact membershipHolds_insert h metadata.groupId metadata
    | invite groupId => exact iff_of_true h trivial
    | message groupId => exact iff_of_true h trivial
    | leave groupId peerId => exact membershipHolds_removal h groupId peerId
    | kick kick => exact membershipHolds_removal h kick.groupId kick.kickedMember
    | join groupId member =>
      refine iff_of_true ((membershipHolds_onGroup h groupId _).mpr ?_) trivial
      intro g hg
      exact GroupMetadata.heldBy_addMember member (membershipHolds_iff.mp h groupId g hg)
    | update update =>
      refine iff_of_true ((membershipHolds_onGroup h update.groupId _).mpr ?_) trivial
      intro g hg
      exact GroupMetadata.heldBy_apply update (membershipHolds_iff.mp h update.groupId g hg)

theorem membershipHolds_new (p : PeerId) : (new p).MembershipHolds := by
  rw [membershipHolds_iff]
  intro id g hg
  cases hg

/-- The stored groups are as they should be at every point of a run from a new manager
exactly if each call minds the local peer's membership and the limits. -/
theorem membershipHolds_iff_minds (p : PeerId) (calls : List GroupCall)
    (sound : ∀ call ∈ calls, call.GivesSound) :
    MembershipThroughout p calls ↔ Along step Minds (new p) calls := by
  rw [MembershipThroughout, throughout_iff_along (membershipHolds_new p)]
  exact along_iff (I := MembershipHolds)
    (fun m call h sound minds => (membershipHolds_step h sound).mpr minds)
    (fun m call h sound => membershipHolds_step h sound) (membershipHolds_new p)
    (along_of_forall sound)

def joins : GroupCall :=
  .joinGroup pairGroup ['m'] ⟨List.Vector.replicate 32 0⟩ 0

theorem joins_givesSound : joins.GivesSound :=
  ⟨by decide, by decide, by decide, by decide⟩

/-- A member of a group stores it and sees the other one kicked in vain. -/
theorem memberJoins_membershipHolds :
    MembershipThroughout (groupPeer 2)
      [joins, .processMessage (.kick ⟨pairGroup.groupId, groupPeer 2, groupPeer 1⟩)] := by
  refine (membershipHolds_iff_minds _ _ ?_).mpr ⟨?_, ?_, trivial⟩
  · exact List.forall_mem_cons.mpr ⟨joins_givesSound, List.forall_mem_singleton.mpr trivial⟩
  · intro _ _
    decide
  · intro self
    exact absurd self (by decide)

/-- A peer that joins a group with the metadata it was given counts as a member without
being in the member map. -/
theorem stranger_joins_outside_members : ¬ MembershipThroughout (groupPeer 3) [joins] := by
  intro holds
  have after := holds [joins] [] rfl
  obtain ⟨g, hg, own⟩ := (after.member pairGroup.groupId).mp (by decide)
  have stored : (run step (new (groupPeer 3)) [joins]).groups.lookup pairGroup.groupId =
    some pairGroup := by decide
  cases stored.symm.trans hg
  exact absurd own (by decide)

end GroupManager

end Bitchat
