import Bitchat.GroupMessaging

/-!
# Who may change a group

What each message does to the stored groups, and the roles that its sender would
need for it. The messages are applied without a look at the roles.
-/
namespace Bitchat
open Rust

namespace GroupMetadata

variable {g : GroupMetadata} {p q : PeerId} {member : GroupMember} {name : Option Text}
  {description : Option (Option Text)}

/-- Only a member other than the creator is removed. -/
theorem lookup_removeMember (g : GroupMetadata) (p q : PeerId) :
    (g.removeMember p).1.members.lookup q =
      if q = p ∧ p ≠ g.creator then none else g.members.lookup q := by
  unfold removeMember
  by_cases creator : p = g.creator
  · simp [creator]
  · by_cases known : p ∈ g.members
    · simp [creator, known, Map.lookup_erase_if]
    · have absent : g.members.lookup p = none := Finmap.lookup_eq_none.mpr known
      by_cases hq : q = p
      · rw [hq]
        simp [creator, known, absent]
      · simp [creator, known, hq]

/-- A member is added where there is room and none under its id. -/
theorem lookup_addMember (g : GroupMetadata) (member : GroupMember) (q : PeerId) :
    (g.addMember member).1.members.lookup q =
      if q = member.peerId ∧ Map.size g.members < maxGroupSize ∧ member.peerId ∉ g.members then
        some member
      else g.members.lookup q := by
  unfold addMember
  by_cases full : maxGroupSize ≤ Map.size g.members
  · simp [full, not_lt.mpr full]
  · by_cases known : member.peerId ∈ g.members
    · simp [full, known]
    · simp only [if_neg full, if_neg known, Map.lookup_insert_if]
      simp [not_le.mp full, known]

theorem updateName_of_fits (h : ∀ n ∈ name, NameFits n) :
    g.updateName name = ({ g with name := name.getD g.name }, .ok ()) := by
  cases name with
  | none => rfl
  | some n =>
    rw [updateName, checkName_eq_ok.mpr (h n rfl)]
    rfl

theorem updateName_of_refused (h : ¬ ∀ n ∈ name, NameFits n) :
    ∃ e, g.updateName name = (g, .error e) := by
  cases name with
  | none => simp at h
  | some n =>
    rw [updateName]
    cases hcheck : checkName n with
    | ok u => exact absurd (checkName_eq_ok.mp hcheck) (by simpa using h)
    | error e => exact ⟨e, rfl⟩

theorem updateDescription_of_fits (h : ∀ d ∈ description, DescriptionFits d) :
    g.updateDescription description =
      ({ g with description := description.getD g.description }, .ok ()) := by
  cases description with
  | none => rfl
  | some d =>
    rw [updateDescription, checkDescription_eq_ok.mpr (h d rfl)]
    rfl

theorem updateDescription_of_refused (h : ¬ ∀ d ∈ description, DescriptionFits d) :
    ∃ e, g.updateDescription description = (g, .error e) := by
  cases description with
  | none => simp at h
  | some d =>
    rw [updateDescription]
    cases hcheck : checkDescription d with
    | ok u => exact absurd (checkDescription_eq_ok.mp hcheck) (by simpa using h)
    | error e => exact ⟨e, rfl⟩

/-- The group after an update: all of it, the name only, or as it was. -/
theorem apply_state (g : GroupMetadata) (u : GroupUpdate) :
    (g.apply u).1 =
      if ∀ n ∈ u.name, NameFits n then
        if ∀ d ∈ u.description, DescriptionFits d then
          { g with
            name := u.name.getD g.name
            description := u.description.getD g.description
            settings := u.settings.getD g.settings }
        else { g with name := u.name.getD g.name }
      else g := by
  unfold apply update
  split_ifs with hname hdescription
  · rw [updateName_of_fits hname, Call.andThen_ok, updateDescription_of_fits hdescription,
      Call.andThen_ok]
    cases u.settings with
    | none => rfl
    | some settings => rfl
  · obtain ⟨e, he⟩ := updateDescription_of_refused
      (g := { g with name := u.name.getD g.name }) hdescription
    rw [updateName_of_fits hname, Call.andThen_ok, he]
    rfl
  · obtain ⟨e, he⟩ := updateName_of_refused (g := g) hname
    rw [he]
    rfl

end GroupMetadata

/-- The update has something for the group: a new name that is accepted, and with no
refused name a new description that is accepted, or new settings after both. -/
def GroupUpdate.Alters (u : GroupUpdate) (g : GroupMetadata) : Prop :=
  (∀ n ∈ u.name, NameFits n) ∧ (u.name.getD g.name ≠ g.name ∨
    (∀ d ∈ u.description, DescriptionFits d) ∧ (u.description.getD g.description ≠ g.description ∨
      u.settings.getD g.settings ≠ g.settings))

theorem GroupMetadata.apply_ne_iff (g : GroupMetadata) (u : GroupUpdate) :
    (g.apply u).1 ≠ g ↔ u.Alters g := by
  rw [apply_state, GroupUpdate.Alters]
  obtain ⟨groupId, name, description, createdAt, creator, members, avatarHash, settings⟩ := g
  by_cases hname : ∀ n ∈ u.name, NameFits n
  · by_cases hdescription : ∀ d ∈ u.description, DescriptionFits d
    · simp only [if_pos hname, if_pos hdescription, ne_eq, GroupMetadata.mk.injEq, true_and]
      tauto
    · simp only [if_pos hname, if_neg hdescription, ne_eq, GroupMetadata.mk.injEq, true_and,
        and_true]
      tauto
  · simp only [if_neg hname]
    tauto

namespace GroupManager

variable {m : GroupManager} {id : GroupId} {p : PeerId}

/-- A member of a stored group. -/
def memberOf (m : GroupManager) (id : GroupId) (p : PeerId) : Option GroupMember :=
  (m.groups.lookup id).bind fun g => g.members.lookup p

/-- A message removes, changes, replaces and adds only what it may. -/
def Authorized (m : GroupManager) (message : GroupMessagingMessage) : Prop :=
  let after := (m.processMessage message).1
  match message with
  | .kick kick => ∀ id p, (m.memberOf id p).isSome → after.memberOf id p = none →
      ∃ kicker, m.memberOf id kick.kicker = some kicker ∧ kicker.role.canKick = true
  | .update update => ∀ id, after.groups.lookup id ≠ m.groups.lookup id →
      ∃ updater, m.memberOf id update.updater = some updater ∧
        updater.role.canModifyGroup = true
  | .create _ => ∀ id g, m.groups.lookup id = some g → after.groups.lookup id = some g
  | .join _ _ => ∀ id p member, m.memberOf id p = none → after.memberOf id p = some member →
      member.role = .member
  | _ => True

/-- The message has no effect that its sender may not cause. -/
def Entitled (m : GroupManager) : GroupMessagingMessage → Prop
  | .kick kick => ∀ g, m.groups.lookup kick.groupId = some g → kick.kickedMember ∈ g.members →
      kick.kickedMember ≠ g.creator →
        ∃ kicker, g.members.lookup kick.kicker = some kicker ∧ kicker.role.canKick = true
  | .update update => ∀ g, m.groups.lookup update.groupId = some g → update.Alters g →
      ∃ updater, g.members.lookup update.updater = some updater ∧
        updater.role.canModifyGroup = true
  | .create metadata => ∀ g, m.groups.lookup metadata.groupId = some g → g = metadata
  | .join groupId member => ∀ g, m.groups.lookup groupId = some g →
      Map.size g.members < maxGroupSize → member.peerId ∉ g.members → member.role = .member
  | _ => True

theorem memberOf_of_lookup {g : GroupMetadata} (h : m.groups.lookup id = some g) (p : PeerId) :
    m.memberOf id p = g.members.lookup p := by
  rw [memberOf, h, Option.bind_some]

theorem memberOf_onGroup (m : GroupManager) (groupId id : GroupId)
    (call : GroupMetadata → Call BitchatError GroupMetadata Unit) (p : PeerId) :
    (m.onGroup groupId call).1.memberOf id p =
      if id = groupId then
        (m.groups.lookup groupId).bind fun g => (call g).1.members.lookup p
      else m.memberOf id p := by
  rw [memberOf, lookup_onGroup]
  split_ifs with hid
  · cases m.groups.lookup groupId <;> rfl
  · rfl

theorem authorized_kick_iff (m : GroupManager) (kick : GroupKick) :
    m.Authorized (.kick kick) ↔ m.Entitled (.kick kick) := by
  simp only [Authorized, Entitled, processMessage, memberOf_onGroup]
  constructor
  · intro authorized g hg member other
    obtain ⟨kicker, hkicker, may⟩ := authorized kick.groupId kick.kickedMember
      (by rwa [memberOf_of_lookup hg, Finmap.lookup_isSome])
      (by rw [if_pos rfl, hg, Option.bind_some, GroupMetadata.lookup_removeMember,
        if_pos ⟨rfl, other⟩])
    rw [memberOf_of_lookup hg] at hkicker
    exact ⟨kicker, hkicker, may⟩
  · intro entitled id p before after
    by_cases hid : id = kick.groupId
    · rw [if_pos hid] at after
      cases hg : m.groups.lookup kick.groupId with
      | none =>
        rw [hid, memberOf, hg] at before
        cases before
      | some g =>
        rw [hid, memberOf_of_lookup hg] at before
        rw [hg, Option.bind_some, GroupMetadata.lookup_removeMember] at after
        split_ifs at after with removed
        · obtain ⟨hp, other⟩ := removed
          rw [hp, Finmap.lookup_isSome] at before
          obtain ⟨kicker, hkicker, may⟩ := entitled g hg before other
          rw [hid]
          exact ⟨kicker, by rw [memberOf_of_lookup hg, hkicker], may⟩
        · rw [after] at before
          cases before
    · rw [if_neg hid] at after
      rw [after] at before
      cases before

theorem authorized_update_iff (m : GroupManager) (update : GroupUpdate) :
    m.Authorized (.update update) ↔ m.Entitled (.update update) := by
  simp only [Authorized, Entitled, processMessage, lookup_onGroup]
  constructor
  · intro authorized g hg alters
    obtain ⟨updater, hupdater, may⟩ := authorized update.groupId (by
      rw [if_pos rfl, hg, Option.map_some, ne_eq, Option.some.injEq]
      exact (g.apply_ne_iff update).mpr alters)
    rw [memberOf_of_lookup hg] at hupdater
    exact ⟨updater, hupdater, may⟩
  · intro entitled id changed
    by_cases hid : id = update.groupId
    · rw [if_pos hid] at changed
      cases hg : m.groups.lookup update.groupId with
      | none =>
        rw [hid, hg] at changed
        exact absurd rfl changed
      | some g =>
        rw [hid, hg, Option.map_some, ne_eq, Option.some.injEq] at changed
        obtain ⟨updater, hupdater, may⟩ := entitled g hg ((g.apply_ne_iff update).mp changed)
        rw [hid]
        exact ⟨updater, by rw [memberOf_of_lookup hg, hupdater], may⟩
    · rw [if_neg hid] at changed
      exact absurd rfl changed

theorem authorized_create_iff (m : GroupManager) (metadata : GroupMetadata) :
    m.Authorized (.create metadata) ↔ m.Entitled (.create metadata) := by
  simp only [Authorized, Entitled, processMessage, Map.lookup_insert_if]
  constructor
  · intro authorized g hg
    have kept := authorized metadata.groupId g hg
    rw [if_pos rfl] at kept
    exact (Option.some.inj kept).symm
  · intro entitled id g hg
    split_ifs with hid
    · rw [entitled g (hid ▸ hg)]
    · exact hg

theorem authorized_join_iff (m : GroupManager) (groupId : GroupId) (member : GroupMember) :
    m.Authorized (.join groupId member) ↔ m.Entitled (.join groupId member) := by
  simp only [Authorized, Entitled, processMessage, memberOf_onGroup]
  constructor
  · intro authorized g hg room new
    apply authorized groupId member.peerId member
    · rw [memberOf_of_lookup hg, Finmap.lookup_eq_none.mpr new]
    · rw [if_pos rfl, hg, Option.bind_some, GroupMetadata.lookup_addMember,
        if_pos ⟨rfl, room, new⟩]
  · intro entitled id p added before after
    by_cases hid : id = groupId
    · rw [if_pos hid] at after
      cases hg : m.groups.lookup groupId with
      | none => simp [hg] at after
      | some g =>
        rw [hid, memberOf_of_lookup hg] at before
        rw [hg, Option.bind_some, GroupMetadata.lookup_addMember] at after
        split_ifs at after with joins
        · rw [← Option.some.inj after]
          exact entitled g hg joins.2.1 joins.2.2
        · cases before.symm.trans after
    · rw [if_neg hid] at after
      cases before.symm.trans after

/-- A message does only what its sender may do exactly if it has no other effect on the
stored group. -/
theorem authorized_iff_entitled (m : GroupManager) (message : GroupMessagingMessage) :
    m.Authorized message ↔ m.Entitled message := by
  cases message with
  | create metadata => exact authorized_create_iff m metadata
  | invite groupId => exact Iff.rfl
  | join groupId member => exact authorized_join_iff m groupId member
  | leave groupId peerId => exact Iff.rfl
  | message groupId => exact Iff.rfl
  | update update => exact authorized_update_iff m update
  | kick kick => exact authorized_kick_iff m kick

def groupPeer (n : UInt8) : PeerId := ⟨List.Vector.replicate 8 n⟩

def groupMember (p : PeerId) (role : GroupRole) : GroupMember :=
  ⟨p, ['m'], role, 0, ⟨List.Vector.replicate 32 0⟩⟩

/-- A group of its owner, the local peer, and one plain member. -/
def pairGroup : GroupMetadata where
  groupId := ⟨['g']⟩
  name := ['g']
  description := none
  createdAt := 0
  creator := groupPeer 1
  members := (Finmap.singleton (groupPeer 1) (groupMember (groupPeer 1) .owner)).insert
    (groupPeer 2) (groupMember (groupPeer 2) .member)
  avatarHash := none
  settings := .default

def pairManager : GroupManager := ⟨Finmap.singleton pairGroup.groupId pairGroup, groupPeer 1⟩

/-- A peer that is no member of the group kicks one that is. -/
theorem stranger_kicks_member :
    ¬ pairManager.Authorized (.kick ⟨pairGroup.groupId, groupPeer 3, groupPeer 2⟩) := by
  intro authorized
  obtain ⟨kicker, hkicker, -⟩ :=
    authorized pairGroup.groupId (groupPeer 2) (by decide) (by decide)
  have stranger : pairManager.memberOf pairGroup.groupId (groupPeer 3) = none := by decide
  cases stranger.symm.trans hkicker

end GroupManager

end Bitchat
