import Bitchat.GroupAuthorization

/-!
# Updates that fail

A member is added or removed after all the checks, so that a refusal leaves the group as it
was. An update sets the name before it checks the description, and a refused description
leaves the new name in place.
-/
namespace Bitchat
open Rust

/-- The update has a new name that fits, and a description that does not. -/
def GroupMetadata.PartlyApplies (g : GroupMetadata) (name : Option Text)
    (description : Option (Option Text)) : Prop :=
  (∃ n ∈ name, NameFits n ∧ n ≠ g.name) ∧ ∃ d ∈ description, ¬ DescriptionFits d

namespace GroupMetadata

variable {g : GroupMetadata} {name : Option Text} {description : Option (Option Text)}

/-- An update is atomic unless the name alone applies. -/
theorem atomic_update_iff (g : GroupMetadata) (name : Option Text)
    (description : Option (Option Text)) :
    Call.Atomic g (g.update name description) ↔ ¬ g.PartlyApplies name description := by
  unfold update PartlyApplies
  by_cases hname : ∀ n ∈ name, NameFits n
  · rw [updateName_of_fits hname, Call.andThen_ok]
    by_cases hdescription : ∀ d ∈ description, DescriptionFits d
    · rw [updateDescription_of_fits hdescription]
      refine iff_of_true (Call.atomic_of_ok g rfl) ?_
      rintro ⟨-, d, hd, hunfit⟩
      exact hunfit (hdescription d hd)
    · obtain ⟨e, he⟩ := updateDescription_of_refused
        (g := { g with name := name.getD g.name }) hdescription
      have hrefused : ∃ d ∈ description, ¬ DescriptionFits d := by
        push Not at hdescription
        exact hdescription
      rw [he, and_iff_left hrefused]
      constructor
      · rintro hatomic ⟨n, hn, -, hne⟩
        have hsame := congrArg GroupMetadata.name (hatomic e rfl)
        rw [Option.mem_def.mp hn] at hsame
        exact hne hsame
      · intro hkept
        refine Call.atomic_of_state ?_
        cases name with
        | none => rfl
        | some n =>
          have hsame : n = g.name := by
            by_contra hne
            exact hkept ⟨n, rfl, hname n rfl, hne⟩
          rw [Option.getD_some, hsame]
  · obtain ⟨e, he⟩ := updateName_of_refused (g := g) hname
    rw [he]
    refine iff_of_true (Call.atomic_of_state rfl) ?_
    rintro ⟨⟨n, hn, hfits, -⟩, -⟩
    refine hname fun n' hn' => ?_
    rwa [Option.mem_unique hn' hn]

theorem atomic_apply_iff (g : GroupMetadata) (u : GroupUpdate) :
    Call.Atomic g (g.apply u) ↔ ¬ g.PartlyApplies u.name u.description := by
  rw [← atomic_update_iff, apply]
  refine Call.atomic_andThen_iff fun g' _ => ?_
  cases u.settings <;> exact ⟨(), rfl⟩

theorem atomic_addMember (g : GroupMetadata) (member : GroupMember) :
    Call.Atomic g (g.addMember member) := by
  unfold addMember
  split_ifs
  · exact Call.atomic_of_state rfl
  · exact Call.atomic_of_state rfl
  · exact Call.atomic_of_ok g rfl

theorem atomic_removeMember (g : GroupMetadata) (peerId : PeerId) :
    Call.Atomic g (g.removeMember peerId) := by
  unfold removeMember
  split_ifs
  · exact Call.atomic_of_state rfl
  · exact Call.atomic_of_ok g rfl
  · exact Call.atomic_of_state rfl

end GroupMetadata

namespace GroupManager

/-- What a method of a stored group leaves of the manager is what it leaves of the group. -/
theorem atomic_onGroup_iff (m : GroupManager) (groupId : GroupId)
    (call : GroupMetadata → Call BitchatError GroupMetadata Unit) :
    Call.Atomic m (m.onGroup groupId call) ↔
      ∀ g, m.groups.lookup groupId = some g → Call.Atomic g (call g) := by
  cases hlookup : m.groups.lookup groupId with
  | none =>
    rw [onGroup, hlookup]
    exact iff_of_true (Call.atomic_of_ok m rfl) (by simp)
  | some g =>
    have hafter : m.onGroup groupId call =
        ({ m with groups := m.groups.insert groupId (call g).1 }, (call g).2) := by
      rw [onGroup, hlookup]
    rw [hafter]
    constructor
    · intro hatomic g' hg' e he
      obtain rfl := Option.some.inj hg'
      have hsame := congrArg (fun m : GroupManager => m.groups.lookup groupId) (hatomic e he)
      rw [Finmap.lookup_insert, hlookup] at hsame
      exact Option.some.inj hsame
    · intro hatomic e he
      have hgroup := hatomic g rfl e he
      have hgroups : m.groups.insert groupId (call g).1 = m.groups := by
        apply Finmap.ext_lookup
        intro id
        rw [hgroup, Map.lookup_insert_if]
        split_ifs with hid
        · rw [hid, hlookup]
        · rfl
      simp only [hgroups]

/-- No update of a stored group applies its name alone. -/
def AppliesWhole (m : GroupManager) : GroupMessagingMessage → Prop
  | .update update => ∀ g, m.groups.lookup update.groupId = some g →
      ¬ g.PartlyApplies update.name update.description
  | _ => True

/-- A message that fails leaves the manager as it was unless it is an update of which the
name alone applies. -/
theorem atomic_processMessage_iff (m : GroupManager) (message : GroupMessagingMessage) :
    Call.Atomic m (m.processMessage message) ↔ m.AppliesWhole message := by
  cases message with
  | create metadata => exact iff_of_true (Call.atomic_of_ok m rfl) trivial
  | invite groupId => exact iff_of_true (Call.atomic_of_ok m rfl) trivial
  | message groupId => exact iff_of_true (Call.atomic_of_ok m rfl) trivial
  | join groupId member =>
    refine iff_of_true ?_ trivial
    exact (m.atomic_onGroup_iff groupId _).mpr fun g _ => g.atomic_addMember member
  | leave groupId peerId =>
    refine iff_of_true ?_ trivial
    exact (m.atomic_onGroup_iff groupId _).mpr fun g _ => g.atomic_removeMember peerId
  | kick kick =>
    refine iff_of_true ?_ trivial
    exact (m.atomic_onGroup_iff kick.groupId _).mpr fun g _ =>
      g.atomic_removeMember kick.kickedMember
  | update update =>
    refine (m.atomic_onGroup_iff update.groupId _).trans ?_
    simp only [GroupMetadata.atomic_apply_iff, AppliesWhole]

/-- Updates of a group, direct or by a message, are atomic unless they have a new name that
fits together with a description that does not. -/
theorem groupUpdates_atomic_iff (g : GroupMetadata) (name : Option Text)
    (description : Option (Option Text)) (m : GroupManager) (message : GroupMessagingMessage) :
    (Call.Atomic g (g.update name description) ↔ ¬ g.PartlyApplies name description) ∧
      (Call.Atomic m (m.processMessage message) ↔ m.AppliesWhole message) :=
  ⟨g.atomic_update_iff name description, m.atomic_processMessage_iff message⟩

/-- A new name, and a description of 513 bytes. -/
def halfUpdate : GroupUpdate where
  groupId := pairGroup.groupId
  updater := groupPeer 1
  name := some "new".toList
  description := some (some (List.replicate 513 'a'))
  settings := none

/-- The update is refused, and the group has its new name. -/
theorem halfUpdate_renames :
    (∃ e, (pairManager.processMessage (.update halfUpdate)).2 = .error e) ∧
      ((pairManager.processMessage (.update halfUpdate)).1.groups.lookup pairGroup.groupId).map
        GroupMetadata.name = some "new".toList ∧
      (pairManager.groups.lookup pairGroup.groupId).map GroupMetadata.name =
        some pairGroup.name := by
  refine ⟨⟨.err (.invalidPacket "Group description too long"), ?_⟩, ?_, ?_⟩
  · decide +kernel
  · decide +kernel
  · decide +kernel

end GroupManager

end Bitchat
