import Bitchat.Rust.Call
import Bitchat.Rust.Map
import Bitchat.Rust.Text
import Bitchat.Types

/-!
# Group messaging

`GroupMetadata` and `GroupManager` of `group_messaging.rs`. A group id that the
code draws at random is an argument. Of the messages that nothing is done with
only the group is kept.
-/
namespace Bitchat
open Rust

def maxGroupSize : ℕ := 256
def maxGroupNameLength : ℕ := 128
def maxGroupDescriptionLength : ℕ := 512
def maxMemberNicknameLength : ℕ := 64

structure GroupId where
  id : Text
  deriving DecidableEq

inductive GroupRole where
  | owner
  | admin
  | member
  deriving DecidableEq

namespace GroupRole

def canKick : GroupRole → Bool
  | .owner => true
  | .admin => true
  | .member => false

def canModifyGroup : GroupRole → Bool
  | .owner => true
  | .admin => true
  | .member => false

end GroupRole

structure GroupMember where
  peerId : PeerId
  nickname : Text
  role : GroupRole
  joinedAt : ℕ
  fingerprint : Fingerprint
  deriving DecidableEq

def GroupMember.new (peerId : PeerId) (nickname : Text) (fingerprint : Fingerprint)
    (role : GroupRole) (now : ℕ) : BitchatResult GroupMember :=
  if nickname = [] then invalidPacket "Member nickname cannot be empty"
  else if maxMemberNicknameLength < nickname.size then invalidPacket "Member nickname too long"
  else .ok ⟨peerId, nickname, role, now, fingerprint⟩

structure GroupSettings where
  adminOnlyMessages : Bool
  membersCanInvite : Bool
  readReceiptsEnabled : Bool
  maxMessageHistory : ℕ
  deriving DecidableEq

def GroupSettings.default : GroupSettings := ⟨false, true, true, 1000⟩

structure GroupMetadata where
  groupId : GroupId
  name : Text
  description : Option Text
  createdAt : ℕ
  creator : PeerId
  members : Map PeerId GroupMember
  avatarHash : Option Text
  settings : GroupSettings
  deriving DecidableEq

/-- The lengths that are accepted for a name and for a description. -/
def NameFits (name : Text) : Prop := name ≠ [] ∧ name.size ≤ maxGroupNameLength

instance (name : Text) : Decidable (NameFits name) := inferInstanceAs (Decidable (_ ∧ _))

def DescriptionFits (description : Option Text) : Prop :=
  ∀ text ∈ description, text.size ≤ maxGroupDescriptionLength

instance (description : Option Text) : Decidable (DescriptionFits description) :=
  inferInstanceAs (Decidable (∀ text ∈ description, text.size ≤ maxGroupDescriptionLength))

/-- The checks on a name, in their order. -/
def checkName (name : Text) : BitchatResult Unit := do
  rejectIf (name = []) "Group name cannot be empty"
  rejectIf (maxGroupNameLength < name.size) "Group name too long"

def checkDescription (description : Option Text) : BitchatResult Unit :=
  rejectIf (¬ DescriptionFits description) "Group description too long"

theorem checkName_eq_ok {name : Text} : checkName name = .ok () ↔ NameFits name := by
  simp [checkName, NameFits]

theorem checkDescription_eq_ok {description : Option Text} :
    checkDescription description = .ok () ↔ DescriptionFits description := by
  simp [checkDescription]

namespace GroupMetadata

def new (groupId : GroupId) (name : Text) (description : Option Text) (creator : PeerId)
    (creatorNickname : Text) (creatorFingerprint : Fingerprint) (now : ℕ) :
    BitchatResult GroupMetadata := do
  checkName name
  checkDescription description
  let creatorMember ← GroupMember.new creator creatorNickname creatorFingerprint .owner now
  pure ⟨groupId, name, description, now, creator, Finmap.singleton creator creatorMember, none,
    .default⟩

def addMember (g : GroupMetadata) (member : GroupMember) : Call BitchatError GroupMetadata Unit :=
  if maxGroupSize ≤ Map.size g.members then (g, invalidPacket "Group is at maximum capacity")
  else if member.peerId ∈ g.members then (g, invalidPacket "Member already exists in group")
  else ({ g with members := g.members.insert member.peerId member }, .ok ())

def removeMember (g : GroupMetadata) (peerId : PeerId) : Call BitchatError GroupMetadata Unit :=
  if peerId = g.creator then (g, invalidPacket "Cannot remove group creator")
  else if peerId ∈ g.members then ({ g with members := g.members.erase peerId }, .ok ())
  else (g, invalidPacket "Member not found in group")

def updateName (g : GroupMetadata) : Option Text → Call BitchatError GroupMetadata Unit
  | none => (g, .ok ())
  | some name =>
    match checkName name with
    | .ok _ => ({ g with name := name }, .ok ())
    | .error e => (g, .error e)

def updateDescription (g : GroupMetadata) :
    Option (Option Text) → Call BitchatError GroupMetadata Unit
  | none => (g, .ok ())
  | some description =>
    match checkDescription description with
    | .ok _ => ({ g with description := description }, .ok ())
    | .error e => (g, .error e)

/-- A new name stays when the description is refused. -/
def update (g : GroupMetadata) (name : Option Text) (description : Option (Option Text)) :
    Call BitchatError GroupMetadata Unit :=
  (g.updateName name).andThen fun g _ => g.updateDescription description

end GroupMetadata

structure GroupUpdate where
  groupId : GroupId
  updater : PeerId
  name : Option Text
  description : Option (Option Text)
  settings : Option GroupSettings

structure GroupKick where
  groupId : GroupId
  kicker : PeerId
  kickedMember : PeerId

inductive GroupMessagingMessage where
  | create (metadata : GroupMetadata)
  | invite (groupId : GroupId)
  | join (groupId : GroupId) (member : GroupMember)
  | leave (groupId : GroupId) (peerId : PeerId)
  | message (groupId : GroupId)
  | update (update : GroupUpdate)
  | kick (kick : GroupKick)

/-- `group.update(..)?`, and then the settings. -/
def GroupMetadata.apply (g : GroupMetadata) (update : GroupUpdate) :
    Call BitchatError GroupMetadata Unit :=
  (g.update update.name update.description).andThen fun g _ =>
    match update.settings with
    | some settings => ({ g with settings := settings }, .ok ())
    | none => (g, .ok ())

structure GroupManager where
  groups : Map GroupId GroupMetadata
  localPeerId : PeerId

namespace GroupManager

def new (localPeerId : PeerId) : GroupManager := ⟨∅, localPeerId⟩

def createGroup (m : GroupManager) (groupId : GroupId) (name : Text) (description : Option Text)
    (nickname : Text) (fingerprint : Fingerprint) (now : ℕ) :
    Call BitchatError GroupManager GroupMetadata :=
  match GroupMetadata.new groupId name description m.localPeerId nickname fingerprint now with
  | .error e => (m, .error e)
  | .ok metadata =>
    ({ m with groups := m.groups.insert metadata.groupId metadata }, .ok metadata)

/-- The group is stored as it is given; the member that joins is only returned. -/
def joinGroup (m : GroupManager) (groupMetadata : GroupMetadata) (nickname : Text)
    (fingerprint : Fingerprint) (now : ℕ) : Call BitchatError GroupManager GroupMember :=
  if groupMetadata.groupId ∈ m.groups then (m, invalidPacket "Already a member of this group")
  else
    match GroupMember.new m.localPeerId nickname fingerprint .member now with
    | .error e => (m, .error e)
    | .ok member =>
      ({ m with groups := m.groups.insert groupMetadata.groupId groupMetadata }, .ok member)

def leaveGroup (m : GroupManager) (groupId : GroupId) : Call BitchatError GroupManager Unit :=
  if groupId ∈ m.groups then ({ m with groups := m.groups.erase groupId }, .ok ())
  else (m, invalidPacket "Not a member of this group")

/-- Calls a method of a stored group; a message about another group is ignored. -/
def onGroup (m : GroupManager) (groupId : GroupId)
    (call : GroupMetadata → Call BitchatError GroupMetadata Unit) :
    Call BitchatError GroupManager Unit :=
  match m.groups.lookup groupId with
  | none => (m, .ok ())
  | some g => ({ m with groups := m.groups.insert groupId (call g).1 }, (call g).2)

def processMessage (m : GroupManager) : GroupMessagingMessage → Call BitchatError GroupManager Unit
  | .create metadata => ({ m with groups := m.groups.insert metadata.groupId metadata }, .ok ())
  | .join groupId member => m.onGroup groupId fun g => g.addMember member
  | .leave groupId peerId => m.onGroup groupId fun g => g.removeMember peerId
  | .update update => m.onGroup update.groupId fun g => g.apply update
  | .kick kick => m.onGroup kick.groupId fun g => g.removeMember kick.kickedMember
  | .invite _ => (m, .ok ())
  | .message _ => (m, .ok ())

def isMemberOf (m : GroupManager) (groupId : GroupId) : Bool := groupId ∈ m.groups

theorem lookup_onGroup (m : GroupManager) (groupId id : GroupId)
    (call : GroupMetadata → Call BitchatError GroupMetadata Unit) :
    (m.onGroup groupId call).1.groups.lookup id =
      if id = groupId then (m.groups.lookup groupId).map fun g => (call g).1
      else m.groups.lookup id := by
  apply Map.lookup_of_modified
  · intro absent
    rw [onGroup, absent]
  · intro g known
    rw [onGroup, known]

end GroupManager

end Bitchat
