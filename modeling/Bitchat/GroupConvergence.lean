import Bitchat.GroupAuthorization
import Bitchat.Rust.Interleaving

/-!
# The members of a group agree

Each member keeps a copy of the group and applies the messages in the order in which they
arrive. Two members agree if the messages about each person come to both in the same order,
and so do the changes of the profile. Who is a member is decided by the last message about
the person, whoever sent it.
-/
namespace Bitchat
open Rust

namespace GroupMessagingMessage

def groupId : GroupMessagingMessage → GroupId
  | .create metadata => metadata.groupId
  | .invite groupId => groupId
  | .join groupId _ => groupId
  | .leave groupId _ => groupId
  | .message groupId => groupId
  | .update u => u.groupId
  | .kick k => k.groupId

/-- What a message is about: a person, or the group's name, description and settings. -/
inductive Subject where
  | person (peerId : PeerId)
  | profile
  deriving DecidableEq

def subject : GroupMessagingMessage → Subject
  | .create _ => .profile
  | .invite _ => .profile
  | .join _ member => .person member.peerId
  | .leave _ peerId => .person peerId
  | .message _ => .profile
  | .update _ => .profile
  | .kick k => .person k.kickedMember

/-- What becomes of the person that the message is about, in a group that is not full. -/
def presence (creator : PeerId) : GroupMessagingMessage → Option GroupMember → Option GroupMember
  | .join _ member, present => present.or (some member)
  | .leave _ peerId, present => if peerId = creator then present else none
  | .kick k, present => if k.kickedMember = creator then present else none
  | _, present => present

def isJoin : GroupMessagingMessage → Bool
  | .join _ _ => true
  | _ => false

/-- The message sets up no group, and it adds at most one of the people. -/
def Among (people : Finset PeerId) : GroupMessagingMessage → Prop
  | .create _ => False
  | .join _ member => member.peerId ∈ people
  | _ => True

instance (people : Finset PeerId) : DecidablePred (Among people)
  | .create _ => inferInstanceAs (Decidable False)
  | .join _ member => inferInstanceAs (Decidable (member.peerId ∈ people))
  | .invite _ | .leave _ _ | .message _ | .update _ | .kick _ => inferInstanceAs (Decidable True)

end GroupMessagingMessage

open GroupMessagingMessage

namespace GroupMetadata

variable {g : GroupMetadata} {people : Finset PeerId} {message : GroupMessagingMessage}
  {p : PeerId}

/-- A message about the group. -/
def receive (g : GroupMetadata) : GroupMessagingMessage → Call BitchatError GroupMetadata Unit
  | .create metadata => (metadata, .ok ())
  | .invite _ => (g, .ok ())
  | .join _ member => g.addMember member
  | .leave _ peerId => g.removeMember peerId
  | .message _ => (g, .ok ())
  | .update u => g.apply u
  | .kick k => g.removeMember k.kickedMember

/-- The members are some of the people. -/
def Within (people : Finset PeerId) (g : GroupMetadata) : Prop := g.members.keys ⊆ people

instance (people : Finset PeerId) (g : GroupMetadata) : Decidable (g.Within people) :=
  inferInstanceAs (Decidable (g.members.keys ⊆ people))

/-- The group without its members. -/
def profile (g : GroupMetadata) : GroupMetadata := { g with members := ∅ }

theorem eq_of_profile {g' : GroupMetadata} (hprofile : g.profile = g'.profile)
    (hmembers : ∀ q, g.members.lookup q = g'.members.lookup q) : g = g' := by
  have members : g.members = g'.members := Finmap.ext_lookup hmembers
  obtain ⟨groupId, name, description, createdAt, creator, own, avatarHash, settings⟩ := g
  obtain ⟨groupId', name', description', createdAt', creator', own', avatarHash', settings'⟩ := g'
  simp only [profile, GroupMetadata.mk.injEq, true_and] at hprofile members ⊢
  tauto

/-- Who is not a member yet finds room. -/
theorem Within.room (h : g.Within people) (few : people.card ≤ maxGroupSize) (hp : p ∈ people)
    (absent : p ∉ g.members) : Map.size g.members < maxGroupSize := by
  have without : g.members.keys ⊆ people.erase p :=
    Finset.subset_erase.mpr ⟨h, fun hmem => absent (Finmap.mem_keys.mp hmem)⟩
  have smaller := Finset.card_le_card without
  have fewer := Finset.card_erase_lt_of_mem hp
  rw [Map.size]
  omega

theorem creator_receive (hamong : message.Among people) :
    (g.receive message).1.creator = g.creator := by
  cases message with
  | create metadata => exact hamong.elim
  | invite groupId => rfl
  | join groupId member =>
    simp only [receive, addMember]
    split_ifs <;> rfl
  | leave groupId peerId =>
    simp only [receive, removeMember]
    split_ifs <;> rfl
  | message groupId => rfl
  | update u =>
    simp only [receive, apply_state]
    split_ifs <;> rfl
  | kick k =>
    simp only [receive, removeMember]
    split_ifs <;> rfl

theorem lookup_removal (q : PeerId) :
    (g.removeMember p).1.members.lookup q =
      if Subject.person p = .person q then (if p = g.creator then g.members.lookup q else none)
      else g.members.lookup q := by
  rw [lookup_removeMember]
  simp only [Subject.person.injEq]
  by_cases hq : q = p
  · subst hq
    by_cases hcreator : q = g.creator <;> simp [hcreator]
  · rw [if_neg fun h => hq h.1, if_neg (Ne.symm hq)]

/-- A message changes the person that it is about, and nobody else. -/
theorem lookup_receive (h : g.Within people) (few : people.card ≤ maxGroupSize)
    (hamong : message.Among people) (q : PeerId) :
    (g.receive message).1.members.lookup q =
      if message.subject = .person q then message.presence g.creator (g.members.lookup q)
      else g.members.lookup q := by
  cases message with
  | create metadata => exact hamong.elim
  | invite groupId => simp [receive, subject]
  | join groupId member =>
    rw [receive, lookup_addMember]
    simp only [subject, presence, Subject.person.injEq]
    by_cases hq : q = member.peerId
    · subst hq
      by_cases known : member.peerId ∈ g.members
      · obtain ⟨held, hheld⟩ := Finmap.mem_iff.mp known
        simp [known, hheld]
      · simp [known, h.room few hamong known, Finmap.lookup_eq_none.mpr known]
    · rw [if_neg fun h => hq h.1, if_neg (Ne.symm hq)]
  | leave groupId peerId => exact lookup_removal q
  | message groupId => simp [receive, subject]
  | update u =>
    simp only [receive, apply_state, subject]
    split_ifs <;> rfl
  | kick k => exact lookup_removal q

/-- A message about a person leaves the profile as it is, another one does not look at the
members. -/
theorem profile_receive (hamong : message.Among people) :
    (g.receive message).1.profile =
      if message.subject = .profile then (g.profile.receive message).1 else g.profile := by
  cases message with
  | create metadata => exact hamong.elim
  | invite groupId => rfl
  | join groupId member =>
    simp only [receive, addMember, subject, reduceCtorEq, if_false]
    split_ifs <;> rfl
  | leave groupId peerId =>
    simp only [receive, removeMember, subject, reduceCtorEq, if_false]
    split_ifs <;> rfl
  | message groupId => rfl
  | update u =>
    simp only [receive, apply_state, subject, if_true]
    split_ifs <;> rfl
  | kick k =>
    simp only [receive, removeMember, subject, reduceCtorEq, if_false]
    split_ifs <;> rfl

theorem Within.receive (h : g.Within people) (few : people.card ≤ maxGroupSize)
    (hamong : message.Among people) : (g.receive message).1.Within people := by
  intro q hq
  obtain ⟨member, hmember⟩ := Map.mem_keys_iff.mp hq
  rw [lookup_receive h few hamong] at hmember
  by_cases known : q ∈ g.members
  · exact h (Finmap.mem_keys.mpr known)
  · have absent := Finmap.lookup_eq_none.mpr known
    cases message with
    | join groupId member =>
      by_cases hsubject : Subject.person member.peerId = .person q
      · obtain rfl := Subject.person.inj hsubject
        exact hamong
      · simp [subject, absent, hsubject] at hmember
    | create metadata => exact hamong.elim
    | _ => simp [subject, presence, absent] at hmember

/-- Messages about different things may be exchanged. -/
theorem independent_receive (few : people.card ≤ maxGroupSize) :
    Independent receive subject (Within people) (Among people) := by
  refine ⟨fun g message h hamong => h.receive few hamong, ?_⟩
  intro g first second h hfirst hsecond hother
  have hthen := h.receive few hfirst
  have hthen' := h.receive few hsecond
  apply eq_of_profile
  · rw [profile_receive hsecond, profile_receive hfirst, profile_receive hfirst,
      profile_receive hsecond]
    by_cases hprofile : first.subject = .profile
    · have hperson : second.subject ≠ .profile := fun heq => hother (hprofile.trans heq.symm)
      simp [hprofile, hperson]
    · simp [hprofile]
  · intro q
    rw [lookup_receive hthen few hsecond, lookup_receive hthen' few hfirst,
      lookup_receive h few hfirst, lookup_receive h few hsecond, creator_receive hfirst,
      creator_receive hsecond]
    by_cases hq : first.subject = .person q
    · have hq' : second.subject ≠ .person q := fun heq => hother (hq.trans heq.symm)
      simp [hq, hq']
    · simp [hq]

theorem Within.run (h : g.Within people) (few : people.card ≤ maxGroupSize)
    {messages : List GroupMessagingMessage} (hamong : ∀ message ∈ messages, message.Among people) :
    (Rust.run GroupMetadata.receive g messages).Within people ∧
      (Rust.run GroupMetadata.receive g messages).creator = g.creator := by
  induction messages generalizing g with
  | nil => exact ⟨h, rfl⟩
  | cons message rest ih =>
    have hmessage : message.Among people := hamong message List.mem_cons_self
    obtain ⟨within, creator⟩ := ih (h.receive few hmessage) fun later hlater =>
      hamong later (List.mem_cons_of_mem message hlater)
    exact ⟨within, creator.trans (creator_receive hmessage)⟩

theorem presence_isSome_iff {creator : PeerId} (hp : p ≠ creator)
    (hsubject : message.subject = .person p) (present : Option GroupMember) :
    (message.presence creator present).isSome = message.isJoin := by
  cases message with
  | join groupId member => cases present <;> rfl
  | leave groupId peerId =>
    obtain rfl := Subject.person.inj hsubject
    simp [presence, hp, isJoin]
  | kick k =>
    obtain rfl := Subject.person.inj hsubject
    simp [presence, hp, isJoin]
  | _ => cases hsubject

/-- The last message about a person decides. -/
theorem mem_run_receive_iff (h : g.Within people) (few : people.card ≤ maxGroupSize)
    (hp : p ≠ g.creator) {messages : List GroupMessagingMessage}
    (hamong : ∀ message ∈ messages, message.Among people) :
    p ∈ (run receive g messages).members ↔
      match (messages.filter fun message => message.subject = .person p).getLast? with
      | some last => last.isJoin = true
      | none => p ∈ g.members := by
  induction messages using List.reverseRecOn with
  | nil => rfl
  | append_singleton earlier message ih =>
    have before := ih fun m hm => hamong m (List.mem_append_left _ hm)
    obtain ⟨within, creator⟩ := h.run few fun m hm => hamong m (List.mem_append_left _ hm)
    have hmessage : message.Among people := hamong message (by simp)
    rw [run_concat, ← Finmap.lookup_isSome, lookup_receive within few hmessage, creator,
      List.filter_append]
    by_cases hsubject : message.subject = .person p
    · simp [hsubject, presence_isSome_iff hp hsubject]
    · rw [if_neg hsubject, Finmap.lookup_isSome, before]
      simp [hsubject]

end GroupMetadata

namespace GroupManager

variable {m m' : GroupManager} {id : GroupId} {g : GroupMetadata}

/-- The messages about a group, in the order of their arrival. -/
def about (id : GroupId) (messages : List GroupMessagingMessage) : List GroupMessagingMessage :=
  messages.filter fun message => message.groupId = id

/-- What the last message about a person says: whether it lets the person in. -/
def lastWord (id : GroupId) (p : PeerId) (messages : List GroupMessagingMessage) : Option Bool :=
  ((about id messages).filter fun message => message.subject = .person p).getLast?.map isJoin

theorem lookup_onGroup_of_stored (hg : m.groups.lookup id = some g) (groupId : GroupId)
    (call : GroupMetadata → Call BitchatError GroupMetadata Unit) :
    (m.onGroup groupId call).1.groups.lookup id =
      some (if groupId = id then (call g).1 else g) := by
  rw [lookup_onGroup]
  by_cases h : groupId = id
  · subst h
    simp [hg]
  · simp [h, Ne.symm h, hg]

theorem lookup_processMessage (hg : m.groups.lookup id = some g)
    (message : GroupMessagingMessage) :
    (m.processMessage message).1.groups.lookup id =
      some (if message.groupId = id then (g.receive message).1 else g) := by
  cases message with
  | create metadata =>
    rw [processMessage, Map.lookup_insert_if]
    by_cases h : metadata.groupId = id
    · simp [groupId, GroupMetadata.receive, h]
    · simp [groupId, h, Ne.symm h, hg]
  | invite groupId => exact hg.trans (by simp [GroupMetadata.receive])
  | join groupId member => exact lookup_onGroup_of_stored hg _ _
  | leave groupId peerId => exact lookup_onGroup_of_stored hg _ _
  | message groupId => exact hg.trans (by simp [GroupMetadata.receive])
  | update u => exact lookup_onGroup_of_stored hg _ _
  | kick k => exact lookup_onGroup_of_stored hg _ _

/-- A stored group goes through the messages about it. -/
theorem lookup_run (hg : m.groups.lookup id = some g) (messages : List GroupMessagingMessage) :
    (run processMessage m messages).groups.lookup id =
      some (run GroupMetadata.receive g (about id messages)) := by
  induction messages generalizing m g with
  | nil => exact hg
  | cons message rest ih =>
    rw [run_cons, ih (lookup_processMessage hg message)]
    by_cases h : message.groupId = id
    · simp [h, about]
    · simp [h, about]

/-- Two members have the same group after messages that came to both in the same order for each
person and for the profile. -/
theorem members_agree {people : Finset PeerId} (few : people.card ≤ maxGroupSize)
    (hg : m.groups.lookup id = some g) (hg' : m'.groups.lookup id = some g)
    (within : g.Within people) {messages messages' : List GroupMessagingMessage}
    (hamong : ∀ message ∈ about id messages, message.Among people)
    (same : SameOrders subject (about id messages) (about id messages')) :
    (run processMessage m messages).groups.lookup id =
      (run processMessage m' messages').groups.lookup id := by
  rw [lookup_run hg, lookup_run hg',
    (GroupMetadata.independent_receive few).run_eq same within hamong]

/-- Whether a person other than the creator is a member is what the last message about the
person says, whoever sent it. -/
theorem last_word_decides {people : Finset PeerId} (few : people.card ≤ maxGroupSize)
    (hg : m.groups.lookup id = some g) (within : g.Within people)
    {messages : List GroupMessagingMessage}
    (hamong : ∀ message ∈ about id messages, message.Among people) {p : PeerId}
    (hp : p ≠ g.creator) :
    ((run processMessage m messages).memberOf id p).isSome =
      (lastWord id p messages).getD (m.memberOf id p).isSome := by
  have decides := GroupMetadata.mem_run_receive_iff within few hp hamong
  rw [memberOf_of_lookup (lookup_run hg messages), memberOf_of_lookup hg, Bool.eq_iff_iff,
    Finmap.lookup_isSome, decides, lastWord]
  cases ((about id messages).filter fun message => message.subject = .person p).getLast? with
  | none => exact Finmap.lookup_isSome.symm
  | some last => rfl

/-- The other member of the pair. -/
def partnerManager : GroupManager :=
  ⟨Finmap.singleton pairGroup.groupId pairGroup, groupPeer 2⟩

/-- Somebody new joins. -/
def newcomer : GroupMessagingMessage :=
  .join pairGroup.groupId (groupMember (groupPeer 3) .member)

/-- A plain member sends the newcomer away. -/
def dismissal : GroupMessagingMessage :=
  .kick ⟨pairGroup.groupId, groupPeer 2, groupPeer 3⟩

def pairUpdate : GroupMessagingMessage :=
  .update ⟨pairGroup.groupId, groupPeer 2, some ['n'], none, none⟩

def pairPeople : Finset PeerId := {groupPeer 1, groupPeer 2, groupPeer 3}

theorem pair_agrees :
    (run processMessage pairManager [newcomer, pairUpdate]).groups.lookup pairGroup.groupId =
      (run processMessage partnerManager [pairUpdate, newcomer]).groups.lookup
        pairGroup.groupId :=
  have few : pairPeople.card ≤ maxGroupSize := by decide
  have within : pairGroup.Within pairPeople := by decide
  members_agree few rfl rfl within (by decide) (sameOrders_pair (by decide))

theorem newcomer_dismissed :
    ((run processMessage pairManager [newcomer, pairUpdate, dismissal]).memberOf
      pairGroup.groupId (groupPeer 3)).isSome = false :=
  have few : pairPeople.card ≤ maxGroupSize := by decide
  have within : pairGroup.Within pairPeople := by decide
  last_word_decides few rfl within (by decide) (by decide)

end GroupManager

end Bitchat
