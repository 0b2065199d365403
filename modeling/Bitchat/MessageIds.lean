import Bitchat.MessageStore
import Bitchat.Rust.Utf8

/-!
# Message ids

The fields of a message that its id is made of can be read back from the bytes that are
hashed, but for one thing: a missing recipient is hashed as the peer of eight zeros. So a
broadcast and the same message to that peer have one id, and the store takes the second
one for the first.
-/
namespace Bitchat
open Rust

/-- The fields that the id of a message is made of. -/
structure MessageFields where
  sender : PeerId
  recipient : Option PeerId
  content : Text
  timestamp : UInt64
  sequence : UInt64
  deriving DecidableEq

def zeroPeer : PeerId := ⟨List.Vector.replicate 8 0⟩

namespace MessageFields

/-- The bytes that `compute_id` hashes. -/
def preimage (f : MessageFields) : Bytes :=
  f.sender.asBytes ++ (f.recipient.elim (List.replicate 8 0) PeerId.asBytes) ++
    f.content.asBytes ++ u64ToBeBytes f.timestamp ++ u64ToBeBytes f.sequence

/-- One is a broadcast, the other the same message to the peer of eight zeros. -/
def Twins (f g : MessageFields) : Prop :=
  (f.recipient = none ∧ g = { f with recipient := some zeroPeer }) ∨
    (g.recipient = none ∧ f = { g with recipient := some zeroPeer })

theorem preimage_eq (f : MessageFields) : f.preimage =
    f.sender.asBytes ++ (f.recipient.getD zeroPeer).asBytes ++
      f.content.asBytes ++ u64ToBeBytes f.timestamp ++ u64ToBeBytes f.sequence := by
  unfold preimage
  cases f.recipient <;> rfl

theorem Twins.ne {f g : MessageFields} (h : f.Twins g) : f ≠ g := by
  rintro rfl
  rcases h with ⟨hnone, htwin⟩ | ⟨hnone, htwin⟩
  all_goals
    rw [htwin] at hnone
    cases hnone

/-- The recipient is all that the bytes may leave open. -/
theorem preimage_inj {f g : MessageFields} (h : f.preimage = g.preimage) :
    f.recipient.getD zeroPeer = g.recipient.getD zeroPeer ∧
      f = { g with recipient := f.recipient } := by
  have hwidth (x : UInt64) : (u64ToBeBytes x).length = 8 := beBytes_length 8 x.toNat
  rw [preimage_eq, preimage_eq] at h
  obtain ⟨h, hsequence⟩ := List.append_inj' h (by rw [hwidth, hwidth])
  obtain ⟨h, htimestamp⟩ := List.append_inj' h (by rw [hwidth, hwidth])
  obtain ⟨h, hcontent⟩ := List.append_inj h (by simp)
  obtain ⟨hsender, hrecipient⟩ := List.append_inj h (by simp)
  refine ⟨PeerId.asBytes_injective hrecipient, ?_⟩
  obtain ⟨sender, recipient, content, timestamp, sequence⟩ := f
  have hutf8 := congrArg fromUtf8Lossy hcontent
  rw [fromUtf8Lossy_asBytes, fromUtf8Lossy_asBytes] at hutf8
  simp only at hsender hutf8 htimestamp hsequence
  rw [PeerId.asBytes_injective hsender, hutf8, u64ToBeBytes_injective htimestamp,
    u64ToBeBytes_injective hsequence]

/-- Different fields give the same bytes exactly if they are twins. -/
theorem preimage_eq_iff_twins {f g : MessageFields} (hne : f ≠ g) :
    f.preimage = g.preimage ↔ f.Twins g := by
  constructor
  · intro h
    obtain ⟨hrecipient, hothers⟩ := preimage_inj h
    cases hf : f.recipient with
    | none =>
      cases hg : g.recipient with
      | none =>
        rw [hf, ← hg] at hothers
        exact absurd hothers hne
      | some q =>
        rw [hf, hg] at hrecipient
        left
        refine ⟨hf, ?_⟩
        rw [hothers, show zeroPeer = q from hrecipient, ← hg]
    | some p =>
      cases hg : g.recipient with
      | none =>
        rw [hf, hg] at hrecipient
        right
        refine ⟨hg, ?_⟩
        rw [← show p = zeroPeer from hrecipient, ← hf]
        exact hothers
      | some q =>
        rw [hf, hg] at hrecipient
        rw [hf, show p = q from hrecipient, ← hg] at hothers
        exact absurd hothers hne
  · rintro (⟨hnone, rfl⟩ | ⟨hnone, rfl⟩)
    · rw [preimage_eq, preimage_eq, hnone]
      rfl
    · rw [preimage_eq, preimage_eq, hnone]
      rfl

end MessageFields

namespace ContentAddressedMessage

def fields (m : ContentAddressedMessage) : MessageFields :=
  ⟨m.sender, m.recipient, m.content, m.timestamp, m.sequence⟩

theorem eq_of_fields {m k : ContentAddressedMessage} (hid : m.id = k.id)
    (hfields : m.fields = k.fields) : m = k := by
  obtain ⟨id, sender, recipient, content, timestamp, sequence⟩ := m
  obtain ⟨id', sender', recipient', content', timestamp', sequence'⟩ := k
  cases hid
  cases hfields
  rfl

theorem computeId_eq (sha256 : Bytes → Key32) (f : MessageFields) :
    computeId sha256 f.sender f.recipient f.content f.timestamp f.sequence =
      ⟨sha256 f.preimage⟩ := rfl

theorem id_of_verifyIntegrity {sha256 : Bytes → Key32} {m : ContentAddressedMessage}
    (h : m.verifyIntegrity sha256 = true) : m.id = ⟨sha256 m.fields.preimage⟩ := by
  rw [verifyIntegrity, beq_iff_eq] at h
  rw [← h]
  exact computeId_eq sha256 m.fields

end ContentAddressedMessage

namespace MessageStore

section

variable {sha256 : Bytes → Key32} {s : MessageStore} {call : ContentAddressedMessage × Timestamp}

/-- The bytes that are hashed for the messages of some calls. -/
def hashedBy (calls : List (ContentAddressedMessage × Timestamp)) : List Bytes :=
  calls.map fun call => call.1.fields.preimage

/-- What the store discards as a duplicate, it has. -/
def DiscardsDuplicate (sha256 : Bytes → Key32) (s : MessageStore)
    (call : ContentAddressedMessage × Timestamp) : Prop :=
  (step sha256 s call).2 = .ok false → s.messages.lookup call.1.id = some call.1

/-- The store has no twin of a message that is valid. -/
def LacksTwin (sha256 : Bytes → Key32) (s : MessageStore)
    (call : ContentAddressedMessage × Timestamp) : Prop :=
  validateMessageInput s.config call.1 = .ok () → call.1.verifyIntegrity sha256 = true →
    ∀ id stored, s.messages.lookup id = some stored → ¬ stored.fields.Twins call.1.fields

/-- Every message is under its own id, and comes from one of the calls. -/
def StoredFrom (sha256 : Bytes → Key32) (calls : List (ContentAddressedMessage × Timestamp))
    (s : MessageStore) : Prop :=
  ∀ id m, s.messages.lookup id = some m →
    id = ⟨sha256 m.fields.preimage⟩ ∧ m.id = id ∧ m.fields.preimage ∈ hashedBy calls

theorem storeMessage_eq_ok_false {m : ContentAddressedMessage} {now : Timestamp} :
    (s.storeMessage sha256 m now).2 = .ok false ↔ validateMessageInput s.config m = .ok () ∧
      m.verifyIntegrity sha256 = true ∧ m.id ∈ s.messages := by
  unfold storeMessage
  cases hvalid : validateMessageInput s.config m with
  | error e => simp
  | ok _ =>
    by_cases hintegrity : m.verifyIntegrity sha256 = false
    · simp [hintegrity, invalidPacket]
    · by_cases hstored : m.id ∈ s.messages
      · simp [hintegrity, hstored]
      · simp only [hintegrity, hstored, if_false, and_false, iff_false]
        rcases s.enforceCapacityLimits m now with ⟨s', result⟩
        cases result with
        | error e => simp
        | ok u => simp

/-- A clean-up only takes messages out. -/
theorem lookup_makeRoom {stored : ContentAddressedMessage} {now : Timestamp} {id : MessageId}
    (h : (s.makeRoom now).1.messages.lookup id = some stored) :
    s.messages.lookup id = some stored := by
  have hremoved (ids : Multiset MessageId) (s : MessageStore)
      (h : (ids.foldl removeMessageCompletely s).messages.lookup id = some stored) :
      s.messages.lookup id = some stored := by
    induction ids using Multiset.induction generalizing s with
    | empty => exact h
    | cons gone ids ih =>
      rw [Multiset.foldl_cons] at h
      have hnext := ih (s.removeMessageCompletely gone) h
      rw [removeMessageCompletely_messages, Map.lookup_erase_if] at hnext
      split_ifs at hnext
      exact hnext
  unfold makeRoom at h
  split_ifs at h
  · exact hremoved (s.expired now).val s h
  · exact h

/-- A message that was stored before, or the one that is stored now. -/
theorem lookup_storeMessage {m stored : ContentAddressedMessage} {now : Timestamp} {id : MessageId}
    (h : (s.storeMessage sha256 m now).1.messages.lookup id = some stored) :
    s.messages.lookup id = some stored ∨
      (stored = m ∧ id = m.id ∧ m.verifyIntegrity sha256 = true) := by
  unfold storeMessage at h
  cases hvalid : validateMessageInput s.config m with
  | error e =>
    rw [hvalid] at h
    exact Or.inl h
  | ok _ =>
    simp only [hvalid] at h
    split_ifs at h with hintegrity hstored
    · exact Or.inl h
    · exact Or.inl h
    · have hmade : (s.enforceCapacityLimits m now).1 = (s.makeRoom now).1 := by
        unfold enforceCapacityLimits
        rcases s.makeRoom now with ⟨made, result⟩
        cases result <;> rfl
      rcases hroom : s.enforceCapacityLimits m now with ⟨room, result⟩
      rw [hroom] at h hmade
      cases result with
      | error e =>
        simp only at h hmade
        rw [hmade] at h
        exact Or.inl (lookup_makeRoom h)
      | ok _ =>
        simp only [insertMessage] at h hmade
        rw [Map.lookup_insert_if, hmade] at h
        split_ifs at h with hid
        · exact Or.inr ⟨(Option.some.inj h).symm, hid, by simpa using hintegrity⟩
        · exact Or.inl (lookup_makeRoom h)

/-- A store of messages from some calls gets another one of them at most. -/
theorem StoredFrom.step {calls : List (ContentAddressedMessage × Timestamp)}
    (h : StoredFrom sha256 calls s) (hcall : call ∈ calls) :
    StoredFrom sha256 calls (step sha256 s call).1 := by
  intro id stored hstored
  rcases lookup_storeMessage hstored with hold | ⟨rfl, rfl, hintegrity⟩
  · exact h id stored hold
  · exact ⟨ContentAddressedMessage.id_of_verifyIntegrity hintegrity, rfl,
      List.mem_map.mpr ⟨call, hcall, rfl⟩⟩

/-- A message is only discarded for its equal exactly if no twin of it is stored. -/
theorem discardsDuplicate_iff {calls : List (ContentAddressedMessage × Timestamp)}
    (hsha : Set.InjOn sha256 {bytes | bytes ∈ hashedBy calls}) (h : StoredFrom sha256 calls s)
    (hcall : call ∈ calls) : DiscardsDuplicate sha256 s call ↔ LacksTwin sha256 s call := by
  have hhashed : call.1.fields.preimage ∈ hashedBy calls := List.mem_map.mpr ⟨call, hcall, rfl⟩
  unfold DiscardsDuplicate LacksTwin step
  rw [storeMessage_eq_ok_false]
  constructor
  · intro hdiscards hvalid hintegrity id stored hstored htwins
    obtain ⟨hid, hown, hfrom⟩ := h id stored hstored
    have hne := htwins.ne
    have hsame := (MessageFields.preimage_eq_iff_twins hne).mpr htwins
    have hcallId := ContentAddressedMessage.id_of_verifyIntegrity hintegrity
    rw [← hsame, ← hid] at hcallId
    have hfound := hdiscards
      ⟨hvalid, hintegrity, hcallId ▸ Finmap.mem_of_lookup_eq_some hstored⟩
    rw [hcallId, hstored] at hfound
    exact hne (congrArg ContentAddressedMessage.fields (Option.some.inj hfound))
  · rintro hlacks ⟨hvalid, hintegrity, hmem⟩
    obtain ⟨stored, hstored⟩ := Finmap.mem_iff.mp hmem
    obtain ⟨hid, hown, hfrom⟩ := h _ stored hstored
    have hcallId := ContentAddressedMessage.id_of_verifyIntegrity hintegrity
    rw [hcallId, MessageId.mk.injEq] at hid
    have hsame : stored.fields.preimage = call.1.fields.preimage := (hsha hhashed hfrom hid).symm
    have heq : stored.fields = call.1.fields := by
      by_contra hne
      exact hlacks hvalid hintegrity _ stored hstored
        ((MessageFields.preimage_eq_iff_twins hne).mp hsame)
    rw [hstored, ContentAddressedMessage.eq_of_fields hown heq]

end

/-- Different messages are hashed from different bytes exactly if they are no twins, and the
store never discards a message for a different one exactly if it never has a twin of it. -/
theorem ids_distinct_iff (sha256 : Bytes → Key32) (config : MessageStoreConfig)
    (calls : List (ContentAddressedMessage × Timestamp))
    (hsha : Set.InjOn sha256 {bytes | bytes ∈ hashedBy calls}) :
    (∀ f g : MessageFields, f ≠ g → (f.preimage ≠ g.preimage ↔ ¬ f.Twins g)) ∧
      (Along (step sha256) (DiscardsDuplicate sha256) (withConfig config) calls ↔
        Along (step sha256) (LacksTwin sha256) (withConfig config) calls) := by
  constructor
  · intro f g hne
    rw [ne_eq, MessageFields.preimage_eq_iff_twins hne]
  · have hinit : StoredFrom sha256 calls (withConfig config) := by
      intro id m h
      cases (Finmap.lookup_empty id).symm.trans h
    have hgiven : Along (step sha256) (fun _ call => call ∈ calls) (withConfig config) calls :=
      along_of_forall fun call hcall => hcall
    exact along_iff (I := StoredFrom sha256 calls) (fun _ _ h hcall _ => h.step hcall)
      (fun _ _ h hcall => discardsDuplicate_iff hsha h hcall) hinit hgiven

/-- A message of one second, to a peer or to all. -/
def hiTo (recipient : Option PeerId) : ContentAddressedMessage :=
  ContentAddressedMessage.new lastByteDigest PeerId.broadcast recipient ['h', 'i'] 1 ⟨5⟩

theorem ids_distinct_iff_twoBroadcasts :
    Along (step lastByteDigest) (DiscardsDuplicate lastByteDigest)
      (withConfig smallConfig) twoBroadcasts := by
  refine (ids_distinct_iff lastByteDigest smallConfig twoBroadcasts ?_).2.mpr ⟨?_, ?_, trivial⟩
  · have hinj : ∀ b ∈ hashedBy twoBroadcasts, ∀ b' ∈ hashedBy twoBroadcasts,
        lastByteDigest b = lastByteDigest b' → b = b' := by decide
    exact fun b hb b' hb' => hinj b hb b' hb'
  · intro _ _ id stored hstored
    cases (Finmap.lookup_empty id).symm.trans hstored
  · intro _ _ id stored hstored
    rcases lookup_storeMessage hstored with hold | ⟨rfl, -⟩
    · cases (Finmap.lookup_empty id).symm.trans hold
    · rintro (⟨-, htwin⟩ | ⟨-, htwin⟩) <;> cases congrArg MessageFields.recipient htwin

/-- The same message to everyone and to the peer of eight zeros. -/
theorem ids_distinct_fails : (hiTo none).fields ≠ (hiTo (some zeroPeer)).fields ∧
    (hiTo none).fields.preimage = (hiTo (some zeroPeer)).fields.preimage ∧
    ¬ DiscardsDuplicate lastByteDigest
      (run (step lastByteDigest) (withConfig .default) [(hiTo none, ⟨5⟩)])
      (hiTo (some zeroPeer), ⟨5⟩) := by
  refine ⟨by decide, by decide, ?_⟩
  intro h
  have hstored := h (by decide +kernel)
  revert hstored
  decide +kernel

end MessageStore

end Bitchat
