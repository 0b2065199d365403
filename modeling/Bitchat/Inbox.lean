import Bitchat.Handlers
import Bitchat.Rust.Run

/-!
# Delivery to the application

Runs of the core over received messages and packets. Beside the core a run
records what was announced to the application and how often the store accepted
a new message. Announcements are unique, and counted like acceptances, as long
as nothing arrives again.
-/
namespace Bitchat
open Rust

/-- What arrives, apart from the way it took. -/
inductive Received where
  | message (sender : PeerId) (content : Text) (messageId : Option MessageId)
      (recipient : Option PeerId) (timestamp sequence : Option UInt64)
  | packet (packet : BitchatPacket)
  deriving DecidableEq

/-- The link is the neighbour that hands over a packet. -/
structure Arrival where
  received : Received
  link : PeerId
  transport : ChannelTransportType
  now : Timestamp

def Arrival.event (a : Arrival) : Event :=
  match a.received with
  | .message sender content messageId recipient timestamp sequence =>
    .messageReceived sender content a.transport messageId recipient timestamp sequence
  | .packet packet => .bitchatPacketReceived a.link packet a.transport

structure Inbox (H T : Type) where
  core : CoreState H T
  announced : List Received
  accepted : ℕ

namespace Inbox

open CommandHandlers

variable {H T : Type} (sha256 : Bytes → Key32)

def new (peerId : PeerId) (localKey : Key32) : Inbox H T := ⟨CoreState.new peerId localKey, [], 0⟩

/-- The message that the handler of an arrival offers to the store. -/
def offered (s : CoreState H T) (a : Arrival) :
    Call BitchatError (CoreState H T) ContentAddressedMessage :=
  match a.received with
  | .message sender content messageId recipient timestamp sequence =>
    (s.feedKnown sender .activityDetected a.now).andThen fun s _ =>
      messageFrom sha256 s sender content messageId recipient timestamp sequence a.now
  | .packet packet =>
    (s.feedKnown a.link .activityDetected a.now).andThen fun s _ => messageOfPacket sha256 s packet

/-- Whether the store takes in a new message for an arrival. -/
def accepts (s : CoreState H T) (a : Arrival) : Bool :=
  let message := offered sha256 s a
  ((Call.andThen message fun s m => storeIn sha256 s m a.now).2 == .ok true)

/-- How many received messages a handler announces. -/
def announcements (result : BitchatResult Handled) : ℕ :=
  match result with
  | .ok handled => handled.2.countP fun
    | .messageReceived _ _ _ => true
    | _ => false
  | .error _ => 0

def step (inbox : Inbox H T) (a : Arrival) : Inbox H T × BitchatResult Handled :=
  let handled := handleEvent sha256 inbox.core a.event a.now
  (⟨handled.1, inbox.announced ++ List.replicate (announcements handled.2) a.received,
    inbox.accepted + (accepts sha256 inbox.core a).toNat⟩, handled.2)

/-- An arrival that was not announced before, with a message that is not stored. -/
def Fresh (inbox : Inbox H T) (a : Arrival) : Prop :=
  a.received ∉ inbox.announced ∧ ∀ m, (offered sha256 inbox.core a).2 = .ok m →
    m.id ∉ inbox.core.messageStore.messages

/-- Nothing is announced twice, and announcements count like acceptances. -/
structure ExactlyOnce (inbox : Inbox H T) : Prop where
  announced : ∀ r, inbox.announced.count r ≤ 1
  received : inbox.core.stats.messagesReceived = inbox.accepted

/-- An event handler offers the message, stores it, counts it and announces it. -/
theorem handleEvent_eq (s : CoreState H T) (a : Arrival) :
    handleEvent sha256 s a.event a.now = (offered sha256 s a).andThen fun s m =>
      (storeIn sha256 s m a.now).andThen fun s _ =>
        (countReceived s, .ok ([], [.messageReceived m.sender m.content m.timestamp])) := by
  obtain ⟨received, link, transport, now⟩ := a
  cases received with
  | message sender =>
    simp only [Arrival.event, handleEvent, handleMessageReceived, offered, acceptMessage]
    obtain ⟨s', result⟩ := s.feedKnown sender .activityDetected now
    cases result <;> rfl
  | packet packet =>
    simp only [Arrival.event, handleEvent, handleBitchatPacketReceived, offered, acceptMessage]
    obtain ⟨s', result⟩ := s.feedKnown link .activityDetected now
    cases result <;> rfl

theorem offered_frame (s : CoreState H T) (a : Arrival) :
    (offered sha256 s a).1.messageStore = s.messageStore ∧
      (offered sha256 s a).1.stats.messagesReceived = s.stats.messagesReceived := by
  have resolve : ∀ (s : CoreState H T) sequence,
      (resolveSequence s sequence).1.messageStore = s.messageStore ∧
        (resolveSequence s sequence).1.stats.messagesReceived = s.stats.messagesReceived := by
    intro s sequence
    cases sequence <;> exact ⟨rfl, rfl⟩
  unfold offered
  cases a.received with
  | message sender =>
    have fed := s.feedKnown_frame sender .activityDetected a.now
    apply Call.andThen_state (I := fun s' : CoreState H T => s'.messageStore = s.messageStore ∧
      s'.stats.messagesReceived = s.stats.messagesReceived) fed
    intro _ _
    exact ⟨(resolve _ _).1.trans fed.1, (resolve _ _).2.trans fed.2⟩
  | packet packet =>
    have fed := s.feedKnown_frame a.link .activityDetected a.now
    apply Call.andThen_state (I := fun s' : CoreState H T => s'.messageStore = s.messageStore ∧
      s'.stats.messagesReceived = s.stats.messagesReceived) fed
    intro _ _
    exact ⟨(resolve _ _).1.trans fed.1, (resolve _ _).2.trans fed.2⟩

/-- An arrival is announced and counted when the store ends without an error,
and accepted when the message was new to the store. -/
theorem step_cases (inbox : Inbox H T) (a : Arrival) :
    (∃ m stored, (offered sha256 inbox.core a).2 = .ok m ∧
      (inbox.core.messageStore.storeMessage sha256 m a.now).2 = .ok stored ∧
      (step sha256 inbox a).1.announced = inbox.announced ++ [a.received] ∧
      (step sha256 inbox a).1.core.stats.messagesReceived =
        inbox.core.stats.messagesReceived + 1 ∧
      (step sha256 inbox a).1.accepted = inbox.accepted + stored.toNat) ∨
    ((step sha256 inbox a).1.announced = inbox.announced ∧
      (step sha256 inbox a).1.core.stats.messagesReceived = inbox.core.stats.messagesReceived ∧
      (step sha256 inbox a).1.accepted = inbox.accepted) := by
  obtain ⟨sameStore, sameCount⟩ := offered_frame sha256 inbox.core a
  simp only [step, accepts, handleEvent_eq]
  generalize offered sha256 inbox.core a = message at sameStore sameCount
  obtain ⟨s, e | m⟩ := message
  · right
    exact ⟨List.append_nil _, sameCount, rfl⟩
  · simp only at sameStore sameCount
    simp only [Call.andThen_ok, storeIn, sameStore]
    cases result : (inbox.core.messageStore.storeMessage sha256 m a.now).2 with
    | error e =>
      right
      exact ⟨List.append_nil _, sameCount, rfl⟩
    | ok stored =>
      left
      refine ⟨m, stored, rfl, result, rfl, congrArg (· + 1) sameCount, ?_⟩
      cases stored <;> rfl

/-- The store takes in every message that it does not hold, or ends with an error. -/
theorem stored_of_notMem {store : MessageStore} {m : ContentAddressedMessage} {now : Timestamp}
    {stored : Bool} (result : (store.storeMessage sha256 m now).2 = .ok stored)
    (absent : m.id ∉ store.messages) : stored = true := by
  unfold MessageStore.storeMessage at result
  cases hvalid : MessageStore.validateMessageInput store.config m with
  | error e =>
    rw [hvalid] at result
    cases result
  | ok u =>
    simp only [hvalid, if_neg absent] at result
    split_ifs at result
    · exact absurd result (invalidPacket_ne_ok _ _)
    · cases hroom : store.enforceCapacityLimits m now with
      | mk room fits =>
        rw [hroom] at result
        cases fits with
        | error e => cases result
        | ok u => exact (Except.ok.inj result).symm

/-- A fresh arrival keeps delivery exact. -/
theorem ExactlyOnce.step {inbox : Inbox H T} (once : inbox.ExactlyOnce) {a : Arrival}
    (fresh : inbox.Fresh sha256 a) : (inbox.step sha256 a).1.ExactlyOnce := by
  obtain ⟨new, absent⟩ := fresh
  obtain ⟨m, stored, hoffered, hstored, hannounced, hreceived, haccepted⟩ |
    ⟨hannounced, hreceived, haccepted⟩ := step_cases sha256 inbox a
  · have taken := stored_of_notMem sha256 hstored (absent m hoffered)
    constructor
    · intro r
      have before := once.announced r
      rw [hannounced, List.count_append]
      by_cases hr : r = a.received
      · rw [hr, List.count_eq_zero_of_not_mem new, List.count_singleton_self]
      · rw [List.count_singleton, if_neg (by simpa using Ne.symm hr)]
        exact before
    · rw [hreceived, haccepted, once.received, taken]
      rfl
  · constructor
    · rw [hannounced]
      exact once.announced
    · rw [hreceived, haccepted]
      exact once.received

/-- In a run of fresh arrivals everything is announced at most once, and as often
as the store accepted a message. -/
theorem run_exactlyOnce (peerId : PeerId) (localKey : Key32) (arrivals : List Arrival)
    (fresh : Along (step sha256) (Fresh sha256) (new peerId localKey : Inbox H T) arrivals) :
    (run (step sha256) (new peerId localKey : Inbox H T) arrivals).ExactlyOnce := by
  apply run_invariant (P := Fresh sha256) ?_ ?_ fresh
  · intro inbox a once hfresh
    exact once.step sha256 hfresh
  · constructor
    · intro r
      exact Nat.zero_le _
    · rfl

def receiver : PeerId := ⟨List.Vector.replicate 8 1⟩

def sender : PeerId := ⟨List.Vector.replicate 8 2⟩

/-- A message with all its metadata. -/
def greeting : Arrival where
  received := .message sender ['h', 'i'] none (some receiver) (some 1700000000000) (some 7)
  link := sender
  transport := .nostr
  now := ⟨1700000000000⟩

/-- A broadcast packet with the same text. -/
def greetingPacket : Arrival where
  received := .packet
    { header := ⟨1, .message, ⟨7⟩, ⟨1700000000000⟩, ⟨0⟩, 2⟩
      senderId := sender
      recipientId := none
      route := none
      payload := [104, 105]
      signature := none }
  link := sender
  transport := .ble
  now := ⟨1700000000000⟩

theorem run_exactlyOnce_greetings :
    (run (step MessageStore.lastByteDigest)
      (new receiver (List.Vector.replicate 32 0) : Inbox Unit Unit)
      [greeting, greetingPacket]).ExactlyOnce := by
  apply run_exactlyOnce
  refine ⟨⟨by decide +kernel, ?_⟩, ⟨by decide +kernel, ?_⟩, trivial⟩
  · rintro m h
    cases h
    decide +kernel
  · rintro m h
    cases h
    decide +kernel

/-- The message and the packet, each received twice. -/
theorem greetings_announced_twice :
    let inbox := run (step MessageStore.lastByteDigest)
      (new receiver (List.Vector.replicate 32 0) : Inbox Unit Unit)
      [greeting, greeting, greetingPacket, greetingPacket]
    inbox.announced.count greeting.received = 2 ∧
      inbox.announced.count greetingPacket.received = 2 ∧
      inbox.core.stats.messagesReceived = 4 ∧ inbox.accepted = 3 := by
  decide +kernel

end Inbox

end Bitchat
