import Bitchat.EndToEnd
import Bitchat.MessageAgreement

/-!
# Traces of messages that are not sent

A send command numbers, stores and counts its message before it looks at the session. So a
message that the store refuses, or that cannot be encrypted, does not go out and leaves a
trace all the same: its number at least is used up.
-/
namespace Bitchat
open Rust

namespace MessageStore

variable {sha256 : Bytes → Key32} {s : MessageStore} {m : ContentAddressedMessage}
  {now : Timestamp}

/-- The message passes the checks, and the store has it or has room for it. -/
def Takes (s : MessageStore) (m : ContentAddressedMessage) (now : Timestamp) : Prop :=
  validateMessageInput s.config m = .ok () ∧ (m.id ∈ s.messages ∨ s.HasRoom m now)

theorem storeMessage_ok_iff (hintegrity : m.verifyIntegrity sha256 = true) :
    (∃ stored, (s.storeMessage sha256 m now).2 = .ok stored) ↔ s.Takes m now := by
  unfold storeMessage Takes
  cases hvalid : validateMessageInput s.config m with
  | error e => simp
  | ok u =>
    simp only [hintegrity, Bool.true_eq_false, if_false, true_and]
    by_cases hknown : m.id ∈ s.messages
    · simp [hknown]
    · rw [if_neg hknown, ← enforceCapacityLimits_eq_ok]
      rcases s.enforceCapacityLimits m now with ⟨room, result⟩
      cases result with
      | error e => simp [hknown]
      | ok u => simp [hknown]

end MessageStore

namespace CommandHandlers

variable {H T : Type} {sha256 : Bytes → Key32} {noise : NoiseLibrary H T} {s : CoreState H T}
  {recipient : PeerId} {content : Text} {now : Timestamp}

/-- An established session with the peer makes a ciphertext of the content. -/
def Encrypts (noise : NoiseLibrary H T) (s : CoreState H T) (recipient : PeerId)
    (content : Text) : Prop :=
  ∃ data, IsCiphertext noise s.sessionManager recipient content data

theorem encryptFor_ok_iff (now : Timestamp) :
    (∃ data, (encryptFor noise s recipient content now).2 = .ok data) ↔
      Encrypts noise s recipient content := by
  constructor
  · rintro ⟨data, hdata⟩
    exact ⟨data, encryptFor_eq_ok hdata⟩
  · rintro ⟨data, session, transport, hsession, hstate, htransport, hwrite⟩
    refine ⟨data, ?_⟩
    simp [encryptFor, hsession, hstate, NoiseSession.encrypt, NoiseSession.transfer, htransport,
      hwrite, mapNoise, mapErr]

/-- The result of the command has a packet for a transport. -/
def GoesOut (result : Outcome BitchatError Handled) : Prop :=
  ∃ handled peerId data transport, result = .ok handled ∧
    .sendPacket peerId data transport ∈ handled.1

/-- The store, the counter and the sequence are those of before. -/
structure Untouched (s s' : CoreState H T) : Prop where
  messageStore : s'.messageStore = s.messageStore
  messagesSent : s'.stats.messagesSent = s.stats.messagesSent
  messageSequence : s'.messageSequence = s.messageSequence

/-- A message that does not go out leaves no trace. -/
def LeavesNoTrace (sha256 : Bytes → Key32) (noise : NoiseLibrary H T) (s : CoreState H T)
    (recipient : PeerId) (content : Text) (now : Timestamp) : Prop :=
  ¬ GoesOut (handleSendMessage sha256 noise s recipient content now).2 →
    Untouched s (handleSendMessage sha256 noise s recipient content now).1

/-- The message that the command makes. -/
def nextMessage (sha256 : Bytes → Key32) (s : CoreState H T) (recipient : PeerId)
    (content : Text) (now : Timestamp) : ContentAddressedMessage :=
  .new sha256 s.peerId (some recipient) content (s.messageSequence + 1) now

/-- If the peer is connected and there is another sequence number, then the message can be
stored and encrypted. -/
def CanGoOut (sha256 : Bytes → Key32) (noise : NoiseLibrary H T) (s : CoreState H T)
    (recipient : PeerId) (content : Text) (now : Timestamp) : Prop :=
  ∀ c, s.connection recipient = some c → c.canSendMessages = true →
    s.messageSequence.toNat + 1 < 2 ^ 64 →
      s.messageStore.Takes (nextMessage sha256 s recipient content now) now ∧
        Encrypts noise s recipient content

theorem goesOut_sendStored_iff {connection : ConnectionState} {message : ContentAddressedMessage} :
    GoesOut (sendStored noise s connection recipient message now).2 ↔
      Encrypts noise s recipient message.content := by
  rw [← encryptFor_ok_iff now]
  unfold sendStored GoesOut
  rcases encryptFor noise s recipient message.content now with ⟨s', (e | _) | data⟩
  · simp [reportError]
  · simp [panicked]
  · simp

theorem messageSequence_sendStored (noise : NoiseLibrary H T) (s : CoreState H T)
    (connection : ConnectionState) (recipient : PeerId) (message : ContentAddressedMessage)
    (now : Timestamp) :
    (sendStored noise s connection recipient message now).1.messageSequence =
      s.messageSequence := by
  have hencrypt : (encryptFor noise s recipient message.content now).1.messageSequence =
      s.messageSequence := by
    unfold encryptFor
    cases s.sessionManager.getSession recipient with
    | none => rfl
    | some session =>
      simp only
      split_ifs
      · rfl
      · split <;> rfl
  unfold sendStored
  rcases hresult : encryptFor noise s recipient message.content now with ⟨s', (e | _) | data⟩
  all_goals
    rw [hresult] at hencrypt
    exact hencrypt

/-- Past the checks of the connection a message goes out exactly if it can be stored and
encrypted, and the sequence has moved in any case. -/
theorem handleSendMessage_connected (sha256 : Bytes → Key32) (noise : NoiseLibrary H T)
    (content : Text) (now : Timestamp) {c : ConnectionState}
    (hconnection : s.connection recipient = some c) (hsends : c.canSendMessages = true)
    (hnext : s.messageSequence.toNat + 1 < 2 ^ 64) :
    (GoesOut (handleSendMessage sha256 noise s recipient content now).2 ↔
      s.messageStore.Takes (nextMessage sha256 s recipient content now) now ∧
        Encrypts noise s recipient content) ∧
    (handleSendMessage sha256 noise s recipient content now).1.messageSequence =
      s.messageSequence + 1 := by
  have hintegrity : (nextMessage sha256 s recipient content now).verifyIntegrity sha256 = true := by
    simp [nextMessage, ContentAddressedMessage.new, ContentAddressedMessage.verifyIntegrity]
  have hhandled : handleSendMessage sha256 noise s recipient content now =
      (storeIn sha256 { s with messageSequence := s.messageSequence + 1 }
          (nextMessage sha256 s recipient content now) now).andThen fun s' _ =>
        sendStored noise (countSent s') c recipient (nextMessage sha256 s recipient content now)
          now := by
    unfold handleSendMessage advanceSequence
    simp only [hconnection, hsends, Bool.true_eq_false, if_false, if_pos hnext]
    rfl
  rw [← MessageStore.storeMessage_ok_iff hintegrity, hhandled]
  unfold storeIn
  rcases hstored : s.messageStore.storeMessage sha256
    (nextMessage sha256 s recipient content now) now with ⟨store, result⟩
  dsimp only
  cases result with
  | error e => simp [GoesOut]
  | ok stored =>
    rw [Call.andThen_ok, goesOut_sendStored_iff, messageSequence_sendStored]
    refine ⟨?_, rfl⟩
    constructor
    · intro hencrypts
      exact ⟨⟨stored, rfl⟩, hencrypts⟩
    · rintro ⟨-, hencrypts⟩
      exact hencrypts

/-- A command that the connection or the sequence does not allow writes nothing. -/
theorem handleSendMessage_early (sha256 : Bytes → Key32) (noise : NoiseLibrary H T)
    (content : Text) (now : Timestamp)
    (h : ¬ ∃ c, s.connection recipient = some c ∧ c.canSendMessages = true ∧
      s.messageSequence.toNat + 1 < 2 ^ 64) :
    (handleSendMessage sha256 noise s recipient content now).1 = s := by
  unfold handleSendMessage advanceSequence
  cases hconnection : s.connection recipient with
  | none => rfl
  | some c =>
    by_cases hsends : c.canSendMessages = true
    · have hlast : ¬ s.messageSequence.toNat + 1 < 2 ^ 64 :=
        fun hnext => h ⟨c, hconnection, hsends, hnext⟩
      simp only [hsends, hlast, if_false, Bool.true_eq_false]
      rfl
    · simp only [hsends, if_true]

/-- A send that does not go out leaves no trace exactly if the peer is not connected, there
is no other sequence number, or the send does go out. -/
theorem leavesNoTrace_iff (sha256 : Bytes → Key32) (noise : NoiseLibrary H T) (s : CoreState H T)
    (recipient : PeerId) (content : Text) (now : Timestamp) :
    LeavesNoTrace sha256 noise s recipient content now ↔
      CanGoOut sha256 noise s recipient content now := by
  unfold LeavesNoTrace CanGoOut
  by_cases hready : ∃ c, s.connection recipient = some c ∧ c.canSendMessages = true ∧
      s.messageSequence.toNat + 1 < 2 ^ 64
  · obtain ⟨c, hconnection, hsends, hnext⟩ := hready
    obtain ⟨hout, hmoved⟩ :=
      handleSendMessage_connected sha256 noise content now hconnection hsends hnext
    have htrace : ¬ Untouched s (handleSendMessage sha256 noise s recipient content now).1 := by
      intro huntouched
      have hsame := huntouched.messageSequence
      rw [hmoved] at hsame
      simp at hsame
    rw [hout]
    constructor
    · intro h c' hc' _ _
      by_contra hstays
      exact htrace (h hstays)
    · intro h hstays
      exact absurd (h c hconnection hsends hnext) hstays
  · constructor
    · intro _ c hconnection hsends hnext
      exact absurd ⟨c, hconnection, hsends, hnext⟩ hready
    · intro _ _
      rw [handleSendMessage_early sha256 noise content now hready]
      exact ⟨rfl, rfl, rfl⟩

/-- A core with a connection to a peer, but no session with it. -/
def connectedCore : CoreState Unit Unit :=
  emptyCore.setConnection author (.connected ⟨author, .ble, ⟨0⟩, "session", ⟨0⟩, 0⟩)

theorem unsent_leaves_trace :
    ¬ LeavesNoTrace leadingDigest .masked connectedCore author ['h', 'i'] ⟨1700000000000⟩ := by
  intro h
  have hconnection : connectedCore.connection author =
      some (.connected ⟨author, .ble, ⟨0⟩, "session", ⟨0⟩, 0⟩) := rfl
  obtain ⟨hout, hmoved⟩ := handleSendMessage_connected leadingDigest .masked ['h', 'i']
    ⟨1700000000000⟩ hconnection rfl (by decide)
  have hstays : ¬ GoesOut (handleSendMessage leadingDigest .masked connectedCore author ['h', 'i']
      ⟨1700000000000⟩).2 := by
    rw [hout]
    rintro ⟨-, data, session, transport, hsession, -⟩
    cases hsession
  have hsame := (h hstays).messageSequence
  rw [hmoved] at hsame
  revert hsame
  decide

end CommandHandlers

end Bitchat
