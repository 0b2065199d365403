import Bitchat.BleTransport
import Bitchat.Inbox
import Bitchat.NostrTransport

/-!
# Private messages from core to core

The way of a private message: the sender's command handler, the transport on
both sides, and the receiver's event handlers. The bytes on the way are the
Noise ciphertext, and no receiving side decrypts.
-/
namespace Bitchat
open Rust CommandHandlers

variable {H T : Type}

/-- The application events of a result. -/
def appEvents (result : BitchatResult Handled) : List AppEvent :=
  match result with
  | .ok handled => handled.2
  | .error _ => []

/-- What a core tells its application while it handles events in turn. -/
def emitted (sha256 : Bytes → Key32) (r : CoreState H T) (events : List Event) (now : Timestamp) :
    List AppEvent :=
  (outputs (fun s event => handleEvent sha256 s event now) r events).flatMap appEvents

/-- Whether an application event is a received message with this sender and content. -/
def isReceipt (sender : PeerId) (content : Text) : AppEvent → Bool
  | .messageReceived sender' content' _ => sender' == sender && content' == content
  | _ => false

/-- Whether handling the events delivers the content as a message of the sender. -/
def delivers (sha256 : Bytes → Key32) (r : CoreState H T) (events : List Event) (now : Timestamp)
    (sender : PeerId) (content : Text) : Bool :=
  (emitted sha256 r events now).any (isReceipt sender content)

/-- Whether the store takes, or holds, every intact message with the content. -/
def AcceptsContent (sha256 : Bytes → Key32) (store : MessageStore) (content : Text)
    (now : Timestamp) : Prop :=
  ∀ m : ContentAddressedMessage, m.content = content → m.verifyIntegrity sha256 = true →
    ∃ stored, (store.storeMessage sha256 m now).2 = .ok stored

section

variable (sha256 : Bytes → Key32) (noise : NoiseLibrary H T)

/-- The ciphertext of a content under an established session with the peer. -/
def IsCiphertext (sessions : NoiseSessionManager H T) (peerId : PeerId) (content : Text)
    (data : Bytes) : Prop :=
  ∃ session transport, sessions.getSession peerId = some session ∧
    session.state = .established ∧ session.transport = some transport ∧
    (noise.writeMessage transport content.asBytes).2 = .ok data

variable {sha256 noise}

theorem encryptFor_eq_ok {s : CoreState H T} {recipient : PeerId} {content : Text}
    {now : Timestamp} {data : Bytes}
    (h : (encryptFor noise s recipient content now).2 = .ok data) :
    IsCiphertext noise s.sessionManager recipient content data := by
  unfold encryptFor at h
  cases hsession : s.sessionManager.getSession recipient with
  | none =>
    rw [hsession] at h
    exact absurd h (fail_ne_ok _ _)
  | some session =>
    simp only [hsession] at h
    split_ifs at h with hstate
    · exact absurd h (fail_ne_ok _ _)
    · rw [ne_eq, not_not] at hstate
      cases htransport : session.transport with
      | none =>
        simp [NoiseSession.encrypt, NoiseSession.transfer, hstate, htransport, fail] at h
      | some transport =>
        have sealed_ : (session.encrypt noise content.asBytes now).2 =
            mapNoise (noise.writeMessage transport content.asBytes).2 := by
          simp [NoiseSession.encrypt, NoiseSession.transfer, hstate, htransport]
        refine ⟨session, transport, hsession, hstate, htransport, ?_⟩
        cases hwrite : (noise.writeMessage transport content.asBytes).2 with
        | ok encrypted =>
          simp only [sealed_, hwrite, mapNoise] at h
          exact congrArg Except.ok (Except.ok.inj h)
        | error e =>
          simp only [sealed_, hwrite, mapNoise, fail] at h
          cases h

theorem sendStored_sent {s : CoreState H T} {connection : ConnectionState}
    {recipient peerId : PeerId} {message : ContentAddressedMessage} {now : Timestamp}
    {handled : Handled} {data : Bytes} {carrier : ChannelTransportType}
    (h : (sendStored noise s connection recipient message now).2 = .ok handled)
    (sent : .sendPacket peerId data carrier ∈ handled.1) :
    IsCiphertext noise s.sessionManager recipient message.content data := by
  unfold sendStored at h
  split at h
  · rename_i s' packetData hencrypt
    obtain rfl := Except.ok.inj h
    have hdata : data = packetData := by
      have heffect := List.mem_singleton.mp sent
      exact (Effect.sendPacket.inj heffect).2.1
    have hok : (encryptFor noise s recipient message.content now).2 = .ok packetData := by
      rw [hencrypt]
    rw [hdata]
    exact encryptFor_eq_ok hok
  · obtain rfl := Except.ok.inj h
    cases sent
  · cases h

/-- What a core sends for a peer is the ciphertext of the content. -/
theorem handleSendMessage_sent {s : CoreState H T} {recipient peerId : PeerId} {content : Text}
    {now : Timestamp} {handled : Handled} {data : Bytes} {carrier : ChannelTransportType}
    (h : (handleSendMessage sha256 noise s recipient content now).2 = .ok handled)
    (sent : .sendPacket peerId data carrier ∈ handled.1) :
    IsCiphertext noise s.sessionManager recipient content data := by
  unfold handleSendMessage at h
  cases hconnection : s.connection recipient with
  | none =>
    simp only [hconnection, reportError, Except.ok.injEq] at h
    subst h
    cases sent
  | some connection =>
    simp only [hconnection] at h
    split_ifs at h
    · simp only [reportError, Except.ok.injEq] at h
      subst h
      cases sent
    · obtain ⟨sequence, _, h⟩ := Call.andThen_eq_ok.mp h
      obtain ⟨stored, _, h⟩ := Call.andThen_eq_ok.mp h
      have sameSessions : (advanceSequence s).1.sessionManager = s.sessionManager := by
        unfold advanceSequence
        split_ifs <;> rfl
      rw [← sameSessions]
      exact sendStored_sent h sent

/-- A peer that is fed activity is never lost to a panic. -/
theorem feedKnown_activityDetected (s : CoreState H T) (p : PeerId) (now : Timestamp) :
    (s.feedKnown p .activityDetected now).2 = .ok () := by
  unfold CoreState.feedKnown
  cases s.connection p with
  | none => rfl
  | some c => cases c <;> rfl

variable (sha256) in
/-- A packet is offered to the store as an intact message of its sender. -/
theorem offered_packet (s : CoreState H T) (packet : BitchatPacket) (now : Timestamp) :
    ∃ m, (Inbox.offered sha256 s ⟨.packet packet, packet.senderId, .ble, now⟩).2 = .ok m ∧
      m.sender = packet.senderId ∧ m.content = fromUtf8Lossy packet.payload ∧
      m.verifyIntegrity sha256 = true := by
  have fed := feedKnown_activityDetected s packet.senderId now
  simp only [Inbox.offered, Call.andThen_of_ok _ fed]
  exact ⟨_, rfl, rfl, rfl, by simp [ContentAddressedMessage.verifyIntegrity]⟩

variable (sha256) in
/-- The result of handling a packet hangs on the store alone. -/
theorem handleEvent_packet (s : CoreState H T) (packet : BitchatPacket) (now : Timestamp) :
    ∃ m, m.sender = packet.senderId ∧ m.content = fromUtf8Lossy packet.payload ∧
      m.verifyIntegrity sha256 = true ∧
      appEvents (handleEvent sha256 s (.bitchatPacketReceived packet.senderId packet .ble) now).2 =
        match (s.messageStore.storeMessage sha256 m now).2 with
        | .ok _ => [.messageReceived m.sender m.content m.timestamp]
        | .error _ => [] := by
  obtain ⟨m, hoffered, hsender, hcontent, intact⟩ := offered_packet sha256 s packet now
  have sameStore := (Inbox.offered_frame sha256 s ⟨.packet packet, packet.senderId, .ble, now⟩).1
  have handled := Inbox.handleEvent_eq sha256 s ⟨.packet packet, packet.senderId, .ble, now⟩
  refine ⟨m, hsender, hcontent, intact, ?_⟩
  simp only [Arrival.event, Call.andThen_of_ok _ hoffered, storeIn, sameStore] at handled
  rw [handled]
  cases (s.messageStore.storeMessage sha256 m now).2 <;> rfl

/-- A packet delivers its payload, read as text, as a message of its sender. -/
theorem delivers_packet {r : CoreState H T} {now : Timestamp} {sender : PeerId} {content : Text}
    (accepts : AcceptsContent sha256 r.messageStore content now) (packet : BitchatPacket) :
    delivers sha256 r [.bitchatPacketReceived packet.senderId packet .ble] now sender content ↔
      packet.senderId = sender ∧ fromUtf8Lossy packet.payload = content := by
  obtain ⟨m, hsender, hcontent, intact, hevents⟩ := handleEvent_packet sha256 r packet now
  simp only [delivers, emitted, outputs, List.flatMap_cons, List.flatMap_nil, List.append_nil,
    hevents]
  constructor
  · intro h
    cases hstore : (r.messageStore.storeMessage sha256 m now).2 with
    | ok stored => simpa [hstore, isReceipt, hsender, hcontent] using h
    | error e => simp [hstore] at h
  · rintro ⟨rfl, hpayload⟩
    obtain ⟨stored, hstore⟩ := accepts m (hcontent.trans hpayload) intact
    simp [hstore, isReceipt, hsender, hcontent, hpayload]

variable (sha256) in
/-- A discovery delivers nothing and leaves the store as it is. -/
theorem delivers_discovery (r : CoreState H T) (peerId : PeerId)
    (transport : ChannelTransportType) (signalStrength : Option Int8)
    (now : Timestamp) (sender : PeerId) (content : Text) :
    ∃ r' : CoreState H T, r'.messageStore = r.messageStore ∧ ∀ rest,
      delivers sha256 r (.peerDiscovered peerId transport signalStrength :: rest) now sender
        content =
        delivers sha256 r' rest now sender content := by
  let start := (r.connection peerId).getD (ConnectionState.newDisconnected peerId)
  let discovered := r.feedOrReset peerId start (.peerDiscovered transport signalStrength) now
  have handled : handleEvent sha256 r (.peerDiscovered peerId transport signalStrength) now =
      discovered.andThen fun s _ => (s, reportStatus peerId .discovering (some transport)) := rfl
  have same : discovered.1.messageStore = r.messageStore := (r.feedOrReset_frame peerId _ _ now).1
  have quiet : (appEvents (handleEvent sha256 r (.peerDiscovered peerId transport signalStrength)
      now).2).any (isReceipt sender content) = false := by
    rw [handled]
    obtain ⟨s, e | u⟩ := discovered <;> rfl
  refine ⟨(handleEvent sha256 r (.peerDiscovered peerId transport signalStrength) now).1, ?_, ?_⟩
  · rw [handled]
    exact Call.andThen_frame CoreState.messageStore same fun _ _ => same
  · intro rest
    simp [delivers, emitted, outputs, quiet]

/-- The packets that data can carry to a core: those that its transport takes
for itself. -/
def CarriesContent (localPeerId sender : PeerId) (content : Text) (data : Bytes) : Prop :=
  ∃ packet, WireFormat.decode data = .ok packet ∧
    (packet.isBroadcast = true ∨ packet.recipientId = some localPeerId) ∧
    packet.senderId = sender ∧ fromUtf8Lossy packet.payload = content

theorem delivers_nil (r : CoreState H T) (now : Timestamp) (sender : PeerId) (content : Text) :
    delivers sha256 r [] now sender content = false := rfl

/-- A notification delivers a content exactly when it is a packet that carries it. -/
theorem delivers_incoming {r : CoreState H T} {now : Timestamp} {sender : PeerId} {content : Text}
    (accepts : AcceptsContent sha256 r.messageStore content now) (ble : BleTransport)
    (readAnnounce : BitchatPacket → Option PeerId) (link : PeerId) (data : Bytes) :
    delivers sha256 r (ble.handleIncomingPacket readAnnounce link data).events now sender content ↔
      CarriesContent ble.localPeerId sender content data := by
  cases hdecode : WireFormat.decode data with
  | error e => simp [BleTransport.handleIncomingPacket, CarriesContent, hdecode, delivers_nil]
  | ok packet =>
    obtain ⟨announced, hannounced, hevents⟩ :=
      ble.handleIncomingPacket_events readAnnounce link hdecode
    obtain ⟨r', sameStore, hr'⟩ : ∃ r' : CoreState H T, r'.messageStore = r.messageStore ∧
        ∀ rest, delivers sha256 r (announced ++ rest) now sender content =
          delivers sha256 r' rest now sender content := by
      obtain rfl | rfl := hannounced
      · exact ⟨r, rfl, fun _ => rfl⟩
      · exact delivers_discovery sha256 r link .ble none now sender content
    rw [hevents, hr']
    rw [← sameStore] at accepts
    by_cases forUs : packet.isBroadcast = true ∨ packet.recipientId = some ble.localPeerId
    · rw [if_pos forUs, delivers_packet accepts]
      simp [CarriesContent, hdecode, forUs]
    · rw [if_neg forUs, delivers_nil]
      simp [CarriesContent, hdecode, forUs]

theorem fromMetadata_content {sender : PeerId} {recipient : Option PeerId} {content : Text}
    {sequence timestamp : UInt64} {messageId : Option MessageId} {m : ContentAddressedMessage}
    (h : ContentAddressedMessage.fromMetadata sha256 sender recipient content sequence timestamp
      messageId = .ok m) : m.content = content := by
  unfold ContentAddressedMessage.fromMetadata at h
  cases messageId with
  | none =>
    rw [← Except.ok.inj h]
  | some id =>
    obtain ⟨_, h⟩ := rejectIf_bind_eq_ok.mp h
    rw [← Except.ok.inj h]

/-- A received message is announced with the content that it came with. -/
theorem delivers_message {r : CoreState H T} {now : Timestamp} {sender sender' : PeerId}
    {content content' : Text} {transport : ChannelTransportType} {messageId : Option MessageId}
    {recipient : Option PeerId} {timestamp sequence : Option UInt64}
    (h : delivers sha256 r [.messageReceived sender' content' transport messageId recipient
      timestamp sequence] now sender content = true) : content' = content := by
  have handled := Inbox.handleEvent_eq sha256 r
    ⟨.message sender' content' messageId recipient timestamp sequence, sender', transport, now⟩
  simp only [Arrival.event] at handled
  simp only [delivers, emitted, outputs, List.flatMap_cons, List.flatMap_nil, List.append_nil,
    handled] at h
  cases hoffered : (Inbox.offered sha256 r ⟨.message sender' content' messageId recipient timestamp
      sequence, sender', transport, now⟩).2 with
  | error e =>
    rw [Call.andThen_of_error _ hoffered] at h
    cases h
  | ok m =>
    have fed := feedKnown_activityDetected r sender' now
    have hcontent : m.content = content' := by
      simp only [Inbox.offered, Call.andThen_of_ok _ fed] at hoffered
      exact fromMetadata_content hoffered
    rw [Call.andThen_of_ok _ hoffered] at h
    simp only [storeIn] at h
    generalize (Inbox.offered sha256 r _).1.messageStore.storeMessage sha256 m now = stored at h
    obtain ⟨store, e | b⟩ := stored
    · cases h
    · simp [appEvents, isReceipt] at h
      rw [← hcontent]
      exact h.2

/-- Data that is longer than a content is not read as that content. -/
theorem fromUtf8Lossy_ne {data : Bytes} {content : Text}
    (longer : content.asBytes.length < data.length) : fromUtf8Lossy data ≠ content := by
  intro h
  have length := length_le_fromUtf8Lossy data
  rw [h] at length
  omega

theorem isCiphertext_unique {sessions : NoiseSessionManager H T} {peerId : PeerId}
    {content : Text} {data data' : Bytes} (h : IsCiphertext noise sessions peerId content data)
    (h' : IsCiphertext noise sessions peerId content data') : data = data' := by
  obtain ⟨session, transport, hsession, _, htransport, hwrite⟩ := h
  obtain ⟨session', transport', hsession', _, htransport', hwrite'⟩ := h'
  cases hsession.symm.trans hsession'
  cases htransport.symm.trans htransport'
  exact Except.ok.inj (hwrite.symm.trans hwrite')

variable (sha256 noise) in
/-- A private message that was sent arrives over Bluetooth exactly when its
ciphertext happens to be a packet that carries the content in the clear, and
over Nostr it never arrives. -/
theorem private_message_delivered_iff (codec : NostrCodec) (tags : noise.Tags)
    (hbase : codec.base64.RoundTrips) (hbin : codec.bincode.RoundTrips) (s r : CoreState H T)
    (content : Text) (data : Bytes) (carrier : ChannelTransportType) (handled : Handled)
    (sentAt receivedAt : Timestamp)
    (returned : (handleSendMessage sha256 noise s r.peerId content sentAt).2 = .ok handled)
    (sent : .sendPacket r.peerId data carrier ∈ handled.1)
    (accepts : AcceptsContent sha256 r.messageStore content receivedAt) :
    (∀ (bleS bleR : BleTransport) (readAnnounce : BitchatPacket → Option PeerId) (link : PeerId)
      (written : List Bytes), data.length ≤ bleMtu →
        bleS.sendPacketToPeer r.peerId data = (written, .ok ()) →
        (delivers sha256 r
            (written.flatMap fun d => (bleR.handleIncomingPacket readAnnounce link d).events)
            receivedAt s.peerId content ↔
          ∃ ciphertext, IsCiphertext noise s.sessionManager r.peerId content ciphertext ∧
            CarriesContent bleR.localPeerId s.peerId content ciphertext)) ∧
    ∀ (nostrS nostrR : NostrTransport) (published : Text),
      nostrS.sendDataToPeer codec r.peerId data sentAt = .ok published →
        ¬ delivers sha256 r (nostrR.processLegacyContent codec published).1 receivedAt s.peerId
          content := by
  have ciphertext := handleSendMessage_sent returned sent
  obtain ⟨_, transport, _, _, _, hwrite⟩ := ciphertext
  have longer : data.length = content.asBytes.length + 16 := tags transport _ data hwrite
  constructor
  · intro bleS bleR readAnnounce link written fits hsend
    have nonempty : data ≠ [] := by
      rintro rfl
      simp at longer
    obtain rfl := bleS.sendPacketToPeer_of_fits nonempty fits hsend
    rw [List.flatMap_singleton, delivers_incoming accepts]
    constructor
    · intro carries
      exact ⟨data, handleSendMessage_sent returned sent, carries⟩
    · rintro ⟨data', hdata', carries⟩
      rwa [isCiphertext_unique (handleSendMessage_sent returned sent) hdata']
  · intro nostrS nostrR published hsend delivered
    obtain ⟨localPeerId, _, hevents⟩ :=
      nostrS.processLegacyContent_of_sent hbase hbin nostrR hsend
    rw [hevents] at delivered
    split_ifs at delivered
    · obtain ⟨r', _, hr'⟩ := delivers_discovery sha256 r localPeerId .nostr none
        receivedAt s.peerId content
      rw [hr'] at delivered
      exact fromUtf8Lossy_ne (by omega) (delivers_message delivered)
    · cases delivered

end

def alice : PeerId := ⟨List.Vector.replicate 8 1⟩

def bob : PeerId := ⟨List.Vector.replicate 8 2⟩

/-- A core that is connected to a peer and has an established session with it. -/
def pairedCore (own other : PeerId) (transport : ChannelTransportType) : CoreState Unit Unit :=
  let s : CoreState Unit Unit := CoreState.new own (List.Vector.replicate 32 0)
  let session : NoiseSession Unit Unit :=
    { (NoiseSession.starting other () ⟨0⟩ : NoiseSession Unit Unit) with
      state := .established
      handshake := none
      transport := some () }
  let connected : ConnectionState :=
    .connected ⟨other, transport, ⟨0⟩, sessionId other transport, ⟨0⟩, 0⟩
  { s.setConnection other connected with
    sessionManager := s.sessionManager.setSession other session }

/-- A Bluetooth transport with one connected peer, whose peripheral takes every write. -/
def pairedBle (own other : PeerId) : BleTransport where
  localPeerId := own
  maxPacketSize := 500
  peers := (∅ : Map PeerId BlePeer).insert other ⟨other, .connected, true, fun _ => .ok ()⟩

def readyNostr (own : PeerId) : NostrTransport :=
  ⟨some ⟨fun _ => .ok (), fun _ => .ok ()⟩, some own, 64000⟩

def hi : Text := ['h', 'i']

/-- The ciphertext of the greeting. -/
def hiCiphertext : Bytes := [0x32, 0x33] ++ List.replicate 16 0xC3

theorem masked_tags : NoiseLibrary.masked.Tags := by
  rintro transport plaintext data h
  cases h
  simp

/-- A new store takes every intact greeting. -/
theorem accepts_hi (now : Timestamp) : AcceptsContent MessageStore.lastByteDigest
    (MessageStore.withConfig MessageStoreConfig.default) hi now := by
  intro m hcontent intact
  refine ⟨true, ?_⟩
  have safe : MessageStore.validateContentSafety hi = .ok () := by decide +kernel
  have size : m.serializedSize ≤ 65536 := by
    unfold ContentAddressedMessage.serializedSize
    rw [hcontent]
    split_ifs <;> decide
  have length : hi.length = 2 := rfl
  have valid : MessageStore.validateMessageInput MessageStoreConfig.default m = .ok () := by
    simp [MessageStore.validateMessageInput, MessageStoreConfig.default, hcontent, safe, size,
      length]
  have room : (MessageStore.withConfig MessageStoreConfig.default).enforceCapacityLimits m now =
      (MessageStore.withConfig MessageStoreConfig.default, .ok ()) := by
    simp [MessageStore.enforceCapacityLimits, MessageStore.makeRoom, MessageStore.withConfig,
      MessageStoreConfig.default, MessageStore.checkConversationLimit]
  simp [MessageStore.storeMessage, MessageStore.withConfig, valid, intact,
    Finmap.notMem_empty] at room ⊢
  simp [room]

/-- With a connection and a session on both sides the greeting goes out, encrypted
so that the other side could read it, and arrives neither over Bluetooth nor over
Nostr. -/
theorem greeting_not_delivered :
    (handleSendMessage MessageStore.lastByteDigest NoiseLibrary.masked (pairedCore alice bob .ble)
      bob hi ⟨1700000000000⟩).2 =
        .ok ([.sendPacket bob hiCiphertext .ble], [.messageSent bob hi 1700000000000]) ∧
    (NoiseLibrary.masked.readMessage () hiCiphertext).2 = .ok hi.asBytes ∧
    AcceptsContent MessageStore.lastByteDigest (pairedCore bob alice .ble).messageStore hi
      ⟨1700000000001⟩ ∧
    (pairedBle alice bob).sendPacketToPeer bob hiCiphertext = ([hiCiphertext], .ok ()) ∧
    delivers MessageStore.lastByteDigest (pairedCore bob alice .ble)
      ((pairedBle bob alice).handleIncomingPacket (fun _ => none) alice hiCiphertext).events
      ⟨1700000000001⟩ alice hi = false ∧
    ∃ published,
      (readyNostr alice).sendDataToPeer NostrCodec.standard bob hiCiphertext ⟨1700000000000⟩ =
        .ok published ∧
      delivers MessageStore.lastByteDigest (pairedCore bob alice .nostr)
        ((readyNostr bob).processLegacyContent NostrCodec.standard published).1
        ⟨1700000000001⟩ alice hi = false := by
  refine ⟨by decide +kernel, rfl, accepts_hi _, rfl, by decide +kernel, _, rfl, ?_⟩
  have published : (readyNostr alice).sendDataToPeer NostrCodec.standard bob hiCiphertext
      ⟨1700000000000⟩ = .ok _ := rfl
  obtain ⟨localPeerId, hlocal, hevents⟩ := (readyNostr alice).processLegacyContent_of_sent
    (Base64.engine_roundTrips _ _) BitchatNostrMessage.defaultBincode_roundTrips (readyNostr bob)
    published
  cases hlocal
  rw [hevents]
  decide +kernel

theorem private_message_delivered_iff_greeting :
    (delivers MessageStore.lastByteDigest (pairedCore bob alice .ble)
        ([hiCiphertext].flatMap fun d =>
          ((pairedBle bob alice).handleIncomingPacket (fun _ => none) alice d).events)
        ⟨1700000000001⟩ alice hi ↔
      ∃ ciphertext, IsCiphertext NoiseLibrary.masked (pairedCore alice bob .ble).sessionManager bob
        hi ciphertext ∧ CarriesContent bob alice hi ciphertext) ∧
    ∃ published,
      (readyNostr alice).sendDataToPeer NostrCodec.standard bob hiCiphertext ⟨1700000000000⟩ =
        .ok published ∧
      ¬ delivers MessageStore.lastByteDigest (pairedCore bob alice .ble)
        ((readyNostr bob).processLegacyContent NostrCodec.standard published).1
        ⟨1700000000001⟩ alice hi := by
  have general := private_message_delivered_iff MessageStore.lastByteDigest NoiseLibrary.masked
    NostrCodec.standard masked_tags (Base64.engine_roundTrips _ _)
    BitchatNostrMessage.defaultBincode_roundTrips (pairedCore alice bob .ble)
    (pairedCore bob alice .ble) hi hiCiphertext .ble
    ([.sendPacket bob hiCiphertext .ble], [.messageSent bob hi 1700000000000]) ⟨1700000000000⟩
    ⟨1700000000001⟩ (by decide +kernel) List.mem_cons_self (accepts_hi _)
  constructor
  · exact general.1 (pairedBle alice bob) (pairedBle bob alice) (fun _ => none) alice
      [hiCiphertext] (by decide) rfl
  · exact ⟨_, rfl, general.2 (readyNostr alice) (readyNostr bob) _ rfl⟩

end Bitchat
