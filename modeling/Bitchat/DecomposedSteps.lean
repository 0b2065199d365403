import Bitchat.DecomposedRuntime
import Bitchat.Rust.Run

/-!
# The steps of the decomposed runtime

As long as the ingress runs, the tasks behind it are there, so its requests never fail.
Under this condition `Steps` says what one action can do; every result about
runs is proved from it.
-/
namespace Bitchat
open Rust

/-- An internal event that changes what the supervisor knows of a task. -/
def InternalEvent.IsHealth : InternalEvent → Prop
  | .taskHealth _ _ _ => True
  | _ => False

/-- The message that an event reports, and who sent it. -/
def Event.incoming : Event → Option (PeerId × Text)
  | .messageReceived sender content _ _ _ _ _ => some (sender, content)
  | _ => none

namespace DecomposedRuntime

/-- The part of the runtime in front of the internal channels. -/
structure Front where
  ingress : MessageIngressTask
  commands : Mpsc Command
  commandsOpen : Bool
  events : Mpsc Event
  eventsOpen : Bool
  appEvents : Mpsc AppEvent
  appEventsOpen : Bool

def withFront (rt : DecomposedRuntime) (front : Front) : DecomposedRuntime :=
  { rt with
    ingress := front.ingress
    commands := front.commands
    commandsOpen := front.commandsOpen
    events := front.events
    eventsOpen := front.eventsOpen
    appEvents := front.appEvents
    appEventsOpen := front.appEventsOpen }

/-- Seen in front of the internal channels, and not about a message. -/
inductive Seen.IsFront : Seen → Prop where
  | took (input : CoreLogicTask.Input) : (Seen.took input).IsFront
  | shown (appEvent : AppEvent) : (Seen.shown appEvent).IsFront
  | told (p : PeerId) (status : ConnectionStatus) (transport : Option ChannelTransportType) :
    (Seen.told (.peerStatusChanged p status transport)).IsFront

/-- The ingress goes on only if it ran, and its counter stays. -/
structure Front.Keeps (front : Front) (rt : DecomposedRuntime) : Prop where
  running : front.ingress.running = true → rt.ingress.running = true
  counter : front.ingress.messageSequence = rt.ingress.messageSequence

/-- A task tells the supervisor something, or nothing. -/
def Announces (rt : DecomposedRuntime) (events : Unbounded InternalEvent) (seen : List Seen) :
    Prop :=
  events = rt.internalEvents ∧ seen = [] ∨
    ∃ event, ¬ event.IsHealth ∧ rt.internalEvents.send event = some events ∧
      seen = [.announced event]

/-- The session manager answers a request to connect, or sends no effect. -/
def SendsFor (rt : DecomposedRuntime) (command : InternalCommand)
    (effects : Broadcast ℕ Effect) (seen : List Seen) : Prop :=
  effects = rt.effects ∧ seen = [] ∨
    ∃ p transport, command = .establishSession p transport ∧
      rt.effects.send (.initiateConnection p transport) = some effects ∧
      seen = [.sentEffect (.initiateConnection p transport)]

/-- The store starts to track a message of the zero peer, or nothing. -/
def Tracks (rt : DecomposedRuntime) (command : InternalCommand) (tracker : DeliveryTracker) :
    Prop :=
  tracker = rt.storage.deliveryTracker ∨
    ∃ id content p uuid now, command = .storeMessage id content dummyPeer (some p) ∧
      tracker = (rt.storage.deliveryTracker.trackMessage uuid p content.asBytes now).1

/-- What one action can do while the tasks behind the ingress are there. -/
inductive Steps (sha256 : Bytes → Key32) (rt : DecomposedRuntime) :
    DecomposedRuntime → List Seen → Prop where
  | front (front : Front) {seen : List Seen} (keeps : front.Keeps rt)
    (only : ∀ s ∈ seen, s.IsFront) : Steps sha256 rt (rt.withFront front) seen
  | connect (front : Front) {p : PeerId} (running : rt.ingress.running = true)
    (keeps : front.Keeps rt) :
    Steps sha256 rt { rt.withFront front with
        sessionCommands := rt.sessionCommands.push (.establishSession p .ble) }
      [.took (.command (.connectToPeer p)), .requestedSession (.establishSession p .ble)]
  | send (front : Front) {p : PeerId} {content : Text} {told : List Seen}
    (running : rt.ingress.running = true)
    (counter : front.ingress.messageSequence.toNat = rt.ingress.messageSequence.toNat + 1)
    (tells : told = [] ∨ ∃ millis, told = [.told (.messageSent p content millis)]) :
    Steps sha256 rt { rt.withFront front with
        sessionCommands := rt.sessionCommands.push (.establishSession p .ble)
        storageCommands := rt.storageCommands.push (.storeMessage
          (ownMessageId sha256 rt.peerId front.ingress.messageSequence) content rt.peerId
          (some p)) }
      (.took (.command (.sendMessage p content)) ::
        .requestedSession (.establishSession p .ble) ::
        .requestedStorage (.storeMessage
          (ownMessageId sha256 rt.peerId front.ingress.messageSequence) content rt.peerId
          (some p)) :: told)
  | receive (front : Front) {event : Event} {id : MessageId} {sender : PeerId} {content : Text}
    {told : List Seen} (running : rt.ingress.running = true) (keeps : front.Keeps rt)
    (tells : told = [] ∨ ∃ millis, told = [.told (.messageReceived sender content millis)])
    (comes : event.incoming = some (sender, content)) :
    Steps sha256 rt { rt.withFront front with
        storageCommands := rt.storageCommands.push (.storeMessage id content sender
          (some rt.peerId)) }
      (.took (.event event) ::
        .requestedStorage (.storeMessage id content sender (some rt.peerId)) :: told)
  | shutdown (front : Front) (running : rt.ingress.running = true)
    (stops : front.ingress.running = false) (keeps : front.Keeps rt) :
    Steps sha256 rt { rt.withFront front with
        sessionCommands := rt.sessionCommands.push .shutdown
        storageCommands := rt.storageCommands.push .shutdown }
      [.took (.command .shutdown), .requestedSession .shutdown, .requestedStorage .shutdown]
  | session {command : InternalCommand} {commands : Unbounded InternalCommand}
    {connections : Map PeerId ConnectionState} {events : Unbounded InternalEvent}
    {effects : Broadcast ℕ Effect} {announced sent : List Seen}
    (got : rt.sessionCommands.recv = some (command, commands)) (goesOn : command ≠ .shutdown)
    (announces : rt.Announces events announced) (sends : rt.SendsFor command effects sent) :
    Steps sha256 rt { rt with
        session := { rt.session with connections := connections }
        sessionCommands := commands
        internalEvents := events
        effects := effects } (.handledSession command :: (announced ++ sent))
  | sessionOver {commands : Unbounded InternalCommand}
    (got : rt.sessionCommands.recv = some (.shutdown, commands)) :
    Steps sha256 rt { rt with
        session := { rt.session with running := false }
        sessionCommands := commands.close } [.handledSession .shutdown]
  | storage {command : InternalCommand} {commands : Unbounded InternalCommand}
    {tracker : DeliveryTracker} {events : Unbounded InternalEvent} {announced : List Seen}
    (running : rt.storage.running = true)
    (got : rt.storageCommands.recv = some (command, commands)) (goesOn : command ≠ .shutdown)
    (announces : rt.Announces events announced) (tracks : rt.Tracks command tracker) :
    Steps sha256 rt { rt with
        storage := { rt.storage with deliveryTracker := tracker }
        storageCommands := commands
        internalEvents := events } (.handledStorage command :: announced)
  | storageOver {commands : Unbounded InternalCommand} (running : rt.storage.running = true)
    (got : rt.storageCommands.recv = some (.shutdown, commands)) :
    Steps sha256 rt { rt with
        storage := { rt.storage with running := false }
        storageCommands := commands.close } [.handledStorage .shutdown]
  | supervised {event : InternalEvent} {events : Unbounded InternalEvent} {instant : ℕ}
    (got : rt.internalEvents.recv = some (event, events)) :
    Steps sha256 rt { rt with
        internalEvents := events
        supervisor := rt.supervisor.handleInternalEvent event instant } []
  | checked (instant : ℕ) :
    Steps sha256 rt { rt with supervisor := rt.supervisor.performHealthCheck instant }
      [.checkedHealth instant]
  | polled {transport : ℕ} {effect : Effect}
    {effects : Broadcast ℕ Effect}
    (got : rt.effects.recv transport = (.value effect, effects)) :
    Steps sha256 rt { rt with effects := effects } [.handledEffect transport effect]
  | left (transport : ℕ) :
    Steps sha256 rt { rt with effects := rt.effects.unsubscribe transport } []

/-- As long as the ingress runs, the tasks behind it take its requests; its request to
shut down is the last one. -/
structure Wired (rt : DecomposedRuntime) : Prop where
  session : rt.sessionCommands.isOpen = rt.session.running
  storage : rt.storageCommands.isOpen = rt.storage.running
  sessionEnds : rt.sessionCommands.EndedBy .shutdown rt.ingress.running
  storageEnds : rt.storageCommands.EndedBy .shutdown rt.ingress.running

section

variable {sha256 : Bytes → Key32} {rt rt' : DecomposedRuntime} {seen : List Seen}

/-- The front as it is. -/
def inFront (rt : DecomposedRuntime) : Front :=
  ⟨rt.ingress, rt.commands, rt.commandsOpen, rt.events, rt.eventsOpen, rt.appEvents,
    rt.appEventsOpen⟩

theorem Steps.idle (rt : DecomposedRuntime) : Steps sha256 rt rt [] :=
  Steps.front rt.inFront ⟨id, rfl⟩ (by simp)

theorem Wired.start (peerId : PeerId) (rateLimiting : RateLimitConfig) (buffers : Buffers)
    (transports : ℕ) (instants : TaskId → ℕ) :
    (start peerId rateLimiting buffers transports instants).Wired :=
  ⟨rfl, rfl, Unbounded.endedBy_new, Unbounded.endedBy_new⟩

theorem Wired.steps (h : rt.Wired) (hstep : Steps sha256 rt rt' seen) : rt'.Wired := by
  obtain ⟨session, storage, sessionEnds, storageEnds⟩ := h
  cases hstep with
  | front front keeps only =>
    exact ⟨session, storage, sessionEnds.mono keeps.running, storageEnds.mono keeps.running⟩
  | connect front running keeps =>
    rw [running] at sessionEnds
    exact ⟨session, storage, sessionEnds.push (by simp), storageEnds.mono keeps.running⟩
  | send front running counter tells =>
    rw [running] at sessionEnds storageEnds
    exact ⟨session, storage, sessionEnds.push (by simp), storageEnds.push (by simp)⟩
  | receive front running keeps tells =>
    rw [running] at storageEnds
    exact ⟨session, storage, sessionEnds.mono keeps.running, storageEnds.push (by simp)⟩
  | shutdown front running stops keeps =>
    rw [running] at sessionEnds storageEnds
    have ended : front.ingress.running = false := stops
    refine ⟨session, storage, ?_, ?_⟩
    · simpa [withFront, ended] using sessionEnds.finish
    · simpa [withFront, ended] using storageEnds.finish
  | session got goesOn announces sends =>
    exact ⟨(Unbounded.recv_eq_some got).2.trans session, storage, sessionEnds.recv got,
      storageEnds⟩
  | sessionOver got => exact ⟨rfl, storage, (sessionEnds.recv_last got).2.2, storageEnds⟩
  | storage running got goesOn announces tracks =>
    exact ⟨session, (Unbounded.recv_eq_some got).2.trans storage, sessionEnds,
      storageEnds.recv got⟩
  | storageOver running got => exact ⟨session, rfl, sessionEnds, (storageEnds.recv_last got).2.2⟩
  | supervised got => exact ⟨session, storage, sessionEnds, storageEnds⟩
  | checked instant => exact ⟨session, storage, sessionEnds, storageEnds⟩
  | polled got => exact ⟨session, storage, sessionEnds, storageEnds⟩
  | left transport => exact ⟨session, storage, sessionEnds, storageEnds⟩

theorem tell_spec (rt : DecomposedRuntime) (appEvent : AppEvent) :
    ∃ appEvents told, rt.tell appEvent = ({ rt with appEvents := appEvents }, told) ∧
      (told = [] ∨ told = [.told appEvent]) := by
  unfold tell
  split_ifs with isOpen
  · cases rt.appEvents.trySend appEvent with
    | none => exact ⟨rt.appEvents, [], rfl, .inl rfl⟩
    | some appEvents => exact ⟨appEvents, [.told appEvent], rfl, .inr rfl⟩
  · exact ⟨rt.appEvents, [], rfl, .inl rfl⟩

theorem announce_spec (rt : DecomposedRuntime) (event : InternalEvent)
    (other : ¬ event.IsHealth) :
    ∃ events announced, rt.announce event = ({ rt with internalEvents := events }, announced) ∧
      rt.Announces events announced := by
  unfold announce
  cases sent : rt.internalEvents.send event with
  | none => exact ⟨rt.internalEvents, [], rfl, .inl ⟨rfl, rfl⟩⟩
  | some events => exact ⟨events, [.announced event], rfl, .inr ⟨event, other, sent, rfl⟩⟩

theorem requestSession_of_open (isOpen : rt.sessionCommands.isOpen = true)
    (command : InternalCommand) : rt.requestSession command =
      some ({ rt with sessionCommands := rt.sessionCommands.push command },
        [.requestedSession command]) := by
  rw [requestSession, Unbounded.send_of_open isOpen, Option.map_some]

theorem requestStorage_of_open (rt : DecomposedRuntime) (isOpen : rt.storageCommands.isOpen = true)
    (command : InternalCommand) : rt.requestStorage command =
      some ({ rt with storageCommands := rt.storageCommands.push command },
        [.requestedStorage command]) := by
  rw [requestStorage, Unbounded.send_of_open isOpen, Option.map_some]

/-- Requests go through while the ingress runs. -/
theorem Wired.receivers (h : rt.Wired) (running : rt.ingress.running = true) :
    rt.sessionCommands.isOpen = true ∧ rt.storageCommands.isOpen = true :=
  ⟨(h.sessionEnds.going running).1, (h.storageEnds.going running).1⟩

theorem Wired.withFront (h : rt.Wired) (front : Front)
    (goesOn : front.ingress.running = true → rt.ingress.running = true) :
    (rt.withFront front).Wired :=
  ⟨h.session, h.storage, h.sessionEnds.mono goesOn, h.storageEnds.mono goesOn⟩

theorem Wired.sendMessage (sha256 : Bytes → Key32) (h : rt.Wired)
    (running : rt.ingress.running = true) (p : PeerId) (content : Text) (now : Timestamp) :
    ∃ appEvents told, rt.sendMessage sha256 p content now = ({ rt with
        sessionCommands := rt.sessionCommands.push (.establishSession p .ble)
        storageCommands := rt.storageCommands.push (.storeMessage
          (ownMessageId sha256 rt.peerId rt.ingress.messageSequence) content rt.peerId (some p))
        appEvents := appEvents },
        .requestedSession (.establishSession p .ble) :: .requestedStorage (.storeMessage
          (ownMessageId sha256 rt.peerId rt.ingress.messageSequence) content rt.peerId
          (some p)) :: told) ∧
      (told = [] ∨ ∃ millis, told = [.told (.messageSent p content millis)]) := by
  obtain ⟨hsession, hstorage⟩ := h.receivers running
  have stored := requestStorage_of_open { rt with
    sessionCommands := rt.sessionCommands.push (.establishSession p .ble) } hstorage
  obtain ⟨appEvents, told, htell, htold⟩ := tell_spec { rt with
    sessionCommands := rt.sessionCommands.push (.establishSession p .ble)
    storageCommands := rt.storageCommands.push (.storeMessage
      (ownMessageId sha256 rt.peerId rt.ingress.messageSequence) content rt.peerId (some p)) }
    (.messageSent p content now.asMillis)
  refine ⟨appEvents, told, ?_, htold.imp id fun h => ⟨now.asMillis, h⟩⟩
  rw [DecomposedRuntime.sendMessage, requestSession_of_open hsession]
  simp only [stored, htell, List.cons_append, List.nil_append]

theorem runCommand_shutdown (hsession : rt.sessionCommands.isOpen = true)
    (hstorage : rt.storageCommands.isOpen = true) (now : Timestamp) :
    rt.runCommand sha256 .shutdown now = ({ rt with
      ingress := { rt.ingress with running := false }
      sessionCommands := rt.sessionCommands.push .shutdown
      storageCommands := rt.storageCommands.push .shutdown },
      [.requestedSession .shutdown, .requestedStorage .shutdown]) := by
  simp only [runCommand, requestSession, requestStorage, Unbounded.send_of_open hsession,
    Unbounded.send_of_open hstorage, Option.map_some, Option.getD_some, List.singleton_append]

/-- A command that the rate limiter let through. -/
theorem Wired.runCommand (h : rt.Wired) (running : rt.ingress.running = true) (front : Front)
    (goesOn : front.ingress.running = true) (keeps : front.Keeps rt) (command : Command)
    (now : Timestamp) :
    Steps sha256 rt ((rt.withFront front).runCommand sha256 command now).1
      (.took (.command command) :: ((rt.withFront front).runCommand sha256 command now).2) := by
  obtain ⟨hsession, hstorage⟩ := (h.withFront front fun _ => running).receivers goesOn
  have alone : ∀ s ∈ [Seen.took (.command command)], s.IsFront := by
    simp [Seen.IsFront.took]
  cases command with
  | sendMessage p content =>
    rw [DecomposedRuntime.runCommand]
    split_ifs with room
    · have counted : (front.ingress.messageSequence + 1).toNat =
          rt.ingress.messageSequence.toNat + 1 := by
        rw [← keeps.counter, UInt64.toNat_add]
        exact Nat.mod_eq_of_lt room
      let next : Front := { front with
        ingress := { front.ingress with messageSequence := front.ingress.messageSequence + 1 } }
      change Steps sha256 rt ((rt.withFront next).sendMessage sha256 p content now).1
        (_ :: ((rt.withFront next).sendMessage sha256 p content now).2)
      obtain ⟨appEvents, told, hsend, htold⟩ :=
        Wired.sendMessage sha256 (h.withFront next fun _ => running) goesOn p content now
      rw [hsend]
      exact Steps.send { next with appEvents := appEvents } running counted htold
    · exact Steps.front { front with ingress := { front.ingress with running := false } }
        ⟨(nomatch ·), keeps.counter⟩ alone
  | connectToPeer p =>
    rw [DecomposedRuntime.runCommand, requestSession_of_open hsession]
    exact Steps.connect front running keeps
  | shutdown =>
    rw [runCommand_shutdown hsession hstorage]
    exact Steps.shutdown { front with ingress := { front.ingress with running := false } }
      running rfl
      ⟨(nomatch ·), keeps.counter⟩
  | _ => exact Steps.front front keeps alone

/-- The rate limiter lets a command through, refuses it, or ends the ingress. -/
theorem handleCommand_cases (sha256 : Bytes → Key32) (rt : DecomposedRuntime)
    (command : Command) (env : Surroundings) :
    (∃ limiter, rt.handleCommand sha256 command env =
      { rt with ingress := { rt.ingress with rateLimiter := limiter } }.runCommand sha256 command
        env.now) ∨
    ∃ limiter running, rt.handleCommand sha256 command env =
      ({ rt with ingress := ⟨limiter, rt.ingress.messageSequence, running⟩ }, []) ∧
        (running = true → rt.ingress.running = true) := by
  unfold handleCommand
  rcases rt.ingress.rateLimiter.checkMessageAllowed dummyPeer env.instant env.order with
    ⟨limiter, (_ | _) | _⟩
  · exact .inr ⟨limiter, rt.ingress.running, rfl, id⟩
  · exact .inr ⟨limiter, false, rfl, (nomatch ·)⟩
  · exact .inl ⟨limiter, rfl⟩

theorem Wired.ingressCommand (h : rt.Wired) (env : Surroundings) :
    Steps sha256 rt (rt.ingressCommand sha256 env).1 (rt.ingressCommand sha256 env).2 := by
  rw [DecomposedRuntime.ingressCommand]
  split_ifs with running
  · cases got : rt.commands.recv with
    | none => exact Steps.idle rt
    | some taken =>
      obtain ⟨command, commands⟩ := taken
      have alone : ∀ s ∈ [Seen.took (.command command)], s.IsFront := by
        simp [Seen.IsFront.took]
      rcases handleCommand_cases sha256 { rt with commands := commands } command env
        with ⟨limiter, hrun⟩ | ⟨limiter, goesOn, hrefuse, hrunning⟩
      · simp only [hrun]
        exact h.runCommand running { rt.inFront with
          ingress := { rt.ingress with rateLimiter := limiter }
          commands := commands } running ⟨id, rfl⟩ command env.now
      · simp only [hrefuse]
        exact Steps.front { rt.inFront with
          ingress := ⟨limiter, rt.ingress.messageSequence, goesOn⟩
          commands := commands } ⟨hrunning, rfl⟩ alone
  · exact Steps.idle rt

/-- An empty message is refused; any other is stored, and the application told. -/
theorem handleEvent_messageReceived (sha256 : Bytes → Key32)
    (hstorage : rt.storageCommands.isOpen = true) (sender : PeerId) (content : Text)
    (transport : ChannelTransportType) (messageId : Option MessageId) (recipient : Option PeerId)
    (timestamp sequence : Option UInt64) (now : Timestamp) :
    rt.handleEvent sha256 (.messageReceived sender content transport messageId recipient timestamp
      sequence) now = (rt, []) ∨
    ∃ id appEvents told, rt.handleEvent sha256 (.messageReceived sender content transport messageId
        recipient timestamp sequence) now = ({ rt with
          storageCommands := rt.storageCommands.push
            (.storeMessage id content sender (some rt.peerId))
          appEvents := appEvents },
        .requestedStorage (.storeMessage id content sender (some rt.peerId)) :: told) ∧
      (told = [] ∨ ∃ millis, told = [.told (.messageReceived sender content millis)]) := by
  rw [handleEvent]
  split_ifs with hempty
  · exact .inl rfl
  · let id := messageId.getD (receivedMessageId sha256 sender content)
    obtain ⟨appEvents, told, htell, htold⟩ := tell_spec { rt with
      storageCommands := rt.storageCommands.push (.storeMessage id content sender
        (some rt.peerId)) } (.messageReceived sender content now.asMillis)
    refine .inr ⟨id, appEvents, told, ?_, htold.imp (·) fun h => ⟨now.asMillis, h⟩⟩
    simp only [requestStorage_of_open rt hstorage, id, htell, List.cons_append, List.nil_append]

/-- What the ingress makes of an event, as long as its requests go through. -/
theorem Wired.handleEvent (h : rt.Wired) (running : rt.ingress.running = true) (front : Front)
    (goesOn : front.ingress.running = true) (keeps : front.Keeps rt) (event : Event)
    (now : Timestamp) :
    Steps sha256 rt ((rt.withFront front).handleEvent sha256 event now).1
      (.took (.event event) :: ((rt.withFront front).handleEvent sha256 event now).2) := by
  obtain ⟨-, hstorage⟩ := (h.withFront front fun _ => running).receivers goesOn
  have alone : ∀ s ∈ [Seen.took (.event event)], s.IsFront := by
    simp [Seen.IsFront.took]
  have status (p : PeerId) (status : ConnectionStatus) (transport : ChannelTransportType) :
      Steps sha256 rt ((rt.withFront front).tell (.peerStatusChanged p status (some transport))).1
        (.took (.event event) ::
          ((rt.withFront front).tell (.peerStatusChanged p status (some transport))).2) := by
    obtain ⟨appEvents, told, htell, htold⟩ := tell_spec (rt.withFront front)
      (.peerStatusChanged p status (some transport))
    rw [htell]
    refine Steps.front { front with appEvents := appEvents }
      ⟨keeps.running, keeps.counter⟩ ?_
    rcases htold with rfl | rfl
    · exact alone
    · simp [Seen.IsFront.took, Seen.IsFront.told]
  cases event with
  | messageReceived sender content transport messageId recipient timestamp sequence =>
    rcases handleEvent_messageReceived sha256 hstorage sender content transport messageId recipient
      timestamp sequence now with hnone | ⟨id, appEvents, told, hreceive, htold⟩
    · rw [hnone]
      exact Steps.front front keeps alone
    · rw [hreceive]
      exact Steps.receive { front with appEvents := appEvents } running
        ⟨keeps.running, keeps.counter⟩ htold rfl
  | peerDiscovered p transport signal => exact status p .discovering transport
  | connectionEstablished p transport => exact status p .connected transport
  | connectionLost p transport reason => exact status p .disconnected transport
  | _ => exact Steps.front front keeps alone

theorem Wired.ingressEvent (h : rt.Wired) (now : Timestamp) :
    Steps sha256 rt (rt.ingressEvent sha256 now).1 (rt.ingressEvent sha256 now).2 := by
  rw [DecomposedRuntime.ingressEvent]
  split_ifs with running
  · cases got : rt.events.recv with
    | none => exact Steps.idle rt
    | some taken =>
      obtain ⟨event, events⟩ := taken
      exact h.handleEvent running { rt.inFront with events := events } running ⟨id, rfl⟩ event now
  · exact Steps.idle rt

/-- The supervisor is told of a session, and the transports to connect. -/
theorem connect_spec (rt : DecomposedRuntime) (p : PeerId) (transport : ChannelTransportType) :
    ∃ events effects announced sent,
      (((rt.announce (.sessionEstablished p transport)).1.sendEffect
          (.initiateConnection p transport)).1,
        (rt.announce (.sessionEstablished p transport)).2 ++
          ((rt.announce (.sessionEstablished p transport)).1.sendEffect
            (.initiateConnection p transport)).2) =
        ({ rt with internalEvents := events, effects := effects }, announced ++ sent) ∧
      rt.Announces events announced ∧
      rt.SendsFor (.establishSession p transport) effects sent := by
  obtain ⟨events, announced, hannounce, announces⟩ :=
    announce_spec rt (.sessionEstablished p transport) (fun h => h)
  rw [hannounce]
  simp only [sendEffect]
  cases hsend : rt.effects.send (.initiateConnection p transport) with
  | none =>
    exact ⟨events, rt.effects, announced, [], rfl, announces, .inl ⟨rfl, rfl⟩⟩
  | some effects =>
    exact ⟨events, effects, announced, _, rfl, announces, .inr ⟨p, transport, rfl, hsend, rfl⟩⟩

/-- The session manager goes on after every command but the last one. -/
theorem handleSession_spec (sha256 : Bytes → Key32) (rt : DecomposedRuntime)
    {command : InternalCommand} (goesOn : command ≠ .shutdown) :
    ∃ connections events effects announced sent, rt.handleSession sha256 command = ({ rt with
        session := { rt.session with connections := connections }
        internalEvents := events
        effects := effects }, announced ++ sent) ∧
      rt.Announces events announced ∧ rt.SendsFor command effects sent := by
  have unsent : rt.SendsFor command rt.effects [] := .inl ⟨rfl, rfl⟩
  have quiet : rt.Announces rt.internalEvents [] := .inl ⟨rfl, rfl⟩
  cases command with
  | establishSession p transport =>
    obtain ⟨connections, _, rfl, hsession⟩ : ∃ connections, ∃ opened : DecomposedRuntime,
        opened = { rt with session := { rt.session with connections := connections } } ∧
        rt.handleSession sha256 (.establishSession p transport) =
          (((opened.announce (.sessionEstablished p transport)).1.sendEffect
              (.initiateConnection p transport)).1,
            (opened.announce (.sessionEstablished p transport)).2 ++
              ((opened.announce (.sessionEstablished p transport)).1.sendEffect
                (.initiateConnection p transport)).2) := ⟨_, _, rfl, rfl⟩
    obtain ⟨events, effects, announced, sent, hconnect, announces, sends⟩ := connect_spec
      { rt with session := { rt.session with connections := connections } } p transport
    exact ⟨connections, events, effects, announced, sent, hsession.trans hconnect, announces,
      sends⟩
  | processEncryptedMessage p ciphertext transport =>
    obtain ⟨decrypted, hsession⟩ : ∃ decrypted,
        rt.handleSession sha256 (.processEncryptedMessage p ciphertext transport) = rt.announce
          (.messageDecrypted (receivedMessageId sha256 p decrypted) decrypted p (some rt.peerId)) :=
      ⟨_, rfl⟩
    obtain ⟨events, announced, hannounce, announces⟩ := announce_spec rt
      (.messageDecrypted (receivedMessageId sha256 p decrypted) decrypted p (some rt.peerId))
      (fun h => h)
    refine ⟨rt.session.connections, events, rt.effects, announced, [], ?_, announces, unsent⟩
    rw [List.append_nil]
    exact hsession.trans hannounce
  | shutdown => exact absurd rfl goesOn
  | _ => exact ⟨rt.session.connections, rt.internalEvents, rt.effects, [], [], rfl, quiet, unsent⟩

theorem sessionCommand_steps (rt : DecomposedRuntime) :
    Steps sha256 rt (rt.sessionCommand sha256).1 (rt.sessionCommand sha256).2 := by
  rw [sessionCommand]
  split_ifs with running
  · cases got : rt.sessionCommands.recv with
    | none => exact Steps.idle rt
    | some taken =>
      obtain ⟨command, commands⟩ := taken
      by_cases ended : command = .shutdown
      · subst ended
        exact Steps.sessionOver got
      · obtain ⟨connections, events, effects, announced, sent, hhandle, announces, sends⟩ :=
          handleSession_spec sha256 { rt with sessionCommands := commands } ended
        simp only [hhandle]
        exact Steps.session got ended announces sends
  · exact Steps.idle rt

/-- So does the store; only a message of the zero peer is tracked. -/
theorem handleStorage_spec (rt : DecomposedRuntime) {command : InternalCommand} (uuid : Uuid)
    (now : Timestamp) (goesOn : command ≠ .shutdown) :
    ∃ tracker events announced, rt.handleStorage command uuid now = ({ rt with
        storage := { rt.storage with deliveryTracker := tracker }
        internalEvents := events }, announced) ∧
      rt.Announces events announced ∧ rt.Tracks command tracker := by
  have quiet : rt.Announces rt.internalEvents [] := .inl ⟨rfl, rfl⟩
  cases command with
  | storeMessage id content sender recipient =>
    have other : ¬ (InternalEvent.messageStored id now).IsHealth := fun h => h
    have untracked (hsame : rt.handleStorage (.storeMessage id content sender recipient) uuid now =
        rt.announce (.messageStored id now)) :
        ∃ tracker events announced,
          rt.handleStorage (.storeMessage id content sender recipient) uuid now = ({ rt with
            storage := { rt.storage with deliveryTracker := tracker }
            internalEvents := events }, announced) ∧
          rt.Announces events announced ∧
          rt.Tracks (.storeMessage id content sender recipient) tracker := by
      obtain ⟨events, announced, hannounce, announces⟩ :=
        announce_spec rt (.messageStored id now) other
      exact ⟨rt.storage.deliveryTracker, events, announced, hsame.trans hannounce, announces,
        .inl rfl⟩
    cases recipient with
    | none => exact untracked rfl
    | some p =>
      by_cases hsender : sender = dummyPeer
      · subst hsender
        let tracker := (rt.storage.deliveryTracker.trackMessage uuid p content.asBytes now).1
        obtain ⟨events, announced, hannounce, announces⟩ := announce_spec
          { rt with storage := { rt.storage with deliveryTracker := tracker } }
          (.messageStored id now) other
        refine ⟨tracker, events, announced, ?_, announces,
          .inr ⟨id, content, p, uuid, now, rfl, rfl⟩⟩
        rw [handleStorage]
        simp only [if_true]
        exact hannounce
      · apply untracked
        rw [handleStorage]
        simp only [if_neg hsender]
  | shutdown => exact absurd rfl goesOn
  | _ =>
    exact ⟨rt.storage.deliveryTracker, rt.internalEvents, [], rfl, quiet, .inl rfl⟩

theorem storageCommand_steps (rt : DecomposedRuntime) (uuid : Uuid) (now : Timestamp) :
    Steps sha256 rt (rt.storageCommand uuid now).1 (rt.storageCommand uuid now).2 := by
  rw [storageCommand]
  split_ifs with running
  · cases got : rt.storageCommands.recv with
    | none => exact Steps.idle rt
    | some taken =>
      obtain ⟨command, commands⟩ := taken
      by_cases ended : command = .shutdown
      · subst ended
        exact Steps.storageOver running got
      · obtain ⟨tracker, events, announced, hhandle, announces, tracks⟩ :=
          handleStorage_spec { rt with storageCommands := commands } uuid now ended
        simp only [hhandle]
        exact Steps.storage running got ended announces tracks
  · exact Steps.idle rt

/-- What one action does, as long as the tasks behind the ingress are there while it runs. -/
theorem Wired.steps_step (h : rt.Wired) (act : Act) :
    Steps sha256 rt (rt.step sha256 act).1 (rt.step sha256 act).2 := by
  have quiet (front : Front) (keeps : front.Keeps rt) : Steps sha256 rt (rt.withFront front) [] :=
    Steps.front front keeps (by simp)
  cases act with
  | submit command =>
    rw [step]
    split_ifs
    · exact quiet { rt.inFront with commands := (rt.commands.trySend command).getD rt.commands }
        ⟨id, rfl⟩
    · exact Steps.idle rt
  | report event =>
    rw [step]
    split_ifs
    · exact quiet { rt.inFront with events := (rt.events.trySend event).getD rt.events } ⟨id, rfl⟩
    · exact Steps.idle rt
  | ingressCommand env => exact h.ingressCommand env
  | ingressEvent now => exact h.ingressEvent now
  | ingressIdle =>
    rw [step, ingressIdle]
    split_ifs
    · exact quiet { rt.inFront with ingress := { rt.ingress with running := false } }
        ⟨(nomatch ·), rfl⟩
    · exact Steps.idle rt
  | sessionCommand => exact rt.sessionCommand_steps
  | storageCommand uuid now => exact rt.storageCommand_steps uuid now
  | internalEvent instant =>
    rw [step, internalEvent]
    cases got : rt.internalEvents.recv with
    | none => exact Steps.idle rt
    | some taken => exact Steps.supervised got
  | healthCheck instant => exact Steps.checked instant
  | pollEffect transport =>
    rw [step, pollEffect]
    rcases got : rt.effects.recv transport with ⟨effect | missed | _, effects⟩
    · exact Steps.polled got
    · exact Steps.left transport
    · simp only
      split_ifs
      · exact Steps.left transport
      · exact Steps.idle rt
  | pollAppEvent =>
    rw [step, pollAppEvent]
    split_ifs
    · cases got : rt.appEvents.recv with
      | none => exact Steps.idle rt
      | some taken =>
        exact Steps.front { rt.inFront with appEvents := taken.2 } ⟨id, rfl⟩
          (by simp [Seen.IsFront.shown])
    · exact Steps.idle rt
  | leave transport => exact Steps.left transport
  | closeCommands => exact quiet { rt.inFront with commandsOpen := false } ⟨id, rfl⟩
  | closeEvents => exact quiet { rt.inFront with eventsOpen := false } ⟨id, rfl⟩
  | closeAppEvents => exact quiet { rt.inFront with appEventsOpen := false } ⟨id, rfl⟩

end

section

variable (sha256 : Bytes → Key32) (peerId : PeerId) (rateLimiting : RateLimitConfig)
  (buffers : Buffers) (transports : ℕ) (instants : TaskId → ℕ)

/-- What every step of a wired runtime keeps, between the state and what each step so far
showed, holds after every run from the start. -/
theorem run_rule {I : DecomposedRuntime → List (List Seen) → Prop}
    (hstep : ∀ rt rt' log seen, rt.Wired → I rt log → Steps sha256 rt rt' seen →
      I rt' (log ++ [seen]))
    (hinit : I (start peerId rateLimiting buffers transports instants) []) (acts : List Act) :
    I (run (step sha256) (start peerId rateLimiting buffers transports instants) acts)
      (outputs (step sha256) (start peerId rateLimiting buffers transports instants) acts) := by
  have wired := Wired.start peerId rateLimiting buffers transports instants
  refine outputs_invariant (fun rt act h => h.steps (h.steps_step act)) ?_ wired hinit acts
  exact fun rt log act h hI => hstep _ _ _ _ h hI (h.steps_step act)

/-- The same for the log, one action after the other. -/
theorem log_rule {I : DecomposedRuntime → List Seen → Prop}
    (hstep : ∀ rt rt' log seen, rt.Wired → I rt log → Steps sha256 rt rt' seen →
      I rt' (log ++ seen))
    (hinit : I (start peerId rateLimiting buffers transports instants) []) (acts : List Act) :
    I (run (step sha256) (start peerId rateLimiting buffers transports instants) acts)
      ((start peerId rateLimiting buffers transports instants).log sha256 acts) := by
  refine run_rule sha256 peerId rateLimiting buffers transports instants
    (I := fun rt log => I rt log.flatten) ?_ hinit acts
  intro rt rt' log seen wired h hsteps
  rw [List.flatten_append, List.flatten_singleton]
  exact hstep rt rt' log.flatten seen wired h hsteps

/-- The tasks stay wired. -/
theorem wired_run (acts : List Act) :
    (run (step sha256) (start peerId rateLimiting buffers transports instants) acts).Wired :=
  log_rule sha256 peerId rateLimiting buffers transports instants (I := fun rt _ => rt.Wired)
    (fun _ _ _ _ h _ hsteps => h.steps hsteps)
    (Wired.start peerId rateLimiting buffers transports instants) acts

end

end DecomposedRuntime

end Bitchat
