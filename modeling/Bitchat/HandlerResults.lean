import Bitchat.ConnectionReports
import Bitchat.CoreCounters

/-!
# What a handler can return

Apart from the packet of a message to a connected peer, the core only ever tells the
transports to start or stop something. No input has more than two effects and one
application event.
-/
namespace Bitchat
open Rust

/-- The effect carries no data: it starts, stops, pauses or resumes something. -/
def Effect.IsControl : Effect → Prop
  | .startTransportDiscovery _ => True
  | .stopTransportDiscovery _ => True
  | .startListening _ => True
  | .stopListening _ => True
  | .pauseTransport _ => True
  | .resumeTransport _ => True
  | _ => False

/-- The event says that a message went out. -/
def AppEvent.IsSent : AppEvent → Prop
  | .messageSent _ _ _ => True
  | _ => False

/-- At most two effects and one event. -/
structure Few (handled : Handled) : Prop where
  effects : handled.1.length ≤ 2
  appEvents : handled.2.length ≤ 1

/-- Nothing goes out. -/
structure Controls (handled : Handled) : Prop extends Few handled where
  control : ∀ e ∈ handled.1, e.IsControl
  notSent : ∀ a ∈ handled.2, ¬ a.IsSent

/-- If the call succeeds, its results are as told. -/
def Yields (told : Handled → Prop) (result : BitchatResult Handled) : Prop :=
  ∀ handled, result = .ok handled → told handled

section

variable {told : Handled → Prop}

theorem yields_error (e : Fault BitchatError) : Yields told (.error e) := by
  intro handled h
  cases h

theorem yields_ok {handled : Handled} (h : told handled) : Yields told (.ok handled) := by
  rintro _ ⟨⟩
  exact h

theorem yields_andThen {σ α : Type} {c : Call BitchatError σ α}
    {next : σ → α → Call BitchatError σ Handled} (h : ∀ s a, Yields told (next s a).2) :
    Yields told (c.andThen next).2 := by
  obtain ⟨s, e | a⟩ := c
  · exact yields_error e
  · exact h s a

/-- One event for the application, which says nothing of a message that went out. -/
theorem controls_told {a : AppEvent} (h : ¬ a.IsSent) : Controls ([], [a]) where
  effects := by simp
  appEvents := by simp
  control := by simp
  notSent := by simpa using h

theorem yields_reportError (error : String) : Yields Controls (reportError error) :=
  yields_ok (controls_told id)

theorem yields_reportStatus (p : PeerId) (status : ConnectionStatus)
    (transport : Option ChannelTransportType) :
    Yields Controls (reportStatus p status transport) :=
  yields_ok (controls_told id)

theorem yields_nothing : Yields Controls (.ok ([], [])) :=
  yields_ok ⟨⟨by simp, by simp⟩, by simp, by simp⟩

theorem Yields.few {result : BitchatResult Handled} (h : Yields Controls result) :
    Yields Few result := fun handled hok => (h handled hok).toFew

end

namespace CommandHandlers

variable {H T : Type} (sha256 : Bytes → Key32) (noise : NoiseLibrary H T) (s : CoreState H T)

theorem few_sendStored (c : ConnectionState) (p : PeerId) (message : ContentAddressedMessage)
    (now : Timestamp) : Yields Few (sendStored noise s c p message now).2 := by
  unfold sendStored
  split
  · exact yields_ok ⟨by simp, by simp⟩
  · exact (yields_reportError _).few
  · exact yields_error _

theorem few_handleSendMessage (p : PeerId) (content : Text) (now : Timestamp) :
    Yields Few (handleSendMessage sha256 noise s p content now).2 := by
  unfold handleSendMessage
  cases s.connection p with
  | none => exact (yields_reportError _).few
  | some c =>
    simp only
    split_ifs
    · exact (yields_reportError _).few
    · apply yields_andThen
      intro s sequence
      apply yields_andThen
      intro s _
      exact few_sendStored noise _ c p _ now

/-- A message to a peer that is not connected goes nowhere. -/
theorem controls_handleSendMessage {p : PeerId}
    (unconnected : ∀ c, s.connection p = some c → c.canSendMessages = false) (content : Text)
    (now : Timestamp) : Yields Controls (handleSendMessage sha256 noise s p content now).2 := by
  unfold handleSendMessage
  cases hentry : s.connection p with
  | none => exact yields_reportError _
  | some c =>
    simp only [unconnected c hentry, if_true]
    exact yields_reportError _

theorem controls_handleConnectToPeer (p : PeerId) (now : Timestamp) :
    Yields Controls (handleConnectToPeer s p now).2 := by
  unfold handleConnectToPeer
  simp only
  split
  · exact yields_nothing
  · exact yields_reportError _
  · exact yields_error _

theorem controls_handleDisconnectFromPeer (p : PeerId) (now : Timestamp) :
    Yields Controls (handleDisconnectFromPeer s p now).2 := by
  unfold handleDisconnectFromPeer
  cases s.connection p with
  | none => exact yields_reportStatus p _ _
  | some c =>
    simp only
    split
    · exact yields_reportStatus p _ _
    · exact yields_reportStatus p _ _
    · exact yields_error _

theorem controls_acceptMessage (message : BitchatResult ContentAddressedMessage)
    (now : Timestamp) : Yields Controls (acceptMessage sha256 s message now).2 := by
  unfold acceptMessage
  apply yields_andThen
  intro s message
  apply yields_andThen
  intro s _
  exact yields_ok (controls_told id)

/-- No event makes the core send anything. -/
theorem controls_handleEvent (event : Event) (now : Timestamp) :
    Yields Controls (handleEvent sha256 s event now).2 := by
  cases event with
  | peerDiscovered p transport signalStrength =>
    apply yields_andThen
    intro s _
    exact yields_reportStatus p _ _
  | messageReceived sender content transport messageId recipient timestamp sequence =>
    apply yields_andThen
    intro s _
    exact controls_acceptMessage sha256 _ _ now
  | bitchatPacketReceived sender packet transport =>
    apply yields_andThen
    intro s _
    exact controls_acceptMessage sha256 _ _ now
  | connectionEstablished p transport =>
    apply yields_andThen
    intro s _
    exact yields_reportStatus p _ _
  | connectionLost p transport reason =>
    apply yields_andThen
    intro s _
    exact yields_reportStatus p _ _
  | transportError transport error => exact yields_reportError error
  | transportHealthCheckCompleted _ => exact yields_nothing
  | transportMetricsUpdated _ => exact yields_nothing
  | transportFailoverOccurred _ _ => exact yields_nothing

end CommandHandlers

namespace CoreLogicTask

open CommandHandlers

variable {H T : Type} (sha256 : Bytes → Key32) (noise : NoiseLibrary H T)
  (task : CoreLogicTask H T)

/-- Only a message to a connected peer makes the core send anything. -/
theorem controls_receive (received : Input × Surroundings)
    (unconnected : ∀ p content, received.1 = .command (.sendMessage p content) →
      ∀ c, task.state.connection p = some c → c.canSendMessages = false) :
    Yields Controls (task.receive sha256 noise received).2 := by
  obtain ⟨command | event, env⟩ := received
  · cases command with
    | sendMessage p content =>
      exact controls_handleSendMessage sha256 noise task.countCommand.state
        (unconnected p content rfl) content env.now
    | connectToPeer p => exact controls_handleConnectToPeer task.countCommand.state p env.now
    | disconnectFromPeer p =>
      exact controls_handleDisconnectFromPeer task.countCommand.state p env.now
    | startDiscovery =>
      exact yields_ok ⟨⟨by simp, by simp⟩, by simp [Effect.IsControl], by simp [AppEvent.IsSent]⟩
    | stopDiscovery =>
      exact yields_ok ⟨⟨by simp, by simp⟩, by simp [Effect.IsControl], by simp [AppEvent.IsSent]⟩
    | shutdown => exact yields_ok ⟨⟨by simp, by simp⟩, by simp [Effect.IsControl], by simp⟩
    | pauseTransport transport =>
      exact yields_ok ⟨⟨by simp, by simp⟩, by simp [Effect.IsControl], by simp⟩
    | resumeTransport transport =>
      exact yields_ok ⟨⟨by simp, by simp⟩, by simp [Effect.IsControl], by simp⟩
    | getSystemStatus => exact yields_ok (controls_told id)
    | queryMessageStatus messageId => exact yields_ok (controls_told id)
    | queryPeerSession p => exact yields_ok (controls_told id)
    | queryDeliveryStatus p => exact yields_ok (controls_told id)
    | queryInternalState => exact yields_ok (controls_told id)
  · apply yields_andThen
    intro task _
    exact controls_handleEvent sha256 task.state event env.now

theorem few_receive (received : Input × Surroundings) :
    Yields Few (task.receive sha256 noise received).2 := by
  by_cases hsend : ∃ p content, received.1 = .command (.sendMessage p content)
  · obtain ⟨p, content, hinput⟩ := hsend
    obtain ⟨input, env⟩ := received
    obtain rfl : input = .command (.sendMessage p content) := hinput
    exact few_handleSendMessage sha256 noise task.countCommand.state p content env.now
  · apply Yields.few
    apply controls_receive
    intro p content hinput
    exact absurd ⟨p, content, hinput⟩ hsend

/-- While no peer is connected nothing goes out. -/
theorem OnlyIdle.controls {task : CoreLogicTask H T} (h : task.OnlyIdle)
    (received : Input × Surroundings) : Yields Controls (task.step sha256 noise received).2 := by
  rw [step_eq_receive, result_andThen_emit]
  apply controls_receive
  intro p content _ c hc
  have idle := h.idle p c hc
  cases c with
  | disconnected => rfl
  | discovering => rfl
  | _ => exact absurd idle id

end CoreLogicTask

end Bitchat
