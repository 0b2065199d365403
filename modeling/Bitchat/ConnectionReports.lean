import Bitchat.CoreLogicTask

/-!
# What the core reports about connections

The status events and the effects that the handlers return, beside the
connection states that they leave. No handler initiates a connection, so that a
reachable task knows its peers as disconnected or being discovered only.
-/
namespace Bitchat
open Rust

namespace ConnectionState

/-- No attempt to connect was made yet. -/
def Idle : ConnectionState → Prop
  | .disconnected _ => True
  | .discovering _ => True
  | _ => False

/-- The events that take an idle state further. -/
def LeavesIdle : ConnectionEvent → Prop
  | .initiateConnection _ _ => True
  | .timeout => True
  | _ => False

theorem idle_newDisconnected (p : PeerId) : (newDisconnected p).Idle := trivial

/-- The other events keep a state idle. -/
theorem idle_transition {s : ConnectionState} {event : ConnectionEvent} {now : Timestamp}
    {t : StateTransition} (idle : s.Idle) (stays : ¬ LeavesIdle event)
    (h : s.transition event now = .ok t) : t.newState.Idle := by
  have hs := transition_eq_ok h
  cases s with
  | disconnected s =>
    cases event with
    | startDiscovery timeoutSeconds =>
      obtain ⟨deadline, _, hnew⟩ := bind_eq_ok.mp hs
      rw [← (Prod.mk.inj (Except.ok.inj hnew)).1]
      trivial
    | disconnect =>
      rw [← (Prod.mk.inj (Except.ok.inj hs)).1]
      trivial
    | _ => cases hs
  | discovering s =>
    cases event with
    | peerDiscovered transport signalStrength =>
      rw [← (Prod.mk.inj (Except.ok.inj hs)).1]
      trivial
    | disconnect =>
      rw [← (Prod.mk.inj (Except.ok.inj hs)).1]
      trivial
    | initiateConnection => exact absurd trivial stays
    | timeout => exact absurd trivial stays
    | _ => cases hs
  | connecting s => exact absurd idle id
  | connected s => exact absurd idle id
  | failed s => exact absurd idle id

end ConnectionState

namespace CoreLogicTask
open CommandHandlers

variable {H T : Type} (sha256 : Bytes → Key32) (noise : NoiseLibrary H T)
  {task : CoreLogicTask H T}

/-- The entry that the handler of an input takes out. -/
def taken (task : CoreLogicTask H T) (input : Input) (p : PeerId) : Option ConnectionState :=
  match input with
  | .command (.connectToPeer _) =>
    some ((task.state.connection p).getD (ConnectionState.newDisconnected p))
  | .command _ => task.state.connection p
  | .event event => takenBy task.state event p

/-- Handling the input applies a transition of the peer's state. -/
def Applies (task : CoreLogicTask H T) (received : Input × Surroundings) (p : PeerId)
    (t : StateTransition) : Prop :=
  task.Admits received ∧ ∃ fed c, received.1.feeds = some (p, fed) ∧
    task.taken received.1 p = some c ∧ c.transition fed received.2.now = .ok t

theorem settled_eq_some {p : PeerId} {c c' : ConnectionState} {fed : ConnectionEvent}
    {now : Timestamp} (h : CoreState.settled p c fed now = some c') :
    c' = ConnectionState.newDisconnected p ∨
      ∃ t, c.transition fed now = .ok t ∧ c' = t.newState := by
  unfold CoreState.settled at h
  cases ht : c.transition fed now with
  | ok t =>
    rw [ht] at h
    exact .inr ⟨t, rfl, (Option.some.inj h).symm⟩
  | error e =>
    rw [ht] at h
    cases e with
    | err e => exact .inl (Option.some.inj h).symm
    | panic => cases h

/-- An admitted event settles the entry that its handler takes out. -/
theorem connection_of_admitted (own : task.state.OwnEntries) {event : Event} {env : Surroundings}
    {p : PeerId} {fed : ConnectionEvent}
    (admitted : (task.checkRateLimit event env).2 = .ok ()) (hfed : fedBy event = some (p, fed)) :
    (task.step sha256 noise (.event event, env)).1.state.connection p =
      (task.taken (.event event) p).bind fun c => CoreState.settled p c fed env.now := by
  have entries := connection_handleEvent sha256 (s := task.countEvent.state) own event env.now p
  simp only [hfed, if_pos] at entries
  rw [step, connection_processEvent_of_admitted sha256 admitted]
  exact entries

/-- An entry of the table was there before the input, or is a new disconnected state, or comes
from a transition that the input applies. -/
def Explains (task : CoreLogicTask H T) (received : Input × Surroundings) (q : PeerId)
    (c : ConnectionState) : Prop :=
  task.state.connection q = some c ∨ c = ConnectionState.newDisconnected q ∨
    ∃ t, task.Applies received q t ∧ c = t.newState

theorem explains_command (own : task.state.OwnEntries) (command : Command) (env : Surroundings)
    {q : PeerId} {c : ConnectionState}
    (h : (task.step sha256 noise (.command command, env)).1.state.connection q = some c) :
    task.Explains (.command command, env) q c := by
  have entries := connection_processCommand sha256 noise own command env.now q
  rw [step, entries] at h
  cases command with
  | connectToPeer p =>
    by_cases hq : q = p
    · subst hq
      simp only [if_pos, CoreState.successorEntry] at h
      split at h
      · rename_i t ht
        exact .inr (.inr ⟨t, ⟨trivial, _, _, rfl, rfl, ht⟩, (Option.some.inj h).symm⟩)
      · cases h
    · exact .inl ((if_neg hq).symm.trans h)
  | disconnectFromPeer p =>
    by_cases hq : q = p
    · subst hq
      simp only [if_pos] at h
      obtain ⟨old, hold, rfl⟩ := Option.map_eq_some_iff.mp h
      obtain ⟨t, ht, hnew⟩ := old.transition_disconnect env.now
      rw [own q old hold] at hnew
      exact .inr (.inr ⟨t, ⟨trivial, _, old, rfl, hold, ht⟩, hnew.symm⟩)
    · exact .inl ((if_neg hq).symm.trans h)
  | _ => exact .inl h

theorem explains_event (own : task.state.OwnEntries) (event : Event) (env : Surroundings)
    {q : PeerId} {c : ConnectionState}
    (h : (task.step sha256 noise (.event event, env)).1.state.connection q = some c) :
    task.Explains (.event event, env) q c := by
  by_cases admitted : (task.checkRateLimit event env).2 = .ok ()
  · have entries := connection_handleEvent sha256 (s := task.countEvent.state) own event env.now q
    rw [step, connection_processEvent_of_admitted sha256 admitted, entries] at h
    cases hfed : fedBy event with
    | none =>
      rw [hfed] at h
      exact .inl h
    | some concern =>
      obtain ⟨p, fed⟩ := concern
      simp only [hfed] at h
      by_cases hq : q = p
      · subst hq
        rw [if_pos rfl] at h
        obtain ⟨old, htaken, hsettled⟩ := Option.bind_eq_some_iff.mp h
        rcases settled_eq_some hsettled with hnew | ⟨t, ht, hnew⟩
        · exact .inr (.inl hnew)
        · exact .inr (.inr ⟨t, ⟨admitted, fed, old, hfed, htaken, ht⟩, hnew⟩)
      · exact .inl ((if_neg hq).symm.trans h)
  · rw [step, connection_processEvent_of_refused sha256 admitted] at h
    exact .inl h

theorem connection_step (own : task.state.OwnEntries) (received : Input × Surroundings)
    {q : PeerId} {c : ConnectionState}
    (h : (task.step sha256 noise received).1.state.connection q = some c) :
    task.Explains received q c := by
  obtain ⟨command | event, env⟩ := received
  · exact explains_command sha256 noise own command env h
  · exact explains_event sha256 noise own event env h

/-- A transition that is applied leaves its successor in the table. -/
theorem connection_of_applies (own : task.state.OwnEntries) {received : Input × Surroundings}
    {p : PeerId} {t : StateTransition} (h : task.Applies received p t) :
    (task.step sha256 noise received).1.state.connection p = some t.newState := by
  obtain ⟨command | event, env⟩ := received
  · obtain ⟨_, fed, c, hfed, htaken, ht⟩ := h
    have entries := connection_processCommand sha256 noise own command env.now p
    rw [step, entries]
    cases command with
    | connectToPeer q =>
      obtain ⟨rfl, rfl⟩ := Prod.mk.inj (Option.some.inj hfed)
      cases htaken
      simp only [if_pos, CoreState.successorEntry, ht]
    | disconnectFromPeer q =>
      obtain ⟨rfl, rfl⟩ := Prod.mk.inj (Option.some.inj hfed)
      obtain ⟨t', ht', hnew⟩ := c.transition_disconnect env.now
      have known : task.state.connection q = some c := htaken
      rw [own q c known] at hnew
      rw [Except.ok.inj (ht.symm.trans ht'), hnew]
      simp [known]
    | _ => cases hfed
  · obtain ⟨admitted, fed, c, hfed, htaken, ht⟩ := h
    have settles := connection_of_admitted sha256 noise own admitted hfed
    rw [settles, htaken, Option.bind_some, CoreState.settled, ht]

/-- Every entry belongs to its peer and is idle. -/
structure OnlyIdle (task : CoreLogicTask H T) : Prop where
  own : task.state.OwnEntries
  idle : ∀ p c, task.state.connection p = some c → c.Idle

theorem feeds_stays {input : Input} {p : PeerId} {fed : ConnectionEvent}
    (h : input.feeds = some (p, fed)) : ¬ ConnectionState.LeavesIdle fed := by
  intro leaves
  cases input with
  | command command => cases command <;> cases h <;> exact leaves
  | event event => cases event <;> cases h <;> exact leaves

theorem OnlyIdle.taken (h : task.OnlyIdle) {input : Input} {p : PeerId} {c : ConnectionState}
    (hc : task.taken input p = some c) : c.Idle := by
  have fresh : ((task.state.connection p).getD (ConnectionState.newDisconnected p)).Idle := by
    cases hold : task.state.connection p with
    | none => exact ConnectionState.idle_newDisconnected p
    | some old => exact h.idle p old hold
  cases input with
  | command command =>
    cases command with
    | connectToPeer => exact Option.some.inj hc ▸ fresh
    | _ => exact h.idle p c hc
  | event event =>
    cases event with
    | peerDiscovered => exact Option.some.inj hc ▸ fresh
    | _ => exact h.idle p c hc

theorem onlyIdle_step (h : task.OnlyIdle) (received : Input × Surroundings) :
    (task.step sha256 noise received).1.OnlyIdle where
  own := ownEntries_step sha256 noise h.own received
  idle := by
    intro p c hc
    rcases connection_step sha256 noise h.own received hc with
      hold | rfl | ⟨t, ⟨_, fed, old, hfed, hold, ht⟩, rfl⟩
    · exact h.idle p c hold
    · exact ConnectionState.idle_newDisconnected p
    · exact ConnectionState.idle_transition (h.taken hold) (feeds_stays hfed) ht

section

variable {peerId : PeerId} {localKey : Key32} {config : RateLimitConfig} {startTime : Timestamp}

theorem onlyIdle_of_reachable
    (reach : Reachable (step sha256 noise) (new peerId localKey config startTime) task) :
    task.OnlyIdle := by
  apply Reachable.invariant (I := OnlyIdle) ?_ ?_ reach
  · intro task received h
    exact onlyIdle_step sha256 noise h received
  · refine ⟨CoreState.ownEntries_new peerId localKey, ?_⟩
    intro p c hc
    exact absurd ((CoreState.connection_new peerId localKey p).symm.trans hc) (by simp)

/-- No connection is ever established, whatever the task goes through. -/
theorem never_connected
    (reach : Reachable (step sha256 noise) (new peerId localKey config startTime) task)
    (p : PeerId) (c : ConnectedState) : task.state.connection p ≠ some (.connected c) := by
  intro h
  exact (onlyIdle_of_reachable sha256 noise reach).idle p _ h

end

/-- What the transitions ask for is returned, to be handed to the transports. -/
def ReturnsEffects (task : CoreLogicTask H T) (received : Input × Surroundings) : Prop :=
  ∀ p t, task.Applies received p t → ∀ effect ∈ t.effects, ∃ handled,
    (task.step sha256 noise received).2 = .ok handled ∧ effect ∈ handled.1

/-- A connect request for a peer, followed by its discovery and by the
establishment of the connection, with other inputs in between. -/
structure ConnectRequest where
  peerId : PeerId
  found : ChannelTransportType
  signalStrength : Option Int8
  established : ChannelTransportType
  atConnect : Surroundings
  atDiscovery : Surroundings
  atEstablishment : Surroundings
  afterConnect : List (Input × Surroundings)
  afterDiscovery : List (Input × Surroundings)

def ConnectRequest.inputs (r : ConnectRequest) : List (Input × Surroundings) :=
  (.command (.connectToPeer r.peerId), r.atConnect) :: r.afterConnect ++
    (.event (.peerDiscovered r.peerId r.found r.signalStrength), r.atDiscovery) ::
      r.afterDiscovery ++
    [(.event (.connectionEstablished r.peerId r.established), r.atEstablishment)]

/-- The discovery deadline of the request fits a timestamp. -/
def ConnectRequest.InTime (r : ConnectRequest) : Prop :=
  r.atConnect.now.asMillis.toNat + 60 < 2 ^ 64

def EndsConnected (task : CoreLogicTask H T) (p : PeerId) (inputs : List (Input × Surroundings)) :
    Prop :=
  ∃ c, (run (step sha256 noise) task inputs).state.connection p = some (.connected c)

/-- The transition of a request of an unknown or disconnected peer. -/
theorem applies_connect {p : PeerId} {env : Surroundings}
    (prior : task.state.connection p = none ∨
      ∃ s, task.state.connection p = some (.disconnected s))
    (inTime : env.now.asMillis.toNat + 60 < 2 ^ 64) :
    ∃ t, task.Applies (.command (.connectToPeer p), env) p t ∧
      t.effects = [.startTransportDiscovery .ble, .startTransportDiscovery .nostr] := by
  have deadline : (env.now.plus 60 : Outcome InvalidTransition Timestamp) =
      .ok ⟨env.now.asMillis + 60⟩ := if_pos inTime
  have accepted : ∀ s : DisconnectedState, ∃ t,
      (ConnectionState.disconnected s).transition startDiscovery env.now = .ok t ∧
        t.effects = [.startTransportDiscovery .ble, .startTransportDiscovery .nostr] := by
    intro s
    simp only [ConnectionState.transition, startDiscovery, ConnectionState.successor,
      ConnectionState.discoveryDeadline, deadline]
    exact ⟨_, rfl, rfl⟩
  have disconnected : ∃ s, (task.state.connection p).getD (ConnectionState.newDisconnected p) =
      .disconnected s := by
    rcases prior with absent | ⟨s, known⟩
    · exact ⟨_, by rw [absent]; rfl⟩
    · exact ⟨s, by rw [known]; rfl⟩
  obtain ⟨s, hs⟩ := disconnected
  obtain ⟨t, ht, effects⟩ := accepted s
  exact ⟨t, ⟨trivial, startDiscovery, _, rfl, congrArg some hs, ht⟩, effects⟩

theorem result_andThen_emit (c : Call BitchatError (CoreLogicTask H T) Handled) :
    (c.andThen emit).2 = c.2 := by
  obtain ⟨task, e | handled⟩ := c <;> rfl

/-- A connect request returns no effects. -/
theorem no_effects_of_connect (p : PeerId) (env : Surroundings) {handled : Handled}
    (h : (task.step sha256 noise (.command (.connectToPeer p), env)).2 = .ok handled) :
    handled.1 = [] := by
  have result : (handleConnectToPeer task.countCommand.state p env.now).2 = .ok handled :=
    (result_andThen_emit _).symm.trans h
  unfold handleConnectToPeer at result
  simp only at result
  split at result
  · cases result
    rfl
  · cases result
    rfl
  · cases result

section

variable {peerId : PeerId} {localKey : Key32} {config : RateLimitConfig} {startTime : Timestamp}

/-- A connect request never leads to a connection, and the transports are never
told to look for the peer. -/
theorem connect_request_never_usable
    (reach : Reachable (step sha256 noise) (new peerId localKey config startTime) task)
    (r : ConnectRequest)
    (prior : task.state.connection r.peerId = none ∨
      ∃ s, task.state.connection r.peerId = some (.disconnected s)) :
    ¬ task.EndsConnected sha256 noise r.peerId r.inputs ∧
      (r.InTime → ¬ Along (step sha256 noise) (ReturnsEffects sha256 noise) task r.inputs) := by
  constructor
  · rintro ⟨c, hc⟩
    obtain ⟨before, rfl⟩ := reach
    exact never_connected sha256 noise ⟨before ++ r.inputs, run_append _ _ _⟩ _ c hc
  · intro inTime along
    obtain ⟨t, applies, effects⟩ := applies_connect prior inTime
    have first : .startTransportDiscovery .ble ∈ t.effects := by simp [effects]
    obtain ⟨handled, result, returned⟩ := along.1 _ t applies _ first
    rw [no_effects_of_connect sha256 noise _ _ result] at returned
    cases returned

end

/-- A request for a peer that nothing is known of. -/
def plainRequest : ConnectRequest where
  peerId := remotePeer
  found := .ble
  signalStrength := none
  established := .ble
  atConnect := callAt 1700000000000
  atDiscovery := callAt 1700000001000
  atEstablishment := callAt 1700000002000
  afterConnect := []
  afterDiscovery := []

theorem plainRequest_never_usable :
    ¬ startedTask.EndsConnected MessageStore.lastByteDigest NoiseLibrary.masked remotePeer
        plainRequest.inputs ∧
      ¬ Along (step MessageStore.lastByteDigest NoiseLibrary.masked)
        (ReturnsEffects MessageStore.lastByteDigest NoiseLibrary.masked) startedTask
        plainRequest.inputs := by
  have reach : Reachable (step MessageStore.lastByteDigest NoiseLibrary.masked) startedTask
      startedTask := ⟨[], rfl⟩
  have general := connect_request_never_usable MessageStore.lastByteDigest NoiseLibrary.masked
    reach plainRequest (.inl rfl)
  exact ⟨general.1, general.2 (by decide : 1700000000000 + 60 < 2 ^ 64)⟩

/-- The three inputs leave the peer disconnected, and none returns an effect,
though the connect request started a discovery. -/
theorem connect_request_ends_disconnected :
    (run (step MessageStore.lastByteDigest NoiseLibrary.masked) startedTask
        plainRequest.inputs).state.connection remotePeer =
      some (ConnectionState.newDisconnected remotePeer) ∧
    (outputs (step MessageStore.lastByteDigest NoiseLibrary.masked) startedTask
        plainRequest.inputs) =
      [.ok ([], []), reportStatus remotePeer .discovering (some .ble),
        reportStatus remotePeer .connected (some .ble)] ∧
    ∃ t, startedTask.Applies (.command (.connectToPeer remotePeer), callAt 1700000000000)
        remotePeer t ∧
      t.effects = [.startTransportDiscovery .ble, .startTransportDiscovery .nostr] :=
  ⟨rfl, rfl, _, ⟨trivial, _, _, rfl, rfl, rfl⟩, rfl⟩

/-- The status says what the entry is. -/
def Agrees (status : ConnectionStatus) (entry : Option ConnectionState) : Prop :=
  (status = .connected ↔ ∃ c, entry = some (.connected c)) ∧
  (status = .discovering ↔ ∃ c, entry = some (.discovering c)) ∧
  (status = .error ↔ ∃ c, entry = some (.failed c)) ∧
  (status = .disconnected ↔ entry = none ∨ ∃ c, entry = some (.disconnected c))

/-- Every status that is reported for an input agrees with the entry it leaves. -/
def ReportsAgree (task : CoreLogicTask H T) (received : Input × Surroundings) : Prop :=
  ∀ handled p status transport, (task.step sha256 noise received).2 = .ok handled →
    .peerStatusChanged p status transport ∈ handled.2 →
      Agrees status ((task.step sha256 noise received).1.state.connection p)

/-- A discovery finds its peer being discovered already, an establishment is
refused by the rate limiter, and no loss is reported. -/
def ReportsTruly (task : CoreLogicTask H T) (received : Input × Surroundings) : Prop :=
  match received.1 with
  | .event (.peerDiscovered p _ _) => ∃ c, task.state.connection p = some (.discovering c)
  | .event (.connectionEstablished p _) =>
    (task.rateLimiter.checkConnectionAllowed p received.2.instant received.2.order).2 ≠ .ok ()
  | .event (.connectionLost _ _ _) => False
  | _ => True

theorem not_agrees_of_disconnected {status : ConnectionStatus} {entry : Option ConnectionState}
    (h : entry = none ∨ ∃ c, entry = some (.disconnected c)) (other : status ≠ .disconnected) :
    ¬ Agrees status entry :=
  fun agrees => other (agrees.2.2.2.mpr h)

theorem agrees_disconnected {entry : Option ConnectionState}
    (h : entry = none ∨ ∃ c, entry = some (.disconnected c)) : Agrees .disconnected entry := by
  rcases h with rfl | ⟨c, rfl⟩ <;> simp [Agrees]

theorem agrees_discovering (c : DiscoveringState) :
    Agrees .discovering (some (.discovering c)) := by
  simp [Agrees]

/-- The result reports no status. -/
def Silent (result : BitchatResult Handled) : Prop :=
  ∀ handled, result = .ok handled → ∀ p status transport,
    AppEvent.peerStatusChanged p status transport ∉ handled.2

theorem silent_error (e : Fault BitchatError) : Silent (.error e) := by
  intro handled h
  cases h

theorem silent_ok {handled : Handled}
    (h : ∀ p status transport, AppEvent.peerStatusChanged p status transport ∉ handled.2) :
    Silent (.ok handled) := by
  rintro _ ⟨⟩
  exact h

theorem silent_reportError (error : String) : Silent (reportError error) :=
  silent_ok (by simp)

theorem silent_andThen {σ α : Type} {c : Call BitchatError σ α}
    {next : σ → α → Call BitchatError σ Handled} (h : ∀ s a, Silent (next s a).2) :
    Silent (c.andThen next).2 := by
  obtain ⟨s, e | a⟩ := c
  · exact silent_error e
  · exact h s a

theorem silent_sendStored (s : CoreState H T) (connection : ConnectionState) (recipient : PeerId)
    (message : ContentAddressedMessage) (now : Timestamp) :
    Silent (sendStored noise s connection recipient message now).2 := by
  unfold sendStored
  split
  · exact silent_ok (by simp)
  · exact silent_reportError _
  · exact silent_error _

theorem silent_handleSendMessage (s : CoreState H T) (recipient : PeerId) (content : Text)
    (now : Timestamp) : Silent (handleSendMessage sha256 noise s recipient content now).2 := by
  unfold handleSendMessage
  cases s.connection recipient with
  | none => exact silent_reportError _
  | some connection =>
    simp only
    split_ifs
    · exact silent_reportError _
    · apply silent_andThen
      intro s sequence
      apply silent_andThen
      intro s stored
      exact silent_sendStored noise _ connection recipient _ now

theorem silent_handleConnectToPeer (s : CoreState H T) (p : PeerId) (now : Timestamp) :
    Silent (handleConnectToPeer s p now).2 := by
  unfold handleConnectToPeer
  simp only
  split
  · exact silent_ok (by simp)
  · exact silent_reportError _
  · exact silent_error _

theorem silent_acceptMessage (s : CoreState H T) (message : BitchatResult ContentAddressedMessage)
    (now : Timestamp) : Silent (acceptMessage sha256 s message now).2 := by
  apply silent_andThen
  intro s message
  apply silent_andThen
  intro s stored
  exact silent_ok (by simp)

theorem silent_handleMessageReceived (s : CoreState H T) (sender : PeerId) (content : Text)
    (messageId : Option MessageId) (recipient : Option PeerId)
    (timestamp sequence : Option UInt64) (now : Timestamp) :
    Silent (handleMessageReceived sha256 s sender content messageId recipient timestamp sequence
      now).2 := by
  apply silent_andThen
  intro s _
  exact silent_acceptMessage sha256 _ _ now

theorem silent_handleBitchatPacketReceived (s : CoreState H T) (sender : PeerId)
    (packet : BitchatPacket) (now : Timestamp) :
    Silent (handleBitchatPacketReceived sha256 s sender packet now).2 := by
  apply silent_andThen
  intro s _
  exact silent_acceptMessage sha256 _ _ now

theorem reportsAgree_of_silent {received : Input × Surroundings}
    (h : Silent (task.step sha256 noise received).2) : task.ReportsAgree sha256 noise received := by
  intro handled p status transport result reported
  exact absurd reported (h handled result p status transport)

theorem reportsAgree_iff_agrees {received : Input × Surroundings} {p : PeerId}
    {status : ConnectionStatus} {transport : Option ChannelTransportType}
    (h : (task.step sha256 noise received).2 = reportStatus p status transport) :
    task.ReportsAgree sha256 noise received ↔
      Agrees status ((task.step sha256 noise received).1.state.connection p) := by
  constructor
  · intro agree
    exact agree _ p status transport h (List.mem_singleton.mpr rfl)
  · intro agrees handled q status' transport' result reported
    rw [← Except.ok.inj (h.symm.trans result)] at reported
    cases List.mem_singleton.mp reported
    exact agrees

theorem result_of_admitted {event : Event} {env : Surroundings}
    (admitted : (task.checkRateLimit event env).2 = .ok ()) :
    (task.step sha256 noise (.event event, env)).2 =
      (handleEvent sha256 task.countEvent.state event env.now).2 := by
  have counted := (checkRateLimit_countEvent event env).trans admitted
  change (task.processEvent sha256 event env).2 = _
  rw [processEvent, Call.andThen_of_ok _ counted, result_andThen_emit, onState,
    state_checkRateLimit]

theorem reportsAgree_of_refused {event : Event} {env : Surroundings}
    (refused : (task.checkRateLimit event env).2 ≠ .ok ()) :
    task.ReportsAgree sha256 noise (.event event, env) := by
  apply reportsAgree_of_silent
  cases result : (task.countEvent.checkRateLimit event env).2 with
  | ok u => exact absurd ((checkRateLimit_countEvent event env).symm.trans result) refused
  | error e =>
    change Silent (task.processEvent sha256 event env).2
    rw [processEvent, Call.andThen_of_error _ result]
    exact silent_error e

/-- An event whose handler reports no status. -/
theorem reportsAgree_of_quiet {event : Event} {env : Surroundings}
    (h : ∀ s : CoreState H T, Silent (handleEvent sha256 s event env.now).2) :
    task.ReportsAgree sha256 noise (.event event, env) := by
  by_cases admitted : (task.checkRateLimit event env).2 = .ok ()
  · apply reportsAgree_of_silent
    rw [result_of_admitted sha256 noise admitted]
    exact h task.countEvent.state
  · exact reportsAgree_of_refused sha256 noise admitted

theorem feedOrReset_result {s : CoreState H T} {p : PeerId} {c : ConnectionState}
    {fed : ConnectionEvent} {now : Timestamp} (h : c.transition fed now ≠ panicked) :
    (s.feedOrReset p c fed now).2 = .ok () := by
  unfold CoreState.feedOrReset CoreState.feed
  cases ht : c.transition fed now with
  | ok t => rfl
  | error e =>
    cases e with
    | err e => rfl
    | panic => exact absurd ht h

theorem feedKnown_result {s : CoreState H T} {p : PeerId} {fed : ConnectionEvent}
    {now : Timestamp}
    (h : ∀ c, s.connection p = some c → c.transition fed now ≠ panicked) :
    (s.feedKnown p fed now).2 = .ok () := by
  unfold CoreState.feedKnown
  cases hc : s.connection p with
  | none => rfl
  | some c => exact feedOrReset_result (h c hc)

/-- What an idle state rejects. -/
theorem rejects_established {c : ConnectionState} (idle : c.Idle) (id : String)
    (now : Timestamp) : c.transition (.connectionEstablished id) now =
      fail ⟨c.stateName, .connectionEstablished id⟩ := by
  cases c with
  | disconnected => rfl
  | discovering => rfl
  | _ => exact absurd idle not_false

theorem rejects_lost {c : ConnectionState} (idle : c.Idle) (reason : String) (now : Timestamp) :
    c.transition (.connectionLost reason) now = fail ⟨c.stateName, .connectionLost reason⟩ := by
  cases c with
  | disconnected => rfl
  | discovering => rfl
  | _ => exact absurd idle not_false

/-- An event that is rejected, or whose peer is unknown, leaves no connection. -/
theorem disconnected_of_rejected (own : task.state.OwnEntries) {event : Event}
    {env : Surroundings} {p : PeerId} {fed : ConnectionEvent}
    (admitted : (task.checkRateLimit event env).2 = .ok ()) (hfed : fedBy event = some (p, fed))
    (rejected : ∀ c, task.taken (.event event) p = some c →
      ∃ e, c.transition fed env.now = fail e) :
    (task.step sha256 noise (.event event, env)).1.state.connection p = none ∨
      ∃ s, (task.step sha256 noise (.event event, env)).1.state.connection p =
        some (.disconnected s) := by
  rw [connection_of_admitted sha256 noise own admitted hfed]
  cases hc : task.taken (.event event) p with
  | none => exact .inl rfl
  | some c =>
    obtain ⟨e, he⟩ := rejected c hc
    exact .inr ⟨_, settled_of_rejected he⟩

theorem reportsAgree_peerDiscovered (h : task.OnlyIdle) (p : PeerId)
    (transport : ChannelTransportType) (signalStrength : Option Int8) (env : Surroundings) :
    task.ReportsAgree sha256 noise (.event (.peerDiscovered p transport signalStrength), env) ↔
      ∃ c, task.state.connection p = some (.discovering c) := by
  let c := (task.state.connection p).getD (ConnectionState.newDisconnected p)
  have taken : task.taken (.event (.peerDiscovered p transport signalStrength)) p = some c := rfl
  have idle : c.Idle := h.taken taken
  -- an idle state rejects the discovery or goes on being discovered
  have kinds : (∃ s, c = .disconnected s) ∨ ∃ s, c = .discovering s := by
    cases hc : c with
    | disconnected s => exact .inl ⟨s, rfl⟩
    | discovering s => exact .inr ⟨s, rfl⟩
    | _ => rw [hc] at idle; exact absurd idle not_false
  have result : (task.step sha256 noise
      (.event (.peerDiscovered p transport signalStrength), env)).2 =
        reportStatus p .discovering (some transport) := by
    rw [result_of_admitted sha256 noise rfl]
    refine congrArg Prod.snd (Call.andThen_of_ok _ (feedOrReset_result ?_))
    change c.transition _ _ ≠ panicked
    rcases kinds with ⟨s, hs⟩ | ⟨s, hs⟩ <;> rw [hs] <;> intro panics <;> cases panics
  rw [reportsAgree_iff_agrees sha256 noise result]
  rcases kinds with ⟨s, hs⟩ | ⟨s, hs⟩
  · have unknown : ¬ ∃ c, task.state.connection p = some (.discovering c) := by
      rintro ⟨d, hd⟩
      simp [c, hd] at hs
    have admitted :
        (task.checkRateLimit (.peerDiscovered p transport signalStrength) env).2 = .ok () := rfl
    have after := disconnected_of_rejected sha256 noise h.own admitted rfl (p := p) (by
        intro c' hc'
        rw [← Option.some.inj (taken.symm.trans hc'), hs]
        exact ⟨_, rfl⟩)
    exact iff_of_false (not_agrees_of_disconnected after (by decide)) unknown
  · have known : task.state.connection p = some (.discovering s) := by
      cases hc : task.state.connection p with
      | none => simp [c, hc, ConnectionState.newDisconnected] at hs
      | some old => simpa [c, hc] using hs
    have applies : ∃ t s', task.Applies (.event (.peerDiscovered p transport signalStrength), env)
        p t ∧ t.newState = .discovering s' :=
      ⟨_, _, ⟨rfl, _, _, rfl, taken.trans (congrArg some hs), rfl⟩, rfl⟩
    obtain ⟨t, s', ht, hnew⟩ := applies
    rw [connection_of_applies sha256 noise h.own ht, hnew]
    exact iff_of_true (agrees_discovering s') ⟨s, known⟩

/-- A report that is not of a disconnection is wrong after a rejected event. -/
theorem not_reportsAgree_of_rejected (own : task.state.OwnEntries) {event : Event}
    {env : Surroundings} {p : PeerId} {fed : ConnectionEvent} {status : ConnectionStatus}
    {transport : Option ChannelTransportType}
    (admitted : (task.checkRateLimit event env).2 = .ok ()) (hfed : fedBy event = some (p, fed))
    (rejected : ∀ c, task.taken (.event event) p = some c →
      ∃ e, c.transition fed env.now = fail e)
    (result : (task.step sha256 noise (.event event, env)).2 = reportStatus p status transport)
    (other : status ≠ .disconnected) :
    ¬ task.ReportsAgree sha256 noise (.event event, env) := by
  rw [reportsAgree_iff_agrees sha256 noise result]
  exact not_agrees_of_disconnected
    (disconnected_of_rejected sha256 noise own admitted hfed rejected) other

theorem reportsAgree_connectionEstablished (h : task.OnlyIdle) (p : PeerId)
    (transport : ChannelTransportType) (env : Surroundings) :
    task.ReportsAgree sha256 noise (.event (.connectionEstablished p transport), env) ↔
      (task.rateLimiter.checkConnectionAllowed p env.instant env.order).2 ≠ .ok () := by
  by_cases admitted :
      (task.checkRateLimit (.connectionEstablished p transport) env).2 = .ok ()
  · have rejected : ∀ c, task.state.connection p = some c → ∃ e,
        c.transition (.connectionEstablished (sessionId p transport)) env.now = fail e :=
      fun c hc => ⟨_, rejects_established (h.idle p c hc) _ _⟩
    have result : (task.step sha256 noise
        (.event (.connectionEstablished p transport), env)).2 =
          reportStatus p .connected (some transport) := by
      rw [result_of_admitted sha256 noise admitted]
      refine congrArg Prod.snd (Call.andThen_of_ok _ (feedKnown_result ?_))
      intro c hc panics
      obtain ⟨e, he⟩ := rejected c hc
      cases he.symm.trans panics
    have wrong := not_reportsAgree_of_rejected sha256 noise h.own admitted rfl rejected result
      (by decide)
    exact iff_of_false wrong (not_not_intro admitted)
  · exact iff_of_true (reportsAgree_of_refused sha256 noise admitted) admitted

theorem not_reportsAgree_connectionLost (h : task.OnlyIdle) (p : PeerId)
    (transport : ChannelTransportType) (reason : String) (env : Surroundings) :
    ¬ task.ReportsAgree sha256 noise (.event (.connectionLost p transport reason), env) := by
  have rejected : ∀ c, task.state.connection p = some c →
      ∃ e, c.transition (.connectionLost reason) env.now = fail e :=
    fun c hc => ⟨_, rejects_lost (h.idle p c hc) _ _⟩
  have result : (task.step sha256 noise
      (.event (.connectionLost p transport reason), env)).2 =
        reportStatus p .error (some transport) := by
    rw [result_of_admitted sha256 noise rfl]
    refine congrArg Prod.snd (Call.andThen_of_ok _ (feedKnown_result ?_))
    intro c hc panics
    obtain ⟨e, he⟩ := rejected c hc
    cases he.symm.trans panics
  exact not_reportsAgree_of_rejected sha256 noise h.own rfl rfl rejected result (by decide)

theorem reportsAgree_disconnect (own : task.state.OwnEntries) (p : PeerId) (env : Surroundings) :
    task.ReportsAgree sha256 noise (.command (.disconnectFromPeer p), env) := by
  have after : (task.step sha256 noise
      (.command (.disconnectFromPeer p), env)).1.state.connection p =
        (task.state.connection p).map fun _ => .disconnected ⟨p, some env.now, 0⟩ := by
    have entries := connection_processCommand sha256 noise own (.disconnectFromPeer p) env.now p
    exact entries.trans (if_pos rfl)
  have result : (task.step sha256 noise (.command (.disconnectFromPeer p), env)).2 =
      reportStatus p .disconnected none := by
    refine (result_andThen_emit _).trans ?_
    change (handleDisconnectFromPeer task.countCommand.state p env.now).2 = _
    unfold handleDisconnectFromPeer
    cases hc : task.countCommand.state.connection p with
    | none => rfl
    | some c =>
      obtain ⟨t, ht, _⟩ := c.transition_disconnect env.now
      simp only [CoreState.feed, ht]
  rw [reportsAgree_iff_agrees sha256 noise result, after]
  apply agrees_disconnected
  cases task.state.connection p with
  | none => exact .inl rfl
  | some c => exact .inr ⟨_, rfl⟩

/-- In every reachable task the statuses that an input reports agree with the
entries it leaves exactly when `ReportsTruly` holds. -/
theorem reportsAgree_iff {peerId : PeerId} {localKey : Key32} {config : RateLimitConfig}
    {startTime : Timestamp}
    (reach : Reachable (step sha256 noise) (new peerId localKey config startTime) task)
    (received : Input × Surroundings) :
    task.ReportsAgree sha256 noise received ↔ task.ReportsTruly received := by
  have h := onlyIdle_of_reachable sha256 noise reach
  obtain ⟨command | event, env⟩ := received
  · refine iff_of_true ?_ trivial
    cases command with
    | disconnectFromPeer p => exact reportsAgree_disconnect sha256 noise h.own p env
    | sendMessage recipient content =>
      apply reportsAgree_of_silent
      exact (result_andThen_emit _).symm ▸
        silent_handleSendMessage sha256 noise task.countCommand.state recipient content env.now
    | connectToPeer p =>
      apply reportsAgree_of_silent
      exact (result_andThen_emit _).symm ▸
        silent_handleConnectToPeer task.countCommand.state p env.now
    | _ =>
      apply reportsAgree_of_silent
      exact silent_ok (by simp [handleGetSystemStatus, handleQueryMessageStatus,
        handleQueryPeerSession, handleQueryDeliveryStatus, handleQueryInternalState])
  · cases event with
    | peerDiscovered p transport signalStrength =>
      exact reportsAgree_peerDiscovered sha256 noise h p transport signalStrength env
    | connectionEstablished p transport =>
      exact reportsAgree_connectionEstablished sha256 noise h p transport env
    | connectionLost p transport reason =>
      exact iff_of_false (not_reportsAgree_connectionLost sha256 noise h p transport reason env) id
    | messageReceived sender =>
      exact iff_of_true (reportsAgree_of_quiet sha256 noise fun s =>
        silent_handleMessageReceived sha256 s sender _ _ _ _ _ env.now) trivial
    | bitchatPacketReceived sender packet =>
      exact iff_of_true (reportsAgree_of_quiet sha256 noise fun s =>
        silent_handleBitchatPacketReceived sha256 s sender packet env.now) trivial
    | _ =>
      exact iff_of_true (reportsAgree_of_quiet sha256 noise fun s =>
        silent_ok (by simp)) trivial

theorem reportsAgree_of_rediscovery :
    discoveringTask.ReportsAgree MessageStore.lastByteDigest NoiseLibrary.masked
      (.event (.peerDiscovered remotePeer .ble none), callAt 1700000001000) := by
  have reach : Reachable (step MessageStore.lastByteDigest NoiseLibrary.masked) startedTask
      discoveringTask := ⟨[(.command (.connectToPeer remotePeer), callAt 1700000000000)], rfl⟩
  exact (reportsAgree_iff MessageStore.lastByteDigest NoiseLibrary.masked reach _).mpr ⟨_, rfl⟩

/-- The establishment of a connection with an unknown peer is reported, and no
connection is stored. -/
theorem established_report_without_connection :
    (startedTask.step MessageStore.lastByteDigest NoiseLibrary.masked
        (.event (.connectionEstablished remotePeer .ble), callAt 1700000000000)).2 =
      reportStatus remotePeer .connected (some .ble) ∧
    (startedTask.step MessageStore.lastByteDigest NoiseLibrary.masked
        (.event (.connectionEstablished remotePeer .ble),
          callAt 1700000000000)).1.state.connection remotePeer = none ∧
    ¬ startedTask.ReportsAgree MessageStore.lastByteDigest NoiseLibrary.masked
        (.event (.connectionEstablished remotePeer .ble), callAt 1700000000000) := by
  refine ⟨rfl, rfl, ?_⟩
  intro agree
  have agrees := agree _ _ _ _ rfl (List.mem_singleton.mpr rfl)
  obtain ⟨c, hc⟩ := agrees.1.mp rfl
  cases hc

end CoreLogicTask

end Bitchat
