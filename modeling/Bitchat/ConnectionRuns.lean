import Bitchat.ConnectionState

/-!
# Runs of a connection

What the states of one connection say about the events that led to them. The part of the
run since the state was last disconnected is followed through its stages: a discovery, then
an initiated connection, then its establishment, of which the connected state tells the
transport, the session and the activity. The audit trail follows the states.
-/
namespace Bitchat
open Rust

structure ConnectionInput where
  event : ConnectionEvent
  now : Timestamp

namespace ConnectionState

/-- A rejected event leaves the state as it was. -/
def step (s : ConnectionState) (i : ConnectionInput) : ConnectionState × Option AuditEntry :=
  match s.transition i.event i.now with
  | .ok t => (t.newState, some t.auditEntry)
  | .error _ => (s, none)

/-- The state of the connection to a peer after some events. -/
def stateAfter (p : PeerId) (inputs : List ConnectionInput) : ConnectionState :=
  run step (newDisconnected p) inputs

/-- The audit entries, in order. -/
def trail (p : PeerId) (inputs : List ConnectionInput) : List AuditEntry :=
  collected step (fun _ entry => entry) (newDisconnected p) inputs

def IsDisconnected (s : ConnectionState) : Prop := ∃ d, s = disconnected d

def Takes (s : ConnectionState) (i : ConnectionInput) : Prop :=
  ∃ t, s.transition i.event i.now = .ok t

/-- The state was disconnected before `rest`, and not since. -/
structure Since (p : PeerId) (before rest : List ConnectionInput) : Prop where
  disconnected : (stateAfter p before).IsDisconnected
  never : Along step (fun s i => ¬ (s.step i).1.IsDisconnected) (stateAfter p before) rest

def Discovered (p : PeerId) (before rest : List ConnectionInput) : Prop :=
  ∃ discover seeking, rest = discover :: seeking ∧ (stateAfter p before).Takes discover ∧
    ∃ timeoutSeconds, discover.event = .startDiscovery timeoutSeconds

/-- A discovery was started, and later a connection was initiated. -/
def Initiated (p : PeerId) (before rest : List ConnectionInput) (transport : ChannelTransportType) :
    Prop :=
  ∃ seeking initiate dialling, rest = seeking ++ initiate :: dialling ∧
    Discovered p before seeking ∧ (stateAfter p (before ++ seeking)).Takes initiate ∧
    ∃ params, initiate.event = .initiateConnection transport params

/-- A connection was initiated and later established, and there has been activity since. -/
def Established (p : PeerId) (before rest : List ConnectionInput) (c : ConnectedState) : Prop :=
  ∃ dialling establish active, rest = dialling ++ establish :: active ∧
    Initiated p before dialling c.transport ∧
    (stateAfter p (before ++ dialling)).Takes establish ∧
    establish.event = .connectionEstablished c.sessionId ∧
    c.messageCount = active.countP fun i => i.event = .activityDetected

/-- What a state says about the events since it was disconnected. -/
def Stage (p : PeerId) (before rest : List ConnectionInput) : ConnectionState → Prop
  | disconnected _ => rest = []
  | discovering _ => Discovered p before rest
  | connecting s => Initiated p before rest s.transport
  | connected s => Established p before rest s
  | failed _ => True

/-- What a transition does, as far as the history of a connection goes. -/
inductive Moves : ConnectionState → ConnectionEvent → ConnectionState → Prop where
  | discover (a : DisconnectedState) (timeoutSeconds : Option UInt64) (b : DiscoveringState) :
    Moves (disconnected a) (.startDiscovery timeoutSeconds) (discovering b)
  | find (a : DiscoveringState) (event : ConnectionEvent) (b : DiscoveringState) :
    Moves (discovering a) event (discovering b)
  | initiate (a : DiscoveringState) (params : SessionParams) (b : ConnectingState) :
    Moves (discovering a) (.initiateConnection b.transport params) (connecting b)
  | establish (a : ConnectingState) (b : ConnectedState) (transport : b.transport = a.transport)
    (messageCount : b.messageCount = 0) :
    Moves (connecting a) (.connectionEstablished b.sessionId) (connected b)
  | activity (a b : ConnectedState) (transport : b.transport = a.transport)
    (sessionId : b.sessionId = a.sessionId) (messageCount : b.messageCount = a.messageCount + 1) :
    Moves (connected a) .activityDetected (connected b)
  | fail (s : ConnectionState) (event : ConnectionEvent) (b : FailedState) :
    Moves s event (failed b)
  | disconnect (s : ConnectionState) (event : ConnectionEvent) (b : DisconnectedState) :
    Moves s event (disconnected b)

theorem newState_of_ok {s s' : ConnectionState} {effects effects' : List Effect}
    (h : (.ok (s, effects) : Outcome InvalidTransition _) = .ok (s', effects')) : s = s' :=
  (Prod.mk.inj (Except.ok.inj h)).1

/-- A failure ends in the failed state. -/
theorem moves_of_failWith {s s' : ConnectionState} {event : ConnectionEvent} {p : PeerId}
    {transport : Option ChannelTransportType} {reason : String} {secs : UInt64} {now : Timestamp}
    {effects effects' : List Effect} (h : (do
      let failed ← failWith p transport reason secs now
      pure (failed, effects)) = (.ok (s', effects') : Outcome InvalidTransition _)) :
    Moves s event s' := by
  obtain ⟨failed, hfailed, hnew⟩ := bind_eq_ok.mp h
  obtain ⟨retryAfter, _, hs⟩ := bind_eq_ok.mp hfailed
  rw [← newState_of_ok hnew, ← Except.ok.inj hs]
  exact .fail s event _

theorem moves_of_transition {s : ConnectionState} {event : ConnectionEvent} {now : Timestamp}
    {t : StateTransition} (h : s.transition event now = .ok t) : Moves s event t.newState := by
  have hs := transition_eq_ok h
  by_cases hdisconnect : event = .disconnect
  · subst hdisconnect
    obtain ⟨t', ht', hnew⟩ := s.transition_disconnect now
    rw [h] at ht'
    rw [Except.ok.inj ht', hnew]
    exact .disconnect s _ _
  · cases s with
    | disconnected a =>
      cases event with
      | startDiscovery timeoutSeconds =>
        obtain ⟨deadline, _, hnew⟩ := bind_eq_ok.mp hs
        rw [← newState_of_ok hnew]
        exact .discover a timeoutSeconds _
      | disconnect => exact absurd rfl hdisconnect
      | _ => cases hs
    | discovering a =>
      cases event with
      | peerDiscovered transport signalStrength =>
        rw [← newState_of_ok hs]
        exact .find a _ _
      | initiateConnection transport params =>
        obtain ⟨deadline, _, hnew⟩ := bind_eq_ok.mp hs
        rw [← newState_of_ok hnew]
        exact .initiate a params ⟨a.peerId, transport, now, deadline, some params⟩
      | timeout => exact moves_of_failWith hs
      | disconnect => exact absurd rfl hdisconnect
      | _ => cases hs
    | connecting a =>
      cases event with
      | connectionEstablished sessionId =>
        rw [← newState_of_ok hs]
        exact .establish a ⟨a.peerId, a.transport, now, sessionId, now, 0⟩ rfl rfl
      | connectionFailed reason => exact moves_of_failWith hs
      | timeout => exact moves_of_failWith hs
      | disconnect => exact absurd rfl hdisconnect
      | _ => cases hs
    | connected a =>
      cases event with
      | activityDetected =>
        rw [← newState_of_ok hs]
        exact .activity a _ rfl rfl rfl
      | connectionLost reason => exact moves_of_failWith hs
      | disconnect => exact absurd rfl hdisconnect
      | _ => cases hs
    | failed a =>
      cases event with
      | retry =>
        rw [← newState_of_ok hs]
        exact .disconnect _ _ _
      | disconnect => exact absurd rfl hdisconnect
      | _ => cases hs

/-! ## Stages -/

section

variable {p : PeerId} {before rest inputs : List ConnectionInput} {i : ConnectionInput}
  {s : ConnectionState}

theorem Discovered.concat (h : Discovered p before rest) (i : ConnectionInput) :
    Discovered p before (rest ++ [i]) := by
  obtain ⟨discover, seeking, rfl, htakes, hevent⟩ := h
  exact ⟨discover, seeking ++ [i], rfl, htakes, hevent⟩

theorem Initiated.concat {transport : ChannelTransportType}
    (h : Initiated p before rest transport) (i : ConnectionInput) :
    Initiated p before (rest ++ [i]) transport := by
  obtain ⟨seeking, initiate, dialling, rfl, hdiscovered, htakes, hevent⟩ := h
  exact ⟨seeking, initiate, dialling ++ [i], by simp, hdiscovered, htakes, hevent⟩

/-- Another event counts if it is activity. -/
theorem Established.concat {a b : ConnectedState} (h : Established p before rest a)
    (htransport : b.transport = a.transport) (hsession : b.sessionId = a.sessionId)
    (hcount : b.messageCount = a.messageCount + if i.event = .activityDetected then 1 else 0) :
    Established p before (rest ++ [i]) b := by
  obtain ⟨dialling, establish, active, rfl, hinitiated, htakes, hevent, hactive⟩ := h
  refine ⟨dialling, establish, active ++ [i], by simp, ?_, htakes, ?_, ?_⟩
  · rw [htransport]
    exact hinitiated
  · rw [hsession]
    exact hevent
  · rw [hcount, hactive, List.countP_append, List.countP_singleton]
    simp

theorem Since.concat (h : Since p before rest)
    (hnever : ¬ ((stateAfter p (before ++ rest)).step i).1.IsDisconnected) :
    Since p before (rest ++ [i]) := by
  refine ⟨h.disconnected, along_append.mpr ⟨h.never, ?_, trivial⟩⟩
  rw [stateAfter, run_append] at hnever
  exact hnever

/-- An accepted event takes the history from one stage to the next. -/
theorem Stage.moves {s' : ConnectionState} (h : Stage p before rest s)
    (hstate : stateAfter p (before ++ rest) = s) (htakes : s.Takes i) (hmoves : Moves s i.event s')
    (hnever : ¬ s'.IsDisconnected) : Stage p before (rest ++ [i]) s' := by
  obtain ⟨event, now⟩ := i
  rw [← hstate] at htakes
  cases hmoves with
  | discover a timeoutSeconds b =>
    obtain rfl : rest = [] := h
    rw [List.append_nil] at htakes
    exact ⟨_, [], rfl, htakes, timeoutSeconds, rfl⟩
  | find a event b => exact Discovered.concat h _
  | initiate a params b => exact ⟨rest, _, [], rfl, h, htakes, params, rfl⟩
  | establish a b htransport hcount =>
    refine ⟨rest, _, [], rfl, ?_, htakes, rfl, hcount⟩
    rw [htransport]
    exact h
  | activity a b htransport hsession hcount =>
    exact Established.concat h htransport hsession hcount
  | fail s event b => trivial
  | disconnect s event b => exact absurd ⟨b, rfl⟩ hnever

/-- A rejected event is no activity. -/
theorem Stage.stays (h : Stage p before rest s) (hrejected : ¬ s.Takes i)
    (hnever : ¬ s.IsDisconnected) : Stage p before (rest ++ [i]) s := by
  cases s with
  | disconnected a => exact absurd ⟨a, rfl⟩ hnever
  | discovering a => exact Discovered.concat h i
  | connecting a => exact Initiated.concat h i
  | connected a =>
    have hquiet : i.event ≠ .activityDetected := by
      intro hactivity
      obtain ⟨t, ht, -⟩ := transition_activityDetected a i.now
      exact hrejected ⟨t, by rw [hactivity]; exact ht⟩
    exact Established.concat h rfl rfl (by simp [hquiet])
  | failed a => trivial

theorem step_of_takes (s : ConnectionState) (i : ConnectionInput) :
    (∃ t, s.transition i.event i.now = .ok t ∧ s.step i = (t.newState, some t.auditEntry)) ∨
      (¬ s.Takes i ∧ s.step i = (s, none)) := by
  unfold step Takes
  cases s.transition i.event i.now with
  | ok t => exact Or.inl ⟨t, rfl, rfl⟩
  | error e => exact Or.inr ⟨fun ⟨t, ht⟩ => (by cases ht), rfl⟩

/-- Every state tells the stage that the events since the last disconnected one are at. -/
theorem stage_run (p : PeerId) (inputs : List ConnectionInput) :
    ∃ before rest, inputs = before ++ rest ∧ Since p before rest ∧
      Stage p before rest (stateAfter p inputs) := by
  induction inputs using List.reverseRecOn with
  | nil => exact ⟨[], [], rfl, ⟨⟨_, rfl⟩, trivial⟩, rfl⟩
  | append_singleton inputs i ih =>
    obtain ⟨before, rest, heq, hsince, hstage⟩ := ih
    have hnext : stateAfter p (inputs ++ [i]) = ((stateAfter p inputs).step i).1 :=
      run_concat _ inputs i
    by_cases hdisconnected : (stateAfter p (inputs ++ [i])).IsDisconnected
    · refine ⟨inputs ++ [i], [], (List.append_nil _).symm, ⟨hdisconnected, trivial⟩, ?_⟩
      obtain ⟨d, hd⟩ := hdisconnected
      rw [hd]
      rfl
    · rw [hnext] at hdisconnected ⊢
      refine ⟨before, rest ++ [i], by rw [heq, List.append_assoc], ?_, ?_⟩
      · rw [heq] at hdisconnected
        exact hsince.concat hdisconnected
      · rcases step_of_takes (stateAfter p inputs) i with ⟨t, ht, hstep⟩ | ⟨hrejected, hstep⟩
        · rw [hstep] at hdisconnected ⊢
          exact hstage.moves (congrArg _ heq.symm) ⟨t, ht⟩ (moves_of_transition ht) hdisconnected
        · rw [hstep] at hdisconnected ⊢
          exact hstage.stays hrejected hdisconnected

end

/-! ## The audit trail -/

theorem transition_auditEntry {s : ConnectionState} {event : ConnectionEvent} {now : Timestamp}
    {t : StateTransition} (h : s.transition event now = .ok t) :
    t.auditEntry.fromState = s.stateName ∧ t.auditEntry.toState = t.newState.stateName := by
  obtain ⟨⟨newState, effects⟩, _, ht⟩ := bind_eq_ok.mp h
  rw [← Except.ok.inj ht]
  exact ⟨rfl, rfl⟩

/-- Each entry continues the one before, and the last one leads to the present state. -/
structure Trails (p : PeerId) (inputs : List ConnectionInput) : Prop where
  linked : (trail p inputs).IsChain fun a b => a.toState = b.fromState
  current : ((trail p inputs).getLast?.map AuditEntry.toState).getD "Disconnected" =
    (stateAfter p inputs).stateName

theorem trails_run (p : PeerId) (inputs : List ConnectionInput) : Trails p inputs := by
  suffices h : (trail p inputs).IsChain (fun a b => a.toState = b.fromState) ∧
      ((trail p inputs).getLast?.map AuditEntry.toState).getD "Disconnected" =
        (stateAfter p inputs).stateName from ⟨h.1, h.2⟩
  refine collected_invariant (I := fun (s : ConnectionState) entries =>
    entries.IsChain (fun a b => a.toState = b.fromState) ∧
      (entries.getLast?.map AuditEntry.toState).getD "Disconnected" = s.stateName)
    ?_ ?_ along_true
  · rintro s entries i ⟨hlinked, hcurrent⟩ -
    rcases step_of_takes s i with ⟨t, ht, hstep⟩ | ⟨-, hstep⟩
    · obtain ⟨hfrom, hto⟩ := transition_auditEntry ht
      rw [hstep, Option.toList_some]
      refine ⟨List.isChain_append.mpr ⟨hlinked, List.isChain_singleton _, ?_⟩, by simpa using hto⟩
      intro last hlast entry hentry
      rw [Option.mem_def.mp hlast, Option.map_some, Option.getD_some] at hcurrent
      obtain rfl : t.auditEntry = entry := by simpa using hentry
      rw [hcurrent, hfrom]
    · rw [hstep, Option.toList_none, List.append_nil]
      exact ⟨hlinked, hcurrent⟩
  · exact ⟨List.isChain_nil, rfl⟩

theorem peerId_run (p : PeerId) (inputs : List ConnectionInput) :
    (stateAfter p inputs).peerId = p := by
  refine Reachable.invariant (I := fun s : ConnectionState => s.peerId = p) ?_ rfl ⟨inputs, rfl⟩
  intro s i h
  rcases step_of_takes s i with ⟨t, ht, hstep⟩ | ⟨-, hstep⟩
  · rw [hstep]
    exact (transition_peerId ht).trans h
  · rw [hstep]
    exact h

/-- The state keeps its peer, the audit trail leads to it, and if it is connected, its
transport, session and activity are those of the events that led there. -/
structure Coherent (p : PeerId) (inputs : List ConnectionInput) : Prop where
  peer : (stateAfter p inputs).peerId = p
  linked : (trail p inputs).IsChain fun a b => a.toState = b.fromState
  current : ∀ entry, (trail p inputs).getLast? = some entry →
    entry.toState = (stateAfter p inputs).stateName
  established : ∀ c, stateAfter p inputs = connected c →
    ∃ before rest, inputs = before ++ rest ∧ Since p before rest ∧ Established p before rest c

/-- Every run of a connection is coherent. -/
theorem coherent_run (p : PeerId) (inputs : List ConnectionInput) : Coherent p inputs := by
  have htrails := trails_run p inputs
  refine ⟨peerId_run p inputs, htrails.linked, ?_, ?_⟩
  · intro entry hentry
    have hcurrent := htrails.current
    rwa [hentry] at hcurrent
  · intro c hc
    obtain ⟨before, rest, heq, hsince, hstage⟩ := stage_run p inputs
    rw [hc] at hstage
    exact ⟨before, rest, heq, hsince, hstage⟩

end ConnectionState

end Bitchat
