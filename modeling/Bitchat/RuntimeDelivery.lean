import Bitchat.RuntimeRefinement

/-!
# What arrives at the other ends

The channels deliver in order and lose nothing. Results are dropped only when the
application or every transport is gone. A transport gets the beginning of all
effects that were sent; once it has fallen behind the broadcast it gets no more.
-/
namespace Bitchat
open Rust

namespace RuntimeNetwork

def Seen.submittedCommand : Seen → Option Command
  | .submitted command => some command
  | _ => none

def Seen.takenCommand : Seen → Option Command
  | .took (.command command, _) => some command
  | _ => none

def Seen.reportedEvent : Seen → Option Event
  | .reported event => some event
  | _ => none

def Seen.takenEvent : Seen → Option Event
  | .took (.event event, _) => some event
  | _ => none

def Seen.broadcastEffect : Seen → Option Effect
  | .sentEffect effect => some effect
  | _ => none

def Seen.queuedAppEvent : Seen → Option AppEvent
  | .sentAppEvent appEvent => some appEvent
  | _ => none

def Seen.shownAppEvent : Seen → Option AppEvent
  | .shown appEvent => some appEvent
  | _ => none

/-- The effect that a transport received. -/
def Seen.handledBy (transport : ChannelTransportType) : Seen → Option Effect
  | .handled t effect => if t = transport then some effect else none
  | _ => none

variable {H T : Type} {sha256 : Bytes → Key32} {noise : NoiseLibrary H T}
  {net net' : RuntimeNetwork H T} {log : List Seen} {seen : Option Seen}

/-- The log of a part of what is seen, after one more step. -/
theorem filterMap_log {α : Type} (f : Seen → Option α) (log : List Seen) (seen : Option Seen) :
    (log ++ seen.toList).filterMap f = log.filterMap f ++ (seen.bind f).toList := by
  cases seen with
  | none => simp
  | some s =>
    rw [Option.toList_some, List.filterMap_append, Option.bind_some]
    cases h : f s <;> simp [h]

/-- What is between the tasks is what one end put in and the other did not take out. -/
structure Channels (net : RuntimeNetwork H T) (log : List Seen) : Prop where
  commands : net.commands.Passes (log.filterMap Seen.submittedCommand)
    (log.filterMap Seen.takenCommand)
  events : net.events.Passes (log.filterMap Seen.reportedEvent) (log.filterMap Seen.takenEvent)
  appEvents : net.appEvents.Passes (log.filterMap Seen.queuedAppEvent)
    (log.filterMap Seen.shownAppEvent)
  effects : net.effects.sent = log.filterMap Seen.broadcastEffect
  follows : ∀ transport, net.effects.Follows (log.filterMap (Seen.handledBy transport)) transport

@[simp] theorem handle_frame (received : CoreLogicTask.Input × Surroundings) :
    (net.handle sha256 noise received).1.commands = net.commands ∧
      (net.handle sha256 noise received).1.events = net.events ∧
      (net.handle sha256 noise received).1.effects = net.effects ∧
      (net.handle sha256 noise received).1.appEvents = net.appEvents ∧
      (net.handle sha256 noise received).1.appEventsOpen = net.appEventsOpen := by
  unfold handle
  obtain ⟨core, (_ | _) | _⟩ := net.core.receive sha256 noise received <;> simp

theorem channels_steps (h : Channels net log) (hstep : Steps sha256 noise net net' seen) :
    Channels net' (log ++ seen.toList) := by
  obtain ⟨commands, events, appEvents, effects, follows⟩ := h
  constructor
  · rw [filterMap_log, filterMap_log]
    cases hstep with
    | submitted isOpen running sent =>
      simpa [Seen.submittedCommand, Seen.takenCommand] using commands.trySend sent
    | tookCommand receiving got =>
      simpa [Seen.submittedCommand, Seen.takenCommand] using commands.recv got
    | _ =>
      simpa [Seen.submittedCommand, Seen.takenCommand] using commands
  · rw [filterMap_log, filterMap_log]
    cases hstep with
    | reported running sent =>
      simpa [Seen.reportedEvent, Seen.takenEvent] using events.trySend sent
    | tookEvent receiving got =>
      simpa [Seen.reportedEvent, Seen.takenEvent] using events.recv got
    | _ =>
      simpa [Seen.reportedEvent, Seen.takenEvent] using events
  · rw [filterMap_log, filterMap_log]
    cases hstep with
    | sentAppEvent next isOpen sent =>
      simpa [Seen.queuedAppEvent, Seen.shownAppEvent] using appEvents.trySend sent
    | shown isOpen got =>
      simpa [Seen.queuedAppEvent, Seen.shownAppEvent] using appEvents.recv got
    | _ =>
      simpa [Seen.queuedAppEvent, Seen.shownAppEvent] using appEvents
  · rw [filterMap_log, ← effects]
    cases hstep with
    | sentEffect next sent =>
      simpa [Seen.broadcastEffect] using (Broadcast.send_eq_some sent).1
    | @handled t effect effects got =>
      have same := Broadcast.sent_recv (b := net.effects) (k := t)
      rw [got] at same
      simpa [Seen.broadcastEffect] using same
    | _ => simp [Seen.broadcastEffect, Broadcast.unsubscribe]
  · intro transport
    rw [filterMap_log]
    cases hstep with
    | sentEffect next sent =>
      simpa [Seen.handledBy] using (follows transport).send sent
    | @handled t effect effects got =>
      by_cases ht : t = transport
      · subst ht
        simpa [Seen.handledBy] using (follows t).recv_self got
      · simpa [Seen.handledBy, ht] using (follows transport).recv_other (Ne.symm ht) got
    | stopped subscribed ended =>
      simpa [Seen.handledBy] using (follows transport).unsubscribe _
    | left t => simpa using (follows transport).unsubscribe t
    | _ =>
      simpa [Seen.handledBy] using follows transport

/-- Nothing was dropped, unless the application or all transports are gone. -/
def DropsExcused (net : RuntimeNetwork H T) (log : List Seen) : Prop :=
  net.appEventsOpen = true → net.effects.Heard → ∀ s ∈ log, s.dropped = ([], [])

/-- An end of a channel that is gone does not come back. -/
theorem steps_ends (hstep : Steps sha256 noise net net' seen) :
    (net'.appEventsOpen = true → net.appEventsOpen = true) ∧
      ∀ transport, (net'.effects.positions.lookup transport).isSome →
        (net.effects.positions.lookup transport).isSome := by
  cases hstep with
  | sentEffect next sent =>
    obtain ⟨-, same, -⟩ := Broadcast.send_eq_some sent
    simp [same]
  | handled got =>
    obtain ⟨n, hplace, -, -, rfl⟩ := Broadcast.recv_eq_value got
    refine ⟨id, fun transport => ?_⟩
    rw [Map.lookup_insert_if]
    split_ifs with ht
    · rw [ht, hplace]
      exact fun _ => rfl
    · exact id
  | stopped subscribed ended =>
    refine ⟨id, fun transport => ?_⟩
    rw [Broadcast.lookup_unsubscribe]
    split_ifs
    · simp
    · exact id
  | left t =>
    refine ⟨id, fun transport => ?_⟩
    rw [Broadcast.lookup_unsubscribe]
    split_ifs
    · simp
    · exact id
  | _ => simp

theorem dropsExcused_steps (h : DropsExcused net log) (hstep : Steps sha256 noise net net' seen) :
    DropsExcused net' (log ++ seen.toList) := by
  intro hopen hheard s hs
  obtain ⟨hopen', hsubscribed⟩ := steps_ends hstep
  have heard : net.effects.Heard := hheard.imp hsubscribed
  rcases List.mem_append.mp hs with hs | hs
  · exact h (hopen' hopen) heard s hs
  · rw [Option.mem_toList] at hs
    cases hstep with
    | lost unsent closed =>
      rcases closed with ⟨-, unheard⟩ | ⟨-, closed⟩
      · exact absurd heard unheard
      · rw [hopen' hopen] at closed
        cases closed
    | _ => cases hs <;> rfl

/-- When nothing was dropped, what left the core was sent. -/
theorem out_of_intact (intact : ∀ s ∈ log, s.dropped = ([], [])) :
    effectsOut log = log.filterMap Seen.broadcastEffect ∧
      appEventsOut log = log.filterMap Seen.queuedAppEvent ∧ droppedResults log = ([], []) := by
  induction log using List.reverseRecOn with
  | nil => exact ⟨rfl, rfl, rfl⟩
  | append_singleton before s ih =>
    obtain ⟨heffects, happEvents, hdropped⟩ :=
      ih fun t ht => intact t (List.mem_append_left [s] ht)
    have here := intact s (by simp)
    rw [effectsOut_concat, appEventsOut_concat, droppedResults_concat, List.filterMap_append,
      List.filterMap_append, heffects, happEvents, hdropped, here]
    cases s with
    | lost unsent =>
      obtain rfl : unsent = ([], []) := here
      simp [Seen.effects, Seen.appEvents, Seen.broadcastEffect, Seen.queuedAppEvent]
    | _ => simp [Seen.effects, Seen.appEvents, Seen.broadcastEffect, Seen.queuedAppEvent]

section

variable (sha256 noise) (config : ChannelConfig) (core : CoreLogicTask H T)
  (transports : List ChannelTransportType) (acts : List Act)

theorem sent_start : (start config core transports).effects.sent = [] :=
  Broadcast.sent_subscribe_all _ transports

/-- At the start every transport is subscribed, from the first effect on. -/
theorem lookup_start (transport : ChannelTransportType) :
    (start config core transports).effects.positions.lookup transport =
      if transport ∈ transports then some 0 else none :=
  Broadcast.lookup_subscribe_all rfl

theorem channels_run :
    Channels (run (step sha256 noise) (start config core transports) acts)
      ((start config core transports).log sha256 noise acts) := by
  apply log_invariant (fun _ _ _ _ h hstep => channels_steps h hstep)
  constructor
  · exact Mpsc.passes_new config.commandBufferSize
  · exact Mpsc.passes_new config.eventBufferSize
  · exact Mpsc.passes_new config.appEventBufferSize
  · exact sent_start config core transports
  · exact Broadcast.follows_subscribe_all config.effectBufferSize transports

theorem dropsExcused_run :
    DropsExcused (run (step sha256 noise) (start config core transports) acts)
      ((start config core transports).log sha256 noise acts) := by
  apply log_invariant (fun _ _ _ _ h hstep => dropsExcused_steps h hstep)
  intro _ _ s hs
  cases hs

/-- As long as the application listens and a transport is there, nothing is lost between the
tasks: the inputs are taken in the order in which they were put in, each transport gets the
beginning of what the core returned for them, and the application is shown all of it but what
is still on its way. -/
theorem nothing_lost_between_tasks
    (isOpen : (run (step sha256 noise) (start config core transports) acts).appEventsOpen = true)
    (heard : (run (step sha256 noise) (start config core transports) acts).effects.Heard) :
    let net := run (step sha256 noise) (start config core transports) acts
    let log := (start config core transports).log sha256 noise acts
    let inputs := takenInputs log
    log.filterMap Seen.submittedCommand =
        log.filterMap Seen.takenCommand ++ net.commands.queue ∧
      log.filterMap Seen.reportedEvent = log.filterMap Seen.takenEvent ++ net.events.queue ∧
      net.core.addGenerated net.pending.1.length net.pending.2.length =
        run (CoreLogicTask.step sha256 noise) core inputs ∧
      (∀ transport, log.filterMap (Seen.handledBy transport) <+:
        (outputs (CoreLogicTask.step sha256 noise) core inputs).flatMap effectsOf) ∧
      (outputs (CoreLogicTask.step sha256 noise) core inputs).flatMap appEventsOf =
        log.filterMap Seen.shownAppEvent ++ net.appEvents.queue ++ net.pending.2 := by
  intro net log inputs
  have refines : Refines sha256 noise core net log := refines_run sha256 noise config core
    transports acts
  have channels : Channels net log := channels_run sha256 noise config core transports acts
  obtain ⟨heffects, happEvents, hdropped⟩ := out_of_intact
    (dropsExcused_run sha256 noise config core transports acts isOpen heard)
  refine ⟨channels.commands, channels.events, ?_, fun transport => ?_, ?_⟩
  · have state := refines.state
    rw [settled, hdropped] at state
    exact state
  · have all : (results sha256 noise core log).flatMap effectsOf =
        net.effects.sent ++ net.pending.1 := by
      rw [refines.effects, heffects, channels.effects]
    rw [← results, all]
    exact (channels.follows transport).before.trans (List.prefix_append _ _)
  · rw [← results, refines.appEvents, happEvents, channels.appEvents]

end

/-- One transport and an application, with room for one effect. -/
def smallNetwork : RuntimeNetwork Unit Unit :=
  start ⟨4, 4, 1, 4⟩ CoreLogicTask.startedTask [.ble]

/-- A discovery is started; the application is told. -/
def discoveryActs : List Act :=
  [.submit .startDiscovery, .takeCommand (CoreLogicTask.callAt 0), .sendEffect, .pollEffect .ble,
    .sendEffect, .sendAppEvent, .pollAppEvent]

theorem discovery_is_shown :
    (smallNetwork.log MessageStore.lastByteDigest NoiseLibrary.masked discoveryActs).filterMap
      Seen.shownAppEvent = [.discoveryStateChanged true none] := by
  have arrived := nothing_lost_between_tasks MessageStore.lastByteDigest NoiseLibrary.masked
    ⟨4, 4, 1, 4⟩ CoreLogicTask.startedTask [.ble] discoveryActs (by decide) ⟨.ble, by decide⟩
  have shown := arrived.2.2.2.2
  have rest : (run (step MessageStore.lastByteDigest NoiseLibrary.masked) smallNetwork
      discoveryActs).appEvents.queue = [] := by decide
  have unsent : (run (step MessageStore.lastByteDigest NoiseLibrary.masked) smallNetwork
      discoveryActs).pending.2 = [] := by decide
  change _ = _ ++ (run _ smallNetwork discoveryActs).appEvents.queue ++
    (run _ smallNetwork discoveryActs).pending.2 at shown
  rw [rest, unsent, List.append_nil, List.append_nil] at shown
  exact shown.symm.trans (by decide)

/-- The receiver of a transport is there. -/
def Subscribed (net : RuntimeNetwork H T) (transport : ChannelTransportType) : Prop :=
  (net.effects.positions.lookup transport).isSome = true

instance (net : RuntimeNetwork H T) (transport : ChannelTransportType) :
    Decidable (net.Subscribed transport) := inferInstanceAs (Decidable (_ = true))

/-- The loop of a transport goes on: it does not leave, and when it polls it is not
too far behind, nor at the end of what a core that is over has sent. -/
def KeepsUp (transport : ChannelTransportType) (net : RuntimeNetwork H T) (act : Act) : Prop :=
  act ≠ .leave transport ∧ (act = .pollEffect transport →
    ∀ n, net.effects.positions.lookup transport = some n →
      net.effects.sent.length ≤ n + net.effects.capacity ∧
        (net.Ended → n < net.effects.sent.length))

theorem subscribed_pollEffect {transport : ChannelTransportType} {n : ℕ}
    (hplace : net.effects.positions.lookup transport = some n) :
    (net.pollEffect transport).1.Subscribed transport ↔
      net.effects.sent.length ≤ n + net.effects.capacity ∧
        (net.Ended → n < net.effects.sent.length) := by
  have hlags := Broadcast.recv_lags_iff (b := net.effects) (k := transport)
  have hempty := Broadcast.recv_empty_iff hplace
  rw [hplace] at hlags
  unfold pollEffect
  rcases hrecv : net.effects.recv transport with ⟨effect | missed | _, effects⟩
  · obtain ⟨m, hm, hget, hbehind, rfl⟩ := Broadcast.recv_eq_value hrecv
    obtain rfl := Option.some.inj (hplace.symm.trans hm)
    obtain ⟨hlt, -⟩ := List.getElem?_eq_some_iff.mp hget
    refine iff_of_true ?_ ⟨by omega, fun _ => hlt⟩
    simp [Subscribed, Finmap.lookup_insert]
  · obtain ⟨m, hm, hbehind⟩ := hlags.mp ⟨missed, congrArg Prod.fst hrecv⟩
    obtain rfl := Option.some.inj hm
    refine iff_of_false ?_ (by omega)
    simp [Subscribed]
  · have hdrained := hempty.mp (congrArg Prod.fst hrecv)
    simp only
    split_ifs with hover
    · refine iff_of_false (by simp [Subscribed]) ?_
      rintro ⟨-, hmore⟩
      exact absurd (hmore hover.1) (Nat.not_lt.mpr hdrained)
    · have running : ¬ net.Ended := fun h => hover ⟨h, by rw [hplace]; rfl⟩
      refine iff_of_true ?_ ⟨by omega, fun h => absurd h running⟩
      rw [Subscribed, hplace]
      rfl

/-- The other actions leave the subscriptions alone. -/
theorem positions_step {act : Act} (hpoll : ∀ t, act ≠ .pollEffect t)
    (hleave : ∀ t, act ≠ .leave t) :
    (net.step sha256 noise act).1.effects.positions = net.effects.positions := by
  cases act with
  | submit command =>
    simp only [step, submit]
    split_ifs
    · cases net.commands.trySend command <;> rfl
    · rfl
  | report event =>
    simp only [step, report]
    split_ifs
    · rfl
    · cases net.events.trySend event <;> rfl
  | takeCommand env =>
    simp only [step, takeCommand]
    split_ifs <;> cases net.commands.recv <;> simp
  | takeEvent env =>
    simp only [step, takeEvent]
    split_ifs <;> cases net.events.recv <;> simp
  | sendEffect =>
    simp only [step, sendEffect]
    split
    · rfl
    · rename_i effect rest appEvents hpending
      cases hsend : net.effects.send effect with
      | none => rfl
      | some effects => exact (Broadcast.send_eq_some hsend).2.1
  | sendAppEvent =>
    simp only [step, sendAppEvent]
    split
    · rename_i appEvent rest hpending
      split_ifs
      · cases net.appEvents.trySend appEvent <;> rfl
      · rfl
    · rfl
  | pollEffect t => exact absurd rfl (hpoll t)
  | pollAppEvent =>
    simp only [step, pollAppEvent]
    split_ifs
    · cases net.appEvents.recv <;> rfl
    · rfl
  | leave t => exact absurd rfl (hleave t)
  | closeCommands => rfl
  | closeAppEvents => rfl

/-- Only the transport itself gives its subscription up. -/
theorem subscribed_step {transport : ChannelTransportType} (h : net.Subscribed transport)
    (act : Act) :
    (net.step sha256 noise act).1.Subscribed transport ↔ KeepsUp transport net act := by
  obtain ⟨n, hplace⟩ := Option.isSome_iff_exists.mp h
  have other (t : ChannelTransportType) (hne : transport ≠ t) :
      (net.pollEffect t).1.Subscribed transport := by
    unfold pollEffect
    rcases hrecv : net.effects.recv t with ⟨effect | missed | _, effects⟩
    · obtain ⟨m, -, -, -, rfl⟩ := Broadcast.recv_eq_value hrecv
      simpa [Subscribed, Finmap.lookup_insert_of_ne _ hne] using h
    · simpa [Subscribed, hne] using h
    · simp only
      split_ifs
      · simpa [Subscribed, hne] using h
      · exact h
  cases act with
  | pollEffect t =>
    by_cases ht : transport = t
    · subst ht
      rw [step, subscribed_pollEffect hplace]
      simp [KeepsUp, hplace]
    · refine iff_of_true (other t ht) ⟨by simp, ?_⟩
      intro heq
      exact absurd (Act.pollEffect.inj heq).symm ht
  | leave t =>
    by_cases ht : transport = t
    · subst ht
      simp [step, Subscribed, KeepsUp]
    · refine iff_of_true ?_ ⟨fun heq => ht (Act.leave.inj heq).symm, by simp⟩
      simpa [step, Subscribed, ht] using h
  | _ =>
    refine iff_of_true ?_ ⟨by simp, by simp⟩
    rw [Subscribed, positions_step (by simp) (by simp)]
    exact h

theorem not_subscribed_step {transport : ChannelTransportType}
    (h : ¬ net.Subscribed transport) (act : Act) :
    ¬ (net.step sha256 noise act).1.Subscribed transport := fun hnext =>
  h ((steps_ends (steps_step act)).2 transport hnext)

/-- A transport that is not subscribed gets nothing. -/
theorem handledBy_nil {transport : ChannelTransportType} (h : ¬ net.Subscribed transport)
    (acts : List Act) :
    (net.log sha256 noise acts).filterMap (Seen.handledBy transport) = [] := by
  have gone : net.effects.positions.lookup transport = none := Option.not_isSome_iff_eq_none.mp h
  let I (later : RuntimeNetwork H T) (log : List Seen) : Prop :=
    ¬ later.Subscribed transport ∧ log.filterMap (Seen.handledBy transport) = []
  have always : I (run (step sha256 noise) net acts) (net.log sha256 noise acts) := by
    apply log_invariant ?_ ⟨h, rfl⟩
    intro now later seen log hnow hstep
    refine ⟨fun hlater => hnow.1 ((steps_ends hstep).2 transport hlater), ?_⟩
    rw [filterMap_log, hnow.2]
    cases hstep with
    | @handled t effect effects got =>
      obtain ⟨n, hplace, -⟩ := Broadcast.recv_eq_value got
      have ht : t ≠ transport := by
        rintro rfl
        exact hnow.1 (by rw [Subscribed, hplace]; rfl)
      simp [Seen.handledBy, ht]
    | _ => simp [Seen.handledBy]
  exact always.2

/-- A transport is still subscribed after a run exactly if each of its polls kept up. -/
theorem subscribed_run_iff {transport : ChannelTransportType} (h : net.Subscribed transport)
    (acts : List Act) : (run (step sha256 noise) net acts).Subscribed transport ↔
      Along (step sha256 noise) (KeepsUp transport) net acts := by
  induction acts generalizing net with
  | nil => exact iff_of_true h trivial
  | cons act rest ih =>
    rw [run_cons, Along]
    by_cases hkeeps : KeepsUp transport net act
    · rw [ih ((subscribed_step h act).mpr hkeeps)]
      exact (and_iff_right hkeeps).symm
    · refine iff_of_false ?_ fun hboth => hkeeps hboth.1
      have hgone : ¬ (net.step sha256 noise act).1.Subscribed transport :=
        fun hnext => hkeeps ((subscribed_step h act).mp hnext)
      exact run_invariant (P := fun _ _ => True)
        (I := fun net : RuntimeNetwork H T => ¬ net.Subscribed transport)
        (fun _ act hnow _ => not_subscribed_step hnow act) hgone along_true

theorem log_append (xs ys : List Act) :
    net.log sha256 noise (xs ++ ys) =
      net.log sha256 noise xs ++ (run (step sha256 noise) net xs).log sha256 noise ys :=
  collected_append net xs ys

/-- A transport is served for as long as none of its polls finds it further behind than the
broadcast keeps: then it has got all effects up to its place. From the first such poll on it
gets nothing of what the core sends. -/
theorem transport_served_iff (sha256 : Bytes → Key32) (noise : NoiseLibrary H T)
    (config : ChannelConfig) (core : CoreLogicTask H T)
    (transports : List ChannelTransportType) (transport : ChannelTransportType)
    (attached : transport ∈ transports) (acts : List Act) :
    let first := start config core transports
    let net := run (step sha256 noise) first acts
    let got := (first.log sha256 noise acts).filterMap (Seen.handledBy transport)
    (net.Subscribed transport ↔ Along (step sha256 noise) (KeepsUp transport) first acts) ∧
      (net.Subscribed transport → ∃ n, net.effects.positions.lookup transport = some n ∧
        got = net.effects.sent.take n) ∧
      (¬ net.Subscribed transport → ∀ later,
        (first.log sha256 noise (acts ++ later)).filterMap (Seen.handledBy transport) = got) := by
  intro first net got
  have begins : first.Subscribed transport := by
    rw [Subscribed, lookup_start, if_pos attached]
    rfl
  have follows := (channels_run sha256 noise config core transports acts).follows transport
  refine ⟨subscribed_run_iff begins acts, ?_, ?_⟩
  · intro hsubscribed
    obtain ⟨n, hplace⟩ := Option.isSome_iff_exists.mp hsubscribed
    refine ⟨n, hplace, ?_⟩
    rw [follows.place n hplace]
    exact List.prefix_iff_eq_take.mp follows.before
  · intro hgone later
    rw [log_append, List.filterMap_append, handledBy_nil hgone later, List.append_nil]

/-- Two effects are sent before the transport polls for the first. -/
def overtakenActs : List Act :=
  [.submit .startDiscovery, .takeCommand (CoreLogicTask.callAt 0), .sendEffect, .sendEffect,
    .sendAppEvent, .pollEffect .ble]

theorem overtaken_transport_gets_nothing :
    (smallNetwork.log MessageStore.lastByteDigest NoiseLibrary.masked
      (overtakenActs ++ [.pollEffect .ble])).filterMap (Seen.handledBy .ble) = [] := by
  have served := transport_served_iff MessageStore.lastByteDigest NoiseLibrary.masked ⟨4, 4, 1, 4⟩
    CoreLogicTask.startedTask [.ble] .ble (by decide) overtakenActs
  exact (served.2.2 (by decide) [.pollEffect .ble]).trans (by decide)

end RuntimeNetwork

end Bitchat
