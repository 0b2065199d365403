import Bitchat.CoreCounters
import Bitchat.Rust.Channels

/-!
# The runtime as a network of tasks

`CoreLogicTask::run` between the channels that `BitchatRuntime::start` creates, with
the application at one end and the transport loops at the other. A step is one
action of one task: any of them may come next. What a transport reports is up to
its surroundings. No handler fails with an error that ends the loop.
-/
namespace Bitchat
open Rust

/-- The tasks and the channels between them. `pending` is what the last handler
returned and is not sent yet; the loop of the core is at its `select!` when there
is nothing of it left. -/
structure RuntimeNetwork (H T : Type) where
  core : CoreLogicTask H T
  pending : Handled
  alive : Bool
  commands : Mpsc Command
  commandsOpen : Bool
  events : Mpsc Event
  effects : Broadcast ChannelTransportType Effect
  appEvents : Mpsc AppEvent
  appEventsOpen : Bool

namespace RuntimeNetwork

variable {H T : Type}

/-- The sizes of the channels. -/
structure ChannelConfig where
  commandBufferSize : ℕ
  eventBufferSize : ℕ
  effectBufferSize : ℕ
  appEventBufferSize : ℕ

/-- What `start` has built when all transports are attached. -/
def start (config : ChannelConfig) (core : CoreLogicTask H T)
    (transports : List ChannelTransportType) : RuntimeNetwork H T where
  core := core
  pending := ([], [])
  alive := true
  commands := Mpsc.new config.commandBufferSize
  commandsOpen := true
  events := Mpsc.new config.eventBufferSize
  effects := transports.foldl Broadcast.subscribe (Broadcast.new config.effectBufferSize)
  appEvents := Mpsc.new config.appEventBufferSize
  appEventsOpen := true

/-- One action. A transport may stop on its own, and the application may drop
its ends of the channels. -/
inductive Act where
  | submit (command : Command)
  | report (event : Event)
  | takeCommand (env : Surroundings)
  | takeEvent (env : Surroundings)
  | sendEffect
  | sendAppEvent
  | pollEffect (transport : ChannelTransportType)
  | pollAppEvent
  | leave (transport : ChannelTransportType)
  | closeCommands
  | closeAppEvents

/-- What an action did. -/
inductive Seen where
  | submitted (command : Command)
  | reported (event : Event)
  | took (received : CoreLogicTask.Input × Surroundings)
  | sentEffect (effect : Effect)
  | sentAppEvent (appEvent : AppEvent)
  | lost (unsent : Handled)
  | handled (transport : ChannelTransportType) (effect : Effect)
  | stopped (transport : ChannelTransportType)
  | shown (appEvent : AppEvent)
  | commandsClosed

section

variable (sha256 : Bytes → Key32) (noise : NoiseLibrary H T) (net : RuntimeNetwork H T)

/-- The loop of the core is at its `select!`. -/
def Receiving : Prop := net.alive = true ∧ net.core.running = true ∧ net.pending = ([], [])

/-- The loop of the core is over. -/
def Ended : Prop := net.alive = false ∨ (net.core.running = false ∧ net.pending = ([], []))

instance : Decidable net.Receiving := inferInstanceAs (Decidable (_ ∧ _ ∧ _))

instance : Decidable net.Ended := inferInstanceAs (Decidable (_ ∨ _ ∧ _))

def submit (command : Command) : RuntimeNetwork H T × Option Seen :=
  if net.commandsOpen = true ∧ ¬ net.Ended then
    match net.commands.trySend command with
    | some commands => ({ net with commands := commands }, some (.submitted command))
    | none => (net, none)
  else (net, none)

def report (event : Event) : RuntimeNetwork H T × Option Seen :=
  if net.Ended then (net, none)
  else
    match net.events.trySend event with
    | some events => ({ net with events := events }, some (.reported event))
    | none => (net, none)

/-- The core handles an input. An error is logged; a panic ends the task. -/
def handle (received : CoreLogicTask.Input × Surroundings) : RuntimeNetwork H T × Option Seen :=
  match net.core.receive sha256 noise received with
  | (core, .ok handled) => ({ net with core := core, pending := handled }, some (.took received))
  | (core, .error (.err _)) => ({ net with core := core }, some (.took received))
  | (core, .error .panic) => ({ net with core := core, alive := false }, some (.took received))

/-- The first branch of the `select!`. -/
def takeCommand (env : Surroundings) : RuntimeNetwork H T × Option Seen :=
  if net.Receiving then
    match net.commands.recv with
    | some (command, commands) =>
      { net with commands := commands }.handle sha256 noise (.command command, env)
    | none =>
      if net.commandsOpen then (net, none)
      else ({ net with alive := false }, some .commandsClosed)
  else (net, none)

/-- The second branch of the `select!`. A closed event channel is no reason to stop. -/
def takeEvent (env : Surroundings) : RuntimeNetwork H T × Option Seen :=
  if net.Receiving then
    match net.events.recv with
    | some (event, events) =>
      { net with events := events }.handle sha256 noise (.event event, env)
    | none => (net, none)
  else (net, none)

/-- `send_effect`. When no transport is left, the rest of the results is dropped. -/
def sendEffect : RuntimeNetwork H T × Option Seen :=
  match net.pending with
  | ([], _) => (net, none)
  | (effect :: rest, appEvents) =>
    match net.effects.send effect with
    | some effects =>
      ({ net with
          core := net.core.addGenerated 1 0, effects := effects, pending := (rest, appEvents) },
        some (.sentEffect effect))
    | none => ({ net with pending := ([], []) }, some (.lost net.pending))

/-- `send_app_event`, which waits while the channel is full. -/
def sendAppEvent : RuntimeNetwork H T × Option Seen :=
  match net.pending with
  | ([], appEvent :: rest) =>
    if net.appEventsOpen then
      match net.appEvents.trySend appEvent with
      | some appEvents =>
        ({ net with
            core := net.core.addGenerated 0 1, appEvents := appEvents, pending := ([], rest) },
          some (.sentAppEvent appEvent))
      | none => (net, none)
    else ({ net with pending := ([], []) }, some (.lost net.pending))
  | _ => (net, none)

/-- The effect branch of a transport's loop. It breaks on every error of the
channel: when the core is gone, and also when the transport has lagged. -/
def pollEffect (transport : ChannelTransportType) : RuntimeNetwork H T × Option Seen :=
  match net.effects.recv transport with
  | (.value effect, effects) => ({ net with effects := effects }, some (.handled transport effect))
  | (.lagged _, _) =>
    ({ net with effects := net.effects.unsubscribe transport }, some (.stopped transport))
  | (.empty, _) =>
    if net.Ended ∧ (net.effects.positions.lookup transport).isSome then
      ({ net with effects := net.effects.unsubscribe transport }, some (.stopped transport))
    else (net, none)

def pollAppEvent : RuntimeNetwork H T × Option Seen :=
  if net.appEventsOpen then
    match net.appEvents.recv with
    | some (appEvent, appEvents) => ({ net with appEvents := appEvents }, some (.shown appEvent))
    | none => (net, none)
  else (net, none)

def step (act : Act) : RuntimeNetwork H T × Option Seen :=
  match act with
  | .submit command => net.submit command
  | .report event => net.report event
  | .takeCommand env => net.takeCommand sha256 noise env
  | .takeEvent env => net.takeEvent sha256 noise env
  | .sendEffect => net.sendEffect
  | .sendAppEvent => net.sendAppEvent
  | .pollEffect transport => net.pollEffect transport
  | .pollAppEvent => net.pollAppEvent
  | .leave transport => ({ net with effects := net.effects.unsubscribe transport }, none)
  | .closeCommands => ({ net with commandsOpen := false }, none)
  | .closeAppEvents => ({ net with appEventsOpen := false }, none)

/-- What was seen in a run, in order. -/
def log (acts : List Act) : List Seen := collected (step sha256 noise) (fun _ seen => seen) net acts

/-- What one action can do, with the reasons for it. -/
inductive Steps : RuntimeNetwork H T → Option Seen → Prop
  | idle : Steps net none
  | submitted {command : Command} {commands : Mpsc Command} (isOpen : net.commandsOpen = true)
      (running : ¬ net.Ended) (sent : net.commands.trySend command = some commands) :
      Steps { net with commands := commands } (some (.submitted command))
  | reported {event : Event} {events : Mpsc Event} (running : ¬ net.Ended)
      (sent : net.events.trySend event = some events) :
      Steps { net with events := events } (some (.reported event))
  | tookCommand {command : Command} {commands : Mpsc Command} {env : Surroundings}
      (receiving : net.Receiving) (got : net.commands.recv = some (command, commands)) :
      Steps ({ net with commands := commands }.handle sha256 noise (.command command, env)).1
        (some (.took (.command command, env)))
  | tookEvent {event : Event} {events : Mpsc Event} {env : Surroundings}
      (receiving : net.Receiving) (got : net.events.recv = some (event, events)) :
      Steps ({ net with events := events }.handle sha256 noise (.event event, env)).1
        (some (.took (.event event, env)))
  | commandsClosed (receiving : net.Receiving) (drained : net.commands.recv = none)
      (closed : net.commandsOpen = false) :
      Steps { net with alive := false } (some .commandsClosed)
  | sentEffect {effect : Effect} {rest : List Effect} {appEvents : List AppEvent}
      {effects : Broadcast ChannelTransportType Effect}
      (next : net.pending = (effect :: rest, appEvents))
      (sent : net.effects.send effect = some effects) :
      Steps { net with
          core := net.core.addGenerated 1 0, effects := effects, pending := (rest, appEvents) }
        (some (.sentEffect effect))
  | sentAppEvent {appEvent : AppEvent} {rest : List AppEvent} {appEvents : Mpsc AppEvent}
      (next : net.pending = ([], appEvent :: rest)) (isOpen : net.appEventsOpen = true)
      (sent : net.appEvents.trySend appEvent = some appEvents) :
      Steps { net with
          core := net.core.addGenerated 0 1, appEvents := appEvents, pending := ([], rest) }
        (some (.sentAppEvent appEvent))
  | lost (unsent : net.pending ≠ ([], []))
      (closed : net.pending.1 ≠ [] ∧ ¬ net.effects.Heard ∨
        net.pending.1 = [] ∧ net.appEventsOpen = false) :
      Steps { net with pending := ([], []) } (some (.lost net.pending))
  | handled {transport : ChannelTransportType} {effect : Effect}
      {effects : Broadcast ChannelTransportType Effect}
      (got : net.effects.recv transport = (.value effect, effects)) :
      Steps { net with effects := effects } (some (.handled transport effect))
  | stopped {transport : ChannelTransportType}
      (subscribed : (net.effects.positions.lookup transport).isSome)
      (ended : (∃ missed, (net.effects.recv transport).1 = .lagged missed) ∨
        net.Ended ∧ (net.effects.recv transport).1 = .empty) :
      Steps { net with effects := net.effects.unsubscribe transport }
        (some (.stopped transport))
  | shown {appEvent : AppEvent} {appEvents : Mpsc AppEvent} (isOpen : net.appEventsOpen = true)
      (got : net.appEvents.recv = some (appEvent, appEvents)) :
      Steps { net with appEvents := appEvents } (some (.shown appEvent))
  | left (transport : ChannelTransportType) :
      Steps { net with effects := net.effects.unsubscribe transport } none
  | closedCommands : Steps { net with commandsOpen := false } none
  | closedAppEvents : Steps { net with appEventsOpen := false } none

variable {sha256 noise net}

theorem handle_seen (received : CoreLogicTask.Input × Surroundings) :
    (net.handle sha256 noise received).2 = some (.took received) := by
  unfold handle
  obtain ⟨core, (_ | _) | _⟩ := net.core.receive sha256 noise received <;> rfl

theorem steps_sendEffect : Steps sha256 noise net net.sendEffect.1 net.sendEffect.2 := by
  rcases hpending : net.pending with ⟨effects, appEvents⟩
  cases effects with
  | nil =>
    simp only [sendEffect, hpending]
    exact .idle
  | cons effect rest =>
    simp only [sendEffect, hpending]
    cases hsend : net.effects.send effect with
    | none =>
      have unheard := Broadcast.send_eq_none.mp hsend
      rw [← hpending]
      refine .lost ?_ (.inl ⟨?_, unheard⟩) <;> simp [hpending]
    | some effects => exact .sentEffect hpending hsend

theorem steps_sendAppEvent : Steps sha256 noise net net.sendAppEvent.1 net.sendAppEvent.2 := by
  rcases hpending : net.pending with ⟨effects, appEvents⟩
  match effects, appEvents, hpending with
  | _ :: _, _, hpending =>
    simp only [sendAppEvent, hpending]
    exact .idle
  | [], [], hpending =>
    simp only [sendAppEvent, hpending]
    exact .idle
  | [], appEvent :: rest, hpending =>
    simp only [sendAppEvent, hpending]
    split_ifs with hopen
    · cases hsend : net.appEvents.trySend appEvent with
      | none => exact .idle
      | some appEvents => exact .sentAppEvent hpending hopen hsend
    · rw [← hpending]
      refine .lost ?_ (.inr ⟨?_, ?_⟩) <;> simp [hpending, hopen]

theorem steps_pollEffect (transport : ChannelTransportType) :
    Steps sha256 noise net (net.pollEffect transport).1 (net.pollEffect transport).2 := by
  unfold pollEffect
  rcases hrecv : net.effects.recv transport with ⟨delivery, effects⟩
  cases delivery with
  | value effect => exact .handled hrecv
  | lagged missed =>
    have lags := Broadcast.recv_lags_iff.mp ⟨missed, congrArg Prod.fst hrecv⟩
    obtain ⟨n, hplace, -⟩ := lags
    refine .stopped ?_ (.inl ⟨missed, congrArg Prod.fst hrecv⟩)
    rw [hplace, Option.isSome_some]
  | empty =>
    simp only
    split_ifs with hover
    · exact .stopped hover.2 (.inr ⟨hover.1, congrArg Prod.fst hrecv⟩)
    · exact .idle

theorem steps_takeCommand (env : Surroundings) :
    Steps sha256 noise net (net.takeCommand sha256 noise env).1
      (net.takeCommand sha256 noise env).2 := by
  unfold takeCommand
  by_cases hreceiving : net.Receiving
  · rw [if_pos hreceiving]
    cases hrecv : net.commands.recv with
    | none =>
      simp only
      split_ifs with hopen
      · exact .idle
      · exact .commandsClosed hreceiving hrecv (Bool.eq_false_iff.mpr hopen)
    | some got =>
      obtain ⟨command, commands⟩ := got
      simp only [handle_seen]
      exact .tookCommand hreceiving hrecv
  · rw [if_neg hreceiving]
    exact .idle

theorem steps_takeEvent (env : Surroundings) :
    Steps sha256 noise net (net.takeEvent sha256 noise env).1
      (net.takeEvent sha256 noise env).2 := by
  unfold takeEvent
  by_cases hreceiving : net.Receiving
  · rw [if_pos hreceiving]
    cases hrecv : net.events.recv with
    | none => exact .idle
    | some got =>
      obtain ⟨event, events⟩ := got
      simp only [handle_seen]
      exact .tookEvent hreceiving hrecv
  · rw [if_neg hreceiving]
    exact .idle

/-- Every action does one of these. -/
theorem steps_step (act : Act) :
    Steps sha256 noise net (net.step sha256 noise act).1 (net.step sha256 noise act).2 := by
  cases act with
  | submit command =>
    simp only [step, submit]
    split_ifs with h
    · cases hsend : net.commands.trySend command with
      | none => exact .idle
      | some commands => exact .submitted h.1 h.2 hsend
    · exact .idle
  | report event =>
    simp only [step, report]
    split_ifs with h
    · exact .idle
    · cases hsend : net.events.trySend event with
      | none => exact .idle
      | some events => exact .reported h hsend
  | takeCommand env => exact steps_takeCommand env
  | takeEvent env => exact steps_takeEvent env
  | sendEffect => exact steps_sendEffect
  | sendAppEvent => exact steps_sendAppEvent
  | pollEffect transport => exact steps_pollEffect transport
  | pollAppEvent =>
    simp only [step, pollAppEvent]
    split_ifs with hopen
    · cases hrecv : net.appEvents.recv with
      | none => exact .idle
      | some got => exact .shown hopen hrecv
    · exact .idle
  | leave transport => exact .left transport
  | closeCommands => exact .closedCommands
  | closeAppEvents => exact .closedAppEvents

/-- An invariant between the tasks and what was seen, kept by whatever an action can do,
holds in every run. -/
theorem log_invariant {I : RuntimeNetwork H T → List Seen → Prop}
    (hstep : ∀ net net' seen log, I net log → Steps sha256 noise net net' seen →
      I net' (log ++ seen.toList))
    (hinit : I net []) (acts : List Act) :
    I (run (step sha256 noise) net acts) (net.log sha256 noise acts) := by
  unfold log
  apply collected_invariant (P := fun _ _ => True) ?_ hinit along_true
  intro net log act h _
  exact hstep net _ _ log h (steps_step act)

end

end RuntimeNetwork

end Bitchat
