import Bitchat.RuntimeNetwork

/-!
# The network refines the core

The tasks run concurrently and the core sends its results one at a time. Seen from
outside it is the core that handles one input after the other in one step each, the
level at which `CoreLogicTask` is verified.
-/
namespace Bitchat
open Rust

namespace RuntimeNetwork

/-- The input that the core took. -/
def Seen.taken : Seen → Option (CoreLogicTask.Input × Surroundings)
  | .took received => some received
  | _ => none

/-- The effects that left the hands of the core, sent or dropped. -/
def Seen.effects : Seen → List Effect
  | .sentEffect effect => [effect]
  | .lost unsent => unsent.1
  | _ => []

def Seen.appEvents : Seen → List AppEvent
  | .sentAppEvent appEvent => [appEvent]
  | .lost unsent => unsent.2
  | _ => []

/-- The results that were dropped. -/
def Seen.dropped : Seen → Handled
  | .lost unsent => unsent
  | _ => ([], [])

/-- The effects among the results of one input. -/
def effectsOf : BitchatResult Handled → List Effect
  | .ok handled => handled.1
  | .error _ => []

def appEventsOf : BitchatResult Handled → List AppEvent
  | .ok handled => handled.2
  | .error _ => []

/-- The inputs that the core took, in order. -/
def takenInputs (log : List Seen) : List (CoreLogicTask.Input × Surroundings) :=
  log.filterMap Seen.taken

/-- The effects that left the core, in order. -/
def effectsOut (log : List Seen) : List Effect := log.flatMap Seen.effects

def appEventsOut (log : List Seen) : List AppEvent := log.flatMap Seen.appEvents

/-- All results that were dropped. -/
def droppedResults (log : List Seen) : Handled :=
  (log.flatMap fun seen => seen.dropped.1, log.flatMap fun seen => seen.dropped.2)

@[simp] theorem takenInputs_concat (log : List Seen) (seen : Seen) :
    takenInputs (log ++ [seen]) = takenInputs log ++ seen.taken.toList := by
  cases h : seen.taken <;> simp [takenInputs, h]

@[simp] theorem effectsOut_concat (log : List Seen) (seen : Seen) :
    effectsOut (log ++ [seen]) = effectsOut log ++ seen.effects := by
  simp [effectsOut]

@[simp] theorem appEventsOut_concat (log : List Seen) (seen : Seen) :
    appEventsOut (log ++ [seen]) = appEventsOut log ++ seen.appEvents := by
  simp [appEventsOut]

@[simp] theorem droppedResults_concat (log : List Seen) (seen : Seen) :
    droppedResults (log ++ [seen]) =
      ((droppedResults log).1 ++ seen.dropped.1, (droppedResults log).2 ++ seen.dropped.2) := by
  simp [droppedResults]

variable {H T : Type} (sha256 : Bytes → Key32) (noise : NoiseLibrary H T)

/-- The core as it is when all its results count as sent. -/
def settled (net : RuntimeNetwork H T) (log : List Seen) : CoreLogicTask H T :=
  net.core.addGenerated (net.pending.1.length + (droppedResults log).1.length)
    (net.pending.2.length + (droppedResults log).2.length)

/-- What the core makes of the inputs that were taken, one step for each. -/
def results (core : CoreLogicTask H T) (log : List Seen) : List (BitchatResult Handled) :=
  outputs (CoreLogicTask.step sha256 noise) core (takenInputs log)

/-- The network does what the core does on the inputs it took, one step for each. -/
structure Refines (core : CoreLogicTask H T) (net : RuntimeNetwork H T) (log : List Seen) :
    Prop where
  state : net.settled log = run (CoreLogicTask.step sha256 noise) core (takenInputs log)
  effects : (results sha256 noise core log).flatMap effectsOf = effectsOut log ++ net.pending.1
  appEvents : (results sha256 noise core log).flatMap appEventsOf =
    appEventsOut log ++ net.pending.2

variable {sha256 noise} {core : CoreLogicTask H T} {net net' : RuntimeNetwork H T}
  {log : List Seen} {seen : Option Seen}

theorem results_concat (s : Seen) : results sha256 noise core (log ++ [s]) =
    results sha256 noise core log ++ outputs (CoreLogicTask.step sha256 noise)
      (run (CoreLogicTask.step sha256 noise) core (takenInputs log)) s.taken.toList := by
  rw [results, takenInputs_concat, outputs_append, results]

/-- Actions of the other tasks do not concern the core. -/
theorem Refines.frame (h : Refines sha256 noise core net log) (same : net'.core = net.core)
    (pending : net'.pending = net.pending)
    (silent : ∀ s ∈ seen, s.taken = none ∧ s.effects = [] ∧ s.appEvents = [] ∧
      s.dropped = ([], [])) : Refines sha256 noise core net' (log ++ seen.toList) := by
  cases seen with
  | none =>
    rw [Option.toList_none, List.append_nil]
    constructor
    · rw [settled, same, pending]
      exact h.state
    · rw [pending]
      exact h.effects
    · rw [pending]
      exact h.appEvents
  | some s =>
    obtain ⟨htaken, heffects, happEvents, hdropped⟩ := silent s rfl
    rw [Option.toList_some]
    constructor
    · simpa [settled, same, pending, hdropped, htaken] using h.state
    · simpa [results_concat, outputs, pending, htaken, heffects] using h.effects
    · simpa [results_concat, outputs, pending, htaken, happEvents] using h.appEvents

/-- One step of the core on an input: what the handler leaves, with its results counted. -/
theorem step_settled (sha256 : Bytes → Key32) (noise : NoiseLibrary H T)
    (core : CoreLogicTask H T) (m n : ℕ)
    (received : CoreLogicTask.Input × Surroundings) :
    (core.addGenerated m n).step sha256 noise received =
      ((core.receive sha256 noise received).mapState (CoreLogicTask.addGenerated m n)).andThen
        CoreLogicTask.emit := by
  rw [CoreLogicTask.step_eq_receive, CoreLogicTask.receive_addGenerated]

/-- Handling an input is one step of the core whose results are all pending. -/
theorem Refines.handle (h : Refines sha256 noise core net log) (idle : net.pending = ([], []))
    (received : CoreLogicTask.Input × Surroundings) :
    Refines sha256 noise core (net.handle sha256 noise received).1
      (log ++ [.took received]) := by
  have hstate := h.state
  have heffects := h.effects
  have happEvents := h.appEvents
  simp only [settled, idle, List.length_nil, Nat.zero_add] at hstate
  simp only [idle, List.append_nil] at heffects happEvents
  have next := step_settled sha256 noise net.core
    (droppedResults log).1.length (droppedResults log).2.length received
  rw [hstate] at next
  unfold RuntimeNetwork.handle
  rcases hreceive : net.core.receive sha256 noise received with ⟨core', (e | _) | handled⟩ <;>
    simp only [hreceive, Call.mapState, Call.andThen_error, Call.andThen_ok,
      CoreLogicTask.emit_eq, CoreLogicTask.addGenerated_addGenerated] at next
  · constructor
    · simp [settled, Seen.taken, Seen.dropped, idle, next]
    · simp [results_concat, outputs, Seen.taken, Seen.effects, idle, next, effectsOf, heffects]
    · simp [results_concat, outputs, Seen.taken, Seen.appEvents, idle, next, appEventsOf,
        happEvents]
  · constructor
    · simp [settled, Seen.taken, Seen.dropped, idle, next]
    · simp [results_concat, outputs, Seen.taken, Seen.effects, idle, next, effectsOf, heffects]
    · simp [results_concat, outputs, Seen.taken, Seen.appEvents, idle, next, appEventsOf,
        happEvents]
  · constructor
    · simp [settled, Seen.taken, Seen.dropped, next, Nat.add_comm]
    · simp [results_concat, outputs, Seen.taken, Seen.effects, next, effectsOf, heffects]
    · simp [results_concat, outputs, Seen.taken, Seen.appEvents, next, appEventsOf, happEvents]

theorem refines_steps (h : Refines sha256 noise core net log)
    (hstep : Steps sha256 noise net net' seen) :
    Refines sha256 noise core net' (log ++ seen.toList) := by
  have hstate := h.state
  have heffects := h.effects
  have happEvents := h.appEvents
  cases hstep with
  | @tookCommand command commands env receiving got =>
    have before : Refines sha256 noise core { net with commands := commands } log :=
      ⟨hstate, heffects, happEvents⟩
    exact before.handle receiving.2.2 (.command command, env)
  | @tookEvent event events env receiving got =>
    have before : Refines sha256 noise core { net with events := events } log :=
      ⟨hstate, heffects, happEvents⟩
    exact before.handle receiving.2.2 (.event event, env)
  | sentEffect next sent =>
    simp only [settled, next, List.length_cons] at hstate heffects happEvents
    constructor
    · simp only [settled, CoreLogicTask.addGenerated_addGenerated, Option.toList_some,
        droppedResults_concat, takenInputs_concat, Seen.taken, Seen.dropped, List.append_nil,
        Option.toList_none, ← hstate, Nat.zero_add]
      congr 1
      omega
    · simp [results_concat, outputs, Seen.taken, Seen.effects, heffects]
    · simp [results_concat, outputs, Seen.taken, Seen.appEvents, happEvents]
  | sentAppEvent next isOpen sent =>
    simp only [settled, next, List.length_cons] at hstate heffects happEvents
    constructor
    · simp only [settled, CoreLogicTask.addGenerated_addGenerated, Option.toList_some,
        droppedResults_concat, takenInputs_concat, Seen.taken, Seen.dropped, List.append_nil,
        Option.toList_none, ← hstate, Nat.zero_add]
      congr 1
      omega
    · simp [results_concat, outputs, Seen.taken, Seen.effects, heffects]
    · simp [results_concat, outputs, Seen.taken, Seen.appEvents, happEvents]
  | lost unsent closed =>
    simp only [settled] at hstate
    constructor
    · simp [settled, Seen.taken, Seen.dropped, ← hstate, Nat.add_comm]
    · simp [results_concat, outputs, Seen.taken, Seen.effects, heffects]
    · simp [results_concat, outputs, Seen.taken, Seen.appEvents, happEvents]
  | _ => exact h.frame rfl rfl (by simp [Seen.taken, Seen.effects, Seen.appEvents, Seen.dropped])

/-- Whatever the order in which the tasks act, the network does what the core does on the
inputs it took, one step for each. -/
theorem refines_run (sha256 : Bytes → Key32) (noise : NoiseLibrary H T)
    (config : ChannelConfig) (core : CoreLogicTask H T)
    (transports : List ChannelTransportType) (acts : List Act) :
    Refines sha256 noise core (run (step sha256 noise) (start config core transports) acts)
      ((start config core transports).log sha256 noise acts) := by
  apply log_invariant (fun _ _ _ _ h hstep => refines_steps h hstep)
  exact ⟨rfl, rfl, rfl⟩

/-- Whatever the order in which the tasks act, all that leaves the core is what the core
returns for the inputs it took, one step for each and in their order. What holds in every state
of the core alone, whatever its counters of results say, holds of the core in the network. -/
theorem network_refines_core (sha256 : Bytes → Key32) (noise : NoiseLibrary H T)
    (config : ChannelConfig) (core : CoreLogicTask H T) (transports : List ChannelTransportType)
    (acts : List Act) :
    let net := run (step sha256 noise) (start config core transports) acts
    let log := (start config core transports).log sha256 noise acts
    let returned := outputs (CoreLogicTask.step sha256 noise) core (takenInputs log)
    returned.flatMap effectsOf = effectsOut log ++ net.pending.1 ∧
      returned.flatMap appEventsOf = appEventsOut log ++ net.pending.2 ∧
      ∀ I : CoreLogicTask H T → Prop, (∀ m n task, I (task.addGenerated m n) → I task) →
        (∀ task, Reachable (CoreLogicTask.step sha256 noise) core task → I task) → I net.core := by
  intro net log returned
  have refines := refines_run sha256 noise config core transports acts
  refine ⟨refines.effects, refines.appEvents, fun I uncounted always => ?_⟩
  have counted : I (net.settled log) := by
    rw [refines.state]
    exact always _ ⟨_, rfl⟩
  exact uncounted _ _ _ counted

end RuntimeNetwork

end Bitchat
