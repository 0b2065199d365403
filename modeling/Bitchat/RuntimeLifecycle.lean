import Bitchat.Channel
import Bitchat.Rust.Map
import Bitchat.Rust.Run
import Mathlib.Data.Finset.Option
import Mathlib.Data.Finset.Union

/-!
# The life of a runtime

`BitchatRuntime` from its creation to its end: registering transports, starting, stopping
and dropping. Of a spawned task only its handle matters here, and of a rejected call only
the reason.
-/
namespace Bitchat
open Rust

/-- A transport as the runtime meets it, with what `attach_channels` will answer. -/
structure TransportTask where
  transportType : ChannelTransportType
  attachChannels : Except String Unit

/-- The `Debug` text of a transport. -/
def ChannelTransportType.debug : ChannelTransportType → String
  | .ble => "Ble"
  | .nostr => "Nostr"

/-- The tasks are numbered as they are spawned. The two ends of the channels that the
runtime keeps are those of the core with that number. -/
structure BitchatRuntime where
  pendingTransports : List TransportTask
  transportHandles : Map ChannelTransportType ℕ
  coreLogicHandle : Option ℕ
  commandSender : Option ℕ
  appEventReceiver : Option ℕ
  running : Bool
  spawned : ℕ
  aborted : Finset ℕ

namespace BitchatRuntime

def new : BitchatRuntime := ⟨[], ∅, none, none, none, false, 0, ∅⟩

def addTransport (r : BitchatRuntime) (transport : TransportTask) :
    BitchatRuntime × Except String Unit :=
  if r.running then (r, .error "Cannot add transports to a running runtime")
  else if transport.transportType ∈ r.pendingTransports.map TransportTask.transportType then
    (r, .error s!"Transport type {transport.transportType.debug} is already registered")
  else ({ r with pendingTransports := r.pendingTransports ++ [transport] }, .ok ())

/-- The handle of the new task goes under the type of its transport. -/
def spawnTransport (r : BitchatRuntime) (transport : TransportTask) : BitchatRuntime :=
  { r with
    transportHandles := r.transportHandles.insert transport.transportType r.spawned
    spawned := r.spawned + 1 }

/-- The loop of `start` over the drained transports, which the first error leaves. -/
def startTransports (r : BitchatRuntime) : List TransportTask → BitchatRuntime × Except String Unit
  | [] => ({ r with running := true }, .ok ())
  | transport :: rest =>
    match transport.attachChannels with
    | .error reason => (r, .error reason)
    | .ok () => (r.spawnTransport transport).startTransports rest

/-- The core is spawned before any transport is attached. -/
def spawnCore (r : BitchatRuntime) : BitchatRuntime :=
  { r with
    pendingTransports := []
    coreLogicHandle := some r.spawned
    commandSender := some r.spawned
    appEventReceiver := some r.spawned
    spawned := r.spawned + 1 }

/-- `validation` is what the validation of the configuration answers. -/
def start (validation : Except String Unit) (r : BitchatRuntime) :
    BitchatRuntime × Except String Unit :=
  if r.running then (r, .error "Runtime already running")
  else if r.pendingTransports = [] then
    (r, .error ("No transport tasks registered. " ++
      "Use add_transport() to register at least one transport."))
  else
    match validation with
    | .error reason => (r, .error reason)
    | .ok () => r.spawnCore.startTransports r.pendingTransports

/-- The tasks that the runtime can abort. -/
def handles (r : BitchatRuntime) : Finset ℕ :=
  r.transportHandles.values.toFinset ∪ r.coreLogicHandle.toFinset

def stop (r : BitchatRuntime) : BitchatRuntime × Except String Unit :=
  if r.running then
    ({ r with
        running := false, transportHandles := ∅, coreLogicHandle := none, commandSender := none
        appEventReceiver := none, aborted := r.aborted ∪ r.handles }, .ok ())
  else (r, .ok ())

def takeAppEventReceiver (r : BitchatRuntime) : BitchatRuntime × Option ℕ :=
  ({ r with appEventReceiver := none }, r.appEventReceiver)

/-- What has been aborted when the runtime is dropped. -/
def dropped (r : BitchatRuntime) : Finset ℕ :=
  if r.running then r.aborted ∪ r.handles else r.aborted

inductive Call where
  | addTransport (transport : TransportTask)
  | start
  | stop
  | takeAppEventReceiver

def step (validation : Except String Unit) (r : BitchatRuntime) :
    Call → BitchatRuntime × Except String Unit
  | .addTransport transport => r.addTransport transport
  | .start => r.start validation
  | .stop => r.stop
  | .takeAppEventReceiver => (r.takeAppEventReceiver.1, .ok ())

/-- The start gets as far as spawning the core. -/
def Launches (validation : Except String Unit) (r : BitchatRuntime) : Prop :=
  r.running = false ∧ r.pendingTransports ≠ [] ∧ validation = .ok ()

/-- A start that spawns the core and then fails to attach a transport. -/
def FailsHalfway (validation : Except String Unit) (r : BitchatRuntime) (call : Call) : Prop :=
  call = .start ∧ r.Launches validation ∧
    ∃ transport ∈ r.pendingTransports, transport.attachChannels ≠ .ok ()

section

variable {r : BitchatRuntime} {validation : Except String Unit}

theorem mem_handles {task : ℕ} :
    task ∈ r.handles ↔
      (∃ t, r.transportHandles.lookup t = some task) ∨ r.coreLogicHandle = some task := by
  simp [handles, Map.mem_values, eq_comm]

theorem lookup_spawnTransport (transport : TransportTask) (t : ChannelTransportType) :
    (r.spawnTransport transport).transportHandles.lookup t =
      if t = transport.transportType then some r.spawned else r.transportHandles.lookup t :=
  Map.lookup_insert_if ..

/-- What the loop over the transports leaves alone. -/
structure Extends (r later : BitchatRuntime) : Prop where
  pendingTransports : later.pendingTransports = r.pendingTransports
  coreLogicHandle : later.coreLogicHandle = r.coreLogicHandle
  commandSender : later.commandSender = r.commandSender
  aborted : later.aborted = r.aborted
  spawned : r.spawned ≤ later.spawned
  lookup : ∀ t task, later.transportHandles.lookup t = some task →
    r.transportHandles.lookup t = some task ∨ r.spawned ≤ task ∧ task < later.spawned

theorem startTransports_cons_ok {transport : TransportTask} {rest : List TransportTask}
    (attached : transport.attachChannels = .ok ()) :
    r.startTransports (transport :: rest) = (r.spawnTransport transport).startTransports rest := by
  rw [startTransports, attached]

theorem extends_startTransports (transports : List TransportTask) :
    r.Extends (r.startTransports transports).1 := by
  induction transports generalizing r with
  | nil => exact ⟨rfl, rfl, rfl, rfl, le_rfl, fun t task h => .inl h⟩
  | cons transport rest ih =>
    cases h : transport.attachChannels with
    | error reason =>
      rw [startTransports, h]
      exact ⟨rfl, rfl, rfl, rfl, le_rfl, fun t task h => .inl h⟩
    | ok =>
      rw [startTransports_cons_ok h]
      obtain ⟨pending, core, sender, aborted, spawned, lookup⟩ := @ih (r.spawnTransport transport)
      refine ⟨pending, core, sender, aborted, Nat.le_of_succ_le spawned, fun t task held => ?_⟩
      rcases lookup t task held with before | ⟨low, high⟩
      · rw [lookup_spawnTransport] at before
        split_ifs at before with ht
        · obtain rfl := Option.some.inj before
          exact .inr ⟨le_rfl, spawned⟩
        · exact .inl before
      · exact .inr ⟨Nat.le_of_succ_le low, high⟩

/-- The loop ends with a running runtime exactly if every transport can be attached. -/
theorem running_startTransports (stopped : r.running = false) (transports : List TransportTask) :
    (r.startTransports transports).1.running = true ↔
      ∀ transport ∈ transports, transport.attachChannels = .ok () := by
  induction transports generalizing r with
  | nil => simp [startTransports]
  | cons transport rest ih =>
    cases h : transport.attachChannels with
    | error reason => simp [startTransports, h, stopped]
    | ok =>
      rw [startTransports_cons_ok h, @ih (r.spawnTransport transport) stopped]
      simp [h]

/-- Of transports of different types every task that is spawned stays in the map. -/
theorem held_startTransports {transports : List TransportTask}
    (distinct : (transports.map TransportTask.transportType).Nodup) {task : ℕ}
    (spawned : task < (r.startTransports transports).1.spawned)
    (held : task < r.spawned → ∃ t ∉ transports.map TransportTask.transportType,
      r.transportHandles.lookup t = some task) :
    ∃ t, (r.startTransports transports).1.transportHandles.lookup t = some task := by
  induction transports generalizing r with
  | nil =>
    obtain ⟨t, -, h⟩ := held spawned
    exact ⟨t, h⟩
  | cons transport rest ih =>
    rw [List.map_cons, List.nodup_cons] at distinct
    cases h : transport.attachChannels with
    | error reason =>
      rw [startTransports, h] at spawned ⊢
      obtain ⟨t, -, h⟩ := held spawned
      exact ⟨t, h⟩
    | ok =>
      rw [startTransports_cons_ok h] at spawned ⊢
      refine ih distinct.2 spawned fun earlier => ?_
      rcases Nat.lt_succ_iff_lt_or_eq.mp earlier with old | rfl
      · obtain ⟨t, other, hold⟩ := held old
        rw [List.map_cons, List.mem_cons, not_or] at other
        refine ⟨t, other.2, ?_⟩
        rw [lookup_spawnTransport, if_neg other.1, hold]
      · exact ⟨transport.transportType, distinct.1, by rw [lookup_spawnTransport, if_pos rfl]⟩

/-- What holds at every point of a runtime's life. -/
structure WellFormed (r : BitchatRuntime) : Prop where
  distinct : (r.pendingTransports.map TransportTask.transportType).Nodup
  idle : r.running = true → r.pendingTransports = []
  sender : r.commandSender = r.coreLogicHandle
  aborted : ∀ task ∈ r.aborted, task < r.spawned
  held : ∀ task ∈ r.handles, task < r.spawned

theorem start_of_launches (launches : r.Launches validation) :
    r.start validation = r.spawnCore.startTransports r.pendingTransports := by
  obtain ⟨stopped, registered, rfl⟩ := launches
  simp [start, stopped, registered]

theorem start_of_not_launches (h : ¬ r.Launches validation) : (r.start validation).1 = r := by
  unfold start
  split_ifs with running none
  · rfl
  · rfl
  · cases validation with
    | error reason => rfl
    | ok => exact absurd ⟨by simpa using running, none, rfl⟩ h

/-- Every task is aborted, or will be. -/
def Accounted (r : BitchatRuntime) : Prop :=
  (∀ task < r.spawned, task ∈ r.dropped) ∧ (r.running = false → r.handles = ∅)

/-- A task that nothing will abort. -/
def Lost (r : BitchatRuntime) : Prop :=
  ∃ task < r.spawned, task ∉ r.aborted ∧ (∀ t, r.transportHandles.lookup t ≠ some task) ∧
    (r.running = true → r.coreLogicHandle ≠ some task)

theorem wellFormed_new : new.WellFormed := by
  refine ⟨List.nodup_nil, fun _ => rfl, rfl, ?_, ?_⟩
  · intro task h
    cases h
  · intro task h
    cases h

theorem wellFormed_addTransport (h : r.WellFormed) (transport : TransportTask) :
    (r.addTransport transport).1.WellFormed := by
  unfold addTransport
  split_ifs with running registered
  · exact h
  · exact h
  · refine ⟨?_, fun loops => absurd loops running, h.sender, h.aborted, h.held⟩
    rw [List.map_append, List.map_singleton, ← List.concat_eq_append]
    exact (List.nodup_concat _ _).mpr ⟨registered, h.distinct⟩

theorem wellFormed_start (h : r.WellFormed) (validation : Except String Unit) :
    (r.start validation).1.WellFormed := by
  by_cases launches : r.Launches validation
  · rw [start_of_launches launches]
    have more : r.spawnCore.Extends _ := extends_startTransports r.pendingTransports
    generalize r.spawnCore.startTransports r.pendingTransports = result at more
    refine ⟨?_, fun _ => more.pendingTransports, ?_, fun task aborted => ?_, fun task held => ?_⟩
    · rw [more.pendingTransports]
      exact List.nodup_nil
    · rw [more.commandSender, more.coreLogicHandle]
      rfl
    · rw [more.aborted] at aborted
      exact (h.aborted task aborted).trans more.spawned
    · rcases mem_handles.mp held with ⟨t, transport⟩ | core
      · rcases more.lookup t task transport with before | ⟨-, high⟩
        · exact (h.held task (mem_handles.mpr (.inl ⟨t, before⟩))).trans more.spawned
        · exact high
      · rw [more.coreLogicHandle] at core
        obtain rfl : r.spawned = task := Option.some.inj core
        exact more.spawned
  · rwa [start_of_not_launches launches]

theorem wellFormed_stop (h : r.WellFormed) : r.stop.1.WellFormed := by
  unfold stop
  split_ifs with running
  · refine ⟨h.distinct, fun _ => h.idle running, rfl, fun task aborted => ?_, fun task held => ?_⟩
    · exact (Finset.mem_union.mp aborted).elim (h.aborted task) (h.held task)
    · simp [mem_handles] at held
  · exact h

theorem wellFormed_step (h : r.WellFormed) (call : Call) :
    (r.step validation call).1.WellFormed := by
  cases call with
  | addTransport transport => exact wellFormed_addTransport h transport
  | start => exact wellFormed_start h validation
  | stop => exact wellFormed_stop h
  | takeAppEventReceiver => exact ⟨h.distinct, h.idle, h.sender, h.aborted, h.held⟩

/-- A start that attaches every transport holds all that it spawns. -/
theorem accounted_start (wf : r.WellFormed) (h : r.Accounted)
    (whole : ¬ r.FailsHalfway validation .start) : (r.start validation).1.Accounted := by
  by_cases launches : r.Launches validation
  · rw [start_of_launches launches]
    have attached : ∀ transport ∈ r.pendingTransports, transport.attachChannels = .ok () := by
      by_contra failing
      push Not at failing
      exact whole ⟨rfl, launches, failing⟩
    have more : r.spawnCore.Extends _ := extends_startTransports r.pendingTransports
    have runs := (running_startTransports (r := r.spawnCore) launches.1 r.pendingTransports).mpr
      attached
    refine ⟨fun task spawned => ?_, fun stopped => by simp [runs] at stopped⟩
    rw [dropped, if_pos runs, Finset.mem_union, mem_handles, more.aborted, more.coreLogicHandle]
    rcases lt_trichotomy task r.spawned with old | rfl | late
    · have earlier := h.1 task old
      rw [dropped, if_neg (by simp [launches.1])] at earlier
      exact .inl earlier
    · exact .inr (.inr rfl)
    · refine .inr (.inl (held_startTransports wf.distinct spawned fun early => ?_))
      exact absurd early (Nat.not_lt.mpr late)
  · rwa [start_of_not_launches launches]

theorem accounted_step (wf : r.WellFormed) (h : r.Accounted) {call : Call}
    (whole : ¬ r.FailsHalfway validation call) : (r.step validation call).1.Accounted := by
  cases call with
  | addTransport transport =>
    simp only [step, addTransport]
    split_ifs
    · exact h
    · exact h
    · exact h
  | start => exact accounted_start wf h whole
  | stop =>
    simp only [step, stop]
    split_ifs with running
    · refine ⟨fun task spawned => ?_, fun _ => ?_⟩
      · have accounted := h.1 task spawned
        rwa [dropped, if_pos running] at accounted
      · ext task
        simp [mem_handles]
    · exact h
  | takeAppEventReceiver => exact h

/-- The core of a start that fails halfway is lost: the runtime does not count as running, and
the next start overwrites its handle. -/
theorem lost_of_failsHalfway (wf : r.WellFormed) {call : Call}
    (fails : r.FailsHalfway validation call) : (r.step validation call).1.Lost := by
  obtain ⟨rfl, launches, failing⟩ := fails
  rw [step, start_of_launches launches]
  have more : r.spawnCore.Extends _ := extends_startTransports r.pendingTransports
  refine ⟨r.spawned, more.spawned, fun aborted => ?_, fun t held => ?_, fun runs => ?_⟩
  · rw [more.aborted] at aborted
    exact (wf.aborted _ aborted).false
  · rcases more.lookup t _ held with before | ⟨low, -⟩
    · exact (wf.held _ (mem_handles.mpr (.inl ⟨t, before⟩))).false
    · exact (Nat.not_succ_le_self _ low)
  · have attached := (running_startTransports (r := r.spawnCore) launches.1 _).mp runs
    obtain ⟨transport, registered, fails⟩ := failing
    exact absurd (attached transport registered) fails

theorem lost_step (h : r.Lost) (call : Call) : (r.step validation call).1.Lost := by
  obtain ⟨task, spawned, alive, free, coreless⟩ := h
  cases call with
  | addTransport transport =>
    simp only [step, addTransport]
    split_ifs
    · exact ⟨task, spawned, alive, free, coreless⟩
    · exact ⟨task, spawned, alive, free, coreless⟩
    · exact ⟨task, spawned, alive, free, coreless⟩
  | start =>
    by_cases launches : r.Launches validation
    · rw [step, start_of_launches launches]
      have more : r.spawnCore.Extends _ := extends_startTransports r.pendingTransports
      refine ⟨task, spawned.trans more.spawned, ?_, fun t held => ?_, fun _ core => ?_⟩
      · rwa [more.aborted]
      · rcases more.lookup t task held with before | ⟨low, -⟩
        · exact free t before
        · exact absurd spawned (Nat.not_lt.mpr (Nat.le_of_succ_le low))
      · rw [more.coreLogicHandle] at core
        exact spawned.ne' (Option.some.inj core)
    · rw [step, start_of_not_launches launches]
      exact ⟨task, spawned, alive, free, coreless⟩
  | stop =>
    simp only [step, stop]
    split_ifs with running
    · refine ⟨task, spawned, ?_, fun t held => by simp at held, fun loops => by simp at loops⟩
      rw [Finset.mem_union, mem_handles]
      rintro (aborted | ⟨t, held⟩ | core)
      · exact alive aborted
      · exact free t held
      · exact coreless running core
    · exact ⟨task, spawned, alive, free, coreless⟩
  | takeAppEventReceiver => exact ⟨task, spawned, alive, free, coreless⟩

theorem not_dropped_of_lost (h : r.Lost) : ∃ task < r.spawned, task ∉ r.dropped := by
  obtain ⟨task, spawned, alive, free, coreless⟩ := h
  refine ⟨task, spawned, ?_⟩
  unfold dropped
  split_ifs with running
  · rw [Finset.mem_union, mem_handles]
    rintro (aborted | ⟨t, held⟩ | core)
    · exact alive aborted
    · exact free t held
    · exact coreless running core
  · exact alive

theorem life_run (validation : Except String Unit) (calls : List Call) :
    (run (step validation) new calls).WellFormed ∧
      ((run (step validation) new calls).Accounted ∧
        Along (step validation) (fun r call => ¬ r.FailsHalfway validation call) new calls ∨
      (run (step validation) new calls).Lost ∧
        ¬ Along (step validation) (fun r call => ¬ r.FailsHalfway validation call) new calls) := by
  induction calls using List.reverseRecOn with
  | nil => exact ⟨wellFormed_new, .inl ⟨⟨fun task h => absurd h (Nat.not_lt_zero task),
      fun _ => rfl⟩, trivial⟩⟩
  | append_singleton before call ih =>
    obtain ⟨wf, outcome⟩ := ih
    rw [run_concat, along_append]
    refine ⟨wellFormed_step wf call, ?_⟩
    rcases outcome with ⟨accounted, whole⟩ | ⟨lost, broken⟩
    · by_cases fails : (run (step validation) new before).FailsHalfway validation call
      · exact .inr ⟨lost_of_failsHalfway wf fails, fun h => h.2.1 fails⟩
      · exact .inl ⟨accounted_step wf accounted fails, whole, fails, trivial⟩
    · exact .inr ⟨lost_step lost call, fun h => broken h.1⟩

/-- When the runtime is dropped, every task that it ever spawned has been aborted exactly if no
start failed halfway. -/
theorem dropped_aborts_all_iff (validation : Except String Unit) (calls : List Call) :
    (∀ task < (run (step validation) new calls).spawned,
        task ∈ (run (step validation) new calls).dropped) ↔
      Along (step validation) (fun r call => ¬ r.FailsHalfway validation call) new calls := by
  rcases (life_run validation calls).2 with ⟨accounted, whole⟩ | ⟨lost, broken⟩
  · exact iff_of_true accounted.1 whole
  · obtain ⟨task, spawned, alive⟩ := not_dropped_of_lost lost
    exact iff_of_false (fun all => alive (all task spawned)) broken

/-- The second transport cannot be attached, and neither the core nor the first transport is
ever aborted. -/
example : (run (step (.ok ())) new [.addTransport ⟨.ble, .ok ()⟩,
    .addTransport ⟨.nostr, .error "already attached"⟩, .start, .stop]).dropped = ∅ := by decide

/-- The call adds a transport. -/
def Adds (validation : Except String Unit) (r : BitchatRuntime) (call : Call) : Prop :=
  ∃ transport, call = .addTransport transport ∧ (r.step validation call).2 = .ok ()

theorem pendingTransports_step (h : r.pendingTransports = []) {call : Call}
    (other : ¬ r.Adds validation call) : (r.step validation call).1.pendingTransports = [] := by
  cases call with
  | addTransport transport =>
    have refused : (r.addTransport transport).2 ≠ .ok () := fun added =>
      other ⟨transport, rfl, added⟩
    revert refused
    simp only [step, addTransport]
    split_ifs
    · exact fun _ => h
    · exact fun _ => h
    · exact fun refused => absurd rfl refused
  | start => rwa [step, start_of_not_launches fun launches => launches.2.1 h]
  | stop =>
    simp only [step, stop]
    split_ifs
    · exact h
    · exact h
  | takeAppEventReceiver => exact h

/-- A start uses up the registered transports, whether it succeeds or not: no later start gets
as far as spawning a core unless a call in between added a transport. -/
theorem relaunch_needs_transport (validation : Except String Unit) (before between : List Call)
    (first : (run (step validation) new before).Launches validation)
    (second : (run (step validation) new (before ++ .start :: between)).Launches validation) :
    ∃ earlier call later, between = earlier ++ call :: later ∧
      (run (step validation) new (before ++ .start :: earlier)).Adds validation call := by
  by_contra none
  rw [run_append, run_cons] at second
  have drained : (step validation (run (step validation) new before) .start).1.pendingTransports =
      [] := by
    rw [step, start_of_launches first]
    exact (extends_startTransports _).pendingTransports
  have unregistered : Along (step validation) (fun r call => ¬ r.Adds validation call)
      (step validation (run (step validation) new before) .start).1 between := by
    refine along_iff_forall.mpr fun earlier call later cut adds =>
      none ⟨earlier, call, later, cut, ?_⟩
    rwa [run_append, run_cons]
  exact second.2.1 (run_invariant (I := fun r : BitchatRuntime => r.pendingTransports = [])
    (fun _ _ h other => pendingTransports_step h other) drained unregistered)

theorem stopped_relaunches :
    ∃ earlier call later, [Call.stop, .addTransport ⟨.ble, .ok ()⟩] = earlier ++ call :: later ∧
      (run (step (.ok ())) new ([.addTransport ⟨.ble, .ok ()⟩] ++ .start :: earlier)).Adds (.ok ())
        call :=
  relaunch_needs_transport (.ok ()) [.addTransport ⟨.ble, .ok ()⟩] _
    ⟨rfl, List.cons_ne_nil _ _, rfl⟩ ⟨by decide, List.cons_ne_nil _ _, rfl⟩

end

end BitchatRuntime

end Bitchat
