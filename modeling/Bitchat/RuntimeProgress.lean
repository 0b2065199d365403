import Bitchat.HandlerResults
import Bitchat.RuntimeDelivery
import Bitchat.Rust.Fairness

/-!
# Progress of the network, and what goes out of it

The tasks do not block each other for ever: the core waits only for the application
to read. Whatever is submitted, no transport is ever told to send anything.
-/
namespace Bitchat
open Rust

namespace RuntimeNetwork

variable {H T : Type} {sha256 : Bytes → Key32} {noise : NoiseLibrary H T}
  {net net' : RuntimeNetwork H T} {log : List Seen} {seen : Option Seen}

/-- Everything on its way to the application has arrived, and nothing that the core could
still take is left. -/
def Drained (net : RuntimeNetwork H T) : Prop :=
  net.pending = ([], []) ∧ net.appEvents.queue = [] ∧
    (net.commands.queue = [] ∧ net.events.queue = [] ∨ net.alive = false ∨
      net.core.running = false)

/-- A bound on the steps it takes. An input counts for its results. -/
def work (net : RuntimeNetwork H T) : ℕ :=
  7 * (net.commands.queue.length + net.events.queue.length) +
    2 * (net.pending.1.length + net.pending.2.length) + net.appEvents.queue.length

/-- Neither the core nor its channels have moved. -/
structure Same (net net' : RuntimeNetwork H T) : Prop where
  core : net'.core = net.core
  pending : net'.pending = net.pending
  alive : net'.alive = net.alive
  commands : net'.commands = net.commands
  events : net'.events = net.events
  appEvents : net'.appEvents = net.appEvents

/-- The application keeps its ends of the channels and has room for an event. -/
structure Attended (net : RuntimeNetwork H T) : Prop where
  commandsOpen : net.commandsOpen = true
  appEventsOpen : net.appEventsOpen = true
  room : 0 < net.appEvents.capacity

/-- No new input comes in and the application stays. -/
def Act.Draining : Act → Prop
  | .submit _ => False
  | .report _ => False
  | .closeCommands => False
  | .closeAppEvents => False
  | _ => True

def Act.IsTakeCommand : Act → Prop
  | .takeCommand _ => True
  | _ => False

def Act.IsTakeEvent : Act → Prop
  | .takeEvent _ => True
  | _ => False

/-- The turns of the core and of the application. -/
def turns : List (Act → Prop) :=
  [(· = .sendEffect), (· = .sendAppEvent), (· = .pollAppEvent), Act.IsTakeCommand,
    Act.IsTakeEvent]

/-- Handling an input makes at most six steps of work. -/
theorem work_handle (sha256 : Bytes → Key32) (noise : NoiseLibrary H T)
    {net : RuntimeNetwork H T} (received : CoreLogicTask.Input × Surroundings)
    (idle : net.pending = ([], [])) :
    (net.handle sha256 noise received).1.work ≤ net.work + 6 := by
  have few := CoreLogicTask.few_receive sha256 noise net.core received
  unfold handle
  rcases hreceive : net.core.receive sha256 noise received with ⟨core, (e | _) | handled⟩
  · simp [work]
  · simp [work]
  · obtain ⟨heffects, happEvents⟩ := few handled (congrArg Prod.snd hreceive)
    simp only [work, idle, List.length_nil]
    omega

theorem work_took {commands : Mpsc Command} {command : Command}
    (got : net.commands.recv = some (command, commands)) :
    ({ net with commands := commands } : RuntimeNetwork H T).work + 7 = net.work := by
  obtain ⟨hqueue, -⟩ := Mpsc.recv_eq_some got
  simp only [work, hqueue, List.length_cons]
  omega

theorem work_tookEvent {events : Mpsc Event} {event : Event}
    (got : net.events.recv = some (event, events)) :
    ({ net with events := events } : RuntimeNetwork H T).work + 7 = net.work := by
  obtain ⟨hqueue, -⟩ := Mpsc.recv_eq_some got
  simp only [work, hqueue, List.length_cons]
  omega

/-- The steps other than those of the surroundings. -/
def Seen.Inner : Seen → Prop
  | .submitted _ => False
  | .reported _ => False
  | .commandsClosed => False
  | _ => True

/-- A step inside the network makes the work less or leaves the core alone. -/
theorem steps_work (hstep : Steps sha256 noise net net' seen) (inner : ∀ s ∈ seen, s.Inner) :
    net'.work < net.work ∨ Same net net' := by
  cases hstep with
  | submitted => exact absurd (inner _ rfl) id
  | reported => exact absurd (inner _ rfl) id
  | commandsClosed => exact absurd (inner _ rfl) id
  | @tookCommand command commands env receiving got =>
    have before := work_took got
    have idle : { net with commands := commands }.pending = ([], []) := receiving.2.2
    have after := work_handle sha256 noise (.command command, env) idle
    exact .inl (by omega)
  | @tookEvent event events env receiving got =>
    have before := work_tookEvent got
    have idle : { net with events := events }.pending = ([], []) := receiving.2.2
    have after := work_handle sha256 noise (.event event, env) idle
    exact .inl (by omega)
  | sentEffect next sent =>
    left
    simp only [work, next, List.length_cons]
    omega
  | sentAppEvent next isOpen sent =>
    left
    obtain ⟨hqueue, -⟩ := Mpsc.trySend_eq_some sent
    simp only [work, next, hqueue, List.length_append, List.length_cons, List.length_nil]
    omega
  | lost unsent closed =>
    left
    have some : 0 < net.pending.1.length + net.pending.2.length := by
      by_contra hzero
      have none : net.pending.1.length = 0 ∧ net.pending.2.length = 0 := by omega
      exact unsent (Prod.ext (List.length_eq_zero_iff.mp none.1)
        (List.length_eq_zero_iff.mp none.2))
    simp only [work, List.length_nil]
    omega
  | shown isOpen got =>
    left
    obtain ⟨hqueue, -⟩ := Mpsc.recv_eq_some got
    simp only [work, hqueue, List.length_cons]
    omega
  | _ => exact .inr ⟨rfl, rfl, rfl, rfl, rfl, rfl⟩

theorem work_sendEffect (unsent : net.pending.1 ≠ []) : net.sendEffect.1.work < net.work := by
  rcases hpending : net.pending with ⟨_ | ⟨effect, rest⟩, appEvents⟩
  · simp [hpending] at unsent
  · simp only [sendEffect, hpending]
    cases net.effects.send effect with
    | none =>
      simp only [work, hpending, List.length_cons, List.length_nil]
      omega
    | some effects =>
      simp only [work, hpending, List.length_cons]
      omega

theorem work_sendAppEvent {a : AppEvent} {rest : List AppEvent}
    (unsent : net.pending = ([], a :: rest)) (isOpen : net.appEventsOpen = true)
    (room : net.appEvents.queue.length < net.appEvents.capacity) :
    net.sendAppEvent.1.work < net.work := by
  obtain ⟨appEvents, hsend⟩ := Option.isSome_iff_exists.mp (Mpsc.trySend_isSome.mpr room)
  have hqueue := (Mpsc.trySend_eq_some hsend).1
  simp only [sendAppEvent, unsent, isOpen, if_true]
  rw [hsend]
  simp only [work, unsent, hqueue, List.length_append, List.length_cons, List.length_nil]
  omega

theorem work_pollAppEvent (isOpen : net.appEventsOpen = true)
    (waiting : net.appEvents.queue ≠ []) : net.pollAppEvent.1.work < net.work := by
  cases hrecv : net.appEvents.recv with
  | none => exact absurd (Mpsc.recv_eq_none.mp hrecv) waiting
  | some got =>
    obtain ⟨hqueue, -⟩ := Mpsc.recv_eq_some hrecv
    simp only [pollAppEvent, isOpen, if_true, hrecv, work, hqueue, List.length_cons]
    omega

theorem work_takeCommand (receiving : net.Receiving) (waiting : net.commands.queue ≠ [])
    (env : Surroundings) : (net.takeCommand sha256 noise env).1.work < net.work := by
  cases hrecv : net.commands.recv with
  | none => exact absurd (Mpsc.recv_eq_none.mp hrecv) waiting
  | some got =>
    obtain ⟨command, commands⟩ := got
    have before := work_took hrecv
    have idle : { net with commands := commands }.pending = ([], []) := receiving.2.2
    have after := work_handle sha256 noise (.command command, env) idle
    simp only [takeCommand, if_pos receiving, hrecv]
    omega

theorem work_takeEvent (receiving : net.Receiving) (waiting : net.events.queue ≠ [])
    (env : Surroundings) : (net.takeEvent sha256 noise env).1.work < net.work := by
  cases hrecv : net.events.recv with
  | none => exact absurd (Mpsc.recv_eq_none.mp hrecv) waiting
  | some got =>
    obtain ⟨event, events⟩ := got
    have before := work_tookEvent hrecv
    have idle : { net with events := events }.pending = ([], []) := receiving.2.2
    have after := work_handle sha256 noise (.event event, env) idle
    simp only [takeEvent, if_pos receiving, hrecv]
    omega

theorem steps_capacity (hstep : Steps sha256 noise net net' seen) :
    net'.appEvents.capacity = net.appEvents.capacity := by
  cases hstep with
  | tookCommand => rw [(handle_frame _).2.2.2.1]
  | tookEvent => rw [(handle_frame _).2.2.2.1]
  | sentAppEvent next isOpen sent => exact (Mpsc.trySend_eq_some sent).2
  | shown isOpen got => exact (Mpsc.recv_eq_some got).2
  | _ => rfl

theorem handle_ends (received : CoreLogicTask.Input × Surroundings) :
    (net.handle sha256 noise received).1.commandsOpen = net.commandsOpen ∧
      (net.handle sha256 noise received).1.appEventsOpen = net.appEventsOpen := by
  unfold handle
  obtain ⟨core, (_ | _) | _⟩ := net.core.receive sha256 noise received <;> simp

/-- While the network drains, the application keeps its ends and nothing comes in. -/
theorem draining_step (sha256 : Bytes → Key32) (noise : NoiseLibrary H T) {act : Act}
    (draining : act.Draining) (isOpen : net.commandsOpen = true) :
    (net.step sha256 noise act).1.commandsOpen = net.commandsOpen ∧
      (net.step sha256 noise act).1.appEventsOpen = net.appEventsOpen ∧
      ∀ s ∈ (net.step sha256 noise act).2, s.Inner := by
  cases act with
  | submit => exact absurd draining id
  | report => exact absurd draining id
  | closeCommands => exact absurd draining id
  | closeAppEvents => exact absurd draining id
  | takeCommand env =>
    simp only [step, takeCommand, isOpen]
    split_ifs
    · cases net.commands.recv with
      | none => simp [isOpen]
      | some got => simpa [handle_seen, Seen.Inner] using handle_ends _
    · simp [isOpen]
  | takeEvent env =>
    simp only [step, takeEvent]
    split_ifs
    · cases net.events.recv with
      | none => simp
      | some got => simpa [handle_seen, Seen.Inner] using handle_ends _
    · simp
  | sendEffect =>
    simp only [step, sendEffect]
    split
    · simp
    · rename_i effect rest appEvents hpending
      cases net.effects.send effect <;> simp [Seen.Inner]
  | sendAppEvent =>
    simp only [step, sendAppEvent]
    split
    · rename_i appEvent rest hpending
      split_ifs
      · cases net.appEvents.trySend appEvent <;> simp [Seen.Inner]
      · simp [Seen.Inner]
    · simp
  | pollEffect t =>
    simp only [step, pollEffect]
    split
    · simp [Seen.Inner]
    · simp [Seen.Inner]
    · split_ifs <;> simp [Seen.Inner]
  | pollAppEvent =>
    simp only [step, pollAppEvent]
    split_ifs
    · cases net.appEvents.recv <;> simp [Seen.Inner]
    · simp
  | leave t => exact ⟨rfl, rfl, by simp [step]⟩

theorem Same.trans {first second third : RuntimeNetwork H T} (h : Same first second)
    (h' : Same second third) : Same first third where
  core := h'.core.trans h.core
  pending := h'.pending.trans h.pending
  alive := h'.alive.trans h.alive
  commands := h'.commands.trans h.commands
  events := h'.events.trans h.events
  appEvents := h'.appEvents.trans h.appEvents

theorem Same.work_eq {first second : RuntimeNetwork H T} (h : Same first second) :
    second.work = first.work := by
  rw [work, work, h.commands, h.events, h.pending, h.appEvents]

theorem Same.receiving {first second : RuntimeNetwork H T} (h : Same first second)
    (receiving : first.Receiving) : second.Receiving := by
  rw [Receiving, h.alive, h.core, h.pending]
  exact receiving

theorem Attended.step (h : net.Attended) {act : Act} (draining : act.Draining) :
    (net.step sha256 noise act).1.Attended := by
  obtain ⟨hcommands, happEvents, -⟩ :=
    draining_step sha256 noise draining h.commandsOpen
  exact ⟨hcommands.trans h.commandsOpen, happEvents.trans h.appEventsOpen,
    (steps_capacity (steps_step act)).symm ▸ h.room⟩

/-- What waits to be sent or read is sent or read at some party's next turn. -/
theorem helps_of_unsent (h : net.Attended)
    (unsent : net.pending ≠ ([], []) ∨ net.appEvents.queue ≠ []) :
    ∃ kind ∈ turns, ∀ act, kind act → ∀ later : RuntimeNetwork H T, later.Attended →
      Same net later → (later.step sha256 noise act).1.work < later.work := by
  have reads (waiting : net.appEvents.queue ≠ []) : ∀ act, act = .pollAppEvent →
      ∀ later : RuntimeNetwork H T, later.Attended → Same net later →
        (later.step sha256 noise act).1.work < later.work := by
    rintro _ rfl later attended same
    exact work_pollAppEvent attended.appEventsOpen (same.appEvents.symm ▸ waiting)
  rcases hpending : net.pending with ⟨effects, appEvents⟩
  match effects, appEvents, hpending with
  | effect :: rest, appEvents, hpending =>
    refine ⟨(· = .sendEffect), by simp [turns], ?_⟩
    rintro _ rfl later - same
    apply work_sendEffect
    rw [same.pending, hpending]
    exact List.cons_ne_nil effect rest
  | [], a :: rest, hpending =>
    by_cases room : net.appEvents.queue.length < net.appEvents.capacity
    · refine ⟨(· = .sendAppEvent), by simp [turns], ?_⟩
      rintro _ rfl later attended same
      exact work_sendAppEvent (same.pending.trans hpending) attended.appEventsOpen
        (same.appEvents.symm ▸ room)
    · refine ⟨(· = .pollAppEvent), by simp [turns], reads ?_⟩
      intro empty
      rw [empty] at room
      exact room h.room
  | [], [], hpending =>
    refine ⟨(· = .pollAppEvent), by simp [turns], reads ?_⟩
    exact unsent.resolve_left (fun h => h hpending)

/-- The core and the application get the network drained. -/
theorem works : Works (step sha256 noise) (Attended (H := H) (T := T)) Act.Draining turns Drained
    work Same where
  keeps net act h draining := h.step draining
  refl net := ⟨rfl, rfl, rfl, rfl, rfl, rfl⟩
  trans _ _ _ h h' := h.trans h'
  rank_eq _ _ h := h.work_eq
  lowers net act h draining _ :=
    steps_work (steps_step act) (draining_step sha256 noise draining h.commandsOpen).2.2
  helps := by
    intro net h undone
    by_cases unsent : net.pending ≠ ([], []) ∨ net.appEvents.queue ≠ []
    · exact helps_of_unsent h unsent
    · obtain ⟨idle, read⟩ : net.pending = ([], []) ∧ net.appEvents.queue = [] := by
        simpa [not_or] using unsent
      have left : ¬ (net.commands.queue = [] ∧ net.events.queue = []) ∧ net.alive = true ∧
          net.core.running = true := by
        simpa [Drained, idle, read, not_or] using undone
      have receiving : net.Receiving := ⟨left.2.1, left.2.2, idle⟩
      by_cases waiting : net.commands.queue = []
      · refine ⟨Act.IsTakeEvent, by simp [turns], ?_⟩
        intro act hact later _ same
        cases act with
        | takeEvent env =>
          refine work_takeEvent (same.receiving receiving) ?_ env
          rw [same.events]
          exact fun none => left.1 ⟨waiting, none⟩
        | _ => exact absurd hact id
      · refine ⟨Act.IsTakeCommand, by simp [turns], ?_⟩
        intro act hact later _ same
        cases act with
        | takeCommand env =>
          exact work_takeCommand (same.receiving receiving) (same.commands.symm ▸ waiting) env
        | _ => exact absurd hact id

/-- A transport does not leave, and when it polls it is not too far behind. At the end of what
a core that is over has sent it may stop. -/
def Stays (transport : ChannelTransportType) (net : RuntimeNetwork H T) (act : Act) : Prop :=
  act ≠ .leave transport ∧ (act = .pollEffect transport →
    ∀ n, net.effects.positions.lookup transport = some n →
      net.effects.sent.length ≤ n + net.effects.capacity)

/-- A core that is over has nothing left to send. -/
def Idle (net : RuntimeNetwork H T) : Prop := net.alive = false → net.pending = ([], [])

theorem idle_handle (received : CoreLogicTask.Input × Surroundings)
    (receiving : net.alive = true ∧ net.pending = ([], [])) :
    (net.handle sha256 noise received).1.Idle := by
  unfold handle Idle
  obtain ⟨core, (_ | _) | _⟩ := net.core.receive sha256 noise received <;> simp [receiving]

theorem idle_steps (h : net.Idle) (hstep : Steps sha256 noise net net' seen) : net'.Idle := by
  cases hstep with
  | tookCommand receiving got => exact idle_handle _ ⟨receiving.1, receiving.2.2⟩
  | tookEvent receiving got => exact idle_handle _ ⟨receiving.1, receiving.2.2⟩
  | commandsClosed receiving drained closed => exact fun _ => receiving.2.2
  | sentEffect next sent =>
    intro dead
    cases next.symm.trans (h dead)
  | sentAppEvent next isOpen sent =>
    intro dead
    cases next.symm.trans (h dead)
  | lost unsent closed => exact fun _ => rfl
  | _ => exact h

/-- A core that is over and has sent everything stays so. -/
theorem over_steps (h : net.Ended ∧ net.pending = ([], []))
    (hstep : Steps sha256 noise net net' seen) : net'.Ended ∧ net'.pending = ([], []) := by
  have stopped : ¬ net.Receiving := by
    rintro ⟨alive, running, -⟩
    rcases h.1 with dead | ⟨stopped, -⟩
    · rw [alive] at dead
      cases dead
    · rw [running] at stopped
      cases stopped
  cases hstep with
  | tookCommand receiving got => exact absurd receiving stopped
  | tookEvent receiving got => exact absurd receiving stopped
  | commandsClosed receiving drained closed => exact absurd receiving stopped
  | sentEffect next sent => cases next.symm.trans h.2
  | sentAppEvent next isOpen sent => cases next.symm.trans h.2
  | lost unsent closed => exact absurd h.2 unsent
  | _ => exact h

/-- A transport that stays is there until the core is over and has sent everything. -/
theorem subscribed_or_over {transport : ChannelTransportType} {act : Act}
    (stays : Stays transport net act) (idle : net.Idle)
    (h : net.Subscribed transport ∨ net.Ended ∧ net.pending = ([], [])) :
    (net.step sha256 noise act).1.Subscribed transport ∨
      (net.step sha256 noise act).1.Ended ∧ (net.step sha256 noise act).1.pending = ([], []) := by
  rcases h with subscribed | finished
  · by_cases ended : net.Ended
    · have nothing : net.pending = ([], []) := by
        rcases ended with dead | ⟨-, nothing⟩
        · exact idle dead
        · exact nothing
      exact .inr (over_steps ⟨ended, nothing⟩ (steps_step act))
    · refine .inl ((subscribed_step subscribed act).mpr ⟨stays.1, fun hact n hplace => ?_⟩)
      exact ⟨stays.2 hact n hplace, fun h => absurd h ended⟩
  · exact .inr (over_steps finished (steps_step act))

/-- Nothing has been dropped, and nothing will be while the transport stays. -/
structure Intact (transport : ChannelTransportType) (net : RuntimeNetwork H T) (log : List Seen) :
    Prop where
  attended : net.Attended
  idle : net.Idle
  there : net.Subscribed transport ∨ net.Ended ∧ net.pending = ([], [])
  kept : ∀ s ∈ log, s.dropped = ([], [])

theorem Intact.step {transport : ChannelTransportType} (h : Intact transport net log) {act : Act}
    (draining : act.Draining) (stays : Stays transport net act) :
    Intact transport (net.step sha256 noise act).1
      (log ++ (net.step sha256 noise act).2.toList) := by
  have hstep : Steps sha256 noise net (net.step sha256 noise act).1
      (net.step sha256 noise act).2 := steps_step act
  refine ⟨h.attended.step draining, idle_steps h.idle hstep,
    subscribed_or_over stays h.idle h.there, ?_⟩
  intro s hs
  rcases List.mem_append.mp hs with old | new
  · exact h.kept s old
  · rw [Option.mem_toList] at new
    generalize (net.step sha256 noise act).1 = net', (net.step sha256 noise act).2 = seen at *
    cases hstep with
    | lost unsent closed =>
      rcases h.there with subscribed | ⟨-, nothing⟩
      · rcases closed with ⟨-, unheard⟩ | ⟨-, closed⟩
        · exact absurd ⟨transport, subscribed⟩ unheard
        · rw [h.attended.appEventsOpen] at closed
          cases closed
      · exact absurd nothing unsent
    | _ => cases new <;> rfl

theorem intact_run {transport : ChannelTransportType} {acts : List Act}
    (h : Intact transport net log) (draining : ∀ act ∈ acts, act.Draining)
    (stays : Along (step sha256 noise) (Stays transport) net acts) :
    Intact transport (run (step sha256 noise) net acts) (log ++ net.log sha256 noise acts) := by
  refine collected_invariant
    (I := fun (net : RuntimeNetwork H T) later => Intact transport net (log ++ later)) ?_ ?_
    (along_and.mpr ⟨along_of_forall draining, stays⟩)
  · rintro net later act h ⟨hdraining, hstays⟩
    rw [← List.append_assoc]
    exact h.step hdraining hstays
  · rw [List.append_nil]
    exact h

section

variable (sha256 noise) (channels : ChannelConfig) (core : CoreLogicTask H T)
  (transports : List ChannelTransportType) (acts : List Act)

theorem idle_run : (run (step sha256 noise) (start channels core transports) acts).Idle := by
  let I (net : RuntimeNetwork H T) (_ : List Seen) : Prop := net.Idle
  have always : I (run (step sha256 noise) (start channels core transports) acts)
      ((start channels core transports).log sha256 noise acts) := by
    apply log_invariant (fun _ _ _ _ h hstep => idle_steps h hstep)
    intro dead
    cases dead
  exact always

/-- Everything that was put in has been taken, unless the core has stopped, and everything
that the core returned for it has been sent and shown. -/
structure AllDone (net : RuntimeNetwork H T) (log : List Seen) : Prop where
  taken : log.filterMap Seen.submittedCommand = log.filterMap Seen.takenCommand ∧
      log.filterMap Seen.reportedEvent = log.filterMap Seen.takenEvent ∨
    net.alive = false ∨ net.core.running = false
  sent : (results sha256 noise core log).flatMap effectsOf = log.filterMap Seen.broadcastEffect
  shown : (results sha256 noise core log).flatMap appEventsOf = log.filterMap Seen.shownAppEvent

variable {sha256 noise channels core transports acts}

theorem allDone_of_drained {transport : ChannelTransportType}
    (drained : (run (step sha256 noise) (start channels core transports) acts).Drained)
    (intact : Intact transport (run (step sha256 noise) (start channels core transports) acts)
      ((start channels core transports).log sha256 noise acts)) :
    AllDone sha256 noise core (run (step sha256 noise) (start channels core transports) acts)
      ((start channels core transports).log sha256 noise acts) := by
  have ends := channels_run sha256 noise channels core transports acts
  have refines := refines_run sha256 noise channels core transports acts
  obtain ⟨heffects, happEvents, -⟩ := out_of_intact intact.kept
  obtain ⟨nothing, read, taken⟩ := drained
  refine ⟨?_, ?_, ?_⟩
  · refine taken.imp_left fun empty => ⟨?_, ?_⟩
    · rw [ends.commands, empty.1, List.append_nil]
    · rw [ends.events, empty.2, List.append_nil]
  · rw [refines.effects, heffects, nothing, List.append_nil]
  · rw [refines.appEvents, happEvents, nothing, List.append_nil, ends.appEvents, read,
      List.append_nil]

end

/-- From every state that a started runtime reaches: once no new input comes in, the application
and one transport stay, rounds in which the core and the application have their turns, in any
order and with the transports in between, get everything taken, sent and shown. -/
theorem drained_of_fair (sha256 : Bytes → Key32) (noise : NoiseLibrary H T)
    (channels : ChannelConfig) (core : CoreLogicTask H T)
    (transports : List ChannelTransportType) (acts : List Act) (transport : ChannelTransportType)
    (attended : (run (step sha256 noise) (start channels core transports) acts).Attended)
    (subscribed :
      (run (step sha256 noise) (start channels core transports) acts).Subscribed transport)
    (rounds : List (List Act)) (fair : ∀ round ∈ rounds, FairRound Act.Draining turns round)
    (stays : Along (step sha256 noise) (Stays transport)
      (run (step sha256 noise) (start channels core transports) acts) rounds.flatten)
    (enough : (run (step sha256 noise) (start channels core transports) acts).work <
      rounds.length) :
    ∃ before rest, rounds.flatten = before ++ rest ∧
      AllDone sha256 noise core
        (run (step sha256 noise) (start channels core transports) (acts ++ before))
        ((start channels core transports).log sha256 noise (acts ++ before)) := by
  obtain ⟨before, rest, hflat, drained⟩ := works.getsDone_of_fair attended fair enough
  have intact : Intact transport
      (run (step sha256 noise) (start channels core transports) (acts ++ before))
      ((start channels core transports).log sha256 noise (acts ++ before)) := by
    have initial : Intact transport
        (run (step sha256 noise) (start channels core transports) acts)
        ((start channels core transports).log sha256 noise acts) :=
      ⟨attended, idle_run sha256 noise channels core transports acts, .inl subscribed,
        dropsExcused_run sha256 noise channels core transports acts attended.appEventsOpen
          ⟨transport, subscribed⟩⟩
    have allowed : ∀ act ∈ before, act.Draining := by
      intro act hact
      have here : act ∈ rounds.flatten := hflat ▸ List.mem_append_left rest hact
      obtain ⟨round, hround, hmem⟩ := List.mem_flatten.mp here
      exact (fair round hround).2 act hmem
    rw [hflat, along_append] at stays
    rw [run_append, log_append]
    exact intact_run initial allowed stays.1
  rw [← run_append] at drained
  exact ⟨before, rest, hflat, allDone_of_drained drained intact⟩

/-- A round with a turn for everyone. -/
def plainRound : List Act :=
  [.takeCommand (CoreLogicTask.callAt 0), .takeEvent (CoreLogicTask.callAt 0), .sendEffect,
    .sendAppEvent, .pollAppEvent]

/-- A discovery that waits to be started is started, and the application is told. -/
theorem waitingNetwork_drained :
    ∃ before rest, (List.replicate 8 plainRound).flatten = before ++ rest ∧
      AllDone MessageStore.lastByteDigest NoiseLibrary.masked CoreLogicTask.startedTask
        (run (step MessageStore.lastByteDigest NoiseLibrary.masked) smallNetwork
          ([.submit .startDiscovery] ++ before))
        (smallNetwork.log MessageStore.lastByteDigest NoiseLibrary.masked
          ([.submit .startDiscovery] ++ before)) := by
  refine drained_of_fair MessageStore.lastByteDigest NoiseLibrary.masked ⟨4, 4, 1, 4⟩
    CoreLogicTask.startedTask [.ble] [.submit .startDiscovery] .ble
    ⟨by decide, by decide, by decide⟩ (by decide) (List.replicate 8 plainRound) ?_ ?_ (by decide)
  · intro round hround
    obtain rfl := List.eq_of_mem_replicate hround
    constructor
    · simp [turns, plainRound, Act.IsTakeCommand, Act.IsTakeEvent]
    · simp [plainRound, Act.Draining]
  · rw [along_iff_forall]
    intro before act rest hsplit
    have hmem : act ∈ (List.replicate 8 plainRound).flatten := by
      rw [hsplit]
      exact List.mem_append_right before List.mem_cons_self
    obtain ⟨round, hround, hact⟩ := List.mem_flatten.mp hmem
    obtain rfl := List.eq_of_mem_replicate hround
    simp only [plainRound, List.mem_cons, List.not_mem_nil, or_false] at hact
    rcases hact with rfl | rfl | rfl | rfl | rfl <;> exact ⟨nofun, nofun⟩

section

variable (sha256 noise) (channels : ChannelConfig) (core : CoreLogicTask H T)
  (transports : List ChannelTransportType) (acts : List Act)

/-- What a transport handled is among the results of the core. -/
theorem handledBy_subset (transport : ChannelTransportType) :
    (((start channels core transports).log sha256 noise acts).filterMap
      (Seen.handledBy transport)) ⊆ (results sha256 noise core
        ((start channels core transports).log sha256 noise acts)).flatMap effectsOf := by
  have ends := channels_run sha256 noise channels core transports acts
  have refines := refines_run sha256 noise channels core transports acts
  intro e he
  have sent := (ends.follows transport).before.subset he
  rw [ends.effects] at sent
  obtain ⟨s, hs, hsent⟩ := List.mem_filterMap.mp sent
  rw [refines.effects]
  refine List.mem_append_left _ (List.mem_flatMap.mpr ⟨s, hs, ?_⟩)
  cases s with
  | sentEffect effect => simpa [Seen.broadcastEffect, Seen.effects, eq_comm] using hsent
  | _ => cases hsent

/-- What the application is shown is among the results of the core. -/
theorem shown_subset :
    (((start channels core transports).log sha256 noise acts).filterMap Seen.shownAppEvent) ⊆
      (results sha256 noise core
        ((start channels core transports).log sha256 noise acts)).flatMap appEventsOf := by
  have ends := channels_run sha256 noise channels core transports acts
  have refines := refines_run sha256 noise channels core transports acts
  intro a ha
  have queued : a ∈ ((start channels core transports).log sha256 noise acts).filterMap
      Seen.queuedAppEvent := by
    rw [ends.appEvents]
    exact List.mem_append_left _ ha
  obtain ⟨s, hs, hqueued⟩ := List.mem_filterMap.mp queued
  rw [refines.appEvents]
  refine List.mem_append_left _ (List.mem_flatMap.mpr ⟨s, hs, ?_⟩)
  cases s with
  | sentAppEvent appEvent => simpa [Seen.queuedAppEvent, Seen.appEvents, eq_comm] using hqueued
  | _ => cases hqueued

end

/-- What a new core makes of its inputs are controls. -/
theorem results_control (sha256 : Bytes → Key32) (noise : NoiseLibrary H T) (peerId : PeerId)
    (localKey : Key32) (config : RateLimitConfig) (startTime : Timestamp) (log : List Seen) :
    ∀ result ∈ results sha256 noise (CoreLogicTask.new peerId localKey config startTime) log,
      Yields Controls result := by
  have idle : (CoreLogicTask.new peerId localKey config startTime : CoreLogicTask H T).OnlyIdle :=
    CoreLogicTask.onlyIdle_of_reachable sha256 noise ⟨[], rfl⟩
  refine forall_outputs (I := CoreLogicTask.OnlyIdle) (Q := Yields Controls) ?_ ?_ idle _
  · intro task received h
    exact CoreLogicTask.onlyIdle_step sha256 noise h received
  · intro task received h
    exact h.controls sha256 noise received

/-- The application of a new core is never shown that a message went out. -/
theorem shown_notSent (sha256 : Bytes → Key32) (noise : NoiseLibrary H T) (peerId : PeerId)
    (localKey : Key32) (config : RateLimitConfig) (startTime : Timestamp)
    (channels : ChannelConfig) (transports : List ChannelTransportType) (acts : List Act) :
    ∀ a ∈ ((start channels (CoreLogicTask.new peerId localKey config startTime)
      transports).log sha256 noise acts).filterMap Seen.shownAppEvent, ¬ a.IsSent := by
  intro a ha
  obtain ⟨result, hresult, hmem⟩ := List.mem_flatMap.mp
    (shown_subset sha256 noise channels _ transports acts ha)
  have told := results_control sha256 noise peerId localKey config startTime _ result hresult
  cases result with
  | error => cases hmem
  | ok handled => exact (told handled rfl).notSent a hmem

/-- Whatever the application submits and the transports report, in whatever order the tasks act:
no transport is ever told to send anything, and the application is never shown that a message
went out. -/
theorem nothing_goes_out (sha256 : Bytes → Key32) (noise : NoiseLibrary H T) (peerId : PeerId)
    (localKey : Key32) (config : RateLimitConfig) (startTime : Timestamp)
    (channels : ChannelConfig) (transports : List ChannelTransportType) (acts : List Act) :
    let log := (start channels (CoreLogicTask.new peerId localKey config startTime)
      transports).log sha256 noise acts
    (∀ transport, ∀ e ∈ log.filterMap (Seen.handledBy transport), e.IsControl) ∧
      ∀ a ∈ log.filterMap Seen.shownAppEvent, ¬ a.IsSent := by
  intro log
  have told := results_control sha256 noise peerId localKey config startTime log
  constructor
  · intro transport e he
    obtain ⟨result, hresult, hmem⟩ := List.mem_flatMap.mp
      (handledBy_subset sha256 noise channels _ transports acts transport he)
    cases result with
    | error => cases hmem
    | ok handled => exact (told _ hresult handled rfl).control e hmem
  · exact shown_notSent sha256 noise peerId localKey config startTime channels transports acts

end RuntimeNetwork

end Bitchat
