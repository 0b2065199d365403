import Bitchat.RuntimeProgress
import Bitchat.TerminalState

/-!
# The terminal at the end of the runtime

`TerminalInterfaceTask` at the application's end of a started runtime: what it lists,
when it reports to be ready, and which message stops it. The clock is read once in
each action.
-/
namespace Bitchat
open Rust

/-- A started runtime with the terminal that listens to it. `running` is the loop of `run`. A
panic inside it poisons the lock of the state. -/
structure TerminalSession (H T : Type) where
  net : RuntimeNetwork H T
  ourPeerId : PeerId
  ui : UIState
  running : Bool
  poisoned : Bool

namespace TerminalSession

variable {H T : Type}

/-- The terminal has been made, and its loop is not entered yet. -/
def new (net : RuntimeNetwork H T) (ourPeerId : PeerId) : TerminalSession H T :=
  ⟨net, ourPeerId, UIState.default, false, false⟩

/-- `run` borrows the task until its future ends or is dropped, so `send_command` is for the time
in between. Others submit commands at any time, with an `inner` action. -/
inductive Act where
  | enter
  | abandon
  | sendCommand (command : Command)
  | maintain (now : UInt64)
  | inner (act : RuntimeNetwork.Act) (now : UInt64)

/-- The reading of the clock in an action. -/
def Act.now : Act → Option UInt64
  | .maintain now => some now
  | .inner _ now => some now
  | _ => none

section

variable (sha256 : Bytes → Key32) (noise : NoiseLibrary H T) (t : TerminalSession H T)

/-- The beginning of `run`, which panics behind a poisoned lock. The receiver of the events is
dropped with the task only. -/
def enter : TerminalSession H T :=
  if t.running = false ∧ t.poisoned = false ∧ t.net.appEventsOpen = true then
    { t with running := true, ui := { t.ui with systemStatus := .ready } }
  else t

/-- The loop takes the next event, or ends when there will be none. -/
def poll (now : UInt64) : TerminalSession H T × Option RuntimeNetwork.Seen :=
  if t.running then
    match t.net.pollAppEvent with
    | (net, some (.shown appEvent)) =>
      match t.ui.processAppEvent t.ourPeerId now appEvent with
      | (ui, .ok ()) => ({ t with net := net, ui := ui }, some (.shown appEvent))
      | (ui, .error _) =>
        ({ t with net := net, ui := ui, running := false, poisoned := true },
          some (.shown appEvent))
    | (net, seen) =>
      if net.Ended ∧ net.appEventsOpen = true then
        ({ t with
            net := net, running := false, ui := { t.ui with systemStatus := .shuttingDown } }, seen)
      else ({ t with net := net }, seen)
  else (t, none)

/-- The command does not fit into the channel. -/
def Overflows (command : Command) : Prop :=
  t.net.commandsOpen = true ∧ ¬ t.net.Ended ∧ t.net.commands.trySend command = none

instance (command : Command) : Decidable (t.Overflows command) :=
  inferInstanceAs (Decidable (_ ∧ _ ∧ _))

/-- `send_command`. Behind a poisoned lock nothing is noted. -/
def sendCommand (command : Command) : TerminalSession H T × Option RuntimeNetwork.Seen :=
  if t.running then (t, none)
  else
    let sent := t.net.submit command
    if t.Overflows command ∧ t.poisoned = false then
      ({ t with net := sent.1, ui := t.ui.noteOverload }, sent.2)
    else ({ t with net := sent.1 }, sent.2)

def maintain (now : UInt64) : TerminalSession H T × Option RuntimeNetwork.Seen :=
  if t.running then
    match t.ui.performUiMaintenance now with
    | .ok ui => ({ t with ui := ui }, none)
    | .error _ => ({ t with running := false, poisoned := true }, none)
  else (t, none)

def step : Act → TerminalSession H T × Option RuntimeNetwork.Seen
  | .enter => (t.enter, none)
  | .abandon => ({ t with running := false }, none)
  | .sendCommand command => t.sendCommand command
  | .maintain now => t.maintain now
  | .inner .pollAppEvent now => t.poll now
  | .inner .closeAppEvents _ =>
    ({ t with net := { t.net with appEventsOpen := false }, running := false }, none)
  | .inner act _ =>
    let (net, seen) := t.net.step sha256 noise act
    ({ t with net := net }, seen)

/-- What was seen in a run, in order. -/
def log (acts : List Act) : List RuntimeNetwork.Seen :=
  collected (step sha256 noise) (fun _ seen => seen) t acts

/-- A tidying up that panics, or an event. -/
def Crashes : Act → Prop
  | .maintain now => t.running = true ∧ t.ui.FromFuture now
  | .inner .pollAppEvent _ => t.running = true ∧
      ∃ appEvent, t.net.pollAppEvent.2 = some (.shown appEvent) ∧ t.ui.Full appEvent
  | _ => False

/-- What one action can do, with the reasons for it. -/
inductive Moves : Act → TerminalSession H T → Option RuntimeNetwork.Seen → Prop
  | entered (ended : t.running = false) (intact : t.poisoned = false) :
      Moves .enter { t with running := true, ui := { t.ui with systemStatus := .ready } } none
  | abandoned : Moves .abandon { t with running := false } none
  | shown {now : UInt64} {appEvent : AppEvent} {ui : UIState} (running : t.running = true)
      (got : t.net.pollAppEvent.2 = some (.shown appEvent)) (room : ¬ t.ui.Full appEvent)
      (noted : UIState.Noted t.ui t.ourPeerId now appEvent ui) :
      Moves (.inner .pollAppEvent now) { t with net := t.net.pollAppEvent.1, ui := ui }
        (some (.shown appEvent))
  | choked {now : UInt64} {appEvent : AppEvent} {message : UIMessage} (running : t.running = true)
      (got : t.net.pollAppEvent.2 = some (.shown appEvent)) (full : t.ui.Full appEvent)
      (listed : appEvent.listed t.ourPeerId = some message) :
      Moves (.inner .pollAppEvent now)
        { t with
          net := t.net.pollAppEvent.1, ui := t.ui.push message
          running := false, poisoned := true }
        (some (.shown appEvent))
  | finished {now : UInt64} (running : t.running = true) (nothing : t.net.pollAppEvent.2 = none) :
      Moves (.inner .pollAppEvent now)
        { t with
          net := t.net.pollAppEvent.1, running := false
          ui := { t.ui with systemStatus := .shuttingDown } } none
  | overflowed {command : Command} (ended : t.running = false) (full : t.Overflows command)
      (intact : t.poisoned = false) :
      Moves (.sendCommand command) { t with ui := t.ui.noteOverload } none
  | sent {command : Command} (ended : t.running = false) :
      Moves (.sendCommand command) { t with net := (t.net.submit command).1 }
        (t.net.submit command).2
  | closed {now : UInt64} :
      Moves (.inner .closeAppEvents now)
        { t with net := { t.net with appEventsOpen := false }, running := false } none
  | inner {act : RuntimeNetwork.Act} {now : UInt64}
      (unseen : ∀ appEvent, (t.net.step sha256 noise act).2 ≠ some (.shown appEvent)) :
      Moves (.inner act now) { t with net := (t.net.step sha256 noise act).1 }
        (t.net.step sha256 noise act).2
  | missed {act : Act} (harmless : ¬ t.Crashes act) : Moves act t none
  | tidied {now : UInt64} (running : t.running = true) (past : ¬ t.ui.FromFuture now) :
      Moves (.maintain now) { t with ui := t.ui.tidied now } none
  | crashed {now : UInt64} (running : t.running = true) (future : t.ui.FromFuture now) :
      Moves (.maintain now) { t with running := false, poisoned := true } none

variable {sha256 noise t}

theorem pollAppEvent_seen (net : RuntimeNetwork H T) :
    net.pollAppEvent.2 = none ∨ ∃ appEvent, net.pollAppEvent.2 = some (.shown appEvent) := by
  unfold RuntimeNetwork.pollAppEvent
  split
  · split
    · exact .inr ⟨_, rfl⟩
    · exact .inl rfl
  · exact .inl rfl

theorem submit_unseen (net : RuntimeNetwork H T) (command : Command) (appEvent : AppEvent) :
    (net.submit command).2 ≠ some (.shown appEvent) := by
  unfold RuntimeNetwork.submit
  split
  · split <;> simp
  · simp

/-- Only the application's poll shows an event. -/
theorem unseen_of_ne {net : RuntimeNetwork H T} {act : RuntimeNetwork.Act}
    (h : act ≠ .pollAppEvent) (appEvent : AppEvent) :
    (net.step sha256 noise act).2 ≠ some (.shown appEvent) := by
  intro hseen
  cases act with
  | pollAppEvent => exact h rfl
  | submit command => exact submit_unseen net command appEvent hseen
  | report event =>
    simp only [RuntimeNetwork.step, RuntimeNetwork.report] at hseen
    split at hseen
    · cases hseen
    · split at hseen <;> cases hseen
  | takeCommand env =>
    simp only [RuntimeNetwork.step, RuntimeNetwork.takeCommand] at hseen
    split at hseen
    · split at hseen
      · rw [RuntimeNetwork.handle_seen] at hseen
        cases hseen
      · split at hseen <;> cases hseen
    · cases hseen
  | takeEvent env =>
    simp only [RuntimeNetwork.step, RuntimeNetwork.takeEvent] at hseen
    split at hseen
    · split at hseen
      · rw [RuntimeNetwork.handle_seen] at hseen
        cases hseen
      · cases hseen
    · cases hseen
  | sendEffect =>
    simp only [RuntimeNetwork.step, RuntimeNetwork.sendEffect] at hseen
    split at hseen
    · cases hseen
    · split at hseen <;> cases hseen
  | sendAppEvent =>
    simp only [RuntimeNetwork.step, RuntimeNetwork.sendAppEvent] at hseen
    split at hseen
    · split at hseen
      · split at hseen <;> cases hseen
      · cases hseen
    · cases hseen
  | pollEffect transport =>
    simp only [RuntimeNetwork.step, RuntimeNetwork.pollEffect] at hseen
    split at hseen
    · cases hseen
    · cases hseen
    · split at hseen <;> cases hseen
  | _ => cases hseen

theorem moves_poll (now : UInt64) :
    Moves sha256 noise t (.inner .pollAppEvent now) (t.poll now).1 (t.poll now).2 := by
  unfold poll
  split_ifs with running
  · split
    · rename_i net appEvent heq
      obtain rfl : t.net.pollAppEvent.1 = net := congrArg Prod.fst heq
      have got : t.net.pollAppEvent.2 = some (.shown appEvent) := congrArg Prod.snd heq
      rcases UIState.ends_processAppEvent t.ui t.ourPeerId now appEvent with
        ⟨full, message, listed, panics⟩ | ⟨room, ui, done, noted⟩
      · rw [panics]
        exact .choked running got full listed
      · rw [done]
        exact .shown running got room noted
    · rename_i net seen other heq
      have nothing : seen = none := by
        rcases pollAppEvent_seen t.net with h | ⟨appEvent, h⟩
        · rwa [heq] at h
        · rw [heq] at h
          exact absurd h (other appEvent)
      subst nothing
      obtain rfl : t.net.pollAppEvent.1 = net := congrArg Prod.fst heq
      split_ifs
      · exact .finished running (congrArg Prod.snd heq)
      · have seen : (t.net.step sha256 noise .pollAppEvent).2 = none := congrArg Prod.snd heq
        have unseen (appEvent : AppEvent) :
            (t.net.step sha256 noise .pollAppEvent).2 ≠ some (.shown appEvent) := by simp [seen]
        have move : Moves sha256 noise t (.inner .pollAppEvent now)
          { t with net := (t.net.step sha256 noise .pollAppEvent).1 }
          (t.net.step sha256 noise .pollAppEvent).2 := .inner unseen
        rwa [seen] at move
  · exact .missed fun crash => running crash.1

/-- The loop hands on what the channel holds, also if it then panics. -/
theorem poll_shown {now : UInt64} {appEvent : AppEvent} (running : t.running = true)
    (got : t.net.pollAppEvent.2 = some (.shown appEvent)) :
    (t.poll now).2 = some (.shown appEvent) := by
  rw [poll, if_pos running]
  split
  · rename_i net shown heq
    rw [heq] at got
    split <;> exact got
  · rename_i net seen other heq
    rw [heq] at got
    exact absurd got (other appEvent)

theorem submit_of_overflows {command : Command} (full : t.Overflows command) :
    t.net.submit command = (t.net, none) := by
  obtain ⟨isOpen, running, none_left⟩ := full
  rw [RuntimeNetwork.submit, if_pos ⟨isOpen, running⟩, none_left]

theorem moves_sendCommand (command : Command) :
    Moves sha256 noise t (.sendCommand command) (t.sendCommand command).1
      (t.sendCommand command).2 := by
  unfold sendCommand
  split_ifs with running overflow
  · exact .missed id
  · rw [submit_of_overflows overflow.1]
    exact .overflowed (by simpa using running) overflow.1 overflow.2
  · exact .sent (by simpa using running)

theorem moves_maintain (now : UInt64) :
    Moves sha256 noise t (.maintain now) (t.maintain now).1 (t.maintain now).2 := by
  unfold maintain
  split_ifs with running
  · unfold UIState.performUiMaintenance
    split_ifs with future
    · exact .crashed running future
    · exact .tidied running future
  · exact .missed fun crash => running crash.1

theorem moves_enter : Moves sha256 noise t .enter t.enter none := by
  unfold enter
  split_ifs with ready
  · exact .entered ready.1 ready.2.1
  · exact .missed id

variable (sha256 noise t) in
theorem moves_step (act : Act) :
    Moves sha256 noise t act (t.step sha256 noise act).1 (t.step sha256 noise act).2 := by
  cases act with
  | enter => exact moves_enter
  | abandon => exact .abandoned
  | sendCommand command => exact moves_sendCommand command
  | maintain now => exact moves_maintain now
  | inner act now =>
    cases act with
    | pollAppEvent => exact moves_poll now
    | closeAppEvents => exact .closed
    | _ => exact .inner (unseen_of_ne (by simp))

theorem shownAppEvent_of_unseen {seen : Option RuntimeNetwork.Seen}
    (unseen : ∀ appEvent, seen ≠ some (.shown appEvent)) :
    seen.bind RuntimeNetwork.Seen.shownAppEvent = none := by
  rcases seen with _ | seen
  · rfl
  · cases seen with
    | shown appEvent => exact absurd rfl (unseen appEvent)
    | _ => rfl

variable (sha256 noise t) in
theorem log_invariant {I : TerminalSession H T → List RuntimeNetwork.Seen → Prop}
    (hstep : ∀ t act t' seen log, I t log → Moves sha256 noise t act t' seen →
      I t' (log ++ seen.toList)) (hinit : I t []) (acts : List Act) :
    I (run (step sha256 noise) t acts) (t.log sha256 noise acts) := by
  apply collected_invariant (P := fun _ _ => True) ?_ hinit along_true
  intro t log act h _
  exact hstep t act _ _ log h (moves_step sha256 noise t act)

/-- Beside the terminal the network acts by itself, or does nothing. -/
theorem Moves.network {t' : TerminalSession H T} {act : Act} {seen : Option RuntimeNetwork.Seen}
    (h : Moves sha256 noise t act t' seen) :
    ∃ acts, t'.net = run (RuntimeNetwork.step sha256 noise) t.net acts ∧
      seen.toList = t.net.log sha256 noise acts := by
  have alone (act : RuntimeNetwork.Act) :
      (t.net.step sha256 noise act).2.toList = t.net.log sha256 noise [act] := by
    simp [RuntimeNetwork.log, collected]
  cases h with
  | @shown now appEvent ui running got room noted =>
    exact ⟨[.pollAppEvent], rfl, (congrArg Option.toList got).symm.trans (alone .pollAppEvent)⟩
  | @choked now appEvent message running got full listed =>
    exact ⟨[.pollAppEvent], rfl, (congrArg Option.toList got).symm.trans (alone .pollAppEvent)⟩
  | finished running nothing =>
    exact ⟨[.pollAppEvent], rfl, (congrArg Option.toList nothing).symm.trans (alone .pollAppEvent)⟩
  | @sent command ended => exact ⟨[.submit command], rfl, alone (.submit command)⟩
  | closed => exact ⟨[.closeAppEvents], rfl, rfl⟩
  | @inner act now unseen => exact ⟨[act], rfl, alone act⟩
  | _ => exact ⟨[], rfl, rfl⟩

variable (sha256 noise t) in
theorem network_run (acts : List Act) :
    ∃ inner, (run (step sha256 noise) t acts).net =
        run (RuntimeNetwork.step sha256 noise) t.net inner ∧
      t.log sha256 noise acts = t.net.log sha256 noise inner := by
  apply log_invariant sha256 noise t (I := fun later log => ∃ inner,
    later.net = run (RuntimeNetwork.step sha256 noise) t.net inner ∧
      log = t.net.log sha256 noise inner)
  · rintro later act later' seen log ⟨inner, hnet, rfl⟩ move
    obtain ⟨more, hmore, hseen⟩ := move.network
    refine ⟨inner ++ more, ?_, ?_⟩
    · rw [hmore, hnet, run_append]
    · rw [RuntimeNetwork.log_append, ← hnet, hseen]
  · exact ⟨[], rfl, rfl⟩

/-- The loop does not run behind a poisoned lock. -/
theorem Moves.intact {t' : TerminalSession H T} {act : Act} {seen : Option RuntimeNetwork.Seen}
    (h : Moves sha256 noise t act t' seen) (intact : t.running = true → t.poisoned = false) :
    t'.running = true → t'.poisoned = false := by
  cases h with
  | entered ended unpoisoned => exact fun _ => unpoisoned
  | overflowed ended full unpoisoned => exact fun _ => unpoisoned
  | abandoned => simp
  | choked running got full listed => simp
  | finished running nothing => simp
  | closed => simp
  | crashed running future => simp
  | _ => exact intact

/-- The messages of a log that the terminal lists. -/
def listedIn (ourPeerId : PeerId) (log : List RuntimeNetwork.Seen) : List UIMessage :=
  (log.filterMap RuntimeNetwork.Seen.shownAppEvent).filterMap (AppEvent.listed ourPeerId)

theorem listedIn_concat (ourPeerId : PeerId) (log : List RuntimeNetwork.Seen)
    (seen : Option RuntimeNetwork.Seen) :
    listedIn ourPeerId (log ++ seen.toList) = listedIn ourPeerId log ++
      ((seen.bind RuntimeNetwork.Seen.shownAppEvent).bind (AppEvent.listed ourPeerId)).toList := by
  rw [listedIn, RuntimeNetwork.filterMap_log, List.filterMap_append, ← listedIn]
  cases seen.bind RuntimeNetwork.Seen.shownAppEvent with
  | none => rfl
  | some appEvent => cases h : appEvent.listed ourPeerId <;> simp [h]

/-- The last hundred, and one more if a panic kept the terminal from trimming them. -/
def Recent (t : TerminalSession H T) (messages : List UIMessage) : Prop :=
  t.ui.recentMessages = messages.rtake 100 ∨
    t.poisoned = true ∧ t.ui.recentMessages = messages.rtake 101

theorem Recent.mem {messages : List UIMessage} (h : t.Recent messages) {message : UIMessage}
    (listed : message ∈ t.ui.recentMessages) : message ∈ messages := by
  rcases h with recent | ⟨-, recent⟩ <;>
  · rw [recent] at listed
    exact List.mem_of_mem_drop listed

/-- The list is the last hundred of the messages that were shown. -/
theorem recentMessages_run (net : RuntimeNetwork H T) (ourPeerId : PeerId) (acts : List Act) :
    (run (step sha256 noise) (new net ourPeerId) acts).Recent
      (listedIn ourPeerId ((new net ourPeerId).log sha256 noise acts)) := by
  have listed := log_invariant sha256 noise (new net ourPeerId)
    (I := fun t log => t.ourPeerId = ourPeerId ∧ (t.running = true → t.poisoned = false) ∧
      t.Recent (listedIn ourPeerId log)) ?_ ⟨rfl, by simp [new], .inl rfl⟩ acts
  · exact listed.2.2
  · rintro t act t' seen log ⟨rfl, intact, recent⟩ move
    have before (running : t.running = true) :
        t.ui.recentMessages = (listedIn t.ourPeerId log).rtake 100 := by
      rcases recent with recent | ⟨poisoned, -⟩
      · exact recent
      · rw [intact running] at poisoned
        cases poisoned
    have still := move.intact intact
    rw [listedIn_concat]
    cases move with
    | @shown now appEvent ui running got room noted =>
      refine ⟨rfl, still, .inl ?_⟩
      show ui.recentMessages = _
      rw [noted.recent, before running]
      cases h : appEvent.listed t.ourPeerId with
      | none => simp [RuntimeNetwork.Seen.shownAppEvent, h]
      | some message => simp [RuntimeNetwork.Seen.shownAppEvent, h, pushCapped_rtake]
    | @choked now appEvent message running got full listed =>
      refine ⟨rfl, still, .inr ⟨rfl, ?_⟩⟩
      show t.ui.recentMessages ++ [message] = _
      simp [before running, RuntimeNetwork.Seen.shownAppEvent, listed, List.rtake_concat_succ]
    | inner unseen =>
      refine ⟨rfl, still, ?_⟩
      simpa [Recent, shownAppEvent_of_unseen unseen] using recent
    | sent ended =>
      refine ⟨rfl, still, ?_⟩
      simpa [Recent, shownAppEvent_of_unseen (submit_unseen t.net _)] using recent
    | crashed running future => exact ⟨rfl, still, .inl (by simpa using before running)⟩
    | _ => exact ⟨rfl, still, by simpa [Recent] using recent⟩

theorem listed_incoming {ourPeerId : PeerId} {a : AppEvent} {message : UIMessage}
    (notSent : ¬ a.IsSent) (h : a.listed ourPeerId = some message) :
    message.direction = .incoming ∧ message.recipient = some ourPeerId := by
  cases a with
  | messageReceived sender content timestamp =>
    obtain rfl := Option.some.inj h
    exact ⟨rfl, rfl⟩
  | messageSent recipient content timestamp => exact absurd trivial notSent
  | _ => cases h

/-- What the core returned to the application was shown or is still on its way. -/
theorem returned_eq (sha256 : Bytes → Key32) (noise : NoiseLibrary H T)
    (channels : RuntimeNetwork.ChannelConfig) (core : CoreLogicTask H T)
    (transports : List ChannelTransportType) (ourPeerId : PeerId) (acts : List Act) :
    let first := new (RuntimeNetwork.start channels core transports) ourPeerId
    let net := (run (step sha256 noise) first acts).net
    let log := first.log sha256 noise acts
    net.appEventsOpen = true → net.effects.Heard →
      (outputs (CoreLogicTask.step sha256 noise) core (RuntimeNetwork.takenInputs log)).flatMap
          RuntimeNetwork.appEventsOf =
        log.filterMap RuntimeNetwork.Seen.shownAppEvent ++
          (net.appEvents.queue ++ net.pending.2) := by
  intro first net log isOpen heard
  obtain ⟨inner, hnet, hlog⟩ := network_run sha256 noise first acts
  have hnet' : net = run (RuntimeNetwork.step sha256 noise)
    (RuntimeNetwork.start channels core transports) inner := hnet
  have hlog' : log = (RuntimeNetwork.start channels core transports).log sha256 noise inner := hlog
  rw [hnet'] at isOpen heard
  have channelled := RuntimeNetwork.channels_run sha256 noise channels core transports inner
  have refines := RuntimeNetwork.refines_run sha256 noise channels core transports inner
  obtain ⟨-, intact, -⟩ := RuntimeNetwork.out_of_intact
    (RuntimeNetwork.dropsExcused_run sha256 noise channels core transports inner isOpen heard)
  have returned := refines.appEvents
  rw [intact, channelled.appEvents, List.append_assoc] at returned
  rw [hnet', hlog']
  exact returned

/-- The terminal of a started runtime lists the last hundred of the messages that the core
returned, without those that are still on their way. All of them are incoming. -/
theorem lists_last_hundred (sha256 : Bytes → Key32) (noise : NoiseLibrary H T) (peerId : PeerId)
    (localKey : Key32) (config : RateLimitConfig) (startTime : Timestamp)
    (channels : RuntimeNetwork.ChannelConfig) (transports : List ChannelTransportType)
    (acts : List Act) :
    let core : CoreLogicTask H T := CoreLogicTask.new peerId localKey config startTime
    let first := new (RuntimeNetwork.start channels core transports) peerId
    let t := run (step sha256 noise) first acts
    let inputs := RuntimeNetwork.takenInputs (first.log sha256 noise acts)
    (∀ message ∈ t.ui.recentMessages,
        message.direction = .incoming ∧ message.recipient = some peerId) ∧
      (t.net.appEventsOpen = true → t.net.effects.Heard → ∃ messages,
        t.Recent messages ∧
        ((outputs (CoreLogicTask.step sha256 noise) core inputs).flatMap
            RuntimeNetwork.appEventsOf).filterMap (AppEvent.listed peerId) =
          messages ++ (t.net.appEvents.queue ++ t.net.pending.2).filterMap
            (AppEvent.listed peerId)) := by
  intro core first t inputs
  have recent : t.Recent (listedIn peerId (first.log sha256 noise acts)) :=
    recentMessages_run _ peerId acts
  constructor
  · intro message hmessage
    obtain ⟨a, ha, hlisted⟩ := List.mem_filterMap.mp (recent.mem hmessage)
    obtain ⟨inner, -, hlog⟩ := network_run sha256 noise first acts
    rw [hlog] at ha
    have notSent := RuntimeNetwork.shown_notSent sha256 noise peerId localKey config startTime
      channels transports inner a ha
    exact listed_incoming notSent hlisted
  · intro isOpen heard
    refine ⟨_, recent, ?_⟩
    rw [returned_eq sha256 noise channels core transports peerId acts isOpen heard,
      List.filterMap_append, listedIn]

/-- A started runtime with its terminal. -/
def smallSession : TerminalSession Unit Unit :=
  new RuntimeNetwork.smallNetwork CoreLogicTask.localPeer

/-- A message arrives and is shown. -/
def arrivalActs : List Act :=
  [.enter, .inner (.report (.messageReceived CoreLogicTask.remotePeer ['h', 'i'] .ble none none
      none none)) 1, .inner (.takeEvent (CoreLogicTask.callAt 0)) 1, .inner .sendAppEvent 1,
    .inner .pollAppEvent 2]

theorem arrival_listed :
    (run (step MessageStore.lastByteDigest NoiseLibrary.masked) smallSession
        arrivalActs).ui.recentMessages =
      (((outputs (CoreLogicTask.step MessageStore.lastByteDigest NoiseLibrary.masked)
        CoreLogicTask.startedTask (RuntimeNetwork.takenInputs (smallSession.log
          MessageStore.lastByteDigest NoiseLibrary.masked arrivalActs))).flatMap
            RuntimeNetwork.appEventsOf).filterMap
              (AppEvent.listed CoreLogicTask.localPeer)).rtake 100 := by
  obtain ⟨messages, recent, returned⟩ := (lists_last_hundred MessageStore.lastByteDigest
    NoiseLibrary.masked CoreLogicTask.localPeer (List.Vector.replicate 32 0)
    RateLimitConfig.default ⟨1700000000000⟩ ⟨4, 4, 1, 4⟩ [.ble] arrivalActs).2 (by decide)
    ⟨.ble, by decide⟩
  have arrived : (run (step MessageStore.lastByteDigest NoiseLibrary.masked) smallSession
      arrivalActs).net.appEvents.queue ++ (run (step MessageStore.lastByteDigest
        NoiseLibrary.masked) smallSession arrivalActs).net.pending.2 = [] := by decide
  change _ = messages ++ ((run (step MessageStore.lastByteDigest NoiseLibrary.masked) smallSession
    arrivalActs).net.appEvents.queue ++ (run (step MessageStore.lastByteDigest
      NoiseLibrary.masked) smallSession arrivalActs).net.pending.2).filterMap _ at returned
  rw [arrived, List.filterMap_nil, List.append_nil] at returned
  have intact : (run (step MessageStore.lastByteDigest NoiseLibrary.masked) smallSession
    arrivalActs).poisoned = false := by decide
  rcases recent with recent | ⟨poisoned, -⟩
  · exact recent.trans (congrArg (List.rtake · 100) returned.symm)
  · exact absurd (intact.symm.trans poisoned) (by decide)

/-- What an action tells the terminal about when the peer was seen. -/
def stampOf (p : PeerId) (act : Act) (seen : Option RuntimeNetwork.Seen) : Option Stamp :=
  act.now.bind fun now =>
    (seen.bind RuntimeNetwork.Seen.shownAppEvent).bind (AppEvent.stampFor p now)

variable (sha256 noise t) in
/-- When the peer was seen in a run, in order. -/
def stamps (p : PeerId) (acts : List Act) : List Stamp :=
  collected (step sha256 noise) (stampOf p) t acts

/-- The messages with a peer among what was seen. -/
def mentions (p : PeerId) (seen : List RuntimeNetwork.Seen) : List AppEvent :=
  (seen.filterMap RuntimeNetwork.Seen.shownAppEvent).filter fun a => a.counted = some p

theorem mentions_append (p : PeerId) (xs ys : List RuntimeNetwork.Seen) :
    mentions p (xs ++ ys) = mentions p xs ++ mentions p ys := by
  rw [mentions, List.filterMap_append, List.filter_append]
  rfl

variable (sha256 noise t) in
theorem mentions_log_concat (p : PeerId) (acts : List Act) (act : Act) :
    mentions p (t.log sha256 noise (acts ++ [act])) = mentions p (t.log sha256 noise acts) ++
      mentions p ((run (step sha256 noise) t acts).step sha256 noise act).2.toList := by
  rw [log, collected_concat, mentions_append]
  rfl

theorem mentions_unseen (p : PeerId) {seen : Option RuntimeNetwork.Seen}
    (unseen : ∀ appEvent, seen ≠ some (.shown appEvent)) : mentions p seen.toList = [] := by
  rcases seen with _ | seen
  · rfl
  · cases seen with
    | shown appEvent => exact absurd rfl (unseen appEvent)
    | _ => rfl

theorem mentions_shown (p : PeerId) (appEvent : AppEvent) :
    (mentions p [.shown appEvent]).length = if appEvent.counted = some p then 1 else 0 := by
  by_cases h : appEvent.counted = some p <;>
    simp [mentions, RuntimeNetwork.Seen.shownAppEvent, h]

/-- What a step that leaves the lock intact does to what is listed of a peer. -/
structure Carries (p : PeerId) (t : TerminalSession H T) (act : Act) (t' : TerminalSession H T)
    (seen : Option RuntimeNetwork.Seen) : Prop where
  stays : p ∈ t.ui.peers → mentions p seen.toList ≠ [] → p ∈ t'.ui.peers
  found : ∀ peer, t'.ui.peers.lookup p = some peer →
    peer.lastSeen = (stampOf p act seen).elim
        ((t.ui.peers.lookup p).bind PeerUIState.lastSeen) (some ·.value) ∧
      peer.messageCount.toNat = (t.ui.peers.lookup p).elim 0 (·.messageCount.toNat) +
        (mentions p seen.toList).length ∧
      (t.ui.peers.lookup p = none → (stampOf p act seen).isSome ∧ mentions p seen.toList = [])

theorem carries_unseen {p : PeerId} {t t' : TerminalSession H T} {act : Act}
    {seen : Option RuntimeNetwork.Seen} (unseen : ∀ appEvent, seen ≠ some (.shown appEvent))
    (kept : ∀ peer, t'.ui.peers.lookup p = some peer → t.ui.peers.lookup p = some peer) :
    Carries p t act t' seen where
  stays _ mentioned := absurd (mentions_unseen p unseen) mentioned
  found peer hpeer := by
    have unstamped : stampOf p act seen = none := by
      rw [stampOf, shownAppEvent_of_unseen unseen]
      cases act.now <;> rfl
    rw [kept peer hpeer, unstamped, mentions_unseen p unseen]
    exact ⟨rfl, rfl, by simp⟩

theorem Moves.carries {t' : TerminalSession H T} {act : Act} {seen : Option RuntimeNetwork.Seen}
    (h : Moves sha256 noise t act t' seen) (p : PeerId) (intact : t'.poisoned = false) :
    Carries p t act t' seen := by
  cases h with
  | @shown now appEvent ui running got room noted =>
    refine ⟨fun listed _ => noted.listed p listed, fun peer hpeer => ?_⟩
    have touched := noted.peers p peer hpeer
    refine ⟨touched.seen, ?_, fun new => ⟨(touched.known new).2, ?_⟩⟩
    · rw [Option.toList_some, mentions_shown]
      exact touched.count
    · rw [← List.length_eq_zero_iff, Option.toList_some, mentions_shown,
        if_neg (touched.known new).1]
  | choked running got full listed => cases intact
  | crashed running future => cases intact
  | inner unseen => exact carries_unseen unseen fun _ => id
  | sent ended => exact carries_unseen (submit_unseen t.net _) fun _ => id
  | tidied running past => exact carries_unseen (by simp) fun _ => UIState.lookup_tidied
  | _ => exact carries_unseen (by simp) fun _ => id

/-- If the peer is listed, it was last seen as the last stamp says. -/
def Stamped (p : PeerId) (t : TerminalSession H T) (stamps : List Stamp) : Prop :=
  ∀ peer, t.ui.peers.lookup p = some peer →
    ∃ s, stamps.getLast? = some s ∧ peer.lastSeen = some s.value

theorem poisoned_step (act : Act) :
    (t.step sha256 noise act).1.poisoned = false ↔ t.poisoned = false ∧ ¬ t.Crashes act := by
  have move := moves_step sha256 noise t act
  generalize t.step sha256 noise act = result at move
  obtain ⟨t', seen⟩ := result
  cases move with
  | shown running got room noted =>
    refine (and_iff_left ?_).symm
    rintro ⟨-, a, ha, full⟩
    rw [got] at ha
    obtain ⟨⟩ := ha
    exact room full
  | choked running got full listed =>
    exact iff_of_false (by simp) fun h => h.2 ⟨running, _, got, full⟩
  | finished running nothing =>
    refine (and_iff_left ?_).symm
    rintro ⟨-, a, ha, -⟩
    rw [nothing] at ha
    cases ha
  | @inner act now unseen =>
    refine (and_iff_left ?_).symm
    cases act with
    | pollAppEvent =>
      rintro ⟨-, a, ha, -⟩
      exact unseen a ha
    | _ => exact id
  | missed harmless => exact (and_iff_left harmless).symm
  | tidied running past => exact (and_iff_left fun crash => past crash.2).symm
  | crashed running future =>
    exact iff_of_false (by simp) fun h => h.2 ⟨running, future⟩
  | _ => exact (and_iff_left id).symm

theorem poisoned_run (acts : List Act) :
    (run (step sha256 noise) t acts).poisoned = false ↔
      t.poisoned = false ∧ Along (step sha256 noise) (fun t act => ¬ t.Crashes act) t acts := by
  induction acts generalizing t with
  | nil => simp [Along]
  | cons act rest ih => rw [run_cons, ih, poisoned_step, Along, and_assoc]

variable (sha256 noise) in
theorem intact_of_running (net : RuntimeNetwork H T) (ourPeerId : PeerId) (acts : List Act)
    (running : (run (step sha256 noise) (new net ourPeerId) acts).running = true) :
    (run (step sha256 noise) (new net ourPeerId) acts).poisoned = false :=
  log_invariant sha256 noise (new net ourPeerId)
    (I := fun t _ => t.running = true → t.poisoned = false)
    (fun _ _ _ _ _ intact move => move.intact intact) (by simp [new]) acts running

variable (sha256 noise) in
theorem stamped_run (net : RuntimeNetwork H T) (ourPeerId p : PeerId) (acts : List Act)
    (intact : (run (step sha256 noise) (new net ourPeerId) acts).poisoned = false) :
    Stamped p (run (step sha256 noise) (new net ourPeerId) acts)
      ((new net ourPeerId).stamps sha256 noise p acts) := by
  induction acts using List.reverseRecOn with
  | nil =>
    intro peer hpeer
    cases hpeer
  | append_singleton before act ih =>
    rw [run_concat] at intact ⊢
    rw [stamps, collected_concat, ← stamps]
    have earlier := ih (poisoned_step act |>.mp intact).1
    have carries := (moves_step sha256 noise _ act).carries p intact
    intro peer hpeer
    obtain ⟨seen, -, known⟩ := carries.found peer hpeer
    rw [seen]
    cases hold : (run (step sha256 noise) (new net ourPeerId) before).ui.peers.lookup p with
    | none =>
      obtain ⟨s, hs⟩ := Option.isSome_iff_exists.mp (known hold).1
      exact ⟨s, by simp [hs], by rw [hs]; rfl⟩
    | some old =>
      obtain ⟨s, hlast, hvalue⟩ := earlier old hold
      cases hs : stampOf p act ((run (step sha256 noise) (new net ourPeerId) before).step sha256
        noise act).2 with
      | none => exact ⟨s, by simpa using hlast, hvalue⟩
      | some s' => exact ⟨s', by simp, rfl⟩

variable (sha256 noise t) in
/-- Each of these actions comes while the peer is listed. -/
def ListedAlong (p : PeerId) (acts : List Act) : Prop :=
  Along (step sha256 noise) (fun t _ => p ∈ t.ui.peers) t acts

/-- What a peer that stays listed is counted, there is room for. -/
theorem mentions_lt {p : PeerId} {stretch : List Act}
    (intact : (run (step sha256 noise) t stretch).poisoned = false)
    (listed : t.ListedAlong sha256 noise p stretch) {peer : PeerUIState}
    (found : t.ui.peers.lookup p = some peer) :
    peer.messageCount.toNat + (mentions p (t.log sha256 noise stretch)).length < 2 ^ 32 := by
  induction stretch generalizing t peer with
  | nil => exact peer.messageCount.toNat_lt
  | cons act rest ih =>
    have unpoisoned := ((poisoned_run rest).mp intact).1
    have carries := (moves_step sha256 noise t act).carries p unpoisoned
    rw [log, collected, ← log, mentions_append, List.length_append]
    by_cases stays : p ∈ (t.step sha256 noise act).1.ui.peers
    · obtain ⟨peer', hpeer'⟩ := Finmap.mem_iff.mp stays
      obtain ⟨-, counts, -⟩ := carries.found peer' hpeer'
      rw [found, Option.elim_some] at counts
      have bound := ih (t := (t.step sha256 noise act).1) intact listed.2 hpeer'
      omega
    · have silent : mentions p (t.step sha256 noise act).2.toList = [] := by
        by_contra mentioned
        exact stays (carries.stays (Finmap.mem_iff.mpr ⟨peer, found⟩) mentioned)
      cases rest with
      | nil =>
        rw [silent]
        exact peer.messageCount.toNat_lt
      | cons next later => exact absurd listed.2.1 stays

variable (sha256 noise) in
/-- The count of a listed peer is the number of messages since it was listed. -/
theorem counted_run (net : RuntimeNetwork H T) (ourPeerId p : PeerId) (acts : List Act)
    (intact : (run (step sha256 noise) (new net ourPeerId) acts).poisoned = false)
    {peer : PeerUIState}
    (found : (run (step sha256 noise) (new net ourPeerId) acts).ui.peers.lookup p = some peer) :
    ∃ before stretch, acts = before ++ stretch ∧
      (run (step sha256 noise) (new net ourPeerId) before).ListedAlong sha256 noise p stretch ∧
      peer.messageCount.toNat =
        (mentions p ((run (step sha256 noise) (new net ourPeerId) before).log sha256 noise
          stretch)).length := by
  induction acts using List.reverseRecOn generalizing peer with
  | nil => cases found
  | append_singleton earlier act ih =>
    rw [run_concat] at intact found
    have carries := (moves_step sha256 noise _ act).carries p intact
    obtain ⟨-, counts, known⟩ := carries.found peer found
    cases hold : (run (step sha256 noise) (new net ourPeerId) earlier).ui.peers.lookup p with
    | none =>
      refine ⟨earlier ++ [act], [], (List.append_nil _).symm, trivial, ?_⟩
      rw [counts, hold, (known hold).2]
      rfl
    | some old =>
      obtain ⟨before, stretch, rfl, listed, count⟩ := ih (poisoned_step act |>.mp intact).1 hold
      refine ⟨before, stretch ++ [act], List.append_assoc .., ?_, ?_⟩
      · refine along_append.mpr ⟨listed, ?_, trivial⟩
        rw [← run_append]
        exact Finmap.mem_iff.mpr ⟨old, hold⟩
      · rw [mentions_log_concat, List.length_append, ← count, ← run_append, counts, hold]
        rfl

/-- The clock did not go back before the last of these actions. -/
theorem met_le_now {net : RuntimeNetwork H T} {ourPeerId p : PeerId} {before rest : List Act}
    {now n : UInt64}
    (clock : ((before ++ .maintain now :: rest).filterMap Act.now).Pairwise (· ≤ ·))
    (last : ((new net ourPeerId).stamps sha256 noise p before).getLast? = some (.met n)) :
    n ≤ now := by
  obtain ⟨xs, hxs⟩ := List.getLast?_eq_some_iff.mp last
  obtain ⟨earlier, i, later, rfl, -, hpick⟩ := collected_split hxs
  obtain ⟨m, hm, hstamp⟩ := Option.bind_eq_some_iff.mp hpick
  have reading : n = m := by
    obtain ⟨a, -, ha⟩ := Option.bind_eq_some_iff.mp hstamp
    cases a with
    | peerStatusChanged q status transport =>
      simp only [AppEvent.stampFor] at ha
      split_ifs at ha
      exact (Stamp.met.inj (Option.some.inj ha)).symm
    | messageReceived sender content timestamp =>
      simp only [AppEvent.stampFor] at ha
      split_ifs at ha
      cases ha
    | _ => cases ha
  rw [List.filterMap_append, List.pairwise_append] at clock
  rw [reading]
  exact clock.2.2 m (by simp [hm]) now (by simp [Act.now])

/-- Before a tidying up, a peer was seen later than now only by a message dated later. -/
theorem seen_le_now {net : RuntimeNetwork H T} {ourPeerId p : PeerId} {before rest : List Act}
    {now seen : UInt64} {peer : PeerUIState}
    (clock : ((before ++ .maintain now :: rest).filterMap Act.now).Pairwise (· ≤ ·))
    (intact : (run (step sha256 noise) (new net ourPeerId) before).poisoned = false)
    (found : (run (step sha256 noise) (new net ourPeerId) before).ui.peers.lookup p = some peer)
    (lastSeen : peer.lastSeen = some seen)
    (dated : ∀ date, ((new net ourPeerId).stamps sha256 noise p before).getLast? =
      some (.dated date) → date ≤ now) : seen ≤ now := by
  obtain ⟨s, hlast, hvalue⟩ := stamped_run sha256 noise net ourPeerId p before intact peer found
  obtain rfl : seen = s.value := Option.some.inj (lastSeen.symm.trans hvalue)
  cases s with
  | dated date => exact dated date hlast
  | met n => exact met_le_now clock hlast

/-- A poll that adds to a full count ends a stretch of `2 ^ 32` messages. -/
theorem stretch_of_full {net : RuntimeNetwork H T} {ourPeerId : PeerId} {before : List Act}
    (now : UInt64) (running : (run (step sha256 noise) (new net ourPeerId) before).running = true)
    {appEvent : AppEvent}
    (got : (run (step sha256 noise) (new net ourPeerId) before).net.pollAppEvent.2 =
      some (.shown appEvent))
    (full : (run (step sha256 noise) (new net ourPeerId) before).ui.Full appEvent) :
    ∃ earlier stretch p, before ++ [.inner .pollAppEvent now] = earlier ++ stretch ∧
      (run (step sha256 noise) (new net ourPeerId) earlier).ListedAlong sha256 noise p stretch ∧
      (mentions p ((run (step sha256 noise) (new net ourPeerId) earlier).log sha256 noise
        stretch)).length = 2 ^ 32 := by
  obtain ⟨p, counted, peer, hpeer, full⟩ := full
  rw [Option.mem_def] at counted
  have intact := intact_of_running sha256 noise net ourPeerId before running
  obtain ⟨earlier, stretch, rfl, listed, count⟩ :=
    counted_run sha256 noise net ourPeerId p before intact hpeer
  refine ⟨earlier, stretch ++ [.inner .pollAppEvent now], p, List.append_assoc .., ?_, ?_⟩
  · refine along_append.mpr ⟨listed, ?_, trivial⟩
    rw [← run_append]
    exact Finmap.mem_iff.mpr ⟨peer, hpeer⟩
  · have shown : ((run (step sha256 noise) (new net ourPeerId) (earlier ++ stretch)).step sha256
        noise (.inner .pollAppEvent now)).2 = some (.shown appEvent) := poll_shown running got
    rw [mentions_log_concat, List.length_append, ← run_append, shown, Option.toList_some,
      mentions_shown, if_pos counted, ← count]
    exact full

/-- A peer is not listed along `2 ^ 32` messages of it if the lock survives them. -/
theorem mentions_lt_of_intact {net : RuntimeNetwork H T} {ourPeerId p : PeerId}
    {before stretch : List Act}
    (intact : (run (step sha256 noise) (new net ourPeerId) (before ++ stretch)).poisoned = false)
    (listed : (run (step sha256 noise) (new net ourPeerId) before).ListedAlong sha256 noise p
      stretch) :
    (mentions p ((run (step sha256 noise) (new net ourPeerId) before).log sha256 noise
      stretch)).length < 2 ^ 32 := by
  rw [run_append] at intact
  cases stretch with
  | nil => exact Nat.two_pow_pos 32
  | cons act later =>
    obtain ⟨peer, hpeer⟩ := Finmap.mem_iff.mp listed.1
    have bound := mentions_lt intact listed hpeer
    omega

/-- With a clock that does not go back, the loop and the lock survive exactly if no tidying up
comes across a listed peer whose last event was a message dated later, and no peer gets as many
as `2 ^ 32` messages while it is listed. -/
theorem terminal_survives_iff (sha256 : Bytes → Key32) (noise : NoiseLibrary H T)
    (net : RuntimeNetwork H T) (ourPeerId : PeerId) (acts : List Act)
    (clock : (acts.filterMap Act.now).Pairwise (· ≤ ·)) :
    (run (step sha256 noise) (new net ourPeerId) acts).poisoned = false ↔
      (∀ before now rest p date, acts = before ++ .maintain now :: rest →
        (run (step sha256 noise) (new net ourPeerId) before).running = true →
        p ∈ (run (step sha256 noise) (new net ourPeerId) before).ui.peers →
        ((new net ourPeerId).stamps sha256 noise p before).getLast? = some (.dated date) →
        date ≤ now) ∧
      ∀ before stretch rest p, acts = before ++ stretch ++ rest →
        (run (step sha256 noise) (new net ourPeerId) before).ListedAlong sha256 noise p stretch →
        (mentions p ((run (step sha256 noise) (new net ourPeerId) before).log sha256 noise
          stretch)).length < 2 ^ 32 := by
  constructor
  · intro intact
    refine ⟨?_, ?_⟩
    · rintro before now rest p date rfl running listed last
      rw [run_append, poisoned_run] at intact
      obtain ⟨peer, hpeer⟩ := Finmap.mem_iff.mp listed
      obtain ⟨s, hlast, hseen⟩ :=
        stamped_run sha256 noise net ourPeerId p before intact.1 peer hpeer
      obtain rfl : Stamp.dated date = s := Option.some.inj (last.symm.trans hlast)
      by_contra later
      exact intact.2.1
        ⟨running, peer, Map.mem_values.mpr ⟨p, hpeer⟩, date, hseen, UInt64.not_le.mp later⟩
    · rintro before stretch rest p rfl listed
      rw [run_append, poisoned_run] at intact
      exact mentions_lt_of_intact intact.1 listed
  · rintro ⟨dated, rare⟩
    refine (poisoned_run acts).mpr ⟨rfl, along_iff_forall.mpr ?_⟩
    rintro before act rest rfl crash
    cases act with
    | maintain now =>
      obtain ⟨running, peer, hmem, seen, hseen, future⟩ := crash
      obtain ⟨p, hpeer⟩ := Map.mem_values.mp hmem
      have intact := intact_of_running sha256 noise net ourPeerId before running
      have inTime := seen_le_now clock intact hpeer hseen fun date =>
        dated before now rest p date rfl running (Finmap.mem_iff.mpr ⟨peer, hpeer⟩)
      exact UInt64.not_lt.mpr inTime future
    | inner act now =>
      cases act with
      | pollAppEvent =>
        obtain ⟨running, appEvent, got, full⟩ := crash
        obtain ⟨earlier, stretch, p, split, listed, count⟩ :=
          stretch_of_full now running got full
        have here := rare earlier stretch rest p (by rw [← split]; simp) listed
        rw [count] at here
        exact lt_irrefl _ here
      | _ => exact crash
    | _ => exact crash

/-- The peer of the example. -/
def chatPartner : PeerId := CoreLogicTask.remotePeer

/-- Two events wait for the terminal: a peer is connected, and a message of it is dated in
the future. -/
def futureNetwork : RuntimeNetwork Unit Unit :=
  { RuntimeNetwork.smallNetwork with
    appEvents := ⟨4, [.peerStatusChanged chatPartner .connected none,
      .messageReceived chatPartner ['x'] 10], by decide⟩ }

def futureActs : List Act :=
  [.enter, .inner .pollAppEvent 1, .inner .pollAppEvent 2, .maintain 3]

theorem future_message_poisons :
    ¬ ((∀ before now rest p date, futureActs = before ++ .maintain now :: rest →
        (run (step MessageStore.lastByteDigest NoiseLibrary.masked)
          (new futureNetwork CoreLogicTask.localPeer) before).running = true →
        p ∈ (run (step MessageStore.lastByteDigest NoiseLibrary.masked)
          (new futureNetwork CoreLogicTask.localPeer) before).ui.peers →
        ((new futureNetwork CoreLogicTask.localPeer).stamps MessageStore.lastByteDigest
          NoiseLibrary.masked p before).getLast? = some (.dated date) → date ≤ now) ∧
      ∀ before stretch rest p, futureActs = before ++ stretch ++ rest →
        (run (step MessageStore.lastByteDigest NoiseLibrary.masked)
          (new futureNetwork CoreLogicTask.localPeer) before).ListedAlong
            MessageStore.lastByteDigest NoiseLibrary.masked p stretch →
        (mentions p ((run (step MessageStore.lastByteDigest NoiseLibrary.masked)
          (new futureNetwork CoreLogicTask.localPeer) before).log MessageStore.lastByteDigest
            NoiseLibrary.masked stretch)).length < 2 ^ 32) := by
  rw [← terminal_survives_iff MessageStore.lastByteDigest NoiseLibrary.masked futureNetwork
    CoreLogicTask.localPeer futureActs (by decide)]
  decide

/-- The last error that was shown. -/
def lastError (log : List RuntimeNetwork.Seen) : Option String :=
  ((log.filterMap RuntimeNetwork.Seen.shownAppEvent).filterMap AppEvent.trouble).getLast?

theorem lastError_concat (log : List RuntimeNetwork.Seen) (seen : Option RuntimeNetwork.Seen) :
    lastError (log ++ seen.toList) =
      ((seen.bind RuntimeNetwork.Seen.shownAppEvent).bind AppEvent.trouble).or (lastError log) := by
  rw [lastError, RuntimeNetwork.filterMap_log, List.filterMap_append, List.getLast?_append,
    ← lastError]
  cases seen.bind RuntimeNetwork.Seen.shownAppEvent with
  | none => rfl
  | some appEvent => cases h : appEvent.trouble <;> simp [h]

/-- While the loop goes on, only an error that is shown changes the status. -/
theorem Moves.reports {t' : TerminalSession H T} {act : Act} {seen : Option RuntimeNetwork.Seen}
    (h : Moves sha256 noise t act t' seen) (running : t.running = true)
    (goesOn : t'.running = true) {log : List RuntimeNetwork.Seen}
    (reports : t.ui.Reports (lastError log)) :
    t'.ui.Reports (lastError (log ++ seen.toList)) := by
  rw [lastError_concat]
  cases h with
  | entered ended intact =>
    rw [running] at ended
    cases ended
  | overflowed ended full intact =>
    rw [running] at ended
    cases ended
  | sent ended =>
    rw [running] at ended
    cases ended
  | abandoned => cases goesOn
  | closed => cases goesOn
  | finished loops nothing => cases goesOn
  | choked loops got full listed => cases goesOn
  | crashed loops future => cases goesOn
  | @shown now appEvent ui loops got room noted =>
    refine noted.status.trans ?_
    rw [Option.bind_some, RuntimeNetwork.Seen.shownAppEvent, Option.bind_some]
    cases appEvent.trouble with
    | none => exact reports
    | some error => rfl
  | inner unseen =>
    rw [shownAppEvent_of_unseen unseen]
    exact reports
  | tidied loops past => exact reports.tidied
  | missed harmless => exact reports

theorem reports_enter (ended : t.running = false) (entered : t.enter.running = true) :
    t.enter.ui.Reports none := by
  unfold enter at entered ⊢
  split_ifs at entered ⊢
  · rfl
  · rw [ended] at entered
    cases entered

/-- From when the loop is entered until it ends, the status is the last error that was shown
since, and without one it is ready: what a refused command noted earlier is gone, none can be
refused meanwhile, and the tidying up takes no error back. -/
theorem status_of_loop (sha256 : Bytes → Key32) (noise : NoiseLibrary H T)
    (t : TerminalSession H T) (acts : List Act) (ended : t.running = false)
    (loops : ∀ xs, xs <+: acts → (run (step sha256 noise) t (.enter :: xs)).running = true) :
    (run (step sha256 noise) t (.enter :: acts)).ui.systemStatus =
      (lastError (t.enter.log sha256 noise acts)).elim .ready .error := by
  induction acts using List.reverseRecOn with
  | nil =>
    have entered : t.enter.running = true := loops [] List.nil_prefix
    exact reports_enter ended entered
  | append_singleton before act ih =>
    have earlier := ih fun xs hxs => loops xs (hxs.trans (List.prefix_append before [act]))
    have here := loops before (List.prefix_append before [act])
    have next := loops (before ++ [act]) List.prefix_rfl
    rw [← List.cons_append, run_concat] at next ⊢
    rw [log, collected_concat, ← log]
    exact (moves_step sha256 noise _ act).reports here next earlier

/-- A message to someone who is not known, and one command too many. -/
def crowdedSession : TerminalSession Unit Unit :=
  run (step MessageStore.lastByteDigest NoiseLibrary.masked) smallSession
    (.sendCommand (.sendMessage chatPartner ['x']) ::
      List.replicate 4 (.sendCommand .startDiscovery))

def strangerActs : List Act :=
  [.inner (.takeCommand (CoreLogicTask.callAt 0)) 2, .inner .sendAppEvent 2,
    .inner .pollAppEvent 3, .maintain 4]

theorem stranger_reported :
    crowdedSession.ui.systemStatus = .busy UIState.overloaded ∧
      (run (step MessageStore.lastByteDigest NoiseLibrary.masked) crowdedSession
        (.enter :: strangerActs)).ui.systemStatus =
        .error ("Peer " ++ chatPartner.display ++ " not found") := by
  have loops : ∀ xs ∈ strangerActs.inits, (run (step MessageStore.lastByteDigest
    NoiseLibrary.masked) crowdedSession (.enter :: xs)).running = true := by decide
  refine ⟨by decide, ?_⟩
  rw [status_of_loop MessageStore.lastByteDigest NoiseLibrary.masked crowdedSession strangerActs
    (by decide) fun xs hxs => loops xs ((List.mem_inits xs strangerActs).mpr hxs)]
  decide

end

end TerminalSession

end Bitchat
