import Bitchat.DecomposedSteps

/-!
# What the decomposed runtime stores, tells and sends

Requests to a task behind the ingress are handled in order, and none is left when the
task has shut down. The application is told of a message only after the store was.
The transports are only ever told to connect.
-/
namespace Bitchat
open Rust

/-- Who sent what to whom, of a message to be stored. -/
def InternalCommand.message : InternalCommand → Option (PeerId × PeerId × Text)
  | .storeMessage _ content sender (some recipient) => some (sender, recipient, content)
  | _ => none

/-- What the session manager sends for a command. -/
def InternalCommand.connectEffect : InternalCommand → Option Effect
  | .establishSession p transport => some (.initiateConnection p transport)
  | _ => none

/-- The peer of a command that has a session established. -/
def Command.connectEffect : Command → Option Effect
  | .sendMessage p _ => some (.initiateConnection p .ble)
  | .connectToPeer p => some (.initiateConnection p .ble)
  | _ => none

namespace DecomposedRuntime

def Seen.storageRequest : Seen → Option InternalCommand
  | .requestedStorage command => some command
  | _ => none

def Seen.storageHandled : Seen → Option InternalCommand
  | .handledStorage command => some command
  | _ => none

def Seen.sessionRequest : Seen → Option InternalCommand
  | .requestedSession command => some command
  | _ => none

def Seen.sessionHandled : Seen → Option InternalCommand
  | .handledSession command => some command
  | _ => none

def Seen.takenCommand : Seen → Option Command
  | .took (.command command) => some command
  | _ => none

def Seen.broadcastEffect : Seen → Option Effect
  | .sentEffect effect => some effect
  | _ => none

/-- The effect that a transport received. -/
def Seen.handledBy (transport : ℕ) : Seen → Option Effect
  | .handledEffect t effect => if t = transport then some effect else none
  | _ => none

/-- Who sent what to whom, of a message that the application was told of. -/
def Seen.toldMessage (own : PeerId) : Seen → Option (PeerId × PeerId × Text)
  | .told (.messageSent recipient content _) => some (own, recipient, content)
  | .told (.messageReceived sender content _) => some (sender, own, content)
  | _ => none

variable {sha256 : Bytes → Key32} {rt rt' : DecomposedRuntime} {log seen : List Seen}

/-- What is seen in front is not about the tasks behind. -/
theorem filterMap_front {α : Type} {f : Seen → Option α} (only : ∀ s ∈ seen, s.IsFront)
    (hf : ∀ s, s.IsFront → f s = none) : seen.filterMap f = [] :=
  List.filterMap_eq_nil_iff.mpr fun s hs => hf s (only s hs)

theorem Announces.filterMap {α : Type} {f : Seen → Option α}
    {events : Unbounded InternalEvent} (h : rt.Announces events seen)
    (hf : ∀ event, f (.announced event) = none) : seen.filterMap f = [] := by
  rcases h with ⟨-, rfl⟩ | ⟨event, -, -, rfl⟩
  · rfl
  · simp [hf]

theorem SendsFor.filterMap {α : Type} {f : Seen → Option α} {command : InternalCommand}
    {effects : Broadcast ℕ Effect} (h : rt.SendsFor command effects seen)
    (hf : ∀ effect, f (.sentEffect effect) = none) : seen.filterMap f = [] := by
  rcases h with ⟨-, rfl⟩ | ⟨p, transport, -, -, rfl⟩
  · rfl
  · simp [hf]

/-- A step moves requests to the store through its queue, in order. -/
theorem Steps.storageQueue (hstep : Steps sha256 rt rt' seen) :
    rt.storageCommands.queue ++ seen.filterMap Seen.storageRequest =
      seen.filterMap Seen.storageHandled ++ rt'.storageCommands.queue := by
  cases hstep with
  | front front keeps only =>
    rw [filterMap_front only, filterMap_front only, List.append_nil]
    · rfl
    · rintro _ (_ | _ | _) <;> rfl
    · rintro _ (_ | _ | _) <;> rfl
  | send front running counter tells =>
    rcases tells with rfl | ⟨millis, rfl⟩ <;> rfl
  | receive front running keeps tells =>
    rcases tells with rfl | ⟨millis, rfl⟩ <;> rfl
  | shutdown front running stops keeps => rfl
  | session got goesOn announces sends =>
    simp [List.filterMap_cons, Seen.storageRequest, Seen.storageHandled,
      announces.filterMap (f := Seen.storageRequest) fun _ => rfl,
      announces.filterMap (f := Seen.storageHandled) fun _ => rfl,
      sends.filterMap (f := Seen.storageRequest) fun _ => rfl,
      sends.filterMap (f := Seen.storageHandled) fun _ => rfl]
  | storage running got goesOn announces tracks =>
    simp [List.filterMap_cons, Seen.storageRequest, Seen.storageHandled,
      announces.filterMap (f := Seen.storageRequest) fun _ => rfl,
      announces.filterMap (f := Seen.storageHandled) fun _ => rfl,
      (Unbounded.recv_eq_some got).1]
  | storageOver running got =>
    simp [List.filterMap_cons, Seen.storageRequest, Seen.storageHandled,
      (Unbounded.recv_eq_some got).1, Unbounded.close]
  | _ => exact List.append_nil _

/-- The application is told of a message by the step that had it stored. -/
theorem Steps.toldMessage (hstep : Steps sha256 rt rt' seen) : rt'.peerId = rt.peerId ∧
    (seen.filterMap (Seen.toldMessage rt.peerId)).Sublist
      ((seen.filterMap Seen.storageRequest).filterMap InternalCommand.message) := by
  cases hstep with
  | front front keeps only =>
    rw [filterMap_front only]
    · exact ⟨rfl, List.nil_sublist _⟩
    · rintro _ (_ | _ | _) <;> rfl
  | send front running counter tells =>
    rcases tells with rfl | ⟨millis, rfl⟩
    · exact ⟨rfl, List.nil_sublist _⟩
    · exact ⟨rfl, List.Sublist.refl _⟩
  | receive front running keeps tells =>
    rcases tells with rfl | ⟨millis, rfl⟩
    · exact ⟨rfl, List.nil_sublist _⟩
    · exact ⟨rfl, List.Sublist.refl _⟩
  | session got goesOn announces sends =>
    simp [List.filterMap_cons, Seen.toldMessage,
      announces.filterMap (f := Seen.toldMessage rt.peerId) fun _ => rfl,
      sends.filterMap (f := Seen.toldMessage rt.peerId) fun _ => rfl]
  | storage running got goesOn announces tracks =>
    simp [List.filterMap_cons, Seen.toldMessage,
      announces.filterMap (f := Seen.toldMessage rt.peerId) fun _ => rfl]
  | _ => exact ⟨rfl, List.nil_sublist _⟩

/-- A step moves requests to the session manager through its queue, in order. -/
theorem Steps.sessionQueue (hstep : Steps sha256 rt rt' seen) :
    rt.sessionCommands.queue ++ seen.filterMap Seen.sessionRequest =
      seen.filterMap Seen.sessionHandled ++ rt'.sessionCommands.queue := by
  cases hstep with
  | front front keeps only =>
    rw [filterMap_front only, filterMap_front only, List.append_nil]
    · rfl
    · rintro _ (_ | _ | _) <;> rfl
    · rintro _ (_ | _ | _) <;> rfl
  | send front running counter tells =>
    rcases tells with rfl | ⟨millis, rfl⟩ <;> rfl
  | receive front running keeps tells =>
    rcases tells with rfl | ⟨millis, rfl⟩ <;> exact List.append_nil _
  | connect front running keeps => rfl
  | shutdown front running stops keeps => rfl
  | session got goesOn announces sends =>
    simp [List.filterMap_cons, Seen.sessionRequest, Seen.sessionHandled,
      announces.filterMap (f := Seen.sessionRequest) fun _ => rfl,
      announces.filterMap (f := Seen.sessionHandled) fun _ => rfl,
      sends.filterMap (f := Seen.sessionRequest) fun _ => rfl,
      sends.filterMap (f := Seen.sessionHandled) fun _ => rfl, (Unbounded.recv_eq_some got).1]
  | sessionOver got =>
    simp [List.filterMap_cons, Seen.sessionRequest, Seen.sessionHandled,
      (Unbounded.recv_eq_some got).1, Unbounded.close]
  | storage running got goesOn announces tracks =>
    simp [List.filterMap_cons, Seen.sessionRequest, Seen.sessionHandled,
      announces.filterMap (f := Seen.sessionRequest) fun _ => rfl,
      announces.filterMap (f := Seen.sessionHandled) fun _ => rfl]
  | _ => exact List.append_nil _

/-- A session is requested for a command that names its peer. -/
theorem Steps.connects (hstep : Steps sha256 rt rt' seen) :
    ((seen.filterMap Seen.sessionRequest).filterMap InternalCommand.connectEffect).Sublist
      ((seen.filterMap Seen.takenCommand).filterMap Command.connectEffect) := by
  cases hstep with
  | front front keeps only =>
    rw [filterMap_front (f := Seen.sessionRequest) only]
    · exact List.nil_sublist _
    · rintro _ (_ | _ | _) <;> rfl
  | connect front running keeps => exact List.Sublist.refl _
  | send front running counter tells =>
    rcases tells with rfl | ⟨millis, rfl⟩ <;> exact List.Sublist.refl _
  | receive front running keeps tells =>
    rcases tells with rfl | ⟨millis, rfl⟩ <;> exact List.nil_sublist _
  | session got goesOn announces sends =>
    simp [List.filterMap_cons, Seen.sessionRequest,
      announces.filterMap (f := Seen.sessionRequest) fun _ => rfl,
      sends.filterMap (f := Seen.sessionRequest) fun _ => rfl]
  | storage running got goesOn announces tracks =>
    simp [List.filterMap_cons, Seen.sessionRequest,
      announces.filterMap (f := Seen.sessionRequest) fun _ => rfl]
  | _ => exact List.nil_sublist _

/-- The effects of a step are those of the request that the session manager handled. -/
theorem Steps.effects (hstep : Steps sha256 rt rt' seen) :
    rt'.effects.sent = rt.effects.sent ++ seen.filterMap Seen.broadcastEffect ∧
      (seen.filterMap Seen.broadcastEffect).Sublist
        ((seen.filterMap Seen.sessionHandled).filterMap InternalCommand.connectEffect) := by
  cases hstep with
  | front front keeps only =>
    rw [filterMap_front only]
    · exact ⟨(List.append_nil _).symm, List.nil_sublist _⟩
    · rintro _ (_ | _ | _) <;> rfl
  | send front running counter tells =>
    rcases tells with rfl | ⟨millis, rfl⟩ <;>
      exact ⟨(List.append_nil _).symm, List.nil_sublist _⟩
  | receive front running keeps tells =>
    rcases tells with rfl | ⟨millis, rfl⟩ <;>
      exact ⟨(List.append_nil _).symm, List.nil_sublist _⟩
  | session got goesOn announces sends =>
    have unsent := announces.filterMap (f := Seen.broadcastEffect) fun _ => rfl
    rcases sends with ⟨rfl, rfl⟩ | ⟨p, transport, rfl, hsend, rfl⟩
    · simp [List.filterMap_cons, Seen.broadcastEffect, unsent]
    · simp [List.filterMap_cons, Seen.broadcastEffect, Seen.sessionHandled, unsent,
        InternalCommand.connectEffect, (Broadcast.send_eq_some hsend).1,
        announces.filterMap (f := Seen.sessionHandled) fun _ => rfl]
  | storage running got goesOn announces tracks =>
    simp [List.filterMap_cons, Seen.broadcastEffect,
      announces.filterMap (f := Seen.broadcastEffect) fun _ => rfl]
  | @polled transport effect effects got =>
    have same := Broadcast.sent_recv (b := rt.effects) (k := transport)
    rw [got] at same
    exact ⟨same.trans (List.append_nil _).symm, List.nil_sublist _⟩
  | _ => exact ⟨(List.append_nil _).symm, List.nil_sublist _⟩

theorem Steps.follows (hstep : Steps sha256 rt rt' seen) {transport : ℕ}
    (h : rt.effects.Follows (log.filterMap (Seen.handledBy transport)) transport) :
    rt'.effects.Follows ((log ++ seen).filterMap (Seen.handledBy transport)) transport := by
  rw [List.filterMap_append]
  cases hstep with
  | front front keeps only =>
    rw [filterMap_front only, List.append_nil]
    · exact h
    · rintro _ (_ | _ | _) <;> rfl
  | send front running counter tells =>
    rcases tells with rfl | ⟨millis, rfl⟩ <;>
      simpa [List.filterMap_cons, Seen.handledBy, withFront] using h
  | receive front running keeps tells =>
    rcases tells with rfl | ⟨millis, rfl⟩ <;>
      simpa [List.filterMap_cons, Seen.handledBy, withFront] using h
  | session got goesOn announces sends =>
    have unsent := announces.filterMap (f := Seen.handledBy transport) fun _ => rfl
    have unsent' := sends.filterMap (f := Seen.handledBy transport) fun _ => rfl
    simp only [List.filterMap_cons, Seen.handledBy, List.filterMap_append, unsent, unsent',
      List.append_nil]
    rcases sends with ⟨rfl, rfl⟩ | ⟨p, t, rfl, hsend, rfl⟩
    · exact h
    · exact h.send hsend
  | storage running got goesOn announces tracks =>
    have unsent := announces.filterMap (f := Seen.handledBy transport) fun _ => rfl
    simpa [List.filterMap_cons, Seen.handledBy, unsent] using h
  | @polled t effect effects got =>
    by_cases ht : t = transport
    · subst ht
      simpa [List.filterMap_cons, Seen.handledBy] using h.recv_self got
    · simpa [List.filterMap_cons, Seen.handledBy, ht] using h.recv_other (Ne.symm ht) got
  | left t => simpa using h.unsubscribe t
  | _ => simpa [List.filterMap_cons, Seen.handledBy, withFront] using h

/-- From the commands that the ingress took to what the transports got. -/
structure Connects (rt : DecomposedRuntime) (log : List Seen) : Prop where
  requests : log.filterMap Seen.sessionRequest =
    log.filterMap Seen.sessionHandled ++ rt.sessionCommands.queue
  asked : ((log.filterMap Seen.sessionRequest).filterMap InternalCommand.connectEffect).Sublist
    ((log.filterMap Seen.takenCommand).filterMap Command.connectEffect)
  sent : rt.effects.sent = log.filterMap Seen.broadcastEffect
  answers : (log.filterMap Seen.broadcastEffect).Sublist
    ((log.filterMap Seen.sessionHandled).filterMap InternalCommand.connectEffect)
  follows : ∀ transport,
    rt.effects.Follows (log.filterMap (Seen.handledBy transport)) transport

theorem Connects.steps (h : Connects rt log) (hstep : Steps sha256 rt rt' seen) :
    Connects rt' (log ++ seen) := by
  obtain ⟨hsent, hanswers⟩ := hstep.effects
  constructor
  · rw [List.filterMap_append, List.filterMap_append, h.requests, List.append_assoc,
      hstep.sessionQueue, List.append_assoc]
  · simp only [List.filterMap_append]
    exact h.asked.append hstep.connects
  · rw [List.filterMap_append, hsent, h.sent]
  · simp only [List.filterMap_append]
    exact h.answers.append hanswers
  · exact fun transport => hstep.follows (h.follows transport)

/-- Requests to the store are handled in order. The application is told of no message but, in
this order, what the store was asked to keep, and a store that has shut down has handled all
that it was ever asked. -/
theorem told_messages_are_stored (sha256 : Bytes → Key32) (peerId : PeerId)
    (rateLimiting : RateLimitConfig) (buffers : Buffers)
    (transports : ℕ) (instants : TaskId → ℕ) (acts : List Act) :
    let rt := run (step sha256) (start peerId rateLimiting buffers transports instants) acts
    let log := (start peerId rateLimiting buffers transports instants).log sha256 acts
    log.filterMap Seen.storageRequest =
        log.filterMap Seen.storageHandled ++ rt.storageCommands.queue ∧
      (log.filterMap (Seen.toldMessage peerId)).Sublist
        ((log.filterMap Seen.storageRequest).filterMap InternalCommand.message) ∧
      (rt.storage.running = false →
        rt.ingress.running = false ∧ rt.storageCommands.queue = []) := by
  intro rt log
  have wired : rt.Wired :=
    wired_run sha256 peerId rateLimiting buffers transports instants acts
  have recorded : rt.peerId = peerId ∧ log.filterMap Seen.storageRequest =
        log.filterMap Seen.storageHandled ++ rt.storageCommands.queue ∧
      (log.filterMap (Seen.toldMessage peerId)).Sublist
        ((log.filterMap Seen.storageRequest).filterMap InternalCommand.message) := by
    apply log_rule sha256 peerId rateLimiting buffers transports instants
      (I := fun rt log => rt.peerId = peerId ∧ log.filterMap Seen.storageRequest =
        log.filterMap Seen.storageHandled ++ rt.storageCommands.queue ∧
        (log.filterMap (Seen.toldMessage peerId)).Sublist
          ((log.filterMap Seen.storageRequest).filterMap InternalCommand.message))
    · rintro rt rt' log seen - ⟨rfl, requests, told⟩ hstep
      obtain ⟨samePeer, told'⟩ := hstep.toldMessage
      refine ⟨samePeer, ?_, ?_⟩
      · rw [List.filterMap_append, List.filterMap_append, requests, List.append_assoc,
          hstep.storageQueue, List.append_assoc]
      · rw [List.filterMap_append, List.filterMap_append, List.filterMap_append]
        exact told.append told'
    · exact ⟨rfl, rfl, List.Sublist.refl _⟩
  refine ⟨recorded.2.1, recorded.2.2, fun ended => ?_⟩
  have closed : rt.storageCommands.isOpen = false := wired.storage.trans ended
  refine ⟨?_, wired.storageEnds.closed closed⟩
  by_contra running
  rw [(wired.storageEnds.going (by simpa using running)).1] at closed
  cases closed

/-- All that a transport is ever told is to connect, over BLE, to the peers of commands that
the ingress took, in that order: no message, and no packet at all, goes out. -/
theorem only_connections_go_out (sha256 : Bytes → Key32) (peerId : PeerId)
    (rateLimiting : RateLimitConfig) (buffers : Buffers)
    (transports : ℕ) (instants : TaskId → ℕ) (acts : List Act)
    (transport : ℕ) :
    let log := (start peerId rateLimiting buffers transports instants).log sha256 acts
    (log.filterMap (Seen.handledBy transport)).Sublist
      ((log.filterMap Seen.takenCommand).filterMap Command.connectEffect) := by
  have connects := log_rule sha256 peerId rateLimiting buffers transports instants
    (fun _ _ _ _ _ h hstep => Connects.steps h hstep)
    ⟨rfl, List.Sublist.refl _, Broadcast.sent_subscribe_all _ (List.range transports),
      List.Sublist.refl _, Broadcast.follows_subscribe_all buffers.effects (List.range transports)⟩
    acts
  have handled := (connects.follows transport).before.sublist
  rw [connects.sent] at handled
  have answered := handled.trans connects.answers
  have asked := connects.asked
  rw [connects.requests, List.filterMap_append] at asked
  exact answered.trans ((List.sublist_append_left _ _).trans asked)

def Seen.storedId : Seen → Option MessageId
  | .requestedStorage (.storeMessage id _ _ _) => some id
  | _ => none

/-- The id that an action gave to an own message. -/
def ownId : List Seen → Option MessageId
  | .took (.command (.sendMessage _ _)) :: seen => seen.findSome? Seen.storedId
  | _ => none

/-- The ids of the first messages of a peer, counted from one. -/
def idsUpTo (sha256 : Bytes → Key32) (p : PeerId) (count : ℕ) : List MessageId :=
  (List.range' 1 count).map fun n => ownMessageId sha256 p (UInt64.ofNat n)

theorem ownId_front (only : ∀ s ∈ seen, s.IsFront) : ownId seen = none := by
  cases seen with
  | nil => rfl
  | cons first rest =>
    have none_of (s : Seen) (hs : s ∈ rest) : s.storedId = none := by
      cases only s (List.mem_cons_of_mem first hs) <;> rfl
    unfold ownId
    split
    · rename_i heq
      obtain ⟨-, rfl⟩ := List.cons_eq_cons.mp heq
      exact List.findSome?_eq_none_iff.mpr none_of
    · rfl

/-- A step counts an own message and gives it the id of its number, or does neither. -/
theorem Steps.ownId (hstep : Steps sha256 rt rt' seen) :
    rt'.peerId = rt.peerId ∧
      (ownId seen = none ∧ rt'.ingress.messageSequence = rt.ingress.messageSequence ∨
      ownId seen = some (ownMessageId sha256 rt.peerId rt'.ingress.messageSequence) ∧
        rt'.ingress.messageSequence.toNat = rt.ingress.messageSequence.toNat + 1) := by
  cases hstep with
  | front front keeps only => exact ⟨rfl, .inl ⟨ownId_front only, keeps.counter⟩⟩
  | connect front running keeps => exact ⟨rfl, .inl ⟨rfl, keeps.counter⟩⟩
  | send front running counter tells => exact ⟨rfl, .inr ⟨rfl, counter⟩⟩
  | receive front running keeps tells => exact ⟨rfl, .inl ⟨rfl, keeps.counter⟩⟩
  | shutdown front running stops keeps => exact ⟨rfl, .inl ⟨rfl, keeps.counter⟩⟩
  | _ => exact ⟨rfl, .inl ⟨rfl, rfl⟩⟩

section

variable (sha256 : Bytes → Key32) (peerId : PeerId)

theorem idsUpTo_succ (count : ℕ) : idsUpTo sha256 peerId (count + 1) =
    idsUpTo sha256 peerId count ++ [ownMessageId sha256 peerId (UInt64.ofNat (count + 1))] := by
  simp [idsUpTo, List.range'_concat, Nat.add_comm]

theorem idsUpTo_mono {m n : ℕ} (h : m ≤ n) :
    idsUpTo sha256 peerId m <+: idsUpTo sha256 peerId n := by
  induction n, h using Nat.le_induction with
  | base => exact List.prefix_rfl
  | succ n h ih =>
    rw [idsUpTo_succ]
    exact ih.trans (List.prefix_append _ _)

theorem ownIds_run (rateLimiting : RateLimitConfig) (buffers : Buffers)
    (transports : ℕ) (instants : TaskId → ℕ) (acts : List Act) :
    let rt := start peerId rateLimiting buffers transports instants
    (outputs (step sha256) rt acts).filterMap ownId =
      idsUpTo sha256 peerId (run (step sha256) rt acts).ingress.messageSequence.toNat := by
  have numbered := run_rule sha256 peerId rateLimiting buffers transports instants
    (I := fun rt log => rt.peerId = peerId ∧
      log.filterMap ownId = idsUpTo sha256 peerId rt.ingress.messageSequence.toNat)
    ?_ ⟨rfl, rfl⟩ acts
  · exact numbered.2
  · rintro rt rt' log seen - ⟨rfl, ids⟩ hstep
    obtain ⟨samePeer, ⟨unused, same⟩ | ⟨used, next⟩⟩ := hstep.ownId
    · refine ⟨samePeer, ?_⟩
      simp [unused, ids, same]
    · have number : UInt64.ofNat (rt.ingress.messageSequence.toNat + 1) =
          rt'.ingress.messageSequence := by
        rw [← next, UInt64.ofNat_toNat]
      refine ⟨samePeer, ?_⟩
      rw [List.filterMap_append, List.filterMap_cons_some used, ids, next, idsUpTo_succ, number,
        List.filterMap_nil]

/-- The ids of own messages say nothing about them, nor about the run: of any two runs of
the same peer, the ids of one are the beginning of the ids of the other. -/
theorem own_ids_repeat (rateLimiting rateLimiting' : RateLimitConfig) (buffers buffers' : Buffers)
    (transports transports' : ℕ) (instants instants' : TaskId → ℕ)
    (acts acts' : List Act) :
    let rt := start peerId rateLimiting buffers transports instants
    let rt' := start peerId rateLimiting' buffers' transports' instants'
    let ids := (outputs (step sha256) rt acts).filterMap ownId
    let ids' := (outputs (step sha256) rt' acts').filterMap ownId
    ids <+: ids' ∨ ids' <+: ids := by
  intro rt rt' ids ids'
  have hids : ids = idsUpTo sha256 peerId _ :=
    ownIds_run sha256 peerId rateLimiting buffers transports instants acts
  have hids' : ids' = idsUpTo sha256 peerId _ :=
    ownIds_run sha256 peerId rateLimiting' buffers' transports' instants' acts'
  rw [hids, hids']
  exact (le_total _ _).imp (idsUpTo_mono sha256 peerId) (idsUpTo_mono sha256 peerId)

end

/-- An event reported the message. -/
def Came (sender : PeerId) (content : Text) (log : List Seen) : Prop :=
  ∃ event, .took (.event event) ∈ log ∧ event.incoming = some (sender, content)

theorem Came.append {sender : PeerId} {content : Text} (h : Came sender content log)
    (seen : List Seen) : Came sender content (log ++ seen) := by
  obtain ⟨event, taken, reports⟩ := h
  exact ⟨event, List.mem_append_left seen taken, reports⟩

/-- The command is about a message of this peer, or about one for it that came in. -/
def Concerns (own : PeerId) (log : List Seen) (command : InternalCommand) : Prop :=
  ∀ sender recipient content, command.message = some (sender, recipient, content) →
    sender = own ∨ recipient = own ∧ Came sender content log

/-- A message to be stored is from this peer or came in for it, and what is tracked came in
as from the zero peer. -/
structure TracksForSelf (rt : DecomposedRuntime) (log : List Seen) : Prop where
  queued : ∀ command ∈ rt.storageCommands.queue, Concerns rt.peerId log command
  tracked : ∀ uuid m, rt.storage.deliveryTracker.getTracked uuid = some m →
    m.recipient = rt.peerId ∧ ∃ content, m.payload = content.asBytes ∧ Came dummyPeer content log

theorem Concerns.append {own : PeerId} {command : InternalCommand}
    (h : Concerns own log command) (seen : List Seen) : Concerns own (log ++ seen) command :=
  fun sender recipient content heq =>
    (h sender recipient content heq).imp_right fun concerned =>
      ⟨concerned.1, concerned.2.append seen⟩

theorem TracksForSelf.later (h : TracksForSelf rt log) (seen : List Seen) :
    TracksForSelf rt (log ++ seen) where
  queued command hcommand := (h.queued command hcommand).append seen
  tracked uuid m hm := by
    obtain ⟨forSelf, content, payload, came⟩ := h.tracked uuid m hm
    exact ⟨forSelf, content, payload, came.append seen⟩

theorem TracksForSelf.push (h : TracksForSelf rt log) {command : InternalCommand}
    (concerns : Concerns rt.peerId log command) :
    ∀ c ∈ (rt.storageCommands.push command).queue, Concerns rt.peerId log c := by
  intro c hc
  rw [Unbounded.queue_push, List.mem_append, List.mem_singleton] at hc
  rcases hc with hc | rfl
  · exact h.queued c hc
  · exact concerns

theorem TracksForSelf.steps (before : TracksForSelf rt log) (foreign : rt.peerId ≠ dummyPeer)
    (hstep : Steps sha256 rt rt' seen) :
    rt'.peerId = rt.peerId ∧ TracksForSelf rt' (log ++ seen) := by
  have h := before.later seen
  cases hstep with
  | send front running counter tells =>
    refine ⟨rfl, h.push ?_, h.tracked⟩
    intro sender recipient content heq
    obtain ⟨rfl, -⟩ := Prod.mk.inj (Option.some.inj heq)
    exact .inl rfl
  | receive front running keeps tells comes =>
    refine ⟨rfl, h.push ?_, h.tracked⟩
    intro sender recipient content heq
    obtain ⟨rfl, addressed⟩ := Prod.mk.inj (Option.some.inj heq)
    obtain ⟨rfl, rfl⟩ := Prod.mk.inj addressed
    exact .inr ⟨rfl, _, List.mem_append_right log List.mem_cons_self, comes⟩
  | shutdown front running stops keeps => exact ⟨rfl, h.push nofun, h.tracked⟩
  | storage running got goesOn announces tracks =>
    have queue := (Unbounded.recv_eq_some got).1
    refine ⟨rfl, fun c hc => h.queued c (queue ▸ List.mem_cons_of_mem _ hc), ?_⟩
    rcases tracks with rfl | ⟨id, content, p, uuid, now, rfl, rfl⟩
    · exact h.tracked
    · have concerned := h.queued (.storeMessage id content dummyPeer (some p))
        (queue ▸ List.mem_cons_self) dummyPeer p content rfl
      obtain ⟨forSelf, came⟩ := concerned.resolve_left (Ne.symm foreign)
      intro key m hm
      rw [DeliveryTracker.getTracked_trackMessage] at hm
      split_ifs at hm
      · rw [← Option.some.inj hm]
        exact ⟨forSelf, content, rfl, came⟩
      · exact h.tracked key m hm
  | storageOver running got =>
    have queue := (Unbounded.recv_eq_some got).1
    exact ⟨rfl, fun c hc => h.queued c (queue ▸ List.mem_cons_of_mem _ hc), h.tracked⟩
  | _ => exact ⟨rfl, h.queued, h.tracked⟩

/-- The store tells an own message by the zero peer, so it never tracks the delivery of one:
in a runtime with any other id, all that is ever tracked is addressed to the runtime itself, and
came in as a message of the zero peer. -/
theorem tracked_for_self (sha256 : Bytes → Key32) {peerId : PeerId}
    (foreign : peerId ≠ dummyPeer) (rateLimiting : RateLimitConfig) (buffers : Buffers)
    (transports : ℕ) (instants : TaskId → ℕ) (acts : List Act) (uuid : Uuid)
    (m : TrackedMessage) :
    let first := start peerId rateLimiting buffers transports instants
    let rt := run (step sha256) first acts
    rt.storage.deliveryTracker.getTracked uuid = some m →
      m.recipient = peerId ∧ ∃ content, m.payload = content.asBytes ∧
        Came dummyPeer content (first.log sha256 acts) := by
  intro first rt htracked
  have own : rt.peerId = peerId ∧ TracksForSelf rt (first.log sha256 acts) := by
    apply log_rule sha256 peerId rateLimiting buffers transports instants
      (I := fun rt log => rt.peerId = peerId ∧ TracksForSelf rt log)
    · rintro rt rt' log seen - ⟨rfl, h⟩ hstep
      exact h.steps foreign hstep
    · exact ⟨rfl, nofun, nofun⟩
  rw [← own.1]
  exact own.2.tracked uuid m htracked

/-- A message that claims to come from the zero peer is stored. -/
def zeroPeerActs : List Act :=
  [.report (.messageReceived dummyPeer ['x'] .ble none none none none), .ingressEvent ⟨0⟩,
    .storageCommand ⟨List.Vector.replicate 16 7⟩ ⟨0⟩]

theorem tracked_zero_peer : ((run (step MessageStore.lastByteDigest)
    (start CoreLogicTask.localPeer RateLimitConfig.default ⟨4, 4, 4, 4⟩ 0 fun _ => 0)
    zeroPeerActs).storage.deliveryTracker.getTracked ⟨List.Vector.replicate 16 7⟩).map
      TrackedMessage.recipient = some CoreLogicTask.localPeer := by
  cases htracked : (run (step MessageStore.lastByteDigest)
    (start CoreLogicTask.localPeer RateLimitConfig.default ⟨4, 4, 4, 4⟩ 0 fun _ => 0)
    zeroPeerActs).storage.deliveryTracker.getTracked ⟨List.Vector.replicate 16 7⟩ with
  | none =>
    have isTracked : ((run (step MessageStore.lastByteDigest)
      (start CoreLogicTask.localPeer RateLimitConfig.default ⟨4, 4, 4, 4⟩ 0 fun _ => 0)
      zeroPeerActs).storage.deliveryTracker.getTracked
        ⟨List.Vector.replicate 16 7⟩).isSome = true := by decide
    rw [htracked] at isTracked
    cases isTracked
  | some m =>
    exact congrArg some (tracked_for_self MessageStore.lastByteDigest (by decide)
      RateLimitConfig.default ⟨4, 4, 4, 4⟩ 0 (fun _ => 0) zeroPeerActs _ m htracked).1

end DecomposedRuntime

end Bitchat
