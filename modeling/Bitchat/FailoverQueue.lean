import Bitchat.Failover
import Bitchat.Rust.BTreeMap
import Bitchat.Rust.Ledger

/-!
# The failover queue

`AdvancedTransportManager` of `advanced_failover.rs`: its transport selection, and
the queue of messages that wait for a transport. The queue is a map from the
millisecond at which a message came, so that a second message of the same
millisecond takes the place of the first.
-/
namespace Bitchat
open Rust

structure AdvancedFailoverConfig where
  enablePerformanceRouting : Bool
  enableMessageQueuing : Bool
  maxQueueSize : ℕ
  /-- In nanoseconds. -/
  queueRetentionTime : ℕ

def AdvancedFailoverConfig.default : AdvancedFailoverConfig := ⟨true, true, 1000, 3600000000000⟩

structure QueuedMessage where
  context : MessageContext
  peerId : Option PeerId
  payload : Bytes
  deriving DecidableEq

structure AdvancedTransportManager where
  basicManager : BasicTransportManager
  healthMonitor : Map TransportType TransportHealth
  routingTable : RoutingTable
  messageQueue : BTreeMap ℕ QueuedMessage
  config : AdvancedFailoverConfig

/-- The calls on the manager. Those other than the two on the queue may change what
messages are routed by. -/
inductive FailoverCall where
  | queueMessage (message : QueuedMessage)
  | processMessageQueue
  | other (basicManager : BasicTransportManager) (healthMonitor : Map TransportType TransportHealth)
    (routingTable : RoutingTable)

/-- A call with its time in milliseconds. -/
structure FailoverInput where
  call : FailoverCall
  now : ℕ

inductive FailoverAnswer where
  | queued (accepted : Bool)
  | ready (messages : List QueuedMessage)
  | done

namespace AdvancedTransportManager

def new (config : AdvancedFailoverConfig) : AdvancedTransportManager :=
  ⟨.new .default, ∅, .new, ∅, config⟩

/-- Healthy for the health monitor and for the basic manager. -/
def isUsable (m : AdvancedTransportManager) (transport : TransportType) : Bool :=
  (m.healthMonitor.lookup transport).any TransportHealth.isHealthy &&
    m.basicManager.isTransportHealthy transport

def applyRoutingRule (m : AdvancedTransportManager) (rule : RoutingRule) : TransportSelection :=
  match (rule.preferredTransport :: rule.fallbackTransports).find? m.isUsable with
  | some transport => .useTransport transport
  | none => .queue

/-- The healthy transports with their scores, the best first. -/
def transportScores (m : AdvancedTransportManager) : List (TransportType × ℚ) :=
  let healthy := [TransportType.ble, .nostr].filter m.basicManager.isTransportHealthy
  let scores := healthy.map fun transport =>
    (transport, ((m.healthMonitor.lookup transport).map TransportHealth.transportScore).getD
      (1 / 2))
  scores.mergeSort fun a b => b.2 ≤ a.2

def selectByPerformance (m : AdvancedTransportManager) (context : MessageContext) :
    TransportSelection :=
  let scores := m.transportScores
  match context with
  | .publicMesh => if scores.any (·.1 = .ble) then .useTransport .ble else .queue
  | .publicLocation => if scores.any (·.1 = .nostr) then .useTransport .nostr else .queue
  | _ =>
    match scores.head? with
    | some best => .useTransport best.1
    | none => .queue

def selectTransportAdvanced (m : AdvancedTransportManager) (context : MessageContext) :
    TransportSelection :=
  match m.routingTable.findRule context.recipient context with
  | some rule => m.applyRoutingRule rule
  | none =>
    if m.config.enablePerformanceRouting then m.selectByPerformance context
    else m.basicManager.selectTransport context

/-- There is one transport to send a message by. -/
def isReady (m : AdvancedTransportManager) (message : QueuedMessage) : Bool :=
  match m.selectTransportAdvanced message.context with
  | .useTransport _ => true
  | _ => false

def isExpired (m : AdvancedTransportManager) (now timestamp : ℕ) : Bool :=
  m.config.queueRetentionTime < (now - timestamp) * 1000000

/-- A full queue loses its first message, whichever transport it waits for. -/
def makeRoom (m : AdvancedTransportManager) : BTreeMap ℕ QueuedMessage :=
  if m.config.maxQueueSize ≤ m.messageQueue.size then
    match BTreeMap.first m.messageQueue with
    | some oldest => m.messageQueue.erase oldest.1
    | none => m.messageQueue
  else m.messageQueue

def queueMessage (m : AdvancedTransportManager) (message : QueuedMessage) (now : ℕ) :
    AdvancedTransportManager × Bool :=
  if m.config.enableMessageQueuing then
    ({ m with messageQueue := m.makeRoom.insert now message }, true)
  else (m, false)

/-- The messages that are ready leave the queue, and so do those that have expired. -/
def processMessageQueue (m : AdvancedTransportManager) (now : ℕ) :
    AdvancedTransportManager × List QueuedMessage :=
  let expired := m.messageQueue.toList.filter fun e => m.isExpired now e.1
  let toCheck := m.messageQueue.toList.filter fun e => ! m.isExpired now e.1
  let ready := toCheck.filter fun e => m.isReady e.2
  let removed := expired.map Prod.fst ++ ready.map Prod.fst
  ({ m with messageQueue := BTreeMap.removeAll m.messageQueue removed }, ready.map Prod.snd)

def step (m : AdvancedTransportManager) (i : FailoverInput) :
    AdvancedTransportManager × FailoverAnswer :=
  match i.call with
  | .queueMessage message => (m.queueMessage message i.now).map id .queued
  | .processMessageQueue => (m.processMessageQueue i.now).map id .ready
  | .other basicManager healthMonitor routingTable =>
    ({ m with
        basicManager := basicManager
        healthMonitor := healthMonitor
        routingTable := routingTable }, .done)

/-- The messages that the calls accept into the queue. -/
def accepted (m : AdvancedTransportManager) (i : FailoverInput) : Multiset QueuedMessage :=
  match i.call, (m.step i).2 with
  | .queueMessage message, .queued true => {message}
  | _, _ => 0

/-- The messages that they return. -/
def returned (m : AdvancedTransportManager) (i : FailoverInput) : Multiset QueuedMessage :=
  match (m.step i).2 with
  | .ready messages => messages
  | _ => 0

/-- The messages that are past their retention time when the queue is processed. -/
def expired (m : AdvancedTransportManager) (i : FailoverInput) : Multiset QueuedMessage :=
  match i.call with
  | .processMessageQueue =>
    ((BTreeMap.entries m.messageQueue).filter fun e => m.isExpired i.now e.1).map Prod.snd
  | _ => 0

/-- The oldest message, when another one comes into a full queue. -/
def evicted (m : AdvancedTransportManager) (i : FailoverInput) : Multiset QueuedMessage :=
  match i.call with
  | .queueMessage _ =>
    if m.config.enableMessageQueuing ∧ m.config.maxQueueSize ≤ m.messageQueue.size then
      Multiset.ofList ((BTreeMap.first m.messageQueue).map Prod.snd).toList
    else 0
  | _ => 0

def queued (m : AdvancedTransportManager) : Multiset QueuedMessage :=
  BTreeMap.contents m.messageQueue

/-- Where a message may go that is no longer in the queue. -/
def leaving (m : AdvancedTransportManager) (i : FailoverInput) : Multiset QueuedMessage :=
  m.returned i + m.expired i + m.evicted i

/-- No message is accepted at a millisecond of which one is still in the queue, unless
that is the one that is evicted for it. -/
def FreshMillisecond (m : AdvancedTransportManager) (i : FailoverInput) : Prop :=
  ∀ message held, i.call = .queueMessage message → m.config.enableMessageQueuing = true →
    m.messageQueue[i.now]? = some held →
      m.config.maxQueueSize ≤ m.messageQueue.size ∧
        BTreeMap.first m.messageQueue = some (i.now, held)

variable {m : AdvancedTransportManager} {i : FailoverInput} {message : QueuedMessage} {now : ℕ}

/-- What makes room is the message that counts as evicted. -/
theorem queued_eq_add_makeRoom (m : AdvancedTransportManager) :
    m.queued = (if m.config.maxQueueSize ≤ m.messageQueue.size then
      Multiset.ofList ((BTreeMap.first m.messageQueue).map Prod.snd).toList else 0) +
        BTreeMap.contents m.makeRoom := by
  rw [queued, makeRoom]
  by_cases full : m.config.maxQueueSize ≤ m.messageQueue.size
  · rw [if_pos full, if_pos full]
    cases hfirst : BTreeMap.first m.messageQueue with
    | none => simp
    | some oldest =>
      rw [BTreeMap.contents_eq_cons_erase (BTreeMap.first_mem hfirst)]
      simp
  · rw [if_neg full, if_neg full, zero_add]

theorem get_makeRoom_eq_none :
    m.makeRoom[now]? = none ↔ ∀ held, m.messageQueue[now]? = some held →
      m.config.maxQueueSize ≤ m.messageQueue.size ∧
        BTreeMap.first m.messageQueue = some (now, held) := by
  rw [makeRoom]
  by_cases full : m.config.maxQueueSize ≤ m.messageQueue.size
  · rw [if_pos full]
    cases hfirst : BTreeMap.first m.messageQueue with
    | none => simp [Option.eq_none_iff_forall_ne_some]
    | some oldest =>
      simp only [BTreeMap.get_erase]
      have found := BTreeMap.first_mem hfirst
      by_cases hkey : oldest.1 = now
      · rw [if_pos hkey]
        rw [hkey] at found
        refine iff_of_true rfl fun held hheld => ⟨full, ?_⟩
        rw [← hkey, ← Option.some.inj (found.symm.trans hheld)]
      · rw [if_neg hkey, Option.eq_none_iff_forall_ne_some]
        refine forall_congr' fun held => ?_
        simp only [full, true_and, Option.some.injEq]
        refine imp_congr_right fun _ => iff_of_false id ?_
        intro same
        exact hkey (congrArg Prod.fst same)
  · rw [if_neg full, Option.eq_none_iff_forall_ne_some]
    simp [full]

/-- Queueing loses nothing exactly if the message does not take another one's place. -/
theorem conserves_queueMessage (henabled : m.config.enableMessageQueuing = true) :
    Conserves step accepted leaving queued m ⟨.queueMessage message, now⟩ ↔
      m.makeRoom[now]? = none := by
  have before := queued_eq_add_makeRoom m
  have after : (m.step ⟨.queueMessage message, now⟩).1.queued =
      BTreeMap.contents (m.makeRoom.insert now message) := by
    simp [step, queueMessage, henabled, queued]
  have gone : m.leaving ⟨.queueMessage message, now⟩ =
      if m.config.maxQueueSize ≤ m.messageQueue.size then
        Multiset.ofList ((BTreeMap.first m.messageQueue).map Prod.snd).toList else 0 := by
    simp [leaving, returned, expired, evicted, step, queueMessage, henabled]
  have comes : m.accepted ⟨.queueMessage message, now⟩ = {message} := by
    simp [accepted, step, queueMessage, henabled]
  rw [Conserves, comes, gone, after, before, add_assoc, add_right_inj,
    ← BTreeMap.contents_insert_iff, eq_comm, add_comm, Multiset.singleton_add]

/-- An entry leaves a processed queue if it has expired or its message is ready. -/
theorem entries_processMessageQueue (m : AdvancedTransportManager) (now : ℕ) :
    BTreeMap.entries (m.processMessageQueue now).1.messageQueue =
      (BTreeMap.entries m.messageQueue).filter fun e =>
        ¬ m.isExpired now e.1 ∧ ¬ m.isReady e.2 := by
  rw [processMessageQueue, BTreeMap.entries_removeAll]
  apply Multiset.filter_congr
  intro e he
  rw [List.mem_append, List.filter_filter, BTreeMap.mem_keys_filter he,
    BTreeMap.mem_keys_filter he]
  cases m.isExpired now e.1 <;> simp

theorem conserves_processMessageQueue (m : AdvancedTransportManager) (now : ℕ) :
    Conserves step accepted leaving queued m ⟨.processMessageQueue, now⟩ := by
  have comes : m.accepted ⟨.processMessageQueue, now⟩ = 0 := rfl
  have goes : m.leaving ⟨.processMessageQueue, now⟩ =
      (((BTreeMap.entries m.messageQueue).filter fun e => ¬ m.isExpired now e.1).filter
        fun e => m.isReady e.2).map Prod.snd +
      ((BTreeMap.entries m.messageQueue).filter fun e => m.isExpired now e.1).map Prod.snd := by
    simp [leaving, returned, expired, evicted, step, processMessageQueue, BTreeMap.entries]
  have stays : (m.step ⟨.processMessageQueue, now⟩).1.queued =
      (((BTreeMap.entries m.messageQueue).filter fun e => ¬ m.isExpired now e.1).filter
        fun e => ¬ m.isReady e.2).map Prod.snd := by
    change BTreeMap.contents (m.processMessageQueue now).1.messageQueue = _
    rw [BTreeMap.contents, entries_processMessageQueue, Multiset.filter_filter]
    simp only [and_comm]
  rw [Conserves, comes, goes, stays, add_zero, queued, BTreeMap.contents, add_right_comm,
    ← Multiset.map_add, Multiset.filter_add_not, ← Multiset.map_add, add_comm,
    Multiset.filter_add_not]

theorem conserves_iff_fresh (m : AdvancedTransportManager) (i : FailoverInput) :
    Conserves step accepted leaving queued m i ↔ m.FreshMillisecond i := by
  obtain ⟨call, now⟩ := i
  cases call with
  | queueMessage message =>
    cases henabled : m.config.enableMessageQueuing with
    | false =>
      refine iff_of_true ?_ ?_
      · simp [Conserves, accepted, leaving, returned, expired, evicted, queued, step, queueMessage,
          henabled]
      · intro _ _ _ enabled
        rw [henabled] at enabled
        cases enabled
    | true =>
      rw [conserves_queueMessage henabled, get_makeRoom_eq_none]
      constructor
      · intro h _ held _ _ hheld
        exact h held hheld
      · intro h held hheld
        exact h message held rfl henabled hheld
  | processMessageQueue =>
    refine iff_of_true (conserves_processMessageQueue m now) ?_
    intro message held hcall
    cases hcall
  | other basicManager healthMonitor routingTable =>
    refine iff_of_true ?_ ?_
    · simp [Conserves, accepted, leaving, returned, expired, evicted, queued, step]
    · intro message held hcall
      cases hcall

theorem size_makeRoom_lt (bounded : m.messageQueue.size ≤ m.config.maxQueueSize)
    (room : 1 ≤ m.config.maxQueueSize) :
    m.makeRoom.size + 1 ≤ m.config.maxQueueSize := by
  rw [makeRoom]
  by_cases full : m.config.maxQueueSize ≤ m.messageQueue.size
  · rw [if_pos full]
    cases hfirst : BTreeMap.first m.messageQueue with
    | none =>
      have := BTreeMap.first_eq_none.mp hfirst
      omega
    | some oldest =>
      have := BTreeMap.size_erase_of_get (BTreeMap.first_mem hfirst)
      simp only
      omega
  · rw [if_neg full]
    omega

theorem config_step (m : AdvancedTransportManager) (i : FailoverInput) :
    (m.step i).1.config = m.config := by
  obtain ⟨call, now⟩ := i
  cases call with
  | queueMessage message =>
    cases henabled : m.config.enableMessageQueuing <;> simp [step, queueMessage, henabled]
  | processMessageQueue => rfl
  | other basicManager healthMonitor routingTable => rfl

/-- No call makes the queue longer than it may be. -/
theorem size_step_le (bounded : m.messageQueue.size ≤ m.config.maxQueueSize)
    (room : 1 ≤ m.config.maxQueueSize) (i : FailoverInput) :
    (m.step i).1.messageQueue.size ≤ m.config.maxQueueSize := by
  obtain ⟨call, now⟩ := i
  cases call with
  | queueMessage message =>
    cases henabled : m.config.enableMessageQueuing with
    | false => simpa [step, queueMessage, henabled] using bounded
    | true =>
      have made := size_makeRoom_lt bounded room
      have inserted := Std.ExtTreeMap.size_insert_le (t := m.makeRoom) (k := now) (v := message)
      simp only [step, queueMessage, henabled, if_true, Prod.map_fst, id]
      omega
  | processMessageQueue =>
    have fewer := BTreeMap.card_entries (m.processMessageQueue now).1.messageQueue
    rw [entries_processMessageQueue] at fewer
    change (m.processMessageQueue now).1.messageQueue.size ≤ _
    rw [← fewer]
    refine le_trans ?_ bounded
    rw [← BTreeMap.card_entries]
    exact Multiset.card_le_card (Multiset.filter_le _ _)
  | other basicManager healthMonitor routingTable => exact bounded

/-- At every point of the run the accepted messages are those that were returned, have
expired or were evicted, and those that are still queued; and the queue is bounded. -/
def KeepsMessages (config : AdvancedFailoverConfig) (inputs : List FailoverInput) : Prop :=
  ∀ before rest, inputs = before ++ rest →
    total step accepted (new config) before =
        total step leaving (new config) before + (run step (new config) before).queued ∧
      (1 ≤ config.maxQueueSize →
        (run step (new config) before).messageQueue.size ≤ config.maxQueueSize)

/-- The queue loses and repeats nothing exactly in the runs in which no message is
accepted at the millisecond of another one that is still queued. -/
theorem keepsMessages_iff_freshMillisecond (config : AdvancedFailoverConfig)
    (inputs : List FailoverInput) :
    KeepsMessages config inputs ↔ Along step FreshMillisecond (new config) inputs := by
  have bounded : ∀ before, 1 ≤ config.maxQueueSize →
      (run step (new config) before).messageQueue.size ≤ config.maxQueueSize := by
    intro before room
    refine (Reachable.invariant (I := fun m : AdvancedTransportManager => m.config = config ∧
      m.messageQueue.size ≤ config.maxQueueSize) ?_ ⟨rfl, Nat.zero_le _⟩ ⟨before, rfl⟩).2
    intro m i ⟨sameConfig, hsize⟩
    rw [← sameConfig] at room hsize ⊢
    exact ⟨config_step m i, size_step_le hsize room i⟩
  have fresh : Along step (Conserves step accepted leaving queued) (new config) inputs ↔
      Along step FreshMillisecond (new config) inputs := by
    simp only [along_iff_forall, conserves_iff_fresh]
  rw [← fresh, ← conserved_iff_along]
  have empty : (new config).queued = 0 := rfl
  simp only [empty, zero_add, KeepsMessages]
  constructor
  · intro h before rest heq
    exact (h before rest heq).1
  · intro h before rest heq
    exact ⟨h before rest heq, bounded before⟩

/-- Two messages of one millisecond. -/
def firstMessage : QueuedMessage := ⟨.publicMesh, none, [1]⟩

def secondMessage : QueuedMessage := ⟨.publicMesh, none, [2]⟩

def sameMillisecond : List FailoverInput :=
  [⟨.queueMessage firstMessage, 5⟩, ⟨.queueMessage secondMessage, 5⟩]

/-- Both messages are accepted, and only the second is still there. -/
theorem sameMillisecond_loses_message :
    total step accepted (new .default) sameMillisecond = {firstMessage, secondMessage} ∧
      total step leaving (new .default) sameMillisecond = 0 ∧
      (run step (new .default) sameMillisecond).queued = {secondMessage} ∧
      ¬ KeepsMessages .default sameMillisecond := by
  have comes : total step accepted (new .default) sameMillisecond =
      {firstMessage, secondMessage} := by decide
  have goes : total step leaving (new .default) sameMillisecond = 0 := by decide
  have stays : (run step (new .default) sameMillisecond).queued = {secondMessage} := by decide
  refine ⟨comes, goes, stays, ?_⟩
  intro keeps
  have balance := (keeps sameMillisecond [] rfl).1
  rw [comes, goes, stays] at balance
  exact absurd balance (by decide)

end AdvancedTransportManager

end Bitchat
