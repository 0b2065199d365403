import Bitchat.Channel
import Bitchat.Rust.FloatText
import Bitchat.Rust.Map
import Bitchat.Rust.Run

/-!
# The monitoring system

`monitoring.rs`: the health of the tasks, the report and the deadlock warnings. The health
of a task is computed when the task reports, against a heartbeat that was just set to the
same time, and is not computed again when it is read. A task that falls silent keeps the
health of its last report.
-/
namespace Bitchat
open Rust

inductive TaskId where
  | coreLogic
  | sessionManager
  | deliveryManager
  | transport (transport : ChannelTransportType)
  | ui
  | testOrchestrator
  deriving DecidableEq

/-- The `Debug` text of a task id. -/
def TaskId.debug : TaskId → String
  | .coreLogic => "CoreLogic"
  | .sessionManager => "SessionManager"
  | .deliveryManager => "DeliveryManager"
  | .transport .ble => "Transport(Ble)"
  | .transport .nostr => "Transport(Nostr)"
  | .ui => "UI"
  | .testOrchestrator => "TestOrchestrator"

inductive TaskHealth where
  | healthy | warning | critical | unresponsive
  deriving DecidableEq

structure MonitoringConfig where
  trackChannelUtilization : Bool
  enableHealthMonitoring : Bool

/-- Times are in milliseconds. -/
structure ChannelUtilization where
  channelName : Text
  bufferUsage : Float32
  sendRate : Float
  receiveRate : Float
  backpressureEvents : ℕ
  avgLatencyMs : Float
  peakUsage : Float32
  timestamp : ℕ

namespace ChannelUtilization

def new (channelName : Text) (now : ℕ) : ChannelUtilization :=
  ⟨channelName, 0, 0, 0, 0, 0, 0, now⟩

/-- `f32::max`, which ignores what is no number. -/
def maxUsage (a b : Float32) : Float32 :=
  if a.isNaN then b else if b.isNaN then a else if a < b then b else a

def update (u : ChannelUtilization) (bufferUsage : Float32)
    (sendCount receiveCount backpressureCount : ℕ) (latencyMs : Float) (now : ℕ) :
    ChannelUtilization :=
  let elapsedSecs := (now - u.timestamp).toFloat / 1000
  { u with
    sendRate := if 0 < elapsedSecs then sendCount.toFloat / elapsedSecs else u.sendRate
    receiveRate := if 0 < elapsedSecs then receiveCount.toFloat / elapsedSecs else u.receiveRate
    bufferUsage := bufferUsage
    backpressureEvents := backpressureCount
    avgLatencyMs := latencyMs
    peakUsage := maxUsage u.peakUsage bufferUsage
    timestamp := now }

end ChannelUtilization

structure TaskHealthMetrics where
  taskId : TaskId
  health : TaskHealth
  lastHeartbeat : ℕ
  cpuTimeMs : ℕ
  memoryUsageBytes : ℕ
  messagesProcessed : ℕ
  errorCount : ℕ
  avgResponseTimeMs : Float
  uptimeSeconds : ℕ

namespace TaskHealthMetrics

def new (taskId : TaskId) (now : ℕ) : TaskHealthMetrics := ⟨taskId, .healthy, now, 0, 0, 0, 0, 0, 0⟩

def calculateHealthStatus (m : TaskHealthMetrics) (currentTime : ℕ) : TaskHealth :=
  let heartbeatAge := currentTime - m.lastHeartbeat
  if 30000 < heartbeatAge then .unresponsive
  else
    let errorRate :=
      if 0 < m.messagesProcessed then m.errorCount.toFloat / m.messagesProcessed.toFloat else 0
    if errorRate > 0.1 ∨ m.avgResponseTimeMs > 5000 then .critical
    else if errorRate > 0.05 ∨ m.avgResponseTimeMs > 1000 then .warning
    else .healthy

/-- The metrics with a new heartbeat, before the health is computed. -/
def beat (m : TaskHealthMetrics) (messagesDelta errorsDelta : ℕ) (responseTimeMs : Float)
    (now : ℕ) : TaskHealthMetrics :=
  { m with
    messagesProcessed := m.messagesProcessed + messagesDelta
    errorCount := m.errorCount + errorsDelta
    avgResponseTimeMs := (m.avgResponseTimeMs + responseTimeMs) / 2
    uptimeSeconds := m.uptimeSeconds + (now - m.lastHeartbeat) / 1000
    lastHeartbeat := now }

def update (m : TaskHealthMetrics) (messagesDelta errorsDelta : ℕ) (responseTimeMs : Float)
    (now : ℕ) : TaskHealthMetrics :=
  let beaten := m.beat messagesDelta errorsDelta responseTimeMs now
  { beaten with health := beaten.calculateHealthStatus now }

end TaskHealthMetrics

structure PerformanceMetrics where
  timestamp : ℕ
  throughput : Float
  avgLatencyMs : Float
  peakLatencyMs : Float
  memoryUsageMb : Float
  activePeers : ℕ
  activeTransports : ℕ
  totalChannelUtilization : Float32

structure MonitoringSystem where
  config : MonitoringConfig
  channelUtilization : Map Text ChannelUtilization
  taskHealth : Map TaskId TaskHealthMetrics
  performanceHistory : List PerformanceMetrics
  startTime : ℕ

structure MonitoringReport where
  timestamp : ℕ
  uptimeSeconds : ℕ
  channelUtilization : Map Text ChannelUtilization
  taskHealth : Map TaskId TaskHealthMetrics
  recentPerformance : List PerformanceMetrics
  overallHealth : TaskHealth

inductive DeadlockWarningType where
  | highChannelUtilization | multipleUnresponsiveTasks | circularWaitDetected | resourceStarvation
  deriving DecidableEq

structure DeadlockWarning where
  warningType : DeadlockWarningType
  channelName : Option Text
  taskId : Option TaskId
  description : String
  deriving DecidableEq

/-- The calls that update the tables of the channels and of the tasks, each at its time. -/
inductive MonitoringCall where
  | updateChannelUtilization (channelName : Text) (bufferUsage : Float32)
      (sendCount receiveCount backpressureCount : ℕ) (latencyMs : Float) (now : ℕ)
  | updateTaskHealth (taskId : TaskId) (messagesDelta errorsDelta : ℕ) (responseTimeMs : Float)
      (now : ℕ)

namespace MonitoringSystem

def new (config : MonitoringConfig) (now : ℕ) : MonitoringSystem := ⟨config, ∅, ∅, [], now⟩

def updateChannelUtilization (s : MonitoringSystem) (channelName : Text) (bufferUsage : Float32)
    (sendCount receiveCount backpressureCount : ℕ) (latencyMs : Float) (now : ℕ) :
    MonitoringSystem :=
  if s.config.trackChannelUtilization then
    let metrics := (s.channelUtilization.lookup channelName).getD (.new channelName now)
    let updated :=
      metrics.update bufferUsage sendCount receiveCount backpressureCount latencyMs now
    { s with channelUtilization := s.channelUtilization.insert channelName updated }
  else s

def updateTaskHealth (s : MonitoringSystem) (taskId : TaskId) (messagesDelta errorsDelta : ℕ)
    (responseTimeMs : Float) (now : ℕ) : MonitoringSystem :=
  if s.config.enableHealthMonitoring then
    let metrics := (s.taskHealth.lookup taskId).getD (.new taskId now)
    let updated := metrics.update messagesDelta errorsDelta responseTimeMs now
    { s with taskHealth := s.taskHealth.insert taskId updated }
  else s

def countHealth (s : MonitoringSystem) (health : TaskHealth) : ℕ :=
  s.taskHealth.values.countP fun m => m.health = health

def calculateOverallHealth (s : MonitoringSystem) : TaskHealth :=
  if Map.size s.taskHealth = 0 then .warning
  else if 0 < s.countHealth .unresponsive ∨ 0 < s.countHealth .critical then .critical
  else if 0 < s.countHealth .warning then .warning
  else .healthy

def getRecentPerformanceMetrics (s : MonitoringSystem) (count : ℕ) : List PerformanceMetrics :=
  s.performanceHistory.reverse.take count

def generateReport (s : MonitoringSystem) (now : ℕ) : MonitoringReport where
  timestamp := now
  uptimeSeconds := (now - s.startTime) / 1000
  channelUtilization := s.channelUtilization
  taskHealth := s.taskHealth
  recentPerformance := s.getRecentPerformanceMetrics 10
  overallHealth := s.calculateOverallHealth

/-- The warnings of a channel that is almost full, one for each slow task. -/
def utilizationWarnings (tasks : List (TaskId × TaskHealthMetrics)) (channelName : Text)
    (util : ChannelUtilization) : List DeadlockWarning :=
  if util.bufferUsage > 0.9 ∧ 10 < util.backpressureEvents then
    (tasks.filter fun task => 5000 < task.2.avgResponseTimeMs).map fun task =>
      { warningType := .highChannelUtilization
        channelName := some channelName
        taskId := some task.1
        description := "High utilization (" ++ formatF32 (util.bufferUsage * 100) ++ "%) in " ++
          String.ofList channelName ++ " with slow task response (" ++
          formatF64 task.2.avgResponseTimeMs ++ "ms)" }
  else []

def detectPotentialDeadlocks (s : MonitoringSystem)
    (channelOrder : Map.KeyOrder s.channelUtilization) (taskOrder : Map.KeyOrder s.taskHealth) :
    List DeadlockWarning :=
  let unresponsiveTasks :=
    (taskOrder.entries.filter fun task => task.2.health = .unresponsive).map Prod.fst
  let warnings := channelOrder.entries.flatMap fun channel =>
    utilizationWarnings taskOrder.entries channel.1 channel.2
  if 2 ≤ unresponsiveTasks.length then
    warnings ++ [{
      warningType := .multipleUnresponsiveTasks
      channelName := none
      taskId := none
      description := "Multiple tasks unresponsive: [" ++
        ", ".intercalate (unresponsiveTasks.map TaskId.debug) ++ "]" }]
  else warnings

def step (s : MonitoringSystem) : MonitoringCall → MonitoringSystem × Unit
  | .updateChannelUtilization channelName usage sent received backpressure latency now =>
    (s.updateChannelUtilization channelName usage sent received backpressure latency now, ())
  | .updateTaskHealth taskId messages errors responseTime now =>
    (s.updateTaskHealth taskId messages errors responseTime now, ())

end MonitoringSystem

/-- The time at which the call updates the health of the task. -/
def MonitoringCall.updates (task : TaskId) : MonitoringCall → Option ℕ
  | .updateTaskHealth task' _ _ _ now => if task' = task then some now else none
  | .updateChannelUtilization .. => none

def latestUpdate (task : TaskId) (calls : List MonitoringCall) : Option ℕ :=
  (calls.filterMap (MonitoringCall.updates task)).getLast?

/-- The last update of the task lies more than 30 seconds before the time. -/
def Silent (calls : List MonitoringCall) (t : ℕ) (task : TaskId) : Prop :=
  ∃ last, latestUpdate task calls = some last ∧ last + 30000 < t

namespace MonitoringSystem

def Unresponsive (report : MonitoringReport) (task : TaskId) : Prop :=
  ∃ metrics, report.taskHealth.lookup task = some metrics ∧ metrics.health = .unresponsive

/-- The tasks that are silent at `t` are reported as unresponsive, and no others. With one of
them the system is critical, and with two there is a warning. -/
structure NoticesSilence (config : MonitoringConfig) (start : ℕ) (calls : List MonitoringCall)
    (t : ℕ) : Prop where
  unresponsive : ∀ task,
    Unresponsive ((run step (new config start) calls).generateReport t) task ↔ Silent calls t task
  critical : (∃ task, Silent calls t task) →
    ((run step (new config start) calls).generateReport t).overallHealth = .critical
  deadlock : (∃ task task', task ≠ task' ∧ Silent calls t task ∧ Silent calls t task') →
    ∀ channelOrder taskOrder, ∃ warning ∈
      (run step (new config start) calls).detectPotentialDeadlocks channelOrder taskOrder,
      warning.warningType = .multipleUnresponsiveTasks

variable {config : MonitoringConfig} {start t : ℕ} {calls : List MonitoringCall}
  {s : MonitoringSystem} {task : TaskId} {metrics : TaskHealthMetrics}

/-- Against a heartbeat of the same time no task is unresponsive. -/
theorem calculateHealthStatus_now (metrics : TaskHealthMetrics) :
    metrics.calculateHealthStatus metrics.lastHeartbeat ≠ .unresponsive := by
  unfold TaskHealthMetrics.calculateHealthStatus
  rw [Nat.sub_self, if_neg (by omega)]
  dsimp only
  split_ifs <;> decide

theorem update_ne_unresponsive (metrics : TaskHealthMetrics) (messagesDelta errorsDelta : ℕ)
    (responseTimeMs : Float) (now : ℕ) :
    (metrics.update messagesDelta errorsDelta responseTimeMs now).health ≠ .unresponsive :=
  calculateHealthStatus_now (metrics.beat messagesDelta errorsDelta responseTimeMs now)

/-- Against a later time a task is unresponsive if it was silent for more than 30 seconds. -/
theorem calculateHealthStatus_eq_unresponsive :
    metrics.calculateHealthStatus t = .unresponsive ↔ metrics.lastHeartbeat + 30000 < t := by
  unfold TaskHealthMetrics.calculateHealthStatus
  dsimp only
  split_ifs with hage
  · exact iff_of_true rfl (by omega)
  all_goals exact iff_of_false (by decide) (by omega)

theorem lookup_updateTaskHealth (henabled : s.config.enableHealthMonitoring = true)
    (task' : TaskId) (messagesDelta errorsDelta : ℕ) (responseTimeMs : Float) (now : ℕ) :
    (s.updateTaskHealth task' messagesDelta errorsDelta responseTimeMs now).taskHealth.lookup task =
      if task = task' then
        some (((s.taskHealth.lookup task').getD (.new task' now)).update messagesDelta errorsDelta
          responseTimeMs now)
      else s.taskHealth.lookup task := by
  rw [updateTaskHealth, if_pos henabled]
  exact Map.lookup_insert_if task task' _ _

theorem taskHealth_of_channel (channelName : Text) (usage : Float32)
    (sent received backpressure : ℕ) (latency : Float) (now : ℕ) :
    (s.updateChannelUtilization channelName usage sent received backpressure latency
      now).taskHealth = s.taskHealth := by
  unfold updateChannelUtilization
  split_ifs <;> rfl

/-- No task is unresponsive after any calls. -/
theorem health_ne_unresponsive (config : MonitoringConfig) (start : ℕ)
    (calls : List MonitoringCall) :
    ∀ task metrics, (run step (new config start) calls).taskHealth.lookup task = some metrics →
      metrics.health ≠ .unresponsive := by
  refine run_invariant (P := fun _ _ => True) (I := fun s : MonitoringSystem =>
    ∀ task metrics, s.taskHealth.lookup task = some metrics → metrics.health ≠ .unresponsive)
    ?_ ?_ along_true
  · intro s call hs _
    cases call with
    | updateChannelUtilization channelName usage sent received backpressure latency now =>
      rw [step, taskHealth_of_channel]
      exact hs
    | updateTaskHealth task' messages errors responseTime now =>
      by_cases henabled : s.config.enableHealthMonitoring = true
      · intro task metrics hfound
        rw [step, lookup_updateTaskHealth henabled] at hfound
        split_ifs at hfound
        · rw [← Option.some.inj hfound]
          exact update_ne_unresponsive _ _ _ _ _
        · exact hs task metrics hfound
      · rw [step, updateTaskHealth, if_neg henabled]
        exact hs
  · intro task metrics hfound
    rw [new, Finmap.lookup_empty] at hfound
    cases hfound

theorem latestUpdate_concat (call : MonitoringCall) :
    latestUpdate task (calls ++ [call]) = (call.updates task).or (latestUpdate task calls) := by
  rw [latestUpdate, List.filterMap_append, List.getLast?_append, latestUpdate]
  cases hcall : call.updates task with
  | none => simp [hcall]
  | some now => simp [hcall]

theorem config_run (config : MonitoringConfig) (start : ℕ) (calls : List MonitoringCall) :
    (run step (new config start) calls).config = config := by
  refine run_invariant (P := fun _ _ => True) (I := fun s : MonitoringSystem => s.config = config)
    ?_ rfl along_true
  rintro s call rfl _
  cases call with
  | updateChannelUtilization =>
    unfold step updateChannelUtilization
    split_ifs <;> rfl
  | updateTaskHealth =>
    unfold step updateTaskHealth
    split_ifs <;> rfl

/-- The heartbeat of a task is the time of its last update. -/
theorem lastHeartbeat_run (henabled : config.enableHealthMonitoring = true) (start : ℕ)
    (calls : List MonitoringCall) (task : TaskId) :
    ((run step (new config start) calls).taskHealth.lookup task).map
      TaskHealthMetrics.lastHeartbeat = latestUpdate task calls := by
  induction calls using List.reverseRecOn with
  | nil => rfl
  | append_singleton calls call ih =>
    rw [run_concat, latestUpdate_concat]
    cases call with
    | updateChannelUtilization channelName usage sent received backpressure latency now =>
      rw [step, taskHealth_of_channel]
      exact ih
    | updateTaskHealth task' messages errors responseTime now =>
      rw [step, lookup_updateTaskHealth (by rw [config_run, henabled]), MonitoringCall.updates]
      by_cases htask : task' = task
      · rw [if_pos htask.symm, if_pos htask, Option.some_or]
        rfl
      · rw [if_neg (Ne.symm htask), if_neg htask, Option.none_or]
        exact ih

/-- The health that is noticed at no time is there to be computed: against the time of the
look, the silent tasks are the unresponsive ones. -/
theorem silent_iff_calculated (henabled : config.enableHealthMonitoring = true) :
    Silent calls t task ↔ ∃ metrics,
      (run step (new config start) calls).taskHealth.lookup task = some metrics ∧
        metrics.calculateHealthStatus t = .unresponsive := by
  have hbeat := lastHeartbeat_run henabled start calls task
  simp only [Silent, calculateHealthStatus_eq_unresponsive, ← hbeat, Option.map_eq_some_iff]
  constructor
  · rintro ⟨_, ⟨metrics, hfound, rfl⟩, hlate⟩
    exact ⟨metrics, hfound, hlate⟩
  · rintro ⟨metrics, hfound, hlate⟩
    exact ⟨_, ⟨metrics, hfound, rfl⟩, hlate⟩

/-- **The watchdog notices the silent tasks exactly if there are none.** -/
theorem noticesSilence_iff (config : MonitoringConfig) (start : ℕ) (calls : List MonitoringCall)
    (t : ℕ) : NoticesSilence config start calls t ↔ ∀ task, ¬ Silent calls t task := by
  have hnone : ∀ task,
      ¬ Unresponsive ((run step (new config start) calls).generateReport t) task := by
    rintro task ⟨metrics, hfound, hhealth⟩
    exact health_ne_unresponsive config start calls task metrics hfound hhealth
  constructor
  · intro hnotices task hsilent
    exact hnone task ((hnotices.unresponsive task).mpr hsilent)
  · intro hspeaking
    refine ⟨fun task => iff_of_false (hnone task) (hspeaking task), ?_, ?_⟩
    · rintro ⟨task, hsilent⟩
      exact absurd hsilent (hspeaking task)
    · rintro ⟨task, _, -, hsilent, -⟩
      exact absurd hsilent (hspeaking task)

/-- A single report at the start, and a look 30 seconds and a millisecond later. -/
theorem not_noticesSilence :
    ¬ NoticesSilence ⟨true, true⟩ 0 [.updateTaskHealth .coreLogic 1 0 5 0] 30001 := by
  intro hnotices
  have hsilent : Silent [.updateTaskHealth .coreLogic 1 0 5 0] 30001 .coreLogic :=
    ⟨0, rfl, by decide⟩
  obtain ⟨metrics, hfound, hhealth⟩ := (hnotices.unresponsive .coreLogic).mpr hsilent
  exact health_ne_unresponsive _ _ _ _ metrics hfound hhealth

end MonitoringSystem

end Bitchat
