import Bitchat.FailoverQueue

/-!
# Transport health

The health monitor of `advanced_failover.rs`, and the failure counters that it keeps
next to those of the basic manager. Operations are reported to both, health checks to
the monitor alone. Times are milliseconds.
-/
namespace Bitchat
open Rust

/-- `self.consecutive_failures.saturating_add(1)` behind a failure, 0 behind a success. -/
def countReport (failures : ℕ) (success : Bool) : ℕ :=
  if success then 0 else min (failures + 1) (2 ^ 32 - 1)

@[simp] theorem countReport_true (failures : ℕ) : countReport failures true = 0 := rfl

@[simp] theorem countReport_false (failures : ℕ) :
    countReport failures false = min (failures + 1) (2 ^ 32 - 1) := rfl

namespace Failover.TransportStatus

def recordSuccess (_status : TransportStatus) : TransportStatus := ⟨true, 0⟩

/-- Available until the third failure in a row. -/
def recordFailure (status : TransportStatus) : TransportStatus :=
  let failures := countReport status.consecutiveFailures false
  ⟨if 3 ≤ failures then false else status.isAvailable, failures⟩

def record (status : TransportStatus) (success : Bool) : TransportStatus :=
  if success then status.recordSuccess else status.recordFailure

end Failover.TransportStatus

def BasicTransportManager.updateTransportStatus (m : BasicTransportManager)
    (transport : TransportType) (available : Bool) : BasicTransportManager :=
  match m.transportStatus.lookup transport with
  | some status =>
    { m with transportStatus := m.transportStatus.insert transport (status.record available) }
  | none => m

/-- `advanced_failover::TransportHealth`. An operation is its time, whether it succeeded,
and its latency. -/
structure AdvancedFailover.TransportHealth where
  latencyMs : Option UInt64
  successRate : ℚ
  lastSuccess : Option ℕ
  lastFailure : Option ℕ
  consecutiveFailures : ℕ
  connectionQuality : ℚ
  recentOperations : List (ℕ × Bool × Option UInt64)
  utilization : ℚ

namespace AdvancedFailover.TransportHealth

def new : AdvancedFailover.TransportHealth := ⟨none, 1, none, none, 0, 1, [], 0⟩

/-- The operations of the last hour, at most the last 100 of them. -/
def pruned (operations : List (ℕ × Bool × Option UInt64)) (now : ℕ) :
    List (ℕ × Bool × Option UInt64) :=
  let recent := operations.filter fun operation => now - 3600000 < operation.1
  recent.drop (recent.length - 100)

def updateMetrics (health : AdvancedFailover.TransportHealth) (now : ℕ) :
    AdvancedFailover.TransportHealth :=
  let operations := pruned health.recentOperations now
  let successes := operations.countP fun operation => operation.2.1
  let rate := if operations = [] then health.successRate else successes / operations.length
  { health with
    recentOperations := operations
    successRate := rate
    connectionQuality := rate * (1 - min (health.consecutiveFailures * (1 / 10)) (9 / 10)) }

/-- The sum of two latencies wraps. -/
def recordSuccess (health : AdvancedFailover.TransportHealth) (latencyMs : Option UInt64)
    (now : ℕ) : AdvancedFailover.TransportHealth :=
  let average := match latencyMs, health.latencyMs with
    | some latency, some current => some ((current + latency) / 2)
    | some latency, none => some latency
    | none, current => current
  updateMetrics
    { health with
      lastSuccess := some now
      consecutiveFailures := countReport health.consecutiveFailures true
      recentOperations := health.recentOperations ++ [(now, true, latencyMs)]
      latencyMs := average } now

def recordFailure (health : AdvancedFailover.TransportHealth) (now : ℕ) :
    AdvancedFailover.TransportHealth :=
  updateMetrics
    { health with
      lastFailure := some now
      consecutiveFailures := countReport health.consecutiveFailures false
      recentOperations := health.recentOperations ++ [(now, false, none)] } now

def getTransportScore (health : AdvancedFailover.TransportHealth) : ℚ :=
  let latencyFactor : ℚ := match health.latencyMs with
    | some latency =>
      if latency < 100 then 1
      else if latency < 500 then 4 / 5
      else if latency < 1000 then 3 / 5
      else 2 / 5
    | none => 1
  let score := health.connectionQuality * latencyFactor * (1 - health.utilization * (1 / 2))
  max 0 (min score 1)

/-- What routing reads. -/
def view (health : AdvancedFailover.TransportHealth) : Bitchat.TransportHealth :=
  ⟨health.successRate, health.consecutiveFailures, health.getTransportScore⟩

theorem consecutiveFailures_recordSuccess (health : AdvancedFailover.TransportHealth)
    (latencyMs : Option UInt64) (now : ℕ) :
    (health.recordSuccess latencyMs now).consecutiveFailures =
      countReport health.consecutiveFailures true := rfl

theorem consecutiveFailures_recordFailure (health : AdvancedFailover.TransportHealth)
    (now : ℕ) :
    (health.recordFailure now).consecutiveFailures =
      countReport health.consecutiveFailures false := rfl

end AdvancedFailover.TransportHealth

structure TransportHealthMonitor where
  transportHealth : Map TransportType AdvancedFailover.TransportHealth
  lastHealthCheck : Option ℕ
  pendingChecks : Map TransportType ℕ

namespace TransportHealthMonitor

def new : TransportHealthMonitor := ⟨∅, none, ∅⟩

def recordOperation (monitor : TransportHealthMonitor) (transport : TransportType)
    (success : Bool) (latencyMs : Option UInt64) (now : ℕ) : TransportHealthMonitor :=
  let health := (monitor.transportHealth.lookup transport).getD .new
  let recorded := if success then health.recordSuccess latencyMs now else health.recordFailure now
  { monitor with transportHealth := monitor.transportHealth.insert transport recorded }

/-- Both transports, unless a check is pending already. -/
def triggerHealthCheck (monitor : TransportHealthMonitor) (now : ℕ) : TransportHealthMonitor :=
  let toCheck := [TransportType.ble, .nostr].filter (· ∉ monitor.pendingChecks)
  { monitor with
    lastHealthCheck := some now
    pendingChecks := toCheck.foldl (fun checks transport => checks.insert transport now)
      monitor.pendingChecks }

def completeHealthCheck (monitor : TransportHealthMonitor) (transport : TransportType)
    (success : Bool) (latencyMs : Option UInt64) (now : ℕ) : TransportHealthMonitor :=
  recordOperation { monitor with pendingChecks := monitor.pendingChecks.erase transport }
    transport success latencyMs now

def view (monitor : TransportHealthMonitor) : Map TransportType TransportHealth :=
  Map.mapValues AdvancedFailover.TransportHealth.view monitor.transportHealth

/-- The failure count of a transport, 0 as long as nothing is known of it. -/
def failures (monitor : TransportHealthMonitor) (transport : TransportType) : ℕ :=
  ((monitor.transportHealth.lookup transport).getD .new).consecutiveFailures

theorem failures_recordOperation (monitor : TransportHealthMonitor) (transport t : TransportType)
    (success : Bool) (latencyMs : Option UInt64) (now : ℕ) :
    (monitor.recordOperation transport success latencyMs now).failures t =
      if t = transport then countReport (monitor.failures t) success
      else monitor.failures t := by
  rw [failures, recordOperation, Map.lookup_insert_if]
  by_cases h : t = transport
  · rw [if_pos h, if_pos h, h, Option.getD_some]
    cases success with
    | true => exact AdvancedFailover.TransportHealth.consecutiveFailures_recordSuccess ..
    | false => exact AdvancedFailover.TransportHealth.consecutiveFailures_recordFailure ..
  · rw [if_neg h, if_neg h, failures]

end TransportHealthMonitor

/-- The manager together with the monitor whose view it routes by. -/
structure MonitoredTransportManager where
  manager : AdvancedTransportManager
  monitor : TransportHealthMonitor
  enableHealthMonitoring : Bool
  viewed : manager.healthMonitor = monitor.view

/-- The calls that report on a transport, and the one that starts the checks. -/
inductive HealthCall where
  | recordTransportOperation (transport : TransportType) (success : Bool)
    (latencyMs : Option UInt64)
  | triggerHealthCheck
  | completeHealthCheck (transport : TransportType) (success : Bool) (latencyMs : Option UInt64)

structure HealthInput where
  call : HealthCall
  now : ℕ

/-- What the call reports on a transport, if it does. -/
def HealthInput.report (i : HealthInput) (t : TransportType) : Option Bool :=
  match i.call with
  | .recordTransportOperation transport success _ => if t = transport then some success else none
  | .completeHealthCheck transport success _ => if t = transport then some success else none
  | .triggerHealthCheck => none

/-- The same for health checks only. -/
def HealthInput.checked (i : HealthInput) (t : TransportType) : Option Bool :=
  match i.call with
  | .completeHealthCheck transport success _ => if t = transport then some success else none
  | _ => none

namespace MonitoredTransportManager

def new (config : AdvancedFailoverConfig) (enableHealthMonitoring : Bool) :
    MonitoredTransportManager where
  manager := .new config
  monitor := .new
  enableHealthMonitoring := enableHealthMonitoring
  viewed := rfl

/-- For the rest of the manager, a report is one of the other calls. -/
def withHealth (m : MonitoredTransportManager) (basicManager : BasicTransportManager)
    (monitor : TransportHealthMonitor) (now : ℕ) : MonitoredTransportManager where
  manager := (m.manager.step ⟨.other basicManager monitor.view m.manager.routingTable, now⟩).1
  monitor := monitor
  enableHealthMonitoring := m.enableHealthMonitoring
  viewed := rfl

def step (m : MonitoredTransportManager) (i : HealthInput) : MonitoredTransportManager × Unit :=
  match i.call with
  | .recordTransportOperation transport success latencyMs =>
    (m.withHealth (m.manager.basicManager.updateTransportStatus transport success)
      (m.monitor.recordOperation transport success latencyMs i.now) i.now, ())
  | .triggerHealthCheck =>
    if m.enableHealthMonitoring then
      (m.withHealth m.manager.basicManager (m.monitor.triggerHealthCheck i.now) i.now, ())
    else (m, ())
  | .completeHealthCheck transport success latencyMs =>
    (m.withHealth m.manager.basicManager
      (m.monitor.completeHealthCheck transport success latencyMs i.now) i.now, ())

/-- What the basic manager knows of a transport. -/
def status (m : MonitoredTransportManager) (t : TransportType) : Failover.TransportStatus :=
  (m.manager.basicManager.transportStatus.lookup t).getD .new

/-- The latest health check of the transport succeeded, and fewer than three failures were
reported since. -/
def CheckSucceeded (t : TransportType) (before : List HealthInput) : Prop :=
  ∃ earlier check later, before = earlier ++ check :: later ∧ check.checked t = some true ∧
    (∀ i ∈ later, i.checked t = none) ∧ later.countP (·.report t = some false) < 3

/-- Three health checks of the transport failed, and nothing succeeded between them or since. -/
def ChecksFailed (t : TransportType) (before : List HealthInput) : Prop :=
  ∃ earlier later, before = earlier ++ later ∧ (∀ i ∈ later, i.report t ≠ some true) ∧
    3 ≤ later.countP (·.checked t = some false)

/-- Monitor and basic manager agree on a transport, and its health checks count. -/
structure AgreesOn (m : MonitoredTransportManager) (before : List HealthInput)
    (t : TransportType) : Prop where
  failures : m.monitor.failures t = (m.status t).consecutiveFailures
  healthy : CheckSucceeded t before → m.manager.basicManager.isTransportHealthy t = true
  unhealthy : ChecksFailed t before → m.manager.basicManager.isTransportHealthy t = false

/-- In every state of a run from a new manager. -/
def HealthAgrees (config : AdvancedFailoverConfig) (enableHealthMonitoring : Bool)
    (inputs : List HealthInput) : Prop :=
  ∀ before rest, inputs = before ++ rest → ∀ t,
    AgreesOn (run step (new config enableHealthMonitoring) before) before t

/-- A health check tells the basic manager nothing: a success finds the transport available
and without failures, a failure finds its counter full. -/
def TellsNothing (m : MonitoredTransportManager) (i : HealthInput) : Prop :=
  ∀ t success, i.checked t = some success →
    if success then (m.status t).isAvailable = true ∧ (m.status t).consecutiveFailures = 0
    else (m.status t).consecutiveFailures = 2 ^ 32 - 1

/-! ## The two counters -/

variable {m : MonitoredTransportManager} {i : HealthInput} {t : TransportType}

/-- The monitor counts every report. -/
theorem failures_step (m : MonitoredTransportManager) (i : HealthInput) (t : TransportType) :
    (m.step i).1.monitor.failures t =
      (i.report t).elim (m.monitor.failures t) (countReport (m.monitor.failures t)) := by
  obtain ⟨call, now⟩ := i
  cases call with
  | recordTransportOperation transport success latencyMs =>
    simp only [step, withHealth, TransportHealthMonitor.failures_recordOperation,
      HealthInput.report]
    split_ifs <;> rfl
  | triggerHealthCheck =>
    simp only [step, HealthInput.report, Option.elim_none]
    split_ifs <;> rfl
  | completeHealthCheck transport success latencyMs =>
    simp only [step, withHealth, TransportHealthMonitor.completeHealthCheck,
      TransportHealthMonitor.failures_recordOperation, HealthInput.report]
    split_ifs <;> rfl

theorem failures_run_le (config : AdvancedFailoverConfig) (enable : Bool)
    (inputs : List HealthInput) (t : TransportType) :
    (run step (new config enable) inputs).monitor.failures t ≤ 2 ^ 32 - 1 := by
  refine Reachable.invariant
    (I := fun m : MonitoredTransportManager => m.monitor.failures t ≤ 2 ^ 32 - 1) ?_ ?_
    ⟨inputs, rfl⟩
  · intro m i hle
    rw [failures_step]
    cases i.report t with
    | none => exact hle
    | some success => cases success <;> simp
  · exact Nat.zero_le _

theorem report_of_checked {success : Bool} (h : i.checked t = some success) :
    i.report t = some success := by
  obtain ⟨call, now⟩ := i
  cases call with
  | completeHealthCheck transport succeeded latencyMs => exact h
  | _ => cases h

/-- The basic manager does not hear of a health check. -/
theorem basicManager_of_checked {success : Bool} (h : i.checked t = some success) :
    (m.step i).1.manager.basicManager = m.manager.basicManager := by
  obtain ⟨call, now⟩ := i
  cases call with
  | completeHealthCheck transport succeeded latencyMs => rfl
  | _ => cases h

theorem isTransportHealthy_eq (m : MonitoredTransportManager) (t : TransportType) :
    m.manager.basicManager.isTransportHealthy t = (m.status t).isHealthy := by
  rw [BasicTransportManager.isTransportHealthy, status]
  cases m.manager.basicManager.transportStatus.lookup t <;> rfl

/-- The two managers know the same, and a transport with three failures is not available. -/
structure Mirrors (m : MonitoredTransportManager) : Prop where
  known : ∀ t, m.manager.basicManager.transportStatus.lookup t = some (m.status t)
  failures : ∀ t, m.monitor.failures t = (m.status t).consecutiveFailures
  exhausted : ∀ t, 3 ≤ (m.status t).consecutiveFailures → (m.status t).isAvailable = false

theorem mirrors_new (config : AdvancedFailoverConfig) (enable : Bool) :
    Mirrors (new config enable) := by
  have lookup (t : TransportType) :
      (new config enable).manager.basicManager.transportStatus.lookup t = some .new := by
    simp only [new, AdvancedTransportManager.new, BasicTransportManager.new,
      Map.lookup_insert_if]
    cases t <;> rfl
  have fresh (t : TransportType) : (new config enable).status t = .new := by
    rw [status, lookup, Option.getD_some]
  refine ⟨?_, ?_, ?_⟩
  · intro t
    rw [fresh, lookup]
  · intro t
    rw [fresh]
    rfl
  · intro t hthree
    rw [fresh] at hthree
    exact absurd hthree (by decide)

/-- A status whose counter is full is not changed by one more failure. -/
theorem record_failure_of_full {status : Failover.TransportStatus}
    (hfull : status.consecutiveFailures = 2 ^ 32 - 1) (hdown : status.isAvailable = false) :
    status.record false = status := by
  obtain ⟨available, failures⟩ := status
  simp_all [Failover.TransportStatus.record, Failover.TransportStatus.recordFailure]

theorem consecutiveFailures_record (status : Failover.TransportStatus) (success : Bool) :
    (status.record success).consecutiveFailures =
      countReport status.consecutiveFailures success := by
  cases success <;> rfl

theorem lookup_updateTransportStatus {basic : BasicTransportManager} {transport : TransportType}
    {status : Failover.TransportStatus} (h : basic.transportStatus.lookup transport = some status)
    (success : Bool) (t : TransportType) :
    (basic.updateTransportStatus transport success).transportStatus.lookup t =
      if t = transport then some (status.record success) else basic.transportStatus.lookup t := by
  rw [BasicTransportManager.updateTransportStatus, h]
  exact Map.lookup_insert_if ..

/-- A health check that tells the basic manager nothing would not change the status. -/
theorem record_of_tellsNothing (hmirrors : Mirrors m) (hnothing : TellsNothing m i)
    {success : Bool} (h : i.checked t = some success) :
    (m.status t).record success = m.status t := by
  have same := hnothing t success h
  cases success with
  | true =>
    obtain ⟨available, none_failed⟩ : (m.status t).isAvailable = true ∧
      (m.status t).consecutiveFailures = 0 := same
    rw [Failover.TransportStatus.record, if_pos rfl, Failover.TransportStatus.recordSuccess,
      ← available, ← none_failed]
  | false =>
    have full : (m.status t).consecutiveFailures = 2 ^ 32 - 1 := same
    exact record_failure_of_full full (hmirrors.exhausted t (by omega))

/-- If health checks tell the basic manager nothing, it knows every report. -/
theorem lookup_step (hmirrors : Mirrors m) (hnothing : TellsNothing m i) (t : TransportType) :
    (m.step i).1.manager.basicManager.transportStatus.lookup t =
      some ((i.report t).elim (m.status t) (m.status t).record) := by
  have known := hmirrors.known t
  cases hchecked : i.checked t with
  | some success =>
    rw [basicManager_of_checked hchecked, report_of_checked hchecked, known, Option.elim_some,
      record_of_tellsNothing hmirrors hnothing hchecked]
  | none =>
    obtain ⟨call, now⟩ := i
    cases call with
    | recordTransportOperation transport success latencyMs =>
      have after := lookup_updateTransportStatus (hmirrors.known transport) success t
      refine after.trans ?_
      simp only [HealthInput.report]
      split_ifs with h
      · rw [h, Option.elim_some]
      · rw [known, Option.elim_none]
    | triggerHealthCheck =>
      simp only [step, HealthInput.report, Option.elim_none]
      split_ifs
      · exact known
      · exact known
    | completeHealthCheck transport success latencyMs =>
      simp only [HealthInput.checked] at hchecked
      split_ifs at hchecked with h
      simp only [HealthInput.report, if_neg h, Option.elim_none]
      exact known

theorem status_step (hmirrors : Mirrors m) (hnothing : TellsNothing m i) (t : TransportType) :
    (m.step i).1.status t = (i.report t).elim (m.status t) (m.status t).record := by
  rw [status, lookup_step hmirrors hnothing, Option.getD_some]

theorem Mirrors.step (hmirrors : Mirrors m) (hnothing : TellsNothing m i) :
    Mirrors (m.step i).1 := by
  refine ⟨?_, ?_, ?_⟩
  · intro t
    rw [lookup_step hmirrors hnothing, status_step hmirrors hnothing]
  · intro t
    rw [failures_step, status_step hmirrors hnothing, hmirrors.failures t]
    cases i.report t with
    | none => rfl
    | some success => exact (consecutiveFailures_record _ success).symm
  · intro t
    rw [status_step hmirrors hnothing]
    cases i.report t with
    | none => exact hmirrors.exhausted t
    | some success =>
      cases success with
      | true =>
        intro hthree
        have reset : ((m.status t).record true).consecutiveFailures = 0 := rfl
        rw [Option.elim_some, reset] at hthree
        omega
      | false =>
        intro hthree
        exact if_pos hthree

/-! ## From one health check on -/

/-- A transport stays healthy as long as its failures are not three. -/
theorem isHealthy_run (hmirrors : Mirrors m) (later : List HealthInput)
    (halong : Along MonitoredTransportManager.step TellsNothing m later)
    (available : (m.status t).isAvailable = true)
    (hfew : (m.status t).consecutiveFailures + later.countP (·.report t = some false) < 3) :
    ((run MonitoredTransportManager.step m later).status t).isHealthy = true := by
  induction later generalizing m with
  | nil =>
    rw [List.countP_nil, Nat.add_zero] at hfew
    simp [Failover.TransportStatus.isHealthy, available, hfew]
  | cons i rest ih =>
    have hstatus := status_step hmirrors halong.1 t
    rw [List.countP_cons] at hfew
    refine ih (hmirrors.step halong.1) halong.2 ?_ ?_
    · rw [hstatus]
      cases hreport : i.report t with
      | none => exact available
      | some success =>
        cases success with
        | true => rfl
        | false =>
          simp only [hreport, decide_true, if_true] at hfew
          have below : ¬ 3 ≤ countReport (m.status t).consecutiveFailures false := by
            rw [countReport_false]
            omega
          exact (if_neg below).trans available
    · rw [hstatus]
      cases hreport : i.report t with
      | none =>
        rw [Option.elim_none]
        omega
      | some success =>
        rw [Option.elim_some, consecutiveFailures_record]
        cases success with
        | true =>
          rw [countReport_true]
          omega
        | false =>
          simp only [hreport, decide_true, if_true] at hfew
          rw [countReport_false]
          omega

/-- Without a success the third failure is the end. -/
theorem not_isHealthy_run (hmirrors : Mirrors m) (later : List HealthInput)
    (halong : Along MonitoredTransportManager.step TellsNothing m later)
    (hnone : ∀ i ∈ later, i.report t ≠ some true)
    (hmany : 3 ≤ (m.status t).consecutiveFailures + later.countP (·.report t = some false)) :
    ((run MonitoredTransportManager.step m later).status t).isHealthy = false := by
  induction later generalizing m with
  | nil =>
    rw [List.countP_nil, Nat.add_zero] at hmany
    have few : ¬ (m.status t).consecutiveFailures < 3 := by omega
    simp [Failover.TransportStatus.isHealthy, few]
  | cons i rest ih =>
    have hstatus := status_step hmirrors halong.1 t
    have hrest : ∀ j ∈ rest, j.report t ≠ some true := by
      intro j hj
      exact hnone j (List.mem_cons_of_mem i hj)
    rw [List.countP_cons] at hmany
    refine ih (hmirrors.step halong.1) halong.2 hrest ?_
    rw [hstatus]
    cases hreport : i.report t with
    | none =>
      simpa [hreport] using hmany
    | some success =>
      cases success with
      | true => exact absurd hreport (hnone i List.mem_cons_self)
      | false =>
        simp only [hreport, decide_true, if_true] at hmany
        rw [Option.elim_some, consecutiveFailures_record, countReport_false]
        omega

/-! ## The whole run -/

theorem agreesOn_of_along {config : AdvancedFailoverConfig} {enable : Bool}
    {before : List HealthInput}
    (halong : Along MonitoredTransportManager.step TellsNothing (new config enable) before)
    (t : TransportType) :
    AgreesOn (run MonitoredTransportManager.step (new config enable) before) before t := by
  have mirrors (inputs : List HealthInput) (h : Along MonitoredTransportManager.step TellsNothing
      (new config enable) inputs) :
      Mirrors (run MonitoredTransportManager.step (new config enable) inputs) :=
    run_invariant (fun m i hm hi => hm.step hi) (mirrors_new config enable) h
  refine ⟨(mirrors before halong).failures t, ?_, ?_⟩
  · rintro ⟨earlier, check, later, rfl, hcheck, _, hfew⟩
    obtain ⟨hearlier, hhere, hlater⟩ := along_append.mp halong
    have hmirrors := mirrors earlier hearlier
    have hstatus := status_step hmirrors hhere t
    rw [report_of_checked hcheck, Option.elim_some] at hstatus
    rw [isTransportHealthy_eq, run_append, run_cons]
    refine isHealthy_run (hmirrors.step hhere) later hlater ?_ ?_
    · rw [hstatus]
      rfl
    · rw [hstatus]
      simpa [Failover.TransportStatus.record, Failover.TransportStatus.recordSuccess] using hfew
  · rintro ⟨earlier, later, rfl, hnone, hmany⟩
    obtain ⟨hearlier, hlater⟩ := along_append.mp halong
    have hmore : later.countP (·.checked t = some false) ≤ later.countP (·.report t = some false) :=
      List.countP_mono_left fun i _ h => by
        simpa using report_of_checked (of_decide_eq_true h)
    rw [isTransportHealthy_eq, run_append]
    refine not_isHealthy_run (mirrors earlier hearlier) later hlater hnone ?_
    omega

/-- If the managers agree before and after a health check, it tells the basic manager
nothing. -/
theorem tellsNothing_of_agrees {config : AdvancedFailoverConfig} {enable : Bool}
    {before : List HealthInput} {i : HealthInput}
    (hbefore : ∀ t, AgreesOn (run MonitoredTransportManager.step (new config enable) before)
      before t)
    (hafter : ∀ t, AgreesOn (run MonitoredTransportManager.step (new config enable) (before ++ [i]))
      (before ++ [i]) t) :
    TellsNothing (run MonitoredTransportManager.step (new config enable) before) i := by
  intro t success hcheck
  have hcount := (hafter t).failures
  rw [run_concat, failures_step, report_of_checked hcheck, Option.elim_some, status,
    basicManager_of_checked hcheck, ← status, (hbefore t).failures] at hcount
  cases success with
  | true =>
    have hhealthy := (hafter t).healthy
      ⟨before, i, [], rfl, hcheck, by simp, by simp⟩
    rw [run_concat, basicManager_of_checked hcheck, isTransportHealthy_eq,
      Failover.TransportStatus.isHealthy, Bool.and_eq_true] at hhealthy
    exact ⟨hhealthy.1, hcount.symm⟩
  | false =>
    have hle := failures_run_le config enable before t
    rw [(hbefore t).failures] at hle
    rw [countReport_false] at hcount
    have full : ((run step (new config enable) before).status t).consecutiveFailures =
        2 ^ 32 - 1 := by omega
    exact full

/-- Monitor and basic manager agree exactly as long as health checks tell the basic manager
nothing that it does not know. -/
theorem healthAgrees_iff (config : AdvancedFailoverConfig) (enableHealthMonitoring : Bool)
    (inputs : List HealthInput) :
    HealthAgrees config enableHealthMonitoring inputs ↔
      Along MonitoredTransportManager.step TellsNothing (new config enableHealthMonitoring)
        inputs := by
  constructor
  · intro h
    rw [along_iff_forall]
    intro before i rest heq
    have hbefore := h before (i :: rest) heq
    have hafter := h (before ++ [i]) rest (by simp [heq])
    exact tellsNothing_of_agrees hbefore hafter
  · intro h before rest heq t
    rw [heq, along_append] at h
    exact agreesOn_of_along h.1 t

/-- The first health check of a transport succeeds. -/
def goodCheck : List HealthInput := [⟨.completeHealthCheck .ble true (some 20), 5000⟩]

def badCheck : List HealthInput := [⟨.completeHealthCheck .ble false none, 5000⟩]

/-- A transport whose check succeeded is not healthy, and a failed check is counted once. -/
theorem checks_not_counted :
    ¬ HealthAgrees .default true goodCheck ∧ ¬ HealthAgrees .default true badCheck := by
  constructor
  · intro h
    have healthy := (h goodCheck [] rfl .ble).healthy ⟨[], _, [], rfl, rfl, by simp, by simp⟩
    exact absurd healthy (by decide)
  · intro h
    have failures := (h badCheck [] rfl .ble).failures
    exact absurd failures (by decide)

end MonitoredTransportManager

end Bitchat
