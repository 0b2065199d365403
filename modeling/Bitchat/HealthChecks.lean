import Bitchat.Delivery
import Bitchat.FailoverHealth

/-!
# Health checks that are not answered

A trigger returns the transports that have no pending check, and enters a check for them. It
is taken out by its completion alone: the timeout of the configuration is nowhere read. So a
transport whose completion is lost is not checked again.
-/
namespace Bitchat
open Rust

namespace TransportHealthMonitor

/-- The transports that `trigger_health_check` returns. -/
def transportsToCheck (monitor : TransportHealthMonitor) : List TransportType :=
  [TransportType.ble, .nostr].filter (· ∉ monitor.pendingChecks)

/-- A call with the transports that are to be checked. -/
def step (monitor : TransportHealthMonitor) (i : HealthInput) :
    TransportHealthMonitor × List TransportType :=
  match i.call with
  | .recordTransportOperation transport success latencyMs =>
    (monitor.recordOperation transport success latencyMs i.now, [])
  | .triggerHealthCheck => (monitor.triggerHealthCheck i.now, monitor.transportsToCheck)
  | .completeHealthCheck transport success latencyMs =>
    (monitor.completeHealthCheck transport success latencyMs i.now, [])

/-- The calls of a run, with what they returned. -/
def history (inputs : List HealthInput) : List (HealthInput × List TransportType) :=
  collected step (fun i toCheck => some (i, toCheck)) new inputs

/-- A completion closes the open checks of its transport, a trigger opens those it returns. -/
def openAfter (t : TransportType) (times : List ℕ) (entry : HealthInput × List TransportType) :
    List ℕ :=
  match entry.1.call with
  | .completeHealthCheck transport _ _ => if t = transport then [] else times
  | _ => if t ∈ entry.2 then times ++ [entry.1.now] else times

/-- When the checks of a transport were triggered that are still uncompleted. -/
def openChecks (t : TransportType) (history : List (HealthInput × List TransportType)) : List ℕ :=
  history.foldl (openAfter t) []

/-- Every trigger returns the transports that have no open check of less than the timeout. -/
def ChecksInTime (healthCheckTimeout : ℕ) (inputs : List HealthInput) : Prop :=
  ∀ before i rest, inputs = before ++ i :: rest → i.call = .triggerHealthCheck → ∀ t,
    (∀ triggered ∈ openChecks t (history before),
      ¬ fromMillis i.now < fromMillis triggered + healthCheckTimeout) →
    t ∈ ((run step new before).step i).2

/-- A trigger finds no check pending that was triggered the timeout ago or earlier. -/
def NothingOverdue (healthCheckTimeout : ℕ) (monitor : TransportHealthMonitor)
    (i : HealthInput) : Prop :=
  i.call = .triggerHealthCheck → ∀ t triggered,
    monitor.pendingChecks.lookup t = some triggered →
    fromMillis i.now < fromMillis triggered + healthCheckTimeout

variable {monitor : TransportHealthMonitor} {t : TransportType}

theorem mem_transportsToCheck : t ∈ monitor.transportsToCheck ↔ t ∉ monitor.pendingChecks := by
  rw [transportsToCheck, List.mem_filter, decide_eq_true_iff]
  cases t <;> simp

theorem pendingChecks_triggerHealthCheck (monitor : TransportHealthMonitor) (now : ℕ)
    (t : TransportType) :
    (monitor.triggerHealthCheck now).pendingChecks.lookup t =
      if t ∈ monitor.transportsToCheck then some now else monitor.pendingChecks.lookup t :=
  Map.lookup_foldl_insert monitor.transportsToCheck now monitor.pendingChecks t

theorem pendingChecks_completeHealthCheck (monitor : TransportHealthMonitor)
    (transport : TransportType) (success : Bool) (latencyMs : Option UInt64) (now : ℕ)
    (t : TransportType) :
    (monitor.completeHealthCheck transport success latencyMs now).pendingChecks.lookup t =
      if t = transport then none else monitor.pendingChecks.lookup t :=
  Map.lookup_erase_if t transport monitor.pendingChecks

/-- The pending check of a transport stays its open one. -/
theorem openAfter_step (monitor : TransportHealthMonitor) (i : HealthInput) (t : TransportType) :
    openAfter t (monitor.pendingChecks.lookup t).toList (i, (monitor.step i).2) =
      ((monitor.step i).1.pendingChecks.lookup t).toList := by
  obtain ⟨call, now⟩ := i
  cases call with
  | recordTransportOperation transport success latencyMs =>
    simp [openAfter, step, recordOperation]
  | triggerHealthCheck =>
    show (if t ∈ monitor.transportsToCheck then _ else _) =
      ((monitor.triggerHealthCheck now).pendingChecks.lookup t).toList
    rw [pendingChecks_triggerHealthCheck]
    split_ifs with hcheck
    · rw [Finmap.lookup_eq_none.mpr (mem_transportsToCheck.mp hcheck)]
      rfl
    · rfl
  | completeHealthCheck transport success latencyMs =>
    show (if t = transport then _ else _) =
      ((monitor.completeHealthCheck transport success latencyMs now).pendingChecks.lookup t).toList
    rw [pendingChecks_completeHealthCheck]
    split_ifs
    · rfl
    · rfl

theorem openChecks_history (inputs : List HealthInput) (t : TransportType) :
    openChecks t (history inputs) =
      ((run step new inputs).pendingChecks.lookup t).toList := by
  refine collected_invariant (I := fun (monitor : TransportHealthMonitor) history =>
    openChecks t history = (monitor.pendingChecks.lookup t).toList) ?_ rfl along_true
  intro monitor history i h _
  rw [Option.toList_some, openChecks, List.foldl_append, ← openChecks, h, List.foldl_cons,
    List.foldl_nil]
  exact openAfter_step monitor i t

/-- What a trigger returns, in terms of the check that is pending. -/
theorem mem_step_iff {i : HealthInput} (htrigger : i.call = .triggerHealthCheck) :
    t ∈ (monitor.step i).2 ↔ monitor.pendingChecks.lookup t = none := by
  rw [Finmap.lookup_eq_none, ← mem_transportsToCheck, step, htrigger]

/-- Every trigger of a run checks in time exactly if it finds no overdue check pending. -/
theorem checksInTime_iff (healthCheckTimeout : ℕ) (inputs : List HealthInput) :
    ChecksInTime healthCheckTimeout inputs ↔
      Along step (NothingOverdue healthCheckTimeout) new inputs := by
  rw [along_iff_forall]
  refine forall_congr' fun before => forall_congr' fun i => forall_congr' fun rest =>
    imp_congr_right fun _ => imp_congr_right fun htrigger => forall_congr' fun t => ?_
  rw [openChecks_history, mem_step_iff htrigger]
  cases hpending : (run step new before).pendingChecks.lookup t with
  | none => simp
  | some triggered => simp

/-- A check that is never answered, and a trigger a minute later. -/
def lostCheck : List HealthInput := [⟨.triggerHealthCheck, 0⟩, ⟨.triggerHealthCheck, 60000⟩]

/-- With a timeout of five seconds, the second trigger returns no transport. -/
theorem lost_check_blocks :
    outputs step new lostCheck = [[.ble, .nostr], []] ∧
      ¬ ChecksInTime (fromMillis 5000) lostCheck := by
  refine ⟨by decide +kernel, fun h => ?_⟩
  have hchecked := h [⟨.triggerHealthCheck, 0⟩] ⟨.triggerHealthCheck, 60000⟩ [] rfl rfl .ble
    (by decide +kernel)
  revert hchecked
  decide +kernel

end TransportHealthMonitor

end Bitchat
