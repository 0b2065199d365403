import Bitchat.DecomposedSteps

/-!
# The health of the tasks, as the supervisor sees it

No task ever reports its health. The first check more than a minute after the start
takes all tasks for degraded, and nothing makes them healthy again.
-/
namespace Bitchat
open Rust

/-- More than a minute after a task was noted at the start. -/
def Late (start instant : ℕ) : Prop := 60 * nanosPerSec < instant - start

namespace Supervisor

variable {s : Supervisor} {task : TaskId} {start instant : ℕ}

/-- The task, if it is supervised, is as it was at the start. -/
def Untouched (task : TaskId) (start : ℕ) (s : Supervisor) : Prop :=
  ∀ info, s.health.lookup task = some info → info = ⟨.healthy, start, none⟩

/-- The task, if it is supervised, is degraded. -/
def Degraded (task : TaskId) (s : Supervisor) : Prop :=
  ∀ info, s.health.lookup task = some info → info.status = .degraded

theorem lookup_started (instants : TaskId → ℕ) (task : TaskId) :
    (started instants).health.lookup task =
      if task ∈ tasks then some ⟨.healthy, instants task, none⟩ else none := by
  simp only [started, tasks, List.foldl_cons, List.foldl_nil, Map.lookup_insert_if,
    Finmap.lookup_empty]
  cases task <;> rfl

@[simp] theorem lookup_performHealthCheck (s : Supervisor) (instant : ℕ) (task : TaskId) :
    (s.performHealthCheck instant).health.lookup task =
      (s.health.lookup task).map (TaskHealthInfo.checked instant) :=
  Map.lookup_mapValues _ _ _

theorem Untouched.check (h : s.Untouched task start) (early : ¬ Late start instant) :
    (s.performHealthCheck instant).Untouched task start := by
  intro info hinfo
  rw [lookup_performHealthCheck] at hinfo
  obtain ⟨before, hbefore, rfl⟩ := Option.map_eq_some_iff.mp hinfo
  rw [h before hbefore]
  exact if_neg early

theorem Untouched.check_late (h : s.Untouched task start) (late : Late start instant) :
    (s.performHealthCheck instant).Degraded task := by
  intro info hinfo
  rw [lookup_performHealthCheck] at hinfo
  obtain ⟨before, hbefore, rfl⟩ := Option.map_eq_some_iff.mp hinfo
  rw [h before hbefore]
  exact congrArg TaskHealthInfo.status (if_pos late)

theorem Degraded.check (h : s.Degraded task) (instant : ℕ) :
    (s.performHealthCheck instant).Degraded task := by
  intro info hinfo
  rw [lookup_performHealthCheck] at hinfo
  obtain ⟨before, hbefore, rfl⟩ := Option.map_eq_some_iff.mp hinfo
  have degraded := h before hbefore
  unfold TaskHealthInfo.checked
  split_ifs
  · rfl
  · exact degraded

end Supervisor

namespace DecomposedRuntime

variable {sha256 : Bytes → Key32} {rt rt' : DecomposedRuntime} {log seen : List Seen}

/-- No task has reported its health. -/
def Silent (rt : DecomposedRuntime) : Prop := ∀ event ∈ rt.internalEvents.queue, ¬ event.IsHealth

theorem Silent.announces (h : rt.Silent) {events : Unbounded InternalEvent}
    (announces : rt.Announces events seen) : ∀ event ∈ events.queue, ¬ event.IsHealth := by
  rcases announces with ⟨rfl, -⟩ | ⟨event, other, sent, -⟩
  · exact h
  · intro e he
    rw [(Unbounded.send_eq_some sent).2.1, List.mem_append, List.mem_singleton] at he
    rcases he with he | rfl
    · exact h e he
    · exact other

theorem Silent.steps (h : rt.Silent) (hstep : Steps sha256 rt rt' seen) : rt'.Silent := by
  cases hstep with
  | session got goesOn announces sends => exact h.announces announces
  | storage running got goesOn announces tracks => exact h.announces announces
  | supervised got =>
    intro event hevent
    exact h event ((Unbounded.recv_eq_some got).1 ▸ List.mem_cons_of_mem _ hevent)
  | _ => exact h

/-- What the supervisor knows changes by health checks alone. -/
theorem Silent.supervisor (h : rt.Silent) (hstep : Steps sha256 rt rt' seen) :
    rt'.supervisor = rt.supervisor ∧ (∀ instant, .checkedHealth instant ∉ seen) ∨
      ∃ instant, rt'.supervisor = rt.supervisor.performHealthCheck instant ∧
        seen = [.checkedHealth instant] := by
  cases hstep with
  | front front keeps only => exact .inl ⟨rfl, fun instant hmem => nomatch only _ hmem⟩
  | send front running counter tells =>
    rcases tells with rfl | ⟨millis, rfl⟩ <;> exact .inl ⟨rfl, by simp⟩
  | receive front running keeps tells =>
    rcases tells with rfl | ⟨millis, rfl⟩ <;> exact .inl ⟨rfl, by simp⟩
  | session got goesOn announces sends =>
    rcases announces with ⟨-, rfl⟩ | ⟨event, -, -, rfl⟩ <;>
      rcases sends with ⟨-, rfl⟩ | ⟨p, transport, -, -, rfl⟩ <;> exact .inl ⟨rfl, by simp⟩
  | storage running got goesOn announces tracks =>
    rcases announces with ⟨-, rfl⟩ | ⟨event, -, -, rfl⟩ <;> exact .inl ⟨rfl, by simp⟩
  | @supervised event events instant got =>
    have other := h event ((Unbounded.recv_eq_some got).1 ▸ List.mem_cons_self)
    cases event with
    | taskHealth taskId status message => exact absurd trivial other
    | _ => exact .inl ⟨rfl, nofun⟩
  | checked instant => exact .inr ⟨instant, rfl, rfl⟩
  | _ => exact .inl ⟨rfl, by simp⟩

/-- What the supervisor makes of a task after the checks so far. -/
structure Judged (task : TaskId) (start : ℕ) (rt : DecomposedRuntime) (log : List Seen) : Prop where
  silent : rt.Silent
  known : (rt.supervisor.health.lookup task).isSome ↔ task ∈ Supervisor.tasks
  early : (∀ instant, .checkedHealth instant ∈ log → ¬ Late start instant) →
    rt.supervisor.Untouched task start
  late : ∀ instant, .checkedHealth instant ∈ log → Late start instant →
    rt.supervisor.Degraded task

theorem Judged.steps {task : TaskId} {start : ℕ} (h : Judged task start rt log)
    (hstep : Steps sha256 rt rt' seen) : Judged task start rt' (log ++ seen) := by
  obtain ⟨silent, known, early, late⟩ := h
  refine ⟨silent.steps hstep, ?_, ?_, ?_⟩
  · rcases silent.supervisor hstep with ⟨same, -⟩ | ⟨instant, checked, -⟩
    · rwa [same]
    · rw [checked, Supervisor.lookup_performHealthCheck, Option.isSome_map, known]
  · intro hearly
    have untouched := early fun instant hmem => hearly instant (List.mem_append_left seen hmem)
    rcases silent.supervisor hstep with ⟨same, -⟩ | ⟨instant, checked, rfl⟩
    · rwa [same]
    · rw [checked]
      exact untouched.check (hearly instant (by simp))
  · intro instant hmem hlate
    rcases silent.supervisor hstep with ⟨same, unchecked⟩ | ⟨now, checked, rfl⟩
    · rw [same]
      rcases List.mem_append.mp hmem with hmem | hmem
      · exact late instant hmem hlate
      · exact absurd hmem (unchecked instant)
    · rw [checked]
      by_cases hearly : ∀ instant, .checkedHealth instant ∈ log → ¬ Late start instant
      · rcases List.mem_append.mp hmem with hmem | hmem
        · exact absurd hlate (hearly instant hmem)
        · obtain rfl : instant = now := by simpa using hmem
          exact (early hearly).check_late hlate
      · simp only [not_forall, not_not] at hearly
        obtain ⟨before, hbefore, hlate'⟩ := hearly
        exact (late before hbefore hlate').check now

/-- No task reports its health: the supervisor calls the runtime healthy exactly until it
first checks later than a minute after one of the tasks was noted at the start, and never again
after that. -/
theorem isHealthy_iff_checked_early (sha256 : Bytes → Key32) (peerId : PeerId)
    (rateLimiting : RateLimitConfig) (buffers : Buffers)
    (transports : ℕ) (instants : TaskId → ℕ) (acts : List Act) :
    (run (step sha256) (start peerId rateLimiting buffers transports instants)
        acts).supervisor.IsHealthy ↔
      ∀ now, .checkedHealth now ∈
        (start peerId rateLimiting buffers transports instants).log sha256 acts →
          ∀ task ∈ Supervisor.tasks, now - instants task ≤ 60 * nanosPerSec := by
  have judged (task : TaskId) := by
    refine log_rule sha256 peerId rateLimiting buffers transports instants
      (I := Judged task (instants task)) (fun _ _ _ _ _ h hstep => h.steps hstep)
      ⟨nofun, ?_, fun _ => ?_, nofun⟩ acts
    · rw [start, Supervisor.lookup_started]
      split_ifs with supervised <;> simp [supervised]
    · intro info hinfo
      rw [start, Supervisor.lookup_started] at hinfo
      split_ifs at hinfo
      exact (Option.some.inj hinfo).symm
  constructor
  · intro healthy now hmem task supervised
    by_contra hlate
    obtain ⟨info, hinfo⟩ := Option.isSome_iff_exists.mp ((judged task).known.mpr supervised)
    have degraded := (judged task).late now hmem (not_le.mp hlate) info hinfo
    rw [healthy task info hinfo] at degraded
    cases degraded
  · intro early task info hinfo
    have supervised := (judged task).known.mp (Option.isSome_of_mem hinfo)
    have untouched := (judged task).early fun now hmem =>
      not_lt.mpr (early now hmem task supervised)
    rw [untouched info hinfo]

end DecomposedRuntime

end Bitchat
