import Bitchat.Delivery
import Bitchat.Rust.Panics
import Bitchat.SessionLifecycle

/-!
# Activity of Noise sessions

What rekeying and the clean-up of idle sessions read: the message counter and the time of
the last activity. A session writes both behind every call of its transport, whether the
transport accepts the message or not. So an input that is rejected counts as traffic.
-/
namespace Bitchat
open Rust

structure SessionTimeouts where
  handshakeTimeout : ℕ
  idleTimeout : ℕ

def SessionTimeouts.default : SessionTimeouts where
  handshakeTimeout := fromMillis 30000
  idleTimeout := fromMillis 300000

namespace NoiseSession

variable {H T : Type}

/-- It never returns an error, but its multiplications may overflow. -/
def needsRekey (s : NoiseSession H T) (now : Timestamp) : Outcome Empty Bool :=
  if s.state ≠ .established then .ok false
  else do
    let scaled ← u64Mul s.rekeyThreshold 90
    if scaled / 100 ≤ s.messageCount then pure true
    else do
      let sessionTimeoutMs ← u64Mul s.rekeyIntervalSecs 1000
      pure (decide (sessionTimeoutMs ≤ now.asMillis.toNat - s.lastActivity.asMillis.toNat))

def timeSinceActivity (s : NoiseSession H T) (now : Timestamp) : ℕ :=
  elapsedSince now s.lastActivity

/-- How long a session may be idle. -/
def timeout (s : NoiseSession H T) (timeouts : SessionTimeouts) : ℕ :=
  match s.state with
  | .handshaking => timeouts.handshakeTimeout
  | .established => timeouts.idleTimeout
  | .rekeying => timeouts.idleTimeout
  | .failed => fromMillis 1000

end NoiseSession

def NoiseSessionManager.cleanupExpired {H T : Type} (m : NoiseSessionManager H T)
    (timeouts : SessionTimeouts) (now : Timestamp) : NoiseSessionManager H T :=
  { m with sessions :=
      Map.retain (fun _ s => s.timeSinceActivity now ≤ s.timeout timeouts) m.sessions }

namespace NoiseSession

variable {H T : Type} {sha256 : Bytes → Key32} {s s' : NoiseSession H T} {call : SessionCall H T}

/-- A call of `encrypt` or `decrypt`. -/
def IsTraffic (call : SessionCall H T) : Prop :=
  ∃ data, call.op = .encrypt data ∨ call.op = .decrypt data

/-- The call is one of `encrypt` or `decrypt`, and returns an error. -/
def FailsTraffic (sha256 : Bytes → Key32) (s : NoiseSession H T) (call : SessionCall H T) : Prop :=
  IsTraffic call ∧ ∃ e, (s.step sha256 call).2 = fail e

/-- The counter, the last activity and the state are those of before. -/
structure Unmoved (s s' : NoiseSession H T) : Prop where
  messageCount : s'.messageCount = s.messageCount
  lastActivity : s'.lastActivity = s.lastActivity
  state : s'.state = s.state

/-- The calls leave no activity behind: none of them counts, they do not bring on a rekey,
and they do not keep the session from being removed. -/
structure LeavesNoActivity (sha256 : Bytes → Key32) (s : NoiseSession H T)
    (calls : List (SessionCall H T)) : Prop where
  unmoved : Along (step sha256) (fun s call => Unmoved s (s.step sha256 call).1) s calls
  rekey : ∀ now, (run (step sha256) s calls).needsRekey now = .ok true →
    s.needsRekey now = .ok true
  removed : ∀ (m : NoiseSessionManager H T) p timeouts now,
    ((m.setSession p s).cleanupExpired timeouts now).getSession p = none →
      ((m.setSession p (run (step sha256) s calls)).cleanupExpired timeouts now).getSession p =
        none

theorem step_of_isTraffic (sha256 : Bytes → Key32) (s : NoiseSession H T) (h : IsTraffic call) :
    ∃ write data, s.step sha256 call =
      (transfer write s data call.now).map id (·.map fun _ => ()) := by
  obtain ⟨op, noise, now⟩ := call
  obtain ⟨data, rfl | rfl⟩ := h
  · exact ⟨noise.writeMessage, data, rfl⟩
  · exact ⟨noise.readMessage, data, rfl⟩

/-- A session passes its traffic on to the transport if it has one. -/
theorem step_of_transport (sha256 : Bytes → Key32) (hstate : s.state = .established)
    (h : IsTraffic call) :
    (s.transport = none ∧ (s.step sha256 call).1 = s) ∨
      (s.transport.isSome = true ∧
        (s.step sha256 call).1.messageCount = s.messageCount + 1 ∧
        (s.step sha256 call).1.lastActivity = call.now) := by
  obtain ⟨write, data, hstep⟩ := step_of_isTraffic sha256 s h
  rw [hstep]
  cases htransport : s.transport with
  | none => exact Or.inl ⟨rfl, by simp [transfer, hstate, htransport]⟩
  | some transport => exact Or.inr ⟨rfl, by simp [transfer, hstate, htransport]⟩

theorem Unmoved.refl (s : NoiseSession H T) : Unmoved s s := ⟨rfl, rfl, rfl⟩

/-- A rejected message is no activity exactly if there is no transport to reject it. -/
theorem unmoved_step_iff (hstate : s.state = .established) (h : IsTraffic call) :
    Unmoved s (s.step sha256 call).1 ↔ s.transport = none := by
  rcases step_of_transport sha256 hstate h with ⟨hnone, hsame⟩ | ⟨hsome, hcount, -⟩
  · rw [hsame]
    exact iff_of_true (Unmoved.refl s) hnone
  · constructor
    · intro hunmoved
      have hback := hunmoved.messageCount
      omega
    · intro hnone
      rw [hnone] at hsome
      cases hsome

/-- Without a transport traffic changes nothing. -/
theorem run_of_no_transport (sha256 : Bytes → Key32) (hstate : s.state = .established)
    (hnone : s.transport = none)
    {calls : List (SessionCall H T)} (h : ∀ call ∈ calls, IsTraffic call) :
    run (step sha256) s calls = s := by
  induction calls with
  | nil => rfl
  | cons call rest ih =>
    have hsame : (s.step sha256 call).1 = s := by
      rcases step_of_transport sha256 hstate (h call List.mem_cons_self) with
        ⟨-, hsame⟩ | ⟨hsome, -⟩
      · exact hsame
      · rw [hnone] at hsome
        cases hsome
    rw [run_cons, hsame]
    exact ih fun call hcall => h call (List.mem_cons_of_mem _ hcall)

/-- Rejected traffic leaves no activity behind exactly if the session has no transport that
could reject it, or if there was none. -/
theorem leavesNoActivity_iff (sha256 : Bytes → Key32) (s : NoiseSession H T)
    (calls : List (SessionCall H T)) (hstate : s.state = .established)
    (hfails : Along (step sha256) (FailsTraffic sha256) s calls) :
    LeavesNoActivity sha256 s calls ↔ s.transport = none ∨ calls = [] := by
  have htraffic : ∀ call ∈ calls, IsTraffic call := along_inputs.mp (along_and.mp hfails).1
  constructor
  · intro h
    cases calls with
    | nil => exact Or.inr rfl
    | cons call rest =>
      have hfirst := htraffic call List.mem_cons_self
      exact Or.inl ((unmoved_step_iff hstate hfirst).mp h.unmoved.1)
  · rintro (hnone | rfl)
    · have hrun := run_of_no_transport sha256 hstate hnone htraffic
      refine ⟨?_, by rw [hrun]; exact fun _ h => h, by rw [hrun]; exact fun _ _ _ _ h => h⟩
      rw [along_iff_forall]
      rintro before call rest rfl
      have hbefore : run (step sha256) s before = s := run_of_no_transport sha256 hstate hnone
        fun call hcall => htraffic call (List.mem_append_left _ hcall)
      rw [hbefore]
      exact (unmoved_step_iff hstate (htraffic call (by simp))).mpr hnone
    · exact ⟨trivial, fun _ h => h, fun _ _ _ _ h => h⟩

/-- An established session that is to be rekeyed at its first message. -/
def nearRekey : NoiseSession Unit Unit :=
  { (starting remotePeer () ⟨0⟩ : NoiseSession Unit Unit) with
    state := .established
    handshake := none
    transport := some ()
    rekeyThreshold := 2 }

/-- A message that is too short for its tag. -/
def forged : SessionCall Unit Unit := ⟨.decrypt [], .masked, ⟨5⟩⟩

theorem failsTraffic_forged :
    Along (step fun _ => localKey) (FailsTraffic fun _ => localKey) nearRekey [forged] :=
  ⟨⟨⟨[], Or.inr rfl⟩, _, rfl⟩, trivial⟩

theorem leavesNoActivity_forged : ¬ LeavesNoActivity (fun _ => localKey) nearRekey [forged] := by
  rw [leavesNoActivity_iff (fun _ => localKey) nearRekey [forged] rfl failsTraffic_forged]
  rintro (none | nothing)
  · cases none
  · cases nothing

/-- A forged message is rejected, and brings on the rekey. -/
theorem forged_message_counts :
    nearRekey.state = .established ∧
      Along (step fun _ => localKey) (FailsTraffic fun _ => localKey) nearRekey [forged] ∧
      nearRekey.needsRekey ⟨5⟩ = .ok false ∧
      (run (step fun _ => localKey) nearRekey [forged]).needsRekey ⟨5⟩ = .ok true ∧
      ¬ LeavesNoActivity (fun _ => localKey) nearRekey [forged] := by
  have hquiet : nearRekey.needsRekey ⟨5⟩ = .ok false := by decide
  have hdue : (run (step fun _ => localKey) nearRekey [forged]).needsRekey ⟨5⟩ = .ok true := by
    decide
  refine ⟨rfl, failsTraffic_forged, hquiet, hdue, ?_⟩
  intro h
  have hbefore := h.rekey ⟨5⟩ hdue
  rw [hquiet] at hbefore
  cases hbefore

end NoiseSession

end Bitchat
