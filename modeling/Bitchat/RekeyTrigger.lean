import Bitchat.SessionActivity
import Mathlib.Data.List.DropRight

/-!
# The rekey trigger

The counter of a session holds the messages that were passed to its transport since the
last rekey was started, and its last activity is the time of the last call that recorded
one. From these the trigger is computed with two multiplications on 64 bits, which overflow
for large thresholds and intervals.
-/
namespace Bitchat
open Rust

/-- What a call records in a session, and when. -/
inductive SessionNote where
  | passed (now : Timestamp)
  | restarted (now : Timestamp)
  | touched (now : Timestamp)

namespace SessionNote

def time : SessionNote → Timestamp
  | passed now => now
  | restarted now => now
  | touched now => now

/-- A message was passed to the transport. -/
def passes : SessionNote → Bool
  | passed _ => true
  | _ => false

/-- A rekey was started. -/
def restarts : SessionNote → Bool
  | restarted _ => true
  | _ => false

end SessionNote

/-- The messages since the last rekey was started, or since the beginning. -/
def messagesSince (notes : List SessionNote) : ℕ :=
  (notes.rtakeWhile fun n => !n.restarts).countP SessionNote.passes

/-- The time of the last note, or else that of the creation. -/
def lastNoted (created : Timestamp) (notes : List SessionNote) : Timestamp :=
  (notes.getLast?.map SessionNote.time).getD created

namespace NoiseSession

variable {H T : Type}

section

variable (sha256 : Bytes → Key32)

/-- Traffic is recorded when there is a transport to pass it to, all else when it succeeds. -/
def note (s : NoiseSession H T) (call : SessionCall H T) : Option SessionNote :=
  let succeeds := (s.step sha256 call).2.isOk
  let passes := s.state == .established && s.transport.isSome
  match call.op with
  | .createHandshakeMessage _ => if succeeds then some (.touched call.now) else none
  | .processHandshakeMessage _ => if succeeds then some (.touched call.now) else none
  | .encrypt _ => if passes then some (.passed call.now) else none
  | .decrypt _ => if passes then some (.passed call.now) else none
  | .startRekey _ => if succeeds then some (.restarted call.now) else none
  | .completeRekey => if succeeds then some (.touched call.now) else none
  | _ => none

/-- A step with its note. -/
def stepNoted (s : NoiseSession H T) (call : SessionCall H T) :
    NoiseSession H T × Option SessionNote :=
  ((s.step sha256 call).1, s.note sha256 call)

/-- The notes of a run, in order. -/
def history (s : NoiseSession H T) (calls : List (SessionCall H T)) : List SessionNote :=
  collected (stepNoted sha256) (fun _ note => note) s calls

end

/-- A rekey is due: for the messages since the last one, or for the time since the last
activity, of an established session. -/
def RekeyDue (s : NoiseSession H T) (created : Timestamp) (notes : List SessionNote)
    (now : Timestamp) : Prop :=
  s.state = .established ∧
    (90 * s.rekeyThreshold / 100 ≤ messagesSince notes ∨
      1000 * s.rekeyIntervalSecs ≤
        now.asMillis.toNat - (lastNoted created notes).asMillis.toNat)

/-- The trigger does not panic, and is set exactly if a rekey is due. -/
def TriggersExactly (s : NoiseSession H T) (created : Timestamp) (notes : List SessionNote)
    (now : Timestamp) : Prop :=
  ∃ due, s.needsRekey now = .ok due ∧ (due = true ↔ s.RekeyDue created notes now)

/-- The two products that the trigger needs fit into 64 bits. -/
def ProductsFit (s : NoiseSession H T) : Prop :=
  s.state = .established → 90 * s.rekeyThreshold < 2 ^ 64 ∧
    (s.messageCount < 90 * s.rekeyThreshold / 100 → 1000 * s.rekeyIntervalSecs < 2 ^ 64)

/-- The counter and the last activity are those of the notes. -/
structure Recorded (s : NoiseSession H T) (created : Timestamp) (notes : List SessionNote) :
    Prop where
  messageCount : s.messageCount = messagesSince notes
  lastActivity : s.lastActivity = lastNoted created notes

/-- The counter after a note. -/
def countNoted (count : ℕ) : Option SessionNote → ℕ
  | some (.passed _) => count + 1
  | some (.restarted _) => 0
  | _ => count

/-- The second session is the first one with a note. -/
structure Notes (note : Option SessionNote) (s s' : NoiseSession H T) : Prop where
  messageCount : s'.messageCount = countNoted s.messageCount note
  lastActivity : s'.lastActivity = (note.map SessionNote.time).getD s.lastActivity

variable {sha256 : Bytes → Key32} {noise : NoiseLibrary H T} {s s' : NoiseSession H T}
  {created now : Timestamp} {notes : List SessionNote} {call : SessionCall H T}

theorem lastNoted_concat (created : Timestamp) (notes : List SessionNote) (n : SessionNote) :
    lastNoted created (notes ++ [n]) = n.time := by
  simp [lastNoted]

theorem messagesSince_concat (notes : List SessionNote) (n : SessionNote) :
    messagesSince (notes ++ [n]) = countNoted (messagesSince notes) (some n) := by
  unfold messagesSince
  rw [List.rtakeWhile_concat]
  cases n with
  | passed now => simp [SessionNote.restarts, SessionNote.passes, countNoted]
  | restarted now => simp [SessionNote.restarts, countNoted]
  | touched now => simp [SessionNote.restarts, SessionNote.passes, countNoted]

theorem Recorded.concat (h : s.Recorded created notes) {note : Option SessionNote}
    (hnext : Notes note s s') : s'.Recorded created (notes ++ note.toList) := by
  obtain ⟨hcount, hactivity⟩ := hnext
  cases note with
  | none =>
    rw [Option.toList_none, List.append_nil]
    exact ⟨hcount.trans h.messageCount, hactivity.trans h.lastActivity⟩
  | some n =>
    rw [Option.toList_some]
    refine ⟨?_, hactivity.trans (lastNoted_concat created notes n).symm⟩
    rw [hcount, h.messageCount, messagesSince_concat]

theorem isOk_map {α β : Type} (f : α → β) (x : BitchatResult α) : (x.map f).isOk = x.isOk := by
  cases x <;> rfl

/-- A call leaves the counter as it is, and is dated if it succeeds. -/
structure DatedBy {α : Type} (now : Timestamp) (s : NoiseSession H T)
    (result : NoiseSession H T × BitchatResult α) : Prop where
  messageCount : result.1.messageCount = s.messageCount
  lastActivity : result.1.lastActivity = if result.2.isOk then now else s.lastActivity

theorem DatedBy.recorded {α : Type} {result : NoiseSession H T × BitchatResult α}
    (h : DatedBy now s result) :
    Notes (if result.2.isOk then some (.touched now) else none) s result.1 := by
  obtain ⟨hcount, hactivity⟩ := h
  cases hok : result.2.isOk with
  | true =>
    rw [hok] at hactivity
    exact ⟨hcount, hactivity⟩
  | false =>
    rw [hok] at hactivity
    exact ⟨hcount, hactivity⟩

theorem datedBy_exchange (sha256 : Bytes → Key32) (noise : NoiseLibrary H T)
    (s : NoiseSession H T) (call : H → Bytes → H × Except String Bytes) (data : Bytes)
    (now : Timestamp) : DatedBy now s (exchange sha256 noise call s data now) := by
  unfold exchange
  split_ifs with hstate
  · exact ⟨rfl, rfl⟩
  · cases s.handshake with
    | none => exact ⟨rfl, rfl⟩
    | some before =>
      simp only
      rcases call before data with ⟨after, e | output⟩
      · exact ⟨rfl, rfl⟩
      · simp only
        split_ifs with hfinished
        · cases noise.intoTransportMode after with
          | error e => exact ⟨rfl, rfl⟩
          | ok transport => exact ⟨rfl, rfl⟩
        · exact ⟨rfl, rfl⟩

theorem datedBy_completeRekey (now : Timestamp) : DatedBy now s (s.completeRekey noise now) := by
  unfold completeRekey
  split_ifs with hstate
  · exact ⟨rfl, rfl⟩
  · cases s.handshake with
    | none => exact ⟨rfl, rfl⟩
    | some handshake =>
      simp only
      by_cases hfinished : noise.isHandshakeFinished handshake = true
      · rw [if_neg (not_not.mpr hfinished)]
        cases noise.intoTransportMode handshake with
        | error e => exact ⟨rfl, rfl⟩
        | ok transport => exact ⟨rfl, rfl⟩
      · rw [if_pos hfinished]
        exact ⟨rfl, rfl⟩

theorem notes_startRekey (localKey : Key32) (now : Timestamp) :
    Notes (if (s.startRekey noise localKey now).2.isOk then some (.restarted now) else none) s
      (s.startRekey noise localKey now).1 := by
  unfold startRekey
  by_cases hstate : s.state = .established
  · rw [if_neg (not_not.mpr hstate)]
    cases noise.buildInitiator localKey with
    | error e => exact ⟨rfl, rfl⟩
    | ok handshake => exact ⟨rfl, rfl⟩
  · rw [if_pos hstate]
    exact ⟨rfl, rfl⟩

theorem notes_transfer (call : T → Bytes → T × Except String Bytes) (data : Bytes)
    (now : Timestamp) :
    Notes (if s.state == .established && s.transport.isSome then some (.passed now) else none) s
      (transfer call s data now).1 := by
  unfold transfer
  by_cases hstate : s.state = .established
  · rw [if_neg (not_not.mpr hstate), hstate]
    cases s.transport with
    | none => exact ⟨rfl, rfl⟩
    | some transport => exact ⟨rfl, rfl⟩
  · rw [if_pos hstate, beq_eq_false_iff_ne.mpr hstate]
    exact ⟨rfl, rfl⟩

/-- A step is recorded as its note says. -/
theorem notes_step (sha256 : Bytes → Key32) (s : NoiseSession H T) (call : SessionCall H T) :
    Notes (s.note sha256 call) s (s.step sha256 call).1 := by
  obtain ⟨op, noise, now⟩ := call
  cases op with
  | createHandshakeMessage payload =>
    have h := (datedBy_exchange sha256 noise s noise.writeHandshake payload now).recorded
    simpa only [note, step, createHandshakeMessage, Prod.map_fst, Prod.map_snd, isOk_map, id]
      using h
  | processHandshakeMessage input =>
    have h := (datedBy_exchange sha256 noise s noise.readHandshake input now).recorded
    simpa only [note, step, processHandshakeMessage, Prod.map_fst, Prod.map_snd, isOk_map, id]
      using h
  | encrypt plaintext => exact notes_transfer noise.writeMessage plaintext now
  | decrypt ciphertext => exact notes_transfer noise.readMessage ciphertext now
  | startRekey localKey => exact notes_startRekey localKey now
  | completeRekey => exact (datedBy_completeRekey now).recorded
  | markFailed => exact ⟨rfl, rfl⟩
  | setRekeyThreshold threshold => exact ⟨rfl, rfl⟩
  | setRekeyIntervalSecs intervalSecs => exact ⟨rfl, rfl⟩

theorem recorded_run (sha256 : Bytes → Key32) {s0 : NoiseSession H T}
    (hcreated : Created noise s0) (calls : List (SessionCall H T)) :
    (run (step sha256) s0 calls).Recorded s0.createdAt (history sha256 s0 calls) := by
  have hinit : s0.Recorded s0.createdAt [] := by
    obtain ⟨peerId, handshake, now, rfl⟩ := hcreated.eq_starting
    exact ⟨rfl, rfl⟩
  -- the run with notes has the states of the run without them
  have hnoted : (run (stepNoted sha256) s0 calls).Recorded s0.createdAt
      (history sha256 s0 calls) :=
    collected_invariant (I := fun (s : NoiseSession H T) notes => s.Recorded s0.createdAt notes)
      (fun s _ call h _ => h.concat (notes_step sha256 s call)) hinit along_true
  exact hnoted

/-- In an established session each product is computed if it is needed, and must fit. -/
theorem needsRekey_of_established (hstate : s.state = .established) (now : Timestamp) :
    s.needsRekey now =
      if 90 * s.rekeyThreshold < 2 ^ 64 then
        if 90 * s.rekeyThreshold / 100 ≤ s.messageCount then .ok true
        else if 1000 * s.rekeyIntervalSecs < 2 ^ 64 then
          .ok (decide (1000 * s.rekeyIntervalSecs ≤
            now.asMillis.toNat - s.lastActivity.asMillis.toNat))
        else panicked
      else panicked := by
  rw [needsRekey, if_neg (not_not.mpr hstate), u64Mul, u64Mul, Nat.mul_comm s.rekeyThreshold,
    Nat.mul_comm s.rekeyIntervalSecs]
  by_cases hthreshold : 90 * s.rekeyThreshold < 2 ^ 64
  · rw [if_pos hthreshold, if_pos hthreshold, ok_bind]
    refine if_congr Iff.rfl rfl ?_
    by_cases hinterval : 1000 * s.rekeyIntervalSecs < 2 ^ 64
    · rw [if_pos hinterval, if_pos hinterval]
      rfl
    · rw [if_neg hinterval, if_neg hinterval]
      rfl
  · rw [if_neg hthreshold, if_neg hthreshold]
    rfl

theorem triggersExactly_iff (h : s.Recorded created notes) (now : Timestamp) :
    s.TriggersExactly created notes now ↔ s.ProductsFit := by
  by_cases hstate : s.state = .established
  · simp only [TriggersExactly, ProductsFit, RekeyDue, hstate, true_and, forall_const,
      needsRekey_of_established hstate, ← h.messageCount, ← h.lastActivity]
    by_cases hthreshold : 90 * s.rekeyThreshold < 2 ^ 64
    · rw [if_pos hthreshold]
      by_cases hcount : 90 * s.rekeyThreshold / 100 ≤ s.messageCount
      · rw [if_pos hcount]
        exact iff_of_true ⟨true, rfl, iff_of_true rfl (Or.inl hcount)⟩
          ⟨hthreshold, fun hfewer => absurd hcount (Nat.not_le.mpr hfewer)⟩
      · rw [if_neg hcount]
        by_cases hinterval : 1000 * s.rekeyIntervalSecs < 2 ^ 64
        · rw [if_pos hinterval]
          refine iff_of_true ⟨_, rfl, ?_⟩ ⟨hthreshold, fun _ => hinterval⟩
          rw [decide_eq_true_iff, or_iff_right hcount]
        · rw [if_neg hinterval]
          exact iff_of_false (fun ⟨_, hpanic, _⟩ => nomatch hpanic)
            fun ⟨_, hfits⟩ => hinterval (hfits (Nat.not_le.mp hcount))
    · rw [if_neg hthreshold]
      exact iff_of_false (fun ⟨_, hpanic, _⟩ => nomatch hpanic) fun ⟨hfits, _⟩ => hthreshold hfits
  · have hquiet : s.needsRekey now = .ok false := if_pos hstate
    exact iff_of_true ⟨false, hquiet, iff_of_false Bool.false_ne_true fun hdue => hstate hdue.1⟩
      fun hestablished => absurd hestablished hstate

/-- After every history the trigger is exact as long as the products that it needs fit. -/
theorem rekey_trigger_iff (sha256 : Bytes → Key32) (noise : NoiseLibrary H T)
    (s0 : NoiseSession H T) (hcreated : Created noise s0) (calls : List (SessionCall H T))
    (now : Timestamp) :
    (run (step sha256) s0 calls).TriggersExactly s0.createdAt (history sha256 s0 calls) now ↔
      (run (step sha256) s0 calls).ProductsFit :=
  triggersExactly_iff (recorded_run sha256 hcreated calls) now

/-- The initiator's part of the handshake, and a change of the threshold. -/
def handshakeAndThreshold (threshold : UInt64) : List (SessionCall (Bool × ℕ) Unit) :=
  [⟨.createHandshakeMessage [], threeMessages, ⟨1⟩⟩,
    ⟨.processHandshakeMessage [], threeMessages, ⟨2⟩⟩,
    ⟨.createHandshakeMessage [], threeMessages, ⟨3⟩⟩,
    ⟨.setRekeyThreshold threshold, threeMessages, ⟨4⟩⟩]

theorem rekey_trigger_iff_outbound :
    (run (step fun _ => localKey) outbound (handshakeAndThreshold 2)).TriggersExactly
        outbound.createdAt (history (fun _ => localKey) outbound (handshakeAndThreshold 2)) ⟨5⟩ ↔
      (run (step fun _ => localKey) outbound (handshakeAndThreshold 2)).ProductsFit :=
  rekey_trigger_iff (fun _ => localKey) threeMessages outbound created_outbound
    (handshakeAndThreshold 2) ⟨5⟩

/-- With the largest threshold the trigger of an established session panics. -/
theorem rekey_trigger_overflows :
    (run (step fun _ => localKey) outbound (handshakeAndThreshold (2 ^ 64 - 1))).state =
        .established ∧
      (run (step fun _ => localKey) outbound (handshakeAndThreshold (2 ^ 64 - 1))).needsRekey
        ⟨5⟩ = panicked ∧
      ¬ (run (step fun _ => localKey) outbound (handshakeAndThreshold (2 ^ 64 - 1))).TriggersExactly
        outbound.createdAt
        (history (fun _ => localKey) outbound (handshakeAndThreshold (2 ^ 64 - 1))) ⟨5⟩ := by
  have hpanic : (run (step fun _ => localKey) outbound
      (handshakeAndThreshold (2 ^ 64 - 1))).needsRekey ⟨5⟩ = panicked := by decide +kernel
  refine ⟨rfl, hpanic, ?_⟩
  rintro ⟨due, hdue, -⟩
  rw [hpanic] at hdue
  cases hdue

end NoiseSession

end Bitchat
