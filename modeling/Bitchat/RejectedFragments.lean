import Bitchat.AssemblyOrder

/-!
# Rejected fragments

A fragment with an invalid header is rejected before anything is written. A fragment
whose header is not the one of its assembly is rejected after its key has moved to the
back of the order. It evicts nothing, since its assembly is live, but it can put off the
eviction of that assembly as long as its sender likes.
-/
namespace Bitchat
open Rust

namespace MessageReassembler

variable {r : MessageReassembler} {c : FragmentCall}

/-- The call is answered with an error. -/
def rejects (r : MessageReassembler) (i : ReassemblerInput) : Bool :=
  match (r.serve i).2 with
  | some (.error _) => true
  | _ => false

/-- A rejected fragment leaves the state as it was, so that the run is the same without
the rejected ones: none of them evicts an assembly or saves one from it. -/
structure RejectionsLeaveNoTrace (inputs : List ReassemblerInput) : Prop where
  unchanged : ∀ before i rest, inputs = before ++ i :: rest →
    (run serve new before).rejects i = true →
      ((run serve new before).serve i).1 = run serve new before
  skipped : ∀ before rest, inputs = before ++ rest →
    run serve new (unskipped serve rejects new before) = run serve new before

/-- Behind the key of a fragment that does not match its assembly no other key is listed. -/
def RejectsInPlace (r : MessageReassembler) (c : FragmentCall) : Prop :=
  c.Engages → ∀ m, r.incompleteMessages.lookup c.key = some m →
    m.Mismatches c.fragment.header →
      ∀ older later, r.lruOrder = older ++ c.key :: later → ∀ k ∈ later, k = c.key

/-- The same for every call; only a fragment can be rejected. -/
def CallRejectsInPlace (r : MessageReassembler) (i : ReassemblerInput) : Prop :=
  match i.call with
  | .addFragment fragment sender => r.RejectsInPlace ⟨fragment, sender, i.now⟩
  | .cleanupExpired => True
  | .clear => True

/-- A complete assembly can be put together, so that only the header is ever the reason. -/
theorem rejected_iff_mismatches (hbounded : Bounded r) (hengages : c.Engages) :
    (∃ e, (r.step c).2 = .error e) ↔ (r.entryFor c).Mismatches c.fragment.header := by
  rw [(step_of_engages hengages).answer]
  constructor
  · rintro ⟨e, he⟩
    by_contra hmatch
    have hunfinished (m : IncompleteMessage)
        (hm : ((r.entryFor c).advance c.fragment).1 = some m) : m.Unfinished :=
      hbounded.unfinished_advance hengages hm
    rw [IncompleteMessage.advance_of_matches hmatch] at he hunfinished
    unfold IncompleteMessage.settle at he hunfinished
    split_ifs at he hunfinished with hcomplete
    cases hdata : ((r.entryFor c).addFragment c.fragment).reassemble with
    | ok data =>
      rw [hdata] at he
      cases he
    | error fault =>
      rw [hdata] at hunfinished
      have hlacks := (hunfinished _ rfl).isComplete
      exact absurd (hlacks.symm.trans hcomplete) Bool.false_ne_true
  · intro hwrong
    rw [IncompleteMessage.advance_of_mismatches hwrong]
    exact ⟨_, rfl⟩

/-- All that a fragment with another header than its assembly's does is move the key. -/
theorem step_of_mismatches (hengages : c.Engages)
    (hwrong : (r.entryFor c).Mismatches c.fragment.header) :
    (r.step c).1 = ⟨r.incompleteMessages, moveToBack r.lruOrder c.key⟩ := by
  have hlive := live_of_mismatches hwrong
  obtain ⟨m, hm⟩ := Finmap.mem_iff.mp hlive
  have hentry : r.entryFor c = m := by rw [entryFor, hm, Option.getD_some]
  have hsame : r.makeRoomFor c.key = r := if_pos hlive
  have hlisted : r.listed c.key = r.lruOrder := if_pos hlive
  obtain ⟨-, hown, hothers, horder⟩ := step_of_engages (r := r) hengages
  rw [IncompleteMessage.advance_of_mismatches hwrong, hentry] at hown
  rw [hsame] at hothers
  rw [hlisted, touch_eq] at horder
  have hmessages : (r.step c).1.incompleteMessages = r.incompleteMessages := by
    apply Finmap.ext_lookup
    intro k
    by_cases hk : k = c.key
    · rw [hk, hown, hm]
    · exact hothers k hk
  rw [← hmessages, ← horder]

/-- A rejected fragment changes nothing exactly if its key has no other to overtake. -/
theorem step_unchanged_iff (hbounded : Bounded r) (c : FragmentCall) :
    ((∃ e, (r.step c).2 = .error e) → (r.step c).1 = r) ↔ r.RejectsInPlace c := by
  by_cases hengages : c.Engages
  · rw [rejected_iff_mismatches hbounded hengages]
    constructor
    · intro h _ m hm hwrong
      have hentry : r.entryFor c = m := by rw [entryFor, hm, Option.getD_some]
      rw [← hentry] at hwrong
      have hlisted := hbounded.listed c.key (live_of_mismatches hwrong)
      have hsame := h hwrong
      rw [step_of_mismatches hengages hwrong] at hsame
      exact (moveToBack_eq_self_iff hlisted).mp (congrArg lruOrder hsame)
    · intro h hwrong
      have hlive := live_of_mismatches hwrong
      obtain ⟨m, hm⟩ := Finmap.mem_iff.mp hlive
      have hentry : r.entryFor c = m := by rw [entryFor, hm, Option.getD_some]
      have hlast := h hengages m hm (hentry ▸ hwrong)
      rw [step_of_mismatches hengages hwrong,
        (moveToBack_eq_self_iff (hbounded.listed c.key hlive)).mpr hlast]
  · rw [step_of_not_engages hengages]
    exact ⟨fun _ hagain => absurd hagain hengages, fun _ _ => rfl⟩

theorem serve_unchanged_iff (hbounded : Bounded r) (i : ReassemblerInput) :
    (r.rejects i = true → (r.serve i).1 = r) ↔ r.CallRejectsInPlace i := by
  obtain ⟨call, now⟩ := i
  cases call with
  | addFragment fragment sender =>
    have hrejects : r.rejects ⟨.addFragment fragment sender, now⟩ = true ↔
        ∃ e, (r.step ⟨fragment, sender, now⟩).2 = .error e := by
      have hanswer : (r.serve ⟨.addFragment fragment sender, now⟩).2 =
          some (r.step ⟨fragment, sender, now⟩).2 := rfl
      rw [rejects, hanswer]
      generalize (r.step ⟨fragment, sender, now⟩).2 = answer
      cases answer with
      | error e => simp
      | ok a => simp
    rw [hrejects]
    exact step_unchanged_iff hbounded ⟨fragment, sender, now⟩
  | cleanupExpired => exact ⟨fun _ => trivial, fun _ h => absurd h Bool.false_ne_true⟩
  | clear => exact ⟨fun _ => trivial, fun _ h => absurd h Bool.false_ne_true⟩

/-- Rejected fragments leave no trace exactly if each of them that does not match its
assembly finds no other key behind the one of the assembly. -/
theorem rejectionsLeaveNoTrace_iff (inputs : List ReassemblerInput) :
    RejectionsLeaveNoTrace inputs ↔ Along serve CallRejectsInPlace new inputs := by
  have hstep : Along serve (fun r i => r.rejects i = true → (r.serve i).1 = r) new inputs ↔
      Along serve CallRejectsInPlace new inputs :=
    along_iff_of_invariant (fun r i h => Bounded.serve h i) (fun r i h => serve_unchanged_iff h i)
      bounded_new
  rw [← hstep]
  constructor
  · intro h
    exact along_iff_forall.mpr h.unchanged
  · intro h
    refine ⟨along_iff_forall.mp h, ?_⟩
    rintro before rest rfl
    exact run_unskipped (along_append.mp h).1

/-- Fragments of two messages, and one that does not belong to the first of them. -/
def overtakingFragment : List ReassemblerInput :=
  [⟨.addFragment ⟨⟨9, 0, 2, 2⟩, [0x61], ⟨5⟩⟩ peerOne, ⟨5⟩⟩,
    ⟨.addFragment ⟨⟨10, 0, 2, 2⟩, [0x62], ⟨5⟩⟩ peerOne, ⟨5⟩⟩,
    ⟨.addFragment ⟨⟨9, 1, 3, 2⟩, [0x63], ⟨5⟩⟩ peerOne, ⟨5⟩⟩]

/-- The older message is now the one that is evicted last. -/
theorem rejected_overtakes :
    ¬ RejectionsLeaveNoTrace overtakingFragment := by
  intro h
  have hunchanged := h.unchanged (overtakingFragment.take 2) overtakingFragment[2] [] rfl
    (by decide)
  have horder : (run serve new overtakingFragment).lruOrder ≠
      (run serve new (overtakingFragment.take 2)).lruOrder := by decide
  exact horder (congrArg lruOrder hunchanged)

end MessageReassembler

end Bitchat
