import Bitchat.Assemblies

/-!
# Assemblies do not interfere

As long as there are at most 128 keys, nothing is ever evicted, and the reassembler is one
machine for each key: every answer is what the fragments of its key alone bring about.
-/
namespace Bitchat
open Rust

/-- What a call makes of the entry of its key. -/
def FragmentCall.advanceEntry (entry : Option IncompleteMessage) (c : FragmentCall) :
    Option IncompleteMessage × FragmentAnswer :=
  if c.Engages then (entry.getD c.fresh).advance c.fragment else (entry, c.answerAlone)

namespace MessageReassembler

variable {r : MessageReassembler} {c : FragmentCall} {k : AssemblyKey}

/-- A call that has its entry already, or finds room for it. -/
def HasRoom (r : MessageReassembler) (c : FragmentCall) : Prop :=
  c.key ∈ r.incompleteMessages ∨ r.incompleteCount < maxFragmentAssemblies

theorem makeRoomFor_of_hasRoom (h : r.HasRoom c) :
    (r.makeRoomFor c.key).incompleteMessages = r.incompleteMessages := by
  unfold makeRoomFor
  by_cases hlive : c.key ∈ r.incompleteMessages
  · rw [if_pos hlive]
  · rw [if_neg hlive]
    exact congrArg Prod.fst (evictOldest_of_lt r.lruOrder (h.resolve_left hlive))

/-- With room, a call is a step of the assembly of its key. -/
theorem step_keyed : Keyed step FragmentCall.key (fun r k => r.incompleteMessages.lookup k)
    FragmentCall.advanceEntry HasRoom where
  answer := by
    intro r c _
    by_cases hengages : c.Engages
    · rw [FragmentCall.advanceEntry, if_pos hengages]
      exact (step_of_engages hengages).answer
    · rw [FragmentCall.advanceEntry, if_neg hengages, step_of_not_engages hengages]
  part := by
    intro r c _
    by_cases hengages : c.Engages
    · rw [FragmentCall.advanceEntry, if_pos hengages]
      exact (step_of_engages hengages).own
    · rw [FragmentCall.advanceEntry, if_neg hengages, step_of_not_engages hengages]
  others := by
    intro r c k hroom hk
    by_cases hengages : c.Engages
    · rw [(step_of_engages hengages).others k hk, makeRoomFor_of_hasRoom hroom]
    · rw [step_of_not_engages hengages]

/-- A call brings no other key than its own to life. -/
theorem live_of_step (h : k ∈ (r.step c).1.incompleteMessages) :
    k ∈ r.incompleteMessages ∨ some c.key = some k := by
  by_cases hengages : c.Engages
  · by_cases hk : k = c.key
    · exact Or.inr (congrArg some hk.symm)
    · obtain ⟨m, hm⟩ := Finmap.mem_iff.mp h
      rw [(step_of_engages hengages).others k hk] at hm
      have hlive := Finmap.mem_of_lookup_eq_some hm
      unfold makeRoomFor at hlive
      split_ifs at hlive
      · exact Or.inl hlive
      · by_contra hdead
        exact evictOldest_notMem r.lruOrder (fun hold => hdead (Or.inl hold)) hlive
  · rw [step_of_not_engages hengages] at h
    exact Or.inl h

/-- Only keys of the calls so far are live. -/
theorem key_of_live {calls : List FragmentCall}
    (h : k ∈ (run step new calls).incompleteMessages) : k ∈ calls.map FragmentCall.key := by
  have hused := @holds_run _ _ _ step _ (fun r k => k ∈ r.incompleteMessages)
    (fun c => some c.key) (fun _ _ _ => live_of_step) new calls k h
  rcases hused with hnew | hmem
  · exact absurd hnew Finmap.notMem_empty
  · obtain ⟨c, hc, hkey⟩ := List.mem_filterMap.mp hmem
    exact List.mem_map.mpr ⟨c, hc, Option.some.inj hkey⟩

/-- At most 128 keys always have room. -/
theorem along_hasRoom {calls : List FragmentCall}
    (hfew : (calls.map FragmentCall.key).toFinset.card ≤ maxFragmentAssemblies) :
    Along step HasRoom new calls := by
  rw [along_iff_forall]
  rintro before c rest rfl
  by_cases hlive : c.key ∈ (run step new before).incompleteMessages
  · exact Or.inl hlive
  · have hsub : (run step new before).incompleteMessages.keys ⊂
        ((before ++ c :: rest).map FragmentCall.key).toFinset := by
      refine Finset.ssubset_iff.mpr ⟨c.key, fun hmem => hlive (Finmap.mem_keys.mp hmem), ?_⟩
      intro k hk
      rw [List.mem_toFinset, List.map_append, List.mem_append]
      rcases Finset.mem_insert.mp hk with rfl | hk
      · exact Or.inr (by simp)
      · exact Or.inl (key_of_live (Finmap.mem_keys.mp hk))
    exact Or.inr (Nat.lt_of_lt_of_le (Finset.card_lt_card hsub) hfew)

/-- The answers to the calls of a key, in order. -/
def answersFor (key : AssemblyKey) (calls : List FragmentCall) : List FragmentAnswer :=
  collected step (fun c answer => if c.key = key then some answer else none) new calls

/-- If the calls have at most 128 keys, each key gets the answers that it would get alone. -/
theorem answers_isolated (calls : List FragmentCall)
    (hfew : (calls.map FragmentCall.key).toFinset.card ≤ maxFragmentAssemblies)
    (key : AssemblyKey) :
    answersFor key calls = answersFor key (calls.filter fun c => c.key = key) := by
  have halone : ((calls.filter fun c => c.key = key).map FragmentCall.key).toFinset.card ≤
      maxFragmentAssemblies := by
    refine (Finset.card_le_card ?_).trans hfew
    intro k hk
    rw [List.mem_toFinset] at hk ⊢
    exact (List.filter_sublist.map FragmentCall.key).mem hk
  rw [answersFor, answersFor, step_keyed.collected_eq (along_hasRoom hfew) key,
    step_keyed.collected_eq (along_hasRoom halone) key, List.filter_filter]
  simp only [Bool.and_self]

/-- The three fragments of a message, with one of another message in between. -/
theorem answers_isolated_two :
    answersFor (peerOne, 9) (earlierCalls ++ [lastCall]) =
      [.ok none, .ok none, .ok (some ([0x61, 0x62, 0x63], 2))] := by
  rw [answers_isolated _ (by decide) (peerOne, 9)]
  decide

end MessageReassembler

end Bitchat
