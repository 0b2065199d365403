import Bitchat.Assemblies
import Bitchat.Rust.Recency

/-!
# The order of the assemblies

The order lists the live assemblies by their latest use, as long as no assembly completes
or expires, since its key then stays in the order, and as long as no fragment is rejected
for its header, since it moves its key to the back all the same.
-/
namespace Bitchat
open Rust

namespace MessageReassembler

variable {r : MessageReassembler} {c : FragmentCall} {uses : List AssemblyKey}

/-- The key of a fragment that is taken into an assembly. -/
def takenKey (c : FragmentCall) (answer : FragmentAnswer) : Option AssemblyKey :=
  match answer with
  | .ok _ => if c.Engages then some c.key else none
  | .error _ => none

def taken (i : ReassemblerInput) (answer : Option FragmentAnswer) : Option AssemblyKey :=
  match i.call with
  | .addFragment fragment sender => answer.bind (takenKey ⟨fragment, sender, i.now⟩)
  | _ => none

/-- The keys of the fragments that were taken, in the order of the calls. -/
def usesOf (inputs : List ReassemblerInput) : List AssemblyKey :=
  collected serve taken new inputs

/-- The order lists the live keys once each, by their latest use. -/
structure ListsByUse (r : MessageReassembler) (uses : List AssemblyKey) : Prop where
  once : r.lruOrder.Nodup
  live : ∀ k, k ∈ r.lruOrder ↔ k ∈ r.incompleteMessages
  latest : ByLatestUse r.lruOrder uses

/-- A fragment of a live assembly does not complete it, or, if its header does not match,
finds the assembly at the back of the order. -/
def KeepsOrder (r : MessageReassembler) (c : FragmentCall) : Prop :=
  c.Engages → ∀ m, r.incompleteMessages.lookup c.key = some m →
    if m.Mismatches c.fragment.header then r.lruOrder.getLast? = some c.key
    else (m.addFragment c.fragment).isComplete = false

/-- The same for every call: nothing live has expired when there is a clean-up. -/
def CallKeepsOrder (r : MessageReassembler) (i : ReassemblerInput) : Prop :=
  match i.call with
  | .addFragment fragment sender => r.KeepsOrder ⟨fragment, sender, i.now⟩
  | .cleanupExpired => ∀ k m, r.incompleteMessages.lookup k = some m → m.isExpired i.now = false
  | .clear => True

theorem touch_eq (order : List AssemblyKey) (key : AssemblyKey) :
    touch order key = moveToBack order key := by
  rw [touch, moveToBack]
  congr 2
  exact lawful_beq_subsingleton _ _

/-- The eviction takes out the first key of the order, or none. -/
theorem enforceAssemblyLimit_cases (hbounded : Bounded r) (h : ListsByUse r uses) :
    r.enforceAssemblyLimit = r ∨ ∃ oldest rest, r.lruOrder = oldest :: rest ∧
      r.enforceAssemblyLimit = ⟨r.incompleteMessages.erase oldest, rest⟩ := by
  have hcount := hbounded.count
  unfold enforceAssemblyLimit
  cases horder : r.lruOrder with
  | nil =>
    left
    rw [evictOldest, ← horder]
  | cons oldest rest =>
    rw [evictOldest]
    split_ifs with hfull
    · right
      have hlive : oldest ∈ r.incompleteMessages := (h.live oldest).mp (by simp [horder])
      have hsize := Map.size_erase_of_mem hlive
      have hroom : Map.size (r.incompleteMessages.erase oldest) < 128 := by
        unfold incompleteCount maxFragmentAssemblies at hcount
        omega
      refine ⟨oldest, rest, rfl, ?_⟩
      rw [evictOldest_of_lt rest hroom]
    · left
      rw [← horder]

/-- Eviction leaves the order in order. -/
theorem ListsByUse.enforceAssemblyLimit (hbounded : Bounded r) (h : ListsByUse r uses) :
    ListsByUse r.enforceAssemblyLimit uses := by
  rcases enforceAssemblyLimit_cases hbounded h with hsame | ⟨oldest, rest, horder, hevicted⟩
  · rw [hsame]
    exact h
  · rw [hevicted]
    have honce := h.once
    have hlatest := h.latest
    have hlive := h.live
    rw [horder] at honce hlatest hlive
    obtain ⟨hnew, hrest⟩ := List.nodup_cons.mp honce
    refine ⟨hrest, ?_, hlatest.sublist (List.sublist_cons_self oldest rest)⟩
    intro k
    show k ∈ rest ↔ k ∈ r.incompleteMessages.erase oldest
    rw [Finmap.mem_erase, ← hlive k, List.mem_cons]
    constructor
    · intro hk
      refine ⟨?_, Or.inr hk⟩
      rintro rfl
      exact hnew hk
    · rintro ⟨hne, hk⟩
      exact hk.resolve_left hne

/-- Where a fragment finds or gets its entry, the order is in order, and moves the key to
the back. -/
theorem ListsByUse.makeRoomFor (hbounded : Bounded r) (h : ListsByUse r uses)
    (key : AssemblyKey) : ListsByUse (r.makeRoomFor key) uses ∧
      touch (r.listed key) key = moveToBack (r.makeRoomFor key).lruOrder key := by
  unfold MessageReassembler.makeRoomFor listed
  by_cases hlive : key ∈ r.incompleteMessages
  · rw [if_pos hlive, if_pos hlive]
    exact ⟨h, touch_eq _ key⟩
  · have hroom := h.enforceAssemblyLimit hbounded
    rw [if_neg hlive, if_neg hlive]
    refine ⟨hroom, ?_⟩
    have hnew : key ∉ r.enforceAssemblyLimit.lruOrder := by
      rw [hroom.live key]
      exact evictOldest_notMem r.lruOrder hlive
    rw [touch_eq, moveToBack_concat hnew]

/-- The entry of a fragment of a new key is its own, and lacks another fragment. -/
theorem keepsOrder_iff (hengages : c.Engages) : r.KeepsOrder c ↔
    if (r.entryFor c).Mismatches c.fragment.header then r.lruOrder.getLast? = some c.key
    else ((r.entryFor c).addFragment c.fragment).isComplete = false := by
  unfold KeepsOrder entryFor
  cases hlookup : r.incompleteMessages.lookup c.key with
  | some m =>
    rw [Option.getD_some]
    constructor
    · intro h
      exact h hengages m rfl
    · intro h _ m' hm'
      rw [← Option.some.inj hm']
      exact h
  | none =>
    have hown : ¬ c.fresh.Mismatches c.fragment.header := by
      simp [IncompleteMessage.Mismatches, FragmentCall.fresh, IncompleteMessage.new]
    have hlacks : (c.fresh.addFragment c.fragment).isComplete = false :=
      addFragment_new_isComplete c.sender c.now hengages.2
    rw [Option.getD_none, if_neg hown]
    constructor
    · intro _
      exact hlacks
    · intro _ _ m hm
      cases hm

/-- After a fragment the order lists the live keys exactly if the assembly of the fragment
is still live, and it is by use exactly if the fragment was taken or moved nothing. -/
theorem listsByUse_step_iff (hbounded : Bounded r) (h : ListsByUse r uses) (hengages : c.Engages)
    (uses' : List AssemblyKey) :
    ListsByUse (r.step c).1 uses' ↔ (∃ m, ((r.entryFor c).advance c.fragment).1 = some m) ∧
      ByLatestUse (moveToBack (r.makeRoomFor c.key).lruOrder c.key) uses' := by
  have hstep := step_of_engages (r := r) hengages
  obtain ⟨hroom, horder⟩ := h.makeRoomFor hbounded c.key
  rw [← hstep.own, ← horder, ← hstep.order]
  have hmem (k : AssemblyKey) :
      k ∈ (r.step c).1.lruOrder ↔ k ∈ (r.makeRoomFor c.key).incompleteMessages ∨ k = c.key := by
    rw [hstep.order, horder, mem_moveToBack, hroom.live k]
  constructor
  · intro hnext
    have hown := (hnext.live c.key).mp ((hmem c.key).mpr (Or.inr rfl))
    exact ⟨Finmap.mem_iff.mp hown, hnext.latest⟩
  · rintro ⟨hown, hlatest⟩
    refine ⟨?_, ?_, hlatest⟩
    · rw [hstep.order, horder]
      exact nodup_moveToBack hroom.once c.key
    · intro k
      rw [hmem k]
      by_cases hk : k = c.key
      · rw [hk]
        exact ⟨fun _ => Finmap.mem_iff.mpr hown, fun _ => Or.inr rfl⟩
      · rw [Finmap.mem_iff, Finmap.mem_iff, hstep.others k hk]
        simp [hk]

/-- Only a fragment of a live assembly can fail to match it. -/
theorem live_of_mismatches (h : (r.entryFor c).Mismatches c.fragment.header) :
    c.key ∈ r.incompleteMessages := by
  by_contra hdead
  unfold entryFor at h
  rw [Finmap.lookup_eq_none.mpr hdead, Option.getD_none] at h
  simp [IncompleteMessage.Mismatches, FragmentCall.fresh, IncompleteMessage.new] at h

/-- A fragment that does not match its assembly is not taken, and moves its key all the same. -/
theorem listsByUse_mismatch_iff (hbounded : Bounded r) (h : ListsByUse r uses)
    (hengages : c.Engages) (hwrong : (r.entryFor c).Mismatches c.fragment.header) :
    ListsByUse (r.step c).1 uses ↔ r.lruOrder.getLast? = some c.key := by
  have hlive := live_of_mismatches hwrong
  have hsame : r.makeRoomFor c.key = r := if_pos hlive
  rw [listsByUse_step_iff hbounded h hengages, IncompleteMessage.advance_of_mismatches hwrong,
    hsame, h.latest.moveToBack_iff ((h.live c.key).mpr hlive)]
  exact and_iff_right ⟨_, rfl⟩

/-- A fragment that matches its assembly is taken, and the assembly must go on. -/
theorem listsByUse_match_iff (hbounded : Bounded r) (h : ListsByUse r uses)
    (hengages : c.Engages) (hmatch : ¬ (r.entryFor c).Mismatches c.fragment.header) :
    ListsByUse (r.step c).1 (uses ++ (takenKey c (r.step c).2).toList) ↔
      ((r.entryFor c).addFragment c.fragment).isComplete = false := by
  have hadvance := IncompleteMessage.advance_of_matches hmatch
  rw [listsByUse_step_iff hbounded h hengages, (step_of_engages hengages).answer]
  constructor
  · rintro ⟨⟨m, hm⟩, _⟩
    have hunfinished := hbounded.unfinished_advance hengages hm
    rw [hadvance] at hm
    rw [← IncompleteMessage.eq_of_settle hm]
    exact hunfinished.isComplete
  · intro hlacks
    rw [hadvance, IncompleteMessage.settle_of_incomplete hlacks]
    refine ⟨⟨_, rfl⟩, ?_⟩
    have htaken : takenKey c (.ok none) = some c.key := if_pos hengages
    rw [htaken]
    exact (h.makeRoomFor hbounded c.key).1.latest.use c.key

/-- The order stays in order over a fragment exactly if the fragment keeps it. -/
theorem listsByUse_fragment_iff (hbounded : Bounded r) (h : ListsByUse r uses)
    (c : FragmentCall) :
    ListsByUse (r.step c).1 (uses ++ (takenKey c (r.step c).2).toList) ↔ r.KeepsOrder c := by
  by_cases hengages : c.Engages
  · rw [keepsOrder_iff hengages]
    by_cases hwrong : (r.entryFor c).Mismatches c.fragment.header
    · have hanswer : (r.step c).2 = invalidPacket "Fragment header mismatch" := by
        rw [(step_of_engages hengages).answer, IncompleteMessage.advance_of_mismatches hwrong]
      rw [if_pos hwrong, hanswer]
      show ListsByUse _ (uses ++ []) ↔ _
      rw [List.append_nil]
      exact listsByUse_mismatch_iff hbounded h hengages hwrong
    · rw [if_neg hwrong]
      exact listsByUse_match_iff hbounded h hengages hwrong
  · have hnothing : (takenKey c (r.step c).2).toList = [] := by
      unfold takenKey
      cases (r.step c).2 with
      | error e => rfl
      | ok a => rw [if_neg hengages, Option.toList_none]
    rw [hnothing, List.append_nil, step_of_not_engages hengages]
    exact ⟨fun _ hagain => absurd hagain hengages, fun _ => h⟩

/-- A clean-up leaves the order as it is, so that it must leave the assemblies too. -/
theorem listsByUse_cleanupExpired_iff (h : ListsByUse r uses) (now : Timestamp) :
    ListsByUse (r.cleanupExpired now) uses ↔
      ∀ k m, r.incompleteMessages.lookup k = some m → m.isExpired now = false := by
  have hkept (k : AssemblyKey) (m : IncompleteMessage) :
      (r.cleanupExpired now).incompleteMessages.lookup k = some m ↔
        r.incompleteMessages.lookup k = some m ∧ (!m.isExpired now) = true :=
    Map.mem_retain_entries
  constructor
  · intro hnext k m hm
    have hlisted : k ∈ r.lruOrder := (h.live k).mpr (Finmap.mem_of_lookup_eq_some hm)
    obtain ⟨m', hm'⟩ := Finmap.mem_iff.mp ((hnext.live k).mp hlisted)
    obtain ⟨hold, hfresh⟩ := (hkept k m').mp hm'
    obtain rfl : m = m' := Option.some.inj (hm.symm.trans hold)
    simpa using hfresh
  · intro hfresh
    refine ⟨h.once, ?_, h.latest⟩
    intro k
    show k ∈ r.lruOrder ↔ _
    rw [h.live k, Finmap.mem_iff, Finmap.mem_iff]
    refine exists_congr fun m => ?_
    rw [hkept k m]
    constructor
    · intro hm
      exact ⟨hm, by rw [hfresh k m hm]; rfl⟩
    · exact And.left

theorem listsByUse_new (uses : List AssemblyKey) : ListsByUse new uses := by
  refine ⟨List.nodup_nil, ?_, List.nil_sublist _⟩
  intro k
  exact ⟨fun hk => absurd hk List.not_mem_nil, fun hk => absurd hk Finmap.notMem_empty⟩

theorem listsByUse_serve_iff (hbounded : Bounded r) (h : ListsByUse r uses)
    (i : ReassemblerInput) :
    ListsByUse (r.serve i).1 (uses ++ (taken i (r.serve i).2).toList) ↔ r.CallKeepsOrder i := by
  obtain ⟨call, now⟩ := i
  cases call with
  | addFragment fragment sender => exact listsByUse_fragment_iff hbounded h ⟨fragment, sender, now⟩
  | cleanupExpired =>
    show ListsByUse (r.cleanupExpired now) (uses ++ []) ↔ _
    rw [List.append_nil]
    exact listsByUse_cleanupExpired_iff h now
  | clear => exact ⟨fun _ => trivial, fun _ => listsByUse_new _⟩

/-- The order is in order after every call exactly if every call keeps it. -/
theorem listsByUse_run_iff (inputs : List ReassemblerInput) :
    (∀ before rest, inputs = before ++ rest →
      ListsByUse (run serve new before) (usesOf before)) ↔
      Along serve CallKeepsOrder new inputs := by
  have hstep (r : MessageReassembler) (uses : List AssemblyKey) (i : ReassemblerInput)
      (h : Bounded r ∧ ListsByUse r uses) :
      Bounded (r.serve i).1 ∧ ListsByUse (r.serve i).1 (uses ++ (taken i (r.serve i).2).toList) ↔
        r.CallKeepsOrder i := by
    rw [← listsByUse_serve_iff h.1 h.2 i]
    exact and_iff_right (h.1.serve i)
  rw [← throughout_collected_iff (I := fun r uses => Bounded r ∧ ListsByUse r uses) hstep
    ⟨bounded_new, listsByUse_new []⟩]
  constructor
  · intro h before rest heq
    exact ⟨bounded_run before, h before rest heq⟩
  · intro h before rest heq
    exact (h before rest heq).2

/-! ## Eviction -/

/-- A fragment of one key that ends the assembly of another. -/
def Evicts (r : MessageReassembler) (i : ReassemblerInput) (k : AssemblyKey) : Prop :=
  match i.call with
  | .addFragment fragment sender => k ≠ (sender, fragment.header.fragmentId) ∧
      k ∈ r.incompleteMessages ∧ k ∉ (r.serve i).1.incompleteMessages
  | _ => False

/-- The key that is evicted was used before every other live one. -/
theorem ListsByUse.evicts (hbounded : Bounded r) (h : ListsByUse r uses) {i : ReassemblerInput}
    {k k' : AssemblyKey} (hevicts : r.Evicts i k) (hlive : k' ∈ r.incompleteMessages)
    (hne : k' ≠ k) : ByLatestUse [k, k'] uses := by
  obtain ⟨call, now⟩ := i
  cases call with
  | cleanupExpired => exact hevicts.elim
  | clear => exact hevicts.elim
  | addFragment fragment sender =>
    obtain ⟨hother, hold, hgone⟩ := hevicts
    let c : FragmentCall := ⟨fragment, sender, now⟩
    have hgone : k ∉ (r.step c).1.incompleteMessages := hgone
    have hengages : c.Engages := by
      by_contra halone
      rw [step_of_not_engages halone] at hgone
      exact hgone hold
    have hroom : k ∉ (r.makeRoomFor c.key).incompleteMessages := by
      rw [← Finmap.lookup_eq_none, ← (step_of_engages hengages).others k hother]
      exact Finmap.lookup_eq_none.mpr hgone
    unfold MessageReassembler.makeRoomFor at hroom
    split_ifs at hroom with hfound
    · exact absurd hold hroom
    · rcases enforceAssemblyLimit_cases hbounded h with hsame | ⟨oldest, rest, horder, hevicted⟩
      · rw [hsame] at hroom
        exact absurd hold hroom
      · rw [hevicted] at hroom
        obtain rfl : k = oldest := by
          by_contra hkept
          exact hroom (Finmap.mem_erase.mpr ⟨hkept, hold⟩)
        have hlatest := h.latest
        have hlisted := (h.live k').mpr hlive
        rw [horder] at hlatest hlisted
        exact hlatest.first (List.mem_of_ne_of_mem hne hlisted)

/-- The order lists the live keys once each and by their latest use, and what is evicted
has the oldest of them. -/
structure EvictsByUse (inputs : List ReassemblerInput) : Prop where
  lists : ∀ before rest, inputs = before ++ rest → ListsByUse (run serve new before) (usesOf before)
  oldest : ∀ before i rest, inputs = before ++ i :: rest → ∀ k,
    (run serve new before).Evicts i k → ∀ k' ∈ (run serve new before).incompleteMessages,
      k' ≠ k → ByLatestUse [k, k'] (usesOf before)

/-- Eviction is by use and nothing leaks exactly if no assembly completes or expires and no
fragment with another header than its assembly's is out of turn. -/
theorem evictsByUse_iff (inputs : List ReassemblerInput) :
    EvictsByUse inputs ↔ Along serve CallKeepsOrder new inputs := by
  rw [← listsByUse_run_iff]
  constructor
  · exact EvictsByUse.lists
  · intro h
    refine ⟨h, ?_⟩
    intro before i rest heq k hevicts k' hlive hne
    exact (h before (i :: rest) heq).evicts (bounded_run before) hevicts hlive hne

/-- The two fragments of a message. -/
def wholeMessage : List ReassemblerInput :=
  twoFragments.map fun fragment => ⟨.addFragment fragment peerOne, ⟨5⟩⟩

/-- A message that is complete leaves its key in the order. -/
theorem evictsByUse_leaks : ¬ EvictsByUse wholeMessage := by
  intro h
  have hlists := h.lists wholeMessage [] (List.append_nil _).symm
  have hlisted : (peerOne, 9) ∈ (run serve new wholeMessage).lruOrder := by decide
  have hgone : (peerOne, 9) ∉ (run serve new wholeMessage).incompleteMessages := by decide
  exact hgone ((hlists.live _).mp hlisted)

end MessageReassembler

end Bitchat
