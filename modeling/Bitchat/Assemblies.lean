import Bitchat.Reassembly

/-!
# Assemblies one by one

What a fragment makes of the assembly of its key depends on that assembly alone, and so
does the answer to it. Other assemblies notice a fragment only through the eviction. A
live assembly is never finished, and there are at most 128 of them: whatever completes
or expires leaves its key in the order, but no live key is ever missing from it.
-/
namespace Bitchat
open Rust

/-- `Result<Option<(Vec<u8>, u8)>>`. -/
abbrev FragmentAnswer := BitchatResult (Option (Bytes × UInt8))

namespace IncompleteMessage

/-- What becomes of an assembly that a fragment was added to. -/
def settle (m : IncompleteMessage) : Option IncompleteMessage × FragmentAnswer :=
  if m.isComplete then
    match m.reassemble with
    | .error e => (some m, .error e)
    | .ok data => (none, .ok (some (data, m.originalType)))
  else (some m, .ok none)

/-- The fragment does not belong to the assembly. -/
def Mismatches (m : IncompleteMessage) (header : FragmentHeader) : Prop :=
  m.totalFragments ≠ header.totalFragments ∨ m.originalType ≠ header.originalType

instance (m : IncompleteMessage) (header : FragmentHeader) : Decidable (m.Mismatches header) :=
  inferInstanceAs (Decidable (_ ∨ _))

/-- What becomes of an assembly when a fragment comes in for it. -/
def advance (m : IncompleteMessage) (fragment : Fragment) :
    Option IncompleteMessage × FragmentAnswer :=
  if m.Mismatches fragment.header then (some m, invalidPacket "Fragment header mismatch")
  else (m.addFragment fragment).settle

theorem advance_of_mismatches {m : IncompleteMessage} {fragment : Fragment}
    (h : m.Mismatches fragment.header) :
    m.advance fragment = (some m, invalidPacket "Fragment header mismatch") :=
  if_pos h

theorem advance_of_matches {m : IncompleteMessage} {fragment : Fragment}
    (h : ¬ m.Mismatches fragment.header) :
    m.advance fragment = (m.addFragment fragment).settle :=
  if_neg h

/-- Every fragment has an index in range, and at least one is there and one is missing. -/
structure Unfinished (m : IncompleteMessage) : Prop where
  total : 2 ≤ m.totalFragments.toNat ∧ m.totalFragments.toNat ≤ maxFragmentsPerMessage
  index : ∀ i part, m.fragments.lookup i = some part → i.toNat < m.totalFragments.toNat
  count : 1 ≤ Map.size m.fragments ∧ Map.size m.fragments < m.totalFragments.toNat

theorem size_addFragment (m : IncompleteMessage) (fragment : Fragment) :
    1 ≤ Map.size (m.addFragment fragment).fragments ∧
      Map.size m.fragments ≤ Map.size (m.addFragment fragment).fragments ∧
      Map.size (m.addFragment fragment).fragments ≤ Map.size m.fragments + 1 := by
  unfold addFragment
  cases hlookup : m.fragments.lookup fragment.header.fragmentIndex with
  | some part =>
    have herase := Map.size_erase_of_mem (Finmap.mem_of_lookup_eq_some hlookup)
    simp only
    omega
  | none =>
    have hinsert := Map.size_insert_of_notMem fragment.data (Finmap.lookup_eq_none.mp hlookup)
    simp only
    omega

/-- An entry with every fragment in place can be put together. -/
theorem reassemble_of_isComplete {m : IncompleteMessage}
    (hindex : ∀ i part, m.fragments.lookup i = some part → i.toNat < m.totalFragments.toNat)
    (hcomplete : m.isComplete = true) : ∃ data, m.reassemble = .ok data := by
  have hall := (m.isComplete_iff_lookup hindex).mp hcomplete
  have hparts : (List.range m.totalFragments.toNat).mapM (fun i =>
      okOr (m.fragments.lookup (UInt16.ofNat i)) (BitchatError.invalidPacket "Missing fragment")) =
      .ok ((List.range m.totalFragments.toNat).map fun i =>
        (m.fragments.lookup (UInt16.ofNat i)).getD []) := by
    apply mapM_eq_ok_map
    intro i hi
    obtain ⟨part, hpart⟩ := hall i (List.mem_range.mp hi)
    rw [hpart, Option.getD_some]
    rfl
  simp only [reassemble, rejectIf_bind_eq_ok, hparts, ok_bind, pure_eq_ok]
  exact ⟨_, by simp [hcomplete], rfl⟩

/-- A fragment that fits leaves the assembly unfinished, or completes it and ends it. -/
theorem unfinished_of_advance {m m' : IncompleteMessage} {fragment : Fragment}
    (htotal : 2 ≤ m.totalFragments.toNat ∧ m.totalFragments.toNat ≤ maxFragmentsPerMessage)
    (hindex : ∀ i part, m.fragments.lookup i = some part → i.toNat < m.totalFragments.toNat)
    (hfew : Map.size m.fragments < m.totalFragments.toNat)
    (hheader : fragment.header.fragmentIndex.toNat < fragment.header.totalFragments.toNat)
    (hmismatch : m.Mismatches fragment.header → 1 ≤ Map.size m.fragments)
    (h : (m.advance fragment).1 = some m') : m'.Unfinished := by
  unfold advance at h
  split_ifs at h with hwrong
  · obtain rfl := Option.some.inj h
    exact ⟨htotal, hindex, hmismatch hwrong, hfew⟩
  · obtain ⟨hone, hgrown, hnext⟩ := m.size_addFragment fragment
    have hsame : m.totalFragments = fragment.header.totalFragments := by
      by_contra hne
      exact hwrong (Or.inl hne)
    have hindex' : ∀ i part, (m.addFragment fragment).fragments.lookup i = some part →
        i.toNat < (m.addFragment fragment).totalFragments.toNat := by
      intro i part hpart
      rw [addFragment_lookup] at hpart
      rw [addFragment_totalFragments]
      split_ifs at hpart with hi
      · rw [hi, hsame]
        exact hheader
      · exact hindex i part hpart
    unfold settle at h
    split_ifs at h with hcomplete
    · obtain ⟨data, hdata⟩ := reassemble_of_isComplete hindex' hcomplete
      rw [hdata] at h
      cases h
    · obtain rfl := Option.some.inj h
      have hmissing : Map.size (m.addFragment fragment).fragments ≠
          (m.addFragment fragment).totalFragments.toNat := by
        simpa [isComplete] using hcomplete
      refine ⟨by rwa [addFragment_totalFragments], hindex', hone, ?_⟩
      rw [addFragment_totalFragments] at hmissing ⊢
      omega

theorem Unfinished.isComplete {m : IncompleteMessage} (h : m.Unfinished) :
    m.isComplete = false := by
  have hcount := h.count.2
  rw [IncompleteMessage.isComplete, decide_eq_false_iff_not]
  omega

theorem settle_of_incomplete {m : IncompleteMessage} (h : m.isComplete = false) :
    m.settle = (some m, .ok none) := by
  rw [settle, h]
  rfl

theorem eq_of_settle {m m' : IncompleteMessage} (h : m.settle.1 = some m') : m' = m := by
  unfold settle at h
  split_ifs at h
  · cases hdata : m.reassemble with
    | error e =>
      rw [hdata] at h
      exact (Option.some.inj h).symm
    | ok data =>
      rw [hdata] at h
      cases h
  · exact (Option.some.inj h).symm

end IncompleteMessage

namespace FragmentCall

/-- The fragment is valid and not a message by itself, so that it goes to an assembly. -/
def Engages (c : FragmentCall) : Prop :=
  c.fragment.header.validate = .ok () ∧ c.fragment.header.totalFragments ≠ 1

instance (c : FragmentCall) : Decidable c.Engages := inferInstanceAs (Decidable (_ ∧ _))

/-- The answer to a fragment that goes to no assembly. -/
def answerAlone (c : FragmentCall) : FragmentAnswer :=
  match c.fragment.header.validate with
  | .error e => .error e
  | .ok _ => .ok (some (c.fragment.data, c.fragment.header.originalType))

def fresh (c : FragmentCall) : IncompleteMessage :=
  IncompleteMessage.new c.fragment.header c.sender c.now

end FragmentCall

namespace MessageReassembler

/-- The reassembler in which a fragment of the key finds or gets its entry. -/
def makeRoomFor (r : MessageReassembler) (key : AssemblyKey) : MessageReassembler :=
  if key ∈ r.incompleteMessages then r else r.enforceAssemblyLimit

/-- The order in which the key is then listed, perhaps twice. -/
def listed (r : MessageReassembler) (key : AssemblyKey) : List AssemblyKey :=
  if key ∈ r.incompleteMessages then r.lruOrder else r.enforceAssemblyLimit.lruOrder ++ [key]

/-- The assembly that a fragment is held against. -/
def entryFor (r : MessageReassembler) (c : FragmentCall) : IncompleteMessage :=
  (r.incompleteMessages.lookup c.key).getD c.fresh

variable {r : MessageReassembler} {c : FragmentCall} {key k : AssemblyKey}

/-- The entry that is found or made for a fragment, and what is left of the others. -/
theorem openAssembly_spec (r : MessageReassembler) (c : FragmentCall) :
    (r.openAssembly c.key c.fresh).2 = r.entryFor c ∧
      (r.openAssembly c.key c.fresh).1.incompleteMessages.lookup c.key = some (r.entryFor c) ∧
      (r.openAssembly c.key c.fresh).1.lruOrder = touch (r.listed c.key) c.key ∧
      ∀ k, k ≠ c.key → (r.openAssembly c.key c.fresh).1.incompleteMessages.lookup k =
        (r.makeRoomFor c.key).incompleteMessages.lookup k := by
  unfold openAssembly listed makeRoomFor entryFor
  cases hlookup : r.incompleteMessages.lookup c.key with
  | some m =>
    have hlive : c.key ∈ r.incompleteMessages := Finmap.mem_of_lookup_eq_some hlookup
    simp only [hlive, hlookup, if_true, Option.getD_some, true_and]
    exact fun k _ => trivial
  | none =>
    have hdead : c.key ∉ r.incompleteMessages := Finmap.lookup_eq_none.mp hlookup
    simp only [hdead, if_false, Option.getD_none, Finmap.lookup_insert, true_and]
    exact fun k hk => Finmap.lookup_insert_of_ne _ hk

theorem collect_spec (r : MessageReassembler) (key : AssemblyKey) (m : IncompleteMessage) :
    (r.collect key m).2 = m.settle.2 ∧ (r.collect key m).1.lruOrder = r.lruOrder ∧
      (r.collect key m).1.incompleteMessages.lookup key = m.settle.1 := by
  unfold collect IncompleteMessage.settle
  split_ifs with hcomplete
  · cases m.reassemble with
    | error e => exact ⟨rfl, rfl, Finmap.lookup_insert _⟩
    | ok data => exact ⟨rfl, rfl, Finmap.lookup_erase _ _⟩
  · exact ⟨rfl, rfl, Finmap.lookup_insert _⟩

/-- A fragment that goes to no assembly changes nothing. -/
theorem step_of_not_engages (h : ¬ c.Engages) : r.step c = (r, c.answerAlone) := by
  unfold step addFragment FragmentCall.answerAlone
  cases hvalid : c.fragment.header.validate with
  | error e => rfl
  | ok u =>
    have hsingle : c.fragment.header.totalFragments = 1 := by
      by_contra hmany
      exact h ⟨hvalid, hmany⟩
    simp only [hsingle, if_true]

/-- A fragment advances the assembly of its key, which it touches. -/
structure Advances (r : MessageReassembler) (c : FragmentCall) (r' : MessageReassembler)
    (answer : FragmentAnswer) : Prop where
  answer : answer = ((r.entryFor c).advance c.fragment).2
  own : r'.incompleteMessages.lookup c.key = ((r.entryFor c).advance c.fragment).1
  others : ∀ k, k ≠ c.key → r'.incompleteMessages.lookup k =
    (r.makeRoomFor c.key).incompleteMessages.lookup k
  order : r'.lruOrder = touch (r.listed c.key) c.key

theorem step_of_engages (h : c.Engages) : Advances r c (r.step c).1 (r.step c).2 := by
  obtain ⟨hvalid, hmany⟩ := h
  obtain ⟨hentry, hopened, horder, hothers⟩ := openAssembly_spec r c
  have hstep : r.step c =
      if ((r.openAssembly c.key c.fresh).2).Mismatches c.fragment.header then
        ((r.openAssembly c.key c.fresh).1, invalidPacket "Fragment header mismatch")
      else (r.openAssembly c.key c.fresh).1.collect c.key
        ((r.openAssembly c.key c.fresh).2.addFragment c.fragment) := by
    unfold step addFragment
    simp only [hvalid, hmany, if_false]
    rfl
  rw [hentry] at hstep
  by_cases hmismatch : (r.entryFor c).Mismatches c.fragment.header
  · have hadvance := IncompleteMessage.advance_of_mismatches hmismatch
    rw [hstep, if_pos hmismatch]
    exact ⟨by rw [hadvance], by rw [hadvance]; exact hopened, hothers, horder⟩
  · have hadvance := IncompleteMessage.advance_of_matches hmismatch
    obtain ⟨hanswer, hsame, hown⟩ := collect_spec (r.openAssembly c.key c.fresh).1 c.key
      ((r.entryFor c).addFragment c.fragment)
    rw [hstep, if_neg hmismatch]
    refine ⟨by rw [hadvance]; exact hanswer, by rw [hadvance]; exact hown, ?_, ?_⟩
    · intro k hk
      rw [← hothers k hk]
      exact collect_lookup_of_ne _ hk
    · rw [← horder]
      exact hsame

/-! ## Bounds -/

end MessageReassembler

/-- The calls on a reassembler that write. -/
inductive ReassemblerCall where
  | addFragment (fragment : Fragment) (sender : PeerId)
  | cleanupExpired
  | clear

structure ReassemblerInput where
  call : ReassemblerCall
  now : Timestamp

namespace MessageReassembler

/-- A call at a time; only a fragment is answered. -/
def serve (r : MessageReassembler) (i : ReassemblerInput) :
    MessageReassembler × Option FragmentAnswer :=
  match i.call with
  | .addFragment fragment sender => (r.step ⟨fragment, sender, i.now⟩).map id some
  | .cleanupExpired => (r.cleanupExpired i.now, none)
  | .clear => (r.clear, none)

/-- Every live key is in the order, and what is live is not finished. -/
structure Bounded (r : MessageReassembler) : Prop where
  listed : ∀ k ∈ r.incompleteMessages, k ∈ r.lruOrder
  count : r.incompleteCount ≤ maxFragmentAssemblies
  unfinished : ∀ k m, r.incompleteMessages.lookup k = some m → m.Unfinished

/-- The eviction loop stops below the limit, since every live key is in the order. -/
theorem evictOldest_spec (order : List AssemblyKey) {incomplete : Map AssemblyKey IncompleteMessage}
    (h : ∀ k ∈ incomplete, k ∈ order) :
    Map.size (evictOldest incomplete order).1 < maxFragmentAssemblies ∧
      (∀ k ∈ (evictOldest incomplete order).1, k ∈ (evictOldest incomplete order).2) ∧
      ∀ k m, (evictOldest incomplete order).1.lookup k = some m →
        incomplete.lookup k = some m := by
  induction order generalizing incomplete with
  | nil =>
    have hempty : incomplete = ∅ := by
      apply Finmap.ext_lookup
      intro k
      rw [Finmap.lookup_empty, Finmap.lookup_eq_none]
      intro hk
      exact List.not_mem_nil (h k hk)
    refine ⟨?_, h, fun k m hm => hm⟩
    rw [evictOldest, hempty, Map.size_empty]
    decide
  | cons oldest rest ih =>
    rw [evictOldest]
    split_ifs with hfull
    · have hrest : ∀ k ∈ incomplete.erase oldest, k ∈ rest := by
        intro k hk
        obtain ⟨hne, hlive⟩ := Finmap.mem_erase.mp hk
        exact List.mem_of_ne_of_mem hne (h k hlive)
      obtain ⟨hcount, hlisted, hsub⟩ := ih hrest
      refine ⟨hcount, hlisted, fun k m hm => ?_⟩
      have herased := hsub k m hm
      rw [Map.lookup_erase_if] at herased
      split_ifs at herased
      exact herased
    · exact ⟨Nat.lt_of_not_le hfull, h, fun k m hm => hm⟩

theorem mem_touch {order : List AssemblyKey} : k ∈ touch order key ↔ k ∈ order ∨ k = key := by
  rw [touch, List.mem_append, List.mem_singleton]
  by_cases hk : k = key
  · simp [hk]
  · rw [List.mem_erase_of_ne hk]

/-- What there is after making room was there before, is listed, and leaves room for one. -/
structure MakesRoom (r : MessageReassembler) (key : AssemblyKey) (room : MessageReassembler)
    (listed : List AssemblyKey) : Prop where
  kept : ∀ k m, room.incompleteMessages.lookup k = some m →
    r.incompleteMessages.lookup k = some m
  listed : ∀ k ∈ room.incompleteMessages, k ∈ listed
  count : (insert key room.incompleteMessages.keys).card ≤ maxFragmentAssemblies

theorem Bounded.makeRoomFor (h : Bounded r) (key : AssemblyKey) :
    MakesRoom r key (r.makeRoomFor key) (r.listed key) := by
  unfold MessageReassembler.makeRoomFor MessageReassembler.listed
  by_cases hlive : key ∈ r.incompleteMessages
  · rw [if_pos hlive, if_pos hlive]
    refine ⟨fun k m hm => hm, h.listed, ?_⟩
    rw [Finset.insert_eq_of_mem (Finmap.mem_keys.mpr hlive)]
    exact h.count
  · rw [if_neg hlive, if_neg hlive]
    obtain ⟨hcount, hlisted, hkept⟩ := evictOldest_spec r.lruOrder h.listed
    refine ⟨hkept, fun k hk => List.mem_append_left _ (hlisted k hk), ?_⟩
    exact (Finset.card_insert_le _ _).trans hcount

/-- The entry that a fragment is held against has room for it. -/
theorem Bounded.unfinished_advance (h : Bounded r) (hengages : c.Engages)
    {m : IncompleteMessage} (hm : ((r.entryFor c).advance c.fragment).1 = some m) :
    m.Unfinished := by
  obtain ⟨hvalid, hmany⟩ := hengages
  obtain ⟨hindex, hbound⟩ := FragmentHeader.validate_eq_ok.mp hvalid
  unfold entryFor at hm
  cases hlookup : r.incompleteMessages.lookup c.key with
  | some entry =>
    rw [hlookup, Option.getD_some] at hm
    have hentry := h.unfinished c.key entry hlookup
    exact IncompleteMessage.unfinished_of_advance hentry.total hentry.index hentry.count.2 hindex
      (fun _ => hentry.count.1) hm
  | none =>
    rw [hlookup, Option.getD_none] at hm
    have hne : c.fragment.header.totalFragments.toNat ≠ 1 := by
      intro hone
      exact hmany (UInt16.toNat_inj.mp hone)
    have hempty (i : UInt16) : c.fresh.fragments.lookup i = none := Finmap.lookup_empty i
    have hsize : Map.size c.fresh.fragments = 0 := Map.size_empty
    have htotal : c.fresh.totalFragments = c.fragment.header.totalFragments := rfl
    have hown : ¬ c.fresh.Mismatches c.fragment.header := by
      simp [IncompleteMessage.Mismatches, FragmentCall.fresh, IncompleteMessage.new]
    refine IncompleteMessage.unfinished_of_advance ?_ ?_ ?_ hindex
      (fun hwrong => absurd hwrong hown) hm
    · rw [htotal]
      exact ⟨by omega, hbound⟩
    · intro i part hpart
      rw [hempty i] at hpart
      cases hpart
    · rw [hsize, htotal]
      omega

/-- A fragment keeps the bounds. -/
theorem Bounded.step (h : Bounded r) (c : FragmentCall) : Bounded (r.step c).1 := by
  by_cases hengages : c.Engages
  · have hstep := step_of_engages (r := r) hengages
    have hroom := h.makeRoomFor c.key
    have hlive : ∀ k ∈ (r.step c).1.incompleteMessages, k ≠ c.key →
        k ∈ (r.makeRoomFor c.key).incompleteMessages := by
      intro k hk hne
      obtain ⟨m, hm⟩ := Finmap.mem_iff.mp hk
      rw [hstep.others k hne] at hm
      exact Finmap.mem_of_lookup_eq_some hm
    refine ⟨?_, ?_, ?_⟩
    · intro k hk
      rw [hstep.order, mem_touch]
      by_cases hkey : k = c.key
      · exact Or.inr hkey
      · exact Or.inl (hroom.listed k (hlive k hk hkey))
    · refine (Finset.card_le_card ?_).trans hroom.count
      intro k hk
      rw [Finset.mem_insert]
      by_cases hkey : k = c.key
      · exact Or.inl hkey
      · exact Or.inr (Finmap.mem_keys.mpr (hlive k (Finmap.mem_keys.mp hk) hkey))
    · intro k m hm
      by_cases hkey : k = c.key
      · rw [hkey, hstep.own] at hm
        exact h.unfinished_advance hengages hm
      · rw [hstep.others k hkey] at hm
        exact h.unfinished k m (hroom.kept k m hm)
  · rw [step_of_not_engages hengages]
    exact h

/-- Removing some of the assemblies keeps the bounds. -/
theorem Bounded.cleanupExpired (h : Bounded r) (now : Timestamp) :
    Bounded (r.cleanupExpired now) := by
  refine ⟨?_, ?_, ?_⟩
  · intro k hk
    obtain ⟨m, hm⟩ := Finmap.mem_iff.mp hk
    exact h.listed k (Finmap.mem_of_lookup_eq_some (Map.mem_retain_entries.mp hm).1)
  · exact (Map.size_retain_le _ _).trans h.count
  · intro k m hm
    exact h.unfinished k m (Map.mem_retain_entries.mp hm).1

theorem bounded_new : Bounded new := by
  refine ⟨?_, ?_, ?_⟩
  · intro k hk
    exact absurd hk Finmap.notMem_empty
  · rw [incompleteCount, new, Map.size_empty]
    decide
  · intro k m hm
    cases (Finmap.lookup_empty k).symm.trans hm

theorem Bounded.serve (h : Bounded r) (i : ReassemblerInput) : Bounded (r.serve i).1 := by
  obtain ⟨call, now⟩ := i
  cases call with
  | addFragment fragment sender => exact h.step ⟨fragment, sender, now⟩
  | cleanupExpired => exact h.cleanupExpired now
  | clear => exact bounded_new

theorem bounded_run (inputs : List ReassemblerInput) :
    Bounded (run MessageReassembler.serve new inputs) :=
  Reachable.invariant (fun _ i h => h.serve i) bounded_new ⟨inputs, rfl⟩

/-- After any calls there are at most 128 assemblies, all of them unfinished. -/
theorem assemblies_bounded (inputs : List ReassemblerInput) :
    (run serve new inputs).incompleteCount ≤ maxFragmentAssemblies ∧
      ∀ k m, (run serve new inputs).incompleteMessages.lookup k = some m → m.Unfinished := by
  have h := bounded_run inputs
  exact ⟨h.count, h.unfinished⟩

end MessageReassembler

end Bitchat
