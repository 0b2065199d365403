import Bitchat.Fragmentation
import Bitchat.Rust.Map
import Bitchat.Rust.Run
import Mathlib.Data.Finset.Card

/-!
# Reassembly of fragments

`IncompleteMessage` and `MessageReassembler` of `fragmentation.rs`. For one
assembly the other keys matter only through the eviction at 128 live assemblies.
As long as at most 127 others are live, the assembly holds exactly the chunks
that have arrived, whatever their order and number, and it is complete when
every index has arrived.
-/
namespace Bitchat
open Rust

def maxFragmentAssemblies : ℕ := 128

/-- `FRAGMENT_TIMEOUT_MS`. -/
def fragmentTimeoutMs : ℕ := 30000

abbrev AssemblyKey := PeerId × UInt64

structure IncompleteMessage where
  totalFragments : UInt16
  originalType : UInt8
  fragments : Map UInt16 Bytes
  firstFragmentTime : Timestamp
  sender : PeerId

namespace IncompleteMessage

def new (header : FragmentHeader) (sender : PeerId) (now : Timestamp) : IncompleteMessage :=
  ⟨header.totalFragments, header.originalType, ∅, now, sender⟩

/-- The first fragment of an index is kept. -/
def addFragment (m : IncompleteMessage) (fragment : Fragment) : IncompleteMessage :=
  match m.fragments.lookup fragment.header.fragmentIndex with
  | some _ => m
  | none =>
    { m with fragments := m.fragments.insert fragment.header.fragmentIndex fragment.data }

def isComplete (m : IncompleteMessage) : Bool :=
  Map.size m.fragments = m.totalFragments.toNat

def isExpired (m : IncompleteMessage) (currentTime : Timestamp) : Bool :=
  fragmentTimeoutMs < currentTime.asMillis.toNat - m.firstFragmentTime.asMillis.toNat

def reassemble (m : IncompleteMessage) : BitchatResult Bytes := do
  rejectIf (m.isComplete = false) "Message is incomplete"
  let parts ← (List.range m.totalFragments.toNat).mapM fun i =>
    okOr (m.fragments.lookup (UInt16.ofNat i)) (.invalidPacket "Missing fragment")
  pure parts.flatten

@[simp] theorem addFragment_totalFragments (m : IncompleteMessage) (fragment : Fragment) :
    (m.addFragment fragment).totalFragments = m.totalFragments := by
  unfold addFragment
  split <;> rfl

@[simp] theorem addFragment_originalType (m : IncompleteMessage) (fragment : Fragment) :
    (m.addFragment fragment).originalType = m.originalType := by
  unfold addFragment
  split <;> rfl

theorem addFragment_lookup (m : IncompleteMessage) (fragment : Fragment) (i : UInt16) :
    (m.addFragment fragment).fragments.lookup i =
      if i = fragment.header.fragmentIndex then
        some ((m.fragments.lookup i).getD fragment.data)
      else m.fragments.lookup i := by
  unfold addFragment
  cases hdata : m.fragments.lookup fragment.header.fragmentIndex with
  | some data =>
    simp only
    split_ifs with hi
    · rw [hi, hdata, Option.getD_some]
    · rfl
  | none =>
    simp only
    rw [Map.lookup_insert_if]
    split_ifs with hi
    · rw [hi, hdata, Option.getD_none]
    · rfl

/-- Fragments in range are counted: an entry is complete exactly when every index is there. -/
theorem isComplete_iff_lookup (m : IncompleteMessage)
    (hindex : ∀ i part, m.fragments.lookup i = some part → i.toNat < m.totalFragments.toNat) :
    m.isComplete = true ↔
      ∀ i < m.totalFragments.toNat, ∃ part, m.fragments.lookup (UInt16.ofNat i) = some part := by
  have hsmall := m.totalFragments.toNat_lt
  have hnat (i : ℕ) (hi : i < m.totalFragments.toNat) : (UInt16.ofNat i).toNat = i :=
    UInt16.toNat_ofNat_of_lt' (show i < 65536 by omega)
  have hinj : Set.InjOn UInt16.ofNat (Finset.range m.totalFragments.toNat) := by
    intro i hi j hj h
    rw [← hnat i (Finset.mem_range.mp hi), ← hnat j (Finset.mem_range.mp hj), h]
  have hcard : ((Finset.range m.totalFragments.toNat).image UInt16.ofNat).card =
      m.totalFragments.toNat := by
    rw [Finset.card_image_of_injOn hinj, Finset.card_range]
  have hsub : m.fragments.keys ⊆ (Finset.range m.totalFragments.toNat).image UInt16.ofNat := by
    intro i hi
    obtain ⟨part, hpart⟩ := Map.mem_keys_iff.mp hi
    exact Finset.mem_image.mpr
      ⟨i.toNat, Finset.mem_range.mpr (hindex i part hpart), UInt16.ofNat_toNat⟩
  have hfull := Map.size_eq_card_iff hsub
  rw [hcard] at hfull
  rw [isComplete, decide_eq_true_iff, hfull]
  constructor
  · intro h i hi
    exact h _ (Finset.mem_image.mpr ⟨i, Finset.mem_range.mpr hi, rfl⟩)
  · intro h i hi
    obtain ⟨j, hj, rfl⟩ := Finset.mem_image.mp hi
    exact h j (Finset.mem_range.mp hj)

end IncompleteMessage

structure MessageReassembler where
  incompleteMessages : Map AssemblyKey IncompleteMessage
  lruOrder : List AssemblyKey

namespace MessageReassembler

def new : MessageReassembler := ⟨∅, []⟩

/-- The eviction loop. A key in the order that is no longer live frees nothing. -/
def evictOldest (incomplete : Map AssemblyKey IncompleteMessage) :
    List AssemblyKey → Map AssemblyKey IncompleteMessage × List AssemblyKey
  | [] => (incomplete, [])
  | oldest :: rest =>
    if maxFragmentAssemblies ≤ Map.size incomplete then evictOldest (incomplete.erase oldest) rest
    else (incomplete, oldest :: rest)

def enforceAssemblyLimit (r : MessageReassembler) : MessageReassembler :=
  ⟨(evictOldest r.incompleteMessages r.lruOrder).1, (evictOldest r.incompleteMessages r.lruOrder).2⟩

/-- Moves the first occurrence of a key to the end of the order. -/
def touch (order : List AssemblyKey) (key : AssemblyKey) : List AssemblyKey :=
  order.erase key ++ [key]

/-- The entry of a key, made after an eviction when there is none. -/
def openAssembly (r : MessageReassembler) (key : AssemblyKey) (fresh : IncompleteMessage) :
    MessageReassembler × IncompleteMessage :=
  match r.incompleteMessages.lookup key with
  | some incomplete => (⟨r.incompleteMessages, touch r.lruOrder key⟩, incomplete)
  | none =>
    let r := r.enforceAssemblyLimit
    (⟨r.incompleteMessages.insert key fresh, touch (r.lruOrder ++ [key]) key⟩, fresh)

/-- Stores an updated entry, or removes it and returns the message it completes. -/
def collect (r : MessageReassembler) (key : AssemblyKey) (incomplete : IncompleteMessage) :
    MessageReassembler × BitchatResult (Option (Bytes × UInt8)) :=
  let r : MessageReassembler := ⟨r.incompleteMessages.insert key incomplete, r.lruOrder⟩
  if incomplete.isComplete then
    match incomplete.reassemble with
    | .error e => (r, .error e)
    | .ok data =>
      (⟨r.incompleteMessages.erase key, r.lruOrder⟩, .ok (some (data, incomplete.originalType)))
  else (r, .ok none)

def addFragment (r : MessageReassembler) (fragment : Fragment) (sender : PeerId)
    (now : Timestamp) : MessageReassembler × BitchatResult (Option (Bytes × UInt8)) :=
  match fragment.header.validate with
  | .error e => (r, .error e)
  | .ok _ =>
    if fragment.header.totalFragments = 1 then
      (r, .ok (some (fragment.data, fragment.header.originalType)))
    else
      let key := (sender, fragment.header.fragmentId)
      let opened := r.openAssembly key (IncompleteMessage.new fragment.header sender now)
      if opened.2.totalFragments ≠ fragment.header.totalFragments ∨
          opened.2.originalType ≠ fragment.header.originalType then
        (opened.1, invalidPacket "Fragment header mismatch")
      else opened.1.collect key (opened.2.addFragment fragment)

/-- The order keeps the keys of what is removed. -/
def cleanupExpired (r : MessageReassembler) (currentTime : Timestamp) : MessageReassembler :=
  { r with incompleteMessages :=
      Map.retain (fun _ incomplete => !incomplete.isExpired currentTime) r.incompleteMessages }

def incompleteCount (r : MessageReassembler) : ℕ := Map.size r.incompleteMessages

def clear (_ : MessageReassembler) : MessageReassembler := ⟨∅, []⟩

/-- The number of live assemblies besides `key`. -/
def othersLive (key : AssemblyKey) (incomplete : Map AssemblyKey IncompleteMessage) : ℕ :=
  Map.size (incomplete.erase key)

/-! ## Eviction spares an assembly with few others -/

theorem evictOldest_of_lt {incomplete : Map AssemblyKey IncompleteMessage}
    (order : List AssemblyKey) (h : Map.size incomplete < 128) :
    evictOldest incomplete order = (incomplete, order) := by
  cases order with
  | nil => rfl
  | cons oldest rest =>
    rw [evictOldest, if_neg (by simp only [maxFragmentAssemblies]; omega)]

theorem evictOldest_notMem {key : AssemblyKey} (order : List AssemblyKey)
    {incomplete : Map AssemblyKey IncompleteMessage} (h : key ∉ incomplete) :
    key ∉ (evictOldest incomplete order).1 := by
  induction order generalizing incomplete with
  | nil => exact h
  | cons oldest rest ih =>
    rw [evictOldest]
    split_ifs with hsize
    · exact ih fun hmem => h (Finmap.mem_erase.mp hmem).2
    · exact h

theorem size_le_othersLive (key : AssemblyKey) (incomplete : Map AssemblyKey IncompleteMessage) :
    Map.size incomplete ≤ othersLive key incomplete + 1 := by
  unfold othersLive
  by_cases h : key ∈ incomplete
  · have := Map.size_erase_of_mem h
    omega
  · rw [Map.erase_of_notMem h]
    omega

/-- With at most 127 others, an eviction either leaves the assembly alone or
leaves all 127 others. -/
theorem evictOldest_frame {key : AssemblyKey} (order : List AssemblyKey)
    {incomplete : Map AssemblyKey IncompleteMessage} (h : othersLive key incomplete ≤ 127) :
    (evictOldest incomplete order).1.lookup key = incomplete.lookup key ∨
      othersLive key (evictOldest incomplete order).1 = 127 := by
  induction order with
  | nil => exact Or.inl rfl
  | cons oldest rest ih =>
    have hle := size_le_othersLive key incomplete
    rw [evictOldest]
    split_ifs with hsize
    · have hfull : Map.size incomplete = 128 := by
        unfold maxFragmentAssemblies at hsize
        omega
      by_cases hmem : oldest ∈ incomplete
      · have hafter := Map.size_erase_of_mem hmem
        rw [evictOldest_of_lt rest (by omega)]
        by_cases hkey : oldest = key
        · refine Or.inr ?_
          subst hkey
          rw [othersLive, Map.erase_of_notMem Finmap.notMem_erase_self]
          omega
        · exact Or.inl (Finmap.lookup_erase_ne (Ne.symm hkey))
      · rw [Map.erase_of_notMem hmem]
        exact ih
    · exact Or.inl rfl

theorem othersLive_insert {key other : AssemblyKey} {incomplete : Map AssemblyKey IncompleteMessage}
    (m : IncompleteMessage) (hne : key ≠ other) (habsent : other ∉ incomplete) :
    othersLive key (incomplete.insert other m) = othersLive key incomplete + 1 := by
  have hcomm : (incomplete.insert other m).erase key = (incomplete.erase key).insert other m := by
    apply Finmap.ext_lookup
    intro k
    simp only [Map.lookup_erase_if, Map.lookup_insert_if]
    split_ifs with h1 h2
    · exact absurd (h1.symm.trans h2) hne
    · rfl
    · rfl
    · rfl
  unfold othersLive
  rw [hcomm, Map.size_insert_of_notMem]
  exact fun hmem => habsent (Finmap.mem_erase.mp hmem).2

/-! ## Steps on other keys -/

theorem collect_lookup_of_ne {r : MessageReassembler} {key other : AssemblyKey}
    (incomplete : IncompleteMessage) (hne : other ≠ key) :
    (r.collect key incomplete).1.incompleteMessages.lookup other =
      r.incompleteMessages.lookup other := by
  have hinsert : (r.incompleteMessages.insert key incomplete).lookup other =
      r.incompleteMessages.lookup other := Finmap.lookup_insert_of_ne _ hne
  unfold collect
  split_ifs with hcomplete
  · cases incomplete.reassemble with
    | error e => exact hinsert
    | ok data => exact (Finmap.lookup_erase_ne hne).trans hinsert
  · exact hinsert

theorem addFragment_new_isComplete {fragment : Fragment} (sender : PeerId) (now : Timestamp)
    (htotal : fragment.header.totalFragments ≠ 1) :
    ((IncompleteMessage.new fragment.header sender now).addFragment fragment).isComplete =
      false := by
  have hone : Map.size ((∅ : Map UInt16 Bytes).insert fragment.header.fragmentIndex
      fragment.data) = 1 := by
    rw [Map.size_insert_of_notMem _ Finmap.notMem_empty, Map.size_empty]
  have hne : fragment.header.totalFragments.toNat ≠ 1 := by
    intro h
    exact htotal (UInt16.toNat_inj.mp h)
  unfold IncompleteMessage.isComplete IncompleteMessage.addFragment IncompleteMessage.new
  simp only [Finmap.lookup_empty, hone, decide_eq_false_iff_not]
  exact Ne.symm hne

/-- A call for another key leaves an assembly alone when at most 127 others are
live before and after it. -/
theorem addFragment_other {r : MessageReassembler} {key : AssemblyKey} {fragment : Fragment}
    {sender : PeerId} {now : Timestamp} (hne : key ≠ (sender, fragment.header.fragmentId))
    (hbefore : othersLive key r.incompleteMessages ≤ 127)
    (hafter : othersLive key (r.addFragment fragment sender now).1.incompleteMessages ≤ 127) :
    (r.addFragment fragment sender now).1.incompleteMessages.lookup key =
      r.incompleteMessages.lookup key := by
  unfold addFragment at hafter ⊢
  cases hvalid : fragment.header.validate with
  | error e => rfl
  | ok _ =>
    simp only [hvalid] at hafter ⊢
    by_cases htotal : fragment.header.totalFragments = 1
    · simp [htotal]
    · simp only [htotal, if_false] at hafter ⊢
      unfold openAssembly at hafter ⊢
      cases hlookup : r.incompleteMessages.lookup (sender, fragment.header.fragmentId) with
      | some incomplete =>
        simp only
        split_ifs
        · rfl
        · exact collect_lookup_of_ne _ hne
      | none =>
        simp only [hlookup, IncompleteMessage.new, ne_eq, not_true_eq_false, or_self,
          if_false] at hafter ⊢
        have habsent := evictOldest_notMem r.lruOrder (Finmap.lookup_eq_none.mp hlookup)
        have hframe := evictOldest_frame r.lruOrder hbefore
        rw [collect_lookup_of_ne _ hne]
        simp only [enforceAssemblyLimit] at hafter ⊢
        rw [Finmap.lookup_insert_of_ne _ hne]
        rcases hframe with hsame | hfull
        · exact hsame
        · have hincomplete := addFragment_new_isComplete sender now htotal
          unfold IncompleteMessage.new at hincomplete
          simp only [collect, hincomplete, Bool.false_eq_true, if_false,
            Finmap.insert_insert] at hafter
          rw [othersLive_insert _ hne habsent] at hafter
          omega

/-! ## One assembly -/

end MessageReassembler

/-- A call of `add_fragment` at a time. -/
structure FragmentCall where
  fragment : Fragment
  sender : PeerId
  now : Timestamp

namespace FragmentCall

def key (c : FragmentCall) : AssemblyKey := (c.sender, c.fragment.header.fragmentId)

/-- The call's fragment is one of `fragments`, carried over the wire. -/
def Drawn (c : FragmentCall) (fragments : List Fragment) : Prop :=
  ∃ f ∈ fragments, ∃ now, Fragment.fromWireFormat f.toWireFormat now = .ok c.fragment

end FragmentCall

namespace MessageReassembler

def step (r : MessageReassembler) (c : FragmentCall) :
    MessageReassembler × BitchatResult (Option (Bytes × UInt8)) :=
  r.addFragment c.fragment c.sender c.now

/-- Some call for the key has brought the fragment of this index. -/
def Seen (key : AssemblyKey) (calls : List FragmentCall) (i : UInt16) : Prop :=
  ∃ c ∈ calls, c.key = key ∧ c.fragment.header.fragmentIndex = i

theorem seen_concat {key : AssemblyKey} {calls : List FragmentCall} {c : FragmentCall}
    {i : UInt16} : Seen key (calls ++ [c]) i ↔
      Seen key calls i ∨ c.key = key ∧ c.fragment.header.fragmentIndex = i := by
  unfold Seen
  constructor
  · rintro ⟨d, hd, hkey⟩
    rcases List.mem_append.mp hd with hd | hd
    · exact Or.inl ⟨d, hd, hkey⟩
    · rw [List.mem_singleton.mp hd] at hkey
      exact Or.inr hkey
  · rintro (⟨d, hd, hkey⟩ | hkey)
    · exact ⟨d, List.mem_append_left _ hd, hkey⟩
    · exact ⟨c, by simp, hkey⟩

section

variable (size total : ℕ) (data : Bytes) (originalType : UInt8) (key : AssemblyKey)

/-- What an assembly holds after `calls`: the chunk of every index that was seen. -/
structure Assembling (r : MessageReassembler) (seen : UInt16 → Prop) : Prop where
  header : ∀ m, r.incompleteMessages.lookup key = some m →
    m.totalFragments = UInt16.ofNat total ∧ m.originalType = originalType
  chunks : ∀ i part, (r.incompleteMessages.lookup key).bind (fun m => m.fragments.lookup i) =
    some part ↔ seen i ∧ part = MessageFragmenter.chunk size data i.toNat

variable {size total data originalType key}

theorem Assembling.congr {r : MessageReassembler} {seen seen' : UInt16 → Prop}
    (h : Assembling size total data originalType key r seen) (hseen : ∀ i, seen i ↔ seen' i) :
    Assembling size total data originalType key r seen' := by
  obtain rfl : seen = seen' := funext fun i => propext (hseen i)
  exact h

/-- A call for another key changes nothing about the assembly. -/
theorem Assembling.of_lookup_eq {r r' : MessageReassembler} {seen : UInt16 → Prop}
    (h : Assembling size total data originalType key r seen)
    (hlookup : r'.incompleteMessages.lookup key = r.incompleteMessages.lookup key) :
    Assembling size total data originalType key r' seen := by
  refine ⟨fun m hm => h.header m (hlookup ▸ hm), fun i part => ?_⟩
  rw [hlookup]
  exact h.chunks i part

/-- The assembly that is found or started under the key holds what was seen. -/
theorem Assembling.opened {r : MessageReassembler} {seen : UInt16 → Prop}
    {fresh : IncompleteMessage} (h : Assembling size total data originalType key r seen)
    (htotal : fresh.totalFragments = UInt16.ofNat total) (htype : fresh.originalType = originalType)
    (hempty : fresh.fragments = ∅) :
    (r.openAssembly key fresh).2.totalFragments = UInt16.ofNat total ∧
      (r.openAssembly key fresh).2.originalType = originalType ∧
      ∀ i part, (r.openAssembly key fresh).2.fragments.lookup i = some part ↔
        seen i ∧ part = MessageFragmenter.chunk size data i.toNat := by
  have hchunks := h.chunks
  unfold openAssembly
  cases hlookup : r.incompleteMessages.lookup key with
  | some m =>
    rw [hlookup] at hchunks
    exact ⟨(h.header m hlookup).1, (h.header m hlookup).2, hchunks⟩
  | none =>
    rw [hlookup] at hchunks
    refine ⟨htotal, htype, fun i part => ?_⟩
    rw [← hchunks i part, hempty, Finmap.lookup_empty]
    rfl

/-- A fragment of the message is entered at its index. -/
theorem Assembling.step_own {r : MessageReassembler} {seen : UInt16 → Prop} {c : FragmentCall}
    (h : Assembling size total data originalType key r seen) (hkey : c.key = key)
    (hvalid : c.fragment.header.validate = .ok ()) (htotal1 : c.fragment.header.totalFragments ≠ 1)
    (htotal : c.fragment.header.totalFragments = UInt16.ofNat total)
    (htype : c.fragment.header.originalType = originalType)
    (hdata : c.fragment.data =
      MessageFragmenter.chunk size data c.fragment.header.fragmentIndex.toNat) :
    ∃ r' m, r.step c = collect r' key m ∧ m.totalFragments = UInt16.ofNat total ∧
      m.originalType = originalType ∧ ∀ i part, m.fragments.lookup i = some part ↔
        (seen i ∨ c.fragment.header.fragmentIndex = i) ∧
          part = MessageFragmenter.chunk size data i.toNat := by
  obtain rfl := hkey
  set fresh := IncompleteMessage.new c.fragment.header c.sender c.now with hfresh
  obtain ⟨hot, hoy, hol⟩ := h.opened (show fresh.totalFragments = _ from htotal) htype rfl
  refine ⟨(r.openAssembly c.key fresh).1,
    (r.openAssembly c.key fresh).2.addFragment c.fragment, ?_, ?_, ?_, ?_⟩
  · have hsame : ¬ ((r.openAssembly c.key fresh).2.totalFragments ≠
        c.fragment.header.totalFragments ∨
        (r.openAssembly c.key fresh).2.originalType ≠ c.fragment.header.originalType) := by
      rw [hot, hoy, htotal, htype]
      simp
    unfold step addFragment
    simp only [hvalid, if_neg htotal1]
    exact if_neg hsame
  · rw [IncompleteMessage.addFragment_totalFragments, hot]
  · rw [IncompleteMessage.addFragment_originalType, hoy]
  · intro i part
    rw [IncompleteMessage.addFragment_lookup]
    split_ifs with hi
    · have hpart : ((r.openAssembly c.key fresh).2.fragments.lookup i).getD c.fragment.data =
          MessageFragmenter.chunk size data i.toNat := by
        cases hold : (r.openAssembly c.key fresh).2.fragments.lookup i with
        | some old => exact ((hol i old).mp hold).2
        | none => rw [Option.getD_none, hdata, hi]
      rw [hpart, Option.some.injEq]
      simp only [hi, or_true, true_and]
      exact eq_comm
    · rw [hol i part]
      simp only [Ne.symm hi, or_false]

/-- Distinct indices in range are counted: an entry is complete exactly when all
of them are there. -/
theorem isComplete_iff {m : IncompleteMessage} {seen : UInt16 → Prop} (hle : total ≤ 256)
    (htotal : m.totalFragments = UInt16.ofNat total)
    (hseen : ∀ i, seen i → i.toNat < total)
    (hchunks : ∀ i part, m.fragments.lookup i = some part ↔
      seen i ∧ part = MessageFragmenter.chunk size data i.toNat) :
    m.isComplete = true ↔ ∀ i < total, seen (UInt16.ofNat i) := by
  have hcount : m.totalFragments.toNat = total := by
    rw [htotal]
    exact UInt16.toNat_ofNat_of_lt' (show total < 65536 by omega)
  have hindex : ∀ i part, m.fragments.lookup i = some part →
      i.toNat < m.totalFragments.toNat := by
    intro i part hpart
    rw [hcount]
    exact hseen i ((hchunks i part).mp hpart).1
  rw [m.isComplete_iff_lookup hindex, hcount]
  constructor
  · intro h i hi
    obtain ⟨part, hpart⟩ := h i hi
    exact ((hchunks _ part).mp hpart).1
  · intro h i hi
    exact ⟨_, (hchunks _ _).mpr ⟨h i hi, rfl⟩⟩

/-- The chunks of a complete entry, concatenated in the order of the indices. -/
theorem reassemble_eq {m : IncompleteMessage} {seen : UInt16 → Prop} (hle : total ≤ 256)
    (hcover : data.length ≤ total * size) (htotal : m.totalFragments = UInt16.ofNat total)
    (hchunks : ∀ i part, m.fragments.lookup i = some part ↔
      seen i ∧ part = MessageFragmenter.chunk size data i.toNat)
    (hcomplete : m.isComplete = true) (hall : ∀ i < total, seen (UInt16.ofNat i)) :
    m.reassemble = .ok data := by
  have hnat (i : ℕ) (hi : i < 65536) : (UInt16.ofNat i).toNat = i :=
    UInt16.toNat_ofNat_of_lt' hi
  have hparts : (List.range m.totalFragments.toNat).mapM (fun i =>
      okOr (m.fragments.lookup (UInt16.ofNat i)) (BitchatError.invalidPacket "Missing fragment")) =
      .ok ((List.range m.totalFragments.toNat).map (MessageFragmenter.chunk size data)) := by
    apply mapM_eq_ok_map
    intro i hi
    rw [htotal, hnat total (by omega)] at hi
    have hlt := List.mem_range.mp hi
    rw [okOr_eq_ok, hchunks, hnat i (by omega)]
    exact ⟨hall i hlt, rfl⟩
  unfold IncompleteMessage.reassemble
  rw [rejectIf_bind_eq_ok, hparts, ok_bind, MessageFragmenter.flatten_chunks, htotal,
    hnat total (by omega), List.take_of_length_le hcover, hcomplete]
  exact ⟨by simp, rfl⟩

/-- A drawn fragment is a valid one of the message, at an index in range. -/
theorem drawn_fragment {fragmentId : UInt64} {clock : ℕ → Timestamp} {fragments : List Fragment}
    {c : FragmentCall} (hle : total ≤ 256)
    (hfragments : fragments = (List.range total).map
      (MessageFragmenter.nthFragment size total fragmentId clock data originalType))
    (hdrawn : c.Drawn fragments) :
    ∃ i < total, c.fragment.header.validate = .ok () ∧
      c.fragment.header.fragmentIndex = UInt16.ofNat i ∧
      c.fragment.header.totalFragments = UInt16.ofNat total ∧
      c.fragment.header.originalType = originalType ∧
      c.fragment.data =
        MessageFragmenter.chunk size data c.fragment.header.fragmentIndex.toNat := by
  obtain ⟨f, hf, now, hwire⟩ := hdrawn
  rw [hfragments] at hf
  obtain ⟨i, hi, rfl⟩ := List.mem_map.mp hf
  have hlt : i < total := List.mem_range.mp hi
  have hindex : (UInt16.ofNat i).toNat = i :=
    UInt16.toNat_ofNat_of_lt' (show i < 65536 by omega)
  have hvalid : (MessageFragmenter.nthFragment size total fragmentId clock data originalType
      i).header.validate = .ok () := by
    have htotal : (UInt16.ofNat total).toNat = total :=
      UInt16.toNat_ofNat_of_lt' (show total < 65536 by omega)
    refine FragmentHeader.validate_eq_ok.mpr ?_
    show (UInt16.ofNat i).toNat < (UInt16.ofNat total).toNat ∧ (UInt16.ofNat total).toNat ≤ 256
    omega
  rw [Fragment.fromWireFormat_toWireFormat now hvalid] at hwire
  rw [← Except.ok.inj hwire]
  refine ⟨i, hlt, hvalid, rfl, rfl, rfl, ?_⟩
  show MessageFragmenter.chunk size data i =
    MessageFragmenter.chunk size data (UInt16.ofNat i).toNat
  rw [hindex]

theorem seen_lt {fragmentId : UInt64} {clock : ℕ → Timestamp} {fragments : List Fragment}
    {calls : List FragmentCall} {i : UInt16} (hle : total ≤ 256)
    (hfragments : fragments = (List.range total).map
      (MessageFragmenter.nthFragment size total fragmentId clock data originalType))
    (hdrawn : ∀ c ∈ calls, c.key = key → c.Drawn fragments) (hseen : Seen key calls i) :
    i.toNat < total := by
  obtain ⟨c, hc, hkey, rfl⟩ := hseen
  obtain ⟨j, hj, _, hindex, _⟩ := drawn_fragment hle hfragments (hdrawn c hc hkey)
  rw [hindex, UInt16.toNat_ofNat_of_lt' (show j < 65536 by omega)]
  exact hj

/-- One fragment of the message: nothing is returned while an index is missing,
and the message once there is none. -/
theorem Assembling.step_outcome {r : MessageReassembler} {fragmentId : UInt64}
    {clock : ℕ → Timestamp} {fragments : List Fragment} {calls : List FragmentCall}
    {c : FragmentCall} (hle : total ≤ 256) (hcover : data.length ≤ total * size)
    (hfragments : fragments = (List.range total).map
      (MessageFragmenter.nthFragment size total fragmentId clock data originalType))
    (hdrawn : ∀ d ∈ calls ++ [c], d.key = key → d.Drawn fragments) (hkey : c.key = key)
    (hne1 : total ≠ 1)
    (h : Assembling size total data originalType key r (Seen key calls)) :
    ((∃ i < total, ¬ Seen key (calls ++ [c]) (UInt16.ofNat i)) → (r.step c).2 = .ok none ∧
      Assembling size total data originalType key (r.step c).1 (Seen key (calls ++ [c]))) ∧
    ((∀ i < total, Seen key (calls ++ [c]) (UInt16.ofNat i)) →
      (r.step c).2 = .ok (some (data, originalType))) := by
  obtain ⟨_, _, hvalid, _, htotal, htype, hdata⟩ :=
    drawn_fragment hle hfragments (hdrawn c (by simp) hkey)
  have htotal1 : c.fragment.header.totalFragments ≠ 1 := by
    intro h1
    rw [htotal, ← UInt16.toNat_inj, UInt16.toNat_ofNat_of_lt' (show total < 65536 by omega)] at h1
    exact hne1 h1
  obtain ⟨r', m, hstep, hmt, hmy, hchunks⟩ := h.step_own hkey hvalid htotal1 htotal htype hdata
  have hseen (i : UInt16) : (Seen key calls i ∨ c.fragment.header.fragmentIndex = i) ↔
      Seen key (calls ++ [c]) i := by
    rw [seen_concat]
    simp [hkey]
  simp only [hseen] at hchunks
  have hcomplete := isComplete_iff hle hmt (fun i => seen_lt hle hfragments hdrawn) hchunks
  rw [hstep]
  constructor
  · rintro ⟨i, hi, hmissing⟩
    have hincomplete : m.isComplete = false := by
      rw [← Bool.not_eq_true, hcomplete]
      exact fun hall => hmissing (hall i hi)
    unfold collect
    rw [if_neg (by simp [hincomplete])]
    refine ⟨rfl, ?_, ?_⟩
    · intro m' hm'
      rw [Finmap.lookup_insert, Option.some.injEq] at hm'
      exact hm' ▸ ⟨hmt, hmy⟩
    · intro i part
      rw [Finmap.lookup_insert]
      exact hchunks i part
  · intro hall
    have hdone := hcomplete.mpr hall
    have hmessage := reassemble_eq hle hcover hmt hchunks hdone hall
    unfold collect
    rw [if_pos hdone, hmessage]
    simp only [hmy]

/-- Until every index has occurred, the assembly holds what was seen. -/
theorem assembling_run {fragmentId : UInt64} {clock : ℕ → Timestamp} {sender : PeerId}
    {fragments : List Fragment} {r : MessageReassembler} (hle : total ≤ 256)
    (hcover : data.length ≤ total * size)
    (hfragments : fragments = (List.range total).map
      (MessageFragmenter.nthFragment size total fragmentId clock data originalType))
    (habsent : r.incompleteMessages.lookup (sender, fragmentId) = none) (calls : List FragmentCall)
    (hdrawn : ∀ c ∈ calls, c.key = (sender, fragmentId) → c.Drawn fragments)
    (hothers : ∀ before, before <+: calls →
      othersLive (sender, fragmentId) (run step r before).incompleteMessages ≤ 127)
    (hmissing : ∃ i < total, ¬ Seen (sender, fragmentId) calls (UInt16.ofNat i)) :
    Assembling size total data originalType (sender, fragmentId) (run step r calls)
      (Seen (sender, fragmentId) calls) := by
  induction calls using List.reverseRecOn with
  | nil =>
    refine ⟨fun m hm => ?_, fun i part => ?_⟩
    · rw [run_nil, habsent] at hm
      cases hm
    · rw [run_nil, habsent]
      simp [Seen]
  | append_singleton calls c ih =>
    obtain ⟨i, hi, hunseen⟩ := hmissing
    have hbefore : Assembling size total data originalType (sender, fragmentId)
        (run step r calls) (Seen (sender, fragmentId) calls) := by
      refine ih (fun d hd => hdrawn d (List.mem_append_left _ hd))
        (fun before hfront => hothers before (hfront.trans (List.prefix_append _ _))) ?_
      exact ⟨i, hi, fun h => hunseen (seen_concat.mpr (Or.inl h))⟩
    by_cases hkey : c.key = (sender, fragmentId)
    · have hne1 : total ≠ 1 := by
        rintro rfl
        obtain ⟨j, hj, _, hindex, _⟩ :=
          drawn_fragment hle hfragments (hdrawn c (by simp) hkey)
        refine hunseen (seen_concat.mpr (Or.inr ⟨hkey, ?_⟩))
        rw [hindex]
        congr 1
        omega
      rw [run_concat]
      exact ((hbefore.step_outcome hle hcover hfragments hdrawn hkey hne1).1
        ⟨i, hi, hunseen⟩).2
    · rw [run_concat]
      refine (hbefore.of_lookup_eq ?_).congr fun i => ?_
      · apply addFragment_other (Ne.symm hkey)
        · exact hothers calls (List.prefix_append _ _)
        · have hlive := hothers (calls ++ [c]) (List.prefix_refl _)
          rwa [run_concat] at hlive
      · rw [seen_concat]
        simp [hkey]

end

/-- A message of one fragment is returned as it comes. -/
theorem step_single {r : MessageReassembler} {c : FragmentCall}
    (hvalid : c.fragment.header.validate = .ok ())
    (hsingle : c.fragment.header.totalFragments = 1) :
    (r.step c).2 = .ok (some (c.fragment.data, c.fragment.header.originalType)) := by
  unfold step addFragment
  simp only [hvalid, hsingle, if_true]

theorem chunk_single {size : ℕ} {data : Bytes} (hcover : data.length ≤ size) :
    MessageFragmenter.chunk size data 0 = data := by
  rw [MessageFragmenter.chunk, Nat.zero_mul, List.drop_zero, List.take_of_length_le hcover]

/-- Fragments of a message, in any order and number and between calls for other
keys of which at most 127 are live, return nothing until every index has
occurred, and the message at the call that brings the last one. -/
theorem reassembly_identity (maxFragmentSize : ℕ) (fragmentId : UInt64) (clock : ℕ → Timestamp)
    (data : Bytes) (originalType : UInt8) (fragments : List Fragment) (sender : PeerId)
    (r : MessageReassembler) (calls : List FragmentCall) (c : FragmentCall)
    (hfragments : MessageFragmenter.fragmentMessage maxFragmentSize fragmentId clock data
      originalType = .ok fragments)
    (habsent : r.incompleteMessages.lookup (sender, fragmentId) = none)
    (hdrawn : ∀ d ∈ calls ++ [c], d.key = (sender, fragmentId) → d.Drawn fragments)
    (hothers : ∀ before, before <+: calls →
      othersLive (sender, fragmentId) (run step r before).incompleteMessages ≤ 127)
    (hown : c.key = (sender, fragmentId)) :
    ((∃ f ∈ fragments, ¬ Seen (sender, fragmentId) (calls ++ [c]) f.header.fragmentIndex) →
      ((run step r calls).step c).2 = .ok none) ∧
    ((∀ f ∈ fragments, Seen (sender, fragmentId) (calls ++ [c]) f.header.fragmentIndex) →
      ¬ Seen (sender, fragmentId) calls c.fragment.header.fragmentIndex →
      ((run step r calls).step c).2 = .ok (some (data, originalType))) := by
  obtain ⟨size, total, hpos, hle, hcover, rfl⟩ :=
    MessageFragmenter.fragmentMessage_eq_ok hfragments
  obtain ⟨j, hj, hvalid, hindex, htotal, htype, hdata⟩ :=
    drawn_fragment hle rfl (hdrawn c (by simp) hown)
  have hdrawnBefore : ∀ d ∈ calls, d.key = (sender, fragmentId) → d.Drawn _ :=
    fun d hd => hdrawn d (List.mem_append_left _ hd)
  by_cases hone : total = 1
  · subst hone
    obtain rfl : j = 0 := by omega
    constructor
    · rintro ⟨f, hf, hmissing⟩
      refine absurd (seen_concat.mpr (Or.inr ⟨hown, ?_⟩)) hmissing
      obtain ⟨i, hi, rfl⟩ := List.mem_map.mp hf
      obtain rfl : i = 0 := by simpa using hi
      exact hindex
    · intro _ _
      have hchunk : c.fragment.data = data := by
        rw [hdata, hindex]
        exact chunk_single (by omega)
      rw [step_single hvalid htotal, hchunk, htype]
  · have hunseen_before (h : ∃ i < total, ¬ Seen (sender, fragmentId) calls (UInt16.ofNat i)) :=
      assembling_run hle hcover rfl habsent calls hdrawnBefore hothers h
    constructor
    · rintro ⟨f, hf, hmissing⟩
      obtain ⟨i, hi, rfl⟩ := List.mem_map.mp hf
      have hlt := List.mem_range.mp hi
      have hbefore := hunseen_before ⟨i, hlt, fun h => hmissing (seen_concat.mpr (Or.inl h))⟩
      exact ((hbefore.step_outcome hle hcover rfl hdrawn hown hone).1 ⟨i, hlt, hmissing⟩).1
    · intro hall hlast
      rw [hindex] at hlast
      have hbefore := hunseen_before ⟨j, hj, hlast⟩
      refine (hbefore.step_outcome hle hcover rfl hdrawn hown hone).2 fun i hi => ?_
      exact hall _ (List.mem_map.mpr ⟨i, List.mem_range.mpr hi, rfl⟩)

/-- Three bytes in fragments of two, sent by the peer `1`. -/
def twoFragments : List Fragment :=
  [⟨⟨9, 0, 2, 2⟩, [0x61, 0x62], ⟨0⟩⟩, ⟨⟨9, 1, 2, 2⟩, [0x63], ⟨0⟩⟩]

def peerOne : PeerId := ⟨List.Vector.replicate 8 1⟩

/-- The last fragment twice, with a fragment of another message in between. -/
def earlierCalls : List FragmentCall :=
  [⟨⟨⟨9, 1, 2, 2⟩, [0x63], ⟨5⟩⟩, peerOne, ⟨5⟩⟩, ⟨⟨⟨8, 0, 2, 2⟩, [0x7a], ⟨6⟩⟩, peerOne, ⟨6⟩⟩,
    ⟨⟨⟨9, 1, 2, 2⟩, [0x63], ⟨7⟩⟩, peerOne, ⟨7⟩⟩]

def lastCall : FragmentCall := ⟨⟨⟨9, 0, 2, 2⟩, [0x61, 0x62], ⟨8⟩⟩, peerOne, ⟨8⟩⟩

theorem reassembly_identity_two :
    ((run step new earlierCalls).step lastCall).2 = .ok (some ([0x61, 0x62, 0x63], 2)) := by
  refine (reassembly_identity 15 9 (fun _ => ⟨0⟩) [0x61, 0x62, 0x63] 2 twoFragments peerOne new
    earlierCalls lastCall rfl rfl ?_ ?_ rfl).2 ?_ ?_
  · intro d hd hkey
    simp only [earlierCalls, lastCall, List.cons_append, List.nil_append, List.mem_cons,
      List.not_mem_nil, or_false] at hd
    rcases hd with rfl | rfl | rfl | rfl
    · exact ⟨_, List.mem_cons_of_mem _ List.mem_cons_self, ⟨5⟩, rfl⟩
    · exact absurd hkey (by decide)
    · exact ⟨_, List.mem_cons_of_mem _ List.mem_cons_self, ⟨7⟩, rfl⟩
    · exact ⟨_, List.mem_cons_self, ⟨8⟩, rfl⟩
  · intro before hbefore
    have hall : ∀ before ∈ earlierCalls.inits,
        othersLive (peerOne, 9) (run step new before).incompleteMessages ≤ 127 := by decide
    exact hall before (List.mem_inits _ _ |>.mpr hbefore)
  · intro f hf
    simp only [twoFragments, List.mem_cons, List.not_mem_nil, or_false] at hf
    rcases hf with rfl | rfl
    · exact ⟨lastCall, by simp, rfl, rfl⟩
    · exact ⟨_, List.mem_append_left _ List.mem_cons_self, rfl, rfl⟩
  · rintro ⟨d, hd, hkey, hindex⟩
    simp only [earlierCalls, List.mem_cons, List.not_mem_nil, or_false] at hd
    rcases hd with rfl | rfl | rfl
    · exact absurd hindex (by decide)
    · exact absurd hkey (by decide)
    · exact absurd hindex (by decide)

end MessageReassembler

end Bitchat
