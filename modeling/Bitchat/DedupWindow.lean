import Bitchat.Deduplication

/-!
# How long an id is remembered

An id is in the primary filter until the filters rotate, and in one of the two until they
rotate again, unless maintenance drops the secondary filter in between. It does so when
that filter is old, which says nothing about the age of its ids.
-/
namespace Bitchat
open Rust

/-- Calls at times that do not go back. -/
structure DedupRun where
  inputs : List DedupInput
  ordered : inputs.Pairwise fun i j => i.now ≤ j.now

/-- The call reports whether the id is a duplicate. -/
def DedupInput.asks (i : DedupInput) (packetId : PacketId) : Prop :=
  i.call = .checkAndAdd packetId ∨ i.call = .isDuplicate packetId

namespace DeduplicationManager

variable {F : Type} {sha256 : Bytes → Key32} {formulas : BloomFormulas F}
  {m : DeduplicationManager F} {i : DedupInput} {packetId : PacketId} {r now : ℕ}

def rotations (m : DeduplicationManager F) : ℕ := m.stats.filterRotations

/-- An id that was added is reported for its lifetime, until the second rotation since. -/
def KeepsAdded (sha256 : Bytes → Key32) (formulas : BloomFormulas F)
    (m : DeduplicationManager F) (inputs : List DedupInput) : Prop :=
  ∀ before add between rest packetId, inputs = before ++ add :: (between ++ rest) →
    add.call = .checkAndAdd packetId →
    (run (step sha256 formulas) m (before ++ add :: between)).rotations <
      (run (step sha256 formulas) m before).rotations + 2 →
    ∀ query : DedupInput, query.asks packetId → (∀ i ∈ add :: between, i.now ≤ query.now) →
      query.now ≤ add.now + bloomTtlMs →
      (step sha256 formulas (run (step sha256 formulas) m (before ++ add :: between)) query).2 =
        .duplicate true

/-- Maintenance drops the secondary filter and does not rotate, and the id is not in the
primary one. -/
def Drops (sha256 : Bytes → Key32) (formulas : BloomFormulas F) (m : DeduplicationManager F)
    (i : DedupInput) (packetId : PacketId) : Prop :=
  i.call = .maintain ∧ (m.secondaryFilter.any fun filter => filter.isExpired i.now) = true ∧
    m.shouldRotateFilters formulas i.now = false ∧
      m.primaryFilter.contains sha256 packetId = false

/-- It does that to no id that was added within its lifetime and less than two rotations
ago. -/
def DropsNothingYoung (sha256 : Bytes → Key32) (formulas : BloomFormulas F)
    (m : DeduplicationManager F) (inputs : List DedupInput) : Prop :=
  ∀ before add between i rest packetId, inputs = before ++ add :: (between ++ i :: rest) →
    add.call = .checkAndAdd packetId → i.now ≤ add.now + bloomTtlMs →
    (run (step sha256 formulas) m (before ++ add :: between)).rotations <
      (run (step sha256 formulas) m before).rotations + 2 →
    ¬ Drops sha256 formulas (run (step sha256 formulas) m (before ++ add :: between)) i packetId

/-! ## Where an id is -/

/-- Since the id was added, at `r` rotations, it is in the primary filter, and after one
rotation in one of the two. -/
structure Remembers (sha256 : Bytes → Key32) (m : DeduplicationManager F) (packetId : PacketId)
    (r : ℕ) : Prop where
  le : r ≤ m.rotations
  primary : m.rotations = r → m.primaryFilter.contains sha256 packetId = true
  either : m.rotations < r + 2 → m.isDuplicate sha256 packetId = true

theorem isDuplicate_of_primary (h : m.primaryFilter.contains sha256 packetId = true) :
    m.isDuplicate sha256 packetId = true := by
  rw [isDuplicate, h, Bool.true_or]

/-- A rotation only needs the primary filter. -/
theorem Remembers.rotateFilters (le : r ≤ m.rotations)
    (primary : m.rotations = r → m.primaryFilter.contains sha256 packetId = true) (now : ℕ) :
    Remembers sha256 (m.rotateFilters formulas now) packetId r := by
  have hrotations : (m.rotateFilters formulas now).rotations = m.rotations + 1 := rfl
  constructor
  · omega
  · intro h
    omega
  · intro h
    have hcontains := primary (by omega)
    simp [isDuplicate, DeduplicationManager.rotateFilters, hcontains]

theorem Remembers.rotateIfNeeded (h : Remembers sha256 m packetId r) (now : ℕ) :
    Remembers sha256 (m.rotateIfNeeded formulas now) packetId r := by
  unfold DeduplicationManager.rotateIfNeeded
  split_ifs
  · exact Remembers.rotateFilters h.le h.primary now
  · exact h

/-- An id that is added is remembered from there on. -/
theorem Remembers.added (sha256 : Bytes → Key32) (formulas : BloomFormulas F)
    (m : DeduplicationManager F) (packetId : PacketId) (now : ℕ) :
    Remembers sha256 (m.checkAndAdd sha256 formulas packetId now).1 packetId m.rotations := by
  refine Remembers.rotateIfNeeded ⟨le_rfl, ?_, ?_⟩ now
  · intro _
    exact m.primaryFilter.contains_add_self sha256 packetId
  · intro _
    exact isDuplicate_of_primary (BloomFilter.contains_add_self sha256 m.primaryFilter packetId)

theorem Remembers.checkAndAdd (h : Remembers sha256 m packetId r) (other : PacketId) (now : ℕ) :
    Remembers sha256 (m.checkAndAdd sha256 formulas other now).1 packetId r := by
  refine Remembers.rotateIfNeeded ⟨?_, ?_, ?_⟩ now
  · exact h.le
  · intro hsame
    exact BloomFilter.contains_add (h.primary hsame) other
  · intro hfew
    have hduplicate := h.either hfew
    rw [isDuplicate, Bool.or_eq_true] at hduplicate ⊢
    exact hduplicate.imp_left fun hcontains => BloomFilter.contains_add hcontains other

/-- Without a rotation, maintenance keeps the secondary filter or has the id in the primary. -/
theorem isDuplicate_of_not_drops (h : m.isDuplicate sha256 packetId = true)
    (hrotate : m.shouldRotateFilters formulas now = false)
    (hkept : ¬ Drops sha256 formulas m ⟨.maintain, now⟩ packetId) :
    isDuplicate sha256 { m with
      secondaryFilter := m.secondaryFilter.filter fun filter => ! filter.isExpired now }
      packetId = true := by
  cases hprimary : m.primaryFilter.contains sha256 packetId with
  | true => exact isDuplicate_of_primary hprimary
  | false =>
    have hfresh : ¬ (m.secondaryFilter.any fun filter => filter.isExpired now) = true := by
      intro hexpired
      exact hkept ⟨rfl, hexpired, hrotate, hprimary⟩
    rw [isDuplicate, hprimary, Bool.false_or] at h ⊢
    cases hsecondary : m.secondaryFilter with
    | none => simp [hsecondary] at h
    | some filter =>
      have hyoung : filter.isExpired now = false := by simpa [hsecondary] using hfresh
      simpa [hsecondary, Option.filter, hyoung] using h

theorem maintain_eq (formulas : BloomFormulas F) (m : DeduplicationManager F) (now : ℕ) :
    m.maintain formulas now =
      if m.shouldRotateFilters formulas now = true then
        DeduplicationManager.rotateFilters formulas { m with
          secondaryFilter := m.secondaryFilter.filter fun filter => ! filter.isExpired now } now
      else { m with
        secondaryFilter := m.secondaryFilter.filter fun filter => ! filter.isExpired now } := rfl

theorem Remembers.maintain (h : Remembers sha256 m packetId r)
    (hkept : m.rotations < r + 2 → ¬ Drops sha256 formulas m ⟨.maintain, now⟩ packetId) :
    Remembers sha256 (m.maintain formulas now) packetId r := by
  rw [maintain_eq]
  cases hrotate : m.shouldRotateFilters formulas now with
  | true =>
    rw [if_pos rfl]
    exact Remembers.rotateFilters h.le h.primary now
  | false =>
    rw [if_neg Bool.false_ne_true]
    refine ⟨h.le, h.primary, ?_⟩
    intro hfew
    exact isDuplicate_of_not_drops (h.either hfew) hrotate (hkept hfew)

/-- A call keeps what is remembered unless it drops it. -/
theorem Remembers.step (h : Remembers sha256 m packetId r)
    (hkept : m.rotations < r + 2 → ¬ Drops sha256 formulas m i packetId) :
    Remembers sha256 (step sha256 formulas m i).1 packetId r := by
  obtain ⟨call, now⟩ := i
  cases call with
  | checkAndAdd other => exact h.checkAndAdd other now
  | isDuplicate other => exact h
  | maintain => exact h.maintain hkept

/-! ## The whole run -/

theorem DropsNothingYoung.front {xs ys : List DedupInput}
    (h : DropsNothingYoung sha256 formulas m (xs ++ ys)) :
    DropsNothingYoung sha256 formulas m xs := by
  intro before add between i rest packetId heq
  exact h before add between i (rest ++ ys) packetId (by simp [heq])

theorem run_snoc (before between : List DedupInput) (add i : DedupInput) :
    run (step sha256 formulas) m (before ++ add :: (between ++ [i])) =
      (step sha256 formulas (run (step sha256 formulas) m (before ++ add :: between)) i).1 := by
  rw [← run_concat, List.append_assoc, List.cons_append]

/-- From the call that adds an id on, as long as nothing young is dropped. -/
theorem remembers_run {before between : List DedupInput} {add : DedupInput}
    (hadd : add.call = .checkAndAdd packetId)
    (hnothing : DropsNothingYoung sha256 formulas m (before ++ add :: between))
    (hyoung : ∀ i ∈ between, i.now ≤ add.now + bloomTtlMs) :
    Remembers sha256 (run (step sha256 formulas) m (before ++ add :: between)) packetId
      (run (step sha256 formulas) m before).rotations := by
  induction between using List.reverseRecOn with
  | nil =>
    obtain ⟨call, now⟩ := add
    obtain rfl : call = .checkAndAdd packetId := hadd
    rw [run_concat]
    exact Remembers.added sha256 formulas _ packetId now
  | append_singleton between i ih =>
    have hsplit : before ++ add :: (between ++ [i]) = (before ++ add :: between) ++ [i] := by
      rw [List.append_assoc, List.cons_append]
    have hfront : DropsNothingYoung sha256 formulas m (before ++ add :: between) :=
      (hsplit ▸ hnothing).front
    have hyoungs : ∀ j ∈ between, j.now ≤ add.now + bloomTtlMs := by
      intro j hj
      exact hyoung j (List.mem_append_left [i] hj)
    have hlast : i.now ≤ add.now + bloomTtlMs := hyoung i (by simp)
    rw [run_snoc]
    refine (ih hfront hyoungs).step ?_
    intro hfew
    exact hnothing before add between i [] packetId (by simp) hadd hlast hfew

/-- What a query answers. -/
theorem answer_of_asks (h : i.asks packetId) :
    (step sha256 formulas m i).2 = .duplicate (m.isDuplicate sha256 packetId) := by
  obtain ⟨call, now⟩ := i
  rcases h with rfl | rfl
  · rfl
  · rfl

/-- What maintenance drops is not reported any more. -/
theorem not_isDuplicate_of_drops (h : Drops sha256 formulas m i packetId) :
    (step sha256 formulas m i).1.isDuplicate sha256 packetId = false ∧
      (step sha256 formulas m i).1.rotations = m.rotations := by
  obtain ⟨call, now⟩ := i
  obtain ⟨rfl, hexpired, hrotate, hprimary⟩ := h
  rw [Option.any_eq_true] at hexpired
  obtain ⟨filter, hsecondary, hold⟩ := hexpired
  have hstep : (step sha256 formulas m ⟨.maintain, now⟩).1 = m.maintain formulas now := rfl
  rw [hstep, maintain_eq, if_neg (Bool.eq_false_iff.mp hrotate)]
  refine ⟨?_, rfl⟩
  simp [isDuplicate, hprimary, hsecondary, Option.filter, hold]

/-- An id is reported throughout its lifetime, until the second rotation, exactly if
maintenance never drops it while it is young. -/
theorem keepsAdded_iff (sha256 : Bytes → Key32) (formulas : BloomFormulas F)
    (m : DeduplicationManager F) (r : DedupRun) :
    KeepsAdded sha256 formulas m r.inputs ↔ DropsNothingYoung sha256 formulas m r.inputs := by
  constructor
  · intro h before add between i rest packetId heq hadd hyoung hfew hdrops
    obtain ⟨hlost, hrotations⟩ := not_isDuplicate_of_drops hdrops
    have hordered := r.ordered
    have hsplit : r.inputs = (before ++ add :: between) ++ i :: rest := by simp [heq]
    rw [hsplit, List.pairwise_append] at hordered
    have hbefore : ∀ j ∈ add :: (between ++ [i]), j.now ≤ i.now := by
      intro j hj
      rw [← List.cons_append, List.mem_append, List.mem_singleton] at hj
      rcases hj with hj | rfl
      · exact hordered.2.2 j (List.mem_append_right before hj) i List.mem_cons_self
      · exact le_rfl
    have hreported := h before add (between ++ [i]) rest packetId (by simp [heq]) hadd
      (by rw [run_snoc, hrotations]; exact hfew) ⟨.isDuplicate packetId, i.now⟩ (Or.inr rfl) hbefore
      hyoung
    rw [run_snoc, answer_of_asks (Or.inr rfl), hlost] at hreported
    cases hreported
  · intro h before add between rest packetId heq hadd hfew query hasks hbefore hyoung
    have hsplit : r.inputs = (before ++ add :: between) ++ rest := by simp [heq]
    have hfront : DropsNothingYoung sha256 formulas m (before ++ add :: between) :=
      (hsplit ▸ h).front
    have hyoungs : ∀ i ∈ between, i.now ≤ add.now + bloomTtlMs := by
      intro i hi
      exact (hbefore i (List.mem_cons_of_mem add hi)).trans hyoung
    rw [answer_of_asks hasks, (remembers_run hadd hfront hyoungs).either hfew]

/-- The formulas for 5 packets at a rate of 1/10. -/
def smallFormulas : BloomFormulas ℚ where
  optimalBitSize _ _ := 24
  optimalHashFunctions bitSize _ := if bitSize = 0 then 0 else 3
  isFull ones bitSize := 7 * bitSize < 10 * ones
  noBits _ := rfl

def zeroDigest (_ : Bytes) : Key32 := List.Vector.replicate 32 0

def somePacket : PacketId := ⟨List.Vector.replicate 32 7⟩

/-- A packet is added when the filter is 200 seconds old, and maintenance follows after five
minutes, twice. -/
def agedFilter : DedupRun where
  inputs := [⟨.checkAndAdd somePacket, 200000⟩, ⟨.maintain, 300001⟩, ⟨.maintain, 300002⟩]
  ordered := by decide

/-- After 101 seconds and one rotation the packet is taken for a new one. -/
theorem agedFilter_forgets :
    (step zeroDigest smallFormulas (run (step zeroDigest smallFormulas)
        (new smallFormulas 5 (1 / 10) 0) agedFilter.inputs)
        ⟨.checkAndAdd somePacket, 301000⟩).2 = .duplicate false ∧
      ¬ KeepsAdded zeroDigest smallFormulas (new smallFormulas 5 (1 / 10) 0)
        agedFilter.inputs := by
  have hnew : (step zeroDigest smallFormulas (run (step zeroDigest smallFormulas)
      (new smallFormulas 5 (1 / 10) 0) agedFilter.inputs)
      ⟨.checkAndAdd somePacket, 301000⟩).2 = .duplicate false := by decide
  refine ⟨hnew, ?_⟩
  intro h
  have hreported := h [] ⟨.checkAndAdd somePacket, 200000⟩
    [⟨.maintain, 300001⟩, ⟨.maintain, 300002⟩] [] somePacket rfl rfl (by decide)
    ⟨.checkAndAdd somePacket, 301000⟩ (Or.inl rfl) (by decide) (by decide)
  exact absurd (hnew.symm.trans hreported) (by decide)

end DeduplicationManager

end Bitchat
