import Bitchat.RateBounds

/-!
# The peer table of the rate limiter

A clean-up cuts the table down to its limit before the checked peer is entered. It
drops the least recently used peers, but a new peer then gets an entry on top.
-/
namespace Bitchat
open Rust

/-- The peer that a call is about. -/
def LimiterCall.peer : LimiterCall → Option PeerId
  | .message p => some p
  | .connection p => some p
  | .stats => none

namespace RateLimiter

variable {r cleaned : RateLimiter} {p q : PeerId} {instant : ℕ} {order : PeerOrder}
  {i : LimiterInput} {dropped kept limits : PeerLimits}

/-- The iteration order lists the entries of a table. -/
def Lists (order : PeerOrder) (entries : Map PeerId PeerLimits) : Prop :=
  ∀ p limits, (p, limits) ∈ order entries ↔ entries.lookup p = some limits

/-- The least recently used entries beyond the limit. -/
def excessPeers (r : RateLimiter) (instant : ℕ) (order : PeerOrder) : List PeerId :=
  (((order (r.recentPeers instant)).mergeSort fun a b => a.2.lastAccess ≤ b.2.lastAccess).take
    (Map.size (r.recentPeers instant) - r.config.maxTrackedPeers)).map Prod.fst

theorem cleanupOldPeers_eq (fits : ¬ 2 ^ 64 ≤ r.config.windowDurationSecs * 2) :
    r.cleanupOldPeers instant order = .ok { r with
      peerLimits := (r.excessPeers instant order).foldl
        (fun limits peerId => limits.erase peerId) (r.recentPeers instant) } :=
  if_neg fits

theorem lookup_recentPeers :
    (r.recentPeers instant).lookup p = some limits ↔ r.peerLimits.lookup p = some limits ∧
      instant - limits.lastAccess < r.config.windowDurationSecs * 2 * nanosPerSec := by
  rw [recentPeers, Map.mem_retain_entries, decide_eq_true_eq]

theorem lookup_cleaned (h : r.cleanupOldPeers instant order = .ok cleaned) (q : PeerId) :
    cleaned.peerLimits.lookup q =
      if q ∈ r.excessPeers instant order then none else (r.recentPeers instant).lookup q := by
  rw [cleanupOldPeers_eq (fits_of_cleanup h)] at h
  rw [← Except.ok.inj h]
  exact Map.lookup_foldl_erase _ _ q

/-- Of the recent entries, those that are dropped were not accessed after those that stay. -/
theorem lastAccess_le_of_excess (lists : Lists order (r.recentPeers instant))
    (hp : p ∈ r.excessPeers instant order) (hq : q ∉ r.excessPeers instant order)
    (known : (r.recentPeers instant).lookup p = some dropped)
    (stays : (r.recentPeers instant).lookup q = some kept) :
    dropped.lastAccess ≤ kept.lastAccess := by
  set byAccess := (order (r.recentPeers instant)).mergeSort
    fun a b => a.2.lastAccess ≤ b.2.lastAccess with hbyAccess
  set n := Map.size (r.recentPeers instant) - r.config.maxTrackedPeers with hn
  have sorted : byAccess.Pairwise fun a b => a.2.lastAccess ≤ b.2.lastAccess := by
    let notAfter (a b : PeerId × PeerLimits) : Bool := a.2.lastAccess ≤ b.2.lastAccess
    have trans (a b c : PeerId × PeerLimits) (hab : notAfter a b) (hbc : notAfter b c) :
        notAfter a c := by
      simp only [notAfter, decide_eq_true_eq] at hab hbc ⊢
      omega
    have total (a b : PeerId × PeerLimits) : notAfter a b || notAfter b a := by
      simp only [notAfter, Bool.or_eq_true, decide_eq_true_eq]
      omega
    have h : byAccess.Pairwise fun a b => notAfter a b :=
      List.pairwise_mergeSort trans total (order (r.recentPeers instant))
    simpa only [notAfter, decide_eq_true_eq] using h
  have listed : ∀ peer limits, (peer, limits) ∈ byAccess ↔
      (r.recentPeers instant).lookup peer = some limits := by
    intro peer limits
    rw [← lists peer limits]
    exact (List.mergeSort_perm _ _).mem_iff
  rw [← List.take_append_drop n byAccess] at sorted listed
  obtain ⟨⟨peer, limits⟩, taken, rfl⟩ := List.mem_map.mp hp
  have same := (listed peer limits).mp (List.mem_append_left _ taken)
  rw [known] at same
  cases Option.some.inj same
  have left : (q, kept) ∈ byAccess.drop n := by
    rcases List.mem_append.mp ((listed q kept).mpr stays) with first | rest
    · exact absurd (List.mem_map_of_mem first) hq
    · exact rest
  exact (List.pairwise_append.mp sorted).2.2 _ taken _ left

/-- A clean-up drops the peers that were accessed first. -/
theorem lastAccess_le_of_cleaned (lists : Lists order (r.recentPeers instant))
    (h : r.cleanupOldPeers instant order = .ok cleaned)
    (known : r.peerLimits.lookup p = some dropped) (gone : cleaned.peerLimits.lookup p = none)
    (stays : cleaned.peerLimits.lookup q = some kept) :
    dropped.lastAccess ≤ kept.lastAccess := by
  rw [lookup_cleaned h] at gone stays
  by_cases hq : q ∈ r.excessPeers instant order
  · rw [if_pos hq] at stays
    cases stays
  · rw [if_neg hq] at stays
    by_cases active : instant - dropped.lastAccess <
        r.config.windowDurationSecs * 2 * nanosPerSec
    · have recent := lookup_recentPeers.mpr ⟨known, active⟩
      by_cases hp : p ∈ r.excessPeers instant order
      · exact lastAccess_le_of_excess lists hp hq recent stays
      · rw [if_neg hp, recent] at gone
        cases gone
    · have kept_active := (lookup_recentPeers.mp stays).2
      omega

/-- The table after a call that does not get past the global window. -/
theorem peerLimits_step_of_full (full : ¬ r.ReachesCleanup i) :
    (r.step i).1.peerLimits = r.peerLimits := by
  obtain ⟨call, instant, order⟩ := i
  cases call with
  | message p =>
    have over_limit : r.config.globalMessagesPerWindow <
        (r.globalMessageWindow.addEvent instant).2 := by
      by_contra within
      apply full
      intro kind hkind
      cases hkind
      exact not_lt.mp within
    change (r.checkMessageAllowed p instant order).1.peerLimits = _
    rw [← checkMessageAllowed_eq, check_peerLimits (.inl over_limit)]
  | connection p =>
    have over_limit : r.config.globalConnectionsPerWindow <
        (r.globalConnectionWindow.addEvent instant).2 := by
      by_contra within
      apply full
      intro kind hkind
      cases hkind
      exact not_lt.mp within
    change (r.checkConnectionAllowed p instant order).1.peerLimits = _
    rw [← checkConnectionAllowed_eq, check_peerLimits (.inl over_limit)]
  | stats =>
    refine absurd ?_ full
    intro kind hkind
    cases hkind

/-- A check that gets past the global window enters its peer. -/
theorem check_enters {globalCount globalLimit peerLimit : ℕ} {kind : String}
    {addPeerEvent : PeerLimits → PeerLimits × ℕ} {after : RateLimiter × BitchatResult Unit}
    (hafter : check globalCount globalLimit peerLimit kind addPeerEvent r p instant order = after)
    (hadd : ∀ limits, (addPeerEvent limits).1.lastAccess = limits.lastAccess)
    (passed : globalCount ≤ globalLimit) (h : r.cleanupOldPeers instant order = .ok cleaned) :
    ∃ limits, limits.lastAccess = instant ∧
      after.1.peerLimits = cleaned.peerLimits.insert p limits := by
  refine ⟨(addPeerEvent { cleaned.limitsOf p instant with lastAccess := instant }).1,
    hadd _, ?_⟩
  simp only [← hafter, check, if_neg (not_lt.mpr passed), h, limitsOf]

/-- The table after a call that gets past the global window: cleaned, with the peer
that was checked. -/
theorem peerLimits_step (reaches : r.ReachesCleanup i)
    (h : r.cleanupOldPeers i.instant i.order = .ok cleaned) :
    (i.call.peer = none ∧ (r.step i).1.peerLimits = cleaned.peerLimits) ∨
      ∃ p limits, i.call.peer = some p ∧ limits.lastAccess = i.instant ∧
        (r.step i).1.peerLimits = cleaned.peerLimits.insert p limits := by
  obtain ⟨call, instant, order⟩ := i
  cases call with
  | message p =>
    have counted := cleanupOldPeers_counted h (r.globalMessageWindow.addEvent instant).1
    obtain ⟨limits, accessed, entered⟩ := check_enters (checkMessageAllowed_eq r p instant order)
      (fun _ => rfl) (reaches .message rfl) counted
    exact .inr ⟨p, limits, rfl, accessed, entered⟩
  | connection p =>
    have counted := cleanupOldPeers_withWindows r r.globalMessageWindow
      (r.globalConnectionWindow.addEvent instant).1 instant order
    rw [h] at counted
    obtain ⟨limits, accessed, entered⟩ :=
      check_enters (checkConnectionAllowed_eq r p instant order) (fun _ => rfl)
        (reaches .connection rfl) counted
    exact .inr ⟨p, limits, rfl, accessed, entered⟩
  | stats =>
    refine .inl ⟨rfl, ?_⟩
    change (r.getStats instant order).1.peerLimits = _
    rw [getStats, h]

/-- The peers that a call drops were not accessed after any that it keeps. -/
def EvictsOldest (r : RateLimiter) (i : LimiterInput) : Prop :=
  ∀ p q dropped kept, r.peerLimits.lookup p = some dropped →
    (r.step i).1.peerLimits.lookup p = none → (r.step i).1.peerLimits.lookup q = some kept →
      dropped.lastAccess ≤ kept.lastAccess

/-- No entry was accessed later than `now`. -/
def AccessedBy (now : ℕ) (r : RateLimiter) : Prop :=
  ∀ p limits, r.peerLimits.lookup p = some limits → limits.lastAccess ≤ now

variable (instant order) in
theorem cleanupOldPeers_of_fits (fits : r.config.windowDurationSecs * 2 < 2 ^ 64) :
    ∃ cleaned, r.cleanupOldPeers instant order = .ok cleaned :=
  ⟨_, cleanupOldPeers_eq (not_le.mpr fits)⟩

theorem AccessedBy.cleanUp {now : ℕ} (accessed : AccessedBy now r)
    (h : r.cleanupOldPeers instant order = .ok cleaned) : AccessedBy now cleaned := by
  intro p limits known
  rcases (cleanupOldPeers_frame h).2.2 p with same | gone
  · exact accessed p limits (same ▸ known)
  · cases gone.symm.trans known

theorem AccessedBy.step {now : ℕ} (accessed : AccessedBy now r) (past : i.instant ≤ now)
    (fits : r.config.windowDurationSecs * 2 < 2 ^ 64) : AccessedBy now (r.step i).1 := by
  by_cases reaches : r.ReachesCleanup i
  · obtain ⟨cleaned, h⟩ := cleanupOldPeers_of_fits i.instant i.order fits
    have accessedCleaned := accessed.cleanUp h
    rcases peerLimits_step reaches h with ⟨-, after⟩ | ⟨p, limits, -, accessedNow, after⟩
    · intro q limits known
      rw [after] at known
      exact accessedCleaned q limits known
    · intro q entry known
      rw [after, Map.lookup_insert_if] at known
      split_ifs at known
      · rw [← Option.some.inj known, accessedNow]
        exact past
      · exact accessedCleaned q entry known
  · rw [AccessedBy, peerLimits_step_of_full reaches]
    exact accessed

/-- Every step of a run in order finds entries of the past. -/
theorem along_accessedBy {config : RateLimitConfig} {inputs : List LimiterInput}
    (ordered : InOrder inputs) (fits : config.windowDurationSecs * 2 < 2 ^ 64) :
    Along step (fun r i => AccessedBy i.instant r) (new config) inputs := by
  rw [along_iff_forall]
  intro before i rest heq
  rw [heq] at ordered
  have past := (inOrder_concat.mp ordered.upTo).2
  refine (run_invariant (P := fun _ j => j.instant ≤ i.instant)
    (I := fun r => r.config = config ∧ AccessedBy i.instant r) ?_ ⟨rfl, ?_⟩
    (along_of_forall past)).2
  · intro r j ⟨sameConfig, accessed⟩ hj
    rw [← sameConfig] at fits
    exact ⟨(config_step r j).trans sameConfig, accessed.step hj fits⟩
  · intro p limits known
    cases known

theorem evictsOldest_step (fits : r.config.windowDurationSecs * 2 < 2 ^ 64)
    (accessed : AccessedBy i.instant r) (lists : Lists i.order (r.recentPeers i.instant)) :
    r.EvictsOldest i := by
  intro p q dropped kept known gone stays
  by_cases reaches : r.ReachesCleanup i
  · obtain ⟨cleaned, h⟩ := cleanupOldPeers_of_fits i.instant i.order fits
    rcases peerLimits_step reaches h with ⟨-, after⟩ | ⟨p', limits, -, accessedNow, after⟩
    · rw [after] at gone stays
      exact lastAccess_le_of_cleaned lists h known gone stays
    · rw [after, Map.lookup_insert_if] at gone stays
      split_ifs at gone with hp
      split_ifs at stays with hq
      · rw [← Option.some.inj stays, accessedNow]
        exact accessed p dropped known
      · exact lastAccess_le_of_cleaned lists h known gone stays
  · rw [peerLimits_step_of_full reaches, known] at gone
    cases gone

/-- A checked peer is one that was accessed within two windows, or there are fewer such
peers than may be tracked. -/
def HasRoom (r : RateLimiter) (i : LimiterInput) : Prop :=
  r.ReachesCleanup i → ∀ p, i.call.peer = some p →
    p ∈ r.recentPeers i.instant ∨ Map.size (r.recentPeers i.instant) < r.config.maxTrackedPeers

/-- A table within its limit is only cut down to the recent entries. -/
theorem cleaned_of_bounded (bounded : Map.size r.peerLimits ≤ r.config.maxTrackedPeers)
    (h : r.cleanupOldPeers instant order = .ok cleaned) :
    cleaned.peerLimits = r.recentPeers instant := by
  have few : Map.size (r.recentPeers instant) ≤ r.config.maxTrackedPeers :=
    (Map.size_retain_le _ _).trans bounded
  rw [cleanupOldPeers_eq (fits_of_cleanup h), excessPeers, Nat.sub_eq_zero_of_le few] at h
  rw [← Except.ok.inj h]
  rfl

/-- A call keeps the table within its limit exactly if there is room for its peer. -/
theorem size_step_le_iff (fits : r.config.windowDurationSecs * 2 < 2 ^ 64)
    (bounded : Map.size r.peerLimits ≤ r.config.maxTrackedPeers) :
    Map.size (r.step i).1.peerLimits ≤ r.config.maxTrackedPeers ↔ r.HasRoom i := by
  by_cases reaches : r.ReachesCleanup i
  · obtain ⟨cleaned, h⟩ := cleanupOldPeers_of_fits i.instant i.order fits
    have recent := cleaned_of_bounded bounded h
    have few : Map.size (r.recentPeers i.instant) ≤ r.config.maxTrackedPeers :=
      (Map.size_retain_le _ _).trans bounded
    rcases peerLimits_step reaches h with ⟨noPeer, after⟩ | ⟨p, limits, hpeer, -, after⟩
    · rw [after, recent]
      refine iff_of_true few ?_
      intro _ p hpeer
      cases noPeer.symm.trans hpeer
    · have room : r.HasRoom i ↔ p ∈ r.recentPeers i.instant ∨
          Map.size (r.recentPeers i.instant) < r.config.maxTrackedPeers := by
        simp [HasRoom, reaches, hpeer]
      rw [after, recent, room]
      by_cases tracked : p ∈ r.recentPeers i.instant
      · rw [Map.size_insert_of_mem limits tracked]
        exact iff_of_true few (.inl tracked)
      · rw [Map.size_insert_of_notMem limits tracked]
        simp only [tracked, false_or]
        omega
  · rw [peerLimits_step_of_full reaches]
    exact iff_of_true bounded fun h => absurd h reaches

/-- After the call the table is within its limit, and it lost the oldest entries only. -/
def KeepsLru (r : RateLimiter) (i : LimiterInput) : Prop :=
  Map.size (r.step i).1.peerLimits ≤ r.config.maxTrackedPeers ∧ r.EvictsOldest i

/-- The peer table is a bounded table with eviction of the least recently used peers
exactly in the runs whose checks all find room for their peer. -/
theorem keepsLru_iff_hasRoom (config : RateLimitConfig) (inputs : List LimiterInput)
    (ordered : InOrder inputs) (fits : config.windowDurationSecs * 2 < 2 ^ 64)
    (listed : Along step (fun r i => Lists i.order (r.recentPeers i.instant)) (new config)
      inputs) :
    Along step KeepsLru (new config) inputs ↔ Along step HasRoom (new config) inputs := by
  have given : Along step (fun r i => AccessedBy i.instant r ∧
      Lists i.order (r.recentPeers i.instant)) (new config) inputs := by
    have accessed := along_accessedBy ordered fits
    rw [along_iff_forall] at accessed listed ⊢
    intro before i rest heq
    exact ⟨accessed before i rest heq, listed before i rest heq⟩
  have bounded : Map.size (new config).peerLimits ≤ config.maxTrackedPeers := by
    rw [new, Map.size_empty]
    exact Nat.zero_le _
  refine along_iff (I := fun r => r.config = config ∧
    Map.size r.peerLimits ≤ config.maxTrackedPeers) ?_ ?_ ⟨rfl, bounded⟩ given
  · intro r i ⟨sameConfig, bounded⟩ _ room
    rw [← sameConfig] at fits bounded ⊢
    exact ⟨config_step r i, (size_step_le_iff fits bounded).mpr room⟩
  · intro r i ⟨sameConfig, bounded⟩ ⟨accessed, lists⟩
    rw [← sameConfig] at fits bounded
    rw [KeepsLru, size_step_le_iff fits bounded]
    exact and_iff_left (evictsOldest_step fits accessed lists)

theorem lists_twoPeers {entries : Map PeerId PeerLimits}
    (only : ∀ p ∈ entries.keys, p ∈ [floodingPeer, quietPeer]) : Lists twoPeers entries := by
  intro p limits
  constructor
  · intro listed
    obtain ⟨q, _, hq⟩ := List.mem_filterMap.mp listed
    obtain ⟨found, known, heq⟩ := Option.map_eq_some_iff.mp hq
    cases heq
    exact known
  · intro known
    refine List.mem_filterMap.mpr ⟨p, only p (Map.mem_keys_iff.mpr ⟨limits, known⟩), ?_⟩
    rw [known]
    rfl

/-- With room for a thousand peers both messages are entered and nothing is dropped. -/
theorem crowding_keepsLru : Along step KeepsLru (new RateLimitConfig.default) crowding := by
  apply (keepsLru_iff_hasRoom RateLimitConfig.default crowding (by simp [InOrder, crowding,
    messageAt, nanosPerSec]) (by decide) ?_).mpr
  · exact ⟨fun _ _ _ => .inr (by decide), fun _ _ _ => .inr (by decide), trivial⟩
  · exact ⟨lists_twoPeers (by decide), lists_twoPeers (by decide), trivial⟩

/-- Two peers are tracked after one message each, though there is room for one. -/
theorem crowding_exceeds_limit :
    InOrder crowding ∧ 1 ≤ onePeerConfig.maxTrackedPeers ∧
      onePeerConfig.windowDurationSecs * 2 < 2 ^ 64 ∧
      Map.size crowdedLimiter.peerLimits = 2 ∧
      ¬ Along step KeepsLru (new onePeerConfig) crowding := by
  refine ⟨by simp [InOrder, crowding, messageAt, nanosPerSec], by decide, by decide, by decide, ?_⟩
  intro keeps
  exact absurd keeps.2.1.1 (by decide)

end RateLimiter

end Bitchat
