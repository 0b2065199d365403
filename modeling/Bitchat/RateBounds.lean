import Bitchat.RateWindows
import Bitchat.Rust.Run

/-!
# The bounds that the rate limiter keeps

The global windows hold all calls of their kind; the window of a peer holds those
that passed the global limit since the peer's entry was made. So the calls that
are accepted in any interval of the window's length are within the limits.
-/
namespace Bitchat
open Rust

namespace RateLimiter

variable {r cleaned : RateLimiter} {p q : PeerId} {instant : ℕ} {order : PeerOrder}

/-- The times of the calls that `on` selects. -/
def sentTimes (on : LimiterCall → Bool) (inputs : List LimiterInput) : List ℕ :=
  (inputs.filter fun i => on i.call).map LimiterInput.instant

/-- The times of those that are accepted in a run. -/
def acceptedTimes (on : LimiterCall → Bool) (r : RateLimiter) (inputs : List LimiterInput) :
    List ℕ :=
  collected step (fun i answer => if on i.call && answer.accepted then some i.instant else none)
    r inputs

/-- The calls come at non-decreasing times. -/
def InOrder (inputs : List LimiterInput) : Prop :=
  (inputs.map LimiterInput.instant).Pairwise (· ≤ ·)

variable {on : LimiterCall → Bool} {inputs before : List LimiterInput}

theorem sentTimes_concat (i : LimiterInput) :
    sentTimes on (before ++ [i]) =
      sentTimes on before ++ if on i.call then [i.instant] else [] := by
  by_cases h : on i.call = true <;> simp [sentTimes, h]

theorem acceptedTimes_concat (r : RateLimiter) (i : LimiterInput) :
    acceptedTimes on r (before ++ [i]) = acceptedTimes on r before ++
      if on i.call && ((run step r before).step i).2.accepted then [i.instant] else [] := by
  rw [acceptedTimes, collected_concat]
  split_ifs <;> rfl

theorem acceptedTimes_sublist (r : RateLimiter) :
    (acceptedTimes on r inputs).Sublist (sentTimes on inputs) := by
  induction inputs using List.reverseRecOn with
  | nil => exact .refl []
  | append_singleton before i ih =>
    rw [acceptedTimes_concat, sentTimes_concat]
    apply ih.append
    by_cases h : on i.call = true
    · rw [if_pos h]
      split_ifs
      · exact .refl _
      · exact List.nil_sublist _
    · simp [h]

theorem sentTimes_le {now : ℕ} (h : ∀ i ∈ inputs, i.instant ≤ now) :
    ∀ e ∈ sentTimes on inputs, e ≤ now := by
  intro e he
  obtain ⟨i, hi, rfl⟩ := List.mem_map.mp he
  exact h i (List.mem_of_mem_filter hi)

theorem inOrder_concat {i : LimiterInput} :
    InOrder (before ++ [i]) ↔ InOrder before ∧ ∀ j ∈ before, j.instant ≤ i.instant := by
  simp [InOrder, List.pairwise_append]

theorem InOrder.of_append {rest : List LimiterInput} (h : InOrder (before ++ rest)) :
    InOrder before := by
  rw [InOrder, List.map_append] at h
  exact (List.pairwise_append.mp h).1

theorem InOrder.upTo {i : LimiterInput} {rest : List LimiterInput}
    (h : InOrder (before ++ i :: rest)) : InOrder (before ++ [i]) := by
  have split : InOrder ((before ++ [i]) ++ rest) := by simpa using h
  exact split.of_append

theorem config_run (r : RateLimiter) (inputs : List LimiterInput) :
    (run step r inputs).config = r.config := by
  induction inputs generalizing r with
  | nil => rfl
  | cons i rest ih => rw [run_cons, ih, config_step]

/-- If every accepted call finds fewer than the limit before it in its window, the
accepted calls of any interval of that length are within the limit. -/
theorem intervalCount_acceptedTimes_le {limit span : ℕ}
    (h : ∀ before i rest, inputs = before ++ i :: rest → on i.call = true →
      ((run step r before).step i).2.accepted = true →
        recentCount span i.instant (acceptedTimes on r before) + 1 ≤ limit) (start : ℕ) :
    intervalCount start span (acceptedTimes on r inputs) ≤ limit := by
  apply intervalCount_le
  intro times e rest hsplit
  obtain ⟨before, i, later, heq, rfl, hpick⟩ := collected_split hsplit
  split_ifs at hpick with hpicked
  obtain ⟨hon, accepted⟩ := Bool.and_eq_true_iff.mp hpicked
  cases hpick
  rw [recentCount_append, recentCount_singleton, if_pos (Nat.le_add_right _ _)]
  exact h before i later heq hon accepted

section

variable (config : RateLimitConfig)

/-- The calls of a kind. -/
def ofKind (kind : LimitedKind) (call : LimiterCall) : Bool := call.kind = some kind

theorem ofKind_iff {kind : LimitedKind} {call : LimiterCall} :
    ofKind kind call = true ↔ call.kind = some kind := decide_eq_true_iff

/-- A global window holds all calls of its kind. -/
theorem globalWindow_holds (kind : LimitedKind) (ordered : InOrder inputs) {now : ℕ}
    (past : ∀ i ∈ inputs, i.instant ≤ now) :
    ((run step (new config) inputs).globalWindow kind).span = config.span ∧
      ((run step (new config) inputs).globalWindow kind).Holds now
        (sentTimes (ofKind kind) inputs) (sentTimes (ofKind kind) inputs) := by
  induction inputs using List.reverseRecOn generalizing now with
  | nil => cases kind <;> exact ⟨rfl, Rust.Holds.empty _ _ _⟩
  | append_singleton before i ih =>
    obtain ⟨orderedBefore, pastBefore⟩ := inOrder_concat.mp ordered
    obtain ⟨span, holds⟩ := ih orderedBefore pastBefore
    have present : i.instant ≤ now := past i (by simp)
    rw [run_concat, sentTimes_concat]
    by_cases h : i.call.kind = some kind
    · rw [globalWindow_step h, if_pos (ofKind_iff.mpr h)]
      exact ⟨span, Rust.Holds.advance holds.addEvent present⟩
    · rw [if_neg (mt ofKind_iff.mp h), List.append_nil]
      rcases globalWindow_step_of_other h with same | cleaned
      · rw [same]
        exact ⟨span, Rust.Holds.advance holds present⟩
      · rw [cleaned]
        exact ⟨span, Rust.Holds.advance holds.cleanup present⟩

/-- Fewer than 2^32 calls in any interval of the window's length. -/
def FewIn (on : LimiterCall → Bool) (inputs : List LimiterInput) : Prop :=
  ∀ start, intervalCount start config.span (sentTimes on inputs) < 2 ^ 32

variable {config}

/-- A call has fewer than 2^32 before it in its window, itself included. -/
theorem FewIn.recentCount {i : LimiterInput} {rest : List LimiterInput}
    (few : FewIn config on (before ++ i :: rest)) (ordered : InOrder (before ++ i :: rest))
    (hon : on i.call = true) :
    recentCount config.span i.instant (sentTimes on before) + 1 < 2 ^ 32 := by
  have past : ∀ j ∈ before ++ [i], j.instant ≤ i.instant := by
    intro j hj
    rcases List.mem_append.mp hj with hj | hj
    · exact (inOrder_concat.mp ordered.upTo).2 j hj
    · rw [List.mem_singleton.mp hj]
  have here : sentTimes on (before ++ [i]) = sentTimes on before ++ [i.instant] := by
    rw [sentTimes_concat, if_pos hon]
  have part : (sentTimes on (before ++ [i])).Sublist (sentTimes on (before ++ i :: rest)) := by
    refine ((List.Sublist.refl before).append ?_).filter _ |>.map _
    exact List.singleton_sublist.mpr List.mem_cons_self
  calc
    Rust.recentCount config.span i.instant (sentTimes on before) + 1
        = Rust.recentCount config.span i.instant (sentTimes on (before ++ [i])) := by
          simp [here]
    _ ≤ intervalCount (i.instant - config.span) config.span (sentTimes on (before ++ [i])) :=
        recentCount_le_intervalCount (sentTimes_le past)
    _ ≤ intervalCount (i.instant - config.span) config.span
          (sentTimes on (before ++ i :: rest)) := intervalCount_sublist part
    _ < 2 ^ 32 := few _

/-- The bound on the calls of one kind. -/
theorem global_bound (kind : LimitedKind) (ordered : InOrder inputs)
    (few : FewIn config (ofKind kind) inputs) (start : ℕ) :
    intervalCount start config.span (acceptedTimes (ofKind kind) (new config) inputs) ≤
      config.globalLimit kind := by
  apply intervalCount_acceptedTimes_le
  intro before i rest heq hon accepted
  subst heq
  have hkind := ofKind_iff.mp hon
  have past := (inOrder_concat.mp ordered.upTo).2
  obtain ⟨span, holds⟩ := globalWindow_holds config kind ordered.of_append past
  have within := globalCount_of_accepted hkind accepted
  have count := (holds.count_addEvent (by rw [span]; exact few.recentCount ordered hon)).1
  have fewer : Rust.recentCount config.span i.instant
      (acceptedTimes (ofKind kind) (new config) before) ≤
        Rust.recentCount config.span i.instant (sentTimes (ofKind kind) before) :=
    recentCount_sublist (acceptedTimes_sublist (new config))
  rw [span] at count
  rw [config_run] at within
  exact (Nat.succ_le_succ fewer).trans (count.trans within)

end

/-- No closed interval of the window's length has more accepted messages or
connections than the global limits, whatever peers they come from. -/
theorem global_rate_bound (config : RateLimitConfig) (inputs : List LimiterInput)
    (ordered : InOrder inputs) (fewMessages : FewIn config (ofKind .message) inputs)
    (fewConnections : FewIn config (ofKind .connection) inputs) (start : ℕ) :
    intervalCount start config.span (acceptedTimes (ofKind .message) (new config) inputs) ≤
        config.globalMessagesPerWindow ∧
      intervalCount start config.span (acceptedTimes (ofKind .connection) (new config) inputs) ≤
        config.globalConnectionsPerWindow :=
  ⟨global_bound .message ordered fewMessages start,
    global_bound .connection ordered fewConnections start⟩

def floodingPeer : PeerId := ⟨List.Vector.replicate 8 1⟩

def quietPeer : PeerId := ⟨List.Vector.replicate 8 2⟩

/-- The entries of the two peers, in this order. -/
def twoPeers : PeerOrder := fun entries =>
  [floodingPeer, quietPeer].filterMap fun p => (entries.lookup p).map fun limits => (p, limits)

def messageAt (p : PeerId) (instant : ℕ) : LimiterInput := ⟨.message p, instant, twoPeers⟩

/-- Two messages of a peer, one second apart. -/
def twoMessages : List LimiterInput :=
  [messageAt floodingPeer 0, messageAt floodingPeer nanosPerSec]

theorem fewIn_of_length {config : RateLimitConfig} {on : LimiterCall → Bool}
    {inputs : List LimiterInput} (h : inputs.length < 2 ^ 32) : FewIn config on inputs := by
  intro start
  refine lt_of_le_of_lt List.countP_le_length ?_
  rw [sentTimes, List.length_map]
  exact lt_of_le_of_lt (List.length_filter_le _ _) h

theorem twoMessages_global_bound :
    intervalCount 0 RateLimitConfig.default.span
        (acceptedTimes (ofKind .message) (new RateLimitConfig.default) twoMessages) ≤ 1000 ∧
      intervalCount 0 RateLimitConfig.default.span
        (acceptedTimes (ofKind .connection) (new RateLimitConfig.default) twoMessages) ≤ 100 :=
  global_rate_bound RateLimitConfig.default twoMessages
    (by simp [InOrder, twoMessages, messageAt]) (fewIn_of_length (by decide))
    (fewIn_of_length (by decide)) 0

/-- The messages of a peer. -/
def messageOf (p : PeerId) (call : LimiterCall) : Bool := call = .message p

theorem messageOf_iff {call : LimiterCall} : messageOf p call = true ↔ call = .message p :=
  decide_eq_true_iff

theorem CleanedWindow.holds {w : EventWindow} {lower upper : List ℕ}
    (h : CleanedWindow p r instant w)
    (span : (r.messageWindowOf p).span = r.config.span)
    (holds : (r.messageWindowOf p).Holds instant lower upper) :
    w.span = r.config.span ∧ w.Holds instant lower upper := by
  rcases h with rfl | ⟨rfl, old⟩
  · exact ⟨span, holds⟩
  · unfold EventWindow.Holds at holds
    rw [span] at holds
    exact ⟨rfl, holds.drop old⟩

section

variable {config : RateLimitConfig}

/-- A peer's window holds at least its accepted messages and at most all it sent,
as long as its entry is not dropped with recent messages. -/
theorem messageWindowOf_holds (ordered : InOrder inputs)
    (keeps : Along step (KeepsRecent p) (new config) inputs) {now : ℕ}
    (past : ∀ i ∈ inputs, i.instant ≤ now) :
    ((run step (new config) inputs).messageWindowOf p).span = config.span ∧
      ((run step (new config) inputs).messageWindowOf p).Holds now
        (acceptedTimes (messageOf p) (new config) inputs) (sentTimes (messageOf p) inputs) := by
  induction inputs using List.reverseRecOn generalizing now with
  | nil => exact ⟨rfl, Rust.Holds.empty _ _ _⟩
  | append_singleton before i ih =>
    obtain ⟨orderedBefore, pastBefore⟩ := inOrder_concat.mp ordered
    obtain ⟨keepsBefore, keepsHere, _⟩ := along_append.mp keeps
    obtain ⟨span, holds⟩ := ih orderedBefore keepsBefore pastBefore
    have present : i.instant ≤ now := past i (by simp)
    have sameConfig : (run step (new config) before).config = config := config_run _ _
    obtain ⟨w, cleaned, moved⟩ := messageWindowOf_step keepsHere
    obtain ⟨spanW, holdsW⟩ := cleaned.holds (by rw [span, sameConfig]) holds
    rw [sameConfig] at spanW
    rw [run_concat, sentTimes_concat, acceptedTimes_concat]
    rcases moved with ⟨same, refused⟩ | ⟨isMessage, added, _⟩
    · -- nothing was added to the window, and nothing was accepted
      rw [same]
      refine ⟨spanW, (Rust.Holds.weaken holdsW ?_ ?_).advance present⟩
      · by_cases hp : i.call = .message p
        · simp [refused hp]
        · simp [mt messageOf_iff.mp hp]
      · exact List.sublist_append_left _ _
    · rw [added, if_pos (messageOf_iff.mpr isMessage)]
      refine ⟨spanW, (Rust.Holds.weaken holdsW.addEvent ?_ (.refl _)).advance present⟩
      apply (List.Sublist.refl _).append
      split_ifs
      · exact .refl _
      · exact List.nil_sublist _

/-- In every run in which the peer's entry is not dropped while it holds messages of
the window, no closed interval of the window's length has more accepted messages of
the peer than its limit. -/
theorem peer_rate_bound (p : PeerId) (inputs : List LimiterInput) (ordered : InOrder inputs)
    (few : FewIn config (messageOf p) inputs)
    (keeps : Along step (KeepsRecent p) (new config) inputs) (start : ℕ) :
    intervalCount start config.span (acceptedTimes (messageOf p) (new config) inputs) ≤
      config.messagesPerPeerPerWindow := by
  apply intervalCount_acceptedTimes_le
  intro before i rest heq hon accepted
  subst heq
  obtain ⟨keepsBefore, keepsHere, _⟩ := along_append.mp keeps
  have past := (inOrder_concat.mp ordered.upTo).2
  have sameConfig : (run step (new config) before).config = config := config_run _ _
  obtain ⟨span, holds⟩ := messageWindowOf_holds ordered.of_append keepsBefore past
  obtain ⟨w, cleaned, moved⟩ := messageWindowOf_step keepsHere
  obtain ⟨spanW, holdsW⟩ := cleaned.holds (by rw [span, sameConfig]) holds
  rw [sameConfig] at spanW
  rcases moved with ⟨_, refused⟩ | ⟨_, _, within⟩
  · rw [refused (messageOf_iff.mp hon)] at accepted
    cases accepted
  · have count := (holdsW.count_addEvent (by
      rw [spanW]; exact few.recentCount ordered hon)).1
    rw [spanW] at count
    rw [sameConfig] at within
    exact count.trans (within accepted)

end

theorem twoMessages_peer_bound :
    intervalCount 0 RateLimitConfig.default.span
      (acceptedTimes (messageOf floodingPeer) (new RateLimitConfig.default) twoMessages) ≤ 50 := by
  apply peer_rate_bound floodingPeer twoMessages (by simp [InOrder, twoMessages, messageAt])
    (fewIn_of_length (by decide))
  refine ⟨?_, ?_, trivial⟩
  · intro _ cleaned limits _ known
    cases known
  · intro _ cleaned limits hclean _ gone
    cases hclean
    cases gone

theorem cleanupOldPeers_counted (h : r.cleanupOldPeers instant order = .ok cleaned)
    (w : EventWindow) :
    cleanupOldPeers { r with globalMessageWindow := w } instant order =
      .ok { cleaned with
        globalMessageWindow := w, globalConnectionWindow := r.globalConnectionWindow } := by
  rw [cleanupOldPeers_withWindows, h]
  rfl

/-- A message is accepted when neither the global window nor that of its peer is full. -/
theorem message_accepted
    (global : (r.globalMessageWindow.addEvent instant).2 ≤ r.config.globalMessagesPerWindow)
    (h : r.cleanupOldPeers instant order = .ok cleaned)
    (within : ((cleaned.messageWindowOf p).addEvent instant).2 ≤
      r.config.messagesPerPeerPerWindow) :
    (r.step ⟨.message p, instant, order⟩).2.accepted = true := by
  have accepted : (r.checkMessageAllowed p instant order).2 = .ok () := by
    rw [← checkMessageAllowed_eq, check_eq_ok]
    refine ⟨global, _, cleanupOldPeers_counted h _, ?_⟩
    rw [← messageWindow_limitsOf cleaned p instant] at within
    exact within
  exact accepted_checked.mpr accepted

/-- The entries after a message that the global window lets pass. -/
theorem lookup_step_message
    (global : (r.globalMessageWindow.addEvent instant).2 ≤ r.config.globalMessagesPerWindow)
    (h : r.cleanupOldPeers instant order = .ok cleaned) (q : PeerId) :
    (r.step ⟨.message p, instant, order⟩).1.peerLimits.lookup q =
      if q = p then
        some (addMessageEvent instant { cleaned.limitsOf p instant with lastAccess := instant }).1
      else cleaned.peerLimits.lookup q :=
  check_lookup global (cleanupOldPeers_counted h _) q

def onePeerConfig : RateLimitConfig := { RateLimitConfig.default with
  messagesPerPeerPerWindow := 1
  maxTrackedPeers := 1 }

/-- One message each of two peers. -/
def crowding : List LimiterInput := [messageAt floodingPeer 0, messageAt quietPeer nanosPerSec]

/-- A limiter with an entry more than it may keep. -/
def crowdedLimiter : RateLimiter := run step (new onePeerConfig) crowding

def evictingRun : List LimiterInput := crowding ++ [messageAt floodingPeer (2 * nanosPerSec)]

/-- The entries that were active within two windows. -/
def recentPeers (r : RateLimiter) (instant : ℕ) : Map PeerId PeerLimits :=
  Map.retain (fun _ limits => instant - limits.lastAccess <
    r.config.windowDurationSecs * 2 * nanosPerSec) r.peerLimits

/-- Of a table that is listed by age the first entries are dropped. -/
def dropFirst (recent : Map PeerId PeerLimits) (order : PeerOrder) (limit : ℕ) :
    Map PeerId PeerLimits :=
  (((order recent).take (Map.size recent - limit)).map Prod.fst).foldl
    (fun limits peerId => limits.erase peerId) recent

theorem cleanupOldPeers_of_pairwise (fits : ¬ 2 ^ 64 ≤ r.config.windowDurationSecs * 2)
    (byAge : (order (r.recentPeers instant)).Pairwise fun a b =>
      a.2.lastAccess ≤ b.2.lastAccess) :
    r.cleanupOldPeers instant order = .ok { r with
      peerLimits := dropFirst (r.recentPeers instant) order r.config.maxTrackedPeers } := by
  have sorted : (order (r.recentPeers instant)).mergeSort
      (fun a b => a.2.lastAccess ≤ b.2.lastAccess) = order (r.recentPeers instant) := by
    apply List.mergeSort_of_pairwise
    simpa using byAge
  rw [cleanupOldPeers, if_neg fits]
  simp only [recentPeers] at sorted
  simp only [recentPeers, dropFirst, sorted]

/-- A peer that may send nothing, with a global limit that is never reached. -/
def silencingConfig : RateLimitConfig := { RateLimitConfig.default with
  messagesPerPeerPerWindow := 0
  globalMessagesPerWindow := 2 ^ 32 - 1 }

/-- The limiter after `n` messages of the flooding peer at one instant. -/
structure Flooded (n : ℕ) (r : RateLimiter) : Prop where
  config : r.config = silencingConfig
  only : ∀ q limits, r.peerLimits.lookup q = some limits → q = floodingPeer ∧ limits.lastAccess = 0
  span : (r.messageWindowOf floodingPeer).span = silencingConfig.span
  events : (r.messageWindowOf floodingPeer).events = List.replicate n 0

theorem dropOld_replicate (span n : ℕ) :
    dropOld span 0 (List.replicate n 0) = List.replicate n 0 := by
  cases n with
  | zero => rfl
  | succ n => rfl

section

variable {n : ℕ}

theorem Flooded.size_le (h : Flooded n r) : Map.size r.peerLimits ≤ r.config.maxTrackedPeers := by
  have one : Map.size r.peerLimits ≤ 1 := by
    apply Finset.card_le_one.mpr
    intro p hp q hq
    obtain ⟨limits, hp⟩ := Map.mem_keys_iff.mp hp
    obtain ⟨limits', hq⟩ := Map.mem_keys_iff.mp hq
    rw [(h.only p limits hp).1, (h.only q limits' hq).1]
  rw [h.config]
  exact one.trans (by decide)

/-- The clean-up leaves the entry of the peer alone. -/
theorem Flooded.cleanup (h : Flooded n r) :
    ∃ cleaned, r.cleanupOldPeers 0 twoPeers = .ok cleaned ∧ Flooded n cleaned := by
  have fits : ¬ 2 ^ 64 ≤ r.config.windowDurationSecs * 2 := by
    rw [h.config]
    decide
  obtain ⟨cleaned, hclean⟩ : ∃ cleaned, r.cleanupOldPeers 0 twoPeers = .ok cleaned :=
    ⟨_, if_neg fits⟩
  obtain ⟨config, _, entries⟩ := cleanupOldPeers_frame hclean
  have same : cleaned.peerLimits.lookup floodingPeer = r.peerLimits.lookup floodingPeer := by
    cases known : r.peerLimits.lookup floodingPeer with
    | none =>
      rcases entries floodingPeer with same | gone
      · rw [same, known]
      · exact gone
    | some limits =>
      apply lookup_cleanupOldPeers hclean h.size_le known
      rw [(h.only floodingPeer limits known).2, h.config]
      decide
  have window := messageWindowOf_eq config same
  refine ⟨cleaned, hclean, config.trans h.config, ?_, ?_, ?_⟩
  · intro q limits hq
    rcases entries q with same | gone
    · exact h.only q limits (same.symm.trans hq)
    · cases gone.symm.trans hq
  · rw [window, h.span]
  · rw [window, h.events]

/-- One more message is accepted only when the count wraps. -/
theorem Flooded.step (h : Flooded n r) :
    Flooded (n + 1) (r.step (messageAt floodingPeer 0)).1 ∧
      KeepsRecent floodingPeer r (messageAt floodingPeer 0) ∧
      ((n + 1) % 2 ^ 32 = 0 →
        (r.step (messageAt floodingPeer 0)).2.accepted = true) := by
  obtain ⟨cleaned, hclean, flooded⟩ := h.cleanup
  have global : (r.globalMessageWindow.addEvent 0).2 ≤ r.config.globalMessagesPerWindow := by
    rw [EventWindow.count_addEvent, h.config]
    exact Nat.le_pred_of_lt (Nat.mod_lt _ (by decide))
  have entries : ∀ q, (r.step (messageAt floodingPeer 0)).1.peerLimits.lookup q =
      if q = floodingPeer then
        some (addMessageEvent 0 { cleaned.limitsOf floodingPeer 0 with lastAccess := 0 }).1
      else cleaned.peerLimits.lookup q := fun q => lookup_step_message global hclean q
  have window : (r.step (messageAt floodingPeer 0)).1.messageWindowOf floodingPeer =
      ((cleaned.messageWindowOf floodingPeer).addEvent 0).1 := by
    rw [← messageWindow_limitsOf cleaned floodingPeer 0]
    simp only [messageWindowOf, entries, if_pos]
    rfl
  have kept : ((cleaned.messageWindowOf floodingPeer).cleanupOldEvents 0).events =
      List.replicate n 0 := by
    rw [EventWindow.events_cleanupOldEvents, flooded.events, dropOld_replicate]
  refine ⟨⟨(config_step r _).trans h.config, ?_, ?_, ?_⟩, ?_, ?_⟩
  · intro q limits hq
    rw [entries q] at hq
    by_cases hp : q = floodingPeer
    · rw [if_pos hp] at hq
      rw [← Option.some.inj hq]
      exact ⟨hp, rfl⟩
    · rw [if_neg hp] at hq
      exact flooded.only q limits hq
  · rw [window, EventWindow.span_addEvent, flooded.span]
  · rw [window, EventWindow.events_addEvent, kept, List.replicate_succ']
  · intro _ cleaned' limits hclean' known gone
    rw [← Except.ok.inj (hclean.symm.trans hclean'),
      lookup_cleanupOldPeers hclean h.size_le known ?_] at gone
    · cases gone
    · rw [(h.only floodingPeer limits known).2, h.config]
      decide
  · intro wraps
    apply message_accepted global hclean
    rw [EventWindow.count_addEvent, kept, List.length_replicate, wraps]
    exact Nat.zero_le _

theorem flooded_run (n : ℕ) :
    Flooded n (run RateLimiter.step (new silencingConfig)
      (List.replicate n (messageAt floodingPeer 0))) ∧
    Along RateLimiter.step (KeepsRecent floodingPeer) (new silencingConfig)
      (List.replicate n (messageAt floodingPeer 0)) := by
  induction n with
  | zero =>
    refine ⟨⟨rfl, ?_, rfl, rfl⟩, trivial⟩
    intro q limits h
    cases h
  | succ n ih =>
    obtain ⟨flooded, keeps⟩ := ih
    rw [List.replicate_succ', run_concat, along_append]
    exact ⟨flooded.step.1, keeps, flooded.step.2.1, trivial⟩

/-- When the count wraps, a message is accepted that is over the limit. -/
theorem wrapped_limit_exceeded (wraps : (n + 1) % 2 ^ 32 = 0) :
    ∃ inputs, InOrder inputs ∧
      Along RateLimiter.step (KeepsRecent floodingPeer) (new silencingConfig) inputs ∧
      ¬ intervalCount 0 silencingConfig.span
        (acceptedTimes (messageOf floodingPeer) (new silencingConfig) inputs) ≤
          silencingConfig.messagesPerPeerPerWindow := by
  refine ⟨List.replicate (n + 1) (messageAt floodingPeer 0), ?_, (flooded_run (n + 1)).2, ?_⟩
  · rw [InOrder, List.map_replicate]
    exact List.pairwise_replicate.mpr (.inr le_rfl)
  · have accepted := (flooded_run n).1.step.2.2 wraps
    rw [List.replicate_succ', acceptedTimes_concat, accepted]
    have last : intervalCount 0 silencingConfig.span [0] = 1 := by simp [intervalCount]
    change ¬ intervalCount 0 silencingConfig.span (_ ++ [0]) ≤ 0
    rw [intervalCount, List.countP_append]
    rw [intervalCount] at last
    omega

end

/-- The peer is accepted twice within two seconds, since its entry was evicted. And
without evictions a limit of none is exceeded once the count has wrapped. -/
theorem peer_limit_exceeded :
    (InOrder evictingRun ∧
      ¬ intervalCount 0 onePeerConfig.span
        (acceptedTimes (messageOf floodingPeer) (new onePeerConfig) evictingRun) ≤
          onePeerConfig.messagesPerPeerPerWindow) ∧
    ∃ inputs, InOrder inputs ∧
      Along step (KeepsRecent floodingPeer) (new silencingConfig) inputs ∧
      ¬ intervalCount 0 silencingConfig.span
        (acceptedTimes (messageOf floodingPeer) (new silencingConfig) inputs) ≤
          silencingConfig.messagesPerPeerPerWindow := by
  have byAge : (twoPeers (crowdedLimiter.recentPeers (2 * nanosPerSec))).Pairwise
      fun a b => a.2.lastAccess ≤ b.2.lastAccess := by decide
  have cleaned := cleanupOldPeers_of_pairwise (by decide) byAge
  have accepted : (crowdedLimiter.step
      (messageAt floodingPeer (2 * nanosPerSec))).2.accepted = true :=
    message_accepted (by decide) cleaned (by decide)
  have times : acceptedTimes (messageOf floodingPeer) (new onePeerConfig) evictingRun =
      [0, 2 * nanosPerSec] := by
    have split : evictingRun = crowding ++ [messageAt floodingPeer (2 * nanosPerSec)] := rfl
    have first : acceptedTimes (messageOf floodingPeer) (new onePeerConfig) crowding = [0] := by
      decide
    rw [split, acceptedTimes_concat, show run step (new onePeerConfig) crowding = crowdedLimiter
      from rfl, accepted, first]
    rfl
  refine ⟨⟨by simp [InOrder, evictingRun, crowding, messageAt, nanosPerSec], ?_⟩,
    wrapped_limit_exceeded (n := 2 ^ 32 - 1) (by decide)⟩
  rw [times]
  decide

end RateLimiter

end Bitchat
