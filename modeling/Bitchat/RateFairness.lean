import Bitchat.RateEviction

/-!
# Fairness of the rate limiter

A peer below its own limit should be rejected only when accepted messages fill the
global limit. The windows count the rejected messages too: the global one all that
were sent, that of a peer all that passed the global test since its entry was made.
-/
namespace Bitchat
open Rust

namespace RateLimiter

variable {r cleaned : RateLimiter} {p q : PeerId} {instant : ℕ} {order : PeerOrder}
  {inputs before : List LimiterInput}

theorem cleanupOldPeers_ne_fail (r : RateLimiter) (instant : ℕ) (order : PeerOrder)
    (e : BitchatError) : r.cleanupOldPeers instant order ≠ fail e := by
  unfold cleanupOldPeers
  split_ifs <;> simp [fail, panicked]

/-- A check is rejected by the global window or by that of the peer. -/
theorem check_rejects {globalCount globalLimit peerLimit : ℕ} {kind : String}
    {addPeerEvent : PeerLimits → PeerLimits × ℕ} :
    (∃ e, (check globalCount globalLimit peerLimit kind addPeerEvent r p instant
        order).2 = fail e) ↔
      globalLimit < globalCount ∨ ∃ cleaned, r.cleanupOldPeers instant order = .ok cleaned ∧
        peerLimit < (addPeerEvent { cleaned.limitsOf p instant with lastAccess := instant }).2 := by
  unfold check
  by_cases full : globalLimit < globalCount
  · simp [full]
  · cases h : r.cleanupOldPeers instant order with
    | error fault =>
      have noError : ¬ ∃ e, (.error fault : BitchatResult Unit) = fail e := by
        rintro ⟨e, he⟩
        apply cleanupOldPeers_ne_fail r instant order e
        rw [h, Except.error.inj he]
        rfl
      simpa [full] using noError
    | ok cleaned =>
      simp only [full, false_or, Except.ok.injEq, exists_eq_left']
      exact failIf_fails

/-- The clean-up of a call keeps the entry of a peer: it was accessed within two windows
and is not among the least recently used ones beyond the limit. -/
def keepsEntry (r : RateLimiter) (p : PeerId) (instant : ℕ) (order : PeerOrder) : Bool :=
  decide (p ∈ r.recentPeers instant) && decide (p ∉ r.excessPeers instant order)

/-- A peer whose entry is not kept starts with an empty window. -/
theorem messageWindowOf_cleaned (h : r.cleanupOldPeers instant order = .ok cleaned) (p : PeerId) :
    cleaned.messageWindowOf p = if r.keepsEntry p instant order then r.messageWindowOf p
      else EventWindow.new r.config.windowDurationSecs := by
  have config := (cleanupOldPeers_frame h).1
  have entry := lookup_cleaned h p
  have absent (gone : cleaned.peerLimits.lookup p = none) :
      cleaned.messageWindowOf p = EventWindow.new r.config.windowDurationSecs := by
    rw [messageWindowOf, gone, config]
  by_cases excess : p ∈ r.excessPeers instant order
  · rw [if_pos excess] at entry
    rw [absent entry, if_neg (by simp [keepsEntry, excess])]
  · rw [if_neg excess] at entry
    by_cases recent : p ∈ r.recentPeers instant
    · obtain ⟨limits, known⟩ := Finmap.mem_iff.mp recent
      have same := (lookup_recentPeers.mp known).1
      rw [if_pos (by simp [keepsEntry, excess, recent])]
      exact messageWindowOf_eq config (entry.trans (known.trans same.symm))
    · rw [absent (entry.trans (Finmap.lookup_eq_none.mpr recent)),
        if_neg (by simp [keepsEntry, recent])]

/-- A call that gets past the global window adds a message to the cleaned window of its
peer, and leaves those of the others as they were cleaned. -/
theorem messageWindowOf_step_of_cleaned {i : LimiterInput} (reaches : r.ReachesCleanup i)
    (h : r.cleanupOldPeers i.instant i.order = .ok cleaned) (p : PeerId) :
    (r.step i).1.messageWindowOf p = if i.call = .message p
      then ((cleaned.messageWindowOf p).addEvent i.instant).1 else cleaned.messageWindowOf p := by
  obtain ⟨call, instant, order⟩ := i
  cases call with
  | message q =>
    have counted := cleanupOldPeers_counted h (r.globalMessageWindow.addEvent instant).1
    have window := (check_of_cleaned (p := p) (f := fun w => (w.addEvent instant).1)
      (checkMessageAllowed_eq r q instant order) (fun _ => rfl) (reaches .message rfl) counted).1
    simp only [LimiterCall.message.injEq, eq_comm (a := q)]
    exact window
  | connection q =>
    have counted := cleanupOldPeers_withWindows r r.globalMessageWindow
      (r.globalConnectionWindow.addEvent instant).1 instant order
    rw [h] at counted
    have window := (check_of_cleaned (p := p) (f := id)
      (checkConnectionAllowed_eq r q instant order) (fun _ => rfl) (reaches .connection rfl)
      counted).1
    rw [if_neg (by simp)]
    exact window.trans (ite_self _)
  | stats =>
    change (r.getStats instant order).1.messageWindowOf p = _
    rw [getStats, h]
    rfl

/-- A call whose clean-up panics enters nothing. -/
theorem peerLimits_step_of_panic {i : LimiterInput} {e : Fault BitchatError}
    (h : r.cleanupOldPeers i.instant i.order = .error e) :
    (r.step i).1.peerLimits = r.peerLimits := by
  obtain ⟨call, instant, order⟩ := i
  cases call with
  | message q =>
    have counted := cleanupOldPeers_withWindows r (r.globalMessageWindow.addEvent instant).1
      r.globalConnectionWindow instant order
    rw [h] at counted
    exact check_peerLimits (.inr ⟨e, counted⟩)
  | connection q =>
    have counted := cleanupOldPeers_withWindows r r.globalMessageWindow
      (r.globalConnectionWindow.addEvent instant).1 instant order
    rw [h] at counted
    exact check_peerLimits (.inr ⟨e, counted⟩)
  | stats =>
    change (r.getStats instant order).1.peerLimits = _
    rw [getStats, h]

/-- The messages of a peer that its entry still holds when its next one arrives. -/
def recordedFor (r : RateLimiter) (p : PeerId) (instant : ℕ) (order : PeerOrder) : ℕ :=
  match r.cleanupOldPeers instant order with
  | .error _ => 0
  | .ok cleaned => ((cleaned.messageWindowOf p).cleanupOldEvents instant).events.length

/-- A message is rejected when too many were counted, in all or of its peer. -/
theorem message_rejected_iff (r : RateLimiter) (p : PeerId) (instant : ℕ) (order : PeerOrder)
    (hlimit : 0 < r.config.messagesPerPeerPerWindow) :
    (∃ e, (r.step ⟨.message p, instant, order⟩).2 = .checked (fail e)) ↔
      r.config.globalMessagesPerWindow < (r.globalMessageWindow.addEvent instant).2 ∨
        r.config.messagesPerPeerPerWindow < (r.recordedFor p instant order + 1) % 2 ^ 32 := by
  have rejects : (∃ e, (r.step ⟨.message p, instant, order⟩).2 = .checked (fail e)) ↔
      ∃ e, (r.checkMessageAllowed p instant order).2 = fail e :=
    exists_congr fun e => ⟨LimiterAnswer.checked.inj, congrArg LimiterAnswer.checked⟩
  rw [rejects, ← checkMessageAllowed_eq, check_rejects]
  apply or_congr Iff.rfl
  rw [cleanupOldPeers_withWindows, recordedFor]
  cases r.cleanupOldPeers instant order with
  | error e =>
    refine iff_of_false ?_ ?_
    · rintro ⟨cleaned, h, _⟩
      cases h
    · change ¬ r.config.messagesPerPeerPerWindow < (0 + 1) % 2 ^ 32
      omega
  | ok cleaned =>
    have window : (cleaned.limitsOf p instant).messageWindow = cleaned.messageWindowOf p :=
      messageWindow_limitsOf cleaned p instant
    have count : (addMessageEvent instant
        { cleaned.limitsOf p instant with lastAccess := instant }).2 =
          (((cleaned.messageWindowOf p).cleanupOldEvents instant).events.length + 1) % 2 ^ 32 := by
      rw [← window, ← EventWindow.count_addEvent]
      rfl
    rw [← count]
    constructor
    · rintro ⟨_, h, exceeds⟩
      rw [← Except.ok.inj h] at exceeds
      exact exceeds
    · intro exceeds
      exact ⟨_, rfl, exceeds⟩

section

variable (config : RateLimitConfig)

/-- A call gets to the peer table: with the calls of its kind in the last window, itself
included, it is within the global limit. There the doubled window must fit 64 bits. -/
def getsThrough (before : List LimiterInput) (i : LimiterInput) : Bool :=
  decide (config.windowDurationSecs * 2 < 2 ^ 64) && i.call.kind.all fun kind =>
    (recentCount config.span i.instant (sentTimes (ofKind kind) before) + 1) % 2 ^ 32 ≤
      config.globalLimit kind

/-- What a peer's entry was sent before a call, unless the call's clean-up drops the entry. -/
def keptTimes (before : List LimiterInput) (p : PeerId) (instant : ℕ) (order : PeerOrder)
    (times : List ℕ) : List ℕ :=
  if (run step (new config) before).keepsEntry p instant order then times else []

/-- The times of a peer's messages that got through since its entry was made. The calls
are given newest first. -/
def timesSinceEntry (p : PeerId) : List LimiterInput → List ℕ
  | [] => []
  | i :: earlier =>
    if getsThrough config earlier.reverse i then
      keptTimes config earlier.reverse p i.instant i.order (timesSinceEntry p earlier) ++
        if messageOf p i.call then [i.instant] else []
    else timesSinceEntry p earlier

/-- The messages of a peer, within the last window, that got through since its entry was
made, if a call at this time does not drop the entry. -/
def passedOf (before : List LimiterInput) (p : PeerId) (instant : ℕ) (order : PeerOrder) : ℕ :=
  Rust.recentCount config.span instant
    (keptTimes config before p instant order (timesSinceEntry config p before.reverse))

/-- The messages of the peer, and of all peers, that were accepted within the last window. -/
def acceptedOf (before : List LimiterInput) (p : PeerId) (instant : ℕ) : ℕ :=
  Rust.recentCount config.span instant (acceptedTimes (messageOf p) (new config) before)

def acceptedOfAll (before : List LimiterInput) (instant : ℕ) : ℕ :=
  Rust.recentCount config.span instant (acceptedTimes (ofKind .message) (new config) before)

/-- The messages of all peers within the last window, whether accepted or not. -/
def sentByAll (before : List LimiterInput) (instant : ℕ) : ℕ :=
  Rust.recentCount config.span instant (sentTimes (ofKind .message) before)

/-- A peer below its own limit is rejected only when the accepted messages fill the
global limit. -/
def Fair (before : List LimiterInput) (p : PeerId) (instant : ℕ) (order : PeerOrder) : Prop :=
  acceptedOf config before p instant < config.messagesPerPeerPerWindow →
    (∃ e, ((run step (new config) before).step ⟨.message p, instant, order⟩).2 =
      .checked (fail e)) →
    config.globalMessagesPerWindow ≤ acceptedOfAll config before instant

/-- While there is room among the accepted messages, there is room among the counted
ones: those that all peers sent, and those of the peer that got through to its entry. -/
def Roomy (before : List LimiterInput) (p : PeerId) (instant : ℕ) (order : PeerOrder) : Prop :=
  acceptedOf config before p instant < config.messagesPerPeerPerWindow →
    acceptedOfAll config before instant < config.globalMessagesPerWindow →
    (sentByAll config before instant + 1) % 2 ^ 32 ≤ config.globalMessagesPerWindow ∧
      (passedOf config before p instant order + 1) % 2 ^ 32 ≤ config.messagesPerPeerPerWindow

variable {config}

/-- A call is counted with all calls of its kind in the last window. -/
theorem globalCount_of_sent (kind : LimitedKind) (ordered : InOrder before)
    (past : ∀ i ∈ before, i.instant ≤ instant) :
    (((run step (new config) before).globalWindow kind).addEvent instant).2 =
      (recentCount config.span instant (sentTimes (ofKind kind) before) + 1) % 2 ^ 32 := by
  obtain ⟨span, holds⟩ := globalWindow_holds config kind ordered past
  have bounds := Rust.Holds.length_prune holds
  rw [span] at bounds
  rw [EventWindow.count_addEvent, EventWindow.events_cleanupOldEvents, span,
    le_antisymm bounds.2 bounds.1]

/-- A call gets through exactly if it comes to a clean-up that does not panic. -/
theorem getsThrough_iff {i : LimiterInput} (ordered : InOrder (before ++ [i])) :
    getsThrough config before i = true ↔
      config.windowDurationSecs * 2 < 2 ^ 64 ∧ (run step (new config) before).ReachesCleanup i := by
  obtain ⟨orderedBefore, past⟩ := inOrder_concat.mp ordered
  have sameConfig : (run step (new config) before).config = config := config_run _ _
  rw [getsThrough, Bool.and_eq_true, decide_eq_true_eq]
  apply and_congr_right
  intro _
  unfold ReachesCleanup
  rw [sameConfig]
  simp only [globalCount_of_sent _ orderedBefore past]
  cases i.call.kind with
  | none => simp
  | some kind => simp

/-- What is left of a window that holds the given times. -/
theorem holds_keptTimes {times : List ℕ}
    (h : ((run step (new config) before).messageWindowOf p).span = config.span ∧
      ((run step (new config) before).messageWindowOf p).Holds instant times times)
    (cleans : (run step (new config) before).cleanupOldPeers instant order = .ok cleaned) :
    (cleaned.messageWindowOf p).span = config.span ∧ (cleaned.messageWindowOf p).Holds instant
      (keptTimes config before p instant order times)
      (keptTimes config before p instant order times) := by
  have sameConfig : (run step (new config) before).config = config := config_run _ _
  rw [messageWindowOf_cleaned cleans p, keptTimes]
  split_ifs
  · exact h
  · rw [sameConfig]
    exact ⟨rfl, Rust.Holds.empty _ _ _⟩

/-- The window of a peer holds exactly what got through since its entry was made. -/
theorem messageWindowOf_holds_passed (ordered : InOrder inputs) {now : ℕ}
    (past : ∀ i ∈ inputs, i.instant ≤ now) :
    ((run step (new config) inputs).messageWindowOf p).span = config.span ∧
      ((run step (new config) inputs).messageWindowOf p).Holds now
        (timesSinceEntry config p inputs.reverse) (timesSinceEntry config p inputs.reverse) := by
  induction inputs using List.reverseRecOn generalizing now with
  | nil => exact ⟨rfl, Rust.Holds.empty _ _ _⟩
  | append_singleton before i ih =>
    obtain ⟨orderedBefore, pastBefore⟩ := inOrder_concat.mp ordered
    have present : i.instant ≤ now := past i (by simp)
    have sameConfig : (run step (new config) before).config = config := config_run _ _
    rw [run_concat, List.reverse_concat, timesSinceEntry, List.reverse_reverse]
    by_cases through : getsThrough config before i = true
    · obtain ⟨fits, reaches⟩ := (getsThrough_iff ordered).mp through
      rw [← sameConfig] at fits
      obtain ⟨cleaned, cleans⟩ := cleanupOldPeers_of_fits i.instant i.order fits
      obtain ⟨span, holds⟩ := holds_keptTimes (ih orderedBefore pastBefore) cleans
      rw [if_pos through, messageWindowOf_step_of_cleaned reaches cleans]
      by_cases own : i.call = .message p
      · rw [if_pos own, if_pos (messageOf_iff.mpr own)]
        exact ⟨span, Rust.Holds.advance holds.addEvent present⟩
      · rw [if_neg own, if_neg (mt messageOf_iff.mp own), List.append_nil]
        exact ⟨span, Rust.Holds.advance holds present⟩
    · -- the call stops before the peer table, or panics there
      have same : ((run step (new config) before).step i).1.peerLimits =
          (run step (new config) before).peerLimits := by
        by_cases reaches : (run step (new config) before).ReachesCleanup i
        · have overflows : 2 ^ 64 ≤ config.windowDurationSecs * 2 := by
            by_contra fits
            exact through ((getsThrough_iff ordered).mpr ⟨not_le.mp fits, reaches⟩)
          rw [← sameConfig] at overflows
          exact peerLimits_step_of_panic (if_pos overflows)
        · exact peerLimits_step_of_full reaches
      obtain ⟨span, holds⟩ := ih orderedBefore pastBefore
      rw [if_neg through, messageWindowOf_eq (config_step _ i) (congrArg _ same)]
      exact ⟨span, Rust.Holds.advance holds present⟩

/-- Without a clean-up that returns no message ever gets through. -/
theorem timesSinceEntry_of_overflow (overflows : ¬ config.windowDurationSecs * 2 < 2 ^ 64)
    (calls : List LimiterInput) : timesSinceEntry config p calls = [] := by
  induction calls with
  | nil => rfl
  | cons i earlier ih =>
    have stopped : getsThrough config earlier.reverse i = false := by
      rw [getsThrough, decide_eq_false overflows, Bool.false_and]
    rw [timesSinceEntry, stopped, ih]
    rfl

/-- The entry of a peer holds, when its next message arrives, what got through to it. -/
theorem recordedFor_eq (ordered : InOrder before) (past : ∀ i ∈ before, i.instant ≤ instant) :
    (run step (new config) before).recordedFor p instant order =
      passedOf config before p instant order := by
  have sameConfig : (run step (new config) before).config = config := config_run _ _
  by_cases fits : config.windowDurationSecs * 2 < 2 ^ 64
  · rw [← sameConfig] at fits
    obtain ⟨cleaned, cleans⟩ := cleanupOldPeers_of_fits instant order fits
    obtain ⟨span, holds⟩ :=
      holds_keptTimes (messageWindowOf_holds_passed (p := p) ordered past) cleans
    have bounds := Rust.Holds.length_prune holds
    rw [span] at bounds
    rw [recordedFor, cleans]
    change ((cleaned.messageWindowOf p).cleanupOldEvents instant).events.length = _
    rw [EventWindow.events_cleanupOldEvents, span]
    exact le_antisymm bounds.2 bounds.1
  · have panics : (run step (new config) before).cleanupOldPeers instant order = panicked := by
      rw [← sameConfig, not_lt] at fits
      exact if_pos fits
    have none : passedOf config before p instant order = 0 := by
      rw [passedOf, timesSinceEntry_of_overflow fits, keptTimes, ite_self]
      rfl
    rw [none, recordedFor, panics]
    rfl

theorem fair_iff_roomy (ordered : InOrder before) (past : ∀ i ∈ before, i.instant ≤ instant) :
    Fair config before p instant order ↔ Roomy config before p instant order := by
  have sameConfig : (run step (new config) before).config = config := config_run _ _
  have below : ∀ hlimit : 0 < config.messagesPerPeerPerWindow,
      (∃ e, ((run step (new config) before).step ⟨.message p, instant, order⟩).2 =
        .checked (fail e)) ↔
      config.globalMessagesPerWindow < (sentByAll config before instant + 1) % 2 ^ 32 ∨
        config.messagesPerPeerPerWindow <
          (passedOf config before p instant order + 1) % 2 ^ 32 := by
    intro hlimit
    have rejected := message_rejected_iff (run step (new config) before) p instant order
      (by rw [sameConfig]; exact hlimit)
    have counted : ((run step (new config) before).globalMessageWindow.addEvent instant).2 =
        (sentByAll config before instant + 1) % 2 ^ 32 := globalCount_of_sent .message ordered past
    rwa [sameConfig, counted, recordedFor_eq ordered past] at rejected
  unfold Fair Roomy
  constructor
  · intro fair room roomInAll
    by_contra full
    have rejected := (below (by omega)).mpr (by omega)
    have := fair room rejected
    omega
  · intro roomy room rejected
    by_contra full
    have counted := roomy room (by omega)
    have := (below (by omega)).mp rejected
    omega

/-- Every message of the run is treated fairly. -/
def FairRun (config : RateLimitConfig) (inputs : List LimiterInput) : Prop :=
  ∀ before p instant order rest, inputs = before ++ ⟨.message p, instant, order⟩ :: rest →
    Fair config before p instant order

def RoomyRun (config : RateLimitConfig) (inputs : List LimiterInput) : Prop :=
  ∀ before p instant order rest, inputs = before ++ ⟨.message p, instant, order⟩ :: rest →
    Roomy config before p instant order

/-- A run is fair exactly if at each of its messages the rejected ones have not
filled a window that the accepted ones leave room in. -/
theorem fairRun_iff_roomyRun (inputs : List LimiterInput) (ordered : InOrder inputs) :
    FairRun config inputs ↔ RoomyRun config inputs := by
  unfold FairRun RoomyRun
  refine forall₅_congr fun before p instant order rest => forall_congr' fun heq => ?_
  rw [heq] at ordered
  exact fair_iff_roomy ordered.of_append (inOrder_concat.mp ordered.upTo).2

end

/-- Three messages of one peer, of which one is accepted. -/
def flood : List LimiterInput :=
  [messageAt floodingPeer 0, messageAt floodingPeer 0, messageAt floodingPeer 0]

def narrowConfig : RateLimitConfig := { RateLimitConfig.default with
  messagesPerPeerPerWindow := 1
  globalMessagesPerWindow := 2 }

theorem first_message_fair : FairRun narrowConfig [messageAt quietPeer 0] := by
  apply (fairRun_iff_roomyRun [messageAt quietPeer 0] (by simp [InOrder])).mpr
  intro before p instant order rest heq
  cases before with
  | nil =>
    cases heq
    intro _ _
    decide
  | cons i before => simp at heq

/-- After a flood the first message of another peer is rejected, though only one
message was accepted. -/
theorem flood_starves_others :
    InOrder (flood ++ [messageAt quietPeer 0]) ∧
      acceptedTimes (ofKind .message) (new narrowConfig) flood = [0] ∧
      ¬ FairRun narrowConfig (flood ++ [messageAt quietPeer 0]) := by
  refine ⟨by simp [InOrder, flood, messageAt], by decide, ?_⟩
  intro fair
  have full := fair flood quietPeer 0 twoPeers [] rfl (by decide) ⟨_, rfl⟩
  exact absurd full (by decide)

end RateLimiter

end Bitchat
