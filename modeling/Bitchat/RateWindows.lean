import Bitchat.RateLimiter
import Bitchat.Rust.SlidingWindow

/-!
# The windows of the rate limiter

A window holds the times of the calls that it counted, whether or not they were
accepted. What each call of the limiter does to the global windows and to the
message window of a peer, and what is accepted is within.
-/
namespace Bitchat
open Rust

/-- The two kinds of calls that are limited. -/
inductive LimitedKind where
  | message
  | connection
  deriving DecidableEq

def LimiterCall.kind : LimiterCall → Option LimitedKind
  | .message _ => some .message
  | .connection _ => some .connection
  | .stats => none

def LimiterAnswer.accepted : LimiterAnswer → Bool
  | .checked (.ok _) => true
  | _ => false

/-- The window in nanoseconds. -/
def RateLimitConfig.span (config : RateLimitConfig) : ℕ := config.windowDurationSecs * nanosPerSec

def RateLimitConfig.globalLimit (config : RateLimitConfig) : LimitedKind → ℕ
  | .message => config.globalMessagesPerWindow
  | .connection => config.globalConnectionsPerWindow

namespace EventWindow

def span (w : EventWindow) : ℕ := w.windowDurationSecs * nanosPerSec

/-- Between `lower` and `upper`, of the recent events. -/
def Holds (w : EventWindow) (now : ℕ) (lower upper : List ℕ) : Prop :=
  Rust.Holds w.span now w.events lower upper

variable {w : EventWindow} {now : ℕ} {lower upper : List ℕ}

theorem events_cleanupOldEvents (w : EventWindow) (instant : ℕ) :
    (w.cleanupOldEvents instant).events = dropOld w.span instant w.events := rfl

/-- The new event is never dropped. -/
theorem events_addEvent (w : EventWindow) (instant : ℕ) :
    (w.addEvent instant).1.events = (w.cleanupOldEvents instant).events ++ [instant] :=
  dropOld_concat (by omega) w.events

@[simp] theorem span_addEvent (w : EventWindow) (instant : ℕ) :
    (w.addEvent instant).1.span = w.span := rfl

theorem count_addEvent (w : EventWindow) (instant : ℕ) :
    (w.addEvent instant).2 = ((w.cleanupOldEvents instant).events.length + 1) % 2 ^ 32 := by
  have added := congrArg List.length (events_addEvent w instant)
  rw [List.length_append, List.length_singleton] at added
  rw [← added]
  rfl

theorem Holds.cleanup (h : w.Holds now lower upper) :
    (w.cleanupOldEvents now).Holds now lower upper :=
  Rust.Holds.prune h

theorem Holds.addEvent (h : w.Holds now lower upper) :
    (w.addEvent now).1.Holds now (lower ++ [now]) (upper ++ [now]) := by
  unfold Holds
  rw [events_addEvent]
  exact Rust.Holds.add (Rust.Holds.prune h)

/-- What a new event is counted as, when the count fits 32 bits. -/
theorem Holds.count_addEvent (h : w.Holds now lower upper)
    (few : recentCount w.span now upper + 1 < 2 ^ 32) :
    recentCount w.span now lower + 1 ≤ (w.addEvent now).2 ∧
      (w.addEvent now).2 ≤ recentCount w.span now upper + 1 := by
  have bounds := Rust.Holds.length_prune h
  rw [EventWindow.count_addEvent, events_cleanupOldEvents, Nat.mod_eq_of_lt (by omega)]
  omega

end EventWindow

namespace RateLimiter

variable {r cleaned : RateLimiter} {p q : PeerId} {instant : ℕ} {order : PeerOrder}

def globalWindow (r : RateLimiter) : LimitedKind → EventWindow
  | .message => r.globalMessageWindow
  | .connection => r.globalConnectionWindow

/-- The entry of a peer, or the one that its next call makes. -/
def limitsOf (r : RateLimiter) (p : PeerId) (instant : ℕ) : PeerLimits :=
  (r.peerLimits.lookup p).getD (PeerLimits.new r.config instant)

/-- The message window of a peer's entry. -/
def messageWindowOf (r : RateLimiter) (p : PeerId) : EventWindow :=
  match r.peerLimits.lookup p with
  | some limits => limits.messageWindow
  | none => EventWindow.new r.config.windowDurationSecs

theorem messageWindow_limitsOf (r : RateLimiter) (p : PeerId) (instant : ℕ) :
    (r.limitsOf p instant).messageWindow = r.messageWindowOf p := by
  unfold limitsOf messageWindowOf
  cases r.peerLimits.lookup p <;> rfl

theorem fits_of_cleanup (h : r.cleanupOldPeers instant order = .ok cleaned) :
    ¬ 2 ^ 64 ≤ r.config.windowDurationSecs * 2 := by
  intro overflows
  rw [cleanupOldPeers, if_pos overflows] at h
  exact panicked_ne_ok _ h

/-- Cleaning up drops peers and changes nothing else. -/
theorem cleanupOldPeers_frame (h : r.cleanupOldPeers instant order = .ok cleaned) :
    cleaned.config = r.config ∧ (∀ kind, cleaned.globalWindow kind = r.globalWindow kind) ∧
      ∀ q, cleaned.peerLimits.lookup q = r.peerLimits.lookup q ∨
        cleaned.peerLimits.lookup q = none := by
  have fits := fits_of_cleanup h
  rw [cleanupOldPeers, if_neg fits] at h
  rw [← Except.ok.inj h]
  refine ⟨rfl, fun kind => by cases kind <;> rfl, ?_⟩
  intro q
  simp only [Map.lookup_foldl_erase, Map.lookup_retain]
  split_ifs
  · exact .inr rfl
  · cases r.peerLimits.lookup q with
    | none => exact .inl rfl
    | some limits =>
      rw [Option.filter_some]
      split_ifs
      · exact .inl rfl
      · exact .inr rfl

/-- A table within its limit keeps a peer that was active within two windows. -/
theorem lookup_cleanupOldPeers (h : r.cleanupOldPeers instant order = .ok cleaned)
    (room : Map.size r.peerLimits ≤ r.config.maxTrackedPeers) {limits : PeerLimits}
    (known : r.peerLimits.lookup p = some limits)
    (active : instant - limits.lastAccess < r.config.windowDurationSecs * 2 * nanosPerSec) :
    cleaned.peerLimits.lookup p = some limits := by
  have fits := fits_of_cleanup h
  rw [cleanupOldPeers, if_neg fits] at h
  have none_over := Nat.sub_eq_zero_of_le ((Map.size_retain_le (fun _ limits =>
    instant - limits.lastAccess < r.config.windowDurationSecs * 2 * nanosPerSec)
      r.peerLimits).trans room)
  rw [← Except.ok.inj h]
  simp only [none_over, List.take_zero, List.map_nil, List.foldl_nil, Map.lookup_retain, known]
  rw [Option.filter_some, if_pos (decide_eq_true active)]

/-- The clean-up does not look at the global windows. -/
theorem cleanupOldPeers_withWindows (r : RateLimiter) (messages connections : EventWindow)
    (instant : ℕ) (order : PeerOrder) :
    cleanupOldPeers { r with
        globalMessageWindow := messages, globalConnectionWindow := connections } instant order =
      (r.cleanupOldPeers instant order).map fun cleaned =>
        { cleaned with
          globalMessageWindow := messages, globalConnectionWindow := connections } := by
  unfold cleanupOldPeers
  split_ifs <;> rfl

section

variable {globalCount globalLimit peerLimit : ℕ} {kind : String}
  {addPeerEvent : PeerLimits → PeerLimits × ℕ}

/-- A check passes the global window, the clean-up and the window of the peer. -/
theorem check_eq_ok :
    (check globalCount globalLimit peerLimit kind addPeerEvent r p instant order).2 = .ok () ↔
      globalCount ≤ globalLimit ∧ ∃ cleaned, r.cleanupOldPeers instant order = .ok cleaned ∧
        (addPeerEvent { cleaned.limitsOf p instant with lastAccess := instant }).2 ≤ peerLimit := by
  unfold check
  by_cases full : globalLimit < globalCount
  · simp [full]
  · cases h : r.cleanupOldPeers instant order with
    | error e => simp [full]
    | ok cleaned => simp [full, limitsOf, not_lt.mp full]

theorem check_frame :
    (check globalCount globalLimit peerLimit kind addPeerEvent r p instant order).1.config =
        r.config ∧
      ∀ k, (check globalCount globalLimit peerLimit kind addPeerEvent r p instant
        order).1.globalWindow k = r.globalWindow k := by
  unfold check
  by_cases full : globalLimit < globalCount
  · simp [full]
  · cases h : r.cleanupOldPeers instant order with
    | error e => simp [full]
    | ok cleaned =>
      obtain ⟨config, windows, _⟩ := cleanupOldPeers_frame h
      simp only [if_neg full]
      refine ⟨config, fun k => ?_⟩
      rw [← windows k]
      cases k <;> rfl

/-- The entries after a check that gets past the global window. -/
theorem check_lookup (passed : globalCount ≤ globalLimit)
    (h : r.cleanupOldPeers instant order = .ok cleaned) (q : PeerId) :
    (check globalCount globalLimit peerLimit kind addPeerEvent r p instant
        order).1.peerLimits.lookup q =
      if q = p then
        some (addPeerEvent { cleaned.limitsOf p instant with lastAccess := instant }).1
      else cleaned.peerLimits.lookup q := by
  simp only [check, if_neg (not_lt.mpr passed), h, limitsOf]
  exact Map.lookup_insert_if q p _ cleaned.peerLimits

/-- A check that does not get to the peer's window leaves the entries alone. -/
theorem check_peerLimits
    (h : globalLimit < globalCount ∨ ∃ e, r.cleanupOldPeers instant order = .error e) :
    (check globalCount globalLimit peerLimit kind addPeerEvent r p instant order).1.peerLimits =
      r.peerLimits := by
  unfold check
  rcases h with full | ⟨e, he⟩
  · simp [full]
  · by_cases full : globalLimit < globalCount
    · simp [full]
    · simp [full, he]

end

/-- A call of a kind is counted in the global window of its kind. -/
theorem globalWindow_step {i : LimiterInput} {kind : LimitedKind} (h : i.call.kind = some kind) :
    (r.step i).1.globalWindow kind = ((r.globalWindow kind).addEvent i.instant).1 := by
  obtain ⟨call, instant, order⟩ := i
  cases call with
  | message p =>
    cases h
    exact check_frame.2 .message
  | connection p =>
    cases h
    exact check_frame.2 .connection
  | stats => cases h

/-- Another call leaves the window alone or cleans it up. -/
theorem globalWindow_step_of_other {i : LimiterInput} {kind : LimitedKind}
    (h : i.call.kind ≠ some kind) :
    (r.step i).1.globalWindow kind = r.globalWindow kind ∨
      (r.step i).1.globalWindow kind = (r.globalWindow kind).cleanupOldEvents i.instant := by
  obtain ⟨call, instant, order⟩ := i
  cases call with
  | message p =>
    cases kind with
    | message => exact absurd rfl h
    | connection => exact .inl (check_frame.2 .connection)
  | connection p =>
    cases kind with
    | message => exact .inl (check_frame.2 .message)
    | connection => exact absurd rfl h
  | stats =>
    change (r.getStats instant order).1.globalWindow kind = _ ∨
      (r.getStats instant order).1.globalWindow kind = _
    unfold getStats
    cases hclean : r.cleanupOldPeers instant order with
    | error e => exact .inl rfl
    | ok cleaned =>
      have same := (cleanupOldPeers_frame hclean).2.1 kind
      refine .inr ?_
      rw [← same]
      cases kind <;> rfl

theorem config_step (r : RateLimiter) (i : LimiterInput) : (r.step i).1.config = r.config := by
  obtain ⟨call, instant, order⟩ := i
  cases call with
  | message p => exact check_frame.1
  | connection p => exact check_frame.1
  | stats =>
    change (r.getStats instant order).1.config = _
    unfold getStats
    cases hclean : r.cleanupOldPeers instant order with
    | error e => rfl
    | ok cleaned => exact (cleanupOldPeers_frame hclean).1

theorem accepted_checked {result : BitchatResult Unit} :
    (LimiterAnswer.checked result).accepted = true ↔ result = .ok () := by
  cases result <;> simp [LimiterAnswer.accepted]

/-- What is accepted is within the global limit of its kind. -/
theorem globalCount_of_accepted {i : LimiterInput} {kind : LimitedKind}
    (h : i.call.kind = some kind) (accepted : (r.step i).2.accepted = true) :
    ((r.globalWindow kind).addEvent i.instant).2 ≤ r.config.globalLimit kind := by
  obtain ⟨call, instant, order⟩ := i
  cases call with
  | message p =>
    cases h
    exact (check_eq_ok.mp (accepted_checked.mp accepted)).1
  | connection p =>
    cases h
    exact (check_eq_ok.mp (accepted_checked.mp accepted)).1
  | stats => cases h

/-- The global window lets the call pass, so that it cleans up the peer table. -/
def ReachesCleanup (r : RateLimiter) (i : LimiterInput) : Prop :=
  ∀ kind, i.call.kind = some kind →
    ((r.globalWindow kind).addEvent i.instant).2 ≤ r.config.globalLimit kind

/-- A clean-up drops the peer's entry only when its messages are all older than
the window. -/
def DropsOld (p : PeerId) (r : RateLimiter) (instant : ℕ) (order : PeerOrder) : Prop :=
  ∀ cleaned limits, r.cleanupOldPeers instant order = .ok cleaned →
    r.peerLimits.lookup p = some limits → cleaned.peerLimits.lookup p = none →
      Rust.recentCount r.config.span instant limits.messageWindow.events = 0

/-- The clean-up of a call does not drop the peer's entry while it holds a message
of the window. -/
def KeepsRecent (p : PeerId) (r : RateLimiter) (i : LimiterInput) : Prop :=
  r.ReachesCleanup i → DropsOld p r i.instant i.order

/-- The message window of a peer after a clean-up that drops old messages only. -/
def CleanedWindow (p : PeerId) (r : RateLimiter) (instant : ℕ) (w : EventWindow) : Prop :=
  w = r.messageWindowOf p ∨ w = EventWindow.new r.config.windowDurationSecs ∧
    Rust.recentCount r.config.span instant (r.messageWindowOf p).events = 0

theorem cleanedWindow_of_dropsOld (h : r.cleanupOldPeers instant order = .ok cleaned)
    (drops : DropsOld p r instant order) :
    CleanedWindow p r instant (cleaned.messageWindowOf p) := by
  obtain ⟨config, _, entries⟩ := cleanupOldPeers_frame h
  rcases entries p with same | gone
  · refine .inl ?_
    simp only [messageWindowOf, same, config]
  · cases known : r.peerLimits.lookup p with
    | none =>
      refine .inl ?_
      simp only [messageWindowOf, gone, known, config]
    | some limits =>
      refine .inr ⟨?_, ?_⟩
      · simp only [messageWindowOf, gone, config]
      · have old := drops cleaned limits h known gone
        simpa only [messageWindowOf, known] using old

theorem messageWindowOf_eq {r' : RateLimiter} (config : r'.config = r.config)
    (entry : r'.peerLimits.lookup p = r.peerLimits.lookup p) :
    r'.messageWindowOf p = r.messageWindowOf p := by
  simp only [messageWindowOf, config, entry]

section

variable {globalCount globalLimit peerLimit : ℕ} {kind : String}
  {addPeerEvent : PeerLimits → PeerLimits × ℕ} {f : EventWindow → EventWindow}
  {after : RateLimiter × BitchatResult Unit}

/-- A check that stops before it comes to the peer refuses, and leaves the windows alone. -/
theorem check_of_stopped
    (hafter : check globalCount globalLimit peerLimit kind addPeerEvent r q instant order = after)
    (stopped : globalLimit < globalCount ∨ ∃ e, r.cleanupOldPeers instant order = .error e) :
    after.1.messageWindowOf p = r.messageWindowOf p ∧ after.2 ≠ .ok () := by
  rw [← hafter]
  constructor
  · apply messageWindowOf_eq check_frame.1
    rw [check_peerLimits stopped]
  · intro accepted
    obtain ⟨passed, cleaned, h, _⟩ := check_eq_ok.mp accepted
    rcases stopped with full | ⟨e, failed⟩
    · omega
    · cases failed.symm.trans h

/-- A check that comes to the peer adds its event there, and leaves the other peers with what
the clean-up left them. -/
theorem check_of_cleaned
    (hafter : check globalCount globalLimit peerLimit kind addPeerEvent r q instant order = after)
    (hadd : ∀ limits, (addPeerEvent limits).1.messageWindow = f limits.messageWindow)
    (passed : globalCount ≤ globalLimit) (hclean : r.cleanupOldPeers instant order = .ok cleaned) :
    after.1.messageWindowOf p =
        (if p = q then f (cleaned.messageWindowOf p) else cleaned.messageWindowOf p) ∧
      (after.2 = .ok () →
        (addPeerEvent { cleaned.limitsOf q instant with lastAccess := instant }).2 ≤
          peerLimit) := by
  have config : after.1.config = r.config := hafter ▸ check_frame.1
  have entries : after.1.peerLimits.lookup p = if p = q then
        some (addPeerEvent { cleaned.limitsOf q instant with lastAccess := instant }).1
      else cleaned.peerLimits.lookup p := by
    rw [← hafter]
    exact check_lookup passed hclean p
  have window : (cleaned.limitsOf p instant).messageWindow = cleaned.messageWindowOf p :=
    messageWindow_limitsOf cleaned p instant
  constructor
  · by_cases hp : p = q
    · rw [if_pos hp, ← window]
      rw [if_pos hp, ← hp] at entries
      simp only [messageWindowOf, entries]
      exact hadd { cleaned.limitsOf p instant with lastAccess := instant }
    · rw [if_neg hp]
      rw [if_neg hp] at entries
      exact messageWindowOf_eq (config.trans (cleanupOldPeers_frame hclean).1.symm) entries
  · intro accepted
    rw [← hafter] at accepted
    obtain ⟨_, cleaned', h, within⟩ := check_eq_ok.mp accepted
    rw [Except.ok.inj (hclean.symm.trans h)]
    exact within

/-- What a check does to the message window of a peer: the check of another peer
leaves the cleaned window, that of the peer itself adds its event. -/
theorem messageWindowOf_check
    (hafter : check globalCount globalLimit peerLimit kind addPeerEvent r q instant order = after)
    (hadd : ∀ limits, (addPeerEvent limits).1.messageWindow = f limits.messageWindow)
    (drops : globalCount ≤ globalLimit → DropsOld p r instant order) :
    (after.1.messageWindowOf p = r.messageWindowOf p ∧ after.2 ≠ .ok ()) ∨
      ∃ limits, CleanedWindow p r instant limits.messageWindow ∧
        after.1.messageWindowOf p =
          (if p = q then f limits.messageWindow else limits.messageWindow) ∧
        (p = q → after.2 = .ok () → (addPeerEvent limits).2 ≤ peerLimit) := by
  by_cases passed : globalCount ≤ globalLimit
  · cases hclean : r.cleanupOldPeers instant order with
    | error e => exact .inl (check_of_stopped hafter (.inr ⟨e, hclean⟩))
    | ok cleaned =>
      right
      obtain ⟨window, within⟩ := check_of_cleaned (p := p) hafter hadd passed hclean
      have same : (cleaned.limitsOf p instant).messageWindow = cleaned.messageWindowOf p :=
        messageWindow_limitsOf cleaned p instant
      refine ⟨{ cleaned.limitsOf p instant with lastAccess := instant }, ?_, ?_, ?_⟩
      · exact same ▸ cleanedWindow_of_dropsOld hclean (drops passed)
      · rw [same, window]
      · rintro rfl
        exact within
  · exact .inl (check_of_stopped hafter (.inl (not_le.mp passed)))

end

/-- Counting an event in a global window does not change what a clean-up drops. -/
theorem DropsOld.withWindows (messages connections : EventWindow)
    (h : DropsOld p r instant order) :
    DropsOld p { r with
      globalMessageWindow := messages, globalConnectionWindow := connections } instant order := by
  intro cleaned limits hclean known gone
  rw [cleanupOldPeers_withWindows] at hclean
  cases hplain : r.cleanupOldPeers instant order with
  | error e =>
    rw [hplain] at hclean
    cases hclean
  | ok plain =>
    rw [hplain] at hclean
    rw [← Except.ok.inj hclean] at gone
    exact h plain limits hplain known gone

theorem checkMessageAllowed_eq (r : RateLimiter) (q : PeerId) (instant : ℕ) (order : PeerOrder) :
    check (r.globalMessageWindow.addEvent instant).2 r.config.globalMessagesPerWindow
      r.config.messagesPerPeerPerWindow "message" (addMessageEvent instant)
      { r with globalMessageWindow := (r.globalMessageWindow.addEvent instant).1 } q instant
      order = r.checkMessageAllowed q instant order := rfl

theorem checkConnectionAllowed_eq (r : RateLimiter) (q : PeerId) (instant : ℕ)
    (order : PeerOrder) :
    check (r.globalConnectionWindow.addEvent instant).2 r.config.globalConnectionsPerWindow
      r.config.connectionsPerPeerPerWindow "connection" (addConnectionEvent instant)
      { r with globalConnectionWindow := (r.globalConnectionWindow.addEvent instant).1 } q instant
      order = r.checkConnectionAllowed q instant order := rfl

/-- After a call the message window of a peer is a cleaned window, to which its
own message has been added if the call was one that got that far. -/
def MovesWindow (p : PeerId) (r : RateLimiter) (i : LimiterInput) : Prop :=
  ∃ w, CleanedWindow p r i.instant w ∧
    (((r.step i).1.messageWindowOf p = w ∧
        (i.call = .message p → (r.step i).2.accepted = false)) ∨
      i.call = .message p ∧ (r.step i).1.messageWindowOf p = (w.addEvent i.instant).1 ∧
        ((r.step i).2.accepted = true →
          (w.addEvent i.instant).2 ≤ r.config.messagesPerPeerPerWindow))

/-- A check that the global window of its kind lets pass drops old messages only. -/
theorem KeepsRecent.dropsOld {i : LimiterInput} {kind : LimitedKind} (keeps : KeepsRecent p r i)
    (hkind : i.call.kind = some kind)
    (passed : ((r.globalWindow kind).addEvent i.instant).2 ≤ r.config.globalLimit kind) :
    DropsOld p r i.instant i.order := by
  apply keeps
  intro kind' hkind'
  cases hkind.symm.trans hkind'
  exact passed

theorem movesWindow_message (keeps : KeepsRecent p r ⟨.message q, instant, order⟩) :
    MovesWindow p r ⟨.message q, instant, order⟩ := by
  have drops (passed : (r.globalMessageWindow.addEvent instant).2 ≤
      r.config.globalMessagesPerWindow) : DropsOld p r instant order := keeps.dropsOld rfl passed
  rcases messageWindowOf_check (p := p) (f := fun w => (w.addEvent instant).1)
      (checkMessageAllowed_eq r q instant order) (fun limits => rfl)
      (fun passed => (drops passed).withWindows _ _) with
    ⟨same, refused⟩ | ⟨limits, cleanedWindow, window, within⟩
  · refine ⟨r.messageWindowOf p, .inl rfl, .inl ⟨same, fun _ => ?_⟩⟩
    exact Bool.eq_false_iff.mpr (mt accepted_checked.mp refused)
  · refine ⟨_, cleanedWindow, ?_⟩
    by_cases hp : p = q
    · right
      rw [if_pos hp] at window
      refine ⟨by rw [hp], window, fun accepted => ?_⟩
      exact within hp (accepted_checked.mp accepted)
    · left
      rw [if_neg hp] at window
      exact ⟨window, fun h => absurd (LimiterCall.message.inj h).symm hp⟩

theorem movesWindow_connection (keeps : KeepsRecent p r ⟨.connection q, instant, order⟩) :
    MovesWindow p r ⟨.connection q, instant, order⟩ := by
  have drops (passed : (r.globalConnectionWindow.addEvent instant).2 ≤
      r.config.globalConnectionsPerWindow) : DropsOld p r instant order :=
    keeps.dropsOld rfl passed
  have notMessage : LimiterCall.connection q ≠ .message p := by simp
  rcases messageWindowOf_check (p := p) (f := id)
      (checkConnectionAllowed_eq r q instant order) (fun limits => rfl)
      (fun passed => (drops passed).withWindows _ _) with
    ⟨same, _⟩ | ⟨limits, cleanedWindow, window, _⟩
  · exact ⟨r.messageWindowOf p, .inl rfl, .inl ⟨same, fun h => absurd h notMessage⟩⟩
  · refine ⟨_, cleanedWindow, .inl ⟨?_, fun h => absurd h notMessage⟩⟩
    exact window.trans (ite_self _)

theorem movesWindow_stats (keeps : KeepsRecent p r ⟨.stats, instant, order⟩) :
    MovesWindow p r ⟨.stats, instant, order⟩ := by
  have after : (r.step ⟨.stats, instant, order⟩).1 = (r.getStats instant order).1 := rfl
  cases hclean : r.cleanupOldPeers instant order with
  | error e =>
    refine ⟨r.messageWindowOf p, .inl rfl, .inl ⟨?_, by simp⟩⟩
    simp only [after, getStats, hclean]
  | ok cleaned =>
    have drops : DropsOld p r instant order := keeps (by simp [ReachesCleanup, LimiterCall.kind])
    refine ⟨_, cleanedWindow_of_dropsOld hclean drops, .inl ⟨?_, by simp⟩⟩
    simp only [after, getStats, hclean]
    rfl

theorem messageWindowOf_step {i : LimiterInput} (keeps : KeepsRecent p r i) :
    MovesWindow p r i := by
  obtain ⟨call, instant, order⟩ := i
  cases call with
  | message q => exact movesWindow_message keeps
  | connection q => exact movesWindow_connection keeps
  | stats => exact movesWindow_stats keeps

end RateLimiter

end Bitchat
